import GreenJade.Fs.RamPaths

/-! Owns what `path_norm` computes: the components of a path are put on a stack, where a dot puts
nothing and two dots take the top away, and the stack is written out with slashes. A path that is
written so is left as it is. -/

namespace GreenJade.Fs

open List

/-! ### Components -/

/-- A component that stays on the stack. -/
structure Plain (comp : Path) : Prop where
  nonempty : comp ≠ []
  notDot : comp ≠ [dot]
  notDots : comp ≠ [dot, dot]
  noSlash : slash ∉ comp

theorem components_append (a b : Path) :
    components (a ++ slash :: b) = components a ++ components b := by
  unfold components
  rw [splitOn_append_cons_self, filter_append]

theorem components_nil : components [] = [] := by
  decide

variable {comp path : Path}

theorem components_of_noSlash (nonempty : comp ≠ []) (noSlash : slash ∉ comp) :
    components comp = [comp] := by
  unfold components
  rw [splitOn_eq_singleton noSlash]
  simp [nonempty]

theorem noSlash_of_mem_splitOn : ∀ {path comp : Path}, comp ∈ path.splitOn slash → slash ∉ comp
  | [], comp, inside => by
    rw [splitOn_nil, mem_singleton] at inside
    rw [inside]
    exact not_mem_nil
  | byte :: rest, comp, inside => by
    rw [splitOn_cons_eq_if_modifyHead] at inside
    split_ifs at inside with isSlash
    · rcases mem_cons.mp inside with rfl | inside
      · exact not_mem_nil
      · exact noSlash_of_mem_splitOn inside
    · have later {comp : Path} (inside : comp ∈ rest.splitOn slash) : slash ∉ comp :=
        noSlash_of_mem_splitOn inside
      cases split : rest.splitOn slash with
      | nil => exact absurd split (splitOn_ne_nil slash rest)
      | cons first others =>
        rw [split] at later
        rw [split, modifyHead_cons] at inside
        rcases mem_cons.mp inside with rfl | inside
        · rw [mem_cons, not_or]
          refine ⟨?_, later mem_cons_self⟩
          rintro rfl
          exact isSlash BEq.rfl
        · exact later (mem_cons_of_mem _ inside)

/-- What stands between slashes is not empty and has no slash. -/
theorem of_mem_components (inside : comp ∈ components path) : comp ≠ [] ∧ slash ∉ comp := by
  obtain ⟨inside, nonempty⟩ := mem_filter.mp inside
  exact ⟨of_decide_eq_true nonempty, noSlash_of_mem_splitOn inside⟩

/-! ### Stacks -/

/-- A stack of components, the latest first, written out with a slash before each. -/
def flat : List Path → Path
  | [] => []
  | comp :: below => flat below ++ slash :: comp

def render : List Path → Path
  | [] => [slash]
  | comp :: below => flat (comp :: below)

def startsOf : List Path → List Nat
  | [] => []
  | _ :: below => ((flat below).length + 1) :: startsOf below

/-- The state of `path_norm` with a stack. -/
def Norm.of (stack : List Path) : Norm := { out := render stack, starts := startsOf stack }

/-- What a component does to the stack. -/
def reduceStep (stack : List Path) (comp : Path) : List Path :=
  if comp = [dot] then stack else if comp = [dot, dot] then stack.tail else comp :: stack

/-- A stack that `path_norm` can hold. -/
structure Fits (stack : List Path) : Prop where
  plain : ∀ comp ∈ stack, Plain comp
  depth : stack.length ≤ 32
  length : (flat stack).length < vfsMaxPath

theorem length_startsOf : ∀ stack : List Path, (startsOf stack).length = stack.length
  | [] => rfl
  | _ :: below => congrArg (· + 1) (length_startsOf below)

theorem length_flat_cons (comp : Path) (below : List Path) :
    (flat (comp :: below)).length = (flat below).length + 1 + comp.length := by
  simp only [flat, length_append, length_cons]
  omega

theorem Fits.nil : Fits [] := ⟨nofun, Nat.zero_le _, by decide⟩

variable {stack : List Path}

theorem Fits.tail (fits : Fits stack) : Fits stack.tail := by
  cases stack with
  | nil => exact fits
  | cons comp below =>
    have length := fits.length
    have depth := fits.depth
    rw [length_flat_cons] at length
    rw [length_cons] at depth
    exact ⟨fun c inside => fits.plain c (mem_cons_of_mem _ inside), by
      rw [tail_cons]
      omega, by
      rw [tail_cons]
      omega⟩

/-- Components are not empty, so that only the empty stack is written out as one byte. -/
theorem one_lt_length_render {below : List Path} (plain : Plain comp) :
    1 < (render (comp :: below)).length := by
  have some := length_pos_of_ne_nil plain.nonempty
  rw [render, length_flat_cons]
  omega

theorem flat_take (comp : Path) (below : List Path) :
    (flat (comp :: below)).take (flat below).length = flat below :=
  take_left' rfl

/-- Two dots cut the path where the top component starts. -/
theorem render_take_pop (comp : Path) {below : List Path} (plain : ∀ c ∈ below, Plain c) :
    (render (comp :: below)).take (if 1 < (flat below).length + 1 then (flat below).length + 1 - 1
      else (flat below).length + 1) = render below := by
  cases below with
  | nil => rfl
  | cons next rest =>
    have long : 1 < (flat (next :: rest)).length := one_lt_length_render (plain next mem_cons_self)
    rw [if_pos (by omega)]
    exact flat_take comp (next :: rest)

/-- A component is written after a slash, which the root has already. -/
theorem render_slash (plain : ∀ c ∈ stack, Plain c) :
    (if 1 < (render stack).length then render stack ++ [slash] else render stack) =
      flat stack ++ [slash] := by
  cases stack with
  | nil => rfl
  | cons comp below =>
    rw [if_pos (one_lt_length_render (plain comp mem_cons_self))]
    rfl

/-! ### The loop of path_norm -/

/-- What one component does: `path_norm` gives up when the stack or its path gets too long. -/
theorem Norm.push_of (plain : ∀ c ∈ stack, Plain c) (comp : Path) : (Norm.of stack).push comp =
      if comp = [dot] then .ok (Norm.of stack)
      else if comp = [dot, dot] then .ok (Norm.of stack.tail)
      else if 32 ≤ stack.length ∨ vfsMaxPath ≤ (flat (comp :: stack)).length then .error (-36)
      else .ok (Norm.of (comp :: stack)) := by
  refine if_congr Iff.rfl rfl (if_congr Iff.rfl ?_ ?_)
  · cases stack with
    | nil => rfl
    | cons top below =>
      have below_plain (c : Path) (inside : c ∈ below) : Plain c :=
        plain c (mem_cons_of_mem _ inside)
      exact congrArg (fun out => Except.ok (Norm.mk out (startsOf below)))
        (render_take_pop top below_plain)
  · have slashed : (if 1 < (Norm.of stack).out.length then (Norm.of stack).out ++ [slash]
        else (Norm.of stack).out) = flat stack ++ [slash] := render_slash plain
    have depth : (Norm.of stack).starts.length = stack.length := length_startsOf stack
    have early : 1 < (Norm.of stack).out.length →
        (Norm.of stack).out.length = (flat stack).length := by
      cases stack with
      | nil => exact fun long => absurd long (by decide)
      | cons top below => exact fun _ => rfl
    have length := length_flat_cons comp stack
    have written : flat stack ++ [slash] ++ comp = flat (comp :: stack) := by
      rw [append_assoc]
      rfl
    simp only [slashed, depth, length_append, length_singleton, written, ← length]
    split
    · next deep =>
          rw [if_pos (Or.inl deep)]
    by_cases long : vfsMaxPath ≤ (flat (comp :: stack)).length
    · rw [if_pos long, ite_self, if_pos (Or.inr long)]
    rw [if_neg (by omega), if_neg long, if_neg (by omega)]
    rfl

theorem Norm.push_of_eq_ok (fits : Fits stack)
    (nonempty : comp ≠ []) (noSlash : slash ∉ comp) {norm : Norm}
    (pushed : (Norm.of stack).push comp = .ok norm) :
    norm = Norm.of (reduceStep stack comp) ∧ Fits (reduceStep stack comp) := by
  rw [Norm.push_of fits.plain] at pushed
  unfold reduceStep
  split_ifs at pushed ⊢ with isDot isDots tooLong
  · exact ⟨(Except.ok.inj pushed).symm, fits⟩
  · exact ⟨(Except.ok.inj pushed).symm, fits.tail⟩
  · rw [not_or, Nat.not_le, Nat.not_le] at tooLong
    refine ⟨(Except.ok.inj pushed).symm, ?_, tooLong.1, tooLong.2⟩
    intro c inside
    rcases mem_cons.mp inside with rfl | inside
    · exact ⟨nonempty, isDot, isDots, noSlash⟩
    · exact fits.plain c inside

/-- The whole loop reduces the stack. -/
theorem foldlM_push_eq_ok : ∀ (comps : List Path) {stack : List Path} {norm : Norm},
    Fits stack → (∀ comp ∈ comps, comp ≠ [] ∧ slash ∉ comp) →
    comps.foldlM Norm.push (Norm.of stack) = .ok norm →
    norm = Norm.of (comps.foldl reduceStep stack) ∧ Fits (comps.foldl reduceStep stack)
  | [], stack, norm, fits, _, folded => ⟨(Except.ok.inj folded).symm, fits⟩
  | comp :: rest, stack, norm, fits, good, folded => by
    rw [foldlM_cons] at folded
    obtain ⟨nonempty, noSlash⟩ := good comp mem_cons_self
    cases pushed : (Norm.of stack).push comp with
    | error code =>
      rw [pushed] at folded
      cases folded
    | ok next =>
      obtain ⟨rfl, fits'⟩ := Norm.push_of_eq_ok fits nonempty noSlash pushed
      rw [pushed] at folded
      exact foldlM_push_eq_ok rest fits' (fun c inside => good c (mem_cons_of_mem _ inside)) folded

/-- Components that fit are pushed one after the other. -/
theorem foldlM_push_reverse : ∀ {stack : List Path}, Fits stack →
    stack.reverse.foldlM Norm.push (Norm.of []) = .ok (Norm.of stack)
  | [], _ => rfl
  | comp :: below, fits => by
    have plain := fits.plain comp mem_cons_self
    have depth := fits.depth
    rw [length_cons] at depth
    have below_pushed : below.reverse.foldlM Norm.push (Norm.of []) = .ok (Norm.of below) :=
      foldlM_push_reverse fits.tail
    rw [reverse_cons, foldlM_append, below_pushed]
    have pushed := Norm.push_of fits.tail.plain comp
    rw [tail_cons, if_neg plain.notDot, if_neg plain.notDots, if_neg] at pushed
    · simp only [foldlM_cons, foldlM_nil, bind, Except.bind, pushed]
      rfl
    · rintro (deep | long)
      · omega
      · exact absurd fits.length (Nat.not_lt.mpr long)

/-! ### Normal forms -/

theorem components_flat : ∀ {stack : List Path}, (∀ comp ∈ stack, Plain comp) →
    components (flat stack) = stack.reverse
  | [], _ => components_nil
  | comp :: below, plain => by
    have top := plain comp mem_cons_self
    rw [flat, components_append, components_of_noSlash top.nonempty top.noSlash,
      components_flat fun c inside => plain c (mem_cons_of_mem _ inside), reverse_cons]

theorem components_render (plain : ∀ comp ∈ stack, Plain comp) :
    components (render stack) = stack.reverse := by
  cases stack with
  | nil => decide
  | cons comp below => exact components_flat plain

theorem head_flat : ∀ (comp : Path) (below : List Path),
    ∃ rest, flat (comp :: below) = slash :: rest
  | comp, [] => ⟨comp, rfl⟩
  | comp, next :: below => by
    obtain ⟨rest, starts⟩ := head_flat next below
    exact ⟨rest ++ slash :: comp, by rw [flat, starts, cons_append]⟩

theorem head_render (stack : List Path) : ∃ rest, render stack = slash :: rest := by
  cases stack with
  | nil => exact ⟨[], rfl⟩
  | cons comp below => exact head_flat comp below

theorem pathNorm_slash (rest : Path) : pathNorm (slash :: rest) =
      ((components (slash :: rest)).foldlM Norm.push (Norm.of [])).map fun norm => norm.out := by
  unfold pathNorm
  rfl

/-- What `path_norm` returns: the stack of the path's components, written out. -/
theorem pathNorm_eq_ok {out : Path} (normed : pathNorm path = .ok out) :
    out = render ((components path).foldl reduceStep []) ∧
      Fits ((components path).foldl reduceStep []) := by
  cases path with
  | nil => cases normed
  | cons first rest =>
    by_cases isSlash : first = slash
    · subst isSlash
      rw [pathNorm_slash] at normed
      cases folded : (components (slash :: rest)).foldlM Norm.push (Norm.of []) with
      | error code =>
        rw [folded] at normed
        cases normed
      | ok norm =>
        rw [folded] at normed
        obtain ⟨shape, fits⟩ := foldlM_push_eq_ok (components (slash :: rest)) Fits.nil
          (fun comp inside => of_mem_components inside) folded
        have returned : norm.out = out := Except.ok.inj normed
        rw [shape] at returned
        exact ⟨returned.symm, fits⟩
    · have refused : pathNorm (first :: rest) = .error (-22) := if_pos isSlash
      rw [refused] at normed
      cases normed

/-- A stack that fits, written out, is left as it is. -/
theorem pathNorm_render (fits : Fits stack) : pathNorm (render stack) = .ok (render stack) := by
  obtain ⟨rest, starts⟩ := head_render stack
  rw [starts, pathNorm_slash, ← starts, components_render fits.plain, foldlM_push_reverse fits]
  rfl

theorem length_render_lt (fits : Fits stack) : (render stack).length < vfsMaxPath := by
  cases stack with
  | nil => exact (by decide : 1 < vfsMaxPath)
  | cons comp below => exact fits.length

/-- A path in the form that `path_norm` gives. -/
def Canonical (path : Path) : Prop := pathNorm path = .ok path

instance (path : Path) : Decidable (Canonical path) :=
  inferInstanceAs (Decidable (pathNorm path = .ok path))

/-- `path_norm` is idempotent. -/
theorem canonical_pathNorm {out : Path} (normed : pathNorm path = .ok out) : Canonical out := by
  obtain ⟨rfl, fits⟩ := pathNorm_eq_ok normed
  exact pathNorm_render fits

/-- A normal form fits a name buffer. -/
theorem Canonical.length_lt (canonical : Canonical path) : path.length < vfsMaxPath := by
  obtain ⟨shape, fits⟩ := pathNorm_eq_ok canonical
  rw [shape]
  exact length_render_lt fits

/-! ### Joined components -/

/-- The components of a path, reduced from left to right on a stack. -/
def reduced (path : Path) : List Path := ((components path).foldl reduceStep []).reverse

theorem splitOn_flat : ∀ {stack : List Path}, (∀ comp ∈ stack, Plain comp) →
    (flat stack).splitOn slash = [] :: stack.reverse
  | [], _ => rfl
  | comp :: below, plain => by
    have top := plain comp mem_cons_self
    rw [flat, splitOn_append_cons_self, splitOn_eq_singleton top.noSlash,
      splitOn_flat fun c inside => plain c (mem_cons_of_mem _ inside), reverse_cons,
      cons_append]

section

variable (plain : ∀ comp ∈ stack, Plain comp)
include plain

theorem splitOn_tail_render (nonempty : stack ≠ []) :
    (render stack).tail.splitOn slash = stack.reverse := by
  cases stack with
  | nil => exact absurd rfl nonempty
  | cons comp below =>
    obtain ⟨rest, starts⟩ := head_flat comp below
    have split := splitOn_flat plain
    rw [starts] at split
    rw [render, starts]
    exact (List.cons.inj split).2

theorem render_eq_intercalate : render stack = slash :: [slash].intercalate stack.reverse := by
  by_cases empty : stack = []
  · subst empty
    rfl
  · obtain ⟨rest, starts⟩ := head_render stack
    rw [← splitOn_tail_render plain empty, intercalate_splitOn, starts]
    rfl

/-- Only the root ends in a slash: the last component is not empty and has none. -/
theorem render_of_getLast_slash
    (ends : (render stack).getLast? = some slash) : render stack = [slash] := by
  cases stack with
  | nil => rfl
  | cons comp below =>
    have top := plain comp mem_cons_self
    rw [render, flat, getLast?_append, getLast?_cons, getLast?_eq_some_getLast top.nonempty] at ends
    exact absurd (Option.some.inj ends ▸ getLast_mem top.nonempty) top.noSlash

end

/-- `path_norm` joins the reduced components, so that it decides whether two paths reduce to the
same. -/
theorem pathNorm_reduces {path out : Path} (normed : pathNorm path = .ok out) :
    out = slash :: [slash].intercalate (reduced path) ∧
      (out = [slash] ∨ ∀ comp ∈ out.tail.splitOn slash, Plain comp) ∧
      (out.getLast? = some slash → out = [slash]) ∧ pathNorm out = .ok out ∧
      ∀ path' out', pathNorm path' = .ok out' → (out' = out ↔ reduced path' = reduced path) := by
  obtain ⟨rfl, fits⟩ := pathNorm_eq_ok normed
  refine ⟨render_eq_intercalate fits.plain, ?_, render_of_getLast_slash fits.plain,
    canonical_pathNorm normed, ?_⟩
  · by_cases empty : (components path).foldl reduceStep [] = []
    · exact .inl (by rw [empty]; rfl)
    · right
      intro comp inside
      rw [splitOn_tail_render fits.plain empty, mem_reverse] at inside
      exact fits.plain comp inside
  · intro path' out' normed'
    obtain ⟨rfl, fits'⟩ := pathNorm_eq_ok normed'
    constructor
    · intro same
      have split := congrArg components same
      rwa [components_render fits'.plain, components_render fits.plain] at split
    · intro same
      rw [reverse_injective same]

/-- A path with every kind of component that is dropped. -/
theorem pathNorm_reduces_dots : pathNorm (bytesOf "/a//./b/../../../c/") = .ok (bytesOf "/c") ∧
      bytesOf "/c" = slash :: [slash].intercalate (reduced (bytesOf "/a//./b/../../../c/")) := by
  have normed : pathNorm (bytesOf "/a//./b/../../../c/") = .ok (bytesOf "/c") := by decide
  exact ⟨normed, (pathNorm_reduces normed).1⟩

end GreenJade.Fs
