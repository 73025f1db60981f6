import Mathlib.Logic.Function.Basic
import Mathlib.Logic.Relation
import Mathlib.Tactic.SplitIfs

/-! Owns programs whose steps interleave on a shared state: a program is a sequence of
atomic accesses, any number of threads run such programs, and one scheduler step performs
one access of one thread. It owns the rules for invariants of all interleavings. -/

namespace Interleave

universe u v w x

/-- A program over the state `S`: finished with a result, or an atomic access that changes
the state and goes on with what it has read. -/
inductive Prog (S : Type u) (R : Type v) : Type (max u v)
  | done (result : R)
  | access (write : S → S) (next : S → Prog S R)

namespace Prog

variable {S : Type u} {R : Type v} {R' : Type x} {α : Type w}

def read (value : S → α) (next : α → Prog S R) : Prog S R :=
  .access id fun s => next (value s)

def write (change : S → S) (next : Prog S R) : Prog S R :=
  .access change fun _ => next

/-- One atomic read-modify-write that hands on what it has read. -/
def update (value : S → α) (change : S → S) (next : α → Prog S R) : Prog S R :=
  .access change fun s => next (value s)

def bind : Prog S R' → (R' → Prog S R) → Prog S R
  | .done result, next => next result
  | .access change rest, next => .access change fun s => (rest s).bind next

def map (f : R' → R) (program : Prog S R') : Prog S R := program.bind fun result => .done (f result)

/-- Every access of the program keeps the property, whatever the accesses before it read. -/
def Keeps (property : S → Prop) : Prog S R → Prop
  | .done _ => True
  | .access change rest => (∀ s, property s → property (change s)) ∧ ∀ s, (rest s).Keeps property

variable {property : S → Prop}

variable {outcome : R} {program : Prog S R'} {value : S → α} {next : α → Prog S R} {p : Prop}

theorem keeps_read
    (rest : ∀ value, (next value).Keeps property) : (read value next).Keeps property :=
  ⟨fun _ holds => holds, fun s => rest (value s)⟩

theorem keeps_write {change : S → S} {next : Prog S R}
    (keeps : ∀ s, property s → property (change s)) (rest : next.Keeps property) :
    (write change next).Keeps property :=
  ⟨keeps, fun _ => rest⟩

theorem keeps_update {change : S → S}
    (keeps : ∀ s, property s → property (change s)) (rest : ∀ value, (next value).Keeps property) :
    (update value change next).Keeps property :=
  ⟨keeps, fun s => rest (value s)⟩

theorem keeps_bind {next : R' → Prog S R} (first : program.Keeps property)
    (rest : ∀ result, (next result).Keeps property) : (program.bind next).Keeps property := by
  induction program with
  | done result => exact rest result
  | access change continue_ ih =>
    exact ⟨first.1, fun s => ih s (first.2 s)⟩

/-- A program that may fail, and goes on only with what it has found. -/
theorem keeps_try {ε : Type w} {program : Prog S (Except ε R')} {next : Except ε R' → Prog S R}
    (first : program.Keeps property) (fails : ∀ code, (next (.error code)).Keeps property)
    (rest : ∀ result, (next (.ok result)).Keeps property) : (program.bind next).Keeps property :=
  keeps_bind first fun
    | .error code => fails code
    | .ok result => rest result

theorem keeps_map {f : R' → R} (keeps : program.Keeps property) : (program.map f).Keeps property :=
  keeps_bind keeps fun _ => trivial

theorem keeps_ite [Decidable p] {first second : Prog S R}
    (positive : first.Keeps property) (negative : second.Keeps property) :
    (if p then first else second).Keeps property := by
  split_ifs
  · exact positive
  · exact negative

theorem keeps_guard [Decidable p] {result : R} {rest : Prog S R}
    (keeps : rest.Keeps property) : (if p then done result else rest).Keeps property :=
  keeps_ite trivial keeps

/-- The results the program can finish with when every access of it happens in some state
that has the property. -/
def Yields (property : S → Prop) : Prog S R → R → Prop
  | .done result, outcome => outcome = result
  | .access _ rest, outcome => ∃ s, property s ∧ (rest s).Yields property outcome

@[simp]
theorem yields_done {result : R} :
    (done result : Prog S R).Yields property outcome ↔ outcome = result := Iff.rfl

@[simp]
theorem yields_read : (read value next).Yields property outcome ↔
      ∃ s, property s ∧ (next (value s)).Yields property outcome := Iff.rfl

@[simp]
theorem yields_ite [Decidable p] {first second : Prog S R} :
    (if p then first else second).Yields property outcome ↔
      p ∧ first.Yields property outcome ∨ ¬ p ∧ second.Yields property outcome := by
  split_ifs with holds <;> simp [holds]

theorem yields_bind {next : R' → Prog S R} (yields : (program.bind next).Yields property outcome) :
    ∃ result, program.Yields property result ∧ (next result).Yields property outcome := by
  induction program with
  | done result => exact ⟨result, rfl, yields⟩
  | access change rest ih =>
    obtain ⟨s, holds, yields⟩ := yields
    obtain ⟨result, first, second⟩ := ih s yields
    exact ⟨result, ⟨s, holds, first⟩, second⟩

theorem yields_mono {property' : S → Prop} {program : Prog S R}
    (yields : program.Yields property outcome) (wider : ∀ s, property s → property' s) :
    program.Yields property' outcome := by
  induction program with
  | done result => exact yields
  | access change rest ih =>
    obtain ⟨s, holds, yields⟩ := yields
    exact ⟨s, wider s holds, ih s yields⟩

end Prog

/-! ### Threads -/

/-- The shared state and what is left to do of each thread's current program. -/
structure Config (ι : Type w) (S : Type u) (R : Type v) where
  shared : S
  thread : ι → Prog S R

variable {ι : Type w} {S : Type u} {R : Type v} [DecidableEq ι]

namespace Config

/-- The thread performs its next access; a finished thread does nothing. -/
def perform (config : Config ι S R) (t : ι) : Config ι S R :=
  match config.thread t with
  | .done _ => config
  | .access change rest =>
    { shared := change config.shared
      thread := Function.update config.thread t (rest config.shared) }

/-- A finished thread begins another program. -/
def start (config : Config ι S R) (t : ι) (program : Prog S R) : Config ι S R :=
  { config with thread := Function.update config.thread t program }

end Config

/-- One step of the scheduler; new programs come from `programs`. -/
inductive Step (programs : Prog S R → Prop) : Config ι S R → Config ι S R → Prop
  | perform (config : Config ι S R) (t : ι) : Step programs config (config.perform t)
  | start (config : Config ι S R) (t : ι) (result : R) (idle : config.thread t = .done result)
      (program : Prog S R) (known : programs program) :
      Step programs config (config.start t program)

/-- Any finite interleaving. -/
def Reaches (programs : Prog S R → Prop) : Config ι S R → Config ι S R → Prop :=
  Relation.ReflTransGen (Step programs)

variable {programs : Prog S R → Prop} {property : S → Prop} {config config' : Config ι S R}

/-- What is left of every thread keeps the property. -/
def ThreadsKeep (property : S → Prop) (config : Config ι S R) : Prop :=
  ∀ t, (config.thread t).Keeps property

theorem ThreadsKeep.update {shared : S} {program : Prog S R} (threads : ThreadsKeep property config)
    (keeps : program.Keeps property) (t : ι) :
    ThreadsKeep property ⟨shared, Function.update config.thread t program⟩ := by
  intro t'
  by_cases here : t' = t
  · subst here
    simpa using keeps
  · simpa [Function.update_of_ne here] using threads t'

theorem Step.keeps (known : ∀ program, programs program → program.Keeps property)
    (step : Step programs config config') (threads : ThreadsKeep property config) :
    ThreadsKeep property config' ∧ (property config.shared → property config'.shared) := by
  cases step with
  | perform t =>
    unfold Config.perform
    cases next : config.thread t with
    | done result => exact ⟨threads, id⟩
    | access change rest =>
      have keeps := threads t
      rw [next] at keeps
      exact ⟨threads.update (keeps.2 config.shared) t, keeps.1 _⟩
  | start t result idle program isKnown => exact ⟨threads.update (known program isKnown) t, id⟩

/-- A property that every access of every program keeps, once it holds, holds in every later
state of every interleaving. -/
theorem Reaches.keeps (known : ∀ program, programs program → program.Keeps property)
    (reaches : Reaches programs config config') (threads : ThreadsKeep property config) :
    ThreadsKeep property config' ∧ (property config.shared → property config'.shared) := by
  induction reaches with
  | refl => exact ⟨threads, id⟩
  | tail _ step ih => exact (step.keeps known ih.1).imp_right fun later => later ∘ ih.2

/-- A schedule, as a list of the threads in the order they perform accesses. -/
def Config.schedule (config : Config ι S R) (order : List ι) : Config ι S R :=
  order.foldl Config.perform config

theorem Config.schedule_reaches (config : Config ι S R) (order : List ι) :
    Reaches programs config (config.schedule order) := by
  induction order generalizing config with
  | nil => exact .refl
  | cons t rest ih =>
    exact .head (.perform config t) (ih (config.perform t))

end Interleave
