import GreenJade.Ipc.Notify
import GreenJade.Lib.StepRuns

/-! Owns the badges of a notification object: over every interleaving of atomic steps no bit that
was posted is lost, and none is returned twice. -/

namespace GreenJade.Ipc

open GreenJade.Sched Function List NotifyEvent NotifySys

universe u

variable {κ : Type u}

/-! ### Events and bits -/

namespace NotifyEvent

def posts : NotifyEvent κ → U64
  | .posted _ badge => badge
  | _ => 0

def takes : NotifyEvent κ → U64
  | .took _ _ got => got
  | _ => 0

end NotifyEvent

/-- The union of some bits of the events. -/
def unionOf (bits : NotifyEvent κ → U64) (log : List (NotifyEvent κ)) : U64 :=
  log.foldl (fun union event => union ||| bits event) 0

@[simp] theorem unionOf_concat (bits : NotifyEvent κ → U64) (log : List (NotifyEvent κ))
    (event : NotifyEvent κ) : unionOf bits (log ++ [event]) = unionOf bits log ||| bits event :=
  foldl_concat ..

/-- A bit was posted and not consumed since. -/
def Unconsumed (log : List (NotifyEvent κ)) (i : Nat) : Prop :=
  ∃ front a badge back, log = front ++ .posted a badge :: back ∧ badge.getLsbD i = true ∧
    ∀ event ∈ back, event.takes.getLsbD i = false

/-- Where an event of a longer log stands: it is the last one, or it stands in the shorter log. -/
theorem concat_split {log front back : List (NotifyEvent κ)} {last event : NotifyEvent κ}
    (split : log ++ [last] = front ++ event :: back) :
    log = front ∧ last = event ∧ back = [] ∨
      ∃ shorter, back = shorter ++ [last] ∧ log = front ++ event :: shorter := by
  rcases eq_nil_or_concat back with rfl | ⟨shorter, final, rfl⟩
  · obtain ⟨same, ends⟩ := append_inj' split rfl
    exact .inl ⟨same, (List.cons.inj ends).1, rfl⟩
  · rw [concat_eq_append, ← cons_append, ← append_assoc] at split
    obtain ⟨same, ends⟩ := append_inj' split rfl
    cases ends
    exact .inr ⟨shorter, concat_eq_append, same⟩

theorem unconsumed_concat {log : List (NotifyEvent κ)} {event : NotifyEvent κ} {i : Nat} :
    Unconsumed (log ++ [event]) i ↔
      event.posts.getLsbD i = true ∨ Unconsumed log i ∧ event.takes.getLsbD i = false := by
  constructor
  · rintro ⟨front, a, badge, back, split, bit, free⟩
    obtain ⟨rfl, rfl, rfl⟩ | ⟨shorter, rfl, rfl⟩ := concat_split split
    · exact .inl bit
    · exact .inr ⟨⟨front, a, badge, shorter, rfl, bit, fun e inside =>
        free e (mem_append_left _ inside)⟩, free event (by simp)⟩
  · rintro (bit | ⟨⟨front, a, badge, back, rfl, bit, free⟩, kept⟩)
    · cases event with
      | posted a badge => exact ⟨log, a, badge, [], rfl, bit, by simp⟩
      | asked | took | returned => exact absurd bit (by simp [NotifyEvent.posts])
    · refine ⟨front, a, badge, back ++ [event], by simp, bit, fun e inside => ?_⟩
      rcases mem_append.mp inside with early | last
      · exact free e early
      · rw [mem_singleton.mp last]
        exact kept

/-- Badge 0 stands for bit 0. -/
def badgeBits (badge : U64) : U64 := if badge = 0 then 1 else badge

section Lists

variable [DecidableEq κ]

namespace NotifyEvent

def agent : NotifyEvent κ → Agent κ
  | .asked a _ | .posted a _ | .took a _ _ | .returned a _ => a

def badgesAsked : NotifyEvent κ → List U64
  | .asked _ badge => [badgeBits badge]
  | _ => []

def badgesPosted : NotifyEvent κ → List U64
  | .posted _ badge => [badge]
  | _ => []

def bitsTook : NotifyEvent κ → List U64
  | .took _ _ got => [got]
  | _ => []

/-- A wait that finds nothing returns 0. -/
def bitsReturned : NotifyEvent κ → List U64
  | .returned _ value => if value = 0 then [] else [value]
  | _ => []

end NotifyEvent

/-- The values of the events of somebody, in order. -/
def valuesOf (values : NotifyEvent κ → List U64) (a : Agent κ) (log : List (NotifyEvent κ)) :
    List U64 := log.flatMap fun event => if event.agent = a then values event else []

theorem valuesOf_concat (values : NotifyEvent κ → List U64) (a : Agent κ)
    (log : List (NotifyEvent κ)) (event : NotifyEvent κ) :
    valuesOf values a (log ++ [event]) =
      valuesOf values a log ++ if event.agent = a then values event else [] := by
  simp [valuesOf]

end Lists

namespace NotifyPc

/-- The bits that a wait has consumed and not yet returned. -/
def carried : NotifyPc → List U64
  | .leave _ got | .leaveHint _ got | .uncount _ got => if got = 0 then [] else [got]
  | _ => []

/-- The badge that a pulse has still to post. -/
def unposted : NotifyPc → List U64
  | .pulse badge => [badgeBits badge]
  | .post badge => [badge]
  | _ => []

/-- A swap is made for bits that were pending. -/
def Loaded : NotifyPc → Prop
  | .swap w pend => pend &&& w.mask ≠ 0
  | _ => True

/-- Places of a call that carry no bits. -/
structure Plain (pc : NotifyPc) : Prop where
  carried : pc.carried = []
  unposted : pc.unposted = []
  loaded : pc.Loaded

end NotifyPc

namespace NotifySys

variable [DecidableEq κ] {st st' : NotifySys κ} {a : Agent κ}

/-! ### What is posted, consumed and returned -/

/-- The badges of a state and of the run that led to it. -/
structure Badges (st : NotifySys κ) : Prop where
  /-- A bit is pending exactly if it was posted and not consumed since. -/
  pending : ∀ i, st.pending.getLsbD i = true ↔ Unconsumed st.log i
  /-- A wait consumes bits of its mask that were posted and that no other wait consumed since. -/
  took : ∀ front a mask got back, st.log = front ++ .took a mask got :: back →
    got ≠ 0 ∧ got &&& mask = got ∧ ∀ i, got.getLsbD i = true → Unconsumed front i
  /-- What was posted was consumed or is pending. -/
  union : unionOf takes st.log ||| st.pending = unionOf NotifyEvent.posts st.log
  /-- The waits return the bits that they consume, each once. -/
  returned : ∀ a, valuesOf bitsTook a st.log =
    valuesOf bitsReturned a st.log ++ (st.pc a).carried
  /-- The pulses post their badges, each once. -/
  posted : st.live = true → ∀ a,
    valuesOf badgesAsked a st.log =
      valuesOf badgesPosted a st.log ++ (st.pc a).unposted

/-- Each swap in progress is for bits that were pending. -/
def Loaded (st : NotifySys κ) : Prop := ∀ a, (st.pc a).Loaded

/-- What a step does to the bits, the events and the calls that carry bits. -/
inductive BadgeStep (st st' : NotifySys κ) : Prop
  | silent (live : st'.live = true → st.live = true) (pending : st'.pending = st.pending)
      (log : st'.log = st.log) (carried : ∀ b, (st'.pc b).carried = (st.pc b).carried)
      (unposted : st'.live = true → ∀ b, (st'.pc b).unposted = (st.pc b).unposted)
      (loaded : st.Loaded → st'.Loaded)
  | asked (a : Agent κ) (badge : U64) (idle : st.pc a = .idle)
      (after : st' = (st.note (.asked a badge)).goto a (.pulse badge))
  | posted (a : Agent κ) (badge : U64) (posts : st.pc a = .post badge)
      (after : st' = (({ st with pending := st.pending ||| badge }).note (.posted a badge)).goto a
        (.hasHint .pulse))
  | took (a : Agent κ) (w : Wait) (swaps : st.pc a = .swap w st.pending)
      (after : st' = (({ st with pending := st.pending &&& ~~~(st.pending &&& w.mask) }).note
        (.took a w.mask (st.pending &&& w.mask))).goto a (.leave w (st.pending &&& w.mask)))
  | returned (a : Agent κ) (got : U64) (carried : (st.pc a).carried = if got = 0 then [] else [got])
      (unposted : (st.pc a).unposted = []) (live : st'.live = st.live)
      (pending : st'.pending = st.pending) (log : st'.log = st.log ++ [.returned a got])
      (pc : st'.pc = update st.pc a .idle)

theorem Loaded.goto {base : NotifySys κ} {pc : NotifyPc} (loaded : st.Loaded)
    (others : base.pc = st.pc) (here : pc.Loaded) : (base.goto a pc).Loaded := by
  intro b
  rw [goto_pc, others]
  split_ifs
  · exact here
  · exact loaded b

namespace BadgeStep

variable {base : NotifySys κ} {old pc : NotifyPc}

/-- A step that only moves somebody on. -/
theorem goto (here : st.pc a = old) (live : base.live = true → st.live = true)
    (carried : pc.carried = old.carried) (unposted : base.live = true → pc.unposted = old.unposted)
    (loaded : pc.Loaded) (pending : base.pending = st.pending := by rfl)
    (log : base.log = st.log := by rfl) (others : base.pc = st.pc := by rfl) :
    BadgeStep st (base.goto a pc) := by
  refine .silent live pending log (fun b => ?_) (fun lives b => ?_)
    fun all => all.goto others loaded
  · rw [goto_pc, others]
    split_ifs with same
    · rw [same, carried, here]
    · rfl
  · rw [goto_pc, others]
    split_ifs with same
    · rw [same, unposted lives, here]
    · rfl

theorem refl (st : NotifySys κ) : BadgeStep st st :=
  .silent id rfl rfl (fun _ => rfl) (fun _ _ => rfl) id

theorem plain (here : st.pc a = old) (after : pc.Plain := by exact ⟨rfl, rfl, trivial⟩)
    (before : old.Plain := by exact ⟨rfl, rfl, trivial⟩) (live : base.live = st.live := by rfl)
    (pending : base.pending = st.pending := by rfl) (log : base.log = st.log := by rfl)
    (others : base.pc = st.pc := by rfl) : BadgeStep st (base.goto a pc) :=
  .goto here (fun lives => live ▸ lives) (after.carried.trans before.carried.symm)
    (fun _ => after.unposted.trans before.unposted.symm) after.loaded pending log others

theorem scanStep {max : Nat} {s : Scan} {again : Scan → NotifyPc} {done : NotifyPc}
    (here : st.pc a = old) (before : old.Plain) (goes : ∀ s, (again s).Plain)
    (ends : done.Plain) : BadgeStep st (st.scanStep a max s again done) := by
  unfold NotifySys.scanStep
  split_ifs with inside
  · have wakes := st.wakes_wakeEntry ⟨s.iThr, inside.1⟩ s
    exact .plain here (goes _) before wakes.live wakes.pending wakes.log wakes.pc
  · exact .plain here ends before

theorem loaded (step : BadgeStep st st') (loaded : st.Loaded) : st'.Loaded := by
  cases step with
  | silent _ _ _ _ _ keeps => exact keeps loaded
  | asked a badge _ after | posted a badge _ after | took a w _ after =>
    exact after ▸ loaded.goto rfl trivial
  | returned a got _ _ _ _ _ pc =>
    intro b
    rw [pc, update_apply]
    split_ifs
    · trivial
    · exact loaded b

end BadgeStep

theorem wakePc_plain (waker : Waker) : (wakePc waker).Plain := by
  rcases wakePc_eq waker with next | next <;> rw [next] <;> exact ⟨rfl, rfl, trivial⟩

theorem afterScan_plain (waker : Waker) (n : Nat) : (afterScan waker n).Plain := by
  rcases afterScan_eq waker n with next | ⟨iRound, next⟩ <;> rw [next] <;> exact ⟨rfl, rfl, trivial⟩

/-- One step of a call, as far as badges go. -/
theorem badgeStep_step (st : NotifySys κ) (a : Agent κ) : BadgeStep st (st.step a) := by
  unfold step
  cases here : st.pc a with
  | idle => exact .refl st
  | enter w | check w | sample w | sampleLive w | unhint w =>
    dsimp only
    split_ifs <;> exact .plain here
  | load w =>
    dsimp only
    split_ifs with some
    · exact .plain here ⟨rfl, rfl, some⟩
    all_goals exact .plain here
  | swap w pend =>
    dsimp only
    split_ifs with same
    · subst same
      exact .took a w here rfl
    · exact .goto here id rfl (fun _ => rfl) trivial
  | leave w got =>
    dsimp only
    split_ifs with registered hinted
    · exact .goto here id rfl (fun _ => rfl) trivial
    · exact .goto here id rfl (fun _ => rfl) trivial
    · exact .returned a got (by rw [here]; rfl) (by rw [here]; rfl) rfl rfl rfl rfl
  | leaveHint w got => exact .goto here id rfl (fun _ => rfl) trivial
  | uncount w got =>
    exact .returned a got (by rw [here]; rfl) (by rw [here]; rfl) rfl rfl rfl rfl
  | register w | hint w | clearHint w =>
    exact .plain here
  | blockObj w | blockTag w | blockState w =>
    cases a with
    | inl t | inr k => exact .plain here
  | selfWake w s =>
    exact .scanStep here ⟨rfl, rfl, trivial⟩ (fun _ => ⟨rfl, rfl, trivial⟩) ⟨rfl, rfl, trivial⟩
  | sched w =>
    dsimp only
    split_ifs
    · exact .refl st
    · exact .plain here
  | pulse badge =>
    dsimp only
    split
    · exact .goto here id rfl (fun _ => rfl) trivial
    · next live => exact .goto here id rfl (fun lives => absurd lives live) trivial
  | post badge => exact .posted a badge here rfl
  | hasHint waker | hasCount waker =>
    dsimp only
    split_ifs
    · exact .plain here (wakePc_plain waker)
    · exact .plain here
  | scan waker s =>
    exact .scanStep here ⟨rfl, rfl, trivial⟩ (fun _ => ⟨rfl, rfl, trivial⟩)
      (afterScan_plain waker s.n)
  | kill => exact .goto here nofun rfl nofun trivial

theorem badgeStep_next (st : NotifySys κ) (act : NotifyAct κ) : BadgeStep st (st.next act) := by
  cases act with
  | step a => exact badgeStep_step st a
  | call a call =>
    unfold next
    dsimp only
    split_ifs with idle
    · cases call with
      | pulse badge => exact .asked a badge idle rfl
      | wait | wake | wakeDrain | abortWaiter | markDead =>
        exact .plain idle
    · exact .refl st

/-! ### Runs -/

namespace Badges

theorem silent (badges : st.Badges) (live : st'.live = true → st.live = true)
    (pending : st'.pending = st.pending) (log : st'.log = st.log)
    (carried : ∀ b, (st'.pc b).carried = (st.pc b).carried)
    (unposted : st'.live = true → ∀ b, (st'.pc b).unposted = (st.pc b).unposted) :
    st'.Badges where
  pending i := by
    rw [pending, log]
    exact badges.pending i
  took front a mask got back split := badges.took front a mask got back (log ▸ split)
  union := by
    rw [pending, log]
    exact badges.union
  returned a := by
    rw [log, carried]
    exact badges.returned a
  posted lives a := by
    rw [log, unposted lives]
    exact badges.posted (live lives) a

variable {event : NotifyEvent κ}

/-- An event that is no swap leaves the swaps as they are. -/
theorem took_concat (badges : st.Badges)
    (log : st'.log = st.log ++ [event]) (other : ∀ a mask got, event ≠ .took a mask got)
    (front : List (NotifyEvent κ)) (a : Agent κ) (mask got : U64) (back : List (NotifyEvent κ))
    (split : st'.log = front ++ .took a mask got :: back) :
    got ≠ 0 ∧ got &&& mask = got ∧ ∀ i, got.getLsbD i = true → Unconsumed front i := by
  obtain ⟨-, same, -⟩ | ⟨shorter, -, earlier⟩ := concat_split (log ▸ split)
  · exact absurd same (other a mask got)
  · exact badges.took front a mask got shorter earlier

/-- What somebody has begun is what is done and what is left: `began` is done by an event, and
`done` is what the event does of it. -/
theorem left_concat {began done : NotifyEvent κ → List U64} {left : NotifyPc → List U64}
    {pc : NotifyPc}
    (before : ∀ b, valuesOf began b st.log = valuesOf done b st.log ++ left (st.pc b))
    (log : st'.log = st.log ++ [event]) (pcs : st'.pc = update st.pc event.agent pc)
    (own : left (st.pc event.agent) ++ began event = done event ++ left pc) (b : Agent κ) :
    valuesOf began b st'.log = valuesOf done b st'.log ++ left (st'.pc b) := by
  rw [log, pcs, valuesOf_concat, valuesOf_concat, before b, update_apply]
  by_cases same : b = event.agent
  · rw [if_pos same, if_pos same.symm, if_pos same.symm, same, append_assoc, own, append_assoc]
  · rw [if_neg same, if_neg (Ne.symm same), if_neg (Ne.symm same), append_nil, append_nil]

theorem pending_concat (badges : st.Badges) (log : st'.log = st.log ++ [event])
    (bits : ∀ i, st'.pending.getLsbD i = true ↔ event.posts.getLsbD i = true ∨
        st.pending.getLsbD i = true ∧ event.takes.getLsbD i = false) (i : Nat) :
    st'.pending.getLsbD i = true ↔ Unconsumed st'.log i := by
  rw [log, unconsumed_concat, bits, badges.pending]

theorem union_concat (badges : st.Badges) (log : st'.log = st.log ++ [event])
    (bits : event.takes ||| st'.pending = st.pending ||| event.posts) :
    unionOf takes st'.log ||| st'.pending = unionOf NotifyEvent.posts st'.log := by
  rw [log, unionOf_concat, unionOf_concat, BitVec.or_assoc, bits, ← BitVec.or_assoc, badges.union]

/-- An event with its effect on the bits and on the call that makes it. -/
theorem concat (badges : st.Badges) (event : NotifyEvent κ) {pc : NotifyPc}
    (live : st'.live = st.live) (log : st'.log = st.log ++ [event])
    (pcs : st'.pc = update st.pc event.agent pc)
    (bits : ∀ i, st'.pending.getLsbD i = true ↔ event.posts.getLsbD i = true ∨
      st.pending.getLsbD i = true ∧ event.takes.getLsbD i = false)
    (all : event.takes ||| st'.pending = st.pending ||| event.posts)
    (took : ∀ front a mask got back, st'.log = front ++ .took a mask got :: back →
      got ≠ 0 ∧ got &&& mask = got ∧ ∀ i, got.getLsbD i = true → Unconsumed front i)
    (carried : (st.pc event.agent).carried ++ event.bitsTook = event.bitsReturned ++ pc.carried)
    (unposted : (st.pc event.agent).unposted ++ event.badgesAsked =
      event.badgesPosted ++ pc.unposted) : st'.Badges where
  pending := badges.pending_concat log bits
  took := took
  union := badges.union_concat log all
  returned := left_concat badges.returned log pcs carried
  posted lives := left_concat (badges.posted (live ▸ lives)) log pcs unposted

theorem asked (badges : st.Badges) {badge : U64} (idle : st.pc a = .idle) :
    ((st.note (.asked a badge)).goto a (.pulse badge)).Badges := by
  have before : st.pc (NotifyEvent.asked a badge).agent = .idle := idle
  refine badges.concat (.asked a badge) rfl rfl rfl (fun i => ?_) ?_
    (badges.took_concat rfl nofun) (by rw [before]; rfl) (by rw [before]; rfl)
  all_goals simp [goto, note, NotifyEvent.posts, takes]

theorem posted_badge (badges : st.Badges) {badge : U64} (posts : st.pc a = .post badge) :
    ((({ st with pending := st.pending ||| badge }).note (.posted a badge)).goto a
      (.hasHint .pulse)).Badges := by
  have before : st.pc (NotifyEvent.posted a badge).agent = .post badge := posts
  refine badges.concat (.posted a badge) rfl rfl rfl (fun i => ?_) ?_
    (badges.took_concat rfl nofun) (by rw [before]; rfl) (by rw [before]; rfl)
  · simp [goto, note, NotifyEvent.posts, takes, or_comm]
  · simp [goto, note, NotifyEvent.posts, takes]

theorem took_bits (badges : st.Badges) {w : Wait} (swaps : st.pc a = .swap w st.pending)
    (some : st.pending &&& w.mask ≠ 0) :
    ((({ st with pending := st.pending &&& ~~~(st.pending &&& w.mask) }).note
      (.took a w.mask (st.pending &&& w.mask))).goto a
        (.leave w (st.pending &&& w.mask))).Badges := by
  have before : st.pc (NotifyEvent.took a w.mask (st.pending &&& w.mask)).agent =
      .swap w st.pending := swaps
  refine badges.concat (.took a w.mask (st.pending &&& w.mask)) rfl rfl rfl (fun i => ?_) ?_ ?_
    (by rw [before]; exact (if_neg some).symm) (by rw [before]; rfl)
  · simp only [goto, note, NotifyEvent.posts, takes, BitVec.getLsbD_and]
    have small : st.pending.getLsbD i = true → i < 64 := BitVec.lt_of_getLsbD
    cases bit : st.pending.getLsbD i <;> simp_all
  · refine BitVec.eq_of_getLsbD_eq fun i small => ?_
    simp only [goto, note, NotifyEvent.posts, takes, BitVec.getLsbD_and,
      BitVec.getLsbD_or, BitVec.getLsbD_not, small, decide_true]
    cases st.pending.getLsbD i <;> cases w.mask.getLsbD i <;> simp
  · intro front b mask got back split
    obtain ⟨rfl, same, -⟩ | ⟨shorter, -, earlier⟩ := concat_split split
    · cases same
      refine ⟨some, by rw [BitVec.and_assoc, BitVec.and_self], fun i bit => ?_⟩
      rw [BitVec.getLsbD_and, Bool.and_eq_true] at bit
      exact (badges.pending i).mp bit.1
    · exact badges.took front b mask got shorter earlier

theorem returned_bits (badges : st.Badges) {got : U64}
    (carried : (st.pc a).carried = if got = 0 then [] else [got])
    (unposted : (st.pc a).unposted = []) (live : st'.live = st.live)
    (pending : st'.pending = st.pending) (log : st'.log = st.log ++ [.returned a got])
    (pc : st'.pc = update st.pc a .idle) : st'.Badges := by
  refine badges.concat (.returned a got) live log pc (fun i => ?_) ?_
    (badges.took_concat log nofun) ?_ ?_
  · simp [pending, NotifyEvent.posts, takes]
  · simp [pending, NotifyEvent.posts, takes]
  · show (st.pc a).carried ++ [] = (if got = 0 then [] else [got]) ++ []
    rw [carried]
  · show (st.pc a).unposted ++ [] = []
    rw [unposted]
    rfl

theorem of_step (badges : st.Badges) (loaded : st.Loaded) (step : BadgeStep st st') :
    st'.Badges := by
  cases step with
  | silent live pending log carried unposted _ =>
    exact badges.silent live pending log carried unposted
  | asked a badge idle after => exact after ▸ badges.asked idle
  | posted a badge posts after => exact after ▸ badges.posted_badge posts
  | took a w swaps after =>
    have some : (st.pc a).Loaded := loaded a
    rw [swaps] at some
    exact after ▸ badges.took_bits swaps some
  | returned a got carried unposted live pending log pc =>
    exact badges.returned_bits carried unposted live pending log pc

theorem init : (NotifySys.init : NotifySys κ).Badges where
  pending i := by
    refine ⟨fun bit => absurd bit (by simp [NotifySys.init]), ?_⟩
    rintro ⟨front, a, badge, back, split, -, -⟩
    exact absurd split (by simp [NotifySys.init])
  took front a mask got back split := absurd split (by simp [NotifySys.init])
  union := by simp [NotifySys.init, unionOf]
  returned _ := rfl
  posted _ _ := rfl

end Badges

end NotifySys

/-- In every run of waits, pulses, wakes and deaths, step by step, no bit is lost and none is
returned twice. -/
theorem notifyRuns_badges [DecidableEq κ] (run : List (NotifyAct κ)) :
    (run.foldl next (NotifySys.init : NotifySys κ)).Badges := by
  have all : ((run.foldl next (NotifySys.init : NotifySys κ)).Badges ∧
      (run.foldl next (NotifySys.init : NotifySys κ)).Loaded) := by
    induction run using List.reverseRecOn with
    | nil => exact ⟨Badges.init, fun _ => trivial⟩
    | append_singleton run act ih =>
      obtain ⟨badges, loaded⟩ := ih
      rw [foldl_concat]
      have step := (run.foldl next NotifySys.init).badgeStep_next act
      exact ⟨badges.of_step loaded step, step.loaded loaded⟩
  exact all.1

end GreenJade.Ipc
