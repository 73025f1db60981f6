import GreenJade.Cap.Decompose
import GreenJade.Cap.Effect
import GreenJade.Cap.Steps

/-! Owns the fail-closed property of revoke: once an object is DEAD, no interleaving of the
accesses of other calls makes a handle to it resolve again. -/

namespace GreenJade.Cap

open Interleave Prog

universe u v w x

variable {C : Type u} {O : Type v} {Q : Type w} {R : Type x}

def NotLive (o : O) (s : CapState C O Q) : Prop := (s.obj o).state ≠ .live

/-! ### No access makes an object LIVE -/

section

variable {c : C} {o x : O} {next : CapProg C O Q R}

theorem checkLiveSteps_keeps (x : O) (expected : U32) :
    (checkLiveSteps x expected : CapProg C O Q _).Keeps (NotLive o) :=
  keeps_read fun _ => keeps_guard <| keeps_read fun _ => keeps_guard trivial

theorem resolveSteps_keeps (c : C) (slot : Nat) (gen : U32) :
    (resolveSteps c slot gen : CapProg C O Q _).Keeps (NotLive o) := by
  refine keeps_read fun _ => keeps_guard <| keeps_guard <| keeps_guard <| keeps_read fun _ =>
    keeps_guard <| keeps_read fun _ => keeps_guard <| keeps_read fun pointer => ?_
  cases pointer with
  | none => trivial
  | some x =>
    refine keeps_read fun _ => keeps_bind (checkLiveSteps_keeps x _) fun status => ?_
    cases status with
    | ok => exact keeps_read fun _ => keeps_read fun _ => trivial
    | _ => trivial

theorem written_keeps {α : Type*} {steps : CapProg C O Q α} {reply : α → CapReply}
    {program : CapProg C O Q CapReply} (keeps : steps.Keeps (NotLive o))
    (written : some (steps.map reply) = some program) : program.Keeps (NotLive o) := by
  cases written
  exact keeps_map keeps

/-- In such a state no handle to the object resolves. -/
theorem NotLive.resolve_fails {s : CapState C O Q} {o : O} (notLive : NotLive o s)
    {slot : Nat} (pointer : (s.slot c slot).obj = some o) (gen : U32) :
    ∃ code, gjCapResolve s c slot gen = .error code := by
  cases outcome : gjCapResolve s c slot gen with
  | error code => exact ⟨code, rfl⟩
  | ok res =>
    obtain ⟨-, -, -, names, live, -⟩ := gjCapResolve_eq_ok outcome
    obtain rfl : res.obj = o := Option.some.inj (names.2.symm.trans pointer)
    exact absurd live notLive

theorem checkLiveSteps_yields {expected : U32}
    (yields : (checkLiveSteps x expected : CapProg C O Q _).Yields (NotLive o) .ok) : x ≠ o := by
  rintro rfl
  obtain ⟨s, notLive, yields⟩ := yields
  rcases yields_ite.mp yields with ⟨-, ⟨⟩⟩ | ⟨live, -⟩
  exact live notLive

/-- A resolve whose accesses all happen while the object is not LIVE never succeeds on it. -/
theorem resolveSteps_yields {slot : Nat} {gen : U32} {res : CapResolved O}
    (yields : (resolveSteps c slot gen : CapProg C O Q _).Yields (NotLive o) (.ok res)) :
    res.obj ≠ o := by
  simp only [resolveSteps, yields_read, yields_ite, yields_done, reduceCtorEq, and_false,
    false_or] at yields
  obtain ⟨-, -, -, -, -, -, -, -, -, -, -, s, -, yields⟩ := yields
  cases pointer : (s.slot c slot).obj with
  | none => simp [pointer] at yields
  | some x =>
    rw [pointer] at yields
    obtain ⟨_, _, yields⟩ := yields
    obtain ⟨status, checked, yields⟩ := yields_bind yields
    cases status with
    | ok =>
      obtain ⟨_, _, _, _, same⟩ := yields
      cases same
      exact checkLiveSteps_yields checked
    | _ => simp at yields

section

variable [DecidableEq C]

theorem storeSlot_keeps {i : Nat} {change : CapSlot O → CapSlot O} (rest : next.Keeps (NotLive o)) :
    (storeSlot c i change next).Keeps (NotLive o) :=
  keeps_write (fun _ notLive => notLive) rest

theorem invalidateSteps_keeps (c : C) (i : Nat) :
    (invalidateSteps c i : CapProg C O Q _).Keeps (NotLive o) :=
  storeSlot_keeps <| storeSlot_keeps <| keeps_read fun _ => storeSlot_keeps <| keeps_read fun _ =>
    keeps_bind (keeps_ite (storeSlot_keeps trivial) trivial) fun _ =>
    storeSlot_keeps <| keeps_write (fun _ notLive => notLive) trivial

end

section

variable [DecidableEq O]

/-- A header may be written as long as LIVE is not. -/
theorem NotLive.setObj {s : CapState C O Q} {hdr : ObjHdr} (notLive : NotLive o s)
    (header : (s.obj x).state ≠ .live → hdr.state ≠ .live) : NotLive o (s.setObj x hdr) := by
  by_cases here : o = x
  · subst here
    simpa [NotLive, CapState.setObj] using header notLive
  · simpa [NotLive, CapState.setObj, Function.update_of_ne here] using notLive

theorem storeObj_keeps {change : ObjHdr → ObjHdr}
    (header : ∀ hdr, hdr.state ≠ .live → (change hdr).state ≠ .live)
    (rest : next.Keeps (NotLive o)) : (storeObj x change next).Keeps (NotLive o) :=
  keeps_write (fun _ notLive => notLive.setObj (header _)) rest

theorem tryWireSteps_keeps (x : O) (c : C) (i : Nat) :
    (tryWireSteps x c i : CapProg C O Q _).Keeps (NotLive o) := by
  refine keeps_update (fun _ notLive => notLive) fun taken => ?_
  cases taken with
  | none => trivial
  | some edge =>
    refine keeps_read fun _ => keeps_update (fun _ notLive => notLive) fun status => ?_
    cases status with
    | ok => trivial
    | _ => exact keeps_write (fun _ notLive => notLive) trivial

theorem slotGoneSteps_keeps (rest : next.Keeps (NotLive o)) :
    (slotGoneSteps x next).Keeps (NotLive o) :=
  keeps_read fun _ => keeps_ite
    (keeps_read fun _ => storeObj_keeps (fun _ notLive => notLive) rest) rest

/-- The only program that writes the state of a header moves it away from LIVE. -/
theorem revokeBeginSteps_keeps (x : O) :
    (revokeBeginSteps x : CapProg C O Q _).Keeps (NotLive o) := by
  refine keeps_update (fun s notLive => ?_) fun _ => keeps_ite ?_ ?_
  · split_ifs
    · exact notLive.setObj fun _ => nofun
    · exact notLive
  · exact keeps_read fun _ => keeps_ite trivial trivial
  · exact storeObj_keeps (fun _ _ => nofun) <| storeObj_keeps (fun _ notLive => notLive) <|
      keeps_update (fun _ notLive => notLive) fun _ => keeps_ite trivial trivial

variable [DecidableEq C]

theorem unlinkSlotSteps_keeps (bound : Nat) (x : O) (c : C) (i : Nat) :
    (unlinkSlotSteps bound x c i : CapProg C O Q _).Keeps (NotLive o) := by
  have loop : ∀ edge, (unlinkSlotLoopSteps x c i bound edge : CapProg C O Q _).Keeps
      (NotLive o) := by
    induction bound with
    | zero => exact fun edge => trivial
    | succ bound ih =>
      intro edge
      cases edge with
      | none => trivial
      | some edge =>
        exact keeps_read fun saved => keeps_read fun _ =>
          keeps_ite (keeps_write (fun _ notLive => notLive) (ih saved)) (ih saved)
  exact keeps_read fun head => loop head

theorem invalidateLockedSteps_keeps (c : C) (i : Nat) (obj : Option O) :
    (invalidateLockedSteps c i obj : CapProg C O Q _).Keeps (NotLive o) := by
  refine keeps_read fun _ => keeps_guard <| keeps_read fun pointer => ?_
  cases obj with
  | some x => exact keeps_guard (slotGoneSteps_keeps (invalidateSteps_keeps c i))
  | none =>
    cases pointer with
    | some x => exact slotGoneSteps_keeps (invalidateSteps_keeps c i)
    | none => exact invalidateSteps_keeps c i

end

variable [DecidableEq Q]

theorem refundSteps_keeps (rest : next.Keeps (NotLive o)) :
    (refundSteps c next).Keeps (NotLive o) :=
  keeps_read fun _ => keeps_write (fun _ notLive => notLive) rest

variable [DecidableEq C] [DecidableEq O]

theorem slotInstallSteps_keeps (c : C) (slot : Nat) (capType : CapType) (rights : U16) (x : O) :
    (slotInstallSteps c slot capType rights x : CapProg C O Q _).Keeps (NotLive o) := by
  refine keeps_read fun _ => keeps_guard <| keeps_guard <| keeps_read fun _ => keeps_guard <|
    keeps_read fun _ => keeps_guard <| keeps_guard <| keeps_guard <| keeps_read fun _ =>
    keeps_guard <| keeps_read fun _ => keeps_read fun _ => keeps_guard <| keeps_read fun _ =>
    keeps_guard <| keeps_read fun _ => keeps_update (fun _ notLive => notLive) fun status => ?_
  cases status with
  | ok =>
    exact storeSlot_keeps <| storeSlot_keeps <| storeSlot_keeps <| storeSlot_keeps <|
      keeps_read fun _ => storeObj_keeps (fun _ notLive => notLive) <| keeps_read fun _ => trivial
  | _ => trivial

theorem scanSteps_keeps (c : C) (capType : CapType) (rights : U16) (x : O) (slots : List Nat) :
    (scanSteps c capType rights x slots : CapProg C O Q _).Keeps (NotLive o) := by
  induction slots with
  | nil => trivial
  | cons i rest ih =>
    exact keeps_read fun _ =>
      keeps_ite (slotInstallSteps_keeps c i capType rights x) ih

theorem allocInstallSteps_keeps (c : C) (capType : CapType) (rights : U16) (x : O) :
    (allocInstallSteps c capType rights x : CapProg C O Q _).Keeps (NotLive o) :=
  keeps_read fun _ => keeps_guard <| keeps_guard <|
    keeps_ite (slotInstallSteps_keeps ..) (scanSteps_keeps ..)

theorem installDerivedSteps_keeps (c : C) (res : CapResolved O) (rights : U16) :
    (installDerivedSteps c res rights : CapProg C O Q _).Keeps (NotLive o) :=
  keeps_try (allocInstallSteps_keeps ..) (fun _ => trivial) fun _ =>
    keeps_bind (tryWireSteps_keeps ..) fun _ => trivial

theorem mintSteps_keeps (src : C) (slot : Nat) (gen : U32) (rights : U16) (dst : Option C) :
    (mintSteps src slot gen rights dst : CapProg C O Q _).Keeps (NotLive o) :=
  keeps_try (resolveSteps_keeps ..) (fun _ => trivial) fun _ =>
    keeps_guard <| keeps_guard <| installDerivedSteps_keeps ..

theorem copySteps_keeps (c : C) (slot : Nat) (gen : U32) (rights : U16) :
    (copySteps c slot gen rights : CapProg C O Q _).Keeps (NotLive o) :=
  keeps_try (resolveSteps_keeps ..) (fun _ => trivial) fun _ =>
    keeps_guard <| installDerivedSteps_keeps ..

theorem moveSteps_keeps (bound : Nat) (c : C) (slot : Nat) (gen : U32) :
    (moveSteps bound c slot gen : CapProg C O Q _).Keeps (NotLive o) :=
  keeps_try (resolveSteps_keeps ..) (fun _ => trivial) fun _ => keeps_guard <| keeps_guard <|
    keeps_try (allocInstallSteps_keeps ..) (fun _ => trivial) fun _ =>
    keeps_bind (unlinkSlotSteps_keeps ..) fun _ => keeps_bind (tryWireSteps_keeps ..) fun _ =>
    refundSteps_keeps <| keeps_bind (invalidateLockedSteps_keeps ..) fun _ => trivial

theorem deleteSteps_keeps (bound : Nat) (c : C) (slot : Nat) (gen : U32) :
    (deleteSteps bound c slot gen : CapProg C O Q _).Keeps (NotLive o) :=
  keeps_try (resolveSteps_keeps ..) (fun _ => trivial) fun _ => keeps_guard <| keeps_guard <|
    keeps_bind (unlinkSlotSteps_keeps ..) fun _ => refundSteps_keeps <|
    keeps_bind (invalidateLockedSteps_keeps ..) fun _ => trivial

theorem visitEdgeSteps_keeps (x : O) (edge : EdgePtr) :
    (visitEdgeSteps x edge : CapProg C O Q _).Keeps (NotLive o) := by
  have unlink : ∀ visit, (Prog.write (fun s => unlinkEdge s x edge) (.done visit) :
      CapProg C O Q EdgeVisit).Keeps (NotLive o) :=
    fun _ => keeps_write (fun _ notLive => notLive) trivial
  have lock : ∀ s : CapState C O Q, ∀ c, NotLive o s → NotLive o ((gjCnodeTrylock s c).getD s) := by
    intro s c notLive
    unfold gjCnodeTrylock
    split_ifs <;> exact notLive
  refine keeps_read fun cnode => keeps_read fun i => ?_
  cases cnode with
  | none => exact unlink _
  | some c =>
    exact keeps_read fun _ => keeps_ite (unlink _) <| keeps_update (fun s => lock s c) fun _ =>
      keeps_guard <| keeps_read fun _ => keeps_read fun _ => keeps_ite
        (refundSteps_keeps <| keeps_bind (invalidateLockedSteps_keeps ..) fun _ =>
          keeps_write (fun _ notLive => notLive) (unlink _))
        (keeps_write (fun _ notLive => notLive) (unlink _))

theorem walkPassSteps_keeps (x : O) (limit : WalkBound) (bound : Nat) :
    ∀ edge count, (walkPassSteps x limit bound edge count : CapProg C O Q _).Keeps (NotLive o) := by
  induction bound with
  | zero => exact fun edge count => trivial
  | succ bound ih =>
    intro edge count
    cases edge with
    | none => trivial
    | some edge =>
      exact keeps_ite (keeps_read fun saved => keeps_bind (visitEdgeSteps_keeps x edge)
        fun visit => ih saved _) trivial

theorem walkBatchSteps_keeps (bound : Nat) (x : O) (maxSlots : U32) :
    (walkBatchSteps bound x maxSlots : CapProg C O Q _).Keeps (NotLive o) := by
  have passes : ∀ limit passes count,
      (walkPassesSteps bound x limit passes count : CapProg C O Q _).Keeps (NotLive o) := by
    intro limit passes
    induction passes with
    | zero => exact fun count => trivial
    | succ passes ih =>
      exact fun count => keeps_read fun _ => keeps_guard <| keeps_read fun head =>
        keeps_bind (walkPassSteps_keeps x limit bound head _) fun after =>
        keeps_guard (ih after)
  exact keeps_guard (keeps_map (passes _ _ _))

theorem drainEntrySteps_keeps (bound : Nat) (i : Fin revokeQMax) (limit : Nat)
    (maxSlots cleared : U32) :
    (drainEntrySteps bound i limit maxSlots cleared : CapProg C O Q _).Keeps (NotLive o) := by
  have emptyEdge : ∀ x cursor total,
      (emptyEdgeSteps x cursor total : CapProg C O Q _).Keeps (NotLive o) := fun x cursor total =>
    keeps_read fun _ => keeps_read fun _ =>
      keeps_ite (keeps_write (fun _ notLive => notLive) trivial) trivial
  refine keeps_read fun _ => keeps_guard <| keeps_read fun pointer => ?_
  cases pointer with
  | none => exact keeps_write (fun _ notLive => notLive) trivial
  | some x =>
    refine keeps_read fun _ => keeps_ite (keeps_write (fun _ notLive => notLive) trivial) <|
      keeps_read fun _ => keeps_read fun _ => keeps_guard <| keeps_read fun _ =>
      keeps_ite ?_ (emptyEdge _ _ _)
    refine keeps_bind (keeps_bind (walkBatchSteps_keeps ..) fun _ => keeps_read fun _ => ?_)
      fun total => keeps_write (fun _ notLive => notLive) (emptyEdge _ _ _)
    exact keeps_ite (keeps_map (walkBatchSteps_keeps ..)) trivial

theorem processDeferredSteps_keeps (bound : Nat) (maxSlots : U32) :
    (processDeferredSteps bound maxSlots : CapProg C O Q _).Keeps (NotLive o) := by
  have loop : ∀ limit start scan cleared,
      (drainLoopSteps bound limit start maxSlots scan cleared : CapProg C O Q _).Keeps
        (NotLive o) := by
    intro limit start scan
    induction scan with
    | nil => exact fun cleared => trivial
    | cons scanned rest ih =>
      exact fun cleared => keeps_guard <| keeps_bind (drainEntrySteps_keeps ..) fun total =>
        ih total
  exact keeps_read fun limit => keeps_guard <| keeps_read fun _ => loop _ _ _ _

theorem CapOp.steps_keeps {bound : Nat} {op : CapOp C O Q} {program : CapProg C O Q CapReply}
    (written : op.steps bound = some program) : program.Keeps (NotLive o) := by
  cases op with
  | resolve => exact written_keeps (resolveSteps_keeps ..) written
  | slotInstall => exact written_keeps (slotInstallSteps_keeps ..) written
  | allocInstall => exact written_keeps (allocInstallSteps_keeps ..) written
  | mint => exact written_keeps (mintSteps_keeps ..) written
  | copy => exact written_keeps (copySteps_keeps ..) written
  | move => exact written_keeps (moveSteps_keeps ..) written
  | delete => exact written_keeps (deleteSteps_keeps ..) written
  | revokeBegin => exact written_keeps (revokeBeginSteps_keeps _) written
  | walkBatch => exact written_keeps (walkBatchSteps_keeps ..) written
  | processDeferred => exact written_keeps (processDeferredSteps_keeps ..) written
  | _ => simp [CapOp.steps] at written

/-- The programs other CPUs run: any of the calls, its loops with any number of iterations. -/
def CallProgram (program : CapProg C O Q CapReply) : Prop :=
  ∃ bound op, CapOp.steps bound op = some program

/-- Once the DEAD store of a revoke has happened, then in every later state of every
interleaving of the accesses of any number of calls every handle whose slot names the object
fails to resolve, and so does a resolve that is itself interleaved with those calls. -/
theorem revoke_fails_closed {ι : Type x} [DecidableEq ι]
    {start now later : Config ι (CapState C O Q) CapReply}
    (idle : ∀ t, ∃ reply, start.thread t = .done reply)
    (before : Interleave.Reaches CallProgram start now) (dead : (now.shared.obj o).state = .dead)
    (after : Interleave.Reaches CallProgram now later) :
    (∀ c slot gen, (later.shared.slot c slot).obj = some o →
      ∃ code, gjCapResolve later.shared c slot gen = .error code) ∧
    ∀ c slot gen res, (resolveSteps c slot gen : CapProg C O Q _).Yields
      (fun s => ∃ config, Interleave.Reaches CallProgram now config ∧ config.shared = s) (.ok res) →
      res.obj ≠ o := by
  have known : ∀ program : CapProg C O Q CapReply, CallProgram program →
      program.Keeps (NotLive o) := fun program ⟨_, _, written⟩ => CapOp.steps_keeps written
  have idleKeeps : ThreadsKeep (NotLive o) start := fun t => by
    obtain ⟨reply, finished⟩ := idle t
    rw [finished]
    trivial
  have notLive : NotLive o now.shared := by
    rw [NotLive, dead]
    nofun
  have stays : ∀ config, Interleave.Reaches CallProgram now config → NotLive o config.shared :=
    fun config reaches => (reaches.keeps known (before.keeps known idleKeeps).1).2 notLive
  refine ⟨fun c slot gen pointer => (stays later after).resolve_fails pointer gen, ?_⟩
  intro c slot gen res yields
  refine resolveSteps_yields (yields_mono yields ?_)
  rintro s ⟨config, reaches, rfl⟩
  exact stays config reaches

end

/-! ### A revoke between the checks and the writes of an install -/

/-- Two CPUs: one begins an install, the other the revoke of the same object. -/
def sampleRace : Config (Fin 2) (CapState Nat Nat Nat) CapReply :=
  (Config.start { shared := .boot (fun _ => 4) fun _ => 8, thread := fun _ => .done .done } 0
    ((slotInstallSteps 0 1 .frame GjRight.mint 0).map .ofHandle)).start 1
    ((revokeBeginSteps 0).map .status)

/-- The whole revoke happens after the checks of the install and before its writes; the slot
then names the dead object, and its handle does not resolve. -/
theorem revoke_fails_closed_race :
    let later := (sampleRace.schedule (List.replicate 9 0 ++ List.replicate 4 1)).schedule
      (List.replicate 7 0)
    (later.shared.slot 0 1).Names 0 ∧ ∃ code, gjCapResolve later.shared 0 1 1 = .error code := by
  have before : Interleave.Reaches CallProgram
      { shared := .boot (fun _ => 4) fun _ => 8, thread := fun _ => .done .done } sampleRace :=
    (Relation.ReflTransGen.single (.start _ 0 .done rfl _ ⟨0, .slotInstall .., rfl⟩)).tail
      (.start _ 1 .done rfl _ ⟨0, .revokeBegin 0, rfl⟩)
  have names : (((sampleRace.schedule (List.replicate 9 0 ++ List.replicate 4 1)).schedule
      (List.replicate 7 0)).shared.slot 0 1).Names 0 := by decide +kernel
  exact ⟨names, (revoke_fails_closed (fun _ => ⟨_, rfl⟩)
    (before.trans (Config.schedule_reaches _ _)) (by decide +kernel)
    (Config.schedule_reaches _ _)).1 0 1 1 names.2⟩

end GreenJade.Cap
