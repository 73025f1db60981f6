import GreenJade.Net.TcpCallMoves

/-! Owns that a frame from the wire is made of the moves of its segment. -/

namespace GreenJade.Net

namespace Tcp

variable {st st₁ st₂ : Tcp} {s : Slot} {kinds : Move → Prop} {cs : Slot} {seg : Segment}

theorem ownsSegment_iff (sock : TcpSock) (seg : Segment) :
    ownsSegment sock seg = true ↔ sock.core.owns seg := by
  unfold ownsSegment Core.owns TcpSock.core
  simp only [Bool.and_eq_true, Bool.not_eq_true', decide_eq_true_eq, and_assoc]

theorem Ensured.connection (ensured : Ensured st st₁) (used : (st.socks s).used = true)
    (connected : (st.socks s).listening = false) : st₁.socks s = st.socks s := by
  rcases ensured.kept s used with same | ⟨-, listening, -⟩
  · exact same
  · exact nomatch connected.symm.trans listening

/-- The owner of a segment was there before the listener on port 22 was made. -/
theorem Ensured.owner (ensured : Ensured st st₁) (owns : ownsSegment (st₁.socks cs) seg = true) :
    st₁.socks cs = st.socks cs := by
  obtain ⟨used, connected, -⟩ := (ownsSegment_iff _ _).mp owns
  have before : (st.socks cs).used = true := by
    by_contra free
    have minted := ensured.moves.invariant
      (fun v => (v.cores cs).used = true → (v.cores cs).listening = true) (by
        intro move v v' readies makes either
        cases move <;> simp only [Move.Readies, Move.Makes] at readies makes <;> grind -ring -order)
      (fun used => absurd used free) used
    exact Bool.noConfusion (connected.symm.trans minted)
  exact ensured.connection before
    ((congrArg Core.listening (ensured.kept cs before).core).symm.trans connected)

/-- A child is dropped: the listeners give it up, and its slot is cleared. -/
theorem dropSynRcvd_eq (used : (st.socks s).used = true) :
    ∃ st₁, Books st st₁ ∧ st.dropSynRcvd s = st₁.free s := by
  unfold dropSynRcvd
  rw [if_neg (by rw [used]; exact Bool.true_eq_false_eq_False)]
  have hinted := books_dropByHint st s
  generalize st.dropByHint s = result at hinted ⊢
  refine ⟨_, Books.trans ?_ (books_rehookLast _ _ _), rfl⟩
  split_ifs
  · exact hinted.trans (books_dropByPort _ _)
  · exact hinted

theorem view_dropSynRcvd (used : (st.socks s).used = true) :
    (st.dropSynRcvd s).view = st.view.set s .zero := by
  obtain ⟨st₁, books, dropped⟩ := dropSynRcvd_eq used
  rw [dropped, view_free, books.view]

theorem moves_inputRst (owns : ownsSegment (st.socks cs) seg = true) :
    Moves (fun move => move = .drop cs ∨ move = .rst cs) st.view (st.inputRst cs).view := by
  obtain ⟨used, connected, eth, -⟩ := (ownsSegment_iff _ _).mp owns
  unfold inputRst
  dsimp only
  split
  · next young =>
      exact .single (.inl rfl)
        ⟨used, eth, young.imp_left fun queued => ⟨queued, connected⟩, view_dropSynRcvd used⟩
  · next old =>
      rw [not_or] at old
      rw [view_setSock]
      split_ifs with opened
      · exact .single (.inr rfl) ⟨eth, connected, Bool.eq_false_iff.mpr old.1, old.2, rfl⟩
      · exact .of_eq (st.view.set_same cs)

variable (link : Link)

theorem sndOnly_inputDupSyn (eth : (st.socks cs).isLoop = false) (dport : U16) :
    SndOnly cs st (st.inputDupSyn link cs dport) := by
  unfold inputDupSyn
  dsimp only
  generalize (if (st.socks cs).snd.rtxSyn then (st.socks cs).snd.rtxSeq
    else (st.socks cs).snd.una) = seq
  have raw := sndOnly_tcpTxRaw link eth (flSyn ||| flAck) seq []
  generalize st.tcpTxRaw link cs (flSyn ||| flAck) seq [] = result at raw ⊢
  refine SndOnly.trans ?_ (.modSnd _ cs _)
  split
  · exact raw.trans (sndOnly_busyShots link _ _ _ _ _ (raw.isLoop.trans eth))
  · exact raw

theorem sndOnly_shootSynAck (eth : (st.socks s).isLoop = false) :
    SndOnly s st (st.shootSynAck link s) := by
  unfold shootSynAck
  dsimp only
  generalize (if (st.socks s).snd.rtxSyn then (st.socks s).snd.rtxSeq
    else (st.socks s).snd.nxt) = seq
  have shots := sndOnly_busyShots link (flSyn ||| flAck) seq []
    (fun snd => { snd.failed with rtxBusy := true }) tcpRtxBusyShots eth
  generalize busyShots link s _ _ _ _ _ _ = result at shots ⊢
  split
  · exact (shots.trans (.modSnd _ s _)).trans (.markLanded _ s)
  · exact shots

variable {ls : Slot} {port : U16}

theorem moves_inputSyn (used : (st.socks ls).used = true)
    (listening : (st.socks ls).listening = true) (seg : Segment) :
    Moves (fun move => ∃ child, move = .spawn child seg) st.view
      (st.inputSyn link ls seg).view := by
  have stays {st₁ : Tcp} (same : (st₁.socks ls).core = (st.socks ls).core) :
      (st₁.socks ls).used = true ∧ (st₁.socks ls).listening = true :=
    ⟨(congrArg Core.used same).trans used, (congrArg Core.listening same).trans listening⟩
  have one := books_atLeastOne used listening
  unfold inputSyn
  dsimp only
  generalize st.atLeastOne ls = st₁ at one ⊢
  split
  · exact .of_eq one.view
  have here := stays (one.socks ls).core
  have reclaimed := one.trans (books_reclaimHint here.1 here.2)
  generalize st₁.reclaimHint ls = st₂ at reclaimed ⊢
  split
  · exact .of_eq reclaimed.view
  next ns st₃ taken =>
  have here := stays (reclaimed.socks ls).core
  obtain ⟨different, same⟩ := allocSlot_of_used taken here.1
  have spawned : Move.Makes st.view (st₃.setSock ns (synChild (st₃.socks ns) seg)).view
      (.spawn ns seg) := by
    rw [← reclaimed.view]
    refine ⟨allocSlot_free taken, ?_⟩
    rw [view_setSock, view_allocSlot taken, View.alloc_set, allocSlot_self taken]
    rfl
  have eth : ((st₃.setSock ns (synChild (st₃.socks ns) seg)).socks ns).isLoop = false := by
    rw [setSock_self]
    rfl
  have kept : (st₃.setSock ns (synChild (st₃.socks ns) seg)).socks ls = st₂.socks ls :=
    (setSock_of_ne st₃ different _).trans same
  generalize st₃.setSock ns (synChild (st₃.socks ns) seg) = st₄ at spawned eth kept ⊢
  have sent := sndOnly_tcpTx link eth (flSyn ||| flAck) []
  generalize st₄.tcpTx link ns (flSyn ||| flAck) [] = result at sent ⊢
  have shot : SndOnly ns st₄ (if result.1 < 0 ∧ seg.dport = tcpSoftSshPort then
      result.2.shootSynAck link ns else result.2) := by
    split
    · exact sent.trans (sndOnly_shootSynAck link (sent.isLoop.trans eth))
    · exact sent
  generalize (if result.1 < 0 ∧ seg.dport = tcpSoftSshPort then
    result.2.shootSynAck link ns else result.2) = st₅ at shot ⊢
  have here := stays ((shot.core ls).trans ((congrArg TcpSock.core kept).trans
    (reclaimed.socks ls).core))
  refine (Moves.single ⟨ns, rfl⟩ spawned).trans (.of_eq ?_)
  exact (books_enqueue here.1 here.2 ns).view.trans shot.view

section

variable (owns : ownsSegment (st.socks cs) seg = true)
include owns

theorem moves_inputHandshake : Moves (fun move => move = .establish cs seg ∧ seg.hasAck = true ∧
      (st.socks cs).snd.acksSyn seg.ack = true) st.view (st.inputHandshake cs seg).view := by
  unfold inputHandshake
  dsimp only
  split
  · next asked =>
      obtain ⟨young, ack, covers⟩ := asked
      have established : Move.Makes st.view (st.setSock cs { st.socks cs with
            state := .established, snd := (st.socks cs).snd.synAcked seg.ack }).view
          (.establish cs seg) := by
        refine ⟨(ownsSegment_iff _ _).mp owns, young, ?_⟩
        rw [view_setSock]
        rfl
      split_ifs
      · exact (Moves.single ⟨rfl, ack, covers⟩ established).trans
          (.of_eq (books_requeueAll _ _ _).view)
      · exact .single ⟨rfl, ack, covers⟩ established
  · exact .refl _

/-- The owner of a segment after the handshake. -/
theorem inputHandshake_owner : (st.inputHandshake cs seg).socks cs = st.socks cs ∨
      (st.socks cs).state = .synRcvd ∧ (st.inputHandshake cs seg).socks cs = { st.socks cs with
          state := .established, snd := (st.socks cs).snd.synAcked seg.ack } := by
  obtain ⟨-, connected, -⟩ := (ownsSegment_iff _ _).mp owns
  unfold inputHandshake
  dsimp only
  split
  · next asked =>
      refine .inr ⟨asked.1, ?_⟩
      split_ifs
      · rcases (books_requeueAll (st.setSock cs { st.socks cs with
            state := .established, snd := (st.socks cs).snd.synAcked seg.ack })
            (st.socks cs).lport fun _ => true).socks cs with same | ⟨-, listening, -⟩
        · rw [same, setSock_self]
        · rw [setSock_self] at listening
          exact nomatch connected.symm.trans listening
      · exact setSock_self st cs _
  · exact .inl rfl

/-- What an acknowledgement does: the slot goes on, or it is cleared. -/
theorem moves_inputAck : (st.inputAck cs seg).1 = true ∧
        Moves (fun move => move = .finWait2 cs) st.view (st.inputAck cs seg).2.view ∨
      (st.inputAck cs seg).1 = false ∧ finishes (st.socks cs) seg = true ∧
        Move.Makes st.view (st.inputAck cs seg).2.view (.finalAck cs seg) := by
  have acked := (SndOnly.modSnd st cs fun snd => snd.acked seg.ack)
  unfold inputAck
  dsimp only
  generalize (st.modSnd cs fun snd => snd.acked seg.ack) = st₁ at acked ⊢
  split
  · next covers =>
      split
      · next finished =>
          split
          · next wait =>
              refine .inl ⟨rfl, .single rfl ⟨wait, ?_⟩⟩
              rw [view_setSock, ← acked.view]
              rfl
          · split
            · next last =>
                obtain ⟨ack, beyond, within⟩ := covers
                refine .inr ⟨rfl, ?_, (ownsSegment_iff _ _).mp owns, last, ?_⟩
                · unfold finishes
                  simp only [Bool.and_eq_true, decide_eq_true_eq]
                  exact ⟨⟨⟨⟨⟨owns, last⟩, finished.1⟩, ack⟩, beyond⟩,
                    BitVec.le_antisymm within finished.2⟩
                · rw [view_free, acked.view]
            · exact .inl ⟨rfl, .of_eq acked.view⟩
      · exact .inl ⟨rfl, .of_eq acked.view⟩
  · exact .inl ⟨rfl, .refl _⟩

end

/-- The bytes that a ring takes are the first ones of the segment. -/
theorem takes_eq_take (rcv : Receiver) (pay : List U8) :
    ∃ count, count ≤ pay.length ∧ count ≤ tcpRxMax - rcv.len ∧
      rcv.takes (pay.take tcpMss) = pay.take count ∧
        (rcv.takes (pay.take tcpMss)).length = count := by
  refine ⟨min (min (tcpRxMax - rcv.len) tcpMss) pay.length, Nat.min_le_right _ _,
    (Nat.min_le_left _ _).trans (Nat.min_le_left _ _), ?_, ?_⟩
  · unfold Receiver.takes
    rw [List.take_take, ← List.take_eq_take_min]
  · unfold Receiver.takes
    rw [List.take_take, List.length_take]

theorem moves_inputData (owns : (st.view.cores cs).owns seg) :
    Moves (fun move => ∃ count, move = .push cs seg count) st.view
      (st.inputData link cs seg).view := by
  unfold inputData
  dsimp only
  split
  · next asked =>
      obtain ⟨-, inOrder, opened⟩ := asked
      rw [pushRx_of_used owns.1]
      obtain ⟨count, inside, fits, took, length⟩ := takes_eq_take (st.socks cs).rcv seg.pay
      rw [length, took]
      split
      · have put : (st.putRx cs (seg.pay.take count)).view = st.view.set cs
            { st.view.cores cs with rcv := (st.view.cores cs).rcv.push (seg.pay.take count) } := by
          rw [putRx, view_setSock]
          rfl
        generalize st.putRx cs (seg.pay.take count) = st₁ at put ⊢
        have core := core_of_view put cs
        rw [View.set_self] at core
        generalize sock : st₁.socks cs = sock₁ at core ⊢
        have pushed : Move.Makes st.view (st₁.setSock cs { sock₁ with rcv := { sock₁.rcv with
              nxt := sock₁.rcv.nxt + BitVec.ofNat 32 (count : Int).toNat } }).view
            (.push cs seg count) := by
          refine ⟨owns, inOrder.symm, inside, fits, opened, ?_⟩
          have nxt : sock₁.rcv.nxt = (st.view.cores cs).rcv.nxt :=
            (congrArg (fun core : Core => core.rcv.nxt) core).trans (Receiver.push_nxt _ _)
          rw [view_setSock, put, View.set_set, Core.pushed, List.length_take_of_le inside, nxt]
          apply congrArg (st.view.set cs)
          exact congrArg (fun core : Core => { core with rcv := { core.rcv with
            nxt := (st.view.cores cs).rcv.nxt + BitVec.ofNat 32 count } }) core
        have eth : ((st₁.setSock cs { sock₁ with rcv := { sock₁.rcv with
              nxt := sock₁.rcv.nxt + BitVec.ofNat 32 (count : Int).toNat } }).socks
              cs).isLoop = false := by
          rw [setSock_self]
          exact (congrArg Core.isLoop core).trans owns.2.2.1
        exact (Moves.single ⟨count, rfl⟩ pushed).trans
          (.of_eq (sndOnly_tcpTx link eth flAck []).view)
      · have none : count = 0 := by omega
        rw [none, List.take_zero, putRx_nil]
        exact .refl _
  · exact .refl _

/-- A FIN is looked at only in the states that it ends. -/
theorem moves_inputFin (owns : (st.view.cores cs).owns seg) (takes : (st.socks cs).state.TakesFin) :
    Moves (fun move => move = .fin cs seg) st.view (st.inputFin link cs seg).view := by
  have ended (state : TcpState) (twTick : U32)
      (after : (st.socks cs).state.afterFin = state) (flags : U8) :
      Moves (fun move => move = .fin cs seg) st.view ((st.setSock cs { st.socks cs with
          state, twTick, rcv := { (st.socks cs).rcv with nxt := (st.socks cs).rcv.nxt + 1 } }).tcpTx
            link cs flags []).2.view := by
    have eth : ((st.setSock cs { st.socks cs with
        state, twTick, rcv := { (st.socks cs).rcv with nxt := (st.socks cs).rcv.nxt + 1 } }).socks
          cs).isLoop = false := by
      rw [setSock_self]
      exact owns.2.2.1
    refine .single rfl ⟨owns, takes, ?_⟩
    rw [(sndOnly_tcpTx link eth flags []).view, view_setSock]
    subst after
    rfl
  unfold inputFin
  dsimp only
  split
  · split
    · next here => exact ended .closeWait (st.socks cs).twTick (by rw [here]; rfl) flAck
    · next here => exact ended .closeWait (st.socks cs).twTick (by rw [here]; rfl) flAck
    · next here => exact ended .timeWait link.now (by rw [here]; rfl) (flAck ||| flFin)
    · next here => exact ended .timeWait link.now (by rw [here]; rfl) flAck
    · next a b c d =>
        exfalso
        cases state : (st.socks cs).state <;> simp_all [TcpState.TakesFin, TcpState.afterFin]
  · exact .refl _

/-- A segment of a connection that has not changed since the call was made. -/
theorem moves_inputConnection {origin : Tcp} (same : st.socks cs = origin.socks cs)
    (owns : ownsSegment (origin.socks cs) seg = true) :
    Moves (SegmentMoves origin seg) st.view (st.inputConnection link cs seg).view := by
  unfold inputConnection
  dsimp only
  have window : (if seg.wnd = 0 then st
      else st.setSock cs { st.socks cs with peerWnd := seg.wnd }).view = st.view ∧
        ∃ peerWnd, (if seg.wnd = 0 then st
          else st.setSock cs { st.socks cs with peerWnd := seg.wnd }).socks cs =
            { st.socks cs with peerWnd } := by
    split_ifs
    · exact ⟨rfl, _, rfl⟩
    · rw [view_setSock, setSock_self]
      exact ⟨st.view.set_same cs, _, rfl⟩
  generalize (if seg.wnd = 0 then st
    else st.setSock cs { st.socks cs with peerWnd := seg.wnd }) = st₁ at window ⊢
  obtain ⟨view₁, peerWnd, sock₁⟩ := window
  have owns₁ : ownsSegment (st₁.socks cs) seg = true := by
    rw [sock₁, same]
    exact owns
  have established := moves_inputHandshake owns₁
  have owner := inputHandshake_owner owns₁
  generalize st₁.inputHandshake cs seg = st₂ at established owner ⊢
  have owns₂ : ownsSegment (st₂.socks cs) seg = true := by
    rcases owner with kept | ⟨-, changed⟩
    · rw [kept]
      exact owns₁
    · rw [changed]
      exact owns₁
  have first : Moves (SegmentMoves origin seg) st.view st₂.view := by
    rw [← view₁]
    apply established.mono
    rintro _ ⟨rfl, ack, covers⟩
    rw [sock₁, same] at covers
    exact .establish cs owns ack covers
  rcases moves_inputAck owns₂ with ⟨goesOn, waited⟩ | ⟨isOver, finished, cleared⟩
  · generalize st₂.inputAck cs seg = result at goesOn waited ⊢
    obtain ⟨alive, st₃⟩ := result
    subst goesOn
    dsimp only at waited ⊢
    have owns₃ : (st₃.view.cores cs).owns seg := by
      refine waited.invariant (fun v => (v.cores cs).owns seg) ?_ ((ownsSegment_iff _ _).mp owns₂)
      rintro _ v v' rfl ⟨-, rfl⟩ owns
      rw [View.set_self]
      exact owns
    have second : Moves (SegmentMoves origin seg) st.view st₃.view := by
      refine first.trans (waited.mono ?_)
      rintro _ rfl
      exact .finWait2 cs owns
    have rest (takes : (st₃.socks cs).state.TakesFin) : Moves (SegmentMoves origin seg) st.view
        ((st₃.inputData link cs seg).inputFin link cs seg).view := by
      have pushed := moves_inputData link owns₃
      have kept := pushed.invariant
        (fun v => (v.cores cs).owns seg ∧ (v.cores cs).state.TakesFin) (by
          rintro _ v v' ⟨count, rfl⟩ ⟨-, -, -, -, -, rfl⟩ kept
          rw [View.set_self]
          exact kept) ⟨owns₃, takes⟩
      refine (second.trans (pushed.mono ?_)).trans ((moves_inputFin link kept.1 kept.2).mono ?_)
      · rintro _ ⟨count, rfl⟩
        exact .push cs count owns
      · rintro _ rfl
        exact .fin cs owns
    split
    · next here => exact rest (by rw [here]; decide)
    · next here => exact rest (by rw [here]; decide)
    · next here => exact rest (by rw [here]; decide)
    · next here => exact rest (by rw [here]; decide)
    · exact second
  · have before : finishes (origin.socks cs) seg = true := by
      rcases owner with kept | ⟨-, changed⟩
      · rw [kept, sock₁, same] at finished
        exact finished
      · rw [changed] at finished
        simp only [finishes, Bool.and_eq_true, decide_eq_true_eq] at finished
        exact absurd finished.1.1.1.1.2 (by decide)
    generalize st₂.inputAck cs seg = result at isOver cleared ⊢
    obtain ⟨alive, st₃⟩ := result
    subst isOver
    exact first.trans (.single (.finalAck cs before) cleared)

theorem listens_of_or {a b : Option Slot} (first : a = some ls → listens (st.socks ls) port = true)
    (second : b = some ls → listens (st.socks ls) port = true) (found : a.or b = some ls) :
    listens (st.socks ls) port = true := by
  rcases Option.or_eq_some_iff.mp found with found | ⟨-, found⟩
  · exact first found
  · exact second found

theorem listens_findListener (found : st.findListener port = some ls) :
    listens (st.socks ls) port = true := by
  refine listens_of_or (listens_of_or ?_ ?_) firstSlot_eq_some found
  · intro found
    have holds := firstSlot_eq_some found
    simp only [Bool.and_eq_true] at holds
    exact holds.1.1
  · intro found
    have holds := firstSlot_eq_some found
    simp only [Bool.and_eq_true] at holds
    exact holds.1

theorem listens_findListener22
    (found : st.findListener22 port = some ls) : listens (st.socks ls) port = true := by
  refine listens_of_or ?_ firstSlot_eq_some found
  intro found
  have holds := firstSlot_eq_some found
  simp only [Bool.and_eq_true] at holds
  exact holds.1.1

theorem ensured_ensureFor (st : Tcp) (seg : Segment) : Ensured st (st.ensureFor link seg) := by
  unfold ensureFor
  split_ifs
  · exact (ensured_ensureListen22 link st).then_books (.of_sameTable ⟨rfl, rfl, rfl⟩)
  · exact ensured_ensureListen22 link st

/-- What a segment does once the listeners are there. -/
theorem moves_inputSegment (st : Tcp) (seg : Segment) :
    Moves (fun move => SegmentMoves st seg move ∨ move.Readies) st.view
      (st.inputSegment link seg).view := by
  unfold inputSegment
  dsimp only
  have first : Ensured st (if seg.dport = tcpSoftSshPort then st.ensureFor link seg else st) := by
    split_ifs
    · exact ensured_ensureFor link st seg
    · exact .of_books (.refl st)
  generalize (if seg.dport = tcpSoftSshPort then st.ensureFor link seg else st) = st₁ at first ⊢
  generalize ((st₁.findListener seg.dport).isNone && seg.hasSyn && !seg.hasAck &&
    decide (seg.dport = tcpSoftSshPort)) = again
  have second : Ensured st₁ (if again = true then st₁.ensureFor link seg else st₁) := by
    split_ifs
    · exact ensured_ensureFor link st₁ seg
    · exact .of_books (.refl st₁)
  have listener {ls : Slot} (found : (if again = true then
      (if again = true then st₁.ensureFor link seg else st₁).findListener22 seg.dport
      else st₁.findListener seg.dport) = some ls) :
      listens ((if again = true then st₁.ensureFor link seg else st₁).socks ls) seg.dport
        = true := by
    split_ifs at found ⊢
    · exact listens_findListener22 found
    · exact listens_findListener found
  generalize (if again = true then
      (if again = true then st₁.ensureFor link seg else st₁).findListener22 seg.dport
      else st₁.findListener seg.dport) = ls at listener ⊢
  generalize (if again = true then st₁.ensureFor link seg else st₁) = st₂ at second listener ⊢
  have minted : Moves (fun move => SegmentMoves st seg move ∨ move.Readies) st.view
      st₂.view := (first.trans second).moves.mono fun _ kind => .inr kind
  have owner {cs : Slot} (found : st₁.findConnection seg = some cs) :
      st₂.socks cs = st.socks cs ∧ ownsSegment (st.socks cs) seg = true := by
    have owns := firstSlot_eq_some found
    have owned := (ownsSegment_iff _ _).mp owns
    rw [first.owner owns] at owns
    exact ⟨(second.connection owned.1 owned.2.1).trans (first.owner (firstSlot_eq_some found)),
      owns⟩
  have onward {st₃ : Tcp} {kinds : Move → Prop} (moves : Moves kinds st₂.view st₃.view)
      (segment : ∀ move, kinds move → SegmentMoves st seg move) :
      Moves (fun move => SegmentMoves st seg move ∨ move.Readies) st.view st₃.view :=
    minted.trans (moves.mono fun move kind => .inl (segment move kind))
  split
  · next reset =>
      split
      · exact minted
      · next cs found =>
          obtain ⟨same, owns⟩ := owner found
          apply onward (moves_inputRst (same ▸ owns))
          rintro _ (rfl | rfl)
          · exact .drop cs owns reset
          · exact .rst cs owns reset
  · split
    · split
      · exact minted
      · next ls =>
          split
          · next syn =>
              have here := listener rfl
              simp only [listens, Bool.and_eq_true] at here
              simp only [Bool.and_eq_true, Bool.not_eq_true'] at syn
              apply onward (moves_inputSyn link here.1.1.1 here.1.1.2 seg)
              rintro _ ⟨child, rfl⟩
              exact .spawn child syn.1 syn.2
          · exact minted
    · next cs found =>
        obtain ⟨same, owns⟩ := owner found
        have eth := ((ownsSegment_iff _ _).mp owns).2.2.1
        split
        · exact minted.trans
            (.of_eq (sndOnly_inputDupSyn link (by rw [same]; exact eth) seg.dport).view)
        · exact onward (moves_inputConnection link same owns) fun _ kind => kind

theorem moves_input (st : Tcp) (frame : List U8) :
    Moves (TcpCall.Kinds link st (.input frame)) st.view (st.netTcpInput link frame).view := by
  unfold netTcpInput
  split
  · have same := (sameTable_syncL2Identity link st).trans
      (sameTable_destIsOurs link (st.syncL2Identity link) (word32 frame 30))
    generalize (st.syncL2Identity link).destIsOurs link (word32 frame 30) = result at same ⊢
    obtain ⟨ours, st₁⟩ := result
    cases ours with
    | false => exact .of_eq same.view
    | true =>
      dsimp only
      split
      · exact .of_eq same.view
      next seg parsed =>
      rw [← same.view]
      apply (moves_inputSegment link st₁ seg).mono
      rintro move (kind | readies)
      · exact .input parsed (kind.congr same.socks)
      · exact .inputReady frame readies
  · exact .refl _

end Tcp

end GreenJade.Net
