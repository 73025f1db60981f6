import GreenJade.Net.TcpInputMoves

/-! Owns that a poll is made of its moves, and with it that every call is. -/

namespace GreenJade.Net

open Tcp

namespace Tcp

variable {st st₁ st₂ : Tcp} {s : Slot}

/-! ### Polling -/

/-- A part of a poll: its moves, and no slot is due that was not due before. -/
structure Polls (link : Link) (st st₁ : Tcp) : Prop where
  moves : Moves (TcpCall.Kinds link st .poll) st.view st₁.view
  due : ∀ s, reaps link (st₁.socks s) = true → reaps link (st.socks s) = true

namespace Polls

variable {link : Link}

theorem refl (st : Tcp) : Polls link st st := ⟨.refl _, fun _ due => due⟩

theorem trans (first : Polls link st st₁) (second : Polls link st₁ st₂) : Polls link st st₂ where
  moves := by
    refine first.moves.trans (second.moves.mono ?_)
    intro move kind
    cases kind with
    | pollReady readies => exact .pollReady readies
    | pollDrop s => exact .pollDrop s
    | reap due => exact .reap (first.due _ due)
  due := fun s due => first.due s (second.due s due)

theorem of_sndOnly (only : SndOnly s st st₁) : Polls link st st₁ := by
  refine ⟨.of_eq only.view, fun k due => ?_⟩
  by_cases same : k = s
  · obtain ⟨snd, own⟩ := only.own
    rw [same, own] at due
    exact same ▸ due
  · rw [only.others k same] at due
    exact due

theorem reaps_of_rebooked {new old : TcpSock} (booked : Rebooked new old)
    (due : reaps link new = true) : reaps link old = true := by
  rcases booked with rfl | ⟨-, -, backlog, pending, peer, rfl⟩
  all_goals exact due

theorem of_books (books : Books st st₁) : Polls link st st₁ :=
  ⟨.of_eq books.view, fun s due => reaps_of_rebooked (books.socks s) due⟩

theorem of_ensured (ensured : Ensured st st₁) : Polls link st st₁ := by
  refine ⟨ensured.moves.mono fun _ readies => .pollReady readies, fun s due => ?_⟩
  · by_cases used : (st.socks s).used = true
    · exact reaps_of_rebooked (ensured.kept s used) due
    · simp only [reaps, Bool.and_eq_true, decide_eq_true_eq] at due
      have minted := ensured.moves.invariant
        (fun v => (v.cores s).used = true → (v.cores s).state = .listen) (by
          intro move v v' readies makes either
          cases move <;> simp only [Move.Readies, Move.Makes] at readies makes <;>
            grind -ring -order)
        (fun now => absurd now used) due.1.1
      exact absurd (due.1.2.symm.trans minted) (by decide)

theorem of_free {move : Move} (books : Books st st₁) (kind : TcpCall.Kinds link st .poll move)
    (makes : move.Makes st.view (st₁.free s).view) : Polls link st (st₁.free s) := by
  refine ⟨.single kind makes, fun k due => ?_⟩
  by_cases same : k = s
  · rw [same, free, setSock_self] at due
    exact absurd due Bool.false_ne_true
  · rw [free, setSock_of_ne st₁ same] at due
    exact reaps_of_rebooked (books.socks k) due

theorem foldl {f : Tcp → Slot → Tcp} (each : ∀ st s, Polls link st (f st s)) :
    ∀ (slots : List Slot) (st : Tcp), Polls link st (slots.foldl f st)
  | [], st => refl st
  | s :: rest, st => (each st s).trans (foldl each rest (f st s))

end Polls

variable (link : Link)

theorem sndOnly_retransmit (eth : (st.socks s).isLoop = false) (flags : U8)
    (pay : List U8) (advance : U32) : SndOnly s st (st.retransmit link s flags pay advance).2 := by
  have raw := sndOnly_tcpTxRaw link eth flags (st.socks s).snd.rtxSeq pay
  unfold retransmit
  dsimp only
  generalize st.tcpTxRaw link s flags (st.socks s).snd.rtxSeq pay = result at raw ⊢
  have missed := raw.trans (.modSnd result.2 s fun snd => snd.missed link.now)
  have shots := missed.trans (sndOnly_busyShots link flags (st.socks s).snd.rtxSeq pay
    Sender.failed tcpRtxBusyShots (missed.isLoop.trans eth))
  split_ifs <;> dsimp only
  · exact raw.trans (.modSnd _ s _)
  · exact shots.trans (.modSnd _ s _)
  · exact shots
  · exact missed

theorem sndOnly_retransmitFin (eth : (st.socks s).isLoop = false) :
    SndOnly s st (st.retransmitFin link s).2 := by
  have raw := sndOnly_tcpTxRaw link eth (flFin ||| flAck) (st.socks s).snd.rtxSeq []
  unfold retransmitFin
  dsimp only
  generalize st.tcpTxRaw link s (flFin ||| flAck) (st.socks s).snd.rtxSeq [] = result at raw ⊢
  have shots := raw.trans (sndOnly_busyShots link (flFin ||| flAck) (st.socks s).snd.rtxSeq []
    Sender.failed tcpRtxBusyShots (raw.isLoop.trans eth))
  split_ifs <;> dsimp only
  · exact shots.trans (.modSnd _ s _)
  · exact shots.trans (.modSnd _ s _)
  all_goals exact raw.trans (.modSnd _ s _)

theorem sndOnly_resend (eth : (st.socks s).isLoop = false) : SndOnly s st (st.resend link s).2 := by
  unfold resend
  dsimp only
  split
  · exact sndOnly_retransmit link eth _ _ _
  · split
    · exact sndOnly_retransmitFin link eth
    · exact sndOnly_retransmit link eth _ _ _

theorem polls_giveUp (used : (st.socks s).used = true)
    (eth : (st.socks s).isLoop = false) : Polls link st (st.giveUp s) := by
  unfold giveUp
  split
  · next armed =>
      simp only [TcpSock.armsSynAck, Bool.and_eq_true, decide_eq_true_eq] at armed
      obtain ⟨st₁, books, dropped⟩ := dropSynRcvd_eq used
      have makes : Move.Makes st.view (st.dropSynRcvd s).view (.drop s) :=
        ⟨used, eth, .inr armed.2, view_dropSynRcvd used⟩
      rw [dropped] at makes ⊢
      exact .of_free books (.pollDrop s) makes
  · exact .of_sndOnly (.modSnd st s _)

theorem polls_pollSlot (pass phase : Nat) (st : Tcp) (s : Slot) :
    Polls link st (pollSlot link pass phase st s).2 := by
  unfold pollSlot
  dsimp only
  split
  · exact .refl st
  next inUse =>
  have used : (st.socks s).used = true := Bool.eq_true_of_not_eq_false inUse
  split
  · next waits =>
      split
      · next due =>
          exact .of_free (.refl st) (.reap due.2.2) ⟨used, waits, view_free st s⟩
      · exact .refl st
  split
  · exact .refl st
  next armed =>
  have eth : (st.socks s).isLoop = false := Bool.eq_false_iff.mpr fun loop => armed (.inr loop)
  split
  · exact .refl st
  split
  · exact .refl st
  split
  · exact polls_giveUp link used eth
  have marked : SndOnly s st (if (st.socks s).rtxInterval = 0 then
      st.modSnd s fun snd => { snd with rtxBusy := true } else st) := by
    split
    · exact .modSnd st s _
    · exact .refl st
  split
  · exact .of_sndOnly marked
  · exact .of_sndOnly (marked.trans (sndOnly_resend link (marked.isLoop.trans eth)))

theorem polls_markBusy (st : Tcp) (test : TcpSock → Bool) : Polls link st (st.markBusy test) := by
  refine Polls.foldl (fun st i => ?_) _ st
  split_ifs
  · exact .of_sndOnly (.modSnd st i _)
  · exact .refl st

theorem polls_pollPhase (pass phase : Nat) (busy : Bool) (st : Tcp) :
    Polls link st (pollPhase link pass phase busy st).2 := by
  have each : ∀ (slots : List Slot) (busy : Bool) (st : Tcp),
      Polls link st (slots.foldl (fun (x : Bool × Tcp) s =>
        (x.1 || (pollSlot link pass phase x.2 s).1, (pollSlot link pass phase x.2 s).2))
          (busy, st)).2 := by
    intro slots
    induction slots with
    | nil => exact fun _ st => .refl st
    | cons s rest ih =>
      exact fun busy st => (polls_pollSlot link pass phase st s).trans (ih _ _)
  exact each _ busy st

theorem polls_pollPass (pass : Nat) (st : Tcp) : Polls link st (pollPass link pass st).2 :=
  (((polls_markBusy link st _).trans (polls_pollPhase link pass 0 _ _)).trans
    (polls_pollPhase link pass 1 _ _)).trans (polls_pollPhase link pass 2 _ _)

theorem polls_pollPasses (link : Link) : ∀ (left pass : Nat) (st : Tcp),
    Polls link st (pollPasses link left pass st)
  | 0, _, st => .refl st
  | left + 1, pass, st => by
    have once := polls_pollPass link pass st
    rw [pollPasses]
    generalize pollPass link pass st = result at once ⊢
    dsimp only
    split
    · exact once.trans (polls_pollPasses link left (pass + 1) _)
    · exact once

theorem moves_poll (st : Tcp) :
    Moves (TcpCall.Kinds link st .poll) st.view (st.netTcpPoll link).view := by
  have same {st st₁ : Tcp} (same : st.SameTable st₁) : Polls link st st₁ :=
    .of_books (.of_sameTable same)
  have ready : Polls link st ((st.ensureListen22 link).requeueAll tcpSoftSshPort fun _ => true) :=
    (Polls.of_ensured (ensured_ensureListen22 link st)).trans (.of_books (books_requeueAll _ _ _))
  have marked := (ready.trans (polls_markBusy link _ TcpSock.busyFirst)).trans
    (same (sameTable_holdLabIp link _))
  have passed := marked.trans (polls_pollPasses link tcpRtxPasses 0 _)
  have after := (passed.trans (.of_ensured (ensured_ensureListen22 link _))).trans
    (same (sameTable_refresh link _))
  exact (after.trans (.of_books (books_requeueAll _ _ _))).moves

end Tcp

/-- Each call is made of its moves. -/
theorem TcpCall.moves (link : Link) (st : Tcp) (call : TcpCall) :
    Moves (call.Kinds link st) st.view (call.run link st).view := by
  cases call with
  | socket => exact moves_socket link st
  | bind fd port => exact moves_bind link st fd port
  | listen fd backlog => exact moves_listen link st fd backlog
  | connect fd port => exact moves_connect link st fd port
  | accept fd => exact moves_accept link st fd
  | send fd buf => exact moves_send link st fd buf
  | recv fd cb => exact moves_recv link st fd cb
  | close fd => exact moves_close link st fd
  | shutdown fd how => exact moves_shutdown link st fd how
  | pollMask fd want => exact moves_pollMask link st fd want
  | input frame => exact moves_input link st frame
  | poll => exact moves_poll link st

/-! ### Runs -/

/-- A call at a moment, with what the link is like then. -/
def tcpStep (st : Tcp) (event : Link × TcpCall) : Tcp := event.2.run event.1 st

/-- The stack starts with no sockets, and may see to a listener on port 22. -/
theorem moves_netTcpInit (link : Link) :
    Moves Move.Readies cleared.view (netTcpInit link).view := by
  have same := sameTable_syncL2Identity link cleared
  rw [← same.view]
  exact (ensured_ensureListen22 link _).moves

end GreenJade.Net
