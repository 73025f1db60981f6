import GreenJade.Lib.RingBuffer
import GreenJade.Net.TcpRefine

/-! Owns the receive rings of sockets: what goes in comes out in order, no ring is ever filled
beyond its size, and what `net_tcp_send` on a loopback socket puts into which ring. -/

namespace GreenJade.Net

open List

/-! ### One ring -/

namespace Receiver

theorem push_append (rcv : Receiver) (first second : List U8) :
    rcv.push (first ++ second) = (rcv.push first).push second := foldl_append

theorem push_len (rcv : Receiver) (bytes : List U8) :
    (rcv.push bytes).len = rcv.len + bytes.length := by
  induction bytes generalizing rcv with
  | nil => rfl
  | cons byte rest ih =>
    apply (ih _).trans
    dsimp only
    rw [length_cons]
    omega

theorem bytes_push {rcv : Receiver} {bytes : List U8} (room : rcv.len + bytes.length ≤ tcpRxMax) :
    (rcv.push bytes).bytes = rcv.bytes ++ bytes := by
  induction bytes generalizing rcv with
  | nil => exact (append_nil _).symm
  | cons byte rest ih =>
    rw [length_cons] at room
    rw [← singleton_append, push_append, ih, ← append_assoc]
    · apply congrArg (· ++ rest)
      exact RingBuffer.content_push (by omega) byte
    · rw [push_len, length_singleton]
      omega

theorem pop_spec {count : Nat} {rcv : Receiver} (inside : count ≤ rcv.len) :
    (pop count rcv).1 = rcv.bytes.take count ∧ (pop count rcv).2.bytes = rcv.bytes.drop count ∧
      (pop count rcv).2.len = rcv.len - count ∧ (pop count rcv).2.nxt = rcv.nxt := by
  induction count generalizing rcv with
  | zero => exact ⟨rfl, rfl, rfl, rfl⟩
  | succ count ih =>
    obtain ⟨len, same⟩ : ∃ len, rcv.len = len + 1 := ⟨rcv.len - 1, by omega⟩
    have front : rcv.bytes = rcv.cells (Fin.ofNat tcpRxMax rcv.head) ::
        bytes { rcv with head := (rcv.head + 1) % tcpRxMax, len := rcv.len - 1 } := by
      unfold bytes
      rw [same, RingBuffer.content_pop, Nat.add_sub_cancel]
    have shorter : count ≤ ({ rcv with
        head := (rcv.head + 1) % tcpRxMax, len := rcv.len - 1 } : Receiver).len := by
      change count ≤ rcv.len - 1
      omega
    obtain ⟨taken, left, length, nxt⟩ := ih shorter
    rw [front]
    refine ⟨congrArg _ taken, left, length.trans ?_, nxt⟩
    change rcv.len - 1 - count = rcv.len - (count + 1)
    omega

end Receiver

/-! ### All rings -/

def View.RingsFit (v : View) : Prop := ∀ k, (v.cores k).rcv.len ≤ tcpRxMax

theorem View.RingsFit.of_makes {v v' : View} {move : Move} (fit : v.RingsFit)
    (makes : move.Makes v v') : v'.RingsFit := by
  intro k
  have before := fit k
  by_cases touched : move.Touches k
  · cases move <;> simp only [Move.Makes] at makes touched
    case pop s count =>
      obtain ⟨inside, rfl⟩ := makes
      rw [touched, View.set_self, (Receiver.pop_spec inside).2.2.1]
      exact (Nat.sub_le _ _).trans (touched ▸ before)
    all_goals grind -ring -order [Receiver.zero, Receiver.push_len, Core.pushed, Core.afterFin]
  · rw [Move.frame makes touched]
    exact before

theorem View.RingsFit.run {link : Link} {st : Tcp} (fit : st.view.RingsFit) (call : TcpCall) :
    (call.run link st).view.RingsFit :=
  (call.moves link st).invariant View.RingsFit (fun _ _ _ _ makes fit => fit.of_makes makes) fit

/-- Whatever is called and whatever frames come in, no receive ring is filled beyond its size. -/
theorem tcpRuns_rings_fit (link : Link) (run : List (Link × TcpCall)) :
    (run.foldl tcpStep (Tcp.netTcpInit link)).view.RingsFit := by
  have start : (Tcp.netTcpInit link).view.RingsFit :=
    (moves_netTcpInit link).invariant View.RingsFit (fun _ _ _ _ makes fit => fit.of_makes makes)
      fun _ => Nat.zero_le _
  exact foldlRecOn (motive := fun st : Tcp => st.view.RingsFit) _ _ start
    fun _ fit event _ => fit.run event.2

/-! ### Bytes over loopback -/

/-- Bytes are added to one ring. -/
def View.deliver (v : View) (b : Slot) (bytes : List U8) : View :=
  v.set b { v.cores b with rcv := (v.cores b).rcv.push bytes }

namespace View

theorem deliver_nil (v : View) (b : Slot) : v.deliver b [] = v := v.set_same b

theorem deliver_append (v : View) (b : Slot) (first second : List U8) :
    (v.deliver b first).deliver b second = v.deliver b (first ++ second) := by
  unfold deliver
  rw [set_self, set_set, Receiver.push_append]

/-- A socket is an end of a loopback connection whose other end is in use. -/
structure Ends (v : View) (a b : Slot) : Prop where
  used : (v.cores a).used = true
  loop : (v.cores a).isLoop = true
  mate : (v.cores a).mate = some b
  other : (v.cores b).used = true

theorem Ends.deliver {v : View} {a b : Slot} (ends : v.Ends a b) (bytes : List U8) :
    (v.deliver b bytes).Ends a b := by
  obtain ⟨used, loop, mate, other⟩ := ends
  unfold View.deliver
  constructor <;> grind -ring -order

end View

namespace Tcp

variable {st : Tcp} {a b : Slot}

/-- Data over loopback: the first bytes go to the other end, and the count of them is returned, or
that there is no room. -/
theorem tcpTx_deliver (link : Link) (ends : st.view.Ends a b) {flags : U8}
    (noSyn : flags &&& flSyn = 0) (noFin : flags &&& flFin = 0) (pay : List U8) :
    ∃ n, n ≤ pay.length ∧ (st.tcpTx link a flags pay).2.view = st.view.deliver b (pay.take n) ∧
      ((st.tcpTx link a flags pay).1 = (n : Int) ∨
        (st.tcpTx link a flags pay).1 = -11 ∧ n = 0) := by
  have hint : (st.socks a).peer = some b := TcpSock.core_mate ends.mate
  obtain ⟨result, only⟩ := tcpTx_loop link ends.used ends.loop noSyn pay
  obtain ⟨n, inside, -, took, length⟩ := takes_eq_take (st.socks b).rcv pay
  change st.loopTook b pay = pay.take n at took
  change (st.loopTook b pay).length = n at length
  have delivered : (st.putRx b (st.loopTook b pay)).view = st.view.deliver b (pay.take n) := by
    rw [took, putRx, view_setSock]
    rfl
  have plain (sock : TcpSock) : loopFlags link flags (st.socks a).snd.nxt sock = sock := by
    unfold loopFlags
    rw [if_neg (not_not_intro noSyn), if_neg (not_not_intro noFin)]
  refine ⟨n, inside, ?_⟩
  rw [result, only.view, txLoop_of_used link hint ends.other]
  split
  · next whole =>
      rw [plain, setSock_same, ← whole, length]
      exact ⟨delivered, .inl rfl⟩
  · refine ⟨delivered, ?_⟩
    rw [length]
    split_ifs with some
    · exact .inl rfl
    · exact .inr ⟨rfl, by omega⟩

/-- The loop of `net_tcp_send` on an end of a loopback connection. -/
theorem sendLoop_deliver (link : Link) : ∀ (turns : Nat) {st : Tcp} (left : List U8) (done : Nat),
    st.view.Ends a b → ∃ n, n ≤ left.length ∧
      (sendLoop link a turns st left done).2.view = st.view.deliver b (left.take n) ∧
      ((sendLoop link a turns st left done).1 = (done + n : Nat) ∨
        (sendLoop link a turns st left done).1 = -11 ∧ n = 0 ∧ done = 0)
  | 0, st, left, done, _ => ⟨0, Nat.zero_le _, (st.view.deliver_nil b).symm, .inl rfl⟩
  | turns + 1, st, left, done, ends => by
    have nothing : ∃ n, n ≤ left.length ∧ st.view = st.view.deliver b (left.take n) ∧
        ((done : Int) = (done + n : Nat) ∨ (done : Int) = -11 ∧ n = 0 ∧ done = 0) :=
      ⟨0, Nat.zero_le _, (st.view.deliver_nil b).symm, .inl rfl⟩
    rw [sendLoop]
    split
    · exact nothing
    split
    · exact nothing
    next chunk _ =>
    obtain ⟨n, inside, view, result⟩ := tcpTx_deliver link ends
      (show (flAck ||| flPsh) &&& flSyn = 0 by decide) (by decide) (left.take chunk)
    dsimp only
    generalize st.tcpTx link a (flAck ||| flPsh) (left.take chunk) = sent at view result ⊢
    rw [length_take] at inside
    have short : (left.take chunk).take n = left.take n := by
      rw [take_take, Nat.min_eq_left (by omega)]
    rw [short] at view
    split
    · next failed =>
        obtain ⟨-, rfl⟩ := result.resolve_left fun accepted => by omega
        refine ⟨0, Nat.zero_le _, ?_, ?_⟩
        · dsimp only
          split_ifs
          · exact (SndOnly.modSnd _ a _).view.trans view
          · exact view
        · dsimp only
          split_ifs with some
          · exact .inl rfl
          · exact .inr ⟨rfl, rfl, by omega⟩
    · next accepted =>
        have count : sent.1.toNat = n := by omega
        rw [count]
        have acked : (if (sent.2.socks a).isLoop = true then
            sent.2.modSnd a fun snd => { snd with una := snd.nxt, rtxValid := false }
            else sent.2).view = st.view.deliver b (left.take n) := by
          split_ifs
          · exact (SndOnly.modSnd _ a _).view.trans view
          · exact view
        generalize (if (sent.2.socks a).isLoop = true then
          sent.2.modSnd a fun snd => { snd with una := snd.nxt, rtxValid := false }
          else sent.2) = st₁ at acked ⊢
        split
        · exact ⟨n, by omega, acked, .inl rfl⟩
        · obtain ⟨more, within, final, returned⟩ := sendLoop_deliver link turns (left.drop n)
            (done + n) (acked ▸ ends.deliver (left.take n))
          rw [length_drop] at within
          refine ⟨n + more, by omega, ?_, ?_⟩
          · rw [final, acked, View.deliver_append, take_add]
          · rcases returned with returned | ⟨failed, rfl, none⟩
            · exact .inl (returned.trans (by omega))
            · exact .inr ⟨failed, by omega, by omega⟩

/-- `net_tcp_send` on an end of a loopback connection: as many bytes as it returns go to the other
end. -/
theorem netTcpSend_deliver (link : Link) {fd : Int} (found : st.fdToSlot fd = some a)
    (ends : st.view.Ends a b) (buf : List U8) :
    (st.netTcpSend link fd buf).2.view =
        st.view.deliver b (buf.take (st.netTcpSend link fd buf).1.toNat) ∧
      ((st.netTcpSend link fd buf).1).toNat ≤ buf.length := by
  have nothing (r : Int) (none : r.toNat = 0) :
      st.view = st.view.deliver b (buf.take r.toNat) ∧ r.toNat ≤ buf.length := by
    rw [none]
    exact ⟨(st.view.deliver_nil b).symm, Nat.zero_le _⟩
  unfold netTcpSend
  rw [found]
  dsimp only
  split
  · exact nothing 0 rfl
  split
  · exact nothing (-32) rfl
  split
  · exact nothing (-32) rfl
  split
  · exact nothing (-32) rfl
  obtain ⟨n, inside, view, result⟩ :=
    sendLoop_deliver link (buf.take tcpTxMax).length (buf.take tcpTxMax) 0 ends
  rw [length_take] at inside
  have count :
      (sendLoop link a (buf.take tcpTxMax).length st (buf.take tcpTxMax) 0).1.toNat = n := by
    rcases result with result | ⟨result, rfl, -⟩ <;> rw [result]
    · omega
    · rfl
  rw [count, view, take_take, Nat.min_eq_left (by omega)]
  exact ⟨rfl, by omega⟩

end Tcp

end GreenJade.Net
