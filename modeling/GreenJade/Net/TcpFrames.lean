import GreenJade.Net.TcpMoves

/-! Owns what the helpers of `net_tcp.c` leave as it is: sending over Ethernet changes only the
sender of one socket, the accept queue only the books of listeners. -/

namespace GreenJade.Net

namespace Tcp

variable {st st₁ st₂ : Tcp} {s : Slot}

/-! ### Views -/

theorem view_setSock (st : Tcp) (s : Slot) (sock : TcpSock) :
    (st.setSock s sock).view = st.view.set s sock.core := by
  unfold view View.set
  apply congrArg (fun cores => View.mk cores st.made st.softListen22)
  funext k
  by_cases same : k = s
  · subst same
    rw [setSock_self, Function.update_self]
  · rw [setSock_of_ne st same, Function.update_of_ne same]

theorem view_congr (cores : ∀ k, (st₁.socks k).core = (st.socks k).core)
    (soft : st₁.softListen22 = st.softListen22) (made : st₁.made = st.made) :
    st₁.view = st.view := by
  unfold view
  rw [soft, made]
  exact congrArg (fun cores => View.mk cores st.made st.softListen22) (funext cores)

theorem view_setSoft (st : Tcp) (soft : Option Slot) :
    (st.setSoft soft).view = st.view.name soft := rfl

theorem core_of_view {v : View} (view : st.view = v) (k : Slot) :
    (st.socks k).core = v.cores k := congrFun (congrArg View.cores view) k

/-- A change of one socket, seen in the view. -/
theorem view_change {v : View} {sock : TcpSock} (view : st.view = v) {core : Core}
    (changed : sock.core = core) : (st.setSock s sock).view = v.set s core := by
  rw [view_setSock, view, changed]

/-- The same sockets, the same listener on port 22 and the same number of connections. -/
structure SameTable (st st₁ : Tcp) : Prop where
  socks : st₁.socks = st.socks
  soft : st₁.softListen22 = st.softListen22
  made : st₁.made = st.made

theorem SameTable.trans (first : st.SameTable st₁) (second : st₁.SameTable st₂) :
    st.SameTable st₂ :=
  ⟨second.socks.trans first.socks, second.soft.trans first.soft, second.made.trans first.made⟩

theorem SameTable.view (same : st.SameTable st₁) : st₁.view = st.view :=
  view_congr (fun k => congrArg TcpSock.core (congrFun same.socks k)) same.soft same.made

variable (link : Link)

theorem sameTable_syncL2Identity (st : Tcp) :
    st.SameTable (st.syncL2Identity link) := by
  unfold syncL2Identity
  split_ifs <;> exact ⟨rfl, rfl, rfl⟩

theorem sameTable_holdLabIp (st : Tcp) : st.SameTable (st.holdLabIp link) := by
  unfold holdLabIp
  split_ifs <;> exact ⟨rfl, rfl, rfl⟩

theorem sameTable_destIsOurs (st : Tcp) (dip : Ip4) :
    st.SameTable (st.destIsOurs link dip).2 := by
  unfold destIsOurs
  split_ifs <;> exact ⟨rfl, rfl, rfl⟩

/-- The addresses are looked up again. -/
theorem sameTable_refresh (st : Tcp) : st.SameTable ((st.syncL2Identity link).holdLabIp link) :=
  (sameTable_syncL2Identity link st).trans (sameTable_holdLabIp link _)

/-! ### Sending over Ethernet -/

/-- Only what one slot has sent changes. -/
structure SndOnly (s : Slot) (st st₁ : Tcp) : Prop where
  others : ∀ k, k ≠ s → st₁.socks k = st.socks k
  own : ∃ snd, st₁.socks s = { st.socks s with snd }
  soft : st₁.softListen22 = st.softListen22
  made : st₁.made = st.made

namespace SndOnly

theorem of_sameTable (same : st.SameTable st₁) : SndOnly s st st₁ where
  others := fun k _ => congrFun same.socks k
  own := ⟨(st.socks s).snd, congrFun same.socks s⟩
  soft := same.soft
  made := same.made

theorem refl (st : Tcp) : SndOnly s st st := of_sameTable ⟨rfl, rfl, rfl⟩

theorem trans (first : SndOnly s st st₁) (second : SndOnly s st₁ st₂) : SndOnly s st st₂ where
  others := fun k different => (second.others k different).trans (first.others k different)
  own := by
    obtain ⟨snd₁, own₁⟩ := first.own
    obtain ⟨snd₂, own₂⟩ := second.own
    exact ⟨snd₂, by rw [own₂, own₁]⟩
  soft := second.soft.trans first.soft
  made := second.made.trans first.made

theorem modSnd (st : Tcp) (s : Slot) (change : Sender → Sender) :
    SndOnly s st (st.modSnd s change) where
  others := fun _ different => setSock_of_ne st different _
  own := ⟨_, setSock_self st s _⟩
  soft := rfl
  made := rfl

theorem markLanded (st : Tcp) (s : Slot) : SndOnly s st (st.markLanded s) := by
  unfold Tcp.markLanded
  split_ifs
  · exact modSnd st s _
  · exact refl st

/-- Everything about the slot but its sender is as before. -/
theorem isLoop (only : SndOnly s st st₁) : (st₁.socks s).isLoop = (st.socks s).isLoop := by
  obtain ⟨snd, own⟩ := only.own
  rw [own]

theorem core (only : SndOnly s st st₁) (k : Slot) : (st₁.socks k).core = (st.socks k).core := by
  by_cases same : k = s
  · subst same
    obtain ⟨snd, own⟩ := only.own
    rw [own]
    rfl
  · rw [only.others k same]

theorem view (only : SndOnly s st st₁) : st₁.view = st.view :=
  view_congr only.core only.soft only.made

end SndOnly

theorem sameTable_txEth (st : Tcp) (s : Slot) (flags : U8) (seq : U32)
    (pay : List U8) : st.SameTable (st.txEth link s flags seq pay).2 := by
  have synced := sameTable_syncL2Identity link st
  unfold txEth
  dsimp only
  split_ifs
  · exact synced
  all_goals exact ⟨synced.socks, synced.soft, synced.made⟩

theorem sameTable_tcpTxRaw (eth : (st.socks s).isLoop = false) (flags : U8)
    (seq : U32) (pay : List U8) : st.SameTable (st.tcpTxRaw link s flags seq pay).2 := by
  unfold tcpTxRaw
  split_ifs with unused loop
  · exact ⟨rfl, rfl, rfl⟩
  · exact absurd loop (eth ▸ Bool.false_ne_true)
  · exact sameTable_txEth link st s flags seq pay

theorem sndOnly_tcpTxRaw (eth : (st.socks s).isLoop = false) (flags : U8) (seq : U32)
    (pay : List U8) : SndOnly s st (st.tcpTxRaw link s flags seq pay).2 :=
  .of_sameTable (sameTable_tcpTxRaw link eth flags seq pay)

theorem sndOnly_busyShots (link : Link) (flags : U8) (seq : U32) (pay : List U8)
    (miss : Sender → Sender) :
    ∀ (shots : Nat) {st : Tcp}, (st.socks s).isLoop = false →
      SndOnly s st (busyShots link s flags seq pay miss shots st).2
  | 0, st, _ => .refl st
  | shots + 1, st, eth => by
    have raw : SndOnly s st (st.tcpTxRaw link s flags seq pay).2 :=
      sndOnly_tcpTxRaw link eth flags seq pay
    have missed := raw.trans (.modSnd _ s miss)
    rw [busyShots]
    dsimp only
    split_ifs
    · exact raw
    · exact missed.trans (sndOnly_busyShots link flags seq pay miss shots (missed.isLoop.trans eth))

theorem sndOnly_shootArmed (eth : (st.socks s).isLoop = false) (flags : U8)
    (seq : U32) (pay : List U8) : SndOnly s st (st.shootArmed link s flags seq pay).2 := by
  have shots : SndOnly s st (busyShots link s flags seq pay Sender.failed tcpRtxBusyShots st).2 :=
    sndOnly_busyShots link flags seq pay _ tcpRtxBusyShots eth
  unfold shootArmed
  dsimp only
  split_ifs
  · exact (shots.trans (.modSnd _ s _)).trans (.markLanded _ s)
  · exact shots

theorem sndOnly_coalesce (eth : (st.socks s).isLoop = false) :
    SndOnly s st (st.coalesce link s).2 := by
  have shot := sndOnly_shootArmed link eth (flAck ||| flPsh) (st.socks s).snd.rtxSeq
    (st.socks s).snd.rtxData
  unfold coalesce
  by_cases on22 : (st.socks s).lport = tcpSoftSshPort
  · simp only [if_pos on22]
    split <;> dsimp only
    · exact shot
    · exact shot.trans (.modSnd _ s _)
  · simp only [if_neg on22, if_neg Bool.false_ne_true]
    exact .modSnd st s _

theorem sndOnly_afterSyn (eth : (st.socks s).isLoop = false) (flags : U8) (seq : U32) (r : Int) :
    SndOnly s st (st.afterSyn link s flags seq r).2 := by
  have armed := SndOnly.modSnd st s fun snd => snd.armBare true seq link.now
  have failed := armed.trans (.modSnd _ s fun snd => Sender.failed { snd with rtxBusy := true })
  have shots (flags : U8) := failed.trans (sndOnly_busyShots link flags seq []
    Sender.failed tcpRtxBusyShots (failed.isLoop.trans eth))
  unfold afterSyn
  dsimp only
  split_ifs
  · exact (armed.trans (.modSnd _ s _)).trans (.markLanded _ s)
  · exact ((shots _).trans (.modSnd _ s _)).trans (.markLanded _ s)
  · exact shots _
  · exact ((shots _).trans (.modSnd _ s _)).trans (.markLanded _ s)
  · exact shots _
  · exact failed

theorem sndOnly_afterFailure (eth : (st.socks s).isLoop = false) (flags : U8)
    (seq : U32) (pay : List U8) (r : Int) :
    SndOnly s st (st.afterFailure link s flags seq pay r).2 := by
  have changed (change : Sender → Sender) := SndOnly.modSnd st s change
  have shot (change : Sender → Sender) (flags : U8) (seq : U32) (pay : List U8) :=
    (changed change).trans (sndOnly_shootArmed link ((changed change).isLoop.trans eth)
      flags seq pay)
  unfold afterFailure
  dsimp only
  split_ifs <;> dsimp only
  · exact shot _ _ _ _
  · exact changed _
  · exact shot _ _ _ _
  · exact changed _
  · exact .refl st

theorem sndOnly_afterSuccess (st : Tcp) (s : Slot) (flags : U8) (seq : U32)
    (pay : List U8) (r : Int) : SndOnly s st (st.afterSuccess link s flags seq pay r).2 := by
  have step (st : Tcp) (change : Sender → Sender) := SndOnly.modSnd st s change
  have land (st : Tcp) (change : Sender → Sender) :=
    (step st change).trans (.markLanded _ s)
  unfold afterSuccess
  dsimp only
  split_ifs <;> dsimp only
  · exact ((step _ _).trans (land _ _)).trans (land _ _)
  · exact (step _ _).trans (land _ _)
  · exact land _ _
  · exact (step _ _).trans (land _ _)
  · exact step _ _
  · exact .refl st

/-- Over Ethernet `tcp_tx` changes only what the socket has sent. -/
theorem sndOnly_tcpTx (eth : (st.socks s).isLoop = false) (flags : U8) (pay : List U8) :
    SndOnly s st (st.tcpTx link s flags pay).2 := by
  unfold tcpTx
  dsimp only
  split
  · exact sndOnly_coalesce link eth
  have raw : SndOnly s st (st.tcpTxRaw link s flags (st.socks s).snd.nxt pay).2 :=
    sndOnly_tcpTxRaw link eth flags _ pay
  have syn := raw.trans (sndOnly_afterSyn link (raw.isLoop.trans eth) flags
    (st.socks s).snd.nxt (st.tcpTxRaw link s flags (st.socks s).snd.nxt pay).1)
  split_ifs
  · exact syn.trans (sndOnly_afterFailure link (syn.isLoop.trans eth) _ _ _ _)
  · exact syn.trans (sndOnly_afterSuccess _ _ _ _ _ _ _)
  · exact raw.trans (sndOnly_afterFailure link (raw.isLoop.trans eth) _ _ _ _)
  · exact raw.trans (sndOnly_afterSuccess _ _ _ _ _ _ _)

/-! ### Sending over loopback -/

/-- The bytes of a segment that the ring of the peer takes. -/
def loopTook (st : Tcp) (peer : Slot) (pay : List U8) : List U8 :=
  (st.socks peer).rcv.takes (pay.take tcpMss)

/-- `tcp_tx_raw` over loopback to a peer in use. -/
theorem txLoop_of_used {peer : Slot} (hint : (st.socks s).peer = some peer)
    (used : (st.socks peer).used = true) (flags : U8) (seq : U32) (pay : List U8) :
    st.txLoop link s flags seq pay =
      if (st.loopTook peer pay).length = (pay.take tcpMss).length then
        (((pay.take tcpMss).length : Int), (st.putRx peer (st.loopTook peer pay)).setSock peer
          (loopFlags link flags seq ((st.putRx peer (st.loopTook peer pay)).socks peer)))
      else
        (if 0 < (st.loopTook peer pay).length then ((st.loopTook peer pay).length : Int) else -11,
          st.putRx peer (st.loopTook peer pay)) := by
  have pushed : (if pay.take tcpMss = [] then ((0 : Int), st)
      else st.pushRx peer (pay.take tcpMss)) =
        (((st.loopTook peer pay).length : Int), st.putRx peer (st.loopTook peer pay)) := by
    split_ifs with none
    · unfold loopTook Receiver.takes
      rw [none, List.take_nil, putRx_nil]
      rfl
    · exact pushRx_of_used used (pay.take tcpMss)
  unfold txLoop
  rw [hint]
  dsimp only
  rw [if_neg (by rw [used]; exact Bool.true_eq_false_eq_False), pushed]
  rw [if_neg (by omega)]
  by_cases whole : (st.loopTook peer pay).length = (pay.take tcpMss).length
  · rw [if_pos whole, if_neg (by rw [whole]; exact fun ne => ne rfl)]
  · rw [if_neg whole, if_pos (by omega)]
    exact congrArg (fun r => (r, st.putRx peer (st.loopTook peer pay)))
      (if_congr (by omega) rfl rfl)

theorem loopFlags_isLoop (flags : U8) (seq : U32) (sock : TcpSock) :
    (loopFlags link flags seq sock).isLoop = sock.isLoop := by
  unfold loopFlags loopFin
  dsimp only
  split_ifs <;> first | rfl | (split <;> rfl)

theorem txLoop_isLoop (st : Tcp) (s : Slot) (flags : U8) (seq : U32) (pay : List U8)
    (k : Slot) : ((st.txLoop link s flags seq pay).2.socks k).isLoop = (st.socks k).isLoop := by
  have put (st : Tcp) (peer : Slot) (bytes : List U8) :
      ((st.putRx peer bytes).socks k).isLoop = (st.socks k).isLoop := by
    unfold putRx
    rw [setSock_socks]
    split_ifs with same
    · rw [same]
    · rfl
  cases hint : (st.socks s).peer with
  | none =>
    unfold txLoop
    rw [hint]
  | some peer =>
    cases used : (st.socks peer).used with
    | false =>
      unfold txLoop
      rw [hint]
      dsimp only
      rw [if_pos used]
    | true =>
      rw [txLoop_of_used link hint used]
      split
      · rw [setSock_socks]
        split_ifs with same
        · rw [loopFlags_isLoop, ← same, put]
        · exact put st peer _
      · exact put st peer _

/-- Over loopback `tcp_tx` is `tcp_tx_raw` and a change of what the socket has sent. -/
theorem tcpTx_loop (used : (st.socks s).used = true)
    (loop : (st.socks s).isLoop = true) {flags : U8} (noSyn : flags &&& flSyn = 0)
    (pay : List U8) :
    (st.tcpTx link s flags pay).1 = (st.txLoop link s flags (st.socks s).snd.nxt pay).1 ∧
      SndOnly s (st.txLoop link s flags (st.socks s).snd.nxt pay).2
        (st.tcpTx link s flags pay).2 := by
  have raw : st.tcpTxRaw link s flags (st.socks s).snd.nxt pay =
      st.txLoop link s flags (st.socks s).snd.nxt pay := by
    unfold tcpTxRaw
    rw [if_neg (by rw [used]; exact Bool.true_eq_false_eq_False), if_pos loop]
  have stays := (txLoop_isLoop link st s flags (st.socks s).snd.nxt pay s).trans loop
  unfold tcpTx
  dsimp only
  rw [if_neg (by
    rintro ⟨⟨-, -, eth, -⟩, -⟩
    exact absurd loop (eth ▸ Bool.false_ne_true)), raw, if_neg (not_not_intro noSyn)]
  split
  · unfold afterFailure
    rw [if_neg (by rw [stays]; exact fun h => absurd h.2.2 Bool.true_eq_false_eq_False),
      if_neg (by rw [stays]; exact fun h => absurd h.2.2 Bool.true_eq_false_eq_False)]
    exact ⟨rfl, .refl _⟩
  · refine ⟨?_, sndOnly_afterSuccess _ _ _ _ _ _ _⟩
    unfold afterSuccess
    split_ifs <;> rfl

/-! ### The books of listeners -/

/-- A socket differs at most in what it notes as a listener. -/
def Rebooked (new old : TcpSock) : Prop :=
  new = old ∨ old.used = true ∧ old.listening = true ∧
    ∃ backlog pending peer, new = { old with backlog, pending, peer }

theorem Rebooked.core {new old : TcpSock} (booked : Rebooked new old) : new.core = old.core := by
  rcases booked with rfl | ⟨-, listening, backlog, pending, peer, rfl⟩
  · rfl
  · unfold TcpSock.core
    rw [listening]
    rfl

theorem Rebooked.trans {a b c : TcpSock} (first : Rebooked b a) (second : Rebooked c b) :
    Rebooked c a := by
  rcases first with rfl | ⟨used, listening, backlog, pending, peer, rfl⟩
  · exact second
  · rcases second with rfl | ⟨-, -, backlog', pending', peer', rfl⟩
    · exact .inr ⟨used, listening, backlog, pending, peer, rfl⟩
    · exact .inr ⟨used, listening, backlog', pending', peer', rfl⟩

/-- Only the books of listeners change. -/
structure Books (st st₁ : Tcp) : Prop where
  socks : ∀ k, Rebooked (st₁.socks k) (st.socks k)
  soft : st₁.softListen22 = st.softListen22
  made : st₁.made = st.made

namespace Books

theorem of_sameTable (same : st.SameTable st₁) : Books st st₁ :=
  ⟨fun k => .inl (congrFun same.socks k), same.soft, same.made⟩

theorem refl (st : Tcp) : Books st st := of_sameTable ⟨rfl, rfl, rfl⟩

theorem trans (first : Books st st₁) (second : Books st₁ st₂) : Books st st₂ :=
  ⟨fun k => (first.socks k).trans (second.socks k), second.soft.trans first.soft,
    second.made.trans first.made⟩

theorem setSock {s : Slot} {sock : TcpSock} (booked : Rebooked sock (st.socks s)) :
    Books st (st.setSock s sock) := by
  refine ⟨fun k => ?_, rfl, rfl⟩
  by_cases same : k = s
  · rw [same, setSock_self]
    exact booked
  · rw [setSock_of_ne st same]
    exact .inl rfl

theorem setPeer {s : Slot} (used : (st.socks s).used = true)
    (listening : (st.socks s).listening = true) (peer : Option Slot) :
    Books st (st.setPeer s peer) :=
  setSock (.inr ⟨used, listening, _, _, peer, rfl⟩)

theorem foldl {f : Tcp → Slot → Tcp} (each : ∀ st s, Books st (f st s)) :
    ∀ (slots : List Slot) (st : Tcp), Books st (slots.foldl f st)
  | [], st => refl st
  | s :: rest, st => (each st s).trans (foldl each rest (f st s))

theorem view (books : Books st st₁) : st₁.view = st.view :=
  view_congr (fun k => (books.socks k).core) books.soft books.made

end Books

theorem books_dropHints (st : Tcp) (s : Slot) : Books st (st.dropHints s) := by
  refine Books.foldl (fun st i => ?_) _ st
  split_ifs with here
  · simp only [Bool.and_eq_true] at here
    exact .setPeer here.1.1 here.1.2 none
  · exact .refl st

theorem books_acceptqReparent (st : Tcp) (ls : Slot) (port : U16) :
    Books st (st.acceptqReparent ls port) := by
  unfold acceptqReparent
  split_ifs with off
  · exact .refl st
  · rw [not_or, Bool.not_eq_false, Bool.not_eq_false] at off
    exact .setSock (.inr ⟨off.1, off.2, _, _, _, rfl⟩)

theorem books_listenRehookReady (st : Tcp) (ls : Slot) :
    Books st (st.listenRehookReady ls).2 := by
  unfold listenRehookReady
  dsimp only
  split_ifs with off
  · exact .refl st
  · rw [not_or, not_or, Bool.not_eq_false, Bool.not_eq_false] at off
    have hook (peer : Option Slot) : Books st (st.setPeer ls peer) :=
      .setPeer off.1 off.2.1 peer
    split
    · exact hook _
    · split
      · exact hook none
      · split_ifs
        · exact .refl st
        · exact hook none

theorem books_requeue (st : Tcp) (ls : Slot) (port : U16) : Books st (st.requeue ls port) :=
  (books_acceptqReparent st ls port).trans (books_listenRehookReady _ ls)

theorem books_requeueAll (st : Tcp) (port : U16) (other : Slot → Bool) :
    Books st (st.requeueAll port other) := by
  refine Books.foldl (fun st i => ?_) _ st
  split_ifs
  · exact books_requeue st i port
  · exact .refl st

theorem books_dropByHint (st : Tcp) (s : Slot) : Books st (st.dropByHint s).2 := by
  have each (wasAq : Bool) : ∀ (slots : List Slot) (dec : Bool) (st : Tcp),
      Books st (slots.foldl (fun (x : Bool × Tcp) i =>
        if (x.2.socks i).used && (x.2.socks i).listening &&
            decide ((x.2.socks i).peer = some s) then
          if wasAq && decide (0 < (x.2.socks i).pending) then
            (true, x.2.setSock i
              { x.2.socks i with peer := none, pending := (x.2.socks i).pending - 1 })
          else (x.1, x.2.setPeer i none)
        else (x.1, x.2)) (dec, st)).2 := by
    intro slots
    induction slots with
    | nil => exact fun _ st => .refl st
    | cons i rest ih =>
      intro dec st
      rw [List.foldl_cons]
      split_ifs with here
      · simp only [Bool.and_eq_true] at here
        exact (Books.setSock (.inr ⟨here.1.1, here.1.2, _, _, _, rfl⟩)).trans (ih true _)
      · simp only [Bool.and_eq_true] at here
        exact (Books.setPeer here.1.1 here.1.2 none).trans (ih dec _)
      · exact ih dec st
  exact each _ _ _ st

theorem books_dropByPort (st : Tcp) (port : U16) : Books st (st.dropByPort port) := by
  unfold dropByPort
  split
  · exact .refl st
  · next i found =>
      have here := firstSlot_eq_some found
      simp only [Bool.and_eq_true] at here
      exact .setSock (.inr ⟨here.1.1.1, here.1.1.2, _, _, _, rfl⟩)

theorem books_rehookLast (st : Tcp) (s : Slot) (port : U16) : Books st (st.rehookLast s port) := by
  unfold rehookLast
  split
  · exact .refl st
  · refine Books.foldl (fun st i => ?_) _ st
    split_ifs with here
    · simp only [Bool.and_eq_true] at here
      exact .setPeer here.1.1.1 here.1.1.2 _
    · exact .refl st

theorem books_atLeastOne {ls : Slot} (used : (st.socks ls).used = true)
    (listening : (st.socks ls).listening = true) : Books st (st.atLeastOne ls) := by
  unfold atLeastOne
  split_ifs
  · exact .setSock (.inr ⟨used, listening, _, _, _, rfl⟩)
  · exact .refl st

theorem books_reclaimHint {ls : Slot} (used : (st.socks ls).used = true)
    (listening : (st.socks ls).listening = true) : Books st (st.reclaimHint ls) := by
  unfold reclaimHint
  split
  · exact .refl st
  · dsimp only
    split_ifs
    · exact .refl st
    · exact .setSock (.inr ⟨used, listening, _, _, _, rfl⟩)

theorem books_enqueue {ls : Slot} (used : (st.socks ls).used = true)
    (listening : (st.socks ls).listening = true) (ns : Slot) : Books st (st.enqueue ls ns) :=
  .setSock (.inr ⟨used, listening, _, _, _, rfl⟩)

end Tcp

end GreenJade.Net
