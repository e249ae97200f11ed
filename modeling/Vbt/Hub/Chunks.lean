import Vbt.Hub.Hands
import Vbt.Lib.Framing

/-!
# The receive loop of the hub on an arbitrary stream

`peer_readable` reads what there is into a buffer of fixed size, takes whole messages off it and
closes the peer at a length that is too large. Whatever a peer sends and however the stream is cut
into reads, the loop finds the messages that a parse of the whole stream finds, unless handling one
of them closes the peer itself.

* `reference`: the parse of a whole stream;
* `Lasts p`: as long as peer `p` stays open, its socket and its receive buffer are left alone, and
  `Stays p`: its receive buffer is. Handling a message and every event that does not read from the
  peer are like this;
* `Intake`, `Intake.iter`, `Intake.read`: the loop with a record of the payloads it passes on;
* `follower`: the loop follows the framing;
* `Deed`, `Orderly`: reads of one peer, with whatever else the hub does between them;
* `peerReadable_reference`.
-/

namespace Vbt
namespace Hub

/-- The framing of the stream between a peer and the hub. -/
abbrev framing : Framing UInt8 := lengthPrefixed VBT_MAX_MSG_SIZE

/-- The payloads of a whole stream, and what is left behind the last one: `none` if the length there
is too large. -/
def reference (stream : List UInt8) : List (List UInt8) × Option (List UInt8) :=
  ((framing.parse stream).1.map (List.drop 4), (framing.parse stream).2)

/-! ### The buffer of a peer that stays open -/

/-- The receive buffer of peer `p` is left alone, unless the peer was closed. -/
def Stays (p : ℕ) (s s' : Hub) : Prop :=
  ((s'.peers p).isOpen = (s.peers p).isOpen ∧ (s'.peers p).rxbuf = (s.peers p).rxbuf) ∨
    ((s'.peers p).isOpen = false ∧ (s'.peers p).rxbuf = [])

/-- The socket of peer `p` and its receive buffer are left alone, unless the peer was closed. -/
def Lasts (p : ℕ) (s s' : Hub) : Prop :=
  ((s'.peers p).fd = (s.peers p).fd ∧ (s'.peers p).rxbuf = (s.peers p).rxbuf) ∨
    ((s'.peers p).fd = none ∧ (s'.peers p).rxbuf = [])

theorem Lasts.stays {p : ℕ} {s s' : Hub} (h : Lasts p s s') : Stays p s s' := by
  unfold Stays Peer.isOpen
  rcases h with ⟨hfd, hbuf⟩ | ⟨hfd, hbuf⟩
  · exact .inl ⟨by rw [hfd], hbuf⟩
  · exact .inr ⟨by rw [hfd]; rfl, hbuf⟩

namespace Lasts

variable {p : ℕ} {s s' s'' : Hub}

theorem trans (h : Lasts p s s') (h' : Lasts p s' s'') : Lasts p s s'' := by
  rcases h' with ⟨ho', hb'⟩ | hclosed
  · rcases h with ⟨ho, hb⟩ | ⟨ho, hb⟩
    · exact .inl ⟨ho'.trans ho, hb'.trans hb⟩
    · exact .inr ⟨ho'.trans ho, hb'.trans hb⟩
  · exact .inr hclosed

theorem of_peer (h : s'.peers p = s.peers p) : Lasts p s s' := by
  rw [Lasts, h]
  exact .inl ⟨rfl, rfl⟩

theorem of_peers (h : s'.peers = s.peers) : Lasts p s s' := of_peer (by rw [h])

theorem refl (s : Hub) : Lasts p s s := of_peers rfl

theorem modPeer (s : Hub) (i : ℕ) {f : Peer → Peer} (ho : ∀ q, (f q).fd = q.fd)
    (hb : ∀ q, (f q).rxbuf = q.rxbuf) : Lasts p s (s.modPeer i f) :=
  .inl ⟨Slots.modify_attr _ _ ho i p, Slots.modify_attr _ _ hb i p⟩

end Lasts

section Lasts

variable {p : ℕ}

theorem peerClose_lasts (s : Hub) (idx : ℕ) : Lasts p s (s.peerClose idx) := by
  cases ho : (s.peers idx).isOpen with
  | false =>
    rw [peerClose_of_closed ho]
    exact .refl s
  | true =>
    by_cases hne : p = idx
    · subst hne
      rw [Lasts, peerClose_peers ho, Slots.set_same]
      exact .inr ⟨rfl, rfl⟩
    · exact .of_peer ((peerClose_touches s idx).peers p hne)

theorem peerClose_isOpen (s : Hub) (p : ℕ) : ((s.peerClose p).peers p).isOpen = false := by
  cases ho : (s.peers p).isOpen with
  | false => rw [peerClose_of_closed ho, ho]
  | true =>
    rw [peerClose_peers ho, Slots.set_same]
    rfl

theorem bufferRest_lasts (s : Hub) (idx : ℕ) (data : List UInt8) :
    Lasts p s (s.bufferRest idx data).1 := by
  simp only [bufferRest]
  split_ifs
  · exact peerClose_lasts s idx
  · refine (Lasts.modPeer s idx (f := fun q => { q with
      outbuf := some ((s.peers idx).outbuf.getD []), txDropped := q.txDropped + 1 })
      (fun _ => rfl) fun _ => rfl).trans (.of_peers rfl)
  · exact .modPeer s idx (fun _ => rfl) fun _ => rfl

theorem peerSend_lasts (s : Hub) (idx : ℕ) (data : List UInt8) :
    Lasts p s (s.peerSend idx data).1 :=
  peerSend_rule s idx data (.refl s) (fun _ _ => .of_peers rfl)
    (fun t ht => ht.trans (peerClose_lasts t idx))
    fun t rest ht => ht.trans (bufferRest_lasts t idx rest)

theorem lasts_kept (p : ℕ) : Kept (Lasts p) :=
  .of_rest Lasts.trans (fun hp _ _ => .of_peers hp) (fun _ _ => .of_peers rfl)
    (fun _ _ _ => .of_peers rfl) peerSend_lasts

theorem bindPeerNode_lasts (s : Hub) (q : ℕ) (nid : NodeId) (ph : Bool) :
    Lasts p s (s.bindPeerNode q nid ph) := by
  have hfind : Lasts p s (s.findNode nid true).1 := .of_peers (findNode_peers s nid true)
  unfold bindPeerNode
  generalize s.findNode nid true = r at hfind
  obtain ⟨t, k⟩ := r
  cases k with
  | none => exact hfind.trans (.of_peers rfl)
  | some k =>
    have hbind : Lasts p t (t.bindTables q k ph) := by
      rw [Lasts, bindTables_peer t q k ph p]
      exact .inl ⟨rfl, rfl⟩
    exact (hfind.trans hbind).trans (.of_peers rfl)

theorem takeHello_lasts (s : Hub) (q : ℕ) (hello : Hello) : Lasts p s (s.takeHello q hello) := by
  refine takeHello_rule (J := fun t _ => Lasts p s t) hello (.of_peers rfl) (.refl s)
    (fun t nid ht => ?_) fun t nid ht => ht.trans (bindPeerNode_lasts t q nid hello.physical)
  have hmon : Lasts p t (t.modPeer q fun q => { q with isMonitor := true }) :=
    .modPeer t q (fun _ => rfl) fun _ => rfl
  exact (ht.trans hmon).trans (.of_peers rfl)

/-- Handling a message of any peer leaves the receive buffer of peer `p` alone. -/
theorem receive_lasts (s : Hub) (kern : Kern) (q : ℕ) (payload : List UInt8) :
    Lasts p s (s.receive kern q payload) := by
  have hready : Lasts p s (s.ready kern q) :=
    (show Lasts p s { s with kern } from .of_peers rfl).trans
      (.modPeer _ q (fun _ => rfl) fun _ => rfl)
  cases hhello : parseHello payload with
  | some hello =>
    rw [receive_hello hhello]
    exact hready.trans (takeHello_lasts _ q hello)
  | none =>
    cases hf : frameOf payload with
    | none =>
      rw [receive_other hhello hf]
      exact hready
    | some f =>
      rw [receive_frame hf]
      exact hready.trans ((lasts_kept p).forwardFrame _ q f.hdr f.pdu)

theorem peerFlush_lasts (s : Hub) (q : ℕ) : Lasts p s (s.peerFlush q) :=
  peerFlush_rule s q (.modPeer s q (fun _ => rfl) fun _ => rfl) (fun _ _ => .of_peers rfl)
    (fun t ht => ht.trans (peerClose_lasts t q))
    fun t _ _ ht => ht.trans (.modPeer t q (fun _ => rfl) fun _ => rfl)

theorem peerAlloc_lasts {s : Hub} (hlt : p < s.peers.size) (ho : (s.peers p).isOpen = true) (fd : ℕ)
    (bridge : Bool) : Lasts p s (s.peerAlloc fd bridge).1 := by
  unfold peerAlloc
  cases ha : s.peers.alloc MAX_PEERS (fun p => !p.isOpen) { fd := some fd, isBridge := bridge } with
  | none => exact .refl s
  | some r =>
    obtain ⟨i, peers⟩ := r
    obtain ⟨hget, hslot⟩ := Slots.alloc_eq_some ha
    have hne : p ≠ i := by
      rintro rfl
      rcases hslot with ⟨-, hfree, -⟩ | ⟨heq, -⟩
      · simp [ho] at hfree
      · omega
    refine .of_peer ?_
    show peers p = s.peers p
    rw [hget, if_neg hne]

theorem ctlDispatch_peers (s : Hub) (cmd : CtlCmd) : (s.ctlDispatch cmd).peers = s.peers :=
  ctlDispatch_rule (I := fun t => t.peers = s.peers) cmd rfl (fun ident _ => findNode_peers s ident true)
    (fun _ _ _ _ ht => ht) (fun _ _ ht => ht) (fun _ _ ht => ht) fun _ _ ht => ht

end Lasts

/-- The event brings or takes bytes of the receive buffer of peer `p`. -/
def Event.readsFrom (p : ℕ) : Event → Bool
  | .recv q (.data _) => q == p
  | .message q _ => q == p
  | _ => false

/-- Every other event leaves the buffer of an open peer alone, as long as it stays open. -/
theorem step_lasts {s : Hub} {p : ℕ} (hlt : p < s.peers.size) (ho : (s.peers p).isOpen = true)
    {e : Event} (he : e.readsFrom p = false) : Lasts p s (s.step e) := by
  have hkern : ∀ kern, Lasts p s { s with kern } := fun _ => .of_peers rfl
  refine step_rule e (.refl s) (peerAlloc_lasts hlt ho) (fun _ _ ht => ht.trans (.of_peers rfl)) ?_ ?_
    (fun q kern => (hkern kern).trans (peerFlush_lasts _ q)) (peerClose_lasts s)
    fun cmd _ => .of_peers (ctlDispatch_peers s cmd)
  · rintro q r rfl
    cases r with
    | again => exact .refl s
    | error => exact peerClose_lasts s q
    | data bytes =>
      have hne : p ≠ q := Ne.symm (by simpa [Event.readsFrom] using he)
      exact recvBytes_rule _ (.refl s) (peerClose_lasts s q)
        fun _ => .of_peer ((Touches.modPeer _ q _).peers p hne)
  · rintro q kern rfl -
    have hne : p ≠ q := Ne.symm (by simpa [Event.readsFrom] using he)
    exact peerReadableIter_rule (hkern kern) ((hkern kern).trans (peerClose_lasts _ q))
      (fun payload => (receive_lasts s kern q payload).trans (.of_peers rfl)) fun payload _ =>
        (receive_lasts s kern q payload).trans (.of_peer ((Touches.modPeer _ q _).peers p hne))

/-! ### The loop with a record -/

/-- The payload that the next iteration of the receive loop of peer `p` passes to `maybe_hello` and
`forward_frame`. -/
def nextPayload (s : Hub) (p : ℕ) : Option (List UInt8) :=
  let buf := (s.peers p).rxbuf
  if buf.length < 4 then none
  else if VBT_MAX_MSG_SIZE < headLen buf then none
  else if buf.length < 4 + headLen buf then none
  else some ((buf.drop 4).take (headLen buf))

/-- The hub with a record of the payloads of one peer that were passed on, and of whether handling
one of them closed the peer itself. -/
structure Intake where
  hub : Hub
  passed : List (List UInt8)
  lost : Bool

namespace Intake

variable (p : ℕ) (x : Intake)

/-- An iteration of the receive loop. -/
def iter : Intake × Bool :=
  let (s, go) := x.hub.peerReadableIter p
  match x.hub.nextPayload p with
  | none => ({ x with hub := s }, go)
  | some payload =>
    ({ hub := s
       passed := x.passed ++ [payload]
       lost := x.lost || !((x.hub.handleMessage p payload).peers p).isOpen }, go)

/-- `peer_readable` after a successful `read`. -/
def read (kern : Kern) (bytes : List UInt8) : Intake :=
  let s := ({ x.hub with kern } : Hub).recvBytes p (.data bytes)
  loopWhile (iter p) (s.peers p).rxbuf.length { x with hub := s }

theorem iter_hub : ((x.iter p).1.hub, (x.iter p).2) = x.hub.peerReadableIter p := by
  unfold iter
  cases x.hub.nextPayload p <;> rfl

theorem loopWhile_iter_hub (n : ℕ) : (loopWhile (iter p) n x).hub = peerReadableLoop p n x.hub := by
  induction n generalizing x with
  | zero => rfl
  | succ n ih =>
    have hhub := iter_hub p x
    rcases hit : x.iter p with ⟨y, go⟩
    rw [hit] at hhub
    cases go with
    | true =>
      rw [loopWhile_go hit, ih, peerReadableLoop]
      simp only [← hhub]
    | false =>
      rw [loopWhile_stop hit, peerReadableLoop]
      simp only [← hhub]

/-- The record changes nothing: the loop is `peer_readable`. -/
theorem read_hub (kern : Kern) (bytes : List UInt8) :
    (x.read p kern bytes).hub = ({ x.hub with kern } : Hub).peerReadable p (.data bytes) :=
  loopWhile_iter_hub p _ _

end Intake

theorem framing_verdict (buf : List UInt8) :
    framing.verdict buf = if buf.length < 4 then .more
      else if VBT_MAX_MSG_SIZE < headLen buf then .bad
      else if buf.length < 4 + headLen buf then .more
      else .whole (4 + headLen buf) := lengthPrefixed_verdict _ buf

section Iter

variable {p : ℕ} {x : Intake}

theorem iter_more (h : framing.verdict (x.hub.peers p).rxbuf = .more) : x.iter p = (x, false) := by
  rw [framing_verdict] at h
  split_ifs at h with h4 hmax hlen
  · simp only [Intake.iter, nextPayload, peerReadableIter, if_pos h4]
  · simp only [Intake.iter, nextPayload, peerReadableIter, if_neg h4, if_neg hmax, if_pos hlen]

theorem iter_bad (h : framing.verdict (x.hub.peers p).rxbuf = .bad) :
    x.iter p = ({ x with hub := x.hub.peerClose p }, false) := by
  rw [framing_verdict] at h
  split_ifs at h with h4 hmax hlen
  simp only [Intake.iter, nextPayload, peerReadableIter, if_neg h4, if_pos hmax]

/-- A whole message is handled. If the peer is open then, the message is taken off the buffer. -/
theorem iter_whole (ho : (x.hub.peers p).isOpen = true) {n : ℕ}
    (h : framing.verdict (x.hub.peers p).rxbuf = .whole n) {t : Hub} {payload : List UInt8}
    (hpay : payload = ((x.hub.peers p).rxbuf.take n).drop 4)
    (ht : t = x.hub.handleMessage p payload) :
    ((t.peers p).isOpen = false ∧
        x.iter p = (⟨t.note (.rxWrap p), x.passed ++ [payload], true⟩, false)) ∨
      ((t.peers p).isOpen = true ∧ (t.peers p).rxbuf = (x.hub.peers p).rxbuf ∧
        x.iter p = (⟨t.modPeer p fun q => { q with rxbuf := q.rxbuf.drop n }, x.passed ++ [payload],
          x.lost⟩, true)) := by
  have hle := framing.le h
  rw [framing_verdict] at h
  split_ifs at h with h4 hmax hlen
  injection h with h
  subst h
  have hdrop : payload = ((x.hub.peers p).rxbuf.drop 4).take (headLen (x.hub.peers p).rxbuf) := by
    rw [hpay, List.drop_take, Nat.add_sub_cancel_left]
  have hstays : Stays p x.hub t := by
    rw [ht]
    exact (receive_lasts x.hub x.hub.kern p payload).stays
  simp only [Intake.iter, nextPayload, peerReadableIter, if_neg h4, if_neg hmax, if_neg hlen,
    ← hdrop,
    ← ht]
  rcases hstays with ⟨hopen, hbuf⟩ | ⟨hclosed, hbuf⟩
  · right
    refine ⟨hopen.trans ho, hbuf, ?_⟩
    rw [hbuf, if_neg hlen, hopen, ho, Bool.not_true, Bool.or_false]
  · left
    refine ⟨hclosed, ?_⟩
    rw [hbuf, if_pos (show ([] : List UInt8).length < _ from Nat.lt_add_right _ (by decide)),
      hclosed,
      Bool.not_false, Bool.or_true]

end Iter

/-- The receive loop of peer `p` follows the framing. It is lost if handling a message closes the
peer, and fails at a length that is too large. -/
def follower (p : ℕ) : framing.Follower Intake (List UInt8) where
  held x := (x.hub.peers p).rxbuf
  taken := Intake.passed
  msg := List.drop 4
  body := Intake.iter p
  live x := p < x.hub.peers.size ∧ (x.hub.peers p).isOpen = true ∧ x.lost = false
  lost x := (x.hub.peers p).isOpen = false ∧ x.lost = true
  failed x := (x.hub.peers p).isOpen = false ∧ x.lost = false
  more _ h := iter_more h
  bad hlive h := ⟨_, iter_bad h, ⟨peerClose_isOpen _ _, hlive.2.2⟩, rfl⟩
  whole := by
    intro x n hlive h
    have hsize := receive_size x.hub x.hub.kern p (((x.hub.peers p).rxbuf.take n).drop 4)
    rcases iter_whole hlive.2.1 h rfl rfl with ⟨hclosed, hiter⟩ | ⟨hopen, hbuf, hiter⟩
    · exact .inl ⟨_, hiter, hclosed, rfl⟩
    · refine .inr ⟨_, hiter, ⟨hsize.symm ▸ hlive.1, ?_, hlive.2.2⟩, ?_, rfl⟩
      · simpa [Hub.modPeer, Peer.isOpen] using hopen
      · simp only [Hub.modPeer, Slots.modify_same, hbuf]

/-! ### Reads, and what the hub does between them -/

/-- A read of the peer under consideration, or anything else. -/
inductive Deed
  | read (kern : Kern) (bytes : List UInt8)
  | other (e : Event)

namespace Deed

/-- The bytes that are read from the peer. -/
def bytes : Deed → List UInt8
  | read _ bytes => bytes
  | other _ => []

/-- What the hub does. -/
def exec (p : ℕ) (s : Hub) : Deed → Hub
  | read kern bytes => ({ s with kern } : Hub).peerReadable p (.data bytes)
  | other e => s.step e

/-- The same with a record. -/
def record (p : ℕ) (x : Intake) : Deed → Intake
  | read kern bytes => x.read p kern bytes
  | other e => { x with hub := x.hub.step e }

/-- A read brings something, at most what the buffer has room for. What is done between the reads
neither reads from the peer nor closes it. -/
def Fits (p : ℕ) (s : Hub) : Deed → Prop
  | read _ bytes => bytes ≠ [] ∧ bytes.length ≤ VBT_RXBUF_SIZE - (s.peers p).rxbuf.length
  | other e => e.readsFrom p = false ∧ ((s.step e).peers p).isOpen = true

instance (p : ℕ) (s : Hub) : (d : Deed) → Decidable (d.Fits p s)
  | read _ _ => inferInstanceAs (Decidable (_ ∧ _))
  | other _ => inferInstanceAs (Decidable (_ ∧ _))

theorem record_hub (p : ℕ) (x : Intake) (d : Deed) : (d.record p x).hub = d.exec p x.hub := by
  cases d with
  | read kern bytes => exact x.read_hub p kern bytes
  | other e => rfl

theorem foldl_record_hub (p : ℕ) (ds : List Deed) (x : Intake) :
    (ds.foldl (record p) x).hub = ds.foldl (exec p) x.hub := by
  induction ds generalizing x with
  | nil => rfl
  | cons d ds ih => rw [List.foldl_cons, List.foldl_cons, ih, record_hub]

end Deed

/-- Peer `p` is open before each of the deeds, and each fits. -/
def Orderly (p : ℕ) : Hub → List Deed → Prop
  | _, [] => True
  | s, d :: ds => (s.peers p).isOpen = true ∧ d.Fits p s ∧ Orderly p (d.exec p s) ds

instance decidableOrderly (p : ℕ) : (s : Hub) → (ds : List Deed) → Decidable (Orderly p s ds)
  | _, [] => isTrue trivial
  | s, d :: ds =>
    have := decidableOrderly p (d.exec p s) ds
    inferInstanceAs (Decidable (_ ∧ _ ∧ _))

section Deeds

variable {p : ℕ} {x : Intake} {done : List UInt8}

/-- What the loop has come to after the part `done` of the stream. -/
def Abreast (p : ℕ) (done : List UInt8) (x : Intake) : Prop :=
  (follower p).lost x ∨ (follower p).Reached [] (framing.parse done) x

/-- An open peer is neither lost nor failed: its buffer holds what is left of the stream. -/
theorem Abreast.of_open (h : Abreast p done x) (ho : (x.hub.peers p).isOpen = true) :
    ∃ r, (framing.parse done).2 = some r ∧ (follower p).Reached [] (framing.parse done) x ∧
      p < x.hub.peers.size ∧ x.lost = false ∧ (x.hub.peers p).rxbuf = r := by
  rcases h with ⟨hclosed, -⟩ | hr
  · rw [ho] at hclosed
    cases hclosed
  · have hreached := hr
    obtain ⟨-, hstate⟩ := hr
    cases hrest : (framing.parse done).2 with
    | none =>
      rw [hrest] at hstate
      have hclosed : (x.hub.peers p).isOpen = false := hstate.1
      rw [ho] at hclosed
      cases hclosed
    | some r =>
      rw [hrest] at hstate
      obtain ⟨⟨hlt, -, hlost⟩, hheld⟩ := hstate
      exact ⟨r, rfl, hreached, hlt, hlost, hheld⟩

/-- A read that fits fills the buffer. -/
theorem recvBytes_fits {s : Hub} {bytes : List UInt8} (hne : bytes ≠ [])
    (hfit : bytes.length ≤ VBT_RXBUF_SIZE - (s.peers p).rxbuf.length) :
    s.recvBytes p (.data bytes) = s.modPeer p fun q => { q with rxbuf := q.rxbuf ++ bytes } := by
  simp only [recvBytes, List.take_of_length_le hfit, List.isEmpty_iff, if_neg hne]

/-- **One deed** keeps the loop abreast of the stream. -/
theorem Abreast.record (h : Abreast p done x) (ho : (x.hub.peers p).isOpen = true) {d : Deed}
    (hfit : d.Fits p x.hub) : Abreast p (done ++ d.bytes) (d.record p x) := by
  obtain ⟨r, hrest, hreached, hlt, hlost, hbuf⟩ := h.of_open ho
  cases d with
  | read kern bytes =>
    have hrecv := recvBytes_fits (s := { x.hub with kern }) hfit.1 hfit.2
    refine (follower p).read hreached hrest
      (show (follower p).live ⟨_, x.passed, x.lost⟩ from ⟨?_, ?_, hlost⟩) ?_ rfl
      (le_refl _)
    · rw [hrecv]
      exact hlt
    · rw [hrecv]
      simpa [Hub.modPeer, Peer.isOpen] using ho
    · show ((({ x.hub with kern } : Hub).recvBytes p (.data bytes)).peers p).rxbuf = _
      rw [hrecv]
      simp only [Hub.modPeer, Slots.modify_same, hbuf]
      rfl
  | other e =>
    obtain ⟨hreads, hopen⟩ := hfit
    -- the event leaves the buffer alone
    obtain ⟨-, hsame⟩ : _ ∧ ((x.hub.step e).peers p).rxbuf = (x.hub.peers p).rxbuf :=
      (step_lasts hlt ho hreads).stays.resolve_right fun hclosed => by
        rw [hopen] at hclosed
        cases hclosed.1
    right
    rw [Deed.bytes, List.append_nil]
    refine ⟨hreached.1, ?_⟩
    rw [hrest]
    exact ⟨⟨hlt.trans_le (step_persists x.hub e).size_le, hopen, hlost⟩, hsame.trans hbuf⟩

/-- **All deeds** do. -/
theorem Abreast.foldl (h : Abreast p done x) {ds : List Deed} (hds : Orderly p x.hub ds) :
    Abreast p (done ++ ds.flatMap Deed.bytes) (ds.foldl (Deed.record p) x) := by
  induction ds generalizing x done with
  | nil => simpa using h
  | cons d ds ih =>
    obtain ⟨ho, hfit, hds⟩ := hds
    rw [← Deed.record_hub] at hds
    have hnext := ih (h.record ho hfit) hds
    rwa [List.append_assoc, ← List.flatMap_cons] at hnext

theorem Abreast.start {s : Hub} (hlt : p < s.peers.size) (ho : (s.peers p).isOpen = true)
    (hbuf : (s.peers p).rxbuf = []) : Abreast p [] ⟨s, [], false⟩ := by
  right
  rw [Framing.parse_more framing.nil]
  exact ⟨rfl, ⟨hlt, ho, rfl⟩, hbuf⟩

/-- The buffer of an open peer has room. -/
theorem Abreast.room (h : Abreast p done x) (ho : (x.hub.peers p).isOpen = true) :
    (x.hub.peers p).rxbuf.length < VBT_RXBUF_SIZE := by
  obtain ⟨r, hrest, -, -, -, hbuf⟩ := h.of_open ho
  rw [hbuf]
  exact length_lt_of_more (Framing.verdict_rest hrest)

/-- A buffer with room takes something of what is read, so the read is not taken for the end of the
stream. -/
theorem recvBytes_isOpen {s : Hub} (ho : (s.peers p).isOpen = true)
    (hroom : (s.peers p).rxbuf.length < VBT_RXBUF_SIZE) {bytes : List UInt8} (hne : bytes ≠ []) :
    ((s.recvBytes p (.data bytes)).peers p).isOpen = true := by
  have hgot : bytes.take (VBT_RXBUF_SIZE - (s.peers p).rxbuf.length) ≠ [] := by
    rw [Ne, List.take_eq_nil_iff, not_or]
    exact ⟨by omega, hne⟩
  simp only [recvBytes, List.isEmpty_iff, if_neg hgot]
  simpa [Hub.modPeer, Peer.isOpen] using ho

/-- Behind a length that is too large the parse has ended. -/
theorem reference_append (h : (reference done).2 = none) (unread : List UInt8) :
    reference (done ++ unread) = reference done := by
  have hparse : framing.parse (done ++ unread) = framing.parse done := by
    rw [← Framing.feed_parse, Framing.feed, show (framing.parse done).2 = none from h]
  rw [reference, hparse, reference]

end Deeds

/-- **The receive loop does not depend on how the stream is cut.** A peer with an empty buffer is
read from in pieces of any size the buffer has room for, with anything that neither reads from the
peer nor closes it between the reads. As long as handling a message does not close the peer itself,
the payloads passed on are those of the parse of what was read, and the peer is closed exactly if
the parse has come to a length that is too large; whatever is not read then does not matter. A peer
that is open always has room in its buffer, and no read that brings something is taken for the
end. -/
theorem peerReadable_reference {s : Hub} {p : ℕ} (hlt : p < s.peers.size)
    (ho : (s.peers p).isOpen = true) (hbuf : (s.peers p).rxbuf = []) {ds : List Deed}
    (hds : Orderly p s ds) {x : Intake} (hx : x = ds.foldl (Deed.record p) ⟨s, [], false⟩)
    {stream : List UInt8} (hstream : stream = ds.flatMap Deed.bytes) :
    x.hub = ds.foldl (Deed.exec p) s ∧
      (x.lost = false → x.passed = (reference stream).1 ∧
        ((x.hub.peers p).isOpen = true ↔ (reference stream).2 = some (x.hub.peers p).rxbuf) ∧
        ((x.hub.peers p).isOpen = false ↔ (reference stream).2 = none) ∧
        ((x.hub.peers p).isOpen = false → ∀ unread,
          reference (stream ++ unread) = reference stream)) ∧
      ((x.hub.peers p).isOpen = true → (x.hub.peers p).rxbuf.length < VBT_RXBUF_SIZE ∧
        ∀ bytes, bytes ≠ [] → ((x.hub.recvBytes p (.data bytes)).peers p).isOpen = true) := by
  have h : Abreast p stream x := by
    rw [hx, hstream]
    exact (Abreast.start hlt ho hbuf).foldl hds
  refine ⟨by rw [hx, Deed.foldl_record_hub], fun hlost => ?_, fun hopen => ?_⟩
  · rcases h with ⟨-, hl⟩ | ⟨hpassed, hstate⟩
    · rw [hlost] at hl
      cases hl
    · refine ⟨hpassed, ?_⟩
      have href : (reference stream).2 = (framing.parse stream).2 := rfl
      rw [← href] at hstate
      cases hrest : (reference stream).2 with
      | none =>
        rw [hrest] at hstate
        have hclosed : (x.hub.peers p).isOpen = false := hstate.1
        simp only [hclosed, Bool.false_eq_true, reduceCtorEq, true_and, forall_const]
        exact fun unread => reference_append hrest unread
      | some r =>
        rw [hrest] at hstate
        obtain ⟨⟨-, hopen, -⟩, hheld⟩ := hstate
        have hr : (x.hub.peers p).rxbuf = r := hheld
        simp only [hopen, hr, Bool.true_eq_false, reduceCtorEq, false_implies, and_self]
  · have hroom := h.room hopen
    exact ⟨hroom, fun bytes hne => recvBytes_isOpen hopen hroom hne⟩

/-- A message of two bytes in three pieces, the last of which begins a message of 557 bytes. -/
def piecemeal : List Deed :=
  [.read Kern.quiet [0, 0, 0], .other (.accept 2 false), .read Kern.quiet [2, 7],
    .read Kern.quiet [9, 0, 0, 2, 45, 1]]

theorem peerReadable_reference_piecemeal :
    (piecemeal.foldl (Deed.record 0) ⟨(Hub.init 0).step (.accept 1 false), [], false⟩).passed =
        [[7, 9]] ∧
      ((piecemeal.foldl (Deed.exec 0) ((Hub.init 0).step (.accept 1 false))).peers 0).isOpen =
        false := by
  have horderly : Orderly 0 ((Hub.init 0).step (.accept 1 false)) piecemeal := by decide
  obtain ⟨hhub, hpassed, -⟩ := peerReadable_reference (s := (Hub.init 0).step (.accept 1 false))
    (p := 0) (by decide) (by decide) (by decide) horderly rfl rfl
  obtain ⟨hpayloads, -, hclosed, -⟩ := hpassed (by decide)
  rw [hhub] at hclosed
  exact ⟨hpayloads.trans (by decide), hclosed.2 (by decide)⟩

end Hub
end Vbt
