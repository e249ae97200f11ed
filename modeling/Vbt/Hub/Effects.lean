import Vbt.Hub.Refine

/-!
# What each operation of the hub can do

`Leads P s s'` bounds an operation by the actions it takes. The deliveries of a frame to a set of
peers (`Delivery`) are the effect of the sweeps over the peer table and of the routing of a data
PDU; they can only close sockets, so what routing sees shrinks (`Shrinks`). The module ends with
`Reachable.tracked`: every state of every run is tracked.

* `Leads`, with `refl`, `trans` and `mono`;
* `peerSend_rule`, `peerFlush_rule`, `deliverToPeer_rule`: what holds along these functions;
* `deliverToPeer_leads`, `sweep_leads`, `fanOut_leads`, `routeTo_leads`;
* `forwardFrame_adv`, `forwardFrame_data`: the two branches of `forward_frame` as equations;
* `Reachable.tracked`.
-/

namespace Vbt
namespace Hub

open Router

/-- No position and no override is set. -/
structure Plain (s : Hub) : Prop where
  overrides : ∀ i, (s.overrides i).used = false
  posSet : ∀ k, (s.nodes k).posSet = false

/-- `s'` is tracked and continues `s` by actions that satisfy `P`; on the way only a peer that
closes loses its receive buffer, and no position or override is set. -/
structure Leads (P : Act → Prop) (s s' : Hub) : Prop where
  tracked : Tracked s'
  steps : ∃ new, s'.log = new ++ s.log ∧ (∀ a ∈ new, P a) ∧
    ∀ p, Act.closed p ∉ new → (s'.peers p).rxbuf = (s.peers p).rxbuf
  plain : Plain s → Plain s'

namespace Leads

variable {P Q : Act → Prop} {s s' s'' : Hub}

theorem refl (h : Tracked s) : Leads P s s := ⟨h, ⟨[], by simp⟩, id⟩

theorem trans (h : Leads P s s') (h' : Leads P s' s'') : Leads P s s'' := by
  obtain ⟨new, hlog, hP, hrx⟩ := h.steps
  obtain ⟨new', hlog', hP', hrx'⟩ := h'.steps
  refine ⟨h'.tracked, ⟨new' ++ new, ?_, ?_, ?_⟩, h'.plain ∘ h.plain⟩
  · rw [hlog', hlog, List.append_assoc]
  · intro a ha
    obtain ha | ha := List.mem_append.1 ha
    · exact hP' a ha
    · exact hP a ha
  · intro p hp
    rw [List.mem_append, not_or] at hp
    exact (hrx' p hp.1).trans (hrx p hp.2)

theorem mono (h : Leads P s s') (hPQ : ∀ a, P a → Q a) : Leads Q s s' := by
  obtain ⟨new, hlog, hP, hrx⟩ := h.steps
  exact ⟨h.tracked, ⟨new, hlog, fun a ha => hPQ a (hP a ha), hrx⟩, h.plain⟩

/-- Then an operation that routing does not see. -/
theorem thenAlike (h : Leads P s s') (ha : Alike s' s'') (hlog : s''.log = s'.log)
    (hrx : ∀ p, (s''.peers p).rxbuf = (s'.peers p).rxbuf) (hplain : Plain s' → Plain s'') :
    Leads P s s'' :=
  h.trans ⟨h.tracked.alike ha hlog, ⟨[], by simp [hlog], by simp, fun p _ => hrx p⟩, hplain⟩

theorem thenNote (h : Leads P s s') {a : Act} (ht : Tracked (s'.note a)) (ha : P a) :
    Leads P s (s'.note a) :=
  h.trans ⟨ht, ⟨[a], rfl, by simpa using ha, fun _ _ => rfl⟩, fun hp => ⟨hp.overrides, hp.posSet⟩⟩

theorem thenStats (h : Leads P s s') (f : Stats → Stats) : Leads P s (s'.modStats f) :=
  h.thenAlike (Alike.of_tables rfl rfl rfl) rfl (fun _ => rfl) fun hp => ⟨hp.overrides, hp.posSet⟩

theorem thenKern (h : Leads P s s') (kern : Kern) : Leads P s { s' with kern } :=
  h.thenAlike (Alike.of_tables rfl rfl rfl) rfl (fun _ => rfl) fun hp => ⟨hp.overrides, hp.posSet⟩

theorem thenPeer (h : Leads P s s') (i : ℕ) {f : Peer → Peer} (hf : ∀ p, (f p).view = p.view)
    (hrx : ∀ p, (f p).rxbuf = p.rxbuf) : Leads P s (s'.modPeer i f) :=
  h.thenAlike (Alike.modPeer s' i hf) rfl (fun p => s'.peers.modify_attr Peer.rxbuf hrx i p)
    fun hp => ⟨hp.overrides, hp.posSet⟩

theorem thenNode (h : Leads P s s') (k : ℕ) {f : Node → Node} (hf : ∀ nd, (f nd).view = nd.view)
    (hpos : ∀ nd, (f nd).posSet = nd.posSet) : Leads P s (s'.modNode k f) :=
  h.thenAlike (Alike.modNode s' k hf) rfl (fun _ => rfl) fun hp => ⟨hp.overrides, fun i =>
    (s'.nodes.modify_attr Node.posSet hpos k i).trans (hp.posSet i)⟩

theorem thenConn (h : Leads P s s') (c : ℕ) {f : Conn → Conn} (hf : ∀ c, (f c).view = c.view) :
    Leads P s (s'.modConn c f) :=
  h.thenAlike (Alike.modConn s' c hf) rfl (fun _ => rfl) fun hp => ⟨hp.overrides, hp.posSet⟩

end Leads

/-! ### Deliveries -/

/-- What the delivery of a frame to peer `q` consists of. -/
inductive Delivery (hdr : VbtFrameHdr) (pdu : List UInt8) (q : ℕ) : Act → Prop
  | hand (rssi : Int8) : Delivery hdr pdu q (.hand q ⟨{ hdr with rssi }, pdu⟩)
  | wrote (bytes : List UInt8) : Delivery hdr pdu q (.wrote q bytes)
  | dropped : Delivery hdr pdu q (.dropped q)
  | closed : Delivery hdr pdu q (.closed q)

/-- A delivery after the frame was handed over. -/
inductive Sending (q : ℕ) : Act → Prop
  | wrote (bytes : List UInt8) : Sending q (.wrote q bytes)
  | dropped : Sending q (.dropped q)
  | closed : Sending q (.closed q)

theorem Sending.delivery {q : ℕ} {a : Act} (h : Sending q a) (hdr : VbtFrameHdr)
    (pdu : List UInt8) : Delivery hdr pdu q a := by
  cases h with
  | wrote bytes => exact .wrote bytes
  | dropped => exact .dropped
  | closed => exact .closed

theorem peerClose_leads {s : Hub} (h : Tracked s) (idx : ℕ) :
    Leads (Sending idx) s (s.peerClose idx) := by
  cases ho : (s.peers idx).isOpen with
  | false =>
    rw [peerClose_of_closed ho]
    exact .refl h
  | true =>
    refine ⟨h.peerClose idx, ⟨[.closed idx], peerClose_log ho, by simpa using .closed, ?_⟩, ?_⟩
    · intro p hp
      have hne : p ≠ idx := by simpa using hp
      rw [peerClose_peers ho, Slots.set_of_ne _ _ hne]
    · intro hp
      refine ⟨?_, fun k => ?_⟩
      · cases hk : (s.peers idx).nodeIdx <;>
          simpa [peerClose, ho, hk, Hub.note, Hub.modNode, connsDropNode, Hub.modStats]
            using hp.overrides
      · rw [peerClose_node ho h.tidy.auto]
        exact hp.posSet k

theorem bufferRest_leads {s : Hub} (h : Tracked s) (idx : ℕ) (data : List UInt8) :
    Leads (Sending idx) s (s.bufferRest idx data).1 := by
  simp only [bufferRest]
  split_ifs
  · exact peerClose_leads h idx
  · have hd := ((Leads.refl (P := Sending idx) h).thenPeer idx
      (f := fun p => { p with outbuf := some ((s.peers idx).outbuf.getD []), txDropped := p.txDropped + 1 })
      (fun _ => rfl) fun _ => rfl).thenStats fun st =>
        { st with droppedBackpressure := st.droppedBackpressure + 1 }
    exact hd.thenNote (hd.tracked.note rfl trivial) .dropped
  · exact (Leads.refl h).thenPeer idx (fun _ => rfl) fun _ => rfl

/-- What holds before `peer_send` and after a write, and what closing the peer and buffering for it
keep, holds after it. -/
theorem peerSend_rule {I : Hub → Prop} (s : Hub) (idx : ℕ) (data : List UInt8) (start : I s)
    (wrote : ∀ ws bytes, I ((s.setWrites idx ws).note (.wrote idx bytes)))
    (close : ∀ t, I t → I (t.peerClose idx)) (buffer : ∀ t rest, I t → I (t.bufferRest idx rest).1) :
    I (s.peerSend idx data).1 := by
  simp only [peerSend]
  split_ifs
  · exact start
  · obtain ⟨off, ending, ws⟩ := writeLoop data.length 0 (s.kern.write idx)
    have hw := wrote ws (data.take off)
    cases ending with
    | finished => exact hw
    | blocked => exact buffer _ _ hw
    | failed => exact close _ hw
  · exact buffer s data start

/-- The same of `peer_flush`. -/
theorem peerFlush_rule {I : Hub → Prop} (s : Hub) (p : ℕ)
    (idle : I (s.modPeer p fun q => { q with wantWrite := false }))
    (wrote : ∀ ws bytes, I ((s.setWrites p ws).note (.wrote p bytes)))
    (close : ∀ t, I t → I (t.peerClose p))
    (rest : ∀ t outbuf wantWrite, I t → I (t.modPeer p fun q => { q with outbuf, wantWrite })) :
    I (s.peerFlush p) := by
  simp only [peerFlush]
  split_ifs
  · exact idle
  · obtain ⟨off, ending, ws⟩ := writeLoop _ 0 (s.kern.write p)
    have hw := wrote ws (((s.peers p).outbuf.getD []).take off)
    cases ending with
    | failed => exact close _ hw
    | finished | blocked => exact rest _ _ _ hw

/-- What holds after the send of `deliver_to_peer`, and what the count of the receiver's node keeps,
holds after it. -/
theorem deliverToPeer_rule {I : Hub → Prop} {s : Hub} {dst : ℕ} {hdr : VbtFrameHdr}
    {pdu : List UInt8} {rssi : ℤ}
    (send : ∀ data, I ((s.note (.hand dst ⟨{ hdr with rssi := Int8.ofInt rssi }, pdu⟩)).peerSend dst
      data).1)
    (count : ∀ t k, I t → I (t.modNode k fun nd => { nd with rxPdus := nd.rxPdus + 1 })) :
    I (s.deliverToPeer dst hdr pdu rssi) := by
  have hs := send (wire (Frame.payload ⟨{ hdr with rssi := Int8.ofInt rssi }, pdu⟩))
  simp only [deliverToPeer]
  split
  · rename_i s' heq
    rwa [heq] at hs
  · rename_i s' heq
    rw [heq] at hs
    split
    · exact count _ _ hs
    · exact hs

theorem wrote_leads {s : Hub} (h : Tracked s) (p : ℕ) (ws : List WriteRes) (bytes : List UInt8) :
    Leads (Sending p) s ((s.setWrites p ws).note (.wrote p bytes)) := by
  have hk : Leads (Sending p) s (s.setWrites p ws) := (Leads.refl h).thenKern _
  exact hk.thenNote (hk.tracked.note rfl trivial) (.wrote _)

theorem peerSend_leads {s : Hub} (h : Tracked s) (idx : ℕ) (data : List UInt8) :
    Leads (Sending idx) s (s.peerSend idx data).1 :=
  peerSend_rule s idx data (.refl h) (wrote_leads h idx)
    (fun _ ht => ht.trans (peerClose_leads ht.tracked idx))
    fun _ rest ht => ht.trans (bufferRest_leads ht.tracked idx rest)

theorem peerFlush_leads {s : Hub} (h : Tracked s) (p : ℕ) :
    Leads (Sending p) s (s.peerFlush p) :=
  peerFlush_rule s p ((Leads.refl h).thenPeer p (fun _ => rfl) fun _ => rfl) (wrote_leads h p)
    (fun _ ht => ht.trans (peerClose_leads ht.tracked p))
    fun _ _ _ ht => ht.thenPeer p (fun _ => rfl) fun _ => rfl

/-- `deliver_to_peer` hands the frame over once and then deals with the socket. -/
theorem deliverToPeer_leads {s : Hub} (h : Tracked s) (dst : ℕ) (hdr : VbtFrameHdr)
    (pdu : List UInt8) (rssi : ℤ) :
    Leads (Sending dst) (s.note (.hand dst ⟨{ hdr with rssi := Int8.ofInt rssi }, pdu⟩))
      (s.deliverToPeer dst hdr pdu rssi) :=
  deliverToPeer_rule (peerSend_leads (h.note (a := .hand dst _) rfl trivial) dst)
    fun _ _ ht => ht.thenNode _ (fun _ => rfl) fun _ => rfl

theorem deliverToPeer_delivers {s : Hub} (h : Tracked s) (dst : ℕ) (hdr : VbtFrameHdr)
    (pdu : List UInt8) (rssi : ℤ) :
    Leads (Delivery hdr pdu dst) s (s.deliverToPeer dst hdr pdu rssi) := by
  have hn : Tracked (s.note (.hand dst ⟨{ hdr with rssi := Int8.ofInt rssi }, pdu⟩)) :=
    h.note rfl trivial
  refine ((Leads.refl h).thenNote hn (.hand _)).trans ?_
  exact (deliverToPeer_leads h dst hdr pdu rssi).mono fun _ ha => ha.delivery hdr pdu

theorem Delivery.ofSocket {hdr : VbtFrameHdr} {pdu : List UInt8} {q : ℕ} {a : Act}
    (h : Delivery hdr pdu q a) : OfSocket a := by
  cases h <;> trivial

/-- The peer an action of a delivery is about. -/
def dest : Act → Option ℕ
  | .hand p _ => some p
  | .wrote p _ => some p
  | .dropped p => some p
  | .closed p => some p
  | _ => none

theorem Delivery.dest_eq {hdr : VbtFrameHdr} {pdu : List UInt8} {p : ℕ} {a : Act}
    (h : Delivery hdr pdu p a) : dest a = some p := by
  cases h <;> rfl

theorem Leads.shrinks {P : Act → Prop} {s s' : Hub} (hs : Tracked s) (h : Leads P s s')
    (hP : ∀ a, P a → OfSocket a) : Shrinks s.router s'.router := by
  obtain ⟨new, hlog, hnew, -⟩ := h.steps
  have hlegal := h.tracked.legal
  rw [hs.router, h.tracked.router, hlog]
  rw [hlog] at hlegal
  exact hlegal.invariant_since (I := Shrinks (medium.replay s.log)) (P := OfSocket) (Shrinks.refl _)
    (fun _ a _ ht _ ha => ht.trans (Shrinks.apply _ ha)) fun a ha => hP a (hnew a ha)

/-- Deliveries to peers that are bound to no node change no route. -/
theorem Leads.sameRoutes {P : Act → Prop} {s s' : Hub} (hs : Tracked s) (h : Leads P s s')
    (hP : ∀ a, P a → OfSocket a) (hfree : ∀ q, P (.closed q) → (s.peers q).nodeIdx = none) :
    SameRoutes s.router s'.router := by
  obtain ⟨new, hlog, hnew, -⟩ := h.steps
  have hlegal := h.tracked.legal
  have hfree' : ∀ q, P (.closed q) → (medium.replay s.log).nodeOf q = none := by
    rw [← hs.router]
    exact hfree
  rw [hs.router, h.tracked.router, hlog]
  rw [hlog] at hlegal
  refine hlegal.invariant_since (I := SameRoutes (medium.replay s.log)) (P := P) (SameRoutes.refl _)
    (fun t a _ ht _ ha => ht.trans (SameRoutes.apply (hP a ha) fun p hp => ?_)) hnew
  rw [ht.nodeOf]
  exact hfree' p (hp ▸ ha)

theorem deliverHeard_leads {s : Hub} (h : Tracked s) (srcNode : Option ℕ) (k dst : ℕ)
    (hdr : VbtFrameHdr) (pdu : List UInt8) :
    Leads (Delivery hdr pdu dst) s (s.deliverHeard srcNode k dst hdr pdu) := by
  simp only [deliverHeard]
  generalize s.propagate (srcNode.map s.nodes) (s.nodes k) hdr.txPowerDbm hdr.rssi = heard
  have hk : Leads (Delivery hdr pdu dst) s { s with kern := heard.kern } :=
    (Leads.refl h).thenKern _
  split_ifs
  · exact hk.trans (deliverToPeer_delivers hk.tracked dst hdr pdu _)
  · refine Leads.thenStats (Leads.thenNode hk k ?_ ?_) _ <;> exact fun _ => rfl

/-! ### Loops over the peer table -/

/-- A loop over the peer table that takes actions of `P` while what routing sees shrinks. -/
theorem foldl_leads {P : Act → Prop} {s : Hub} (hs : Tracked s) (hP : ∀ a, P a → OfSocket a)
    {f : Hub → ℕ → Hub}
    (hf : ∀ t i, Tracked t → Shrinks s.router t.router → Leads P t (f t i)) (l : List ℕ) :
    Leads P s (l.foldl f s) := by
  suffices H : ∀ t, Leads P s t → Leads P s (l.foldl f t) from H s (.refl hs)
  induction l with
  | nil => exact fun t ht => ht
  | cons i l ih =>
    intro t ht
    exact ih _ (ht.trans (hf t i ht.tracked (ht.shrinks hs hP)))

/-- The deliveries of a frame to the peers of a set. -/
def DeliveryTo (hdr : VbtFrameHdr) (pdu : List UInt8) (Q : ℕ → Prop) (a : Act) : Prop :=
  ∃ q, Q q ∧ Delivery hdr pdu q a

theorem DeliveryTo.ofSocket {hdr : VbtFrameHdr} {pdu : List UInt8} {Q : ℕ → Prop} (a : Act)
    (h : DeliveryTo hdr pdu Q a) : OfSocket a := by
  obtain ⟨q, -, hd⟩ := h
  exact hd.ofSocket

/-- A sweep reaches only open peers other than the source that `R` selects. -/
theorem sweep_leads {s : Hub} (h : Tracked s) {sel : Peer → Bool} {R : ℕ → Prop}
    (hsel : ∀ t : Hub, Shrinks s.router t.router → ∀ q, sel (t.peers q) = true → R q) (src : ℕ)
    (hdr : VbtFrameHdr) (pdu : List UInt8) :
    Leads (DeliveryTo hdr pdu fun q => q ≠ src ∧ (s.peers q).isOpen = true ∧ R q) s
      (s.sweep sel src hdr pdu) := by
  refine foldl_leads h DeliveryTo.ofSocket (fun t i ht hshr => ?_) _
  split_ifs with hc
  · simp only [Bool.and_eq_true, decide_eq_true_eq] at hc
    refine (deliverToPeer_delivers ht i hdr pdu _).mono fun a ha => ⟨i, ⟨hc.1.1, ?_, ?_⟩, ha⟩
    · exact hshr.isOpen i hc.1.2
    · exact hsel t hshr i hc.2
  · exact .refl ht

theorem sweep_monitors {s : Hub} (h : Tracked s) (src : ℕ) (hdr : VbtFrameHdr) (pdu : List UInt8) :
    Leads (DeliveryTo hdr pdu fun q => q ≠ src ∧ (s.peers q).isOpen = true ∧
      (s.peers q).isMonitor = true) s (s.sweep Peer.isMonitor src hdr pdu) :=
  sweep_leads h (fun _ hshr q hq => hshr.monitor q hq) src hdr pdu

theorem sweep_bridges {s : Hub} (h : Tracked s) (src : ℕ) (hdr : VbtFrameHdr) (pdu : List UInt8) :
    Leads (DeliveryTo hdr pdu fun q => q ≠ src ∧ (s.peers q).isOpen = true ∧
      (s.peers q).isBridge = true) s (s.sweep Peer.isBridge src hdr pdu) :=
  sweep_leads h (fun _ hshr q hq => hshr.bridge q hq) src hdr pdu

/-- The broadcast reaches only open bridges and open peers that are bound to a node. -/
theorem fanOut_leads {s : Hub} (h : Tracked s) (src : ℕ) (srcNode : Option ℕ) (hdr : VbtFrameHdr)
    (pdu : List UInt8) :
    Leads (DeliveryTo hdr pdu fun q => q ≠ src ∧ (s.peers q).isOpen = true ∧
        ((s.peers q).isBridge = true ∨ (s.peers q).nodeIdx ≠ none)) s
      (s.fanOut src srcNode hdr pdu) := by
  refine foldl_leads h DeliveryTo.ofSocket (fun t i ht hshr => ?_) _
  simp only [fanOutOne]
  split_ifs with hskip hbr
  · exact .refl ht
  · simp only [Bool.or_eq_true, decide_eq_true_eq, Bool.not_eq_true', not_or,
      Bool.not_eq_false] at hskip
    exact (deliverToPeer_delivers ht i hdr pdu _).mono fun a ha =>
      ⟨i, ⟨hskip.1, hshr.isOpen i hskip.2, Or.inl (hshr.bridge i hbr)⟩, ha⟩
  · simp only [Bool.or_eq_true, decide_eq_true_eq, Bool.not_eq_true', not_or,
      Bool.not_eq_false] at hskip
    split
    · exact .refl ht
    · rename_i k hk
      have hbound : (s.peers i).nodeIdx ≠ none := by
        rw [show (s.peers i).nodeIdx = some k from hshr.nodeOf i k hk]
        exact Option.some_ne_none k
      exact (deliverHeard_leads ht srcNode k i hdr pdu).mono fun a ha =>
        ⟨i, ⟨hskip.1, hshr.isOpen i hskip.2, Or.inr hbound⟩, ha⟩

/-- A data PDU is routed to the peer of the endpoint. -/
theorem routeTo_leads {s : Hub} (h : Tracked s) (srcNode other : Option ℕ) (hdr : VbtFrameHdr)
    (pdu : List UInt8) :
    Leads (DeliveryTo hdr pdu fun q => ∃ o, other = some o ∧ (s.nodes o).peerIdx = some q) s
      (s.routeTo srcNode other hdr pdu) := by
  simp only [routeTo]
  split
  · exact .refl h
  · rename_i o
    split_ifs
    · exact .refl h
    · split
      · exact .refl h
      · rename_i dst hdst
        exact (deliverHeard_leads h srcNode o dst hdr pdu).mono fun a ha =>
          ⟨dst, ⟨o, rfl, hdst⟩, ha⟩

/-! ### Forwarding -/

/-- The state of `forward_frame` after the sender is accounted for. -/
def accounted (s : Hub) (src : ℕ) (hdr : VbtFrameHdr) (pdu : List UInt8) : Hub :=
  (s.learnTx (s.peers src).nodeIdx hdr).note (.frame src hdr pdu)

/-- The state of `forward_frame` after the monitors heard the frame. -/
def tapped (s : Hub) (src : ℕ) (hdr : VbtFrameHdr) (pdu : List UInt8) : Hub :=
  (s.accounted src hdr pdu).sweep Peer.isMonitor src hdr pdu

section Forward

variable {s : Hub} {src : ℕ} {hdr hdr' : VbtFrameHdr} {pdu : List UInt8}

theorem forwardFrame_expired (httl : ttlStep (s.peers src).isBridge hdr = none) :
    s.forwardFrame src hdr pdu = s := by
  simp only [forwardFrame, httl]

theorem forwardFrame_adv (httl : ttlStep (s.peers src).isBridge hdr = some hdr')
    (hadv : hdr'.llType = VBT_LL_ADV) : s.forwardFrame src hdr pdu =
      (s.tapped src hdr' pdu).forwardAdv src (s.peers src).nodeIdx hdr' pdu := by
  simp only [forwardFrame, httl, hadv, if_true]
  rfl

theorem forwardFrame_data (httl : ttlStep (s.peers src).isBridge hdr = some hdr')
    (hdata : hdr'.llType = VBT_LL_DATA) : s.forwardFrame src hdr pdu =
      (s.tapped src hdr' pdu).forwardData src (s.peers src).nodeIdx hdr' pdu := by
  have hne : VBT_LL_DATA ≠ VBT_LL_ADV := by decide
  simp only [forwardFrame, httl, hdata, hne, if_true, if_false]
  rfl

theorem forwardFrame_other (httl : ttlStep (s.peers src).isBridge hdr = some hdr')
    (hadv : hdr'.llType ≠ VBT_LL_ADV) (hdata : hdr'.llType ≠ VBT_LL_DATA) :
    s.forwardFrame src hdr pdu = s.tapped src hdr' pdu := by
  simp only [forwardFrame, httl, hadv, hdata, if_false]
  rfl

/-- The TTL is the only field of the header the hub changes before it forwards. -/
theorem ttlStep_eq_some {bridge : Bool} (h : ttlStep bridge hdr = some hdr') :
    ∃ flags, hdr' = { hdr with flags } := by
  simp only [ttlStep] at h
  split_ifs at h <;> exact ⟨_, (Option.some.inj h).symm⟩

theorem learnTx_rest (s : Hub) (node : Option ℕ) (hdr : VbtFrameHdr) :
    (s.learnTx node hdr).peers = s.peers ∧ (s.learnTx node hdr).conns = s.conns ∧
      (s.learnTx node hdr).log = s.log ∧ (s.learnTx node hdr).overrides = s.overrides := by
  cases node with
  | none => exact ⟨rfl, rfl, rfl, rfl⟩
  | some k =>
    simp only [learnTx, nodeAddAddr]
    split_ifs <;> exact ⟨rfl, rfl, rfl, rfl⟩

theorem accounted_log (s : Hub) (src : ℕ) (hdr : VbtFrameHdr) (pdu : List UInt8) :
    (s.accounted src hdr pdu).log = .frame src hdr pdu :: s.log := by
  rw [accounted, Hub.note, (learnTx_rest s _ hdr).2.2.1]

theorem accounted_leads (h : Tracked s) (ho : (s.peers src).isOpen = true) (hdr : VbtFrameHdr)
    (pdu : List UInt8) : Leads (· = .frame src hdr pdu) s (s.accounted src hdr pdu) := by
  refine ⟨h.learnTx ho hdr pdu, ⟨[.frame src hdr pdu], accounted_log s src hdr pdu, by simp,
    fun p _ => ?_⟩, fun hp => ⟨?_, fun i => ?_⟩⟩
  · simp only [accounted, Hub.note, (learnTx_rest s _ hdr).1]
  · simp only [accounted, Hub.note, (learnTx_rest s _ hdr).2.2.2]
    exact hp.overrides
  · cases hk : (s.peers src).nodeIdx with
    | none =>
      simp only [accounted, Hub.note, hk, learnTx]
      exact hp.posSet i
    | some k =>
      have ht : Leads (fun _ => True) s (s.modNode k fun nd => { nd with
          txPdus := nd.txPdus + 1, lastChannel := hdr.channel, lastPhy := hdr.phy }) := by
        refine Leads.thenNode (Leads.refl h) k ?_ ?_ <;> exact fun _ => rfl
      simp only [accounted, Hub.note, hk, learnTx, nodeAddAddr_node ht.tracked.tidy, withAddrs]
      exact (ht.plain hp).posSet i

theorem tapped_leads (h : Tracked s) (ho : (s.peers src).isOpen = true) (hdr : VbtFrameHdr)
    (pdu : List UInt8) :
    Leads (DeliveryTo hdr pdu fun q => q ≠ src ∧ (s.peers q).isOpen = true ∧
      (s.peers q).isMonitor = true) (s.accounted src hdr pdu) (s.tapped src hdr pdu) := by
  have hpeers : (s.accounted src hdr pdu).peers = s.peers := (learnTx_rest s _ hdr).1
  have hsw := sweep_monitors (accounted_leads h ho hdr pdu).tracked src hdr pdu
  rw [hpeers] at hsw
  exact hsw

/-- A PDU that `observe_connect_ind` makes a route of. -/
def Snoops (pdu : List UInt8) : Prop :=
  isConnectInd pdu = true ∧ VBT_CONNIND_AA_OFF + 4 ≤ pdu.length ∧ validAA (indAA pdu) = true

instance (pdu : List UInt8) : Decidable (Snoops pdu) := inferInstanceAs (Decidable (_ ∧ _ ∧ _))

/-- What forwarding a frame of peer `src`, bound to `node`, can do. -/
inductive Forwarding (src : ℕ) (node : Option ℕ) (hdr : VbtFrameHdr) (pdu : List UInt8) : Act → Prop
  | frame : Forwarding src node hdr pdu (.frame src hdr pdu)
  | snooped (b slot : Option ℕ) (hadv : hdr.llType = VBT_LL_ADV) (hind : Snoops pdu) :
    Forwarding src node hdr pdu (.snooped (indAA pdu) node b slot)
  | delivery {q : ℕ} {a : Act} (hd : Delivery hdr pdu q a) : Forwarding src node hdr pdu a

theorem DeliveryTo.forwarding {Q : ℕ → Prop} {node : Option ℕ} (a : Act)
    (h : DeliveryTo hdr pdu Q a) : Forwarding src node hdr pdu a := by
  obtain ⟨q, -, hd⟩ := h
  exact .delivery hd

theorem observeConnectInd_leads (h : Tracked s) {i : Option ℕ}
    (hi : ∀ k, i = some k → (s.nodes k).active = true) (pdu : List UInt8) :
    Leads (fun a => (VBT_CONNIND_AA_OFF + 4 ≤ pdu.length ∧ validAA (indAA pdu) = true) ∧
      ∃ slot, a = .snooped (indAA pdu) i (s.findNodeByAddr (indAdvA pdu)) slot) s
      (s.observeConnectInd i pdu) := by
  have htr := h.observeConnectInd hi pdu
  obtain ⟨-, heq⟩ | ⟨hgo, -, -, heq⟩ | ⟨s', c, hgo, he, heq⟩ := observeConnectInd_cases s i pdu <;>
    rw [heq] at htr ⊢
  · exact .refl h
  · exact (Leads.refl h).thenNote htr ⟨hgo, none, rfl⟩
  · obtain ⟨-, hpeers, hnodes, hlog, hov, -⟩ := connEntry_some h.tidy hgo.2 he
    refine ⟨htr, ⟨[.snooped (indAA pdu) i (s.findNodeByAddr (indAdvA pdu)) (some c)], ?_,
      by simpa using hgo, fun p _ => ?_⟩, fun hp => ⟨?_, ?_⟩⟩
    · simp only [Hub.note, Hub.modConn, hlog]
      rfl
    · simp only [Hub.note, Hub.modConn, hpeers]
    · simp only [Hub.note, Hub.modConn, hov]
      exact hp.overrides
    · simp only [Hub.note, Hub.modConn, hnodes]
      exact hp.posSet

/-- The node of the sender exists, also after the monitors heard the frame. -/
theorem tapped_active (h : Tracked s) (ho : (s.peers src).isOpen = true) (hdr : VbtFrameHdr)
    (pdu : List UInt8) (k : ℕ) (hk : (s.peers src).nodeIdx = some k) :
    ((s.tapped src hdr pdu).nodes k).active = true := by
  have hacc := accounted_leads h ho hdr pdu
  have hshr := (tapped_leads h ho hdr pdu).shrinks hacc.tracked DeliveryTo.ofSocket
  have hpeers : (s.accounted src hdr pdu).peers = s.peers := (learnTx_rest s _ hdr).1
  have hact : (s.accounted src hdr pdu).router.active k = true := by
    refine hacc.tracked.blank.active src k ?_
    simp only [Hub.router, hpeers, hk]
  rw [← hshr.active] at hact
  exact hact

/-- The state of the branch `VBT_LL_ADV` before the broadcast. -/
def snooped (s : Hub) (node : Option ℕ) (pdu : List UInt8) : Hub :=
  if isConnectInd pdu then s.observeConnectInd node pdu else s

theorem snooped_leads (h : Tracked s) {node : Option ℕ}
    (hn : ∀ k, node = some k → (s.nodes k).active = true) (pdu : List UInt8) :
    Leads (fun a => Snoops pdu ∧
      ∃ slot, a = .snooped (indAA pdu) node (s.findNodeByAddr (indAdvA pdu)) slot) s
      (s.snooped node pdu) := by
  simp only [snooped]
  split_ifs with hind
  · exact (observeConnectInd_leads h hn pdu).mono fun a ha => ⟨⟨hind, ha.1⟩, ha.2⟩
  · exact .refl h

theorem forwardAdv_eq (s : Hub) (src : ℕ) (node : Option ℕ) (hdr : VbtFrameHdr)
    (pdu : List UInt8) : ∃ f, s.forwardAdv src node hdr pdu =
      ((s.snooped node pdu).fanOut src node hdr pdu).modStats f :=
  ⟨fun st => { st with advForwarded := st.advForwarded + 1 }, rfl⟩

theorem forwardAdv_leads (h : Tracked s) {node : Option ℕ}
    (hn : ∀ k, node = some k → (s.nodes k).active = true) (src : ℕ) {hdr : VbtFrameHdr}
    (hadv : hdr.llType = VBT_LL_ADV) (pdu : List UInt8) :
    Leads (Forwarding src node hdr pdu) s (s.forwardAdv src node hdr pdu) := by
  have hobs : Leads (Forwarding src node hdr pdu) s (s.snooped node pdu) := by
    refine (snooped_leads h hn pdu).mono ?_
    rintro a ⟨hind, slot, rfl⟩
    exact .snooped _ slot hadv hind
  have hfan := hobs.trans ((fanOut_leads hobs.tracked src node hdr pdu).mono DeliveryTo.forwarding)
  obtain ⟨f, hf⟩ := forwardAdv_eq s src node hdr pdu
  rw [hf]
  exact hfan.thenStats f

/-- The state of the branch `VBT_LL_DATA` before the bridges get the frame. -/
def routed (s : Hub) (node : Option ℕ) (hdr : VbtFrameHdr) (pdu : List UInt8) : Hub :=
  match s.findConn hdr.accessAddr with
  | none => s
  | some c =>
    (s.modConn c fun c => { c with pdus := c.pdus + 1 }).routeTo node (otherEnd node (s.conns c)) hdr pdu

theorem forwardData_eq (s : Hub) (src : ℕ) (node : Option ℕ) (hdr : VbtFrameHdr)
    (pdu : List UInt8) : ∃ f, s.forwardData src node hdr pdu =
      ((s.routed node hdr pdu).sweep Peer.isBridge src hdr pdu).modStats f := by
  simp only [forwardData, routed]
  cases s.findConn hdr.accessAddr with
  | none => exact ⟨id, rfl⟩
  | some c => exact ⟨_, rfl⟩

/-- A data PDU is routed to the peer of the other endpoint of its connection, if at all. -/
theorem routed_leads (h : Tracked s) (node : Option ℕ) (hdr : VbtFrameHdr) (pdu : List UInt8) :
    Leads (DeliveryTo hdr pdu fun q => ∃ c o, s.findConn hdr.accessAddr = some c ∧
        otherEnd node (s.conns c) = some o ∧ (s.nodes o).peerIdx = some q) s
      (s.routed node hdr pdu) := by
  simp only [routed]
  split
  · exact .refl h
  · rename_i c hc
    have hcount : ∀ P, Leads P s (s.modConn c fun c => { c with pdus := c.pdus + 1 }) := by
      intro P
      refine Leads.thenConn (.refl h) c ?_
      exact fun _ => rfl
    refine (hcount _).trans ((routeTo_leads (hcount fun _ => True).tracked node
      (otherEnd node (s.conns c)) hdr pdu).mono ?_)
    rintro a ⟨q, ⟨o, ho, hq⟩, hd⟩
    exact ⟨q, ⟨c, o, hc, ho, hq⟩, hd⟩

theorem forwardData_leads (h : Tracked s) (node : Option ℕ) (src : ℕ) (hdr : VbtFrameHdr)
    (pdu : List UInt8) :
    Leads (Forwarding src node hdr pdu) s (s.forwardData src node hdr pdu) := by
  have hroute := (routed_leads h node hdr pdu).mono (Q := Forwarding src node hdr pdu)
    DeliveryTo.forwarding
  obtain ⟨f, hf⟩ := forwardData_eq s src node hdr pdu
  rw [hf]
  exact (hroute.trans ((sweep_bridges hroute.tracked src hdr pdu).mono
    DeliveryTo.forwarding)).thenStats f

theorem forwardFrame_leads (h : Tracked s) (ho : (s.peers src).isOpen = true) (hdr : VbtFrameHdr)
    (pdu : List UInt8) :
    Leads (fun a => ∃ hdr', ttlStep (s.peers src).isBridge hdr = some hdr' ∧
      Forwarding src (s.peers src).nodeIdx hdr' pdu a) s (s.forwardFrame src hdr pdu) := by
  cases httl : ttlStep (s.peers src).isBridge hdr with
  | none =>
    rw [forwardFrame_expired httl]
    exact .refl h
  | some hdr' =>
    refine Leads.mono (P := Forwarding src (s.peers src).nodeIdx hdr' pdu) ?_ fun a ha =>
      ⟨hdr', rfl, ha⟩
    have htap : Leads (Forwarding src (s.peers src).nodeIdx hdr' pdu) s (s.tapped src hdr' pdu) := by
      refine Leads.trans ((accounted_leads h ho hdr' pdu).mono ?_)
        ((tapped_leads h ho hdr' pdu).mono DeliveryTo.forwarding)
      rintro a rfl
      exact .frame
    by_cases hadv : hdr'.llType = VBT_LL_ADV
    · rw [forwardFrame_adv httl hadv]
      exact htap.trans (forwardAdv_leads htap.tracked (tapped_active h ho hdr' pdu) src hadv pdu)
    by_cases hdata : hdr'.llType = VBT_LL_DATA
    · rw [forwardFrame_data httl hdata]
      exact htap.trans (forwardData_leads htap.tracked _ src hdr' pdu)
    · rw [forwardFrame_other httl hadv hdata]
      exact htap

end Forward

/-! ### Messages -/

/-- What taking a hello of peer `p` can do. -/
inductive Greeting (p : ℕ) : Act → Prop
  | named (k : ℕ) (nid : NodeId) : Greeting p (.named k nid)
  | hello (nid : NodeId) (ph mon : Bool) (node : Option ℕ) : Greeting p (.hello p nid ph mon node)

theorem findNode_leads {s : Hub} (h : Tracked s) (p : ℕ) (nid : NodeId) (create : Bool) :
    Leads (Greeting p) s (s.findNode nid create).1 := by
  have htr := (h.findNode nid create).1
  unfold findNode at htr ⊢
  cases hn : s.nodeByName nid with
  | some k => exact .refl h
  | none =>
    cases create with
    | false => exact .refl h
    | true =>
      simp only [hn, if_true] at htr ⊢
      cases hA : s.nodes.alloc MAX_NODES (fun nd => !nd.active) (newNode nid) with
      | none => exact .refl h
      | some r =>
        obtain ⟨i, nodes⟩ := r
        simp only [hA] at htr ⊢
        obtain ⟨hget, -⟩ := Slots.alloc_eq_some hA
        refine ⟨htr, ⟨[.named i nid], rfl, by simpa using .named i nid, fun _ _ => rfl⟩,
          fun hp => ⟨hp.overrides, fun k => ?_⟩⟩
        simp only [Hub.note, hget]
        split_ifs
        · rfl
        · exact hp.posSet k

theorem findNode_peers (s : Hub) (nid : NodeId) (create : Bool) :
    (s.findNode nid create).1.peers = s.peers := by
  unfold findNode
  cases hn : s.nodeByName nid with
  | some k => rfl
  | none =>
    cases create with
    | false => rfl
    | true =>
      simp only [if_true]
      cases s.nodes.alloc MAX_NODES (fun nd => !nd.active) (newNode nid) <;> rfl

theorem bindPeerNode_leads {s : Hub} (h : Tracked s) {p : ℕ} (ho : (s.peers p).isOpen = true)
    (nid : NodeId) (ph : Bool) : Leads (Greeting p) s (s.bindPeerNode p nid ph) := by
  have hfind := findNode_leads h p nid true
  have hpeers := findNode_peers s nid true
  obtain ⟨-, hact⟩ := h.findNode nid true
  simp only [bindPeerNode]
  generalize s.findNode nid true = r at hfind hpeers hact ⊢
  obtain ⟨t, node⟩ := r
  have hot : (t.peers p).isOpen = true := by
    rw [show t.peers = s.peers from hpeers]
    exact ho
  cases node with
  | none =>
    refine hfind.thenNote (hfind.tracked.note rfl ⟨hot, fun k hk => by cases hk⟩) ?_
    exact .hello _ _ _ _
  | some k =>
    have htr := hfind.tracked.bindTables hot (hact k rfl) nid ph
    refine hfind.trans ⟨htr, ⟨[.hello p nid ph false (some k)], ?_, by simpa using .hello _ _ _ _,
      fun q _ => ?_⟩, fun hp => ⟨?_, fun i => ?_⟩⟩
    · simp only [Hub.note, (bindTables_rest t p k ph).2.2.1]
      rfl
    · simp only [Hub.note, bindTables_peer]
    · simp only [Hub.note, bindTables, Hub.modPeer, Hub.modNode]
      split
      · split_ifs <;> exact hp.overrides
      · exact hp.overrides
    · simp only [Hub.note, (bindTables_rest t p k ph).1]
      refine (t.nodes.modify_attr Node.posSet ?_ k i).trans (hp.posSet i)
      exact fun _ => rfl

theorem takeHello_leads {s : Hub} (h : Tracked s) {p : ℕ} (ho : (s.peers p).isOpen = true)
    (hello : Hello) : Leads (Greeting p) s (s.takeHello p hello) := by
  refine takeHello_rule (J := fun t _ => Leads (Greeting p) s t ∧ (t.peers p).isOpen = true) hello
    ⟨?_, ho⟩ ⟨.refl h, ho⟩ ?_ fun t nid ⟨ht, hot⟩ =>
      ht.trans (bindPeerNode_leads ht.tracked hot nid hello.physical)
  · refine (Leads.refl h).thenAlike (Alike.of_tables rfl rfl rfl) rfl (fun _ => rfl) ?_
    exact fun hp => ⟨hp.overrides, hp.posSet⟩
  · rintro t nid ⟨ht, hot⟩
    refine ht.trans ⟨ht.tracked.tap hot nid hello.physical,
      ⟨[.hello p nid hello.physical true none], rfl, by simpa using .hello _ _ _ _, fun q _ => ?_⟩,
      fun hp => ⟨hp.overrides, hp.posSet⟩⟩
    exact t.peers.modify_attr (f := fun r => { r with isMonitor := true }) Peer.rxbuf
      (fun _ => rfl) p q

/-- What handling a message of peer `p` can do. -/
inductive Handling (p : ℕ) : Act → Prop
  | greeting {a : Act} (h : Greeting p a) : Handling p a
  | forwarding {node : Option ℕ} {hdr : VbtFrameHdr} {pdu : List UInt8} {a : Act}
    (h : Forwarding p node hdr pdu a) : Handling p a

theorem handleMessage_leads {s : Hub} (h : Tracked s) {p : ℕ} (ho : (s.peers p).isOpen = true)
    (payload : List UInt8) : Leads (Handling p) s (s.handleMessage p payload) := by
  have hseen : Leads (Handling p) s
      (s.modPeer p fun q => { q with framesSeen := q.framesSeen + 1 }) := by
    refine Leads.thenPeer (.refl h) p ?_ ?_ <;> exact fun _ => rfl
  have hot : ((s.modPeer p fun q => { q with framesSeen := q.framesSeen + 1 }).peers p).isOpen =
      true := by
    simpa [Hub.modPeer, Peer.isOpen] using ho
  simp only [handleMessage, maybeHello]
  cases parseHello payload with
  | some hello =>
    exact hseen.trans ((takeHello_leads hseen.tracked hot hello).mono fun _ ha => .greeting ha)
  | none =>
    simp only [Option.map_none]
    cases frameOf payload with
    | some f =>
      refine hseen.trans ((forwardFrame_leads hseen.tracked hot f.hdr f.pdu).mono ?_)
      rintro a ⟨hdr', -, ha⟩
      exact .forwarding ha
    | none => exact hseen

/-! ### Events -/

/-- `s'` is tracked, and its log continues that of `s`. -/
structure Continues (s s' : Hub) : Prop where
  tracked : Tracked s'
  suffix : s.log <:+ s'.log

namespace Continues

variable {s s' s'' : Hub}

theorem refl (h : Tracked s) : Continues s s := ⟨h, List.suffix_rfl⟩

theorem trans (h : Continues s s') (h' : Continues s' s'') : Continues s s'' :=
  ⟨h'.tracked, h.suffix.trans h'.suffix⟩

theorem thenAlike (h : Continues s s') (ha : Alike s' s'') (hlog : s''.log = s'.log) :
    Continues s s'' :=
  ⟨h.tracked.alike ha hlog, hlog ▸ h.suffix⟩

theorem thenNote (h : Continues s s') {a : Act} (hr : s'.router.apply a = s'.router)
    (he : s'.router.enabled a) : Continues s (s'.note a) :=
  ⟨h.tracked.note hr he, h.suffix.trans (List.suffix_cons a s'.log)⟩

end Continues

theorem Leads.continues {P : Act → Prop} {s s' : Hub} (h : Leads P s s') : Continues s s' := by
  obtain ⟨new, hlog, -⟩ := h.steps
  exact ⟨h.tracked, new, hlog.symm⟩

theorem Tracked.setKern {s : Hub} (h : Tracked s) (kern : Kern) : Tracked { s with kern } :=
  h.alike (Alike.of_tables rfl rfl rfl) rfl

theorem peerReadableIter_continues {s : Hub} (h : Tracked s) {p : ℕ}
    (ho : (s.peers p).isOpen = true) : Continues s (s.peerReadableIter p).1 := by
  have hmsg := fun payload => (handleMessage_leads h ho payload).continues
  refine peerReadableIter_rule (.refl h) (peerClose_leads h p).continues
    (fun payload => (hmsg payload).thenNote rfl trivial) fun payload n => ?_
  refine (hmsg payload).thenAlike (Alike.modPeer _ p ?_) rfl
  exact fun _ => rfl

theorem recvBytes_continues {s : Hub} (h : Tracked s) (p : ℕ) (r : ReadRes) :
    Continues s (s.recvBytes p r) := by
  refine recvBytes_rule r (.refl h) (peerClose_leads h p).continues fun bytes => ?_
  refine (Continues.refl h).thenAlike (Alike.modPeer s p ?_) rfl
  exact fun _ => rfl

theorem findNode_continues {s : Hub} (h : Tracked s) (nid : NodeId) (create : Bool) :
    Continues s (s.findNode nid create).1 := by
  refine ⟨(h.findNode nid create).1, ?_⟩
  simp only [findNode]
  split
  · exact List.suffix_rfl
  · split_ifs
    · split
      · exact List.suffix_cons _ _
      · exact List.suffix_rfl
    · exact List.suffix_rfl

/-- What holds before a command and after it has made a node, and what changes of settings and
replies keep, holds after it. -/
theorem ctlDispatch_rule {I : Hub → Prop} {s : Hub} (cmd : CtlCmd) (start : I s)
    (find : ∀ ident, CtlCmd.ident cmd = some ident → I (s.findNode ident true).1)
    (node : ∀ t k f, (∀ nd, Node.view (f nd) = nd.view) → I t → I (t.modNode k f))
    (links : ∀ t overrides, I t → I { t with overrides })
    (exponent : ∀ t gPathExponent, I t → I { t with gPathExponent })
    (reply : ∀ t r, I t → I (t.note (.reply r))) : I (s.ctlDispatch cmd) := by
  have hnode : ∀ ident f ok, CtlCmd.ident cmd = some ident → (∀ nd, Node.view (f nd) = nd.view) →
      I (s.setNode ident f ok) := by
    intro ident f ok hi hf
    have hs : I (s.settingNode ident).1 := by
      simp only [settingNode]
      split
      · exact start
      · exact find ident hi
    simp only [Hub.setNode]
    generalize s.settingNode ident = r at hs ⊢
    obtain ⟨t, _ | k⟩ := r
    · exact reply t _ hs
    · exact reply _ _ (node t k f hf hs)
  have hlink : ∀ a b f ok, I (s.setLink a b f ok) := by
    intro a b f ok
    simp only [Hub.setLink, overrideEntry]
    split
    · cases s.findOverride _ _ with
      | some i => exact reply _ _ (links s _ start)
      | none =>
        dsimp only
        generalize s.overrides.alloc _ _ _ = r
        rcases r with _ | ⟨i, overrides⟩
        · exact reply s _ start
        · exact reply _ _ (links _ _ (links s overrides start))
    · exact reply s _ start
  cases cmd <;> simp only [Hub.ctlDispatch]
  case setPos | setTxpower | setSens =>
    refine hnode _ _ _ rfl ?_
    exact fun _ => rfl
  case setRssi | setLoss => exact hlink _ _ _ _
  case clearLink =>
    refine reply _ _ ?_
    split
    · split
      · exact links s _ start
      · exact start
    · exact start
  case setPathloss => exact reply _ _ (exponent s _ start)
  case report => exact start
  case bad => exact reply s _ start

theorem ctlDispatch_continues {s : Hub} (h : Tracked s) (cmd : CtlCmd) :
    Continues s (s.ctlDispatch cmd) :=
  ctlDispatch_rule cmd (.refl h) (fun ident _ => findNode_continues h ident true)
    (fun t k _ hf ht => ht.thenAlike (Alike.modNode t k hf) rfl)
    (fun _ _ ht => ht.thenAlike (Alike.of_tables rfl rfl rfl) rfl)
    (fun _ _ ht => ht.thenAlike (Alike.of_tables rfl rfl rfl) rfl)
    fun _ _ ht => ht.thenNote rfl trivial

theorem peerAlloc_continues {s : Hub} (h : Tracked s) (fd : ℕ) (isBridge : Bool) :
    Continues s (s.peerAlloc fd isBridge).1 := by
  refine ⟨h.peerAlloc fd isBridge, ?_⟩
  simp only [peerAlloc]
  split
  · exact List.suffix_cons _ _
  · exact List.suffix_rfl

/-- Every event keeps the hub tracked and adds to its log. -/
theorem step_continues {s : Hub} (h : Tracked s) (e : Event) : Continues s (s.step e) := by
  have hkern : ∀ kern, Continues s { s with kern } := fun kern => ⟨h.setKern kern, List.suffix_rfl⟩
  exact step_rule e (.refl h) (peerAlloc_continues h)
    (fun _ _ ht => ht.thenAlike (Alike.of_tables rfl rfl rfl) rfl)
    (fun p r _ => recvBytes_continues h p r)
    (fun p kern _ ho => (hkern kern).trans (peerReadableIter_continues (h.setKern kern) ho))
    (fun p kern => (hkern kern).trans (peerFlush_leads (h.setKern kern) p).continues)
    (fun p => (peerClose_leads h p).continues) fun cmd _ => ctlDispatch_continues h cmd

theorem run_continues {s : Hub} (h : Tracked s) (es : List Event) : Continues s (s.run es) := by
  induction es generalizing s with
  | nil => exact .refl h
  | cons e es ih =>
    have he := step_continues h e
    exact he.trans (ih he.tracked)

/-- **Every state of every run is tracked**: the tables are tidy and say what the log says. -/
theorem Reachable.tracked {s : Hub} (h : Reachable s) : Tracked s :=
  h.invariant Tracked.init fun _ e hs => (step_continues hs e).tracked

end Hub
end Vbt
