import Vbt.Hub.Receive

/-!
# What the propagation model reads

`propagate` reads the overrides, the radio settings of the two nodes and the environment's random
draws. Deliveries change none of these, so the outcome for a frame can be told before it is
handled.

* `Node.radio`, `SameAir`, and `propagate_congr`;
* `tapped_air`: the monitors hear a frame without changing the air;
* `handsTo_deliverHeard`: a frame is handed to its destination exactly if `propagate` lets it
  through.
-/

namespace Vbt

/-- What `propagate` reads of a node. -/
def Node.radio (nd : Node) : NodeId × (ℚ × ℚ × ℚ × Bool) × (ℚ × Bool × ℚ) × Bool :=
  (nd.nodeId, (nd.posX, nd.posY, nd.posZ, nd.posSet), (nd.txPowerDbm, nd.txPowerSet, nd.rxSensDbm),
    nd.physical)

namespace Hub

open Router

/-- Two states agree on what `propagate` reads. -/
structure SameAir (s s' : Hub) : Prop where
  overrides : s'.overrides = s.overrides
  exponent : s'.gPathExponent = s.gPathExponent
  rand : s'.kern.rand = s.kern.rand
  sqrt : s'.kern.sqrt = s.kern.sqrt
  log10 : s'.kern.log10 = s.kern.log10
  radio : ∀ k, (s'.nodes k).radio = (s.nodes k).radio

namespace SameAir

variable {s s' s'' : Hub}

theorem refl (s : Hub) : SameAir s s := ⟨rfl, rfl, rfl, rfl, rfl, fun _ => rfl⟩

theorem trans (h : SameAir s s') (h' : SameAir s' s'') : SameAir s s'' :=
  ⟨h'.overrides.trans h.overrides, h'.exponent.trans h.exponent, h'.rand.trans h.rand,
    h'.sqrt.trans h.sqrt, h'.log10.trans h.log10, fun k => (h'.radio k).trans (h.radio k)⟩

theorem thenNode (h : SameAir s s') (k : ℕ) {f : Node → Node} (hf : ∀ nd, (f nd).radio = nd.radio) :
    SameAir s (s'.modNode k f) :=
  h.trans ⟨rfl, rfl, rfl, rfl, rfl, fun i => s'.nodes.modify_attr Node.radio hf k i⟩

end SameAir

theorem pathModel_congr {s s' : Hub} (h : SameAir s s') {tx tx' rx rx' : Node}
    (htx : tx'.radio = tx.radio) (hrx : rx'.radio = rx.radio) (kern kern' : Kern)
    (hsqrt : kern'.sqrt = kern.sqrt) (hlog : kern'.log10 = kern.log10) (p : Int8) (out : ℤ) :
    (s'.pathModel kern' tx' rx' p out).ok = (s.pathModel kern tx rx p out).ok ∧
      (s'.pathModel kern' tx' rx' p out).rssi = (s.pathModel kern tx rx p out).rssi := by
  simp only [Node.radio, Prod.mk.injEq] at htx hrx
  obtain ⟨-, ⟨tx1, tx2, tx3, tx4⟩, ⟨tx5, tx6, -⟩, -⟩ := htx
  obtain ⟨-, ⟨rx1, rx2, rx3, rx4⟩, ⟨-, -, rx7⟩, -⟩ := hrx
  simp only [pathModel, tx1, tx2, tx3, tx4, tx5, tx6, rx1, rx2, rx3, rx4, rx7, h.exponent, hsqrt,
    hlog]
  split_ifs <;> exact ⟨rfl, rfl⟩

/-- The outcome of `propagate` depends on the air alone. -/
theorem propagate_congr {s s' : Hub} (h : SameAir s s') {tx tx' rx rx' : Node}
    (htx : tx'.radio = tx.radio) (hrx : rx'.radio = rx.radio) (p r : Int8) :
    (s'.propagate (some tx') rx' p r).ok = (s.propagate (some tx) rx p r).ok ∧
      (s'.propagate (some tx') rx' p r).rssi = (s.propagate (some tx) rx p r).rssi := by
  have htx' := htx
  have hrx' := hrx
  simp only [Node.radio, Prod.mk.injEq] at htx' hrx'
  obtain ⟨htid, -, -, htphys⟩ := htx'
  obtain ⟨hrid, -, ⟨-, -, hsens⟩, hrphys⟩ := hrx'
  have hfind : s'.findOverride tx'.nodeId rx'.nodeId = s.findOverride tx.nodeId rx.nodeId := by
    simp only [findOverride, h.overrides, htid, hrid]
  simp only [propagate, htphys, hrphys, hfind]
  by_cases hphys : (tx.physical || rx.physical) = true
  · simp only [if_pos hphys, and_self]
  simp only [if_neg hphys]
  cases s.findOverride tx.nodeId rx.nodeId with
  | none => exact pathModel_congr h htx hrx _ _ h.sqrt h.log10 p _
  | some i =>
    simp only [h.overrides, h.rand, hsens]
    -- the draw leaves the functions of the environment alone
    split_ifs <;> first
      | exact ⟨rfl, rfl⟩
      | (refine pathModel_congr h htx hrx _ _ ?_ ?_ p _
         · exact h.sqrt
         · exact h.log10)

theorem pathModel_kern (s : Hub) (kern : Kern) (tx rx : Node) (p : Int8) (out : ℤ) :
    (s.pathModel kern tx rx p out).kern = kern := by
  simp only [pathModel]
  split_ifs <;> rfl

/-- `propagate` takes random numbers at most. -/
theorem propagate_kern (s : Hub) (tx : Option Node) (rx : Node) (p r : Int8) :
    ∃ rand, (s.propagate tx rx p r).kern = { s.kern with rand } ∧ rand <:+ s.kern.rand := by
  simp only [propagate]
  generalize (if r ≠ 0 then r.toInt else VBT_DEFAULT_RSSI.toInt) = out
  cases tx with
  | none => exact ⟨_, rfl, List.suffix_rfl⟩
  | some tx =>
    simp only []
    split_ifs
    · exact ⟨_, rfl, List.suffix_rfl⟩
    · cases s.findOverride tx.nodeId rx.nodeId with
      | none => exact ⟨_, pathModel_kern .., List.suffix_rfl⟩
      | some i =>
        simp only []
        split_ifs <;> first
          | exact ⟨_, rfl, List.suffix_rfl⟩
          | exact ⟨_, rfl, List.tail_suffix _⟩
          | exact ⟨_, pathModel_kern .., List.suffix_rfl⟩
          | exact ⟨_, pathModel_kern .., List.tail_suffix _⟩

/-! ### Deliveries -/

theorem connsDropNode_air (s : Hub) (k : ℕ) : SameAir s (s.connsDropNode k) :=
  ⟨rfl, rfl, rfl, rfl, rfl, fun _ => rfl⟩

theorem peerClose_air (s : Hub) (idx : ℕ) : SameAir s (s.peerClose idx) := by
  cases hk : (s.peers idx).nodeIdx with
  | none =>
    simp only [peerClose, hk]
    split_ifs <;> exact ⟨rfl, rfl, rfl, rfl, rfl, fun _ => rfl⟩
  | some k =>
    simp only [peerClose, hk]
    split_ifs
    · exact .refl s
    have h1 : SameAir s (s.modNode k fun nd =>
        { nd with peerIdx := if nd.peerIdx = some idx then none else nd.peerIdx }) := by
      refine (SameAir.refl s).thenNode k ?_
      exact fun _ => rfl
    have h2 := (h1.trans (connsDropNode_air _ k)).thenNode k
      (f := fun nd => { nd with active := nd.active && !(nd.autoNamed && nd.addrs.isEmpty) })
      fun _ => rfl
    exact ⟨h2.overrides, h2.exponent, h2.rand, h2.sqrt, h2.log10, h2.radio⟩

theorem bufferRest_air (s : Hub) (idx : ℕ) (data : List UInt8) :
    SameAir s (s.bufferRest idx data).1 := by
  simp only [bufferRest]
  split_ifs
  · exact peerClose_air s idx
  · exact ⟨rfl, rfl, rfl, rfl, rfl, fun _ => rfl⟩
  · exact ⟨rfl, rfl, rfl, rfl, rfl, fun _ => rfl⟩

theorem peerSend_air (s : Hub) (idx : ℕ) (data : List UInt8) :
    SameAir s (s.peerSend idx data).1 :=
  peerSend_rule s idx data (.refl s) (fun _ _ => ⟨rfl, rfl, rfl, rfl, rfl, fun _ => rfl⟩)
    (fun t ht => ht.trans (peerClose_air t idx))
    fun t rest ht => ht.trans (bufferRest_air t idx rest)

theorem deliverToPeer_air (s : Hub) (dst : ℕ) (hdr : VbtFrameHdr) (pdu : List UInt8) (rssi : ℤ) :
    SameAir s (s.deliverToPeer dst hdr pdu rssi) := by
  have hn : SameAir s (s.note (.hand dst ⟨{ hdr with rssi := Int8.ofInt rssi }, pdu⟩)) :=
    ⟨rfl, rfl, rfl, rfl, rfl, fun _ => rfl⟩
  exact deliverToPeer_rule (fun data => hn.trans (peerSend_air _ dst data))
    fun _ _ ht => ht.thenNode _ fun _ => rfl

theorem sweep_air (s : Hub) (sel : Peer → Bool) (src : ℕ) (hdr : VbtFrameHdr) (pdu : List UInt8) :
    SameAir s (s.sweep sel src hdr pdu) := by
  refine List.foldlRecOn (motive := SameAir s) _ _ (.refl s) fun t ht i _ => ?_
  split_ifs
  · exact ht.trans (deliverToPeer_air t i hdr pdu _)
  · exact ht

theorem nodeAddAddr_air {s : Hub} (h : Tracked s) (k : ℕ) (addr : BdAddr) :
    SameAir s (s.nodeAddAddr k addr) := by
  have hradio : ∀ i, ((s.nodeAddAddr k addr).nodes i).radio = (s.nodes i).radio := by
    intro i
    rw [nodeAddAddr_node h.tidy]
    rfl
  simp only [nodeAddAddr] at hradio ⊢
  split_ifs at hradio ⊢ <;> exact ⟨rfl, rfl, rfl, rfl, rfl, hradio⟩

theorem learnTx_air {s : Hub} (h : Tracked s) (node : Option ℕ) (hdr : VbtFrameHdr) :
    SameAir s (s.learnTx node hdr) := by
  cases node with
  | none => exact .refl s
  | some k =>
    have h1 : SameAir s (s.modNode k fun nd => { nd with
        txPdus := nd.txPdus + 1, lastChannel := hdr.channel, lastPhy := hdr.phy }) := by
      refine (SameAir.refl s).thenNode k ?_
      exact fun _ => rfl
    have ht : Tracked (s.modNode k fun nd => { nd with
        txPdus := nd.txPdus + 1, lastChannel := hdr.channel, lastPhy := hdr.phy }) := by
      refine h.alike (Alike.modNode s k ?_) rfl
      exact fun _ => rfl
    have h2 := nodeAddAddr_air ht k hdr.txAddr
    exact h1.trans h2

theorem accounted_air {s : Hub} (h : Tracked s) (src : ℕ) (hdr : VbtFrameHdr) (pdu : List UInt8) :
    SameAir s (s.accounted src hdr pdu) :=
  (learnTx_air h (s.peers src).nodeIdx hdr).trans ⟨rfl, rfl, rfl, rfl, rfl, fun _ => rfl⟩

/-- Accounting for the sender and informing the monitors leaves the air alone. -/
theorem tapped_air {s : Hub} (h : Tracked s) (src : ℕ) (hdr : VbtFrameHdr) (pdu : List UInt8) :
    SameAir s (s.tapped src hdr pdu) :=
  (accounted_air h src hdr pdu).trans
    (sweep_air (s.accounted src hdr pdu) Peer.isMonitor src hdr pdu)

/-! ### What is handed over -/

theorem handsTo_sending {s s' : Hub} {p q : ℕ} (h : Leads (Sending q) s s') :
    handsTo p (did s s') = [] := by
  refine handsTo_eq_nil fun f hf => ?_
  cases h.did_forall hf

/-- `deliver_to_peer` hands the frame over exactly once. -/
theorem handsTo_deliverToPeer {s : Hub} (h : Tracked s) (dst : ℕ) (hdr : VbtFrameHdr)
    (pdu : List UInt8) (rssi : ℤ) :
    handsTo dst (did s (s.deliverToPeer dst hdr pdu rssi)) =
      [⟨{ hdr with rssi := Int8.ofInt rssi }, pdu⟩] := by
  have hs := deliverToPeer_leads h dst hdr pdu rssi
  have hn : s.log <:+ (s.note (.hand dst ⟨{ hdr with rssi := Int8.ofInt rssi }, pdu⟩)).log :=
    List.suffix_cons _ _
  have hone : did s (s.note (.hand dst ⟨{ hdr with rssi := Int8.ofInt rssi }, pdu⟩)) =
      [.hand dst ⟨{ hdr with rssi := Int8.ofInt rssi }, pdu⟩] := did_eq _ rfl
  rw [did_trans hn hs.suffix, handsTo_append, handsTo_sending hs, hone]
  simp [handsTo]

/-- A frame is handed to the peer of a node exactly if `propagate` lets it through. -/
theorem handsTo_deliverHeard {s : Hub} (h : Tracked s) (node : Option ℕ) (k dst : ℕ)
    (hdr : VbtFrameHdr) (pdu : List UInt8) {heard : Heard}
    (hheard : s.propagate (node.map s.nodes) (s.nodes k) hdr.txPowerDbm hdr.rssi = heard) :
    handsTo dst (did s (s.deliverHeard node k dst hdr pdu)) =
      if heard.ok then [⟨{ hdr with rssi := Int8.ofInt heard.rssi }, pdu⟩] else [] := by
  have hk : Tracked { s with kern := heard.kern } := h.setKern heard.kern
  simp only [deliverHeard, hheard]
  cases heard.ok with
  | true => exact handsTo_deliverToPeer hk dst hdr pdu heard.rssi
  | false =>
    have hnil : ∀ t : Hub, t.log = s.log → handsTo dst (did s t) = [] := by
      intro t ht
      have hdid : did s t = [] := did_eq [] ht
      rw [hdid]
      rfl
    exact hnil _ rfl

end Hub
end Vbt
