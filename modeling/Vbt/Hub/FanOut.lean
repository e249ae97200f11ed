import Vbt.Hub.Air
import Vbt.Hub.Routing

/-!
# The fan-out of an advertising frame

An advertising frame goes through two loops over the peer table, one for the monitors and one for
the bridges and the nodes. A delivery concerns one peer only, whatever its socket does, so a peer
that is closed in the middle of a loop takes nothing away from the peers after it.

* `Touches`: only one entry of the peer table changes;
* `handsTo_range`: what a loop over the table hands to a peer is decided at that peer's turn;
* `handsTo_sweep`, `handsTo_fanOut`: the two loops;
* `Drifts`: the air but for the random draws, and `hearing`, the propagation model at a peer's turn;
* `handsTo_receive_adv`: what each peer is handed of an advertising frame;
* `adv_fanOut_exact`: the same in every run with one hello for each peer.
-/

namespace Vbt
namespace Hub

open Router

/-! ### A delivery concerns one peer -/

/-- Only entry `dst` of the peer table changes. -/
structure Touches (dst : ℕ) (s s' : Hub) : Prop where
  size : s'.peers.size = s.peers.size
  peers : ∀ q, q ≠ dst → s'.peers q = s.peers q

namespace Touches

variable {dst : ℕ} {s s' s'' : Hub}

theorem of_peers (h : s'.peers = s.peers) : Touches dst s s' :=
  ⟨by rw [h], fun q _ => by rw [h]⟩

theorem refl (s : Hub) : Touches dst s s := of_peers rfl

theorem trans (h : Touches dst s s') (h' : Touches dst s' s'') : Touches dst s s'' :=
  ⟨h'.size.trans h.size, fun q hq => (h'.peers q hq).trans (h.peers q hq)⟩

theorem modPeer (s : Hub) (dst : ℕ) (f : Peer → Peer) : Touches dst s (s.modPeer dst f) :=
  ⟨rfl, fun _ hq => Slots.modify_of_ne _ _ hq⟩

end Touches

theorem peerClose_touches (s : Hub) (idx : ℕ) : Touches idx s (s.peerClose idx) := by
  cases ho : (s.peers idx).isOpen with
  | false =>
    rw [peerClose_of_closed ho]
    exact .refl s
  | true =>
    refine ⟨?_, fun q hq => ?_⟩ <;> rw [peerClose_peers ho]
    · rfl
    · exact Slots.set_of_ne _ _ hq

theorem bufferRest_touches (s : Hub) (idx : ℕ) (data : List UInt8) :
    Touches idx s (s.bufferRest idx data).1 := by
  simp only [bufferRest]
  split_ifs
  · exact peerClose_touches s idx
  · have hd := Touches.modPeer s idx fun p =>
      { p with outbuf := some ((s.peers idx).outbuf.getD []), txDropped := p.txDropped + 1 }
    exact ⟨hd.size, hd.peers⟩
  · exact Touches.modPeer s idx _

theorem peerSend_touches (s : Hub) (idx : ℕ) (data : List UInt8) :
    Touches idx s (s.peerSend idx data).1 :=
  peerSend_rule s idx data (.refl s) (fun _ _ => .of_peers rfl)
    (fun t ht => ht.trans (peerClose_touches t idx))
    fun t rest ht => ht.trans (bufferRest_touches t idx rest)

theorem deliverToPeer_touches (s : Hub) (dst : ℕ) (hdr : VbtFrameHdr) (pdu : List UInt8)
    (rssi : ℤ) :
    Touches dst s (s.deliverToPeer dst hdr pdu rssi) := by
  have hn : Touches dst s (s.note (.hand dst ⟨{ hdr with rssi := Int8.ofInt rssi }, pdu⟩)) :=
    .of_peers rfl
  exact deliverToPeer_rule (fun data => hn.trans (peerSend_touches _ dst data))
    fun _ _ ht => ht.trans (.of_peers rfl)

theorem deliverHeard_touches (s : Hub) (node : Option ℕ) (k dst : ℕ) (hdr : VbtFrameHdr)
    (pdu : List UInt8) : Touches dst s (s.deliverHeard node k dst hdr pdu) := by
  simp only [deliverHeard]
  generalize s.propagate (node.map s.nodes) (s.nodes k) hdr.txPowerDbm hdr.rssi = heard
  have hk : Touches dst s { s with kern := heard.kern } := .of_peers rfl
  split_ifs
  · exact hk.trans (deliverToPeer_touches _ dst hdr pdu _)
  · exact .of_peers rfl

/-! ### Loops over the peer table -/

/-- The iterations of a loop over the peer table each deal with one peer. -/
structure Visits (hdr : VbtFrameHdr) (pdu : List UInt8) (f : Hub → ℕ → Hub) : Prop where
  touches : ∀ t i, Touches i t (f t i)
  leads : ∀ t i, Tracked t → Leads (Delivery hdr pdu i) t (f t i)

namespace Visits

variable {s : Hub} {hdr : VbtFrameHdr} {pdu : List UInt8} {f : Hub → ℕ → Hub}

/-- Until its turn, a peer of the table is as it was. -/
theorem peers (hf : Visits hdr pdu f) (s : Hub) {n q : ℕ} (hq : n ≤ q) :
    ((List.range n).foldl f s).peers q = s.peers q := by
  induction n with
  | zero => rfl
  | succ n ih =>
    rw [List.range_succ, List.foldl_append, List.foldl_cons, List.foldl_nil,
      (hf.touches _ n).peers q (by omega), ih (by omega)]

theorem range_leads (hf : Visits hdr pdu f) (h : Tracked s) (n : ℕ) :
    Leads (fun a => ∃ i < n, Delivery hdr pdu i a) s ((List.range n).foldl f s) := by
  induction n with
  | zero => exact .refl h
  | succ n ih =>
    rw [List.range_succ, List.foldl_append, List.foldl_cons, List.foldl_nil]
    refine (ih.mono ?_).trans ((hf.leads _ n ih.tracked).mono fun a ha => ⟨n, by omega, ha⟩)
    rintro a ⟨i, hi, ha⟩
    exact ⟨i, by omega, ha⟩

theorem handsTo_ne (hf : Visits hdr pdu f) (h : Tracked s) {i q : ℕ} (hne : i ≠ q) :
    handsTo q (did s (f s i)) = [] := by
  refine handsTo_eq_nil fun g hg => ?_
  cases (hf.leads s i h).did_forall hg
  exact hne rfl

/-- **A loop over the peer table** hands to peer `q` what its iteration for `q` hands over. -/
theorem handsTo_range (hf : Visits hdr pdu f) (h : Tracked s) (n q : ℕ) {t : Hub}
    (ht : (List.range q).foldl f s = t) :
    handsTo q (did s ((List.range n).foldl f s)) =
      if q < n then handsTo q (did t (f t q)) else [] := by
  subst ht
  induction n with
  | zero => simp [did]
  | succ n ih =>
    have hn := hf.range_leads h n
    rw [List.range_succ, List.foldl_append, List.foldl_cons, List.foldl_nil,
      did_trans hn.suffix (hf.leads _ n hn.tracked).suffix, handsTo_append, ih]
    rcases lt_trichotomy q n with hlt | rfl | hgt
    · rw [hf.handsTo_ne hn.tracked hlt.ne', if_pos hlt, if_pos (by omega), List.nil_append]
    · rw [if_neg (lt_irrefl q), if_pos (by omega), List.append_nil]
    · rw [hf.handsTo_ne hn.tracked hgt.ne, if_neg (by omega), if_neg (by omega), List.append_nil]

end Visits

theorem isOpen_lt {s : Hub} (h : Tracked s) {q : ℕ} (ho : (s.peers q).isOpen = true) :
    q < s.peers.size := by
  by_contra hc
  rw [h.tidy.peers q (by omega)] at ho
  cases ho

theorem setRssi_self (hdr : VbtFrameHdr) :
    { hdr with rssi := Int8.ofInt hdr.rssi.toInt } = hdr := by
  rw [Int8.ofInt_toInt]

/-- One iteration of a sweep. -/
def sweepOne (s : Hub) (sel : Peer → Bool) (src : ℕ) (hdr : VbtFrameHdr) (pdu : List UInt8)
    (i : ℕ) :
    Hub :=
  if i ≠ src && (s.peers i).isOpen && sel (s.peers i) then s.deliverToPeer i hdr pdu hdr.rssi.toInt
  else s

theorem sweepOne_visits (sel : Peer → Bool) (src : ℕ) (hdr : VbtFrameHdr) (pdu : List UInt8) :
    Visits hdr pdu fun s i => s.sweepOne sel src hdr pdu i := by
  refine ⟨fun t i => ?_, fun t i ht => ?_⟩ <;> dsimp only [sweepOne] <;> split_ifs
  · exact deliverToPeer_touches t i hdr pdu _
  · exact .refl t
  · exact deliverToPeer_delivers ht i hdr pdu _
  · exact .refl ht

/-- A sweep hands the frame to the selected open peers but the source, once to each. -/
theorem handsTo_sweep {s : Hub} (h : Tracked s) (sel : Peer → Bool) (src : ℕ) (hdr : VbtFrameHdr)
    (pdu : List UInt8) (q : ℕ) :
    handsTo q (did s (s.sweep sel src hdr pdu)) =
      if q ≠ src ∧ (s.peers q).isOpen = true ∧
          sel (s.peers q) = true then [⟨hdr, pdu⟩] else [] := by
  have hv := sweepOne_visits sel src hdr pdu
  have hturn := hv.peers s (le_refl q)
  have htrack := (hv.range_leads h q).tracked
  rw [show s.sweep sel src hdr pdu =
      (List.range s.peers.size).foldl (fun s i => s.sweepOne sel src hdr pdu i) s from rfl,
    hv.handsTo_range h s.peers.size q rfl]
  generalize (List.range q).foldl _ s = t at hturn htrack
  simp only [sweepOne, hturn]
  by_cases hc : q ≠ src ∧ (s.peers q).isOpen = true ∧ sel (s.peers q) = true
  · obtain ⟨hne, hopen, hsel⟩ := hc
    rw [if_pos (isOpen_lt h hopen), if_pos (by simp [hne, hopen, hsel]), if_pos ⟨hne, hopen, hsel⟩,
      handsTo_deliverToPeer htrack, setRssi_self]
  · have hcond : ¬ (decide (q ≠ src) && (s.peers q).isOpen && sel (s.peers q)) = true := by
      simpa [and_assoc] using hc
    rw [if_neg hcond, if_neg hc]
    simp [did]

/-! ### The broadcast -/

theorem fanOutOne_visits (src : ℕ) (node : Option ℕ) (hdr : VbtFrameHdr) (pdu : List UInt8) :
    Visits hdr pdu fun s i => s.fanOutOne src node hdr pdu i := by
  refine ⟨fun t i => ?_, fun t i ht => ?_⟩ <;> dsimp only [fanOutOne] <;> split_ifs
  · exact .refl t
  · exact deliverToPeer_touches t i hdr pdu _
  · split
    · exact .refl t
    · exact deliverHeard_touches t node _ i hdr pdu
  · exact .refl ht
  · exact deliverToPeer_delivers ht i hdr pdu _
  · split
    · exact .refl ht
    · exact deliverHeard_leads ht node _ i hdr pdu

/-- The state in which the broadcast loop comes to peer `q`. -/
def atTurn (s : Hub) (src : ℕ) (node : Option ℕ) (hdr : VbtFrameHdr) (pdu : List UInt8) (q : ℕ) :
    Hub :=
  (List.range q).foldl (fun s i => s.fanOutOne src node hdr pdu i) s

/-- What is handed to the peer of a node of which `propagate` had this outcome. -/
def Heard.copies (h : Heard) (hdr : VbtFrameHdr) (pdu : List UInt8) : List Frame :=
  if h.ok then [⟨{ hdr with rssi := Int8.ofInt h.rssi }, pdu⟩] else []

/-- The broadcast hands the frame to the bridges, and to the peers of the nodes that hear it. -/
theorem handsTo_fanOut {s : Hub} (h : Tracked s) (src : ℕ) (node : Option ℕ) (hdr : VbtFrameHdr)
    (pdu : List UInt8) (q : ℕ) {t : Hub} (ht : s.atTurn src node hdr pdu q = t) :
    handsTo q (did s (s.fanOut src node hdr pdu)) =
      if q = src ∨ (s.peers q).isOpen = false then []
      else if (s.peers q).isBridge = true then [⟨hdr, pdu⟩]
      else match (s.peers q).nodeIdx with
        | none => []
        | some k =>
          (t.propagate (node.map t.nodes) (t.nodes k) hdr.txPowerDbm hdr.rssi).copies hdr pdu := by
  have hv := fanOutOne_visits src node hdr pdu
  have hturn := hv.peers s (le_refl q)
  have htrack := (hv.range_leads h q).tracked
  rw [fanOut, hv.handsTo_range h s.peers.size q ht]
  rw [show (List.range q).foldl (fun s i => s.fanOutOne src node hdr pdu i) s = t from ht]
    at hturn htrack
  simp only [fanOutOne, hturn]
  by_cases hskip : q = src ∨ (s.peers q).isOpen = false
  · have hcond : (decide (q = src) || !(s.peers q).isOpen) = true := by simpa using hskip
    rw [if_pos hcond, if_pos hskip]
    simp [did]
  have hcond : ¬ (decide (q = src) || !(s.peers q).isOpen) = true := by simpa using hskip
  rw [if_neg hcond, if_neg hskip]
  rw [not_or, Bool.not_eq_false] at hskip
  rw [if_pos (isOpen_lt h hskip.2)]
  by_cases hbr : (s.peers q).isBridge = true
  · rw [if_pos hbr, if_pos hbr, handsTo_deliverToPeer htrack, setRssi_self]
  rw [if_neg hbr, if_neg hbr]
  cases (s.peers q).nodeIdx with
  | none => simp [did]
  | some k => exact handsTo_deliverHeard htrack node k q hdr pdu rfl

/-! ### The air during the broadcast -/

/-- Two states agree on what `propagate` reads but for the random draws made on the way. -/
structure Drifts (s s' : Hub) : Prop where
  air : SameAir { s with kern := { s.kern with rand := s'.kern.rand } } s'
  rand : s'.kern.rand <:+ s.kern.rand

theorem SameAir.drifts {s s' : Hub} (h : SameAir s s') : Drifts s s' :=
  ⟨⟨h.overrides, h.exponent, rfl, h.sqrt, h.log10, h.radio⟩, h.rand ▸ List.suffix_rfl⟩

theorem Drifts.trans {s s' s'' : Hub} (h : Drifts s s') (h' : Drifts s' s'') : Drifts s s'' :=
  ⟨⟨h'.air.overrides.trans h.air.overrides, h'.air.exponent.trans h.air.exponent, rfl,
    h'.air.sqrt.trans h.air.sqrt, h'.air.log10.trans h.air.log10,
    fun k => (h'.air.radio k).trans (h.air.radio k)⟩, h'.rand.trans h.rand⟩

theorem propagate_drifts (s : Hub) (tx : Option Node) (rx : Node) (p r : Int8) :
    Drifts s { s with kern := (s.propagate tx rx p r).kern } := by
  obtain ⟨rand, hk, hsuf⟩ := propagate_kern s tx rx p r
  rw [hk]
  exact ⟨.refl _, hsuf⟩

theorem deliverHeard_drifts (s : Hub) (node : Option ℕ) (k dst : ℕ) (hdr : VbtFrameHdr)
    (pdu : List UInt8) : Drifts s (s.deliverHeard node k dst hdr pdu) := by
  have hk := propagate_drifts s (node.map s.nodes) (s.nodes k) hdr.txPowerDbm hdr.rssi
  simp only [deliverHeard]
  generalize s.propagate (node.map s.nodes) (s.nodes k) hdr.txPowerDbm hdr.rssi = heard at hk
  split_ifs
  · exact hk.trans (deliverToPeer_air _ dst hdr pdu _).drifts
  · have hmod : SameAir { s with kern := heard.kern }
        (({ s with kern := heard.kern } : Hub).modNode k fun nd =>
          { nd with rxDropped := nd.rxDropped + 1 }) := by
      refine (SameAir.refl _).thenNode k ?_
      exact fun _ => rfl
    refine hk.trans (hmod.trans ?_).drifts
    exact ⟨rfl, rfl, rfl, rfl, rfl, fun _ => rfl⟩

theorem fanOutOne_drifts (s : Hub) (src : ℕ) (node : Option ℕ) (hdr : VbtFrameHdr)
    (pdu : List UInt8)
    (i : ℕ) : Drifts s (s.fanOutOne src node hdr pdu i) := by
  have hrefl : Drifts s s := (SameAir.refl s).drifts
  unfold fanOutOne
  split_ifs
  · exact hrefl
  · exact (deliverToPeer_air s i hdr pdu _).drifts
  · split
    · exact hrefl
    · exact deliverHeard_drifts s node _ i hdr pdu

theorem atTurn_drifts (s : Hub) (src : ℕ) (node : Option ℕ) (hdr : VbtFrameHdr) (pdu : List UInt8)
    (q : ℕ) : Drifts s (s.atTurn src node hdr pdu q) :=
  List.foldlRecOn (motive := Drifts s) _ _ (SameAir.refl s).drifts fun t ht i _ =>
    ht.trans (fanOutOne_drifts t src node hdr pdu i)

theorem snooped_air (s : Hub) (node : Option ℕ) (pdu : List UInt8) :
    SameAir s (s.snooped node pdu) := by
  unfold snooped
  split_ifs
  · obtain ⟨-, heq⟩ | ⟨-, -, -, heq⟩ | ⟨s', c, -, he, heq⟩ := observeConnectInd_cases s node pdu <;>
      rw [heq]
    · exact .refl s
    · exact ⟨rfl, rfl, rfl, rfl, rfl, fun _ => rfl⟩
    · obtain ⟨d, -, hd⟩ | ⟨d, conns, -, -, hd⟩ | ⟨-, -, hd⟩ := connEntry_cases s (indAA pdu) <;>
        rw [hd] at he <;> cases he
      · exact ⟨rfl, rfl, rfl, rfl, rfl, fun _ => rfl⟩
      · exact ⟨rfl, rfl, rfl, rfl, rfl, fun _ => rfl⟩
  · exact .refl s

/-- The outcome of `propagate` for node `k` on the tables of `s`, with the random draws `rand` still
to come. -/
def hearing (s : Hub) (rand : List ℕ) (node : Option ℕ) (k : ℕ) (hdr : VbtFrameHdr) : Heard :=
  ({ s with kern := { s.kern with rand } } : Hub).propagate (node.map s.nodes) (s.nodes k)
    hdr.txPowerDbm hdr.rssi

theorem Drifts.copies {s t : Hub} (h : Drifts s t) (node : Option ℕ) (k : ℕ) (hdr : VbtFrameHdr)
    (pdu : List UInt8) :
    (t.propagate (node.map t.nodes) (t.nodes k) hdr.txPowerDbm hdr.rssi).copies hdr pdu =
      (s.hearing t.kern.rand node k hdr).copies hdr pdu := by
  cases node with
  | none => rfl
  | some i =>
    obtain ⟨hok, hrssi⟩ := propagate_congr h.air (h.air.radio i) (h.air.radio k) hdr.txPowerDbm hdr.rssi
    simp only [Heard.copies, hearing, Option.map_some]
    rw [hok, hrssi]
    rfl

/-! ### An advertising frame -/

/-- The header as the hub hands it on: with the TTL of `forward_frame`. -/
def stamped (bridge : Bool) (hdr : VbtFrameHdr) : VbtFrameHdr :=
  { hdr with flags := { hdr.flags with b3 := if bridge then hdr.flags.b3 - 1 else 8 } }

theorem ttlStep_stamped {bridge : Bool} {hdr : VbtFrameHdr} (h : bridge = true → hdr.flags.b3 ≠ 0) :
    ttlStep bridge hdr = some (stamped bridge hdr) := by
  cases bridge with
  | false => rfl
  | true =>
    unfold ttlStep
    rw [if_pos rfl, if_neg (h rfl)]
    rfl

/-- The random draws still to come when the broadcast of a frame reaches peer `q`. -/
def drawsAt (s : Hub) (kern : Kern) (src : ℕ) (hdr : VbtFrameHdr) (pdu : List UInt8) (q : ℕ) :
    List ℕ :=
  ((((s.ready kern src).tapped src hdr pdu).snooped (s.peers src).nodeIdx pdu).atTurn src
    (s.peers src).nodeIdx hdr pdu q).kern.rand

theorem snooped_peers (s : Hub) (node : Option ℕ) (pdu : List UInt8) :
    (s.snooped node pdu).peers = s.peers := by
  unfold snooped
  split_ifs
  · obtain ⟨-, heq⟩ | ⟨-, -, -, heq⟩ | ⟨s', c, -, he, heq⟩ := observeConnectInd_cases s node pdu <;>
      rw [heq]
    · rfl
    · obtain ⟨d, -, hd⟩ | ⟨d, conns, -, -, hd⟩ | ⟨-, -, hd⟩ := connEntry_cases s (indAA pdu) <;>
        rw [hd] at he <;> cases he <;> rfl
  · rfl

/-- A sweep leaves the peers that it does not select alone. -/
theorem peers_sweep {s : Hub} {sel : Peer → Bool} {q : ℕ} (hsel : sel (s.peers q) = false) (src : ℕ)
    (hdr : VbtFrameHdr) (pdu : List UInt8) : (s.sweep sel src hdr pdu).peers q = s.peers q := by
  refine List.foldlRecOn (motive := fun t : Hub => t.peers q = s.peers q) _ _ rfl fun t ht i _ => ?_
  by_cases hi : q = i
  · subst hi
    rw [ht, hsel, Bool.and_false, if_neg Bool.false_ne_true]
    exact ht
  · exact (((sweepOne_visits sel src hdr pdu).touches t i).peers q hi).trans ht

/-- The frames handed over are those of the broadcast and those for the monitors. -/
theorem handsTo_forwardFrame_adv {s : Hub} {src : ℕ} {hdr hdr' : VbtFrameHdr} (h : Tracked s)
    (ho : (s.peers src).isOpen = true) (httl : ttlStep (s.peers src).isBridge hdr = some hdr')
    (hadv : hdr'.llType = VBT_LL_ADV) (pdu : List UInt8) (q : ℕ) {t : Hub}
    (ht : (s.tapped src hdr' pdu).snooped (s.peers src).nodeIdx pdu = t) :
    handsTo q (did s (s.forwardFrame src hdr pdu)) =
      handsTo q (did t (t.fanOut src (s.peers src).nodeIdx hdr' pdu)) ++
        if q ≠ src ∧ (s.peers q).isOpen = true ∧ (s.peers q).isMonitor = true then [⟨hdr', pdu⟩]
        else [] := by
  subst ht
  have hacc := accounted_leads h ho hdr' pdu
  have htap := tapped_leads h ho hdr' pdu
  have hsn := snooped_leads htap.tracked (tapped_active h ho hdr' pdu) pdu
  have hfan := fanOut_leads hsn.tracked src (s.peers src).nodeIdx hdr' pdu
  obtain ⟨st, hst⟩ := forwardAdv_eq (s.tapped src hdr' pdu) src (s.peers src).nodeIdx hdr' pdu
  have hstats : ∀ u : Hub, did s (u.modStats st) = did s u := fun _ => rfl
  have hpeers : (s.accounted src hdr' pdu).peers = s.peers := (learnTx_rest s _ hdr').1
  -- neither the accounting nor the snooping hands anything over
  have hnil : handsTo q (did (s.tapped src hdr' pdu)
      ((s.tapped src hdr' pdu).snooped (s.peers src).nodeIdx pdu)) = [] := by
    refine handsTo_eq_nil fun g hg => ?_
    obtain ⟨-, slot, hs⟩ := hsn.did_forall hg
    cases hs
  have hnil' : handsTo q (did s (s.accounted src hdr' pdu)) = [] := by
    refine handsTo_eq_nil fun g hg => ?_
    cases hacc.did_forall hg
  rw [forwardFrame_adv httl hadv, hst, hstats,
    did_trans (hacc.suffix.trans (htap.suffix.trans hsn.suffix)) hfan.suffix,
    did_trans (hacc.suffix.trans htap.suffix) hsn.suffix, did_trans hacc.suffix htap.suffix]
  simp only [handsTo_append, hnil, hnil', List.nil_append, List.append_nil]
  rw [tapped, handsTo_sweep hacc.tracked, hpeers]

section Adv

variable {s : Hub} {src : ℕ} {payload : List UInt8} {f : Frame}

/-- **What each peer is handed of an advertising frame**: monitors and bridges get a copy, the peer
of a node gets one if the node hears the frame. -/
theorem handsTo_receive_adv (h : Tracked s) (hd : Disciplined s.log s.router)
    (ho : (s.peers src).isOpen = true) (hf : frameOf payload = some f)
    (hadv : f.hdr.llType = VBT_LL_ADV) (httl : (s.peers src).isBridge = true → f.hdr.flags.b3 ≠ 0)
    (kern : Kern) (q : ℕ) {hdr : VbtFrameHdr} (hhdr : stamped (s.peers src).isBridge f.hdr = hdr) :
    handsTo q (did s (s.receive kern src payload)) =
      if q = src ∨ (s.peers q).isOpen = false then []
      else if (s.peers q).isMonitor = true ∨ (s.peers q).isBridge = true then [⟨hdr, f.pdu⟩]
      else match (s.peers q).nodeIdx with
        | none => []
        | some k => (({ s with kern } : Hub).hearing (s.drawsAt kern src hdr f.pdu q)
            (s.peers src).nodeIdx k hdr).copies hdr f.pdu := by
  have hadv' : hdr.llType = VBT_LL_ADV := by
    rw [← hhdr]
    exact hadv
  have hrt := (ready_leads (P := fun _ => True) h kern src).tracked
  have hrouter : (s.ready kern src).router = s.router := (ready_alike s kern src).router_eq
  have hro := (ready_isOpen s kern src src).trans ho
  have hnode := ready_nodeIdx s kern src src
  have hbr := ready_isBridge s kern src src
  have hstep : ttlStep ((s.ready kern src).peers src).isBridge f.hdr = some hdr := by
    rw [hbr, ← hhdr]
    exact ttlStep_stamped httl
  have hview : ((s.ready kern src).peers q).view = (s.peers q).view :=
    (ready_alike s kern src).peer q
  have hair : SameAir { s with kern } (s.ready kern src) := ⟨rfl, rfl, rfl, rfl, rfl, fun _ => rfl⟩
  have hdid : did s (s.receive kern src payload) =
      did (s.ready kern src) ((s.ready kern src).forwardFrame src f.hdr f.pdu) := by
    rw [← receive_frame hf]
    rfl
  unfold drawsAt
  rw [hdid]
  generalize s.ready kern src = r at *
  simp only [Peer.view, Prod.mk.injEq] at hview
  obtain ⟨hqo, hqb, hqm, hqn⟩ := hview
  have htap := tapped_leads hrt hro hdr f.pdu
  have hsn := snooped_leads htap.tracked (tapped_active hrt hro hdr f.pdu) f.pdu
  have hpeers : (r.accounted src hdr f.pdu).peers = r.peers := (learnTx_rest r _ hdr).1
  rw [handsTo_forwardFrame_adv hrt hro hstep hadv' f.pdu q rfl,
    handsTo_fanOut hsn.tracked _ _ _ _ _ rfl, snooped_peers, hqo, hqm]
  cases hm : (s.peers q).isMonitor with
  | true =>
    -- a monitor is neither a bridge nor bound, so the broadcast passes it by
    have hshr := tapped_shrinks hrt hro hdr f.pdu
    obtain ⟨addrs, hacc⟩ := accounted_router r src hdr f.pdu hrt hro
    rw [hacc, hrouter] at hshr
    have hb : ¬ ((r.tapped src hdr f.pdu).peers q).isBridge = true := fun hc =>
      Bool.false_ne_true ((hd.bridge q (hshr.bridge q hc)).2.symm.trans hm)
    have hn : ((r.tapped src hdr f.pdu).peers q).nodeIdx = none := by
      cases hk : ((r.tapped src hdr f.pdu).peers q).nodeIdx with
      | none => rfl
      | some k => exact (hshr.nodeOf q k hk).symm.trans (hd.monitor q hm)
    rw [if_neg hb, hn, ite_self, List.nil_append]
    by_cases hskip : q = src ∨ (s.peers q).isOpen = false
    · rw [if_pos hskip, if_neg]
      rintro ⟨hne, hopen, -⟩
      simp [hne, hopen] at hskip
    · rw [if_neg hskip, if_pos (Or.inl rfl), if_pos]
      simpa using hskip
  | false =>
    -- the monitors' sweep passes it by
    have hsame : (r.tapped src hdr f.pdu).peers q = r.peers q := by
      rw [tapped, peers_sweep, hpeers]
      rw [hpeers, hqm, hm]
    have hdrift := (hair.trans (tapped_air hrt src hdr f.pdu)).drifts.trans
      ((snooped_air _ (s.peers src).nodeIdx f.pdu).drifts.trans
        (atTurn_drifts _ src (s.peers src).nodeIdx hdr f.pdu q))
    simp only [hsame, hqo, hqb, hqn, hnode, hdrift.copies, Bool.false_eq_true, and_false, if_false,
      false_or, List.append_nil]

/-- **Advertising fan-out is exact** in every run in which each peer says hello at most once and a
bridge never. An advertising frame of peer `src` that has not expired is handed once to every other
open monitor, once to every other open bridge, and once to every other open peer bound to a node
that hears it by the propagation model; to the sender and to every other peer it is not handed. The
copies differ from the frame in their TTL, and for nodes in the RSSI. -/
theorem adv_fanOut_exact (hr : Reachable s) (hone : OneHello s.log)
    (ho : (s.peers src).isOpen = true) (hf : frameOf payload = some f)
    (hadv : f.hdr.llType = VBT_LL_ADV) (httl : (s.peers src).isBridge = true → f.hdr.flags.b3 ≠ 0)
    (kern : Kern) {hdr : VbtFrameHdr} (hhdr : hdr = stamped (s.peers src).isBridge f.hdr)
    {given : ℕ → List Frame} (hgiven : given = fun q => handsTo q (did s (s.receive kern src payload))) :
    (∀ q, q ≠ src → (s.peers q).isOpen = true → (s.peers q).isMonitor = true →
      given q = [⟨hdr, f.pdu⟩]) ∧
    (∀ q, q ≠ src → (s.peers q).isOpen = true → (s.peers q).isBridge = true →
      given q = [⟨hdr, f.pdu⟩]) ∧
    (∀ q k, q ≠ src → (s.peers q).isOpen = true → (s.peers q).nodeIdx = some k →
      given q = (({ s with kern } : Hub).hearing (s.drawsAt kern src hdr f.pdu q)
        (s.peers src).nodeIdx k hdr).copies hdr f.pdu) ∧
    (∀ q, (q = src ∨ (s.peers q).isOpen = false ∨ ((s.peers q).isMonitor = false ∧
      (s.peers q).isBridge = false ∧ (s.peers q).nodeIdx = none)) → given q = []) := by
  have hd := hr.disciplined hone
  have hall := fun q => handsTo_receive_adv hr.tracked hd ho hf hadv httl kern q hhdr.symm
  subst hgiven
  refine ⟨fun q hne hopen hm => ?_, fun q hne hopen hb => ?_, fun q k hne hopen hk => ?_,
    fun q hq => ?_⟩
  · dsimp only
    rw [hall q, if_neg (by simp [hne, hopen]), if_pos (Or.inl hm)]
  · dsimp only
    rw [hall q, if_neg (by simp [hne, hopen]), if_pos (Or.inr hb)]
  · -- a bound peer is neither a monitor nor a bridge
    have hm : ¬ (s.peers q).isMonitor = true := fun hc =>
      Option.some_ne_none k (hk.symm.trans (hd.monitor q hc))
    have hb : ¬ (s.peers q).isBridge = true := fun hc =>
      Option.some_ne_none k (hk.symm.trans (hd.bridge q hc).1)
    dsimp only
    rw [hall q, if_neg (by simp [hne, hopen]), if_neg (not_or.2 ⟨hm, hb⟩), hk]
  · dsimp only
    rw [hall q]
    rcases hq with hsrc | hclosed | ⟨hm, hb, hn⟩
    · rw [if_pos (Or.inl hsrc)]
    · rw [if_pos (Or.inr hclosed)]
    · rw [hm, hb, hn]
      simp

end Adv

/-- Two nodes, a monitor, a bridge and a peer that has not said hello. -/
def crowdRun : List Event :=
  [.accept 5 false, .accept 6 false, .accept 7 false, .accept 8 true, .accept 9 false] ++
    sends 0 (helloPayload [0x41] 0) ++ sends 1 (helloPayload [0x42] 0) ++
    sends 2 (helloPayload [0x4D] VBT_HELLO_FLAG_MONITOR)

/-- The first node advertises, the sockets of the other node and of the monitor fail, and the bridge
still gets its copy. -/
theorem adv_fanOut_exact_crowd :
    handsTo 3 (did ((Hub.init 0).run crowdRun)
        (((Hub.init 0).run crowdRun).receive brokenPipe 0 bystanderAdv.payload)) =
      [⟨stamped false bystanderAdv.hdr, bystanderAdv.pdu⟩] ∧
    handsTo 4 (did ((Hub.init 0).run crowdRun)
        (((Hub.init 0).run crowdRun).receive brokenPipe 0 bystanderAdv.payload)) = [] := by
  have ho : (((Hub.init 0).run crowdRun).peers 0).isOpen = true := by decide +kernel
  have hf : frameOf bystanderAdv.payload = some bystanderAdv := by decide +kernel
  obtain ⟨-, hbr, -, hno⟩ := adv_fanOut_exact ⟨0, crowdRun, rfl⟩ (by decide +kernel) ho hf rfl
    (by decide +kernel) brokenPipe rfl rfl
  exact ⟨hbr 3 (by decide) (by decide +kernel) (by decide +kernel), hno 4 (by decide +kernel)⟩

end Hub
end Vbt
