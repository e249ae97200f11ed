import Vbt.Hub.Churn
import Vbt.Hub.FanOut

/-!
# Third parties

What a frame of a peer that is neither end of a connection does to the connection, in every
reachable state.

* `link_ne_of_closed`, `link_of_takeover`: how the endpoints of a connection are lost;
* `InReach`: the peers that a data frame of a third party gets to; `handed_iff`;
* `third_party_confined_iff`: the connection is left alone exactly if the frame is not a
  CONNECT_IND that takes it over, not a data frame of it that gets to an end, and no socket of an
  end fails.
-/

namespace Vbt
namespace Hub

open Router

/-! ### The endpoints -/

section Endpoints

variable {s s' : Hub} {src : ℕ} {kern : Kern} {payload : List UInt8} {f : Frame} {aa : UInt32}
  {e : Ends} (h : Tracked s) (ho : (s.peers src).isOpen = true) (hf : frameOf payload = some f)
  (hs' : s.receive kern src payload = s')
include h ho hf hs'

/-- A peer that is closed takes the connections of its node with it. -/
theorem link_ne_of_closed
    (hsnoop : ¬ (f.hdr.llType = VBT_LL_ADV ∧ Snoops f.pdu ∧ indAA f.pdu = aa)) {p : ℕ}
    (hp : Act.closed p ∈ did s s') (hhas : e.has (s.peers p).nodeIdx = true) :
    s'.router.link aa ≠ some e := by
  have hl := receive_forwards h ho hf kern
  have hno : ∀ a ∈ did s (s.receive kern src payload), ∀ x y slot, a ≠ .snooped aa x y slot := by
    rintro a ha x y slot rfl
    obtain ⟨hadv, hind, haa, -⟩ := snooped_of_receive h ho hf ha
    exact hsnoop ⟨hadv, hind, haa.symm⟩
  rw [hs'] at hl hno
  have hfw : ∀ a ∈ did s s', ∃ hdr', Forwarding src (s.peers src).nodeIdx hdr' f.pdu a :=
    fun a ha => (hl.did_forall ha).imp fun _ hfw => hfw.2
  have hlegal := hl.tracked.legal
  rw [hl.tracked.router]
  rw [did_append hl.suffix] at hlegal ⊢
  generalize did s s' = new at hp hfw hno hlegal
  obtain ⟨later, earlier, rfl⟩ := List.append_of_mem hp
  rw [List.append_assoc, List.cons_append] at hlegal ⊢
  obtain ⟨hen, hlegal'⟩ : _ ∧ medium.Legal (earlier ++ s.log) := Throughout.of_append hlegal
  -- until then the peer speaks for the node it spoke for
  have hnode : (medium.replay (earlier ++ s.log)).nodeOf p = (s.peers p).nodeIdx := by
    refine hlegal'.invariant_since (I := fun r => r.isOpen p = true → r.nodeOf p = (s.peers p).nodeIdx)
      (P := fun a => ∃ hdr', Forwarding src (s.peers src).nodeIdx hdr' f.pdu a) ?_ ?_ ?_
        (show Router.isOpen _ p = true from hen)
    · exact fun _ => h.router ▸ rfl
    · rintro t a - ih - ⟨hdr', hfa⟩ hopen
      cases hfa with
      | frame =>
        obtain ⟨addrs, hr⟩ := (medium.replay t).apply_frame src hdr' f.pdu
        rw [medium_apply, hr] at hopen ⊢
        exact ih hopen
      | snooped b slot => cases slot <;> exact ih hopen
      | delivery hd =>
        cases hd with
        | closed =>
          simp only [medium_apply, Router.apply, Router.close] at hopen ⊢
          split_ifs at hopen ⊢
          exact ih hopen
        | hand | wrote | dropped => exact ih hopen
    · exact fun a ha => hfw a (List.mem_append_right _ (List.mem_cons_of_mem _ ha))
  refine hlegal.invariant_since (I := fun r => r.link aa ≠ some e)
    (P := fun a => ∀ x y slot, a ≠ .snooped aa x y slot) (fun hlink => ?_)
    (fun t a _ ih _ ha hlink => ih ((link_apply_iff ha).1 hlink).1)
    fun a ha => hno a (List.mem_append_left _ ha)
  have hfree := (link_of_close.1 hlink).2
  rw [hnode, hhas] at hfree
  cases hfree

/-- A CONNECT_IND with the Access Address of a connection makes its sender the first endpoint. -/
theorem link_of_takeover (hloc : (s.peers src).isBridge = false)
    (hadv : f.hdr.llType = VBT_LL_ADV) (hind : Snoops f.pdu)
    (hlink : s.router.link (indAA f.pdu) ≠ none)
    (he : s'.router.link (indAA f.pdu) = some e) : e.a = (s.peers src).nodeIdx := by
  subst hs'
  obtain ⟨b, slot, later, earlier, hdr', hdid, hlater, -, -, -, hslot⟩ :=
    receive_connectInd h ho hf hadv hind (ttlStep_local hloc f.hdr) kern
  cases slot with
  | none => exact absurd ((mem_linked h.tidy).2 (Option.ne_none_iff_exists'.1 hlink)) (hslot rfl).2
  | some c =>
    have hl := receive_leads h ho kern payload
    have hlegal := hl.tracked.legal
    rw [hl.tracked.router] at he
    rw [did_append hl.suffix, hdid, List.append_assoc, List.cons_append] at hlegal he
    have hshr := hlegal.invariant_since
      (I := Shrinks (medium.replay (.snooped (indAA f.pdu) (s.peers src).nodeIdx b (some c) ::
        (earlier ++ s.log)))) (P := OfSocket) (Shrinks.refl _)
      (fun _ a _ ht _ ha => ht.trans (Shrinks.apply _ ha)) fun a ha => by
        obtain ⟨q, -, hd⟩ := hlater a ha
        exact hd.ofSocket
    have hrec := hshr.link _ _ he
    simp only [Journal.replay_cons, medium_apply, Router.apply, record, if_true,
      Option.some.injEq] at hrec
    rw [← hrec]

end Endpoints

/-! ### Data frames -/

section Data

variable {s s' : Hub} {e : Ends}

section Ends

variable {P : Act → Prop} (hs : Tracked s) (h : Leads P s s') (hP : ∀ a, P a → OfSocket a)
  (hfree : ∀ q, Act.closed q ∈ did s s' → e.has (s.peers q).nodeIdx = false)
include hs h hP hfree

/-- Deliveries that close no peer of an endpoint leave the connection. -/
theorem Leads.link_end {aa : UInt32} (hlink : s.router.link aa = some e) :
    s'.router.link aa = some e := by
  have hlegal := h.tracked.legal
  rw [h.tracked.router]
  rw [did_append h.suffix] at hlegal ⊢
  rw [hs.router] at hlink
  refine link_deliveries hlegal (fun a ha => hP a (h.did_forall ha)) (fun q hq => ?_) hlink
  rw [← hs.router]
  exact hfree q hq

/-- They leave its node online. -/
theorem Leads.peerOf_end {k : ℕ} (hk : e.has (some k) = true) :
    s'.router.peerOf k = s.router.peerOf k := by
  have hlegal := h.tracked.legal
  have hnew : ∀ a ∈ did s s', OfSocket a := fun a ha => hP a (h.did_forall ha)
  rw [h.tracked.router, hs.router]
  rw [did_append h.suffix] at hlegal ⊢
  refine (hlegal.invariant_since (I := fun r => Shrinks (medium.replay s.log) r ∧
    r.peerOf k = (medium.replay s.log).peerOf k) (P := fun a => a ∈ did s s') ⟨.refl _, rfl⟩ ?_
    fun _ ha => ha).2
  rintro t a - ⟨hshr, ih⟩ - ha
  refine ⟨hshr.trans (Shrinks.apply _ (hnew a ha)), ?_⟩
  cases a with
  | closed q =>
    refine (if_neg fun hc => ?_).trans ih
    have hq := hshr.nodeOf q k hc.1
    rw [← hs.router] at hq
    have hno := hfree q ha
    rw [show (s.peers q).nodeIdx = some k from hq, hk] at hno
    cases hno
  | hand | wrote | dropped => exact ih
  | _ => exact (hnew _ ha).elim

end Ends

/-- Peer `p` gets a data frame of `src` that is routed to node `x`: it is a monitor or a bridge, or
the peer of `x`, which hears the frame. -/
def InReach (s : Hub) (src x : ℕ) (hdr : VbtFrameHdr) (p : ℕ) : Prop :=
  (p ≠ src ∧ ((s.peers p).isMonitor = true ∨ (s.peers p).isBridge = true)) ∨
    ((s.nodes x).peerIdx = some p ∧ (s.propagate ((s.peers src).nodeIdx.map s.nodes) (s.nodes x)
      hdr.txPowerDbm hdr.rssi).ok = true)

instance (s : Hub) (src x : ℕ) (hdr : VbtFrameHdr) (p : ℕ) : Decidable (s.InReach src x hdr p) :=
  inferInstanceAs (Decidable (_ ∨ _))

/-- Routing deals with no peer but the one of the endpoint, and with that only if it hears the
frame. -/
theorem peers_routed {node : Option ℕ} {hdr : VbtFrameHdr} {pdu : List UInt8} {c x p : ℕ}
    (hc : s.findConn hdr.accessAddr = some c) (hother : otherEnd node (s.conns c) = some x)
    (hno : (s.nodes x).peerIdx = some p →
      (s.propagate (node.map s.nodes) (s.nodes x) hdr.txPowerDbm hdr.rssi).ok = false) :
    (s.routed node hdr pdu).peers p = s.peers p := by
  simp only [routed, hc, hother, routeTo]
  split_ifs
  · rfl
  · split
    · rfl
    · rename_i dst hdst
      by_cases hp : dst = p
      · have hok := hno (hdst.trans (congrArg some hp))
        simp only [deliverHeard]
        rw [if_neg]
        · rfl
        · rw [Bool.not_eq_true]
          exact hok
      · exact (deliverHeard_touches _ node x dst hdr pdu).peers p (Ne.symm hp)

/-- What routing hands over. -/
theorem handed_routed_iff (h : Tracked s) {node : Option ℕ} {hdr : VbtFrameHdr} (pdu : List UInt8)
    {c x : ℕ} (hc : s.findConn hdr.accessAddr = some c)
    (hother : otherEnd node (s.conns c) = some x) (hact : (s.nodes x).active = true) (p : ℕ) :
    handsTo p (did s (s.routed node hdr pdu)) ≠ [] ↔ (s.nodes x).peerIdx = some p ∧
      (s.propagate (node.map s.nodes) (s.nodes x) hdr.txPowerDbm hdr.rssi).ok = true := by
  have hlink : s.router.link hdr.accessAddr = some (s.conns c).ends := by simp [Hub.router, hc]
  have hoe : (if (s.conns c).ends.a = node then (s.conns c).ends.b else (s.conns c).ends.a) = some x :=
    (otherEnd_eq node (s.conns c)).symm.trans hother
  by_cases hp : (s.nodes x).peerIdx = some p
  · rw [handsTo_routed h pdu hlink hoe hact hp rfl]
    simp [hp]
  · refine iff_of_false (not_not.2 (handsTo_eq_nil fun g hg => hp ?_)) fun hc => hp hc.1
    obtain ⟨q, ⟨c', o, hc', hoe', hq⟩, hd⟩ := (routed_leads h node hdr pdu).did_forall hg
    cases hd
    obtain rfl : c = c' := Option.some.inj (hc.symm.trans hc')
    rw [Option.some.inj (hother.symm.trans hoe')]
    exact hq

/-- Monitors and bridges are open. -/
theorem Tracked.isOpen (h : Tracked s) {p : ℕ}
    (hp : (s.peers p).isMonitor = true ∨ (s.peers p).isBridge = true) :
    (s.peers p).isOpen = true := by
  by_contra hc
  have ho : s.router.isOpen p = false := Bool.eq_false_of_not_eq_true hc
  rcases hp with hp | hp
  · exact Bool.false_ne_true ((h.blank.monitor p ho).symm.trans hp)
  · exact Bool.false_ne_true ((h.blank.bridge p ho).symm.trans hp)

/-- What forwarding hands over, while no socket of an end fails. -/
theorem handed_forwardFrame_iff (h : Tracked s) {src p x : ℕ} (ho : (s.peers src).isOpen = true)
    (hloc : (s.peers src).isBridge = false) {hdr : VbtFrameHdr} {pdu : List UInt8}
    (hdata : hdr.llType = VBT_LL_DATA) (hlink : s.router.link hdr.accessAddr = some e)
    (hx : e.a = some x) (hsrc : (s.peers src).nodeIdx ≠ some x)
    (hfree : ∀ q, Act.closed q ∈ did s (s.forwardFrame src hdr pdu) →
      e.has (s.peers q).nodeIdx = false) :
    handsTo p (did s (s.forwardFrame src hdr pdu)) ≠ [] ↔ s.InReach src x hdr p := by
  obtain ⟨hdr', httl⟩ := Option.ne_none_iff_exists'.1 (ttlStep_local hloc hdr)
  have hhdr : hdr'.llType = VBT_LL_DATA ∧ hdr'.accessAddr = hdr.accessAddr ∧
      hdr'.txPowerDbm = hdr.txPowerDbm ∧ hdr'.rssi = hdr.rssi := by
    obtain ⟨flags, rfl⟩ := ttlStep_eq_some httl
    exact ⟨hdata, rfl, rfl, rfl⟩
  obtain ⟨hdata', haa, htx, hrssi⟩ := hhdr
  rw [← haa] at hlink
  have hacc := accounted_leads h ho hdr' pdu
  have htap := tapped_leads h ho hdr' pdu
  have hshr := tapped_shrinks h ho hdr' pdu
  have hpeers : (s.accounted src hdr' pdu).peers = s.peers := (learnTx_rest s _ hdr').1
  obtain ⟨addrs, haccr⟩ := accounted_router s src hdr' pdu h ho
  have hmon : handsTo p (did (s.accounted src hdr' pdu) (s.tapped src hdr' pdu)) = _ :=
    handsTo_sweep hacc.tracked Peer.isMonitor src hdr' pdu p
  have hair := (propagate_congr_node (tapped_air h src hdr' pdu) (s.peers src).nodeIdx x
    hdr'.txPowerDbm hdr'.rssi).1
  have hkept : (s.peers p).isMonitor = false → (s.tapped src hdr' pdu).peers p = s.peers p :=
    fun hm => (peers_sweep (by rw [hpeers]; exact hm) src hdr' pdu).trans (by rw [hpeers])
  rw [did_data h ho httl hdata' rfl rfl] at hfree ⊢
  generalize s.tapped src hdr' pdu = t at *
  generalize s.accounted src hdr' pdu = acc at *
  -- the monitors take no end with them
  have hclosed : ∀ q, Act.closed q ∈ did acc t → e.has (acc.peers q).nodeIdx = false := fun q hq => by
    rw [hpeers]
    exact hfree q (by simp [hq])
  have hlink' := htap.link_end hacc.tracked DeliveryTo.ofSocket hclosed
    (show acc.router.link hdr'.accessAddr = some e by rw [haccr]; exact hlink)
  have hpeer : (t.nodes x).peerIdx = (s.nodes x).peerIdx :=
    (htap.peerOf_end hacc.tracked DeliveryTo.ofSocket hclosed (Ends.has_some.2 (.inl hx))).trans
      (by rw [haccr]; rfl)
  obtain ⟨c, hc, hends⟩ := Option.map_eq_some_iff.1 hlink'
  have hother : otherEnd (s.peers src).nodeIdx (t.conns c) = some x := by
    have ha : (t.conns c).nodeA = some x := (congrArg Ends.a hends).trans hx
    rw [otherEnd_eq, ha, if_neg (Ne.symm hsrc)]
  have hroute := handed_routed_iff htap.tracked pdu hc hother
    (htap.tracked.blank.linked _ e x hlink' (Ends.has_some.2 (.inl hx))) p
  have hled := routed_leads htap.tracked (s.peers src).nodeIdx hdr' pdu
  have hbr := handsTo_sweep hled.tracked Peer.isBridge src hdr' pdu p
  have hshr' := (hled.shrinks htap.tracked DeliveryTo.ofSocket).bridge p
  rw [hpeer, hair, htx, hrssi] at hroute
  simp only [handsTo_append, ne_eq, List.append_eq_nil_iff, not_and_or]
  rw [← ne_eq, hbr]
  by_cases hm : p ≠ src ∧ (s.peers p).isMonitor = true
  · refine iff_of_true (.inr (.inr (.inl ?_))) (.inl ⟨hm.1, .inl hm.2⟩)
    rw [hmon, hpeers, if_pos ⟨hm.1, h.isOpen (.inl hm.2), hm.2⟩]
    exact List.cons_ne_nil _ _
  have hmon' : handsTo p (did acc t) = [] := by
    rw [hmon, hpeers, if_neg fun hc => hm ⟨hc.1, hc.2.2⟩]
  by_cases hr : (s.nodes x).peerIdx = some p ∧ (s.propagate ((s.peers src).nodeIdx.map s.nodes)
      (s.nodes x) hdr.txPowerDbm hdr.rssi).ok = true
  · exact iff_of_true (.inr (.inl (hroute.2 hr))) (.inr hr)
  have hsame : (s.peers p).isMonitor = false →
      (t.routed (s.peers src).nodeIdx hdr' pdu).peers p = s.peers p := fun hmf => by
    refine (peers_routed hc hother fun hp => ?_).trans (hkept hmf)
    rw [hair, htx, hrssi]
    exact Bool.eq_false_of_not_eq_true fun hok => hr ⟨hpeer ▸ hp, hok⟩
  rw [hmon', not_not.1 (mt hroute.1 hr)]
  simp only [InReach, hr, or_false, not_true_eq_false, handsTo, List.filterMap_cons_none,
    List.filterMap_nil]
  rw [ite_ne_right_iff]
  constructor
  · rintro ⟨⟨hps, -, hb⟩, -⟩
    refine ⟨hps, .inr ?_⟩
    have hbs : acc.router.bridge p = true := hshr.bridge p (hshr' hb)
    rw [haccr] at hbs
    exact hbs
  · rintro ⟨hps, hor⟩
    have hmf : (s.peers p).isMonitor = false := Bool.eq_false_of_not_eq_true fun hc => hm ⟨hps, hc⟩
    have hb : (s.peers p).isBridge = true := hor.resolve_left (by simp [hmf])
    rw [hsame hmf]
    exact ⟨⟨hps, h.isOpen (.inr hb), hb⟩, List.cons_ne_nil _ _⟩

/-- **Whom a data frame of a third party gets to**, while no socket of an end fails. -/
theorem handed_iff (h : Tracked s) {src p x : ℕ} (ho : (s.peers src).isOpen = true)
    (hloc : (s.peers src).isBridge = false) {payload : List UInt8} {f : Frame}
    (hf : frameOf payload = some f) (hdata : f.hdr.llType = VBT_LL_DATA)
    (hlink : s.router.link f.hdr.accessAddr = some e) (hx : e.a = some x)
    (hsrc : (s.peers src).nodeIdx ≠ some x) {kern : Kern}
    (hfree : ∀ q, Act.closed q ∈ did s (s.receive kern src payload) →
      e.has (s.peers q).nodeIdx = false) :
    handsTo p (did s (s.receive kern src payload)) ≠ [] ↔
      ({ s with kern } : Hub).InReach src x f.hdr p := by
  have hrouter : (s.ready kern src).router = s.router := (ready_alike s kern src).router_eq
  have hnode := ready_nodeIdx s kern src
  rw [receive_frame hf] at hfree ⊢
  have hfw := handed_forwardFrame_iff (p := p) (ready_leads (P := fun _ => True) h kern src).tracked
    ((ready_isOpen s kern src src).trans ho) ((ready_isBridge s kern src src).trans hloc)
    hdata (hrouter ▸ hlink) hx (hnode src ▸ hsrc) fun q hq => hnode q ▸ hfree q hq
  have hmon : ((s.ready kern src).peers p).isMonitor = (s.peers p).isMonitor :=
    congrFun (congrArg Router.monitor hrouter) p
  rw [InReach, hmon, ready_isBridge, hnode] at hfw
  exact hfw

end Data

/-- The same data frame, sent by `C`, and a CONNECT_IND of `C` with the Access Address of the
connection of `A` and `B`. -/
def takeover : Frame :=
  plainFrame VBT_LL_ADV VBT_ADV_ACCESS_ADDR (addr 3) (connectInd (addr 3) (addr 2) 0x50)

end Hub
end Vbt
