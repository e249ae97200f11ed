import Vbt.Hub.Broadcast

/-!
# Frames on a medium whose sockets do not fail

While no socket is closed, the hub only learns addresses and makes routes: the bindings stay, the
address of the sender is learned, and the links are those before and the one that a CONNECT_IND
makes.

* `NoClose`: no socket is closed between two states;
* `calm_message`: the event that handles a frame at the head of a receive buffer;
* `addrs_receive`, `bound_receive`: the tables after the frame;
* `idle_recv`, `idle_partial`, `idle_flush`: the events that forward nothing.
-/

namespace Vbt
namespace Hub

open Router

/-- No socket is closed between the two states. -/
def NoClose (s s' : Hub) : Prop := ∀ p, Act.closed p ∉ did s s'

/-! ### The tables after a frame -/

/-- The actions of forwarding that teach the hub no address. -/
def TeachesNothing : Act → Prop
  | .snooped _ _ _ _ => True
  | a => OfSocket a

theorem TeachesNothing.of_ofSocket {a : Act} (h : OfSocket a) : TeachesNothing a := by
  cases a with
  | snooped => trivial
  | _ => exact h

theorem TeachesNothing.addrs_apply {a : Act} (h : TeachesNothing a) (r : Router) :
    (r.apply a).addrs = r.addrs := by
  cases a with
  | snooped aa x y slot => cases slot <;> rfl
  | hand | wrote | dropped | closed => rfl
  | _ => exact absurd h id

theorem Leads.addrs {s s' : Hub} (hs : Tracked s) (h : Leads TeachesNothing s s') :
    s'.router.addrs = s.router.addrs := by
  obtain ⟨new, hlog, hnew, -⟩ := h.steps
  have hlegal := h.tracked.legal
  rw [hs.router, h.tracked.router, hlog]
  rw [hlog] at hlegal
  refine hlegal.invariant_since (I := fun r => r.addrs = (medium.replay s.log).addrs)
    (P := TeachesNothing) rfl (fun t a _ ht _ ha => ?_) hnew
  exact (ha.addrs_apply _).trans ht

/-- What forwarding does after the sender is accounted for. -/
theorem forwardFrame_rest {s : Hub} (h : Tracked s) {src : ℕ} (ho : (s.peers src).isOpen = true)
    {hdr hdr' : VbtFrameHdr} (httl : ttlStep (s.peers src).isBridge hdr = some hdr')
    (pdu : List UInt8) :
    Leads TeachesNothing (s.accounted src hdr' pdu) (s.forwardFrame src hdr pdu) := by
  have hsock : ∀ {Q : ℕ → Prop} (a : Act), DeliveryTo hdr' pdu Q a → TeachesNothing a :=
    fun a ha => .of_ofSocket (DeliveryTo.ofSocket a ha)
  have htap := (tapped_leads h ho hdr' pdu).mono hsock
  by_cases hadv : hdr'.llType = VBT_LL_ADV
  · have hsn := (snooped_leads htap.tracked (tapped_active h ho hdr' pdu) pdu).mono
      (Q := TeachesNothing) (by rintro a ⟨-, slot, rfl⟩; trivial)
    have hfan := (fanOut_leads hsn.tracked src (s.peers src).nodeIdx hdr' pdu).mono hsock
    obtain ⟨st, hst⟩ := forwardAdv_eq (s.tapped src hdr' pdu) src (s.peers src).nodeIdx hdr' pdu
    rw [forwardFrame_adv httl hadv, hst]
    exact ((htap.trans hsn).trans hfan).thenStats st
  by_cases hdata : hdr'.llType = VBT_LL_DATA
  · have hroute := (routed_leads htap.tracked (s.peers src).nodeIdx hdr' pdu).mono hsock
    have hbr := (sweep_bridges hroute.tracked src hdr' pdu).mono hsock
    obtain ⟨st, hst⟩ := forwardData_eq (s.tapped src hdr' pdu) src (s.peers src).nodeIdx hdr' pdu
    rw [forwardFrame_data httl hdata, hst]
    exact ((htap.trans hroute).trans hbr).thenStats st
  · rw [forwardFrame_other httl hadv hdata]
    exact htap

section Receive

variable {s : Hub} {src : ℕ} {payload : List UInt8} {f : Frame} (h : Tracked s)
  (ho : (s.peers src).isOpen = true) (hf : frameOf payload = some f)
include h ho hf

/-- The addresses known after a frame that has not expired: that of the sender was learned. -/
theorem addrs_receive (httl : ttlStep (s.peers src).isBridge f.hdr ≠ none) (kern : Kern) :
    (s.receive kern src payload).router.addrs = (s.router.apply (.frame src f.hdr f.pdu)).addrs := by
  have hrt : Tracked (s.ready kern src) := (ready_leads (P := fun _ => True) h kern src).tracked
  have hro : ((s.ready kern src).peers src).isOpen = true := (ready_isOpen s kern src src).trans ho
  have hrouter : (s.ready kern src).router = s.router := (ready_alike s kern src).router_eq
  have hbridge := ready_isBridge s kern src src
  rw [receive_frame hf]
  generalize s.ready kern src = r at hrt hro hrouter hbridge
  obtain ⟨hdr', httl'⟩ := Option.ne_none_iff_exists'.1 (hbridge ▸ httl)
  obtain ⟨flags, hflags⟩ := ttlStep_eq_some httl'
  have hacc := accounted_leads hrt hro hdr' f.pdu
  rw [(forwardFrame_rest hrt hro httl' f.pdu).addrs hacc.tracked, hacc.tracked.router,
    accounted_log,
    Journal.replay_cons, ← hrt.router, hrouter, hflags]
  rfl

variable {kern : Kern} (hcalm : NoClose s (s.receive kern src payload))
include hcalm

theorem bound_receive {p k : ℕ} (hb : Bound s.router p k) :
    Bound (s.receive kern src payload).router p k := by
  have hfw := receive_forwards h ho hf kern
  obtain ⟨new, hlog, hnew, -⟩ := hfw.steps
  have hlegal := hfw.tracked.legal
  have hdid : did s (s.receive kern src payload) = new := did_eq new hlog
  rw [hfw.tracked.router, hlog]
  rw [hlog] at hlegal
  rw [h.router] at hb
  refine hlegal.invariant_since (I := fun r => Bound r p k) (P := fun a => a ∈ new) hb ?_
    fun _ ha => ha
  rintro t a - hbt - ha
  obtain ⟨hdr', -, hact⟩ := hnew a ha
  cases hact with
  | frame =>
    obtain ⟨addrs, hr⟩ := (medium.replay t).apply_frame src hdr' f.pdu
    rw [medium_apply, hr]
    exact ⟨hbt.isOpen, hbt.nodeOf, hbt.peerOf⟩
  | snooped b slot => cases slot <;> exact ⟨hbt.isOpen, hbt.nodeOf, hbt.peerOf⟩
  | delivery hd =>
    cases hd with
    | closed =>
      rename_i q
      exact absurd (hdid ▸ ha) (hcalm q)
    | hand | wrote | dropped => exact hbt

end Receive

/-! ### Events -/

/-- An action other than a hello. -/
def Wordless : Act → Prop
  | .hello _ _ _ _ _ => False
  | _ => True

theorem OneHello.append {new old : List Act} (h : OneHello old) (hnew : ∀ a ∈ new, Wordless a) :
    OneHello (new ++ old) := by
  induction new with
  | nil => exact h
  | cons a new ih =>
    refine ⟨?_, ih fun b hb => hnew b (List.mem_cons_of_mem _ hb)⟩
    have ha := hnew a List.mem_cons_self
    cases a with
    | hello => exact absurd ha id
    | _ => trivial

theorem Forwarding.wordless {src : ℕ} {node : Option ℕ} {hdr : VbtFrameHdr} {pdu : List UInt8}
    {a : Act} (h : Forwarding src node hdr pdu a) : Wordless a := by
  cases h with
  | delivery hd => cases hd <;> trivial
  | _ => trivial

/-- What every event of a run without failing sockets keeps. -/
structure Proceeds (s s' : Hub) : Prop where
  tracked : Tracked s'
  suffix : s.log <:+ s'.log
  wordless : ∀ a ∈ did s s', Wordless a
  plain : Plain s → Plain s'

theorem Proceeds.oneHello {s s' : Hub} (h : Proceeds s s') (hone : OneHello s.log) :
    OneHello s'.log := by
  rw [did_append h.suffix]
  exact OneHello.append hone h.wordless

/-- **A frame at the head of a receive buffer** is handled and taken off the buffer. -/
theorem calm_message {s : Hub} (h : Tracked s) {p : ℕ} (ho : (s.peers p).isOpen = true)
    {payload rest : List UInt8} {f : Frame} (hf : frameOf payload = some f)
    (hbuf : (s.peers p).rxbuf = wire payload ++ rest) {kern : Kern}
    (hcalm : NoClose s (s.step (.message p kern))) :
    Proceeds s (s.step (.message p kern)) ∧
      did s (s.step (.message p kern)) = did s (s.receive kern p payload) ∧
      (s.step (.message p kern)).router = (s.receive kern p payload).router ∧
      ((s.step (.message p kern)).peers p).rxbuf = rest ∧
      ∀ q, q ≠ p → ((s.step (.message p kern)).peers q).rxbuf = (s.peers q).rxbuf := by
  have hlen := length_of_frameOf hf
  have hfw := receive_forwards h ho hf kern
  have hstep := (step_message_continues h kern ho hbuf hlen).1
  have hcalm' : NoClose s (s.receive kern p payload) := fun q hq => by
    refine hcalm q ?_
    rw [did_trans hfw.suffix hstep.suffix]
    exact List.mem_append_right _ hq
  have hkept : ((s.receive kern p payload).peers p).rxbuf = wire payload ++ rest :=
    (hfw.rxbuf (hcalm' p)).trans hbuf
  have heq : s.step (.message p kern) = (s.receive kern p payload).modPeer p fun q =>
      { q with rxbuf := q.rxbuf.drop (4 + payload.length) } := by
    rw [step_message kern ho hbuf hlen, if_neg]
    rw [hkept, List.length_append, wire_length]
    omega
  rw [heq]
  have hal : Alike (s.receive kern p payload) ((s.receive kern p payload).modPeer p fun q =>
      { q with rxbuf := q.rxbuf.drop (4 + payload.length) }) := by
    refine Alike.modPeer _ p ?_
    exact fun _ => rfl
  refine ⟨⟨hfw.tracked.alike hal rfl, hfw.suffix, fun a ha => ?_, fun hp => ?_⟩, rfl, hal.router_eq,
    ?_, fun q hq => ?_⟩
  · obtain ⟨hdr', -, hact⟩ := hfw.did_forall ha
    exact hact.wordless
  · exact ⟨(hfw.plain hp).overrides, (hfw.plain hp).posSet⟩
  · simp only [modPeer, Slots.modify_same, hkept]
    rw [← wire_length, List.drop_left]
  · simp only [modPeer, Slots.modify_of_ne _ _ hq]
    exact hfw.rxbuf (hcalm' q)

/-- The event forwards nothing: tables and receive buffers but that of `p` stay as they are. -/
structure Idle (s s' : Hub) : Prop extends Proceeds s s' where
  router : s'.router = s.router
  hands : ∀ q, handsTo q (did s s') = []

theorem Idle.of_alike {s s' : Hub} (h : Tracked s) (ha : Alike s s') (hlog : s'.log = s.log)
    (hp : Plain s → Plain s') : Idle s s' where
  tracked := h.alike ha hlog
  suffix := hlog ▸ List.suffix_rfl
  wordless a ha := by
    rw [did, hlog, since_self] at ha
    cases ha
  plain := hp
  router := ha.router_eq
  hands q := by
    rw [did, hlog, since_self]
    rfl

/-- A `read` that returns bytes appends them to the receive buffer. -/
theorem idle_recv {s : Hub} (h : Tracked s) {p : ℕ} (ho : (s.peers p).isOpen = true)
    {bytes : List UInt8} (hne : bytes ≠ [])
    (hfit : bytes.length ≤ VBT_RXBUF_SIZE - (s.peers p).rxbuf.length) :
    Idle s (s.step (.recv p (.data bytes))) ∧
      ((s.step (.recv p (.data bytes))).peers p).rxbuf = (s.peers p).rxbuf ++ bytes ∧
      ∀ q, q ≠ p → ((s.step (.recv p (.data bytes))).peers q).rxbuf = (s.peers q).rxbuf := by
  have heq : s.step (.recv p (.data bytes)) =
      s.modPeer p fun q => { q with rxbuf := q.rxbuf ++ bytes } := by
    simp only [step, if_pos ho, recvBytes, List.take_of_length_le hfit]
    rw [if_neg (by simpa using hne)]
  rw [heq]
  refine ⟨.of_alike h ?_ rfl fun hp => ⟨hp.overrides, hp.posSet⟩, ?_, fun q hq => ?_⟩
  · refine Alike.modPeer s p ?_
    exact fun _ => rfl
  · simp only [modPeer, Slots.modify_same]
  · simp only [modPeer, Slots.modify_of_ne _ _ hq]

theorem headLen_of_prefix {buf payload : List UInt8} (hpre : buf <+: wire payload)
    (h4 : 4 ≤ buf.length) (hlen : payload.length ≤ VBT_MAX_MSG_SIZE) :
    headLen buf = payload.length := by
  obtain ⟨more, hmore⟩ := hpre
  have hget : ∀ i < 4, buf.getD i 0 = (wire payload).getD i 0 := fun i hi => by
    rw [← hmore, List.getD_eq_getElem?_getD, List.getD_eq_getElem?_getD,
      List.getElem?_append_left (by omega)]
  rw [headLen, hget 0 (by omega), hget 1 (by omega), hget 2 (by omega), hget 3 (by omega)]
  refine be32_byteAt ?_
  have : VBT_MAX_MSG_SIZE < 2 ^ 32 := by decide
  omega

/-- Nothing happens as long as the message at the head of the buffer is not complete. -/
theorem idle_partial {s : Hub} (h : Tracked s) {p : ℕ} {payload : List UInt8}
    (hpre : (s.peers p).rxbuf <+: wire payload)
    (hshort : (s.peers p).rxbuf.length < 4 + payload.length)
    (hlen : payload.length ≤ VBT_MAX_MSG_SIZE) (kern : Kern) :
    Idle s (s.step (.message p kern)) ∧ (s.step (.message p kern)).peers = s.peers := by
  have hkern : Idle s { s with kern } :=
    .of_alike h (Alike.of_tables rfl rfl rfl) rfl fun hp => ⟨hp.overrides, hp.posSet⟩
  have heq : (({ s with kern } : Hub).peerReadableIter p).1 = { s with kern } := by
    by_cases h4 : (s.peers p).rxbuf.length < 4
    · simp only [peerReadableIter, if_pos h4]
    · have hhead := headLen_of_prefix hpre (by omega) hlen
      simp only [peerReadableIter, if_neg h4, hhead, if_neg (Nat.not_lt.2 hlen), if_pos hshort]
  simp only [step, heq]
  split_ifs
  · exact ⟨hkern, rfl⟩
  · exact ⟨.of_alike h (Alike.refl s) rfl id, rfl⟩

theorem Leads.idle {s s' : Hub} {p : ℕ} (hs : Tracked s) (h : Leads (Sending p) s s')
    (hcalm : NoClose s s') : Idle s s' where
  tracked := h.tracked
  suffix := h.suffix
  wordless a ha := by
    cases h.did_forall ha <;> trivial
  plain := h.plain
  router := by
    have hlegal := h.tracked.legal
    rw [hs.router, h.tracked.router, did_append h.suffix]
    rw [did_append h.suffix] at hlegal
    refine hlegal.invariant_since (I := fun r => r = medium.replay s.log)
      (P := fun a => a ∈ did s s') rfl ?_ fun _ ha => ha
    rintro t a - ht - ha
    cases h.did_forall ha with
    | closed => exact absurd ha (hcalm p)
    | wrote | dropped => exact ht
  hands q := handsTo_eq_nil fun f hf => by
    cases h.did_forall hf

/-- A flush writes what is in the backlog, and that is all while the socket does not fail. -/
theorem idle_flush {s : Hub} (h : Tracked s) {p : ℕ} {kern : Kern}
    (hcalm : NoClose s (s.step (.flush p kern))) :
    Idle s (s.step (.flush p kern)) ∧
      ∀ q, ((s.step (.flush p kern)).peers q).rxbuf = (s.peers q).rxbuf := by
  have hleads : Leads (Sending p) s (s.step (.flush p kern)) := by
    simp only [step]
    split_ifs
    · exact ((Leads.refl h).thenKern kern).trans (peerFlush_leads (h.setKern kern) p)
    · exact .refl h
  exact ⟨hleads.idle h hcalm, fun q => hleads.rxbuf (hcalm q)⟩

/-! ### A medium without settings -/

/-- A line on the control socket. -/
def Event.isControl : Event → Bool
  | .control _ => true
  | _ => false

/-- Only the control socket sets positions and overrides. -/
theorem Plain.step {s : Hub} (hp : Plain s) (h : Tracked s) {e : Event} (he : e.isControl = false) :
    Plain (s.step e) := by
  have hkern : ∀ kern, Plain { s with kern } := fun _ => ⟨hp.overrides, hp.posSet⟩
  have hclose := fun p => (peerClose_leads h p).plain hp
  refine step_rule e hp (fun fd bridge => ?_) (fun _ _ ht => ⟨ht.overrides, ht.posSet⟩)
    (fun p r _ => recvBytes_rule r hp (hclose p) fun _ => ⟨hp.overrides, hp.posSet⟩)
    (fun p kern _ ho => ?_)
    (fun p kern => (peerFlush_leads (h.setKern kern) p).plain (hkern kern)) hclose ?_
  · simp only [peerAlloc]
    split <;> exact ⟨hp.overrides, hp.posSet⟩
  · have hmsg := fun payload => (handleMessage_leads (h.setKern kern) ho payload).plain (hkern kern)
    exact peerReadableIter_rule (hkern kern) ((peerClose_leads (h.setKern kern) p).plain (hkern kern))
      (fun payload => ⟨(hmsg payload).overrides, (hmsg payload).posSet⟩)
      fun payload _ => ⟨(hmsg payload).overrides, (hmsg payload).posSet⟩
  · rintro cmd rfl
    cases he

theorem Plain.run {s : Hub} (hp : Plain s) (h : Tracked s) {es : List Event}
    (hes : ∀ e ∈ es, e.isControl = false) : Plain (s.run es) := by
  induction es generalizing s with
  | nil => exact hp
  | cons e es ih =>
    exact ih (hp.step h (hes e List.mem_cons_self)) (step_continues h e).tracked fun e' he' =>
      hes e' (List.mem_cons_of_mem _ he')

end Hub
end Vbt
