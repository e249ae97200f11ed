import Vbt.Hub.Binding

/-!
# One message at a time

`receive s kern p payload` is the hub after it handled one message of peer `p` while the
environment answered as `kern`. What a message does is said of the state before and this one:
`did s s'` is what the hub did in between, and `handsTo p` the frames of it handed to peer `p`.

* `receive`, `step_message`: the event of a run that it stands for;
* `receive_leads`: what handling a message can do;
* `delivery_of_data`, `delivery_ne_src`: whom a frame is delivered to.
-/

namespace Vbt
namespace Hub

open Router

/-! ### What was done -/

/-- What the hub did between two states of a run, newest first. -/
def did (s s' : Hub) : List Act := since s.log s'.log

/-- The frames handed to peer `p`, newest first. -/
def handsTo (p : ℕ) (l : List Act) : List Frame :=
  l.filterMap fun a => match a with
    | .hand q f => if q = p then some f else none
    | _ => none

@[simp] theorem handsTo_nil (p : ℕ) : handsTo p [] = [] := rfl

@[simp] theorem handsTo_append (p : ℕ) (l l' : List Act) :
    handsTo p (l ++ l') = handsTo p l ++ handsTo p l' := List.filterMap_append

theorem mem_handsTo {p : ℕ} {f : Frame} {l : List Act} : f ∈ handsTo p l ↔ Act.hand p f ∈ l := by
  simp only [handsTo, List.mem_filterMap]
  constructor
  · rintro ⟨a, ha, hf⟩
    cases a <;> simp at hf
    obtain ⟨rfl, rfl⟩ := hf
    exact ha
  · intro h
    exact ⟨_, h, by simp⟩

theorem handsTo_eq_nil {p : ℕ} {l : List Act} (h : ∀ f, Act.hand p f ∉ l) : handsTo p l = [] := by
  rw [List.eq_nil_iff_forall_not_mem]
  exact fun f hf => h f (mem_handsTo.1 hf)

section Did

variable {P Q : Act → Prop} {s s' s'' : Hub}

theorem Leads.suffix (h : Leads P s s') : s.log <:+ s'.log := by
  obtain ⟨new, hlog, -⟩ := h.steps
  exact ⟨new, hlog.symm⟩

theorem did_append (h : s.log <:+ s'.log) : s'.log = did s s' ++ s.log :=
  (since_append_self h).symm

theorem did_eq (new : List Act) (h : s'.log = new ++ s.log) : did s s' = new := by
  rw [did, h, since_append]

theorem did_trans (h : s.log <:+ s'.log) (h' : s'.log <:+ s''.log) :
    did s s'' = did s' s'' ++ did s s' := by
  apply did_eq
  rw [did_append h', did_append h, List.append_assoc]

theorem Leads.did_forall (h : Leads P s s') {a : Act} (ha : a ∈ did s s') : P a := by
  obtain ⟨new, hlog, hP, -⟩ := h.steps
  rw [did_eq new hlog] at ha
  exact hP a ha

theorem Leads.rxbuf (h : Leads P s s') {p : ℕ} (hp : Act.closed p ∉ did s s') :
    (s'.peers p).rxbuf = (s.peers p).rxbuf := by
  obtain ⟨new, hlog, -, hrx⟩ := h.steps
  rw [did_eq new hlog] at hp
  exact hrx p hp

end Did

/-! ### Receiving -/

/-- The hub after it handled a message of peer `p` while the environment answered as `kern`. -/
def receive (s : Hub) (kern : Kern) (p : ℕ) (payload : List UInt8) : Hub :=
  ({ s with kern } : Hub).handleMessage p payload

/-- The state in which the message is looked at. -/
def ready (s : Hub) (kern : Kern) (p : ℕ) : Hub :=
  ({ s with kern } : Hub).modPeer p fun q => { q with framesSeen := q.framesSeen + 1 }

/-- A message event with a whole message at the head of the buffer. -/
theorem step_message {s : Hub} {p : ℕ} {payload rest : List UInt8} (kern : Kern)
    (ho : (s.peers p).isOpen = true) (hbuf : (s.peers p).rxbuf = wire payload ++ rest)
    (hlen : payload.length ≤ VBT_MAX_MSG_SIZE) :
    s.step (.message p kern) =
      if ((s.receive kern p payload).peers p).rxbuf.length < 4 + payload.length then
        (s.receive kern p payload).note (.rxWrap p)
      else (s.receive kern p payload).modPeer p fun q =>
        { q with rxbuf := q.rxbuf.drop (4 + payload.length) } := by
  have hhead : headLen (wire payload ++ rest) = payload.length := by
    refine be32_byteAt ?_
    have : VBT_MAX_MSG_SIZE < 2 ^ 32 := by decide
    omega
  have hpay : ((wire payload ++ rest).drop 4).take payload.length = payload := by
    simp [wire]
  have hwhole : ¬ (wire payload ++ rest).length < 4 + payload.length := by
    rw [List.length_append, wire_length]
    omega
  have h4 : ¬ (wire payload ++ rest).length < 4 := by omega
  simp only [receive, step, if_pos ho, peerReadableIter, hbuf, hhead, if_neg h4, if_neg hwhole,
    hpay,
    if_neg (Nat.not_lt.2 hlen)]
  rw [apply_ite Prod.fst]
  rfl

section Receive

variable {s : Hub} {kern : Kern} {p src : ℕ} {payload : List UInt8} {f : Frame}

theorem ready_alike (s : Hub) (kern : Kern) (p : ℕ) : Alike s (s.ready kern p) := by
  have hkern : Alike s { s with kern } := Alike.of_tables rfl rfl rfl
  refine hkern.trans (Alike.modPeer _ p ?_)
  exact fun _ => rfl

theorem ready_leads {P : Act → Prop} (h : Tracked s) (kern : Kern) (p : ℕ) :
    Leads P s (s.ready kern p) := by
  refine Leads.thenPeer ((Leads.refl h).thenKern kern) p ?_ ?_ <;> exact fun _ => rfl

theorem receive_leads (h : Tracked s) (ho : (s.peers p).isOpen = true) (kern : Kern)
    (payload : List UInt8) : Leads (Handling p) s (s.receive kern p payload) :=
  ((Leads.refl h).thenKern kern).trans (handleMessage_leads (h.setKern kern) ho payload)

theorem length_of_frameOf (h : frameOf payload = some f) : payload.length ≤ VBT_MAX_MSG_SIZE := by
  simp only [frameOf] at h
  split_ifs at h with hlen
  rw [VBT_MAX_MSG_SIZE]
  omega

/-- A well-formed frame is read back as it was sent. -/
theorem frameOf_payload (hmagic : f.hdr.magic = VBT_MAGIC)
    (hlen : f.pdu.length = f.hdr.pduLen.toNat)
    (hmax : f.pdu.length ≤ VBT_MAX_PDU_SIZE) : frameOf f.payload = some f := by
  have hhdr : hdrOfBytes (fun i => f.payload.getD i 0) = f.hdr := hdrOfBytes_hdrBytes f.hdr f.pdu
  have hdrop : f.payload.drop VBT_HDR_SIZE = f.pdu := List.drop_left' (hdrBytes_length f.hdr)
  have hsize : f.payload.length - VBT_HDR_SIZE = f.pdu.length := by
    simp [Frame.payload]
  have hle : VBT_HDR_SIZE ≤ f.payload.length := by
    simp [Frame.payload]
  simp only [frameOf, hhdr, hdrop, hsize]
  rw [if_pos ⟨hle, hmagic, hlen, hmax⟩]

/-- A frame is not a hello. -/
theorem parseHello_of_frameOf (h : frameOf payload = some f) : parseHello payload = none := by
  simp only [frameOf] at h
  split_ifs at h with hc
  have hmagic : le32At (fun i => payload.getD i 0) 0 = VBT_MAGIC := hc.2.1
  have hne : VBT_MAGIC ≠ VBT_HELLO_MAGIC := by decide
  simp only [parseHello, hmagic]
  rw [if_pos hne, ite_self]

theorem receive_frame (h : frameOf payload = some f) :
    s.receive kern src payload = (s.ready kern src).forwardFrame src f.hdr f.pdu := by
  simp only [receive, handleMessage, maybeHello, parseHello_of_frameOf h, Option.map_none, h]
  rfl

theorem receive_hello {hello : Hello} (h : parseHello payload = some hello) :
    s.receive kern src payload = (s.ready kern src).takeHello src hello := by
  simp only [receive, handleMessage, maybeHello, h, Option.map_some]
  rfl

theorem receive_other (h : parseHello payload = none) (h' : frameOf payload = none) :
    s.receive kern src payload = s.ready kern src := by
  simp only [receive, handleMessage, maybeHello, h, Option.map_none, h']
  rfl

theorem ready_isBridge (s : Hub) (kern : Kern) (p q : ℕ) :
    ((s.ready kern p).peers q).isBridge = (s.peers q).isBridge :=
  congrArg (fun v => v.2.1) ((ready_alike s kern p).peer q)

theorem ready_nodeIdx (s : Hub) (kern : Kern) (p q : ℕ) :
    ((s.ready kern p).peers q).nodeIdx = (s.peers q).nodeIdx :=
  congrArg (fun v => v.2.2.2) ((ready_alike s kern p).peer q)

theorem ready_isOpen (s : Hub) (kern : Kern) (p q : ℕ) :
    ((s.ready kern p).peers q).isOpen = (s.peers q).isOpen :=
  congrArg (fun v => v.1) ((ready_alike s kern p).peer q)

/-- What forwarding a frame can do, from the state before the message. -/
theorem receive_forwards (h : Tracked s) (ho : (s.peers src).isOpen = true)
    (hf : frameOf payload = some f) (kern : Kern) :
    Leads (fun a => ∃ hdr', ttlStep (s.peers src).isBridge f.hdr = some hdr' ∧
      Forwarding src (s.peers src).nodeIdx hdr' f.pdu a) s (s.receive kern src payload) := by
  rw [receive_frame hf]
  have hfw := forwardFrame_leads (ready_leads (P := fun _ => True) h kern src).tracked
    ((ready_isOpen s kern src src).trans ho) f.hdr f.pdu
  rw [ready_isBridge, ready_nodeIdx] at hfw
  exact (ready_leads h kern src).trans hfw

/-! ### Data frames -/

/-- The endpoint a data PDU goes to: the second one if the sender is the first, else the first. -/
theorem otherEnd_eq (node : Option ℕ) (c : Conn) :
    otherEnd node c = if c.nodeA = node then c.nodeB else c.nodeA := by
  cases node with
  | none => simp [otherEnd]
  | some k =>
    by_cases ha : c.nodeA = some k
    · simp [otherEnd, ha]
    · simp [otherEnd, ha]

theorem otherEnd_congr {c c' : Conn} (h : c.ends = c'.ends) (node : Option ℕ) :
    otherEnd node c = otherEnd node c' := by
  simp only [Conn.ends, Ends.mk.injEq] at h
  rw [otherEnd_eq, otherEnd_eq, h.1, h.2]

/-- The tables after the monitors heard the frame, as routing sees them: nothing was added. -/
theorem tapped_shrinks (h : Tracked s) (ho : (s.peers src).isOpen = true) (hdr : VbtFrameHdr)
    (pdu : List UInt8) :
    Shrinks (s.accounted src hdr pdu).router (s.tapped src hdr pdu).router :=
  (tapped_leads h ho hdr pdu).shrinks (accounted_leads h ho hdr pdu).tracked DeliveryTo.ofSocket

theorem accounted_router (s : Hub) (src : ℕ) (hdr : VbtFrameHdr) (pdu : List UInt8)
    (h : Tracked s) (ho : (s.peers src).isOpen = true) :
    ∃ addrs, (s.accounted src hdr pdu).router = { s.router with addrs } := by
  have hacc := (accounted_leads h ho hdr pdu).tracked.router
  rw [accounted_log, Journal.replay_cons, ← h.router] at hacc
  obtain ⟨addrs, hr⟩ := s.router.apply_frame src hdr pdu
  exact ⟨addrs, hacc.trans hr⟩

/-- Forwarding a data frame in stages: the sender is accounted for, the monitors hear the frame, it
is routed to the other endpoint, and the bridges get it. -/
theorem did_data {hdr hdr' : VbtFrameHdr} {pdu : List UInt8} (h : Tracked s)
    (ho : (s.peers src).isOpen = true) (httl : ttlStep (s.peers src).isBridge hdr = some hdr')
    (hdata : hdr'.llType = VBT_LL_DATA) {t u : Hub} (ht : t = s.tapped src hdr' pdu)
    (hu : u = t.routed (s.peers src).nodeIdx hdr' pdu) :
    did s (s.forwardFrame src hdr pdu) = did u (u.sweep Peer.isBridge src hdr' pdu) ++
      (did t u ++ (did (s.accounted src hdr' pdu) t ++ [.frame src hdr' pdu])) := by
  subst ht hu
  have hacc := accounted_leads h ho hdr' pdu
  have htap := tapped_leads h ho hdr' pdu
  have hroute := routed_leads htap.tracked (s.peers src).nodeIdx hdr' pdu
  have hbr := sweep_bridges hroute.tracked src hdr' pdu
  obtain ⟨st, hst⟩ := forwardData_eq (s.tapped src hdr' pdu) src (s.peers src).nodeIdx hdr' pdu
  have hstats : ∀ t : Hub, did s (t.modStats st) = did s t := fun _ => rfl
  rw [forwardFrame_data httl hdata, hst, hstats,
    did_trans (hacc.suffix.trans (htap.suffix.trans hroute.suffix)) hbr.suffix,
    did_trans (hacc.suffix.trans htap.suffix) hroute.suffix, did_trans hacc.suffix htap.suffix,
    did_eq [.frame src hdr' pdu] (accounted_log s src hdr' pdu)]

/-- Whom a data frame is delivered to: a monitor, a bridge, or the peer of the other endpoint of its
connection. -/
theorem delivery_of_data (h : Tracked s) (ho : (s.peers src).isOpen = true)
    (hf : frameOf payload = some f) (hdata : f.hdr.llType = VBT_LL_DATA) {a : Act}
    (hd : dest a = some p) (ha : a ∈ did s (s.receive kern src payload)) :
    (p ≠ src ∧ (s.peers p).isMonitor = true) ∨ (p ≠ src ∧ (s.peers p).isBridge = true) ∨
      ∃ c o, s.findConn f.hdr.accessAddr = some c ∧
        otherEnd (s.peers src).nodeIdx (s.conns c) = some o ∧ (s.nodes o).peerIdx = some p := by
  have hrt : Tracked (s.ready kern src) := (ready_leads (P := fun _ => True) h kern src).tracked
  have hro : ((s.ready kern src).peers src).isOpen = true := (ready_isOpen s kern src src).trans ho
  have hrouter : (s.ready kern src).router = s.router := (ready_alike s kern src).router_eq
  have hnode := ready_nodeIdx s kern src src
  have ha' : a ∈ did (s.ready kern src) ((s.ready kern src).forwardFrame src f.hdr f.pdu) := by
    rw [← receive_frame hf]
    exact ha
  generalize s.ready kern src = r at hrt hro hrouter hnode ha'
  cases httl : ttlStep (r.peers src).isBridge f.hdr with
  | none =>
    rw [forwardFrame_expired httl] at ha'
    simp [did] at ha'
  | some hdr' =>
    obtain ⟨flags, hflags⟩ := ttlStep_eq_some httl
    have hdata' : hdr'.llType = VBT_LL_DATA := by
      rw [hflags]
      exact hdata
    have htap := tapped_leads hrt hro hdr' f.pdu
    have hroute := routed_leads htap.tracked (r.peers src).nodeIdx hdr' f.pdu
    have hbr := sweep_bridges hroute.tracked src hdr' f.pdu
    -- nothing is added to what routing sees on the way
    have hshr := tapped_shrinks hrt hro hdr' f.pdu
    have hshr' := hroute.shrinks htap.tracked DeliveryTo.ofSocket
    obtain ⟨addrs, hacc⟩ := accounted_router r src hdr' f.pdu hrt hro
    rw [hacc, hrouter] at hshr
    rw [did_data hrt hro httl hdata' rfl rfl] at ha'
    simp only [List.mem_append] at ha'
    obtain ha' | ha' | ha' | ha' := ha'
    · obtain ⟨q, ⟨hne, -, hq⟩, hd'⟩ := hbr.did_forall ha'
      obtain rfl : p = q := Option.some.inj (hd.symm.trans hd'.dest_eq)
      exact Or.inr (Or.inl ⟨hne, hshr.bridge p (hshr'.bridge p hq)⟩)
    · obtain ⟨q, ⟨c, o, hc, hoe, hq⟩, hd'⟩ := hroute.did_forall ha'
      obtain rfl : p = q := Option.some.inj (hd.symm.trans hd'.dest_eq)
      -- the connection and the binding were there before the monitors heard the frame
      have hlink : s.router.link hdr'.accessAddr = some ((r.tapped src hdr' f.pdu).conns c).ends := by
        refine hshr.link _ _ ?_
        simp [Hub.router, hc]
      rw [show hdr'.accessAddr = f.hdr.accessAddr by rw [hflags]] at hlink
      obtain ⟨c', hc', hends⟩ := Option.map_eq_some_iff.1 hlink
      refine Or.inr (Or.inr ⟨c', o, hc', ?_, hshr.peerOf o p hq⟩)
      rw [otherEnd_congr hends, ← hnode]
      exact hoe
    · obtain ⟨q, ⟨hne, -, hq⟩, hd'⟩ := htap.did_forall ha'
      obtain rfl : p = q := Option.some.inj (hd.symm.trans hd'.dest_eq)
      have hmon : (r.peers p).isMonitor = (s.peers p).isMonitor :=
        congrFun (congrArg Router.monitor hrouter) p
      exact Or.inl ⟨hne, hmon ▸ hq⟩
    · simp only [List.mem_singleton] at ha'
      subst ha'
      cases hd

/-- Any other frame is never delivered to its sender. -/
theorem delivery_ne_src (h : Tracked s) (ho : (s.peers src).isOpen = true)
    (hf : frameOf payload = some f) (hdata : f.hdr.llType ≠ VBT_LL_DATA) {a : Act}
    (hd : dest a = some p) (ha : a ∈ did s (s.receive kern src payload)) : p ≠ src := by
  have hrt : Tracked (s.ready kern src) := (ready_leads (P := fun _ => True) h kern src).tracked
  have hro : ((s.ready kern src).peers src).isOpen = true := (ready_isOpen s kern src src).trans ho
  have ha' : a ∈ did (s.ready kern src) ((s.ready kern src).forwardFrame src f.hdr f.pdu) := by
    rw [← receive_frame hf]
    exact ha
  generalize s.ready kern src = r at hrt hro ha'
  cases httl : ttlStep (r.peers src).isBridge f.hdr with
  | none =>
    rw [forwardFrame_expired httl] at ha'
    simp [did] at ha'
  | some hdr' =>
    obtain ⟨flags, hflags⟩ := ttlStep_eq_some httl
    have hdata' : hdr'.llType ≠ VBT_LL_DATA := by
      rw [hflags]
      exact hdata
    have hacc := accounted_leads hrt hro hdr' f.pdu
    have htap := tapped_leads hrt hro hdr' f.pdu
    -- the monitors are swept without the source
    have hfirst : a ∈ did r (r.tapped src hdr' f.pdu) → p ≠ src := by
      intro hm
      rw [did_trans hacc.suffix htap.suffix, List.mem_append] at hm
      obtain hm | hm := hm
      · obtain ⟨q, ⟨hne, -⟩, hd'⟩ := htap.did_forall hm
        exact Option.some.inj (hd'.dest_eq.symm.trans hd) ▸ hne
      · obtain rfl := hacc.did_forall hm
        cases hd
    by_cases hadv : hdr'.llType = VBT_LL_ADV
    · have hsn := snooped_leads htap.tracked (tapped_active hrt hro hdr' f.pdu) f.pdu
      have hfan := fanOut_leads hsn.tracked src (r.peers src).nodeIdx hdr' f.pdu
      obtain ⟨st, hst⟩ := forwardAdv_eq (r.tapped src hdr' f.pdu) src (r.peers src).nodeIdx hdr' f.pdu
      have hstats : ∀ t : Hub, did r (t.modStats st) = did r t := fun _ => rfl
      rw [forwardFrame_adv httl hadv, hst, hstats,
        did_trans (hacc.suffix.trans (htap.suffix.trans hsn.suffix)) hfan.suffix,
        did_trans (hacc.suffix.trans htap.suffix) hsn.suffix] at ha'
      simp only [List.mem_append] at ha'
      obtain ha' | ha' | ha' := ha'
      · obtain ⟨q, ⟨hne, -⟩, hd'⟩ := hfan.did_forall ha'
        exact Option.some.inj (hd'.dest_eq.symm.trans hd) ▸ hne
      · obtain ⟨-, slot, rfl⟩ := hsn.did_forall ha'
        cases hd
      · exact hfirst ha'
    · rw [forwardFrame_other httl hadv hdata'] at ha'
      exact hfirst ha'

end Receive

end Hub
end Vbt
