import Vbt.Hub.Air
import Vbt.Hub.Routing
import Vbt.Hub.Snoop

/-!
# Routes last

A route that a CONNECT_IND made is there as long as the peers of its two nodes stay and no other
CONNECT_IND carries its Access Address, whatever else the hub does.

* `Bound`: a peer and a node that are bound to each other; `Keeps`: the actions that leave them so;
* `route_since`: what a part of a log that keeps both bindings does to a route;
* `handsTo_data`: what exactly the other endpoint is handed of a data frame;
* `route_stable`: data frames reach the other endpoint once each.
-/

namespace Vbt
namespace Router

/-- Peer `p` is open and speaks for node `k`, which is reached through it. -/
structure Bound (r : Router) (p k : ℕ) : Prop where
  isOpen : r.isOpen p = true
  nodeOf : r.nodeOf p = some k
  peerOf : r.peerOf k = some p

/-- Peer `p` does not close, and no other peer takes over node `k`. -/
def Keeps (p k : ℕ) : Act → Prop
  | .closed q => q ≠ p
  | .hello q _ _ false (some i) => i = k → q = p
  | _ => True

instance (p k : ℕ) : (a : Act) → Decidable (Keeps p k a)
  | .closed _ => inferInstanceAs (Decidable (_ ≠ _))
  | .hello _ _ _ false (some _) => inferInstanceAs (Decidable (_ → _))
  | .hello _ _ _ true _ | .hello _ _ _ false none | .opened .. | .named .. | .frame .. | .snooped ..
    | .hand .. | .wrote .. | .dropped _ | .rxWrap _ | .reply _ => isTrue trivial

/-- The action is not a CONNECT_IND that carries `aa`. -/
def Spares (aa : UInt32) : Act → Prop
  | .snooped x _ _ _ => x ≠ aa
  | _ => True

instance (aa : UInt32) : (a : Act) → Decidable (Spares aa a)
  | .snooped _ _ _ _ => inferInstanceAs (Decidable (_ ≠ _))
  | .closed _ | .hello .. | .opened .. | .named .. | .frame .. | .hand .. | .wrote .. | .dropped _
    | .rxWrap _ | .reply _ => isTrue trivial

theorem Spares.ne {aa : UInt32} {act : Act} (h : Spares aa act) (a b slot : Option ℕ) :
    act ≠ .snooped aa a b slot := by
  rintro rfl
  exact h rfl

/-- A binding lasts while its peer stays and keeps the node, if no peer says hello twice. -/
theorem Bound.apply {r : Router} {p k : ℕ} (h : Bound r p k) (hb : Blank r) (hbij : Bijective r)
    {a : Act} (he : r.enabled a)
    (hfirst : ∀ q nid ph mon node, a = .hello q nid ph mon node → r.nodeOf q = none)
    (hk : Keeps p k a) : Bound (r.apply a) p k := by
  cases a with
  | opened q br =>
    have hpq : p ≠ q := by
      rintro rfl
      exact Bool.false_ne_true ((show r.isOpen p = false from he).symm.trans h.isOpen)
    exact ⟨by simp [Router.apply, Router.open, h.isOpen],
      by simp [Router.apply, Router.open, hpq, h.nodeOf],
      h.peerOf⟩
  | closed q =>
    have hpq : p ≠ q := fun hc => hk hc.symm
    refine ⟨by simp [Router.apply, close, hpq, h.isOpen],
      by simp [Router.apply, close, hpq, h.nodeOf], ?_⟩
    simp [Router.apply, close, h.peerOf, hpq]
  | named i nid =>
    have hki : k ≠ i := by
      rintro rfl
      exact Bool.false_ne_true ((show r.active k = false from he).symm.trans (hb.active p k h.nodeOf))
    exact ⟨h.isOpen, h.nodeOf, by simp [Router.apply, addNode, hki, h.peerOf]⟩
  | hello q nid ph mon node =>
    have hpq : p ≠ q := by
      rintro rfl
      exact Option.some_ne_none k (h.nodeOf.symm.trans (hfirst p nid ph mon node rfl))
    cases mon with
    | true => exact ⟨h.isOpen, h.nodeOf, h.peerOf⟩
    | false =>
      cases node with
      | none => exact h
      | some i =>
        have hik : i ≠ k := fun hc => hpq (hk hc).symm
        -- the peer that `i` was reached through is not `p`, which speaks for `k`
        have hip : r.peerOf i ≠ some p := fun hc =>
          hik (Option.some.inj ((hbij.nodeOf_peerOf i p hc).2.symm.trans h.nodeOf))
        exact ⟨h.isOpen, by simp [Router.apply, bind, hpq, hip, h.nodeOf],
          by simp [Router.apply, bind, Ne.symm hik, h.peerOf]⟩
  | frame src hdr pdu =>
    obtain ⟨addrs, hr⟩ := r.apply_frame src hdr pdu
    rw [hr]
    exact ⟨h.isOpen, h.nodeOf, h.peerOf⟩
  | snooped aa x y slot => cases slot <;> exact ⟨h.isOpen, h.nodeOf, h.peerOf⟩
  | hand | wrote | dropped | rxWrap | reply => exact h

section Since

variable {new old : List Act} {p k : ℕ}

theorem bound_since (hlegal : medium.Legal (new ++ old)) (hone : OneHello (new ++ old))
    (hk : ∀ a ∈ new, Keeps p k a) (h : Bound (medium.replay old) p k) :
    Bound (medium.replay (new ++ old)) p k := by
  induction new with
  | nil => exact h
  | cons a new ih =>
    have hlegal' : medium.Legal (a :: (new ++ old)) := hlegal
    have hone' : OneHello (a :: (new ++ old)) := hone
    have hd := disciplined_of_oneHello hlegal'.2 hone'.2
    refine (ih hlegal'.2 hone'.2 fun b hb => hk b (List.mem_cons_of_mem _ hb)).apply
      (blank_of_legal hlegal'.2) hd.bijective hlegal'.1 (fun q nid ph mon node ha => ?_)
      (hk a List.mem_cons_self)
    subst ha
    exact (hd.silent q hone'.1.1).1

/-- Each endpoint has a peer that keeps it in some actions. -/
def Held (r : Router) (new : List Act) (e : Ends) : Prop :=
  ∀ i, e.has (some i) = true → ∃ p, Bound r p i ∧ ∀ a ∈ new, Keeps p i a

/-- A peer other than those of the endpoints speaks for neither. -/
theorem Bijective.has_nodeOf {r : Router} (hbij : Bijective r) (hb : Blank r) {e : Ends} {c : ℕ}
    (h : ∀ i, e.has (some i) = true → ∃ p, Bound r p i ∧ c ≠ p) : e.has (r.nodeOf c) = false := by
  cases hn : r.nodeOf c with
  | none => rfl
  | some i =>
    rw [Bool.eq_false_iff]
    intro hi
    obtain ⟨p, hp, hne⟩ := h i hi
    have ho : r.isOpen c = true := by
      by_contra hcl
      rw [hb.nodeOf c (Bool.eq_false_iff.2 hcl)] at hn
      cases hn
    have hpeer := (hbij.peerOf_nodeOf c i ho hn).2
    exact hne (Option.some.inj (hpeer.symm.trans hp.peerOf))

theorem Held.has_nodeOf {r : Router} (hb : Blank r) (hbij : Bijective r) {e : Ends}
    (h : Held r new e) {c : ℕ} (hc : Act.closed c ∈ new) : e.has (r.nodeOf c) = false :=
  hbij.has_nodeOf hb fun i hi => by
    obtain ⟨p, hp, hk⟩ := h i hi
    exact ⟨p, hp, hk _ hc⟩

/-- A route lasts as long as the peers of its endpoints keep them. -/
theorem route_since {e : Ends} {aa : UInt32} (hlegal : medium.Legal (new ++ old))
    (hone : OneHello (new ++ old)) (hk : Held (medium.replay old) new e)
    (hs : ∀ a ∈ new, Spares aa a) (hl : (medium.replay old).link aa = some e) :
    (medium.replay (new ++ old)).link aa = some e := by
  induction new with
  | nil => exact hl
  | cons a new ih =>
    have hlegal' : medium.Legal (a :: (new ++ old)) := hlegal
    have hone' : OneHello (a :: (new ++ old)) := hone
    have hbij := (disciplined_of_oneHello hlegal'.2 hone'.2).bijective
    have hk' : Held (medium.replay old) new e := fun i hi => by
      obtain ⟨p, hp, hkeep⟩ := hk i hi
      exact ⟨p, hp, fun b hb => hkeep b (List.mem_cons_of_mem _ hb)⟩
    refine (link_apply_iff (hs a List.mem_cons_self).ne).2
      ⟨ih hlegal'.2 hone'.2 hk' fun b hb => hs b (List.mem_cons_of_mem _ hb), fun c hc => ?_⟩
    -- the peer that closes speaks for neither of the two nodes
    subst hc
    refine hbij.has_nodeOf (blank_of_legal hlegal'.2) fun i hi => ?_
    obtain ⟨p, hp, hkeep⟩ := hk i hi
    refine ⟨p, bound_since hlegal'.2 hone'.2 (fun b hb => hkeep b (List.mem_cons_of_mem _ hb)) hp,
      ?_⟩
    exact hkeep _ List.mem_cons_self

end Since

/-- A bound peer is neither a bridge nor a monitor. -/
theorem Bound.not_bridge {s : Hub} {log : List Act} (hd : Disciplined log s.router) {p k : ℕ}
    (hb : Bound s.router p k) : (s.peers p).isBridge = false := by
  by_contra hc
  exact Option.some_ne_none k (hb.nodeOf.symm.trans (hd.bridge p (Bool.not_eq_false _ ▸ hc)).1)

theorem Bound.not_monitor {s : Hub} {log : List Act} (hd : Disciplined log s.router) {p k : ℕ}
    (hb : Bound s.router p k) : (s.peers p).isMonitor = false := by
  by_contra hc
  exact Option.some_ne_none k (hb.nodeOf.symm.trans (hd.monitor p (Bool.not_eq_false _ ▸ hc)))

end Router

namespace Hub

open Router

/-! ### Handing over data frames -/

/-- A data PDU is handed to the peer of the other endpoint, if that hears it. -/
theorem handsTo_routed {t : Hub} (h : Tracked t) {node : Option ℕ} {o q : ℕ} {hdr : VbtFrameHdr}
    (pdu : List UInt8) {e : Ends} (hlink : t.router.link hdr.accessAddr = some e)
    (hoe : (if e.a = node then e.b else e.a) = some o) (hact : (t.nodes o).active = true)
    (hq : (t.nodes o).peerIdx = some q) {heard : Heard}
    (hheard : t.propagate (node.map t.nodes) (t.nodes o) hdr.txPowerDbm hdr.rssi = heard) :
    handsTo q (did t (t.routed node hdr pdu)) =
      if heard.ok then [⟨{ hdr with rssi := Int8.ofInt heard.rssi }, pdu⟩] else [] := by
  obtain ⟨c, hc, rfl⟩ := Option.map_eq_some_iff.1 hlink
  have hother : otherEnd node (t.conns c) = some o := by
    rw [otherEnd_eq]
    exact hoe
  have hcount : Leads (fun _ => True) t (t.modConn c fun c => { c with pdus := c.pdus + 1 }) := by
    refine Leads.thenConn (.refl h) c ?_
    exact fun _ => rfl
  have hactive : ((t.modConn c fun c => { c with pdus := c.pdus + 1 }).nodes o).active = true :=
    hact
  have hpeer : ((t.modConn c fun c => { c with pdus := c.pdus + 1 }).nodes o).peerIdx = some q := hq
  simp only [routed, hc, hother, routeTo, hactive, hpeer, Bool.not_true, Bool.false_eq_true,
    if_false]
  exact handsTo_deliverHeard hcount.tracked node o q hdr pdu hheard

theorem ttlStep_local {bridge : Bool} (h : bridge = false) (hdr : VbtFrameHdr) :
    ttlStep bridge hdr ≠ none := by
  simp [ttlStep, h]

theorem propagate_congr_node {s s' : Hub} (h : SameAir s s') (node : Option ℕ) (o : ℕ)
    (p r : Int8) :
    (s'.propagate (node.map s'.nodes) (s'.nodes o) p r).ok =
        (s.propagate (node.map s.nodes) (s.nodes o) p r).ok ∧
      (s'.propagate (node.map s'.nodes) (s'.nodes o) p r).rssi =
        (s.propagate (node.map s.nodes) (s.nodes o) p r).rssi := by
  cases node with
  | none => exact ⟨rfl, rfl⟩
  | some i => exact propagate_congr h (h.radio i) (h.radio o) p r

/-- The monitors are bound to no node, so when they have heard the frame the routes are those
before. -/
theorem tapped_sameRoutes {s : Hub} (h : Tracked s) {log : List Act} (hd : Disciplined log s.router)
    {src : ℕ} (ho : (s.peers src).isOpen = true) (hdr : VbtFrameHdr) (pdu : List UInt8) :
    ∃ addrs, SameRoutes { s.router with addrs } (s.tapped src hdr pdu).router := by
  obtain ⟨addrs, haccr⟩ := accounted_router s src hdr pdu h ho
  refine ⟨addrs, ?_⟩
  rw [← haccr]
  refine (tapped_leads h ho hdr pdu).sameRoutes (accounted_leads h ho hdr pdu).tracked
    DeliveryTo.ofSocket ?_
  rintro p ⟨p', ⟨-, -, hm⟩, hp⟩
  cases hp
  have hfree : s.router.nodeOf p = none := hd.monitor p hm
  rw [← hfree]
  exact congrFun (congrArg Router.nodeOf haccr) p

theorem handsTo_forwardFrame {s : Hub} (h : Tracked s) {log : List Act}
    (hd : Disciplined log s.router) {src q o : ℕ} (ho : (s.peers src).isOpen = true)
    {node : Option ℕ}
    (hnode : (s.peers src).nodeIdx = node) (hq : Bound s.router q o) {hdr hdr' : VbtFrameHdr}
    (httl : ttlStep (s.peers src).isBridge hdr = some hdr') (pdu : List UInt8)
    (hdata : hdr'.llType = VBT_LL_DATA) {e : Ends} (hlink : s.router.link hdr'.accessAddr = some e)
    (hoe : (if e.a = node then e.b else e.a) = some o) {heard : Heard}
    (hheard : s.propagate (node.map s.nodes) (s.nodes o) hdr'.txPowerDbm hdr'.rssi = heard) :
    handsTo q (did s (s.forwardFrame src hdr pdu)) =
      if heard.ok then [⟨{ hdr' with rssi := Int8.ofInt heard.rssi }, pdu⟩] else [] := by
  -- a bound peer is neither a bridge nor a monitor
  have hbr := hq.not_bridge hd
  have hmon := hq.not_monitor hd
  have htap := tapped_leads h ho hdr' pdu
  have hair := tapped_air h src hdr' pdu
  obtain ⟨addrs, hsame⟩ := tapped_sameRoutes h hd ho hdr' pdu
  rw [did_data h ho httl hdata rfl rfl, hnode]
  have hheard' := propagate_congr_node hair node o hdr'.txPowerDbm hdr'.rssi
  rw [hheard] at hheard'
  have hshr := tapped_shrinks h ho hdr' pdu
  obtain ⟨addrs', haccr⟩ := accounted_router s src hdr' pdu h ho
  rw [haccr] at hshr
  generalize s.tapped src hdr' pdu = t at htap hair hsame hheard' hshr
  have hroute := routed_leads htap.tracked node hdr' pdu
  have hbridges := sweep_bridges hroute.tracked src hdr' pdu
  have hnil : handsTo q (did (t.routed node hdr' pdu)
      ((t.routed node hdr' pdu).sweep Peer.isBridge src hdr' pdu)) = [] := by
    refine handsTo_eq_nil fun g hg => ?_
    obtain ⟨p, ⟨-, -, hp⟩, hdel⟩ := hbridges.did_forall hg
    cases hdel
    have hs : (s.peers q).isBridge = true :=
      hshr.bridge q ((hroute.shrinks htap.tracked DeliveryTo.ofSocket).bridge q hp)
    rw [hbr] at hs
    cases hs
  have hnil' : handsTo q (did (s.accounted src hdr' pdu) t) = [] := by
    refine handsTo_eq_nil fun g hg => ?_
    obtain ⟨p, ⟨-, -, hp⟩, hdel⟩ := htap.did_forall hg
    cases hdel
    rw [hmon] at hp
    cases hp
  have hlink' : t.router.link hdr'.accessAddr = some e := by
    rw [hsame.link]
    exact hlink
  have hact : (t.nodes o).active = true :=
    (congrFun hsame.active o).trans (h.blank.active q o hq.nodeOf)
  have hpeer : (t.nodes o).peerIdx = some q := (congrFun hsame.peerOf o).trans hq.peerOf
  rw [handsTo_append, handsTo_append, handsTo_append, hnil, hnil',
    handsTo_routed htap.tracked pdu hlink' hoe hact hpeer rfl, hheard'.1, hheard'.2]
  exact List.append_nil _

/-- **What the other endpoint is handed of a data frame**: the frame, once, if `propagate` lets it
through in the state the message is handled in, and nothing else. -/
theorem handsTo_receive_data {s : Hub} (h : Tracked s) (hd : Disciplined s.log s.router)
    {src q o : ℕ}
    (ho : (s.peers src).isOpen = true) {node : Option ℕ} (hnode : (s.peers src).nodeIdx = node)
    (hq : Bound s.router q o) {payload : List UInt8} {f : Frame} (hf : frameOf payload = some f)
    {hdr : VbtFrameHdr} (httl : ttlStep (s.peers src).isBridge f.hdr = some hdr)
    (hdata : hdr.llType = VBT_LL_DATA) {e : Ends} (hlink : s.router.link hdr.accessAddr = some e)
    (hoe : (if e.a = node then e.b else e.a) = some o) (kern : Kern) {heard : Heard}
    (hheard : ({ s with kern } : Hub).propagate (node.map s.nodes) (s.nodes o) hdr.txPowerDbm
      hdr.rssi = heard) :
    handsTo q (did s (s.receive kern src payload)) =
      if heard.ok then [⟨{ hdr with rssi := Int8.ofInt heard.rssi }, f.pdu⟩] else [] := by
  have hrouter : (s.ready kern src).router = s.router := (ready_alike s kern src).router_eq
  have hfw := handsTo_forwardFrame (ready_leads (P := fun _ => True) h kern src).tracked
    (hrouter ▸ hd) ((ready_isOpen s kern src src).trans ho) ((ready_nodeIdx s kern src src).trans hnode)
    (hrouter ▸ hq) ((ready_isBridge s kern src src).symm ▸ httl) f.pdu hdata (hrouter ▸ hlink) hoe hheard
  rw [← receive_frame hf] at hfw
  exact hfw

/-- The same for a frame of a bound peer. -/
theorem handsTo_data {s : Hub} (h : Tracked s) (hd : Disciplined s.log s.router) {src i q o : ℕ}
    (hsrc : Bound s.router src i) (hq : Bound s.router q o) {payload : List UInt8} {f : Frame}
    (hf : frameOf payload = some f) (hdata : f.hdr.llType = VBT_LL_DATA) {e : Ends}
    (hlink : s.router.link f.hdr.accessAddr = some e)
    (hoe : (if e.a = some i then e.b else e.a) = some o) (kern : Kern) {heard : Heard}
    (hheard : ({ s with kern } : Hub).propagate (some (s.nodes i)) (s.nodes o) f.hdr.txPowerDbm
      f.hdr.rssi = heard) :
    ∃ flags, handsTo q (did s (s.receive kern src payload)) =
      if heard.ok then [⟨{ f.hdr with flags, rssi := Int8.ofInt heard.rssi }, f.pdu⟩] else [] := by
  obtain ⟨hdr', httl⟩ := Option.ne_none_iff_exists'.1 (ttlStep_local (hsrc.not_bridge hd) f.hdr)
  obtain ⟨flags, rfl⟩ := ttlStep_eq_some httl
  exact ⟨flags, handsTo_receive_data h hd hsrc.isOpen hsrc.nodeOf hq hf httl hdata hlink hoe kern hheard⟩

/-! ### Stability -/

/-- Peer `p` and node `k` are bound to each other. -/
def Live (s : Hub) (p k : ℕ) : Prop :=
  (s.peers p).isOpen = true ∧ (s.peers p).nodeIdx = some k ∧ (s.nodes k).peerIdx = some p

instance (s : Hub) (p k : ℕ) : Decidable (s.Live p k) := inferInstanceAs (Decidable (_ ∧ _ ∧ _))

theorem Live.bound {s : Hub} {p k : ℕ} (h : s.Live p k) : Bound s.router p k := ⟨h.1, h.2.1, h.2.2⟩

section Continues

variable {s s' : Hub}

theorem Continues.oneHello (h : Continues s s') (hone : OneHello s'.log) : OneHello s.log := by
  rw [did_append h.suffix] at hone
  exact Throughout.of_append hone

theorem Continues.bound (h : Continues s s') (hs : Tracked s) (hone : OneHello s'.log) {p k : ℕ}
    (hk : ∀ a ∈ did s s', Keeps p k a) (hb : Bound s.router p k) : Bound s'.router p k := by
  have hlegal := h.tracked.legal
  rw [hs.router] at hb
  rw [h.tracked.router]
  rw [did_append h.suffix] at hlegal hone ⊢
  exact bound_since hlegal hone hk hb

theorem Continues.route (h : Continues s s') (hs : Tracked s) (hone : OneHello s'.log)
    {e : Ends} {aa : UInt32} (hk : Held s.router (did s s') e)
    (hspare : ∀ a ∈ did s s', Router.Spares aa a) (hl : s.router.link aa = some e) :
    s'.router.link aa = some e := by
  have hlegal := h.tracked.legal
  rw [hs.router] at hk hl
  rw [h.tracked.router]
  rw [did_append h.suffix] at hlegal hone ⊢
  exact route_since hlegal hone hk hspare hl

end Continues

/-- The frame is a CONNECT_IND of node `i` to an address of node `j`, and the table has a free entry
or one of its Access Address. The address is looked up after the sender's own is learned. -/
structure Connects (s : Hub) (i j : ℕ) (f : Frame) : Prop where
  adv : f.hdr.llType = VBT_LL_ADV
  ind : Snoops f.pdu
  resolves : (s.learnTx (some i) f.hdr).findNodeByAddr (indAdvA f.pdu) = some j
  room : (∃ c < MAX_CONNS, (s.conns c).active = false) ∨ s.findConn (indAA f.pdu) ≠ none

/-- A message event is the handling of the message and some bookkeeping of the buffer. -/
theorem step_message_continues {s : Hub} (h : Tracked s) {p : ℕ} {payload rest : List UInt8}
    (kern : Kern) (ho : (s.peers p).isOpen = true) (hbuf : (s.peers p).rxbuf = wire payload ++ rest)
    (hlen : payload.length ≤ VBT_MAX_MSG_SIZE) :
    Continues (s.receive kern p payload) (s.step (.message p kern)) ∧
      (s.step (.message p kern)).router = (s.receive kern p payload).router := by
  have hm := (receive_leads h ho kern payload).tracked
  rw [step_message kern ho hbuf hlen]
  split_ifs
  · exact ⟨(Continues.refl hm).thenNote rfl trivial, Alike.router_eq (Alike.of_tables rfl rfl rfl)⟩
  · have ha : Alike (s.receive kern p payload) ((s.receive kern p payload).modPeer p fun q =>
        { q with rxbuf := q.rxbuf.drop (4 + payload.length) }) := by
      refine Alike.modPeer _ p ?_
      exact fun _ => rfl
    exact ⟨(Continues.refl hm).thenAlike ha rfl, ha.router_eq⟩

/-- The CONNECT_IND links the two nodes, if the peers of neither close while it is handled. -/
theorem link_of_connects {s : Hub} (h : Tracked s) (hbij : Bijective s.router) {i j pi pj : ℕ}
    (hpi : s.Live pi i) (hpj : s.Live pj j) {payload : List UInt8} {f : Frame}
    (hf : frameOf payload = some f) (hc : s.Connects i j f)
    (httl : ttlStep (s.peers pi).isBridge f.hdr ≠ none) (kern : Kern)
    (hclosed : ∀ q, Act.closed q ∈ did s (s.receive kern pi payload) → q ≠ pi ∧ q ≠ pj) :
    (s.receive kern pi payload).router.link (indAA f.pdu) = some ⟨some i, some j⟩ := by
  have hnode : (s.peers pi).nodeIdx = some i := hpi.2.1
  rw [← hnode]
  refine link_receive_connectInd h hpi.1 hf hc.adv hc.ind httl kern ?_ ?_ fun q hq => ?_
  · have hacc := accounted_leads h hpi.1 f.hdr f.pdu
    have hres : (s.accounted pi f.hdr f.pdu).findNodeByAddr (indAdvA f.pdu) = some j := by
      rw [accounted, hnode]
      exact hc.resolves
    have hmem : indAdvA f.pdu ∈ (s.accounted pi f.hdr f.pdu).router.addrs j :=
      (findNodeByAddr_iff hacc.tracked).1 hres
    rwa [hacc.tracked.router, accounted_log, Journal.replay_cons, ← h.router] at hmem
  · obtain hfree | hin := hc.room
    · exact Or.inl ((card_linked_lt_iff h.tidy).2 hfree)
    · obtain ⟨c, hc⟩ := Option.ne_none_iff_exists'.1 hin
      exact Or.inr ((mem_linked h.tidy).2 ⟨_, by simp [Hub.router, hc]; rfl⟩)
  · -- a peer that speaks for one of the two nodes is the peer of that node
    obtain ⟨hqi, hqj⟩ := hclosed q hq
    refine hbij.has_nodeOf h.blank fun k hk => ?_
    rw [hnode, Ends.has_some] at hk
    rcases hk with hk | hk <;> obtain rfl := Option.some.inj hk
    · exact ⟨pi, hpi.bound, hqi⟩
    · exact ⟨pj, hpj.bound, hqj⟩

/-- The hub hands peer `q` the data frame `g` of peer `p`, exactly once, if `propagate` lets it
through from node `i` to node `o`; only the TTL and the RSSI may differ. -/
def HandsOver (s : Hub) (kern : Kern) (p i q o : ℕ) (payload : List UInt8) (g : Frame) : Prop :=
  (({ s with kern } : Hub).propagate (some (s.nodes i)) (s.nodes o) g.hdr.txPowerDbm
      g.hdr.rssi).ok = true →
    ∃ flags rssi, handsTo q (did s (s.receive kern p payload)) =
      [⟨{ g.hdr with flags, rssi }, g.pdu⟩]

/-- **Routes last.** The peer of node `i` sends a CONNECT_IND to an address of the live node `j`,
and there is room for the route. In every continuation in which neither node loses its peer and
no other CONNECT_IND carries the Access Address, every data frame of either peer that
`propagate` lets through is handed to the other peer exactly once. -/
theorem route_stable {s : Hub} (hr : Reachable s) {i j pi pj : ℕ} (hij : i ≠ j)
    (hpi : s.Live pi i) (hpj : s.Live pj j) {payload rest : List UInt8} {f : Frame}
    (hbuf : (s.peers pi).rxbuf = wire payload ++ rest) (hf : frameOf payload = some f)
    (hc : s.Connects i j f) (kern : Kern) (es : List Event)
    (hone : OneHello ((s.step (.message pi kern)).run es).log)
    (hkeep : ∀ a ∈ did s ((s.step (.message pi kern)).run es), Keeps pi i a ∧ Keeps pj j a)
    (hspare : ∀ a ∈ did (s.step (.message pi kern)) ((s.step (.message pi kern)).run es),
      Router.Spares (indAA f.pdu) a)
    {payload' : List UInt8} {g : Frame} (hg : frameOf payload' = some g)
    (hdata : g.hdr.llType = VBT_LL_DATA) (haa : g.hdr.accessAddr = indAA f.pdu) (kern' : Kern) :
    HandsOver ((s.step (.message pi kern)).run es) kern' pi i pj j payload' g ∧
      HandsOver ((s.step (.message pi kern)).run es) kern' pj j pi i payload' g := by
  have h := hr.tracked
  have hm := receive_leads h hpi.1 kern payload
  obtain ⟨hstep, hrouter⟩ := step_message_continues h kern hpi.1 hbuf (length_of_frameOf hf)
  have hrun := run_continues hstep.tracked es
  generalize s.step (.message pi kern) = s1 at hstep hrouter hrun hone hkeep hspare
  generalize s1.run es = s2 at hrun hone hkeep hspare
  have hs1 : Continues s s1 := hm.continues.trans hstep
  rw [did_trans hs1.suffix hrun.suffix] at hkeep
  have hkeep1 : ∀ a ∈ did s s1, Keeps pi i a ∧ Keeps pj j a := fun a ha =>
    hkeep a (List.mem_append_right _ ha)
  have hkeep2 : ∀ a ∈ did s1 s2, Keeps pi i a ∧ Keeps pj j a := fun a ha =>
    hkeep a (List.mem_append_left _ ha)
  have hone1 := hrun.oneHello hone
  have hd := hr.disciplined (hs1.oneHello hone1)
  have hd2 : Disciplined s2.log s2.router := by
    rw [hrun.tracked.router]
    exact disciplined_of_oneHello hrun.tracked.legal hone
  have hbi := hs1.bound h hone1 (fun a ha => (hkeep1 a ha).1) hpi.bound
  have hbj := hs1.bound h hone1 (fun a ha => (hkeep1 a ha).2) hpj.bound
  have hlink : s1.router.link (indAA f.pdu) = some ⟨some i, some j⟩ := by
    have hlocal := hpi.bound.not_bridge hd
    rw [hrouter]
    refine link_of_connects h hd.bijective hpi hpj hf hc (ttlStep_local hlocal f.hdr) kern ?_
    intro q hq
    refine hkeep1 (.closed q) ?_
    rw [did_trans hm.suffix hstep.suffix]
    exact List.mem_append_right _ hq
  -- from there on the route lasts
  have hbi2 := hrun.bound hs1.tracked hone (fun a ha => (hkeep2 a ha).1) hbi
  have hbj2 := hrun.bound hs1.tracked hone (fun a ha => (hkeep2 a ha).2) hbj
  have hheld : Held s1.router (did s1 s2) ⟨some i, some j⟩ := by
    intro k hk
    rcases Ends.has_some.1 hk with hk | hk <;> obtain rfl := Option.some.inj hk
    · exact ⟨pi, hbi, fun a ha => (hkeep2 a ha).1⟩
    · exact ⟨pj, hbj, fun a ha => (hkeep2 a ha).2⟩
  have hlink2 := hrun.route hs1.tracked hone hheld hspare hlink
  rw [← haa] at hlink2
  constructor
  · intro hok
    obtain ⟨flags, hh⟩ := handsTo_data hrun.tracked hd2 hbi2 hbj2 hg hdata hlink2 (if_pos rfl) kern' rfl
    rw [if_pos hok] at hh
    exact ⟨flags, _, hh⟩
  · intro hok
    obtain ⟨flags, hh⟩ := handsTo_data hrun.tracked hd2 hbj2 hbi2 hg hdata hlink2
      (if_neg fun hc => hij (Option.some.inj hc)) kern' rfl
    rw [if_pos hok] at hh
    exact ⟨flags, _, hh⟩

/-- The CONNECT_IND of `linkRun`. -/
def linkInd : Frame :=
  plainFrame VBT_LL_ADV VBT_ADV_ACCESS_ADDR (addr 1) (connectInd (addr 1) (addr 2) 0x50)

/-- `linkRun` up to where the CONNECT_IND of `A` is in the buffer of its peer. -/
def connecting : Hub := (Hub.init 0).run linkRun.dropLast

/-- Meanwhile `C` changes its sensitivity, advertises and leaves. -/
def meanwhile : List Event :=
  [.control (.setSens [0x43] (-80))] ++
    sends 2 (plainFrame VBT_LL_ADV VBT_ADV_ACCESS_ADDR (addr 3) [0, 6, 3, 0, 0, 0, 0, 0]).payload ++
    [.close 2]

theorem route_stable_meanwhile :
    ∃ flags rssi, handsTo 1 (did ((connecting.step (.message 0 Kern.quiet)).run meanwhile)
        (((connecting.step (.message 0 Kern.quiet)).run meanwhile).receive Kern.quiet 0
          dataFrame.payload)) = [⟨{ dataFrame.hdr with flags, rssi }, dataFrame.pdu⟩] := by
  have hr : Reachable connecting := ⟨0, linkRun.dropLast, rfl⟩
  have hbuf : (connecting.peers 0).rxbuf = wire linkInd.payload ++ [] := by decide +kernel
  have hc : connecting.Connects 0 1 linkInd := by
    refine ⟨?_, ?_, ?_, Or.inl ⟨0, ?_⟩⟩ <;> decide +kernel
  have hlive : connecting.Live 0 0 ∧ connecting.Live 1 1 := by decide +kernel
  exact (route_stable hr (by decide) hlive.1 hlive.2 hbuf (by decide +kernel) hc Kern.quiet meanwhile
    (by decide +kernel) (by decide +kernel) (by decide +kernel) (by decide +kernel)
    (by decide +kernel) (by decide +kernel) Kern.quiet).1 (by decide +kernel)

end Hub
end Vbt
