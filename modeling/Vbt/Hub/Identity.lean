import Vbt.Hub.Receive

/-!
# Identities of nodes

`find_node` makes a node when no active node has the name it is given, and stores the name cut to 63
bytes. A hello cuts the name before the search, the control socket does not: a longer name is never
found, and each command makes another node under the same cut name.

* `Novel`: a node is only made under a new name that is stored whole;
* `Named s`: so it was for every node of the log, with `Named.step`;
* `UniqueNames`: no two active nodes have one name, which `Named` implies;
* `kept_name`: a node keeps its name for ever;
* `updated`: the node that a setting changes;
* `node_ids_unique`: with names of at most 63 bytes on the control socket, identities are unique and
  a repeated setting is one of the same node.
-/

namespace Vbt
namespace Hub

open Router

/-! ### New names -/

/-- A node is made under a name that no active node has and that is stored whole. -/
def Novel (t : List Act) : Act → Prop
  | .named _ nid =>
    (∀ j, (medium.replay t).active j = true → (medium.replay t).name j ≠ nid) ∧
      nid.length < NODE_ID_LEN
  | _ => True

/-- Every node was made under a new name. -/
def Named (s : Hub) : Prop := Throughout Novel s.log

/-- The action makes no node. -/
def MakesNone : Act → Prop
  | .named _ _ => False
  | _ => True

theorem MakesNone.novel {a : Act} (h : MakesNone a) (t : List Act) : Novel t a := by
  cases a with
  | named => exact h.elim
  | _ => trivial

theorem MakesNone.of_delivery {hdr : VbtFrameHdr} {pdu : List UInt8} {q : ℕ} {a : Act}
    (h : Delivery hdr pdu q a) : MakesNone a := by
  cases h <;> trivial

theorem MakesNone.of_forwarding {src : ℕ} {node : Option ℕ} {hdr : VbtFrameHdr} {pdu : List UInt8}
    {a : Act} (h : Forwarding src node hdr pdu a) : MakesNone a := by
  cases h with
  | frame => trivial
  | snooped => trivial
  | delivery hd => exact .of_delivery hd

theorem MakesNone.of_sending {q : ℕ} {a : Act} (h : Sending q a) : MakesNone a := by
  cases h <;> trivial

namespace Named

variable {s s' : Hub}

theorem of_log (h : Named s) (hlog : s'.log = s.log) : Named s' := by
  unfold Named
  rw [hlog]
  exact h

theorem note (h : Named s) {a : Act} (ha : MakesNone a) : Named (s.note a) := ⟨ha.novel _, h⟩

/-- What makes no node keeps the property. -/
theorem leads {P : Act → Prop} (h : Named s) (hl : Leads P s s') (hP : ∀ a, P a → MakesNone a) :
    Named s' := by
  obtain ⟨new, hlog, hnew, -⟩ := hl.steps
  unfold Named
  rw [hlog]
  clear hlog
  induction new with
  | nil => exact h
  | cons a new ih =>
    exact ⟨(hP a (hnew a List.mem_cons_self)).novel _,
      ih fun b hb => hnew b (List.mem_cons_of_mem a hb)⟩

theorem findNode (h : Named s) (ht : Tracked s) {nid : NodeId} (hlen : nid.length < NODE_ID_LEN)
    (create : Bool) : Named (s.findNode nid create).1 := by
  unfold Hub.findNode
  cases hname : s.nodeByName nid with
  | some k => exact h
  | none =>
    cases create with
    | false => exact h
    | true =>
      dsimp only
      rw [if_pos rfl]
      cases s.nodes.alloc MAX_NODES (fun nd => !nd.active) (newNode nid) with
      | none => exact h
      | some r =>
        refine ⟨⟨fun j hj heq => ?_, hlen⟩, h⟩
        -- the scan would have found this one
        have hact : (s.nodes j).active = true := by
          rw [← ht.router] at hj
          exact hj
        have hnid : (s.nodes j).nodeId = nid := by
          rw [← ht.router] at heq
          exact heq
        have hlt : j < s.nodes.size := by
          by_contra hge
          rw [ht.tidy.nodes j (Nat.not_lt.1 hge)] at hact
          cases hact
        have hnot := Slots.find?_eq_none_iff.1 hname j hlt
        rw [hact, hnid, beq_self_eq_true] at hnot
        cases hnot

theorem bindTables (h : Named s) (p k : ℕ) (physical : Bool) : Named (s.bindTables p k physical) :=
  h.of_log (bindTables_rest s p k physical).2.2.1

theorem bindPeerNode (h : Named s) (ht : Tracked s) (p : ℕ) {nid : NodeId}
    (hlen : nid.length < NODE_ID_LEN) (physical : Bool) :
    Named (s.bindPeerNode p nid physical) := by
  have hfind := h.findNode ht hlen true
  unfold Hub.bindPeerNode
  generalize s.findNode nid true = r at hfind
  obtain ⟨t, node⟩ := r
  cases node with
  | none => exact hfind.note trivial
  | some k => exact (Named.bindTables hfind p k physical).note trivial

theorem takeHello (h : Named s) (ht : Tracked s) (p : ℕ) {hello : Hello}
    (hlen : hello.nid.length < NODE_ID_LEN) : Named (s.takeHello p hello) := by
  have hauto : (autoName s.nextAutoId).length < NODE_ID_LEN :=
    Nat.lt_of_le_of_lt (List.length_take_le _ _) (by decide)
  exact takeHello_rule (J := fun t nid => Named t ∧ Tracked t ∧ nid.length < NODE_ID_LEN) hello
    ⟨h.of_log rfl, ht.alike (Alike.of_tables rfl rfl rfl) rfl, hauto⟩ ⟨h, ht, hlen⟩
    (fun t _ hj => Named.note (s := t.modPeer p _) (hj.1.of_log rfl) trivial)
    fun _ _ hj => hj.1.bindPeerNode hj.2.1 p hj.2.2 hello.physical

theorem length_nid {payload : List UInt8} {hello : Hello} (h : parseHello payload = some hello) :
    hello.nid.length < NODE_ID_LEN := by
  unfold parseHello at h
  split_ifs at h
  rw [← Option.some.inj h]
  exact Nat.lt_of_le_of_lt (List.length_take_le _ _) (by decide)

theorem handleMessage (h : Named s) (ht : Tracked s) {p : ℕ} (ho : (s.peers p).isOpen = true)
    (payload : List UInt8) : Named (s.handleMessage p payload) := by
  have hseen : Leads MakesNone s (s.modPeer p
      fun q => { q with framesSeen := q.framesSeen + 1 }) := by
    refine Leads.thenPeer (.refl ht) p ?_ ?_ <;> exact fun _ => rfl
  have hn := h.leads hseen fun _ ha => ha
  have hot : ((s.modPeer p fun q => { q with framesSeen := q.framesSeen + 1 }).peers p).isOpen =
      true := by
    simpa [Hub.modPeer, Peer.isOpen] using ho
  simp only [Hub.handleMessage, maybeHello]
  cases hhello : parseHello payload with
  | some hello => exact hn.takeHello hseen.tracked p (length_nid hhello)
  | none =>
    simp only [Option.map_none]
    cases frameOf payload with
    | some f =>
      refine hn.leads (forwardFrame_leads hseen.tracked hot f.hdr f.pdu) ?_
      rintro a ⟨hdr', -, ha⟩
      exact .of_forwarding ha
    | none => exact hn

end Named

/-- The names in the settings are short enough to be stored whole. -/
def ShortIdents (es : List Event) : Prop :=
  ∀ cmd, .control cmd ∈ es → ∀ ident, CtlCmd.ident cmd = some ident → ident.length < NODE_ID_LEN

theorem Named.ctlDispatch {s : Hub} (h : Named s) (ht : Tracked s) {cmd : CtlCmd}
    (hlen : ∀ ident, CtlCmd.ident cmd = some ident → ident.length < NODE_ID_LEN) :
    Named (s.ctlDispatch cmd) :=
  ctlDispatch_rule cmd h (fun ident hi => h.findNode ht (hlen ident hi) true)
    (fun _ _ _ _ ht => ht.of_log rfl) (fun _ _ ht => ht.of_log rfl) (fun _ _ ht => ht.of_log rfl)
    fun _ _ ht => ht.note trivial

theorem Named.peerAlloc {s : Hub} (h : Named s) (fd : ℕ) (bridge : Bool) :
    Named (s.peerAlloc fd bridge).1 := by
  unfold Hub.peerAlloc
  split
  · exact ⟨trivial, h⟩
  · exact h

/-- **Every event** makes nodes under new names only. -/
theorem Named.step {s : Hub} (h : Named s) (ht : Tracked s) {e : Event} (hshort : ShortIdents [e]) :
    Named (s.step e) := by
  have hk : ∀ kern, Named { s with kern } := fun _ => h.of_log rfl
  have hclose := fun p => h.leads (peerClose_leads ht p) fun _ => MakesNone.of_sending
  refine step_rule e h h.peerAlloc (fun _ _ ht => ht.of_log rfl)
    (fun p r _ => recvBytes_rule r h (hclose p) fun _ => h.of_log rfl) (fun p kern _ ho => ?_)
    (fun p kern => (hk kern).leads (peerFlush_leads (ht.setKern kern) p)
      fun _ => MakesNone.of_sending) hclose ?_
  · have hmsg := fun payload => (hk kern).handleMessage (ht.setKern kern) ho payload
    exact peerReadableIter_rule (hk kern)
      ((hk kern).leads (peerClose_leads (ht.setKern kern) p) fun _ => MakesNone.of_sending)
      (fun payload => (hmsg payload).note trivial) fun payload _ => (hmsg payload).of_log rfl
  · rintro cmd rfl
    exact h.ctlDispatch ht fun ident hi => hshort cmd List.mem_cons_self ident hi

theorem Named.run {s : Hub} (h : Named s) (ht : Tracked s) {es : List Event}
    (hshort : ShortIdents es) : Named (s.run es) := by
  induction es generalizing s with
  | nil => exact h
  | cons e es ih =>
    refine ih (h.step ht fun cmd hcmd => ?_) (step_continues ht e).tracked fun cmd hcmd =>
      hshort cmd (List.mem_cons_of_mem e hcmd)
    rw [List.mem_singleton] at hcmd
    exact hshort cmd (hcmd ▸ List.mem_cons_self)

/-! ### One name, one node -/

/-- No two active nodes have one name. -/
def UniqueNames (r : Router) : Prop :=
  ∀ i j, r.active i = true → r.active j = true → r.name i = r.name j → i = j

theorem UniqueNames.addNode {r : Router} (h : UniqueNames r) (k : ℕ) {nid : NodeId}
    (hnew : ∀ j, r.active j = true → r.name j ≠ nid) (hlen : nid.length < NODE_ID_LEN) :
    UniqueNames (r.addNode k nid) := by
  have hcut : nid.take (NODE_ID_LEN - 1) = nid :=
    List.take_of_length_le (Nat.le_sub_one_of_lt hlen)
  intro i j hi hj heq
  simp only [Router.addNode, hcut] at hi hj heq
  by_cases hik : i = k <;> by_cases hjk : j = k
  · rw [hik, hjk]
  · rw [if_pos hik, if_neg hjk] at heq
    rw [if_neg hjk] at hj
    exact absurd heq.symm (hnew j hj)
  · rw [if_neg hik, if_pos hjk] at heq
    rw [if_neg hik] at hi
    exact absurd heq (hnew i hi)
  · rw [if_neg hik] at hi heq
    rw [if_neg hjk] at hj heq
    exact h i j hi hj heq

/-- Only the making of a node touches names. -/
theorem apply_names {a : Act} (h : MakesNone a) (r : Router) :
    (r.apply a).active = r.active ∧ (r.apply a).name = r.name := by
  cases a with
  | named => exact h.elim
  | frame src hdr pdu =>
    obtain ⟨addrs, ha⟩ := apply_frame r src hdr pdu
    rw [ha]
    exact ⟨rfl, rfl⟩
  | hello p nid ph mon node => cases mon <;> cases node <;> exact ⟨rfl, rfl⟩
  | snooped aa a b slot => cases slot <;> exact ⟨rfl, rfl⟩
  | opened | closed | hand | wrote | dropped | rxWrap | reply => exact ⟨rfl, rfl⟩

theorem makesNone_or (a : Act) : MakesNone a ∨ ∃ k nid, a = .named k nid := by
  cases a with
  | named k nid => exact .inr ⟨k, nid, rfl⟩
  | _ => exact .inl trivial

theorem Named.unique {s : Hub} (h : Named s) (ht : Tracked s) : UniqueNames s.router := by
  rw [ht.router]
  refine ht.legal.invariant_of (I := fun _ r => UniqueNames r) (P := Novel)
    (fun i _ hi => by cases hi) (fun t a _ _ hr _ ha => ?_) h
  rcases makesNone_or a with hnone | ⟨k, nid, rfl⟩
  · obtain ⟨hact, hname⟩ := apply_names hnone (medium.replay t)
    intro i j hi hj heq
    rw [medium_apply, hact] at hi hj
    rw [medium_apply, hname] at heq
    exact hr i j hi hj heq
  · exact hr.addNode k ha.1 ha.2

/-- **A node keeps its name.** -/
theorem kept_name {s s' : Hub} (h : Tracked s) (hc : Continues s s') {k : ℕ}
    (hk : (s.nodes k).active = true) :
    (s'.nodes k).active = true ∧ (s'.nodes k).nodeId = (s.nodes k).nodeId := by
  have hs : ∀ i, (s.nodes i).active = (medium.replay s.log).active i ∧
      (s.nodes i).nodeId = (medium.replay s.log).name i := fun i => by
    rw [← h.router]
    exact ⟨rfl, rfl⟩
  have hs' : ∀ i, (s'.nodes i).active = (medium.replay s'.log).active i ∧
      (s'.nodes i).nodeId = (medium.replay s'.log).name i := fun i => by
    rw [← hc.tracked.router]
    exact ⟨rfl, rfl⟩
  obtain ⟨new, hnew⟩ := hc.suffix
  have hlegal := hc.tracked.legal
  rw [(hs' k).1, (hs' k).2, (hs k).2]
  rw [(hs k).1] at hk
  rw [← hnew] at hlegal ⊢
  refine hlegal.invariant_since (I := fun r => r.active k = true ∧
    r.name k = (medium.replay s.log).name k) (P := fun _ => True) ⟨hk, rfl⟩
    (fun t a _ hr hen _ => ?_) fun _ _ => trivial
  rcases makesNone_or a with hnone | ⟨i, nid, rfl⟩
  · obtain ⟨hact, hname⟩ := apply_names hnone (medium.replay t)
    rw [medium_apply, hact, hname]
    exact hr
  · -- a node is made in a slot without one
    have hne : k ≠ i := by
      rintro rfl
      have hfree : (medium.replay t).active k = false := hen
      rw [hr.1] at hfree
      cases hfree
    simp only [medium_apply, Router.apply, Router.addNode, if_neg hne]
    exact hr

theorem nodeByName_of_unique {s : Hub} (ht : Tidy s) (h : UniqueNames s.router) {k : ℕ}
    (hk : (s.nodes k).active = true) : s.nodeByName (s.nodes k).nodeId = some k := by
  have hlt : k < s.nodes.size := by
    by_contra hge
    rw [ht.nodes k (Nat.not_lt.1 hge)] at hk
    cases hk
  refine Slots.find?_eq_some_of_unique hlt ?_ fun j _ hp => ?_
  · rw [hk, Bool.true_and, beq_self_eq_true]
  · rw [Bool.and_eq_true, beq_iff_eq] at hp
    exact h j k hp.1 hk hp.2

/-! ### Repeated settings -/

/-- The node that a setting under this name changes. -/
def updated (s : Hub) (ident : NodeId) : Option ℕ := (s.settingNode ident).2

/-- No frame has come in yet. -/
def NoFrames (s : Hub) : Prop := ∀ src hdr pdu, Act.frame src hdr pdu ∉ s.log

/-- Without frames no address is learned. -/
theorem NoFrames.addrs {s : Hub} (h : NoFrames s) (ht : Tracked s) (k : ℕ) :
    (s.nodes k).addrs = [] := by
  have hrep : (s.nodes k).addrs = (medium.replay s.log).addrs k := by
    rw [← ht.router]
    rfl
  have hinv : ∀ l : List Act, (∀ src hdr pdu, Act.frame src hdr pdu ∉ l) →
      (medium.replay l).addrs k = [] := by
    intro l hl
    induction l with
    | nil => rfl
    | cons a l ih =>
      have hrest := ih fun src hdr pdu hmem => hl src hdr pdu (List.mem_cons_of_mem a hmem)
      cases a with
      | frame src hdr pdu => exact absurd List.mem_cons_self (hl src hdr pdu)
      | named i nid =>
        show (if k = i then [] else (medium.replay l).addrs k) = []
        rw [hrest, ite_self]
      | hello p nid ph mon node => cases mon <;> cases node <;> exact hrest
      | snooped aa a b slot => cases slot <;> exact hrest
      | opened | closed | hand | wrote | dropped | rxWrap | reply => exact hrest
  rw [hrep]
  exact hinv s.log h

/-- A name that is not an address, or at a time when no address is known, is looked up as a name. -/
theorem resolveNode_name {s : Hub} (ht : Tracked s) {ident : NodeId}
    (h : parseAddr ident = none ∨ NoFrames s) : s.resolveNode ident = s.nodeByName ident := by
  unfold resolveNode
  cases s.nodeByName ident with
  | some k => rfl
  | none =>
    dsimp only
    rcases h with hnone | hno
    · rw [hnone]
    · cases parseAddr ident with
      | none => rfl
      | some a =>
        dsimp only [findNodeByAddr]
        split_ifs
        · rfl
        · refine Slots.find?_eq_none_iff.2 fun i _ => ?_
          rw [hno.addrs ht i]
          simp

/-- The node that is found or made has the name. -/
theorem settingNode_named {s t : Hub} (ht : Tracked s) {ident : NodeId} {k : ℕ}
    (hlen : ident.length < NODE_ID_LEN) (hname : parseAddr ident = none ∨ NoFrames s)
    (h : s.settingNode ident = (t, some k)) :
    (t.nodes k).active = true ∧ (t.nodes k).nodeId = ident := by
  unfold settingNode at h
  rw [resolveNode_name ht hname] at h
  cases hfind : s.nodeByName ident with
  | some i =>
    rw [hfind] at h
    cases h
    obtain ⟨-, hp, -⟩ := Slots.find?_eq_some_iff.1 hfind
    rwa [Bool.and_eq_true, beq_iff_eq] at hp
  | none =>
    rw [hfind] at h
    dsimp only at h
    rw [findNode, hfind] at h
    dsimp only at h
    rw [if_pos rfl] at h
    cases halloc : s.nodes.alloc MAX_NODES (fun nd => !nd.active) (newNode ident) with
    | none =>
      rw [halloc] at h
      cases h
    | some r =>
      rw [halloc] at h
      obtain ⟨i, nodes⟩ := r
      cases h
      have hnew : nodes k = newNode ident := by
        rw [(Slots.alloc_eq_some halloc).1, if_pos rfl]
      constructor
      · exact congrArg Node.active hnew
      · exact (congrArg Node.nodeId hnew).trans
          (List.take_of_length_le (Nat.le_sub_one_of_lt hlen))

theorem ctlDispatch_ident (s : Hub) {cmd : CtlCmd} {ident : NodeId}
    (h : CtlCmd.ident cmd = some ident) :
    ∃ f ok, s.ctlDispatch cmd = s.setNode ident f ok ∧
      ∀ nd : Node, (f nd).active = nd.active ∧ (f nd).nodeId = nd.nodeId := by
  cases cmd with
  | setPos i x y z =>
    cases h
    exact ⟨fun nd => { nd with posX := x, posY := y, posZ := z.getD 0, posSet := true },
      fun nid => .pos nid x y (z.getD 0), rfl, fun _ => ⟨rfl, rfl⟩⟩
  | setTxpower i x =>
    cases h
    exact ⟨fun nd => { nd with txPowerDbm := x, txPowerSet := true }, fun nid => .txpower nid x,
      rfl,
      fun _ => ⟨rfl, rfl⟩⟩
  | setSens i x =>
    cases h
    exact ⟨fun nd => { nd with rxSensDbm := x }, fun nid => .sensitivity nid x, rfl,
      fun _ => ⟨rfl, rfl⟩⟩
  | setRssi | setLoss | clearLink | setPathloss | report | bad => cases h

/-- After a setting, its node is there under the name. -/
theorem ctlDispatch_named {s : Hub} (ht : Tracked s) {cmd : CtlCmd} {ident : NodeId} {k : ℕ}
    (hcmd : CtlCmd.ident cmd = some ident) (hlen : ident.length < NODE_ID_LEN)
    (hname : parseAddr ident = none ∨ NoFrames s) (hk : s.updated ident = some k) :
    ((s.ctlDispatch cmd).nodes k).active = true ∧ ((s.ctlDispatch cmd).nodes k).nodeId = ident := by
  obtain ⟨f, ok, heq, hf⟩ := ctlDispatch_ident s hcmd
  obtain ⟨t, ht'⟩ : ∃ t, s.settingNode ident = (t, some k) := ⟨_, Prod.ext rfl hk⟩
  have hnode := settingNode_named ht hlen hname ht'
  have hset : (s.ctlDispatch cmd).nodes k = f (t.nodes k) := by
    rw [heq, setNode, ht']
    exact t.nodes.modify_same k f
  rw [hset, (hf _).1, (hf _).2]
  exact hnode

/-- **Node identities are unique**, and a setting under a name that is looked up as a name is one of
the same node whenever it is repeated, in every run whose settings have names of up to 63 bytes. -/
theorem node_ids_unique {n : ℕ} {es : List Event} (hshort : ShortIdents es) {s : Hub}
    (hs : s = (Hub.init n).run es) :
    (∀ i j, (s.nodes i).active = true → (s.nodes j).active = true →
      (s.nodes i).nodeId = (s.nodes j).nodeId → i = j) ∧
    ∀ cmd ident es' k, CtlCmd.ident cmd = some ident → ShortIdents (.control cmd :: es') →
      (parseAddr ident = none ∨ NoFrames s) → s.updated ident = some k →
      ((s.step (.control cmd)).run es').updated ident = some k := by
  have ht : Tracked s := Reachable.tracked ⟨n, es, hs⟩
  have hnamed : Named s := by
    rw [hs]
    exact Named.run (s := Hub.init n) trivial (Tracked.init n) hshort
  refine ⟨fun i j hi hj heq => hnamed.unique ht i j hi hj heq, ?_⟩
  intro cmd ident es' k hcmd hshort' hname hk
  have hlen := hshort' cmd List.mem_cons_self ident hcmd
  obtain ⟨hact, hid⟩ := ctlDispatch_named ht hcmd hlen hname hk
  have hstep := step_continues ht (.control cmd)
  have hrun := run_continues hstep.tracked es'
  obtain ⟨hact', hid'⟩ := kept_name hstep.tracked hrun hact
  -- later on the name is found
  have hlater : Named ((s.step (.control cmd)).run es') := hnamed.run ht hshort'
  have hfind := nodeByName_of_unique hrun.tracked.tidy (hlater.unique hrun.tracked) hact'
  rw [hid', show ((s.step (.control cmd)).nodes k).nodeId = ident from hid] at hfind
  rw [updated, settingNode, resolveNode, hfind]

theorem node_ids_unique_lamp :
    (((Hub.init 0).run [.control (.setPos [0x61] 1 2 none)]).run
      [.control (.setSens [0x62] (-80))]).updated [0x61] = some 0 := by
  have hshort : ∀ l : List Event, (∀ e ∈ l, e = .control (.setPos [0x61] 1 2 none) ∨
      e = .control (.setSens [0x62] (-80))) → ShortIdents l := by
    intro l hl cmd hcmd ident hi
    rcases hl _ hcmd with h | h
    · cases h
      cases hi
      decide
    · cases h
      cases hi
      decide
  obtain ⟨-, hrepeat⟩ := @node_ids_unique 0 [] (hshort [] (by simp)) _ rfl
  exact hrepeat (.setPos [0x61] 1 2 none) [0x61] [.control (.setSens [0x62] (-80))] 0 rfl
    (hshort _ (by simp)) (.inl (by decide)) (by decide)

/-- A name of 64 bytes. -/
def longName : NodeId := List.replicate 64 0x61

/-- **A longer name makes a new node each time**, and they have the same id. -/
theorem long_name_doubles :
    (Hub.init 0).updated longName = some 0 ∧
      ((Hub.init 0).step (.control (.setPos longName 1 2 none))).updated longName = some 1 ∧
      ∃ s : Hub, s = (Hub.init 0).run [.control (.setPos longName 1 2 none),
          .control (.setPos longName 1 2 none)] ∧
        (s.nodes 0).active = true ∧ (s.nodes 1).active = true ∧
        (s.nodes 0).nodeId = (s.nodes 1).nodeId := by
  refine ⟨by decide +kernel, by decide +kernel, _, rfl, ?_, ?_, ?_⟩ <;> decide +kernel

end Hub
end Vbt
