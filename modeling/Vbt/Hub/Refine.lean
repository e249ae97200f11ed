import Vbt.Hub.Router
import Vbt.Hub.Run

/-!
# The hub refines the router

`Hub.router` reads the abstract state off the tables. `Tracked s` says that the tables are tidy and
that the abstract state is the replay of the log; every operation of the hub keeps it, so routing
properties of whole runs can be proved on the log.

* `Peer.view`, `Node.view`, `Conn.view`, `Alike`: what of the tables matters to routing, and states
  that agree on it;
* `Tidy`: entries beyond the end of a table are unused, and active connections have different and
  valid Access Addresses;
* `Tracked`, with the rules `Tracked.alike` and `Tracked.act`;
* `Leads P s s'`: from `s` the hub gets to `s'` by actions that all satisfy `P`.
-/

namespace Vbt

open Router

/-- What routing sees of a peer. -/
def Peer.view (p : Peer) : Bool × Bool × Bool × Option ℕ :=
  (p.isOpen, p.isBridge, p.isMonitor, p.nodeIdx)

/-- What routing sees of a node. -/
def Node.view (nd : Node) : Bool × Bool × NodeId × List BdAddr × Option ℕ :=
  (nd.active, nd.autoNamed, nd.nodeId, nd.addrs, nd.peerIdx)

/-- The endpoints of a connection. -/
def Conn.ends (c : Conn) : Ends := ⟨c.nodeA, c.nodeB⟩

/-- What routing sees of a connection. -/
def Conn.view (c : Conn) : Bool × UInt32 × Ends := (c.active, c.accessAddr, c.ends)

namespace Hub

/-- The abstract state of the hub. -/
def router (s : Hub) : Router where
  isOpen p := (s.peers p).isOpen
  bridge p := (s.peers p).isBridge
  monitor p := (s.peers p).isMonitor
  nodeOf p := (s.peers p).nodeIdx
  active k := (s.nodes k).active
  name k := (s.nodes k).nodeId
  addrs k := (s.nodes k).addrs
  peerOf k := (s.nodes k).peerIdx
  link aa := (s.findConn aa).map fun c => (s.conns c).ends

/-! ### States that agree on the tables -/

/-- Two states agree on what routing sees. -/
structure Alike (s s' : Hub) : Prop where
  peersSize : s'.peers.size = s.peers.size
  peer : ∀ p, (s'.peers p).view = (s.peers p).view
  nodesSize : s'.nodes.size = s.nodes.size
  node : ∀ k, (s'.nodes k).view = (s.nodes k).view
  connsSize : s'.conns.size = s.conns.size
  conn : ∀ c, (s'.conns c).view = (s.conns c).view

namespace Alike

variable {s s' s'' : Hub}

theorem of_tables (hp : s'.peers = s.peers) (hn : s'.nodes = s.nodes) (hc : s'.conns = s.conns) :
    Alike s s' := by
  constructor <;> intros <;> simp only [hp, hn, hc]

theorem refl (s : Hub) : Alike s s := of_tables rfl rfl rfl

theorem trans (h : Alike s s') (h' : Alike s' s'') : Alike s s'' where
  peersSize := h'.peersSize.trans h.peersSize
  peer p := (h'.peer p).trans (h.peer p)
  nodesSize := h'.nodesSize.trans h.nodesSize
  node k := (h'.node k).trans (h.node k)
  connsSize := h'.connsSize.trans h.connsSize
  conn c := (h'.conn c).trans (h.conn c)

theorem modPeer (s : Hub) (i : ℕ) {f : Peer → Peer} (hf : ∀ p, (f p).view = p.view) :
    Alike s (s.modPeer i f) :=
  { refl s with peer := fun p => s.peers.modify_attr Peer.view hf i p }

theorem modNode (s : Hub) (k : ℕ) {f : Node → Node} (hf : ∀ nd, (f nd).view = nd.view) :
    Alike s (s.modNode k f) :=
  { refl s with node := fun i => s.nodes.modify_attr Node.view hf k i }

theorem modConn (s : Hub) (c : ℕ) {f : Conn → Conn} (hf : ∀ c, (f c).view = c.view) :
    Alike s (s.modConn c f) :=
  { refl s with conn := fun i => s.conns.modify_attr Conn.view hf c i }

theorem findConn (h : Alike s s') (aa : UInt32) : s'.findConn aa = s.findConn aa := by
  simp only [Hub.findConn]
  congr 1
  refine Slots.find?_congr h.connsSize fun i _ => ?_
  have hv := h.conn i
  simp only [Conn.view, Prod.mk.injEq] at hv
  rw [hv.1, hv.2.1]

theorem router_eq (h : Alike s s') : s'.router = s.router := by
  have peer := h.peer
  have node := h.node
  have conn := fun c => congrArg (fun v => v.2.2) (h.conn c)
  simp only [Peer.view, Node.view, Conn.view, Prod.mk.injEq] at peer node conn
  refine Router.ext (funext fun p => (peer p).1) (funext fun p => (peer p).2.1)
    (funext fun p => (peer p).2.2.1) (funext fun p => (peer p).2.2.2) (funext fun k => (node k).1)
    (funext fun k => (node k).2.2.1) (funext fun k => (node k).2.2.2.1)
    (funext fun k => (node k).2.2.2.2) (funext fun aa => ?_)
  simp only [router, h.findConn, conn]

end Alike

/-! ### Tidy tables -/

/-- The tables of a hub: nothing beyond their ends, within their capacities, and no two active
connections with one Access Address. -/
structure Tidy (s : Hub) : Prop where
  peers : ∀ p, s.peers.size ≤ p → (s.peers p).isOpen = false
  nodes : ∀ k, s.nodes.size ≤ k → (s.nodes k).active = false
  conns : ∀ c, s.conns.size ≤ c → (s.conns c).active = false
  distinct : ∀ c d, (s.conns c).active = true → (s.conns d).active = true →
    (s.conns c).accessAddr = (s.conns d).accessAddr → c = d
  valid : ∀ c, (s.conns c).active = true → validAA (s.conns c).accessAddr = true
  peersMax : s.peers.size ≤ MAX_PEERS
  nodesMax : s.nodes.size ≤ MAX_NODES
  connsMax : s.conns.size ≤ MAX_CONNS
  /-- Nothing sets `auto_named`. -/
  auto : ∀ k, (s.nodes k).autoNamed = false

theorem Tidy.init (n : ℕ) : Tidy (Hub.init n) := by
  constructor <;> simp [Hub.init, Peer.closed, Peer.isOpen]

theorem Tidy.alike {s s' : Hub} (h : Tidy s) (ha : Alike s s') : Tidy s' := by
  have peer := fun p => congrArg (fun v => v.1) (ha.peer p)
  have node := ha.node
  have conn := ha.conn
  simp only [Peer.view, Node.view, Conn.view, Prod.mk.injEq] at peer node conn
  constructor
  · intro p hp
    rw [peer]
    exact h.peers p (ha.peersSize ▸ hp)
  · intro k hk
    rw [(node k).1]
    exact h.nodes k (ha.nodesSize ▸ hk)
  · intro c hc
    rw [(conn c).1]
    exact h.conns c (ha.connsSize ▸ hc)
  · intro c d hc hd hcd
    rw [(conn c).1] at hc
    rw [(conn d).1] at hd
    rw [(conn c).2.1, (conn d).2.1] at hcd
    exact h.distinct c d hc hd hcd
  · intro c hc
    rw [(conn c).1] at hc
    rw [(conn c).2.1]
    exact h.valid c hc
  · exact ha.peersSize ▸ h.peersMax
  · exact ha.nodesSize ▸ h.nodesMax
  · exact ha.connsSize ▸ h.connsMax
  · intro k
    rw [(node k).2.1]
    exact h.auto k

/-- In tidy tables the scan for an Access Address finds the one entry that has it. -/
theorem Tidy.findConn_iff {s : Hub} (h : Tidy s) {aa : UInt32} {c : ℕ} :
    s.findConn aa = some c ↔ (s.conns c).active = true ∧ (s.conns c).accessAddr = aa := by
  simp only [findConn]
  constructor
  · intro hc
    split_ifs at hc
    obtain ⟨-, hp, -⟩ := Slots.find?_eq_some_iff.1 hc
    simpa using hp
  · rintro ⟨ha, rfl⟩
    rw [if_pos (h.valid c ha)]
    refine Slots.find?_eq_some_of_unique ?_ (by simp [ha]) fun d _ hd => ?_
    · by_contra hlt
      rw [h.conns c (by omega)] at ha
      cases ha
    · simp only [Bool.and_eq_true, beq_iff_eq] at hd
      exact h.distinct d c hd.1 ha hd.2

theorem Tidy.link_iff {s : Hub} (h : Tidy s) {aa : UInt32} {e : Ends} :
    s.router.link aa = some e ↔
      ∃ c, (s.conns c).active = true ∧ (s.conns c).accessAddr = aa ∧ (s.conns c).ends = e := by
  simp only [router, Option.map_eq_some_iff, h.findConn_iff, and_assoc]

/-! ### Tracking -/

/-- The tables are tidy, and what routing sees of them is what the log says. -/
structure Tracked (s : Hub) : Prop where
  tidy : Tidy s
  router : s.router = medium.replay s.log
  legal : medium.Legal s.log

theorem Tracked.init (n : ℕ) : Tracked (Hub.init n) where
  tidy := Tidy.init n
  router := by
    refine Router.ext rfl rfl rfl rfl rfl rfl rfl rfl (funext fun aa => ?_)
    simp [Hub.router, findConn, Slots.find?, Hub.init, medium, Router.empty]
  legal := trivial

theorem Tracked.alike {s s' : Hub} (h : Tracked s) (ha : Alike s s') (hlog : s'.log = s.log) :
    Tracked s' where
  tidy := h.tidy.alike ha
  router := by rw [ha.router_eq, hlog, h.router]
  legal := hlog ▸ h.legal

/-- The rule for an action. -/
theorem Tracked.act {s s' : Hub} (h : Tracked s) {a : Act} (ht : Tidy s')
    (hr : s'.router = s.router.apply a) (he : s.router.enabled a) (hlog : s'.log = a :: s.log) :
    Tracked s' where
  tidy := ht
  router := by rw [hr, hlog, Journal.replay_cons, ← h.router, medium_apply]
  legal := by
    rw [hlog]
    rw [h.router] at he
    exact ⟨he, h.legal⟩

/-- The rule for an action that routing does not see. -/
theorem Tracked.note {s : Hub} (h : Tracked s) {a : Act} (hr : s.router.apply a = s.router)
    (he : s.router.enabled a) : Tracked (s.note a) :=
  h.act (h.tidy.alike (Alike.of_tables rfl rfl rfl))
    ((Alike.router_eq (Alike.of_tables rfl rfl rfl)).trans hr.symm) he rfl

theorem Tracked.blank {s : Hub} (h : Tracked s) : Blank s.router :=
  h.router ▸ blank_of_legal h.legal

/-! ### Sockets -/

theorem peerClose_of_closed {s : Hub} {idx : ℕ} (ho : (s.peers idx).isOpen = false) :
    s.peerClose idx = s := by
  simp [peerClose, ho]

/-- What `conns_drop_node` does to one entry. -/
theorem drop_mention (k : ℕ) (c : Conn) :
    (if mentions k c then { c with active := false } else c) =
      { c with active := c.active && !c.ends.has (some k) } := by
  obtain ⟨aa, a, b, act, n, ia, ad⟩ := c
  cases act with
  | false => simp [mentions]
  | true =>
    simp only [mentions, Ends.has, Conn.ends, Bool.true_and, Option.isSome_some]
    split_ifs with h
    · rw [h]
      rfl
    · rw [Bool.not_eq_true] at h
      rw [h]
      rfl

section Close

variable {s : Hub} {idx : ℕ} (ho : (s.peers idx).isOpen = true)
include ho

theorem peerClose_log : (s.peerClose idx).log = .closed idx :: s.log := by
  cases hk : (s.peers idx).nodeIdx <;>
    simp [peerClose, ho, hk, note, modNode, connsDropNode, modStats]

theorem peerClose_peers : (s.peerClose idx).peers = s.peers.set idx Peer.closed := by
  cases hk : (s.peers idx).nodeIdx <;>
    simp [peerClose, ho, hk, note, modNode, connsDropNode, modStats]

theorem peerClose_nodes_size : (s.peerClose idx).nodes.size = s.nodes.size := by
  cases hk : (s.peers idx).nodeIdx <;>
    simp [peerClose, ho, hk, note, modNode, connsDropNode, modStats]

/-- The node of a peer that closes stays active, without a peer. -/
theorem peerClose_node (hauto : ∀ k, (s.nodes k).autoNamed = false) (i : ℕ) :
    (s.peerClose idx).nodes i = { s.nodes i with
      peerIdx := if (s.peers idx).nodeIdx = some i ∧ (s.nodes i).peerIdx = some idx then none
        else (s.nodes i).peerIdx } := by
  cases hk : (s.peers idx).nodeIdx with
  | none => simp [peerClose, ho, hk, note]
  | some k =>
    by_cases hik : i = k
    · subst hik
      simp [peerClose, ho, hk, note, modNode, connsDropNode, modStats, hauto]
    · simp [peerClose, ho, hk, note, modNode, connsDropNode, modStats, Slots.modify_of_ne _ _ hik,
        Ne.symm hik]

theorem peerClose_conns_size : (s.peerClose idx).conns.size = s.conns.size := by
  cases hk : (s.peers idx).nodeIdx <;>
    simp [peerClose, ho, hk, note, modNode, connsDropNode, modStats]

/-- The connections of the node of a peer that closes are dropped. -/
theorem peerClose_conn (hconns : ∀ c, s.conns.size ≤ c → (s.conns c).active = false) (c : ℕ) :
    (s.peerClose idx).conns c = { s.conns c with
      active := (s.conns c).active && !(s.conns c).ends.has (s.peers idx).nodeIdx } := by
  cases hk : (s.peers idx).nodeIdx with
  | none => simp [peerClose, ho, hk, note]
  | some k =>
    rw [← drop_mention]
    simp only [peerClose, ho, hk, note, modNode, connsDropNode, modStats, Bool.not_true,
      Bool.false_eq_true, if_false, Slots.mapBelow_apply]
    split_ifs with hlt hm hm
    · rfl
    · rfl
    · simp only [mentions, hconns c (by omega), Bool.false_and, Bool.false_eq_true] at hm
    · rfl

end Close

theorem Tidy.peerClose {s : Hub} (h : Tidy s) {idx : ℕ} (ho : (s.peers idx).isOpen = true) :
    Tidy (s.peerClose idx) := by
  have node := peerClose_node ho h.auto
  have conn := peerClose_conn ho h.conns
  -- a connection that is still active was active
  have was : ∀ c, ((s.peerClose idx).conns c).active = true → (s.conns c).active = true := by
    intro c hc
    rw [conn] at hc
    simp only [Bool.and_eq_true] at hc
    exact hc.1
  have addr : ∀ c, ((s.peerClose idx).conns c).accessAddr = (s.conns c).accessAddr := by
    intro c
    rw [conn]
  constructor
  · intro p hp
    rw [peerClose_peers ho] at hp ⊢
    rw [Slots.set_apply]
    split_ifs
    · rfl
    · exact h.peers p hp
  · intro k hk
    rw [node]
    exact h.nodes k (peerClose_nodes_size ho ▸ hk)
  · intro c hc
    rw [conn, h.conns c (peerClose_conns_size ho ▸ hc), Bool.false_and]
  · intro c d hc hd hcd
    rw [addr, addr] at hcd
    exact h.distinct c d (was c hc) (was d hd) hcd
  · intro c hc
    rw [addr]
    exact h.valid c (was c hc)
  · rw [peerClose_peers ho]
    exact h.peersMax
  · rw [peerClose_nodes_size ho]
    exact h.nodesMax
  · rw [peerClose_conns_size ho]
    exact h.connsMax
  · intro k
    rw [node]
    exact h.auto k

theorem router_peerClose {s : Hub} (h : Tidy s) {idx : ℕ} (ho : (s.peers idx).isOpen = true) :
    (s.peerClose idx).router = s.router.close idx := by
  have node := peerClose_node ho h.auto
  refine Router.ext (funext fun p => ?_) (funext fun p => ?_) (funext fun p => ?_)
    (funext fun p => ?_) (funext fun k => ?_) (funext fun k => ?_) (funext fun k => ?_)
    (funext fun k => ?_) (funext fun aa => Option.ext fun e => ?_)
  · simp only [router, Router.close, peerClose_peers ho, Slots.set_apply]
    split_ifs <;> rfl
  · simp only [router, Router.close, peerClose_peers ho, Slots.set_apply]
    split_ifs <;> rfl
  · simp only [router, Router.close, peerClose_peers ho, Slots.set_apply]
    split_ifs <;> rfl
  · simp only [router, Router.close, peerClose_peers ho, Slots.set_apply]
    split_ifs <;> rfl
  · simp only [router, Router.close, node]
  · simp only [router, Router.close, node]
  · simp only [router, Router.close, node]
  · simp only [router, Router.close, node]
    rfl
  · rw [link_of_close, (h.peerClose ho).link_iff, h.link_iff]
    simp only [peerClose_conn ho h.conns, Bool.and_eq_true, Bool.not_eq_true']
    constructor
    · rintro ⟨c, ⟨ha, hne⟩, hc, rfl⟩
      exact ⟨⟨c, ha, hc, rfl⟩, hne⟩
    · rintro ⟨⟨c, ha, hc, rfl⟩, hne⟩
      exact ⟨c, ⟨ha, hne⟩, hc, rfl⟩

theorem Tracked.peerClose {s : Hub} (h : Tracked s) (idx : ℕ) : Tracked (s.peerClose idx) := by
  cases ho : (s.peers idx).isOpen with
  | false => rwa [peerClose_of_closed ho]
  | true => exact h.act (a := .closed idx) (h.tidy.peerClose ho) (router_peerClose h.tidy ho) ho (peerClose_log ho)

theorem Tracked.peerAlloc {s : Hub} (h : Tracked s) (fd : ℕ) (br : Bool) :
    Tracked (s.peerAlloc fd br).1 := by
  unfold Hub.peerAlloc
  cases hA : s.peers.alloc MAX_PEERS (fun p => !p.isOpen) { fd := some fd, isBridge := br } with
  | none => exact h
  | some r =>
    obtain ⟨i, peers⟩ := r
    obtain ⟨hget, hslot⟩ := Slots.alloc_eq_some hA
    have hfree : (s.peers i).isOpen = false := by
      obtain ⟨-, hf, -⟩ | ⟨rfl, -⟩ := hslot
      · simpa using hf
      · exact h.tidy.peers _ le_rfl
    have hbeyond : ∀ p, peers.size ≤ p → (peers p).isOpen = false := by
      intro p hp
      have hne : p ≠ i ∧ s.peers.size ≤ p := by
        obtain ⟨hlt, -, hsz⟩ | ⟨rfl, -, hsz, -⟩ := hslot <;> omega
      rw [hget, if_neg hne.1]
      exact h.tidy.peers p hne.2
    have hmax := Slots.alloc_size_le hA h.tidy.peersMax
    refine h.act (a := .opened i br) ?_ ?_ hfree rfl
    · exact { h.tidy with peers := hbeyond, peersMax := hmax }
    · refine Router.ext (funext fun p => ?_) (funext fun p => ?_) (funext fun p => ?_)
        (funext fun p => ?_) rfl rfl rfl rfl rfl
      all_goals
        simp only [Hub.router, Hub.note, Router.apply, Router.open, hget]
        split_ifs <;> rfl

/-! ### Nodes -/

theorem Tracked.findNode {s : Hub} (h : Tracked s) (nid : NodeId) (create : Bool) :
    Tracked (s.findNode nid create).1 ∧
      ∀ k, (s.findNode nid create).2 = some k →
          ((s.findNode nid create).1.nodes k).active = true := by
  unfold Hub.findNode
  cases hn : s.nodeByName nid with
  | some k =>
    refine ⟨h, fun k' hk' => ?_⟩
    cases hk'
    obtain ⟨-, hp, -⟩ := Slots.find?_eq_some_iff.1 hn
    simp only [Bool.and_eq_true] at hp
    exact hp.1
  | none =>
    cases create with
    | false => exact ⟨h, fun k hk => by simp at hk⟩
    | true =>
      simp only [if_true]
      cases hA : s.nodes.alloc MAX_NODES (fun nd => !nd.active) (newNode nid) with
      | none => exact ⟨h, fun k hk => by simp at hk⟩
      | some r =>
        obtain ⟨i, nodes⟩ := r
        obtain ⟨hget, hslot⟩ := Slots.alloc_eq_some hA
        have hfree : (s.nodes i).active = false := by
          obtain ⟨-, hf, -⟩ | ⟨rfl, -⟩ := hslot
          · simpa using hf
          · exact h.tidy.nodes _ le_rfl
        have hbeyond : ∀ k, nodes.size ≤ k → (nodes k).active = false := by
          intro k hk
          have hne : k ≠ i ∧ s.nodes.size ≤ k := by
            obtain ⟨hlt, -, hsz⟩ | ⟨rfl, -, hsz, -⟩ := hslot <;> omega
          rw [hget, if_neg hne.1]
          exact h.tidy.nodes k hne.2
        have hmax := Slots.alloc_size_le hA h.tidy.nodesMax
        refine ⟨h.act (a := .named i nid) ?_ ?_ hfree rfl, fun k hk => ?_⟩
        · refine { h.tidy with nodes := hbeyond, nodesMax := hmax, auto := fun k => ?_ }
          simp only [Hub.note, hget]
          split_ifs
          · rfl
          · exact h.tidy.auto k
        · refine Router.ext rfl rfl rfl rfl (funext fun k => ?_) (funext fun k => ?_)
            (funext fun k => ?_) (funext fun k => ?_) rfl
          all_goals
            simp only [Hub.router, Hub.note, Router.apply, addNode, hget]
            split_ifs <;> rfl
        · cases hk
          simp [Hub.note, hget, newNode]

theorem bindTables_peer (s : Hub) (p k : ℕ) (ph : Bool) (q : ℕ) :
    (s.bindTables p k ph).peers q = { s.peers q with
      nodeIdx := if q = p then some k
        else if (s.nodes k).peerIdx = some q then none else (s.peers q).nodeIdx } := by
  cases hk : (s.nodes k).peerIdx with
  | none =>
    by_cases hqp : q = p
    · simp [bindTables, hk, modPeer, modNode, hqp]
    · simp [bindTables, hk, modPeer, modNode, hqp, Slots.modify_of_ne]
  | some o =>
    by_cases hqp : q = p
    · by_cases hop : o = p
      · simp [bindTables, hk, modPeer, modNode, hqp, hop]
      · simp [bindTables, hk, modPeer, modNode, hqp, hop, Slots.modify_of_ne _ _ (Ne.symm hop)]
    · by_cases hop : o = p
      · simp [bindTables, hk, modPeer, modNode, hqp, hop, Slots.modify_of_ne, Ne.symm hqp]
      · by_cases hqo : q = o
        · simp [bindTables, hk, modPeer, modNode, hqo, hop, Slots.modify_of_ne]
        · simp [bindTables, hk, modPeer, modNode, hqp, hop, Slots.modify_of_ne, hqo, Ne.symm hqo]

theorem bindTables_rest (s : Hub) (p k : ℕ) (ph : Bool) :
    (s.bindTables p k ph).nodes = s.nodes.modify k (fun nd =>
        { nd with peerIdx := some p, physical := ph }) ∧
      (s.bindTables p k ph).conns = s.conns ∧ (s.bindTables p k ph).log = s.log ∧
      (s.bindTables p k ph).peers.size = s.peers.size := by
  cases hk : (s.nodes k).peerIdx with
  | none => simp [bindTables, hk, modPeer, modNode]
  | some o =>
    by_cases hop : o = p <;> simp [bindTables, hk, modPeer, modNode, hop]

theorem Tracked.bindTables {s : Hub} (h : Tracked s) {p k : ℕ} (hp : (s.peers p).isOpen = true)
    (hk : (s.nodes k).active = true) (nid : NodeId) (ph : Bool) :
    Tracked ((s.bindTables p k ph).note (.hello p nid ph false (some k))) := by
  obtain ⟨hnodes, hconns, hlog, hsize⟩ := bindTables_rest s p k ph
  have peer := bindTables_peer s p k ph
  have node : ∀ i, (s.bindTables p k ph).nodes i =
      { s.nodes i with
        peerIdx := if i = k then some p else (s.nodes i).peerIdx
        physical := if i = k then ph else (s.nodes i).physical } := by
    intro i
    rw [hnodes, Slots.modify_apply]
    by_cases hik : i = k
    · simp [hik]
    · simp [hik]
  refine h.act (a := .hello p nid ph false (some k)) ?_ ?_ ⟨hp, fun i hi => ?_⟩ ?_
  · constructor <;> simp only [Hub.note, hconns]
    · intro q hq
      rw [peer]
      exact h.tidy.peers q (hsize ▸ hq)
    · intro i hi
      rw [node]
      rw [hnodes] at hi
      exact h.tidy.nodes i hi
    · exact h.tidy.conns
    · exact h.tidy.distinct
    · exact h.tidy.valid
    · exact hsize ▸ h.tidy.peersMax
    · rw [hnodes]
      exact h.tidy.nodesMax
    · exact h.tidy.connsMax
    · intro i
      rw [node]
      exact h.tidy.auto i
  · refine Router.ext (funext fun q => ?_) (funext fun q => ?_) (funext fun q => ?_)
      (funext fun q => ?_) (funext fun i => ?_) (funext fun i => ?_) (funext fun i => ?_)
      (funext fun i => ?_) (funext fun aa => ?_)
    · simp only [Hub.router, Hub.note, peer, Router.apply, Router.bind]
      rfl
    · simp only [Hub.router, Hub.note, peer, Router.apply, Router.bind]
    · simp only [Hub.router, Hub.note, peer, Router.apply, Router.bind]
    · simp only [Hub.router, Hub.note, peer, Router.apply, Router.bind]
      rfl
    · simp only [Hub.router, Hub.note, node, Router.apply, Router.bind]
    · simp only [Hub.router, Hub.note, node, Router.apply, Router.bind]
    · simp only [Hub.router, Hub.note, node, Router.apply, Router.bind]
    · simp only [Hub.router, Hub.note, node, Router.apply, Router.bind]
    · simp only [Hub.router, Hub.note, Hub.findConn, hconns, Router.apply, Router.bind]
  · cases hi
    exact hk
  · rw [Hub.note, hlog]

theorem Tracked.tap {s : Hub} (h : Tracked s) {p : ℕ} (hp : (s.peers p).isOpen = true)
    (nid : NodeId) (ph : Bool) :
    Tracked ((s.modPeer p fun q => { q with isMonitor := true }).note
      (.hello p nid ph true none)) := by
  set f : Peer → Peer := fun q => { q with isMonitor := true }
  have hopen : ∀ q, ((s.peers.modify p f) q).isOpen = (s.peers q).isOpen := fun q =>
    s.peers.modify_attr (f := f) Peer.isOpen (fun _ => rfl) p q
  refine h.act (a := .hello p nid ph true none) ?_ ?_ ⟨hp, fun k hk => by cases hk⟩ rfl
  · exact { h.tidy with peers := fun q hq => (hopen q).trans (h.tidy.peers q hq) }
  · refine Router.ext (funext hopen) (funext fun q => ?_) (funext fun q => ?_) (funext fun q => ?_)
      rfl rfl rfl rfl rfl
    · exact s.peers.modify_attr (f := f) Peer.isBridge (fun _ => rfl) p q
    · simp only [Hub.router, Hub.note, modPeer, Router.apply, Router.tap, Slots.modify_apply]
      split_ifs <;> rfl
    · exact s.peers.modify_attr (f := f) Peer.nodeIdx (fun _ => rfl) p q

theorem leaveOthers_self (nodes : Slots Node) (k : ℕ) (addr : BdAddr) :
    leaveOthers nodes k addr k = nodes k := by
  simp [leaveOthers, Slots.mapBelow_apply]

theorem leaveOthers_active {nodes : Slots Node} {i k : ℕ} (hlt : i < nodes.size) (hik : i ≠ k)
    (ha : (nodes i).active = true) (addr : BdAddr) :
    leaveOthers nodes k addr i =
      withAddrs (nodes i) (dropAddr addr (nodes i).addrs.length (nodes i).addrs) := by
  simp [leaveOthers, Slots.mapBelow_apply, hlt, ha, hik]

theorem leaveOthers_inactive {nodes : Slots Node} {i : ℕ} (k : ℕ)
    (ha : (nodes i).active = false) (addr : BdAddr) : leaveOthers nodes k addr i = nodes i := by
  simp [leaveOthers, Slots.mapBelow_apply, ha]

theorem learnAddr_of_ne (nodes : Slots Node) {i k : ℕ} (hik : i ≠ k) (addr : BdAddr) :
    learnAddr nodes k addr i = leaveOthers nodes k addr i := by
  simp only [learnAddr]
  split_ifs
  · rw [Slots.modify_of_ne _ _ hik]
  · rfl

/-- What a node knows after `node_add_addr`. -/
theorem nodeAddAddr_node {s : Hub} (h : Tidy s) (k : ℕ) (addr : BdAddr) (i : ℕ) :
    (s.nodeAddAddr k addr).nodes i = withAddrs (s.nodes i) ((s.router.learn k addr).addrs i) := by
  by_cases hknown : addr.isZero = true ∨ addr ∈ (s.nodes k).addrs
  · rw [learn_addrs_known hknown]
    obtain hz | hm := hknown
    · rw [nodeAddAddr, if_pos hz]
      rfl
    · simp only [nodeAddAddr, if_pos hm, ite_self]
      rfl
  have hnew : s.nodeAddAddr k addr = { s with nodes := learnAddr s.nodes k addr } := by
    rw [not_or] at hknown
    rw [nodeAddAddr, if_neg hknown.1, if_neg hknown.2]
  rw [hnew]
  by_cases hik : i = k
  · subst hik
    by_cases hlen : (s.nodes i).addrs.length < MAX_ADDRS_PER_NODE
    · rw [learn_addrs_room hknown hlen]
      simp only [learnAddr, leaveOthers_self, if_pos hlen, Slots.modify_same]
      rfl
    · rw [learn_addrs_full hknown hlen]
      simp only [learnAddr, leaveOthers_self, if_neg hlen]
      rfl
  · simp only [learnAddr_of_ne s.nodes hik]
    cases ha : (s.nodes i).active with
    | false =>
      rw [learn_addrs_inactive hknown hik ha, leaveOthers_inactive k ha]
      rfl
    | true =>
      have hlt : i < s.nodes.size := by
        by_contra hc
        rw [h.nodes i (by omega)] at ha
        cases ha
      rw [learn_addrs_other hknown hik ha, leaveOthers_active hlt hik ha]
      rfl

theorem nodeAddAddr_rest (s : Hub) (k : ℕ) (addr : BdAddr) :
    (s.nodeAddAddr k addr).nodes.size = s.nodes.size ∧
      (s.nodeAddAddr k addr).peers = s.peers ∧ (s.nodeAddAddr k addr).conns = s.conns ∧
      (s.nodeAddAddr k addr).log = s.log := by
  simp only [nodeAddAddr]
  split_ifs
  · simp
  · simp
  · simp only [learnAddr, and_self, and_true]
    split_ifs <;> rfl

theorem Tracked.learnTx {s : Hub} (h : Tracked s) {src : ℕ} (ho : (s.peers src).isOpen = true)
    (hdr : VbtFrameHdr) (pdu : List UInt8) :
    Tracked ((s.learnTx (s.peers src).nodeIdx hdr).note (.frame src hdr pdu)) := by
  cases hk : (s.peers src).nodeIdx with
  | none =>
    refine h.note ?_ ho
    simp only [Router.apply, Hub.router, hk]
  | some k =>
    simp only [Hub.learnTx]
    set t := s.modNode k fun nd =>
      { nd with txPdus := nd.txPdus + 1, lastChannel := hdr.channel, lastPhy := hdr.phy } with ht
    have halike : Alike s t := Alike.modNode s k fun _ => rfl
    have htr : Tracked t := h.alike halike rfl
    have node := nodeAddAddr_node htr.tidy k hdr.txAddr
    obtain ⟨hsz, hpeers, hconns, hlog⟩ := nodeAddAddr_rest t k hdr.txAddr
    refine htr.act (a := .frame src hdr pdu) ?_ ?_ ho (by rw [Hub.note, hlog])
    · constructor <;> simp only [Hub.note, hsz, hpeers, hconns]
      · exact htr.tidy.peers
      · intro i hi
        rw [node]
        exact htr.tidy.nodes i hi
      · exact htr.tidy.conns
      · exact htr.tidy.distinct
      · exact htr.tidy.valid
      · exact htr.tidy.peersMax
      · exact htr.tidy.nodesMax
      · exact htr.tidy.connsMax
      · intro i
        rw [node]
        exact htr.tidy.auto i
    · have hnode : t.router.nodeOf src = some k := hk
      simp only [Router.apply, hnode]
      refine Router.ext ?_ ?_ ?_ ?_ (funext fun i => ?_) (funext fun i => ?_) (funext fun i => ?_)
        (funext fun i => ?_) (funext fun aa => ?_)
      · simp only [Hub.router, Hub.note, hpeers, Router.learn]
      · simp only [Hub.router, Hub.note, hpeers, Router.learn]
      · simp only [Hub.router, Hub.note, hpeers, Router.learn]
      · simp only [Hub.router, Hub.note, hpeers, Router.learn]
      · simp only [Hub.router, Hub.note, node, withAddrs, Router.learn]
      · simp only [Hub.router, Hub.note, node, withAddrs, Router.learn]
      · simp only [Hub.router, Hub.note, node, withAddrs]
      · simp only [Hub.router, Hub.note, node, withAddrs, Router.learn]
      · simp only [Hub.router, Hub.note, Hub.findConn, hconns, Router.learn]

/-! ### Connections -/

/-- The three ways `observe_connect_ind` gets an entry, or none. -/
theorem connEntry_cases (s : Hub) (aa : UInt32) :
    (∃ c, s.findConn aa = some c ∧ s.connEntry aa = (s, some c)) ∨
    (∃ c conns, s.findConn aa = none ∧
      s.conns.alloc MAX_CONNS (fun c => !c.active) { accessAddr := aa, active := true } =
        some (c, conns) ∧
      s.connEntry aa = (({ s with conns } : Hub).modStats fun st =>
        { st with connsOpened := st.connsOpened + 1 }, some c)) ∨
    (s.findConn aa = none ∧
      s.conns.alloc MAX_CONNS (fun c => !c.active) { accessAddr := aa, active := true } = none ∧
      s.connEntry aa = (s, none)) := by
  cases hf : s.findConn aa with
  | some c => exact Or.inl ⟨c, rfl, by simp [connEntry, hf]⟩
  | none =>
    cases hA : s.conns.alloc MAX_CONNS (fun c => !c.active) { accessAddr := aa, active := true } with
    | none => exact Or.inr (Or.inr ⟨rfl, rfl, by simp [connEntry, hf, connAlloc, hA]⟩)
    | some r =>
      obtain ⟨c, conns⟩ := r
      exact Or.inr (Or.inl ⟨c, conns, rfl, rfl, by simp [connEntry, hf, connAlloc, hA]⟩)

/-- The entry for `aa` is active and has `aa`, and is not the entry of another Access Address. -/
theorem connEntry_some {s s' : Hub} {aa : UInt32} {c : ℕ} (h : Tidy s) (hv : validAA aa = true)
    (he : s.connEntry aa = (s', some c)) :
    Tidy s' ∧ s'.peers = s.peers ∧ s'.nodes = s.nodes ∧ s'.log = s.log ∧
      s'.overrides = s.overrides ∧ (s'.conns c).active = true ∧ (s'.conns c).accessAddr = aa ∧
      (∀ d, d ≠ c → s'.conns d = s.conns d) ∧
      ((s.conns c).active = true → (s.conns c).accessAddr = aa) := by
  obtain ⟨d, hf, hd⟩ | ⟨d, conns, hf, hA, hd⟩ | ⟨-, -, hd⟩ := connEntry_cases s aa <;>
    rw [hd] at he <;> cases he
  · obtain ⟨ha, haa⟩ := h.findConn_iff.1 hf
    exact ⟨h, rfl, rfl, rfl, rfl, ha, haa, fun _ _ => rfl, fun _ => haa⟩
  · obtain ⟨hget, hslot⟩ := Slots.alloc_eq_some hA
    have hfree : (s.conns c).active = false := by
      obtain ⟨-, hf, -⟩ | ⟨rfl, -⟩ := hslot
      · simpa using hf
      · exact h.conns _ le_rfl
    -- no active entry had `aa` before
    have hnone : ∀ d, (s.conns d).active = true → (s.conns d).accessAddr ≠ aa := by
      intro d ha haa
      rw [h.findConn_iff.2 ⟨ha, haa⟩] at hf
      cases hf
    refine ⟨?_, rfl, rfl, rfl, rfl, by simp [modStats, hget], by simp [modStats, hget],
      fun d hd => by simp [modStats, hget, hd], fun ha => by rw [hfree] at ha; cases ha⟩
    refine { h with
      conns := fun d hd => ?_, distinct := fun d e hd he hde => ?_, valid := fun d hd => ?_,
      connsMax := Slots.alloc_size_le hA h.connsMax } <;> simp only [modStats, hget] at *
    · have hne : d ≠ c ∧ s.conns.size ≤ d := by
        obtain ⟨hlt, -, hsz⟩ | ⟨rfl, -, hsz, -⟩ := hslot <;> omega
      rw [if_neg hne.1]
      exact h.conns d hne.2
    · split_ifs at hd he hde with h1 h2 h2
      · rw [h1, h2]
      · exact absurd hde.symm (hnone e he)
      · exact absurd hde (hnone d hd)
      · exact h.distinct d e hd he hde
    · split_ifs at hd ⊢
      · exact hv
      · exact h.valid d hd

theorem findNodeByAddr_active {s : Hub} {addr : BdAddr} {k : ℕ}
    (h : s.findNodeByAddr addr = some k) :
    (s.nodes k).active = true ∧ addr ∈ (s.nodes k).addrs := by
  simp only [findNodeByAddr] at h
  split_ifs at h
  obtain ⟨-, hp, -⟩ := Slots.find?_eq_some_iff.1 h
  simpa using hp

/-- Recording an entry: one Access Address gets new endpoints. -/
theorem link_record {s t : Hub} (hs : Tidy s) (ht : Tidy t) {c : ℕ} {aa : UInt32} {e : Ends}
    (ha : (t.conns c).active = true) (haa : (t.conns c).accessAddr = aa)
    (hends : (t.conns c).ends = e) (hother : ∀ d, d ≠ c → t.conns d = s.conns d)
    (hsame : (s.conns c).active = true → (s.conns c).accessAddr = aa) (x : UInt32) :
    t.router.link x = if x = aa then some e else s.router.link x := by
  ext e'
  rw [ht.link_iff]
  split_ifs with hx
  · subst hx hends
    rw [Option.some.injEq]
    constructor
    · rintro ⟨d, hd, hda, rfl⟩
      rw [ht.distinct d c hd ha (hda.trans haa.symm)]
    · rintro rfl
      exact ⟨c, ha, haa, rfl⟩
  · rw [hs.link_iff]
    constructor
    · rintro ⟨d, hd, hda, he⟩
      have hdc : d ≠ c := by
        rintro rfl
        exact hx (hda.symm.trans haa)
      rw [hother d hdc] at hd hda he
      exact ⟨d, hd, hda, he⟩
    · rintro ⟨d, hd, hda, he⟩
      have hdc : d ≠ c := by
        rintro rfl
        exact hx (hda.symm.trans (hsame hd))
      rw [← hother d hdc] at hd hda he
      exact ⟨d, hd, hda, he⟩

/-- What `observe_connect_ind` can do. -/
theorem observeConnectInd_cases (s : Hub) (i : Option ℕ) (pdu : List UInt8) :
    (¬ (VBT_CONNIND_AA_OFF + 4 ≤ pdu.length ∧ validAA (indAA pdu) = true) ∧
      s.observeConnectInd i pdu = s) ∨
    ((VBT_CONNIND_AA_OFF + 4 ≤ pdu.length ∧ validAA (indAA pdu) = true) ∧
      s.findConn (indAA pdu) = none ∧
      s.conns.alloc MAX_CONNS (fun c => !c.active) { accessAddr := indAA pdu, active := true } = none ∧
      s.observeConnectInd i pdu =
        s.note (.snooped (indAA pdu) i (s.findNodeByAddr (indAdvA pdu)) none)) ∨
    (∃ s' c, (VBT_CONNIND_AA_OFF + 4 ≤ pdu.length ∧ validAA (indAA pdu) = true) ∧
      s.connEntry (indAA pdu) = (s', some c) ∧
      s.observeConnectInd i pdu = (s'.modConn c fun c => { c with
          nodeA := i, nodeB := s.findNodeByAddr (indAdvA pdu), inita := indInitA pdu,
          adva := indAdvA pdu }).note
        (.snooped (indAA pdu) i (s.findNodeByAddr (indAdvA pdu)) (some c))) := by
  by_cases hlen : VBT_CONNIND_AA_OFF + 4 ≤ pdu.length
  swap
  · exact Or.inl ⟨fun hc => hlen hc.1, by rw [observeConnectInd, if_pos (by omega)]⟩
  by_cases hv : validAA (indAA pdu) = true
  swap
  · exact Or.inl ⟨fun hc => hv hc.2, by simp [observeConnectInd, hv]⟩
  right
  have hshort : ¬ pdu.length < VBT_CONNIND_AA_OFF + 4 := by omega
  have hbad : ¬ (!validAA (indAA pdu)) = true := by simp [hv]
  obtain ⟨c, hf, hd⟩ | ⟨c, conns, hf, hA, hd⟩ | ⟨hf, hA, hd⟩ := connEntry_cases s (indAA pdu)
  · exact Or.inr ⟨s, c, ⟨hlen, hv⟩, hd, by rw [observeConnectInd, if_neg hshort, if_neg hbad, hd]⟩
  · exact Or.inr ⟨_, c, ⟨hlen, hv⟩, hd, by rw [observeConnectInd, if_neg hshort, if_neg hbad, hd]⟩
  · exact Or.inl ⟨⟨hlen, hv⟩, hf, hA, by rw [observeConnectInd, if_neg hshort, if_neg hbad, hd]⟩

theorem Tracked.observeConnectInd {s : Hub} (h : Tracked s) {i : Option ℕ}
    (hi : ∀ k, i = some k → (s.nodes k).active = true) (pdu : List UInt8) :
    Tracked (s.observeConnectInd i pdu) := by
  -- both endpoints exist
  have hact : ∀ k, i = some k ∨ s.findNodeByAddr (indAdvA pdu) = some k →
      s.router.active k = true := by
    rintro k (hk | hk)
    · exact hi k hk
    · exact (findNodeByAddr_active hk).1
  obtain ⟨-, heq⟩ | ⟨⟨-, hv⟩, hf, -, heq⟩ | ⟨s', c, ⟨-, hv⟩, he, heq⟩ :=
    observeConnectInd_cases s i pdu <;> rw [heq]
  · exact h
  · refine h.note rfl ⟨hv, hact, fun _ => ?_⟩
    simp [Hub.router, hf]
  · obtain ⟨ht, hpeers, hnodes, hlog, -, ha, haa, hrest, hsame⟩ := connEntry_some h.tidy hv he
    set f : Conn → Conn := fun c => { c with
      nodeA := i, nodeB := s.findNodeByAddr (indAdvA pdu), inita := indInitA pdu,
      adva := indAdvA pdu } with hf
    set t := (s'.modConn c f).note
      (.snooped (indAA pdu) i (s.findNodeByAddr (indAdvA pdu)) (some c)) with hdef
    have hactive : ∀ d, (t.conns d).active = (s'.conns d).active := fun d =>
      s'.conns.modify_attr (f := f) Conn.active (fun _ => rfl) c d
    have haddr : ∀ d, (t.conns d).accessAddr = (s'.conns d).accessAddr := fun d =>
      s'.conns.modify_attr (f := f) Conn.accessAddr (fun _ => rfl) c d
    have hends : (t.conns c).ends = ⟨i, s.findNodeByAddr (indAdvA pdu)⟩ := by
      simp [hdef, hf, Hub.note, modConn, Conn.ends]
    have hother : ∀ d, d ≠ c → t.conns d = s.conns d := fun d hd =>
      (Slots.modify_of_ne _ f hd).trans (hrest d hd)
    have htidy : Tidy t := by
      refine { ht with
        conns := fun d hd => ?_, distinct := fun d e hd he hde => ?_, valid := fun d hd => ?_ }
      · rw [hactive]
        exact ht.conns d hd
      · rw [hactive] at hd he
        rw [haddr, haddr] at hde
        exact ht.distinct d e hd he hde
      · rw [hactive] at hd
        rw [haddr]
        exact ht.valid d hd
    refine h.act (a := .snooped (indAA pdu) i (s.findNodeByAddr (indAdvA pdu)) (some c)) htidy ?_
      ⟨hv, hact, fun hc => by cases hc⟩ ?_
    · refine Router.ext ?_ ?_ ?_ ?_ ?_ ?_ ?_ ?_ (funext fun aa => ?_)
      · simp only [hdef, Hub.router, Hub.note, modConn, hpeers, Router.apply, record]
      · simp only [hdef, Hub.router, Hub.note, modConn, hpeers, Router.apply, record]
      · simp only [hdef, Hub.router, Hub.note, modConn, hpeers, Router.apply, record]
      · simp only [hdef, Hub.router, Hub.note, modConn, hpeers, Router.apply, record]
      · simp only [hdef, Hub.router, Hub.note, modConn, hnodes, Router.apply, record]
      · simp only [hdef, Hub.router, Hub.note, modConn, hnodes, Router.apply, record]
      · simp only [hdef, Hub.router, Hub.note, modConn, hnodes, Router.apply, record]
      · simp only [hdef, Hub.router, Hub.note, modConn, hnodes, Router.apply, record]
      · exact link_record h.tidy htidy ((hactive c).trans ha) ((haddr c).trans haa) hends hother
          hsame aa
    · simp only [hdef, Hub.note, modConn, hlog]

end Hub
end Vbt
