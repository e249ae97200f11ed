import Vbt.Hub.Snoop

/-!
# Reaching a device under its address

A device is found under the address it used last exactly if the hub had room to learn it: a node
holds at most `MAX_ADDRS_PER_NODE` addresses, none is ever given up for a newer one, and a new
address of a node with a full list is not recorded.

* `LastUsed`: the last frame of a node carried an address that no other node used since;
* `reachable_iff`: when the node is then found, and CONNECT_INDs to the address reach it;
* `ninth_address_lost`: a node with nine addresses;
* `addr_owner_unique`: an address has at most one owner, whatever the history.
-/

namespace Vbt
namespace Hub

open Router

/-- An action after the last frame of node `j`: neither a frame of `j`, nor a frame with address `x`
of another node. -/
def NotHeard (j : ℕ) (x : BdAddr) (t : List Act) : Act → Prop
  | .frame q hdr _ => ∀ k, (medium.replay t).nodeOf q = some k → k ≠ j ∧ hdr.txAddr ≠ x
  | _ => True

/-- The most recent frame of node `j` carried `x`, after the history `old`, and no other node sent
a frame with `x` since. -/
def LastUsed (log : List Act) (j : ℕ) (x : BdAddr) (old : List Act) : Prop :=
  ∃ src hdr pdu new, log = new ++ .frame src hdr pdu :: old ∧ hdr.txAddr = x ∧
    (medium.replay old).nodeOf src = some j ∧
      ThroughoutOn (NotHeard j x) (.frame src hdr pdu :: old) new

/-- Peer `p` connects to address `x`: a CONNECT_IND that is not expired, from another address, with
an Access Address that is not in use, while the table has a free entry. -/
structure FreshConnect (s : Hub) (p : ℕ) (x : BdAddr) (payload : List UInt8) (f : Frame) :
    Prop where
  isOpen : (s.peers p).isOpen = true
  frame : frameOf payload = some f
  adv : f.hdr.llType = VBT_LL_ADV
  ind : Snoops f.pdu
  advA : indAdvA f.pdu = x
  txAddr : f.hdr.txAddr ≠ x
  alive : ttlStep (s.peers p).isBridge f.hdr ≠ none
  fresh : s.findConn (indAA f.pdu) = none
  room : ∃ c < MAX_CONNS, (s.conns c).active = false

/-- Frames with other addresses change nothing about who is known under `x`. -/
theorem mem_addrs_apply {r : Router} (h : Owned r) {a : Act} (he : r.enabled a) {x : BdAddr}
    (ha : ∀ q hdr pdu k, a = .frame q hdr pdu → r.nodeOf q = some k → hdr.txAddr ≠ x) (i : ℕ) :
    x ∈ (r.apply a).addrs i ↔ x ∈ r.addrs i := by
  cases a with
  | named k nid =>
    simp only [Router.apply, addNode]
    split_ifs with hik
    · rw [hik, h.inactive k he]
    · rfl
  | hello p nid ph mon node => cases mon <;> cases node <;> rfl
  | frame q hdr pdu =>
    simp only [Router.apply]
    split
    · rename_i k hk
      have hne : x ≠ hdr.txAddr := (ha q hdr pdu k rfl hk).symm
      cases hz : hdr.txAddr.isZero with
      | true => rw [learn_addrs_known (Or.inl hz)]
      | false =>
        rw [mem_learn_addrs h hz]
        simp [hne]
    · rfl
  | snooped aa a b slot => cases slot <;> rfl
  | opened | closed | hand | wrote | dropped | rxWrap | reply => rfl

theorem mem_addrs_of_notHeard {new old : List Act} (hlegal : medium.Legal (new ++ old)) {j : ℕ}
    {x : BdAddr} (h : ThroughoutOn (NotHeard j x) old new) (i : ℕ) :
    x ∈ (medium.replay (new ++ old)).addrs i ↔ x ∈ (medium.replay old).addrs i := by
  refine hlegal.invariant_on
    (I := fun r => x ∈ r.addrs i ↔ x ∈ (medium.replay old).addrs i) Iff.rfl ?_ h
  intro t a ht ih he hn
  refine (mem_addrs_apply (owned_of_legal ht) he ?_ i).trans ih
  rintro q hdr pdu k rfl hk
  exact (hn k hk).2

/-- The hub knows the node under the address iff it knew it before, or had room. -/
theorem mem_addrs_of_lastUsed {log old : List Act} (hlegal : medium.Legal log) {j : ℕ} {x : BdAddr}
    (hz : x.isZero = false) (h : LastUsed log j x old) :
    x ∈ (medium.replay log).addrs j ↔ x ∈ (medium.replay old).addrs j ∨
      ((medium.replay old).addrs j).length < MAX_ADDRS_PER_NODE := by
  obtain ⟨src, hdr, pdu, new, rfl, rfl, hj, hnew⟩ := h
  have hold : medium.Legal old := (Throughout.of_append hlegal).2
  rw [mem_addrs_of_notHeard hlegal hnew, Journal.replay_cons, medium_apply]
  simp only [Router.apply, hj]
  rw [mem_learn_addrs (owned_of_legal hold) hz]
  simp

/-- A CONNECT_IND to a known address records the endpoints. -/
theorem endpoints_of_freshConnect {s : Hub} (h : Tracked s) {i j p : ℕ} {x : BdAddr}
    {payload : List UInt8} {f : Frame} (hp : (s.peers p).nodeIdx = some i)
    (hx : x ∈ (s.nodes j).addrs) (hc : FreshConnect s p x payload f) {kern : Kern}
    (hclosed : ∀ q, Act.closed q ∈ did s (s.receive kern p payload) →
      (s.peers q).nodeIdx ≠ some i ∧ (s.peers q).nodeIdx ≠ some j) :
    ∃ c, (s.receive kern p payload).findConn (indAA f.pdu) = some c ∧
      ((s.receive kern p payload).conns c).nodeA = some i ∧
      ((s.receive kern p payload).conns c).nodeB = some j := by
  have hj : indAdvA f.pdu ∈ (s.router.apply (.frame p f.hdr f.pdu)).addrs j := by
    rw [hc.advA, mem_addrs_apply h.owned (a := .frame p f.hdr f.pdu) hc.isOpen ?_ j]
    · exact hx
    · rintro q hdr pdu k hq -
      cases hq
      exact hc.txAddr
  have hlink := link_receive_connectInd h hc.isOpen hc.frame hc.adv hc.ind hc.alive kern hj
    (Or.inl ((card_linked_lt_iff h.tidy).2 hc.room)) fun q hq => by
      obtain ⟨hi, hj⟩ := hclosed q hq
      rw [hp]
      cases hn : (s.peers q).nodeIdx with
      | none => rfl
      | some k =>
        rw [hn] at hi hj
        simp only [Ends.has, Option.isSome_some, Bool.true_and, Bool.or_eq_false_iff,
          beq_eq_false_iff_ne]
        exact ⟨hi.symm, hj.symm⟩
  rw [hp] at hlink
  obtain ⟨c, hc, hends⟩ := Option.map_eq_some_iff.1 hlink
  exact ⟨c, hc, congrArg Ends.a hends, congrArg Ends.b hends⟩

/-- **A device is reachable under the address it used last** exactly if, when it sent the frame, the
address was one of those the hub knew it by or the hub knew fewer than `MAX_ADDRS_PER_NODE`:
then `find_node_by_addr` gives its node, and a CONNECT_IND of another live node to the address
records the two nodes, unless a socket of theirs fails meanwhile. -/
theorem reachable_iff {s : Hub} (hr : Reachable s) {j : ℕ} {x : BdAddr} {old : List Act}
    (hz : x.isZero = false) (h : LastUsed s.log j x old) :
    (s.findNodeByAddr x = some j ∧
      ∀ i p kern payload f, i ≠ j → (s.peers p).nodeIdx = some i → (s.nodes i).peerIdx = some p →
        FreshConnect s p x payload f →
        (∀ q, Act.closed q ∈ did s (s.receive kern p payload) →
          (s.peers q).nodeIdx ≠ some i ∧ (s.peers q).nodeIdx ≠ some j) →
        ∃ c, (s.receive kern p payload).findConn (indAA f.pdu) = some c ∧
          ((s.receive kern p payload).conns c).nodeA = some i ∧
          ((s.receive kern p payload).conns c).nodeB = some j) ↔
      x ∈ (medium.replay old).addrs j ∨
        ((medium.replay old).addrs j).length < MAX_ADDRS_PER_NODE := by
  have htr := hr.tracked
  rw [← mem_addrs_of_lastUsed htr.legal hz h, ← htr.router]
  constructor
  · rintro ⟨hfind, -⟩
    exact (findNodeByAddr_iff htr).1 hfind
  · intro hx
    refine ⟨(findNodeByAddr_iff htr).2 hx, ?_⟩
    intro i p kern payload f _ hp _ hc hclosed
    exact endpoints_of_freshConnect htr hp hx hc hclosed

/-- An advertisement under the address `n`. -/
def advFrame (n : UInt8) : Frame :=
  plainFrame VBT_LL_ADV VBT_ADV_ACCESS_ADDR (addr n) [0, 6, n, 0, 0, 0, 0, 0]

/-- `A` says hello and advertises under the addresses `1`, …, `n`. -/
def rotatingRun (n : ℕ) : List Event :=
  [.accept 5 false] ++ sends 0 (helloPayload [0x41] 0) ++
    (List.range n).flatMap fun i => sends 0 (advFrame (.ofNat (i + 1))).payload

/-- The last frame of `rotatingRun`, as it was forwarded. -/
theorem lastUsed_rotatingRun {n : ℕ} {m : UInt8}
    (h : ((Hub.init 0).run (rotatingRun n)).log = .frame 0
      { (advFrame m).hdr with flags := ⟨0, 0, 0, 8⟩ } (advFrame m).pdu ::
        ((Hub.init 0).run (rotatingRun n)).log.tail)
    (hj : (medium.replay ((Hub.init 0).run (rotatingRun n)).log.tail).nodeOf 0 = some 0) :
    LastUsed ((Hub.init 0).run (rotatingRun n)).log 0 (addr m)
      ((Hub.init 0).run (rotatingRun n)).log.tail :=
  ⟨0, _, _, [], h, rfl, hj, trivial⟩

theorem reachable_eighth_address :
    ((Hub.init 0).run (rotatingRun 8)).findNodeByAddr (addr 8) = some 0 :=
  ((reachable_iff ⟨0, rotatingRun 8, rfl⟩ (by decide)
    (lastUsed_rotatingRun (by decide +kernel) (by decide +kernel))).2
    (Or.inr (by decide +kernel))).1

/-- The ninth address of a live node is not recorded: nobody is found under it. -/
theorem ninth_address_lost :
    Reachable ((Hub.init 0).run (rotatingRun 9)) ∧
      LastUsed ((Hub.init 0).run (rotatingRun 9)).log 0 (addr 9)
        ((Hub.init 0).run (rotatingRun 9)).log.tail ∧
      (((Hub.init 0).run (rotatingRun 9)).nodes 0).peerIdx = some 0 ∧
      (addr 9).isZero = false ∧
      ((Hub.init 0).run (rotatingRun 9)).findNodeByAddr (addr 9) = none :=
  ⟨⟨0, rotatingRun 9, rfl⟩, lastUsed_rotatingRun (by decide +kernel) (by decide +kernel),
    by decide +kernel, by decide, by decide +kernel⟩

/-! ### Owners -/

/-- The addresses of all active nodes, node after node. -/
def knownAddrs (s : Hub) : List BdAddr :=
  (List.range s.nodes.size).flatMap fun i => if (s.nodes i).active then (s.nodes i).addrs else []

/-- `find_node_by_addr`, were the entries of the table looked at in this order. -/
def ownerAmong (s : Hub) (order : List ℕ) (addr : BdAddr) : Option ℕ :=
  if addr.isZero then none
  else order.find? fun i => (s.nodes i).active && decide (addr ∈ (s.nodes i).addrs)

theorem Tracked.active_of_mem {s : Hub} (h : Tracked s) {k : ℕ} {addr : BdAddr}
    (hk : addr ∈ (s.nodes k).addrs) : (s.nodes k).active = true :=
  (findNodeByAddr_active ((findNodeByAddr_iff h).2 hk)).1

theorem Tracked.nodup_knownAddrs {s : Hub} (h : Tracked s) : s.knownAddrs.Nodup := by
  have hmem : ∀ {i x}, x ∈ (if (s.nodes i).active then (s.nodes i).addrs else []) →
      x ∈ s.router.addrs i := by
    intro i x hx
    split_ifs at hx
    · exact hx
    · cases hx
  refine List.nodup_flatMap.2 ⟨fun i _ => ?_, List.nodup_range.imp fun {i j} hij => ?_⟩
  · split_ifs
    · exact h.owned.nodup i
    · exact List.nodup_nil
  · exact fun x hi hj => hij (h.owned.unique i j x (hmem hi) (hmem hj))

/-- Only one entry can be the owner, so every order of the table finds the same. -/
theorem Tracked.ownerAmong_eq {s : Hub} (h : Tracked s) {order : List ℕ}
    (ho : ∀ i, i < s.nodes.size → i ∈ order) (addr : BdAddr) :
    s.ownerAmong order addr = s.findNodeByAddr addr := by
  cases hz : addr.isZero with
  | true => simp [ownerAmong, findNodeByAddr, hz]
  | false =>
    refine Option.ext fun k => ?_
    rw [findNodeByAddr_iff h, ownerAmong, if_neg (by simp [hz])]
    constructor
    · intro hk
      have := List.find?_some hk
      simp only [Bool.and_eq_true, decide_eq_true_eq] at this
      exact this.2
    · intro hk
      have hact := h.active_of_mem hk
      have hlt : k < s.nodes.size := by
        by_contra hc
        rw [h.tidy.nodes k (by omega)] at hact
        cases hact
      -- the scan stops somewhere, and only at an owner
      cases hfind : order.find? fun i => (s.nodes i).active && decide (addr ∈ (s.nodes i).addrs) with
      | none =>
        have := List.find?_eq_none.1 hfind k (ho k hlt)
        simp [hact, hk] at this
      | some i =>
        have := List.find?_some hfind
        simp only [Bool.and_eq_true, decide_eq_true_eq] at this
        rw [h.owned.unique i k addr this.2 hk]

/-- Learning one address changes nothing about who is known by another. -/
theorem Tracked.mem_addrs_nodeAddAddr {s : Hub} (h : Tracked s) (k i : ℕ) {x y : BdAddr}
    (hxy : y ≠ x) : y ∈ ((s.nodeAddAddr k x).nodes i).addrs ↔ y ∈ (s.nodes i).addrs := by
  rw [nodeAddAddr_node h.tidy]
  show y ∈ (s.router.learn k x).addrs i ↔ y ∈ s.router.addrs i
  cases hz : x.isZero with
  | true => rw [learn_addrs_known (Or.inl hz)]
  | false =>
    rw [mem_learn_addrs h.owned hz]
    simp [hxy]

theorem Tracked.findNodeByAddr_nodeAddAddr {s : Hub} (h : Tracked s) (k : ℕ) {x y : BdAddr}
    (hxy : y ≠ x) : (s.nodeAddAddr k x).findNodeByAddr y = s.findNodeByAddr y := by
  unfold findNodeByAddr
  split_ifs with hz
  · rfl
  · refine Slots.find?_congr (nodeAddAddr_rest s k x).1 fun i _ => ?_
    have hact : ((s.nodeAddAddr k x).nodes i).active = (s.nodes i).active := by
      rw [nodeAddAddr_node h.tidy]
      rfl
    rw [hact]
    congr 1
    exact decide_eq_decide.2 (h.mem_addrs_nodeAddAddr k i hxy)

/-- **Every address has at most one owner.** In a reachable state an address occurs at most once in
the lists of all active nodes, no list has the zero address or more than `MAX_ADDRS_PER_NODE`
entries, `find_node_by_addr` gives the owner whatever the order of the table, and learning an
address changes the owner of no other. -/
theorem addr_owner_unique {s : Hub} (hr : Reachable s) :
    (∀ addr, addr.isZero = false → s.knownAddrs.count addr ≤ 1) ∧
    (∀ k, (s.nodes k).active = true → (s.nodes k).addrs.length ≤ MAX_ADDRS_PER_NODE ∧
      ∀ addr ∈ (s.nodes k).addrs, addr.isZero = false) ∧
    (∀ addr k, s.findNodeByAddr addr = some k ↔
      (s.nodes k).active = true ∧ addr ∈ (s.nodes k).addrs) ∧
    (∀ order, order.Perm (List.range s.nodes.size) → ∀ addr,
      s.ownerAmong order addr = s.findNodeByAddr addr) ∧
    ∀ k x y, y ≠ x → (s.nodeAddAddr k x).findNodeByAddr y = s.findNodeByAddr y ∧
      ∀ i, y ∈ ((s.nodeAddAddr k x).nodes i).addrs ↔ y ∈ (s.nodes i).addrs := by
  have h := hr.tracked
  refine ⟨fun addr _ => List.nodup_iff_count_le_one.1 h.nodup_knownAddrs addr, fun k _ => ?_,
    fun addr k => ?_, fun order ho addr => ?_, fun k x y hxy => ?_⟩
  · exact ⟨h.owned.length k, h.owned.nonzero k⟩
  · rw [findNodeByAddr_iff h]
    exact ⟨fun hk => ⟨h.active_of_mem hk, hk⟩, And.right⟩
  · exact h.ownerAmong_eq (fun i hi => ho.mem_iff.2 (List.mem_range.2 hi)) addr
  · exact ⟨h.findNodeByAddr_nodeAddAddr k hxy, fun i => h.mem_addrs_nodeAddAddr k i hxy⟩

/-- `A` uses the addresses `1` and `2`, then `B` takes over `1`. -/
def migratingRun : List Event :=
  [.accept 5 false, .accept 6 false] ++ sends 0 (helloPayload [0x41] 0) ++
    sends 1 (helloPayload [0x42] 0) ++ sends 0 (advFrame 1).payload ++
      sends 0 (advFrame 2).payload ++
    sends 1 (advFrame 1).payload

theorem addr_owner_unique_migrating :
    ((Hub.init 0).run migratingRun).findNodeByAddr (addr 1) = some 1 ∧
      ((Hub.init 0).run migratingRun).findNodeByAddr (addr 2) = some 0 ∧
      ((Hub.init 0).run migratingRun).ownerAmong [1, 0] (addr 1) =
        ((Hub.init 0).run migratingRun).findNodeByAddr (addr 1) :=
  ⟨by decide +kernel, by decide +kernel,
    (addr_owner_unique ⟨0, migratingRun, rfl⟩).2.2.2.1 [1, 0] (by decide +kernel) (addr 1)⟩

end Hub
end Vbt
