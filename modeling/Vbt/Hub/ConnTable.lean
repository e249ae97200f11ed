import Vbt.Hub.Kept
import Vbt.Hub.Routing

/-!
# The connection table

Entries are made for a CONNECT_IND, written to again for another one with the same Access Address,
and given up when a node goes offline, which a failing `write` can bring about in the middle of the
fan-out of another peer's frame.

* `activeConns`, `Booked`: the counters and the active entries balance, after each function of the
  hub (`Booked.step`);
* `ConnTable`: the invariant of the table;
* `Departs`: what closing a peer does to the table and to the other peers;
* `connTable_in_order`: both, for every reachable state and every close.
-/

namespace Vbt
namespace Hub

/-- The active entries of the connection table. -/
def activeConns (s : Hub) : Finset ℕ :=
  (Finset.range s.conns.size).filter fun c => (s.conns c).active = true

/-- Every connection that was opened is closed or active. -/
def Booked (s : Hub) : Prop :=
  s.stats.connsOpened = s.stats.connsClosed + s.activeConns.card

/-- What the balance looks at. -/
def books (s : Hub) : Slots Conn × ℕ × ℕ := (s.conns, s.stats.connsOpened, s.stats.connsClosed)

theorem activeConns_eq_used (s : Hub) : s.activeConns = s.conns.used fun c => !c.active := by
  ext c
  rw [Slots.mem_used, activeConns, Finset.mem_filter, Finset.mem_range, Bool.not_eq_eq_eq_not,
    Bool.not_false]

theorem conns_connsDropNode_of_lt (s : Hub) (k : ℕ) {c : ℕ} (hc : c < s.conns.size) :
    (s.connsDropNode k).conns c =
      if mentions k (s.conns c) then { s.conns c with active := false } else s.conns c :=
  if_pos hc

theorem booked_iff {s : Hub} : Booked s ↔
    s.stats.connsOpened = s.stats.connsClosed + (s.conns.used fun c => !c.active).card := by
  rw [Booked, activeConns_eq_used]

namespace Booked

variable {s s' : Hub}

theorem init (n : ℕ) : Booked (Hub.init n) := rfl

theorem of_books (h : Booked s) (hb : s'.books = s.books) : Booked s' := by
  obtain ⟨hconns, hopened, hclosed⟩ : s'.conns = s.conns ∧
      s'.stats.connsOpened = s.stats.connsOpened ∧ s'.stats.connsClosed = s.stats.connsClosed := by
    simpa only [books, Prod.mk.injEq] using hb
  unfold Booked activeConns
  rw [hconns, hopened, hclosed]
  exact h

theorem note (h : Booked s) (a : Act) : Booked (s.note a) := h.of_books rfl

/-! ### The entries -/

theorem modConn (h : Booked s) (c : ℕ) {f : Conn → Conn} (hf : ∀ x, (f x).active = x.active) :
    Booked (s.modConn c f) := by
  have hused : ((s.conns.modify c f).used fun c => !c.active) = s.conns.used
      fun c => !c.active := by
    refine Slots.used_congr rfl fun i _ => ?_
    exact s.conns.modify_attr (fun c => !c.active) (fun x => by rw [hf x]) c i
  rw [booked_iff] at h ⊢
  exact h.trans (by rw [← hused]; rfl)

theorem connEntry (h : Booked s) (aa : UInt32) : Booked (s.connEntry aa).1 := by
  obtain ⟨c, -, hd⟩ | ⟨c, conns, -, hA, hd⟩ | ⟨-, -, hd⟩ := connEntry_cases s aa
  · rw [hd]
    exact h
  · rw [hd]
    have hcard := Slots.card_used_alloc hA rfl
    rw [booked_iff] at h ⊢
    show s.stats.connsOpened + 1 = s.stats.connsClosed + (conns.used fun c => !c.active).card
    omega
  · rw [hd]
    exact h

/-- A node that goes offline takes as many entries as are counted. -/
theorem connsDropNode (h : Booked s) (k : ℕ) : Booked (s.connsDropNode k) := by
  have hcount : ((List.range s.conns.size).countP fun i => mentions k (s.conns i)) =
      ((Finset.range s.conns.size).filter fun i => mentions k (s.conns i) = true).card := by
    simp [List.countP_eq_length_filter, Finset.card_def, Multiset.range]
  have hsub : (Finset.range s.conns.size).filter (fun i => mentions k (s.conns i) = true) ⊆
      s.activeConns := by
    refine Finset.monotone_filter_right _ fun i _ hm => ?_
    exact (Bool.and_eq_true_iff.1 hm).1
  have hrest : (s.connsDropNode k).activeConns =
      s.activeConns \ (Finset.range s.conns.size).filter
          fun i => mentions k (s.conns i) = true := by
    ext i
    rw [Finset.mem_sdiff, activeConns, activeConns, Finset.mem_filter, Finset.mem_filter,
      Finset.mem_filter, Finset.mem_range]
    show i < s.conns.size ∧ ((s.connsDropNode k).conns i).active = true ↔ _
    by_cases hi : i < s.conns.size
    · rw [conns_connsDropNode_of_lt s k hi]
      by_cases hm : mentions k (s.conns i) = true
      · simp [hm, hi]
      · simp [hm]
    · simp [hi]
  have hsum := Finset.card_sdiff_add_card_eq_card hsub
  have hb : s.stats.connsOpened = s.stats.connsClosed + s.activeConns.card := h
  show s.stats.connsOpened = s.stats.connsClosed + List.countP _ _ + Finset.card _
  rw [hrest, hcount]
  omega

theorem observeConnectInd (h : Booked s) (ini : Option ℕ) (pdu : List UInt8) :
    Booked (s.observeConnectInd ini pdu) := by
  obtain ⟨-, heq⟩ | ⟨-, -, -, heq⟩ | ⟨t, c, -, he, heq⟩ := observeConnectInd_cases s ini pdu <;>
    rw [heq]
  · exact h
  · exact h.note _
  · have ht : Booked t := by
      have hentry := h.connEntry (indAA pdu)
      rwa [he] at hentry
    refine Booked.note (Booked.modConn ht c ?_) _
    exact fun _ => rfl

/-! ### The sockets -/

theorem peerClose (h : Booked s) (idx : ℕ) : Booked (s.peerClose idx) := by
  unfold Hub.peerClose
  split_ifs
  · exact h
  · cases (s.peers idx).nodeIdx with
    | none => exact h.of_books rfl
    | some k =>
      have hmod : Booked (s.modNode k fun nd =>
        { nd with peerIdx := if nd.peerIdx = some idx then none else nd.peerIdx }) := h.of_books rfl
      exact (hmod.connsDropNode k).of_books rfl

theorem bufferRest (h : Booked s) (idx : ℕ) (data : List UInt8) :
    Booked (s.bufferRest idx data).1 := by
  unfold Hub.bufferRest
  dsimp only
  split_ifs
  · exact h.peerClose idx
  · exact h.of_books rfl
  · exact h.of_books rfl

theorem peerSend (h : Booked s) (idx : ℕ) (data : List UInt8) : Booked (s.peerSend idx data).1 :=
  peerSend_rule s idx data h (fun _ _ => h.of_books rfl) (fun _ ht => ht.peerClose idx)
    fun _ rest ht => ht.bufferRest idx rest

theorem peerFlush (h : Booked s) (idx : ℕ) : Booked (s.peerFlush idx) :=
  peerFlush_rule s idx (h.of_books rfl) (fun _ _ => h.of_books rfl) (fun _ ht => ht.peerClose idx)
    fun _ _ _ ht => ht.of_books rfl

/-! ### Forwarding -/

theorem learnTx (h : Booked s) (node : Option ℕ) (hdr : VbtFrameHdr) :
    Booked (s.learnTx node hdr) := by
  cases node with
  | none => exact h
  | some k =>
    unfold Hub.learnTx nodeAddAddr
    dsimp only
    split_ifs <;> exact h.of_books rfl

theorem kept : Kept fun s s' => Booked s → Booked s' where
  refl _ := id
  trans h h' := h' ∘ h
  node _ _ _ h := h.of_books rfl
  conn _ c _ hf h := h.modConn c hf
  stats s f hf h := h.of_books (by simp only [books, modStats, hf])
  rand _ _ h := h.of_books rfl
  note _ _ _ h := h.note _
  send _ dst data h := h.peerSend dst data
  learn _ node hdr h := h.learnTx node hdr
  snooped s node pdu h := by
    unfold snooped
    split_ifs
    · exact h.observeConnectInd node pdu
    · exact h

/-! ### Events -/

theorem findNode (h : Booked s) (nid : NodeId) (create : Bool) :
    Booked (s.findNode nid create).1 := by
  unfold Hub.findNode
  split
  · exact h
  · split_ifs
    · split
      · exact h.of_books rfl
      · exact h
    · exact h

theorem bindPeerNode (h : Booked s) (pidx : ℕ) (nid : NodeId) (physical : Bool) :
    Booked (s.bindPeerNode pidx nid physical) := by
  have hfind := h.findNode nid true
  unfold Hub.bindPeerNode
  split
  · rename_i t heq
    rw [heq] at hfind
    exact hfind.note _
  · rename_i t k heq
    rw [heq] at hfind
    refine Booked.note (hfind.of_books ?_) _
    unfold bindTables
    dsimp only
    split
    · split_ifs <;> rfl
    · rfl

theorem takeHello (h : Booked s) (pidx : ℕ) (hello : Hello) : Booked (s.takeHello pidx hello) :=
  takeHello_rule (J := fun t _ => Booked t) hello (h.of_books rfl) h (fun _ _ ht => ht.of_books rfl)
    fun _ nid ht => ht.bindPeerNode pidx nid hello.physical

theorem handleMessage (h : Booked s) (idx : ℕ) (payload : List UInt8) :
    Booked (s.handleMessage idx payload) := by
  unfold Hub.handleMessage maybeHello
  dsimp only
  generalize hs : (s.modPeer idx fun p => { p with framesSeen := p.framesSeen + 1 }) = t
  have ht : Booked t := hs ▸ h.of_books rfl
  cases parseHello payload with
  | some hello => exact ht.takeHello idx hello
  | none =>
    dsimp only [Option.map_none]
    split
    · exact kept.forwardFrame _ idx _ _ ht
    · exact ht

theorem peerReadableIter (h : Booked s) (idx : ℕ) : Booked (s.peerReadableIter idx).1 :=
  peerReadableIter_rule h (h.peerClose idx) (fun payload => (h.handleMessage idx payload).note _)
    fun payload _ => (h.handleMessage idx payload).of_books rfl

theorem recvBytes (h : Booked s) (idx : ℕ) (r : ReadRes) : Booked (s.recvBytes idx r) :=
  recvBytes_rule r h (h.peerClose idx) fun _ => h.of_books rfl

theorem peerAlloc (h : Booked s) (fd : ℕ) (bridge : Bool) : Booked (s.peerAlloc fd bridge).1 := by
  unfold Hub.peerAlloc
  split
  · exact h.of_books rfl
  · exact h

theorem ctlDispatch (h : Booked s) (cmd : CtlCmd) : Booked (s.ctlDispatch cmd) :=
  ctlDispatch_rule cmd h (fun ident _ => h.findNode ident true) (fun _ _ _ _ ht => ht.of_books rfl)
    (fun _ _ ht => ht.of_books rfl) (fun _ _ ht => ht.of_books rfl) fun _ _ ht => ht.note _

theorem step (h : Booked s) (e : Event) : Booked (s.step e) := by
  have hkern : ∀ kern, Booked { s with kern } := fun _ => h.of_books rfl
  exact step_rule e h h.peerAlloc (fun _ _ ht => ht.of_books rfl) (fun p r _ => h.recvBytes p r)
    (fun p kern _ _ => (hkern kern).peerReadableIter p) (fun p kern => (hkern kern).peerFlush p)
    h.peerClose fun cmd _ => h.ctlDispatch cmd

end Booked

/-- **The counters balance in every reachable state.** -/
theorem Reachable.booked {s : Hub} (h : Reachable s) : Booked s :=
  h.invariant Booked.init fun _ e hs => hs.step e

/-! ### The table -/

/-- The connection table of a hub. -/
structure ConnTable (s : Hub) : Prop where
  size : s.conns.size ≤ 512
  distinct : ∀ c d, (s.conns c).active = true → (s.conns d).active = true →
    (s.conns c).accessAddr = (s.conns d).accessAddr → c = d
  valid : ∀ c, (s.conns c).active = true →
    (s.conns c).accessAddr ≠ 0 ∧ (s.conns c).accessAddr ≠ VBT_ADV_ACCESS_ADDR
  ends : ∀ c, (s.conns c).active = true →
    ∀ k, (s.conns c).nodeA = some k ∨ (s.conns c).nodeB = some k →
      k < s.nodes.size ∧ (s.nodes k).active = true
  balance : s.stats.connsOpened = s.stats.connsClosed + s.activeConns.card

theorem Reachable.connTable {s : Hub} (h : Reachable s) : ConnTable s where
  size := h.tracked.tidy.connsMax
  distinct := h.tracked.tidy.distinct
  valid c hc := by
    have hv := h.tracked.tidy.valid c hc
    unfold validAA at hv
    simpa using hv
  ends c hc k hk := by
    have htidy := h.tracked.tidy
    have hactive : (s.nodes k).active = true := by
      refine h.tracked.blank.linked (s.conns c).accessAddr (s.conns c).ends k ?_ ?_
      · exact htidy.link_iff.2 ⟨c, hc, rfl, rfl⟩
      · exact Ends.has_some.2 hk
    refine ⟨?_, hactive⟩
    by_contra hlt
    rw [htidy.nodes k (by omega)] at hactive
    cases hactive
  balance := h.booked

/-- From `s` to `s'`, a peer `p` with node `k` is gone: exactly the active entries that mention the
node are given up, and the other peers keep all they have, the nodes they are bound to included. -/
structure Departs (s : Hub) (p k : ℕ) (s' : Hub) : Prop where
  connsSize : s'.conns.size = s.conns.size
  dropped : ∀ c < s.conns.size, (s.conns c).active = true →
    (s.conns c).nodeA = some k ∨ (s.conns c).nodeB = some k →
      s'.conns c = { s.conns c with active := false }
  kept : ∀ c < s.conns.size, ¬ ((s.conns c).active = true ∧
    ((s.conns c).nodeA = some k ∨ (s.conns c).nodeB = some k)) → s'.conns c = s.conns c
  closed : (s'.peers p).isOpen = false
  peer : ∀ q ≠ p, s'.peers q = s.peers q
  node : ∀ q ≠ p, ∀ i, (s'.nodes i).peerIdx = some q ↔ (s.nodes i).peerIdx = some q

section Close

variable {s : Hub} {p k : ℕ} (hopen : (s.peers p).isOpen = true)
  (hnode : (s.peers p).nodeIdx = some k)
include hopen hnode

theorem conns_peerClose {c : ℕ} (hc : c < s.conns.size) : (s.peerClose p).conns c =
    if mentions k (s.conns c) then { s.conns c with active := false } else s.conns c := by
  unfold peerClose
  rw [if_neg (by rw [hopen]; decide), hnode]
  exact if_pos hc

theorem peerIdx_peerClose (i : ℕ) : ((s.peerClose p).nodes i).peerIdx =
    if i = k ∧ (s.nodes i).peerIdx = some p then none else (s.nodes i).peerIdx := by
  have hnodes : (s.peerClose p).nodes = (s.nodes.modify k fun nd =>
      { nd with peerIdx := if nd.peerIdx = some p then none else nd.peerIdx }).modify k fun nd =>
      { nd with active := nd.active && !(nd.autoNamed && nd.addrs.isEmpty) } := by
    unfold peerClose
    rw [if_neg (by rw [hopen]; decide), hnode]
    rfl
  rw [hnodes]
  refine (Slots.modify_attr _ Node.peerIdx ?_ k i).trans ?_
  · exact fun _ => rfl
  by_cases hi : i = k
  · subst hi
    rw [Slots.modify_same]
    dsimp only
    by_cases hp : (s.nodes i).peerIdx = some p
    · rw [if_pos hp, if_pos ⟨rfl, hp⟩]
    · rw [if_neg hp, if_neg fun h => hp h.2]
  · rw [Slots.modify_of_ne _ _ hi, if_neg fun h => hi h.1]

theorem peerClose_departs : Departs s p k (s.peerClose p) where
  connsSize := peerClose_conns_size hopen
  dropped c hc hactive hends := by
    have hm : mentions k (s.conns c) = true := by
      unfold mentions
      simpa [hactive] using hends
    rw [conns_peerClose hopen hnode hc, if_pos hm]
  kept c hc hnot := by
    have hm : ¬ mentions k (s.conns c) = true := by
      unfold mentions
      simpa using hnot
    rw [conns_peerClose hopen hnode hc, if_neg hm]
  closed := by
    rw [peerClose_peers hopen, Slots.set_same]
    rfl
  peer q hq := by rw [peerClose_peers hopen, Slots.set_of_ne _ _ hq]
  node q hq i := by
    rw [peerIdx_peerClose hopen hnode]
    split_ifs with hi
    · rw [hi.2, Option.some.injEq]
      exact ⟨fun h => (by cases h), fun h => absurd h.symm hq⟩
    · rfl

end Close

/-- **The connection table** is in order in every reachable state, and a peer that closes, at
whatever point, takes with it only the connections of its node. -/
theorem connTable_in_order {s : Hub} (h : Reachable s) :
    ConnTable s ∧ ∀ (t : Hub) (p k : ℕ), (t.peers p).isOpen = true →
      (t.peers p).nodeIdx = some k → Departs t p k (t.peerClose p) :=
  ⟨h.connTable, fun _ _ _ hopen hnode => peerClose_departs hopen hnode⟩

theorem connTable_in_order_linkRun :
    ((Hub.init 0).run linkRun).activeConns = {0} ∧ ConnTable ((Hub.init 0).run linkRun) ∧
      Departs ((Hub.init 0).run linkRun) 0 0 (((Hub.init 0).run linkRun).peerClose 0) := by
  have h := connTable_in_order ⟨0, linkRun, rfl⟩
  exact ⟨by decide +kernel, h.1, h.2 _ 0 0 (by decide +kernel) (by decide +kernel)⟩

end Hub
end Vbt
