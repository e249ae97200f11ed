import Vbt.Hub.Routing

/-!
# Learning addresses and snooping CONNECT_INDs

* `Owned`: every known address belongs to one node; it is kept by every action, and makes
  `find_node_by_addr` the inverse of the address lists (`findNodeByAddr_iff`);
* `linked`: the Access Addresses with an entry; `card_linked_lt_iff` says when one more gets one;
* `receive_connectInd`: what a CONNECT_IND does.
-/

namespace Vbt

namespace Hub

/-! ### Removing an address -/

theorem lastFirst_perm (l : List BdAddr) : (lastFirst l).Perm l := by
  cases hl : l.getLast? with
  | none =>
    rw [List.getLast?_eq_none_iff] at hl
    subst hl
    exact List.Perm.refl _
  | some z =>
    obtain ⟨init, rfl⟩ := List.getLast?_eq_some_iff.1 hl
    simp only [lastFirst, hl, List.dropLast_concat]
    exact (List.perm_append_singleton z init).symm

/-- Up to order, the removal loop is a filter. -/
theorem dropAddr_perm (addr : BdAddr) {n : ℕ} {l : List BdAddr} (h : l.length ≤ n) :
    (dropAddr addr n l).Perm (l.filter (· ≠ addr)) := by
  induction n generalizing l with
  | zero =>
    obtain rfl : l = [] := List.length_eq_zero_iff.1 (by omega)
    exact List.Perm.refl _
  | succ n ih =>
    cases l with
    | nil => exact List.Perm.refl _
    | cons a rest =>
      have hrest : rest.length ≤ n := by simpa using h
      by_cases ha : a = addr
      · -- the last entry takes the place of the removed one, and is looked at again
        have hlen : (lastFirst rest).length ≤ n := by
          rw [(lastFirst_perm rest).length_eq]
          exact hrest
        simp only [dropAddr, ha, if_true, ne_eq, not_true_eq_false, decide_false,
          List.filter_cons_of_neg, Bool.false_eq_true, not_false_eq_true]
        exact (ih hlen).trans ((lastFirst_perm rest).filter _)
      · simp only [dropAddr, ha, if_false, ne_eq, not_false_eq_true, decide_true,
          List.filter_cons_of_pos]
        exact (ih hrest).cons a

theorem mem_dropAddr {addr x : BdAddr} {l : List BdAddr} :
    x ∈ dropAddr addr l.length l ↔ x ∈ l ∧ x ≠ addr := by
  rw [(dropAddr_perm addr le_rfl).mem_iff]
  simp

end Hub

namespace Router

open Hub

/-! ### Owners -/

/-- Every known address is a real one and belongs to one node, and no node has more than it can
hold. -/
structure Owned (r : Router) : Prop where
  nonzero : ∀ k addr, addr ∈ r.addrs k → addr.isZero = false
  unique : ∀ k k' addr, addr ∈ r.addrs k → addr ∈ r.addrs k' → k = k'
  nodup : ∀ k, (r.addrs k).Nodup
  length : ∀ k, (r.addrs k).length ≤ MAX_ADDRS_PER_NODE
  inactive : ∀ k, r.active k = false → r.addrs k = []

theorem Owned.empty : Owned Router.empty := by
  constructor <;> simp [Router.empty]

/-- Who has which address after one was learned. -/
theorem mem_learn_addrs {r : Router} (h : Owned r) {k : ℕ} {addr : BdAddr}
    (hz : addr.isZero = false) (i : ℕ) (x : BdAddr) :
    x ∈ (r.learn k addr).addrs i ↔
      (x ≠ addr ∧ x ∈ r.addrs i) ∨
      (x = addr ∧ i = k ∧ (addr ∈ r.addrs k ∨ (r.addrs k).length < MAX_ADDRS_PER_NODE)) := by
  by_cases hknown : addr ∈ r.addrs k
  · rw [learn_addrs_known (Or.inr hknown)]
    by_cases hx : x = addr
    · subst hx
      simp only [ne_eq, not_true_eq_false, false_and, true_and, hknown, true_or, and_true, false_or]
      exact ⟨fun hi => h.unique i k x hi hknown, fun hi => hi ▸ hknown⟩
    · simp [hx]
  · have hnew : ¬ (addr.isZero = true ∨ addr ∈ r.addrs k) := by simp [hz, hknown]
    by_cases hik : i = k
    · subst hik
      by_cases hlen : (r.addrs i).length < MAX_ADDRS_PER_NODE
      · rw [learn_addrs_room hnew hlen]
        by_cases hx : x = addr <;> simp [hx, hlen]
      · rw [learn_addrs_full hnew hlen]
        by_cases hx : x = addr <;> simp [hx, hlen, hknown]
    · cases ha : r.active i with
      | true =>
        rw [learn_addrs_other hnew hik ha, mem_dropAddr]
        by_cases hx : x = addr <;> simp [hx, hik]
      | false =>
        rw [learn_addrs_inactive hnew hik ha, h.inactive i ha]
        simp [hik]

theorem Owned.learn {r : Router} (h : Owned r) {k : ℕ} (hk : r.active k = true) (addr : BdAddr) :
    Owned (r.learn k addr) := by
  by_cases hknown : addr.isZero = true ∨ addr ∈ r.addrs k
  · have hsame : (r.learn k addr).addrs = r.addrs := funext fun _ => learn_addrs_known hknown
    constructor
    · rw [hsame]
      exact h.nonzero
    · rw [hsame]
      exact h.unique
    · rw [hsame]
      exact h.nodup
    · rw [hsame]
      exact h.length
    · rw [hsame]
      exact h.inactive
  have hz : addr.isZero = false := by
    rw [not_or, Bool.not_eq_true] at hknown
    exact hknown.1
  have hnew : addr ∉ r.addrs k := (not_or.1 hknown).2
  have hmem := mem_learn_addrs h (k := k) hz
  constructor
  · intro i x hx
    obtain ⟨-, hx⟩ | ⟨rfl, -⟩ := (hmem i x).1 hx
    · exact h.nonzero i x hx
    · exact hz
  · intro i i' x hx hx'
    obtain ⟨hne, hx⟩ | ⟨rfl, rfl, -⟩ := (hmem i x).1 hx
    · obtain ⟨-, hx'⟩ | ⟨rfl, -⟩ := (hmem i' x).1 hx'
      · exact h.unique i i' x hx hx'
      · exact absurd rfl hne
    · obtain ⟨hne, -⟩ | ⟨-, rfl, -⟩ := (hmem i' x).1 hx'
      · exact absurd rfl hne
      · rfl
  · intro i
    by_cases hik : i = k
    · subst hik
      by_cases hlen : (r.addrs i).length < MAX_ADDRS_PER_NODE
      · rw [learn_addrs_room hknown hlen]
        exact List.nodup_append.2 ⟨h.nodup i, List.nodup_singleton addr, fun x hx y hy hxy => by
          rw [List.mem_singleton.1 hy] at hxy
          exact hnew (hxy ▸ hx)⟩
      · rw [learn_addrs_full hknown hlen]
        exact h.nodup i
    · cases ha : r.active i with
      | true =>
        rw [learn_addrs_other hknown hik ha, (dropAddr_perm addr le_rfl).nodup_iff]
        exact (h.nodup i).filter _
      | false =>
        rw [learn_addrs_inactive hknown hik ha]
        exact h.nodup i
  · intro i
    by_cases hik : i = k
    · subst hik
      by_cases hlen : (r.addrs i).length < MAX_ADDRS_PER_NODE
      · rw [learn_addrs_room hknown hlen, List.length_append, List.length_singleton]
        omega
      · rw [learn_addrs_full hknown hlen]
        exact h.length i
    · cases ha : r.active i with
      | true =>
        rw [learn_addrs_other hknown hik ha, (dropAddr_perm addr le_rfl).length_eq]
        exact (List.length_filter_le _ _).trans (h.length i)
      | false =>
        rw [learn_addrs_inactive hknown hik ha]
        exact h.length i
  · intro i hi
    have hik : i ≠ k := by
      rintro rfl
      rw [show r.active i = false from hi] at hk
      cases hk
    rw [learn_addrs_inactive hknown hik hi]
    exact h.inactive i hi

/-- Every action keeps the owners of addresses unique. -/
theorem Owned.apply {r : Router} (h : Owned r) (hb : Blank r) {a : Act} (he : r.enabled a) :
    Owned (r.apply a) := by
  cases a with
  | named k nid =>
    -- the entry was unused, so it had no addresses to lose
    have hsame : (r.addNode k nid).addrs = r.addrs := by
      funext i
      simp only [addNode]
      split_ifs with hik
      · rw [hik, h.inactive k he]
      · rfl
    constructor
    · rw [Router.apply, hsame]
      exact h.nonzero
    · rw [Router.apply, hsame]
      exact h.unique
    · rw [Router.apply, hsame]
      exact h.nodup
    · rw [Router.apply, hsame]
      exact h.length
    · intro i hi
      rw [Router.apply, hsame]
      simp only [Router.apply, addNode] at hi
      split_ifs at hi
      exact h.inactive i hi
  | hello p nid ph mon node =>
    cases mon <;> cases node <;>
      exact ⟨h.nonzero, h.unique, h.nodup, h.length, h.inactive⟩
  | frame src hdr pdu =>
    simp only [Router.apply]
    split
    · rename_i k hk
      exact h.learn (hb.active src k hk) hdr.txAddr
    · exact h
  | snooped aa a b slot =>
    cases slot <;> exact ⟨h.nonzero, h.unique, h.nodup, h.length, h.inactive⟩
  | opened | closed =>
    exact ⟨h.nonzero, h.unique, h.nodup, h.length, h.inactive⟩
  | hand | wrote | dropped | rxWrap | reply => exact h

theorem owned_of_legal {log : List Act} (h : medium.Legal log) : Owned (medium.replay log) :=
  (h.invariant (I := fun r => Blank r ∧ Owned r) ⟨Blank.empty, Owned.empty⟩
    fun _ _ hr he => ⟨hr.1.apply he, hr.2.apply hr.1 he⟩).2

end Router

namespace Hub

open Router

theorem Tracked.owned {s : Hub} (h : Tracked s) : Owned s.router :=
  h.router ▸ owned_of_legal h.legal

/-- `find_node_by_addr` finds the owner of an address. -/
theorem findNodeByAddr_iff {s : Hub} (h : Tracked s) {addr : BdAddr} {k : ℕ} :
    s.findNodeByAddr addr = some k ↔ addr ∈ (s.nodes k).addrs := by
  constructor
  · exact fun hk => (findNodeByAddr_active hk).2
  · intro hk
    have howned := h.owned
    have hact : (s.nodes k).active = true := by
      by_contra hc
      have hnil : (s.nodes k).addrs = [] := howned.inactive k (Bool.eq_false_iff.2 hc)
      rw [hnil] at hk
      cases hk
    have hlt : k < s.nodes.size := by
      by_contra hc
      rw [h.tidy.nodes k (by omega)] at hact
      cases hact
    rw [findNodeByAddr, if_neg (by simp [howned.nonzero k addr hk])]
    refine Slots.find?_eq_some_of_unique hlt (by simp [hact, hk]) fun i _ hi => ?_
    simp only [Bool.and_eq_true, decide_eq_true_eq] at hi
    exact howned.unique i k addr hi.2 hk

/-! ### The connection table -/

/-- The Access Addresses that have an entry. -/
def linked (s : Hub) : Finset UInt32 :=
  (s.conns.used fun c => !c.active).image fun c => (s.conns c).accessAddr

theorem mem_used_conns {s : Hub} (h : Tidy s) {c : ℕ} :
    (c ∈ s.conns.used fun c => !c.active) ↔ (s.conns c).active = true := by
  rw [Slots.mem_used, Bool.not_eq_false']
  refine ⟨fun hc => hc.2, fun hc => ⟨?_, hc⟩⟩
  by_contra hlt
  rw [h.conns c (by omega)] at hc
  cases hc

theorem mem_linked {s : Hub} (h : Tidy s) {aa : UInt32} :
    aa ∈ s.linked ↔ ∃ e, s.router.link aa = some e := by
  simp only [linked, Finset.mem_image, mem_used_conns h]
  constructor
  · rintro ⟨c, hc, rfl⟩
    exact ⟨_, h.link_iff.2 ⟨c, hc, rfl, rfl⟩⟩
  · rintro ⟨e, he⟩
    obtain ⟨c, hc, haa, -⟩ := h.link_iff.1 he
    exact ⟨c, hc, haa⟩

theorem card_linked {s : Hub} (h : Tidy s) :
    s.linked.card = (s.conns.used fun c => !c.active).card := by
  refine Finset.card_image_of_injOn fun c hc d hd hcd => ?_
  exact h.distinct c d ((mem_used_conns h).1 hc) ((mem_used_conns h).1 hd) hcd

theorem card_linked_le {s : Hub} (h : Tidy s) : s.linked.card ≤ MAX_CONNS := by
  rw [card_linked h]
  refine (Finset.card_filter_le _ _).trans ?_
  rw [Finset.card_range]
  exact h.connsMax

/-- The table has a free entry exactly if fewer Access Addresses than it has places are linked. -/
theorem card_linked_lt_iff {s : Hub} (h : Tidy s) :
    s.linked.card < MAX_CONNS ↔ ∃ c < MAX_CONNS, (s.conns c).active = false := by
  rw [card_linked h]
  constructor
  · intro hlt
    by_contra hno
    push Not at hno
    have hsub : Finset.range MAX_CONNS ⊆ s.conns.used fun c => !c.active := fun c hc =>
      (mem_used_conns h).2 (by simpa using hno c (Finset.mem_range.1 hc))
    have := Finset.card_le_card hsub
    rw [Finset.card_range] at this
    omega
  · rintro ⟨c, hc, hfree⟩
    have hsub : (s.conns.used fun c => !c.active) ⊆ (Finset.range MAX_CONNS).erase c := by
      intro d hd
      obtain ⟨hds, hd'⟩ := Slots.mem_used.1 hd
      have hdc : d ≠ c := by
        rintro rfl
        rw [hfree] at hd'
        cases hd'
      exact Finset.mem_erase.2 ⟨hdc, Finset.mem_range.2 (hds.trans_le h.connsMax)⟩
    have := Finset.card_le_card hsub
    rw [Finset.card_erase_of_mem (Finset.mem_range.2 hc), Finset.card_range] at this
    omega

/-- An Access Address gets an entry unless the table is full of others. -/
theorem alloc_none_iff {s : Hub} (h : Tidy s) {aa : UInt32} :
    s.conns.alloc MAX_CONNS (fun c => !c.active) { accessAddr := aa, active := true } = none ↔
      MAX_CONNS ≤ s.linked.card := by
  constructor
  · intro hnone
    obtain ⟨hcap, hall⟩ := Slots.alloc_eq_none_iff.1 hnone
    by_contra hlt
    obtain ⟨c, hc, hfree⟩ := (card_linked_lt_iff h).1 (by omega)
    have := hall c (by omega)
    rw [hfree] at this
    cases this
  · intro hfull
    rw [← Option.not_isSome_iff_eq_none]
    intro hsome
    obtain ⟨⟨c, conns⟩, hA⟩ := Option.isSome_iff_exists.1 hsome
    have hlt : s.linked.card < MAX_CONNS := by
      rw [card_linked_lt_iff h]
      obtain ⟨-, ⟨hc, hf, -⟩ | ⟨rfl, hc, -⟩⟩ := Slots.alloc_eq_some hA
      · exact ⟨c, hc.trans_le h.connsMax, by simpa using hf⟩
      · exact ⟨_, hc, h.conns _ le_rfl⟩
    omega

theorem linked_subset {s t : Hub} (hs : Tidy s) (ht : Tidy t)
    (h : ∀ aa e, t.router.link aa = some e → s.router.link aa = some e) : t.linked ⊆ s.linked := by
  intro aa haa
  obtain ⟨e, he⟩ := (mem_linked ht).1 haa
  exact (mem_linked hs).2 ⟨e, h aa e he⟩

/-! ### CONNECT_INDs -/

theorem did_snooped {t : Hub} (h : Tracked t) (node : Option ℕ) {pdu : List UInt8}
    (hind : Snoops pdu) : ∃ slot, did t (t.snooped node pdu) =
        [.snooped (indAA pdu) node (t.findNodeByAddr (indAdvA pdu)) slot] ∧
      (slot = none → MAX_CONNS ≤ t.linked.card ∧ indAA pdu ∉ t.linked) := by
  obtain ⟨hci, hgo⟩ := hind
  simp only [snooped, hci, if_true]
  obtain ⟨hno, -⟩ | ⟨-, hfind, hA, heq⟩ | ⟨s', c, -, he, heq⟩ := observeConnectInd_cases t node pdu
  · exact absurd hgo hno
  · refine ⟨none, did_eq _ (by rw [heq]; rfl),
      fun _ => ⟨(alloc_none_iff h.tidy).1 hA, fun hm => ?_⟩⟩
    obtain ⟨e, he⟩ := (mem_linked h.tidy).1 hm
    simp [Hub.router, hfind] at he
  · obtain ⟨-, -, -, hlog, -⟩ := connEntry_some h.tidy hgo.2 he
    refine ⟨some c, did_eq _ ?_, fun hc => by cases hc⟩
    rw [heq]
    simp only [Hub.note, Hub.modConn, hlog]
    rfl

/-- What a forwarded CONNECT_IND does: the sender is accounted for and the monitors hear it, the
route is made from the sender's node to the owner of the advertiser's address, in a table entry
if there is one for the Access Address, and the frame is broadcast. -/
theorem receive_connectInd {s : Hub} (h : Tracked s) {src : ℕ} (ho : (s.peers src).isOpen = true)
    {payload : List UInt8} {f : Frame} (hf : frameOf payload = some f)
    (hadv : f.hdr.llType = VBT_LL_ADV) (hind : Snoops f.pdu)
    (httl : ttlStep (s.peers src).isBridge f.hdr ≠ none) (kern : Kern) :
    ∃ b slot later earlier hdr', did s (s.receive kern src payload) =
        later ++ .snooped (indAA f.pdu) (s.peers src).nodeIdx b slot :: earlier ∧
      (∀ a ∈ later, ∃ q ≠ src, Delivery hdr' f.pdu q a) ∧
      (∀ a ∈ earlier, a = .frame src hdr' f.pdu ∨
        ∃ q ≠ src, (s.peers q).isMonitor = true ∧ Delivery hdr' f.pdu q a) ∧
      (∃ flags, hdr' = { f.hdr with flags }) ∧
      (∀ k, b = some k ↔ indAdvA f.pdu ∈ (s.router.apply (.frame src f.hdr f.pdu)).addrs k) ∧
      (slot = none → MAX_CONNS ≤ s.linked.card ∧ indAA f.pdu ∉ s.linked) := by
  have hrt : Tracked (s.ready kern src) := (ready_leads (P := fun _ => True) h kern src).tracked
  have hro : ((s.ready kern src).peers src).isOpen = true := (ready_isOpen s kern src src).trans ho
  have hrouter : (s.ready kern src).router = s.router := (ready_alike s kern src).router_eq
  have hnode := ready_nodeIdx s kern src src
  have hbridge := ready_isBridge s kern src src
  have hdid : did s (s.receive kern src payload) =
      did (s.ready kern src) ((s.ready kern src).forwardFrame src f.hdr f.pdu) := by
    rw [← receive_frame hf]
    rfl
  rw [hdid]
  generalize s.ready kern src = r at hrt hro hrouter hnode hbridge
  obtain ⟨hdr', httl'⟩ := Option.ne_none_iff_exists'.1 (hbridge ▸ httl)
  obtain ⟨flags, hflags⟩ := ttlStep_eq_some httl'
  have hadv' : hdr'.llType = VBT_LL_ADV := by
    rw [hflags]
    exact hadv
  have hacc := accounted_leads hrt hro hdr' f.pdu
  have htap := tapped_leads hrt hro hdr' f.pdu
  have hact := tapped_active hrt hro hdr' f.pdu
  have hshr := tapped_shrinks hrt hro hdr' f.pdu
  have haccr : (r.accounted src hdr' f.pdu).router = s.router.apply (.frame src hdr' f.pdu) := by
    rw [hacc.tracked.router, accounted_log, Journal.replay_cons, ← hrt.router, hrouter,
      medium_apply]
  have hsame : s.router.apply (.frame src hdr' f.pdu) = s.router.apply (.frame src f.hdr f.pdu) := by
    rw [hflags]
    rfl
  obtain ⟨st, hst⟩ := forwardAdv_eq (r.tapped src hdr' f.pdu) src (r.peers src).nodeIdx hdr' f.pdu
  have hstats : ∀ u : Hub, did r (u.modStats st) = did r u := fun _ => rfl
  rw [forwardFrame_adv httl' hadv', hst, hstats]
  -- the snoop itself, in the state the monitors left
  generalize r.tapped src hdr' f.pdu = t at htap hact hshr
  have hsn := snooped_leads htap.tracked hact f.pdu
  have hfan := fanOut_leads hsn.tracked src (r.peers src).nodeIdx hdr' f.pdu
  obtain ⟨slot, hslot, hfull⟩ := did_snooped htap.tracked (r.peers src).nodeIdx hind
  refine ⟨t.findNodeByAddr (indAdvA f.pdu), slot,
    did (t.snooped (r.peers src).nodeIdx f.pdu)
      ((t.snooped (r.peers src).nodeIdx f.pdu).fanOut src (r.peers src).nodeIdx hdr' f.pdu),
    did (r.accounted src hdr' f.pdu) t ++ [.frame src hdr' f.pdu], hdr', ?_, ?_, ?_,
      ⟨flags, hflags⟩,
    fun k => ?_, fun hnone => ?_⟩
  · rw [did_trans (hacc.suffix.trans (htap.suffix.trans hsn.suffix)) hfan.suffix,
      did_trans (hacc.suffix.trans htap.suffix) hsn.suffix, did_trans hacc.suffix htap.suffix,
      did_eq [.frame src hdr' f.pdu] (accounted_log r src hdr' f.pdu), hslot, ← hnode]
    rfl
  · intro a ha
    obtain ⟨q, ⟨hne, -⟩, hd⟩ := hfan.did_forall ha
    exact ⟨q, hne, hd⟩
  · intro a ha
    obtain ha | ha := List.mem_append.1 ha
    · obtain ⟨q, ⟨hne, -, hmon⟩, hd⟩ := htap.did_forall ha
      have hmon' : (r.peers q).isMonitor = (s.peers q).isMonitor :=
        congrFun (congrArg Router.monitor hrouter) q
      exact Or.inr ⟨q, hne, hmon' ▸ hmon, hd⟩
    · exact Or.inl (List.mem_singleton.1 ha)
  · rw [findNodeByAddr_iff htap.tracked, ← hsame, ← haccr, ← hshr.addrs]
    rfl
  · -- what is linked after the monitors was linked before
    obtain ⟨hcard, hmem⟩ := hfull hnone
    have hsub : t.linked ⊆ s.linked := by
      refine linked_subset h.tidy htap.tracked.tidy fun aa e he => ?_
      have hl := hshr.link aa e he
      obtain ⟨addrs, hupd⟩ := s.router.apply_frame src hdr' f.pdu
      rw [haccr, hupd] at hl
      exact hl
    have heq : t.linked = s.linked :=
      Finset.eq_of_subset_of_card_le hsub ((card_linked_le h.tidy).trans hcard)
    exact ⟨heq ▸ hcard, heq ▸ hmem⟩

section ConnectInd

variable {s : Hub} {src : ℕ} {payload : List UInt8} {f : Frame} (h : Tracked s)
  (ho : (s.peers src).isOpen = true) (hf : frameOf payload = some f)
  (hadv : f.hdr.llType = VBT_LL_ADV) (hind : Snoops f.pdu)
  (httl : ttlStep (s.peers src).isBridge f.hdr ≠ none) (kern : Kern)
include h ho hf hadv hind httl

/-- The route that was recorded stays, if no peer of the two nodes is closed while the frame is
broadcast. -/
theorem link_receive_snooped {b : Option ℕ} {c : ℕ}
    (hs : Act.snooped (indAA f.pdu) (s.peers src).nodeIdx b (some c) ∈
      did s (s.receive kern src payload))
    (hclosed : ∀ q, Act.closed q ∈ did s (s.receive kern src payload) →
      Ends.has ⟨(s.peers src).nodeIdx, b⟩ (s.peers q).nodeIdx = false) :
    (s.receive kern src payload).router.link (indAA f.pdu) = some ⟨(s.peers src).nodeIdx, b⟩ := by
  obtain ⟨b', slot, later, earlier, hdr', hdid, hlater, hearlier, -⟩ :=
    receive_connectInd h ho hf hadv hind httl kern
  obtain ⟨rfl, rfl⟩ : b = b' ∧ some c = slot := by
    rw [hdid, List.mem_append, List.mem_cons] at hs
    obtain hs | hs | hs := hs
    · obtain ⟨q, -, hd⟩ := hlater _ hs
      cases hd
    · cases hs
      exact ⟨rfl, rfl⟩
    · obtain hs | ⟨q, -, -, hd⟩ := hearlier _ hs
      · cases hs
      · cases hd
  have hl := receive_leads h ho kern payload
  have hlegal := hl.tracked.legal
  rw [hl.tracked.router]
  rw [did_append hl.suffix, hdid, List.append_assoc] at hlegal ⊢
  refine link_deliveries hlegal (fun a ha => ?_) (fun p hp => ?_) ?_
  · obtain ⟨q, -, hd⟩ := hlater a ha
    exact hd.ofSocket
  · -- who is bound when the route is made was bound before
    have hlegal' : medium.Legal (earlier ++ s.log) := (Throughout.of_append hlegal).2
    have hbound : ∀ p k, (medium.replay (earlier ++ s.log)).nodeOf p = some k →
        (s.peers p).nodeIdx = some k := by
      refine hlegal'.invariant_since (I := fun r => ∀ p k, r.nodeOf p = some k →
        (s.peers p).nodeIdx = some k) (P := fun a => a ∈ earlier) (fun p k hk => ?_)
        (fun t a _ ih _ ha p k hk => ih p k ?_) fun _ ha => ha
      · rw [← h.router] at hk
        exact hk
      · have hfw : Forwarding src (s.peers src).nodeIdx hdr' f.pdu a := by
          obtain rfl | ⟨q, -, -, hd⟩ := hearlier a ha
          · exact .frame
          · exact .delivery hd
        exact nodeOf_of_forwarding hfw hk
    have hp' : Act.closed p ∈ did s (s.receive kern src payload) := by
      rw [hdid]
      exact List.mem_append_left _ hp
    cases hn : (medium.replay (earlier ++ s.log)).nodeOf p with
    | none =>
      simp only [List.cons_append, Journal.replay_cons, medium_apply, Router.apply, record, hn]
      rfl
    | some k =>
      simp only [List.cons_append, Journal.replay_cons, medium_apply, Router.apply, record, hn]
      exact hbound p k hn ▸ hclosed p hp'
  · simp only [List.cons_append, Journal.replay_cons, medium_apply, Router.apply, record, if_true]

/-- A CONNECT_IND gets an entry if there is room, and the owner of the advertiser's address is the
second endpoint. -/
theorem snooped_receive (hroom : s.linked.card < MAX_CONNS ∨ indAA f.pdu ∈ s.linked) :
    ∃ b c, Act.snooped (indAA f.pdu) (s.peers src).nodeIdx b (some c) ∈
        did s (s.receive kern src payload) ∧
      ∀ k, b = some k ↔ indAdvA f.pdu ∈ (s.router.apply (.frame src f.hdr f.pdu)).addrs k := by
  obtain ⟨b, slot, later, earlier, hdr', hdid, -, -, -, hb, hslot⟩ :=
    receive_connectInd h ho hf hadv hind httl kern
  cases slot with
  | none =>
    obtain ⟨hcard, hmem⟩ := hslot rfl
    obtain hlt | hin := hroom
    · omega
    · exact absurd hin hmem
  | some c =>
    refine ⟨b, c, ?_, hb⟩
    rw [hdid]
    exact List.mem_append_right _ List.mem_cons_self

/-- **A CONNECT_IND makes a route**: if the advertiser's address is known, there is room, and no
peer of the two nodes is closed while the frame is broadcast, the two nodes are linked. -/
theorem link_receive_connectInd {j : ℕ}
    (hj : indAdvA f.pdu ∈ (s.router.apply (.frame src f.hdr f.pdu)).addrs j)
    (hroom : s.linked.card < MAX_CONNS ∨ indAA f.pdu ∈ s.linked)
    (hclosed : ∀ q, Act.closed q ∈ did s (s.receive kern src payload) →
      Ends.has ⟨(s.peers src).nodeIdx, some j⟩ (s.peers q).nodeIdx = false) :
    (s.receive kern src payload).router.link (indAA f.pdu) =
      some ⟨(s.peers src).nodeIdx, some j⟩ := by
  obtain ⟨b, c, hs, hb⟩ := snooped_receive h ho hf hadv hind httl kern hroom
  obtain rfl : b = some j := (hb j).2 hj
  exact link_receive_snooped h ho hf hadv hind httl kern hs hclosed

end ConnectInd

end Hub
end Vbt
