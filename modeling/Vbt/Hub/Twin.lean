import Vbt.Hub.Local

/-!
# The same hub with other slots

Two hubs that keep the same peers in different slots do the same, up to the numbers of the slots.
One of them may have further peers, as long as these are bound to no node.

* `Node.rename`, `Twin`: the tables agree up to a renumbering `ρ` of the peer slots `O`;
* `InStep`: moreover, the sockets give the same answers, and the same frames were handed over;
* one lemma for each operation of the hub, up to `InStep.peerReadableIter` and `InStep.ctlDispatch`.
-/

namespace Slots

variable {α β : Type}

/-- The table with another view of its entries. -/
def map (t : Slots α) (f : α → β) : Slots β := ⟨t.size, fun i => f (t i)⟩

@[simp] theorem map_apply (t : Slots α) (f : α → β) (i : ℕ) : (t.map f) i = f (t i) := rfl

theorem map_modify (t : Slots α) {f : α → β} {g : α → α} {g' : β → β} (i : ℕ)
    (h : f (g (t i)) = g' (f (t i))) : (t.modify i g).map f = (t.map f).modify i g' := by
  refine eq_of_apply rfl fun j => ?_
  simp only [map_apply, modify_apply]
  split_ifs
  · exact h
  · rfl

theorem map_mapBelow (t : Slots α) {f : α → β} {g : ℕ → α → α} {g' : ℕ → β → β}
    (h : ∀ i < t.size, f (g i (t i)) = g' i (f (t i))) :
    (t.mapBelow g).map f = (t.map f).mapBelow g' := by
  refine eq_of_apply rfl fun i => ?_
  show f (if i < t.size then g i (t i) else t i) = if i < t.size then g' i (f (t i)) else f (t i)
  split_ifs with hi
  · exact h i hi
  · rfl

theorem find?_map (t : Slots α) {f : α → β} {p : α → Bool} {q : β → Bool} (h : ∀ a, q (f a) = p a) :
    (t.map f).find? q = t.find? p := List.find?_congr fun i _ => h (t i)

theorem set_map (t : Slots α) (f : α → β) (i : ℕ) (a : α) :
    (t.set i a).map f = (t.map f).set i (f a) := by
  refine eq_of_apply rfl fun j => ?_
  simp only [map_apply, set_apply]
  exact apply_ite f _ _ _

theorem alloc_map (t : Slots α) {f : α → β} {free : α → Bool} {free' : β → Bool}
    (h : ∀ a, free' (f a) = free a) (cap : ℕ) (a : α) :
    (t.map f).alloc cap free' (f a) = (t.alloc cap free a).map fun r => (r.1, r.2.map f) := by
  unfold alloc
  rw [find?_map t h]
  cases t.find? free with
  | some i =>
    simp only [Option.map_some, set_map]
  | none =>
    simp only
    rw [show (t.map f).size = t.size from rfl]
    split_ifs
    · simp only [Option.map_some, Option.some.injEq, Prod.mk.injEq, true_and]
      refine eq_of_apply rfl fun j => ?_
      show (if j = t.size then f a else f (t j)) = f (if j = t.size then a else t j)
      exact (apply_ite f _ _ _).symm
    · rfl

end Slots

namespace Vbt

/-- The node with the slot of its peer renumbered. -/
def Node.rename (ρ : ℕ → ℕ) (nd : Node) : Node := { nd with peerIdx := nd.peerIdx.map ρ }

namespace Hub

open Effect

/-- How the peers of one hub are found in another: those in `slots` are renumbered by `ren`. -/
structure Pairing where
  slots : Set ℕ
  ren : ℕ → ℕ

/-- The tables agree up to the renumbering. The open peers of `s` are in `slots`, and so are those
that the nodes refer to; further peers of `t` have no node. -/
structure Twin (π : Pairing) (s t : Hub) : Prop where
  nodes : t.nodes = s.nodes.map (Node.rename π.ren)
  conns : t.conns = s.conns
  overrides : t.overrides = s.overrides
  exponent : t.gPathExponent = s.gPathExponent
  autoId : t.nextAutoId = s.nextAutoId
  upstream : t.upstream = s.upstream.map (Option.map π.ren)
  peers : ∀ p ∈ π.slots, t.peers (π.ren p) = s.peers p
  inj : Set.InjOn π.ren π.slots
  inside : ∀ p, (s.peers p).isOpen = true → p ∈ π.slots
  below : ∀ p ∈ π.slots, p < s.peers.size ∧ π.ren p < t.peers.size
  others : ∀ q, q ∉ π.ren '' π.slots → (t.peers q).nodeIdx = none
  bound : ∀ k p, (s.nodes k).peerIdx = some p → p ∈ π.slots
  up : ∀ i < s.upstream.size, ∀ p, s.upstream i = some p → (s.peers p).isOpen = true
  rim : ∀ i, s.upstream.size ≤ i → s.upstream i = none

/-- The environment gives the sockets of the peers the same answers. -/
structure Pairing.Answers (π : Pairing) (kern kern' : Kern) : Prop where
  write : ∀ p ∈ π.slots, kern'.write (π.ren p) = kern.write p
  malloc : ∀ p ∈ π.slots, kern'.malloc (π.ren p) = kern.malloc p
  rand : kern'.rand = kern.rand
  sqrt : kern'.sqrt = kern.sqrt
  log10 : kern'.log10 = kern.log10

/-- Moreover, the peers in `slots` were handed the same frames since they had been handed `b` and
`b'`. While the environment is looked at (`live`), it gives the same answers. -/
structure InStep (π : Pairing) (live : Prop) (b b' : ℕ → List Frame) (s t : Hub) : Prop
    extends Twin π s t where
  hands : ∀ p ∈ π.slots, ∃ g, handsTo p s.log = g ++ b p ∧ handsTo (π.ren p) t.log = g ++ b' p
  answers : live → π.Answers s.kern t.kern

namespace InStep

variable {π : Pairing} {live : Prop} {b b' : ℕ → List Frame} {s s' t t' : Hub}

/-! ### Effects -/

theorem akin (h : InStep π live b b' s t) (hs : Akin s s') (ht : Akin t t') :
    InStep π live b b' s' t' := by
  have hsx : s' = { s.tables with stats := s'.stats, log := s'.log } := by rw [← hs.tables]; rfl
  have htx : t' = { t.tables with stats := t'.stats, log := t'.log } := by rw [← ht.tables]; rfl
  have hh : ∀ p ∈ π.slots, ∃ g, handsTo p s'.log = g ++ b p ∧ handsTo (π.ren p) t'.log = g ++
      b' p := by
    intro p hp
    rw [hs.hands, ht.hands]
    exact h.hands p hp
  rw [hsx, htx]
  exact { h with hands := hh }

theorem air (h : InStep π live b b' s t) (hl : live) : SameAir s t where
  overrides := h.overrides
  exponent := h.exponent
  rand := (h.answers hl).rand
  sqrt := (h.answers hl).sqrt
  log10 := (h.answers hl).log10
  radio k := by
    rw [h.nodes]
    rfl

theorem near (h : InStep π live b b' s t) (hl : live) {p : ℕ} (hp : p ∈ π.slots) :
    Near p (π.ren p) s t :=
  ⟨h.peers p hp, (h.answers hl).write p hp, (h.answers hl).malloc p hp, h.air hl⟩

theorem peerIdx_of_onNodes {e : Effect} {nodes : Slots Node} {k p : ℕ}
    (h : ((e.onNodes nodes) k).peerIdx = some p) : (nodes k).peerIdx = some p := by
  unfold onNodes at h
  cases hn : e.node with
  | none =>
    rw [hn] at h
    exact h
  | some n =>
    rw [hn] at h
    simp only [Slots.modify_apply] at h
    split_ifs at h with hk
    · unfold onNode at h
      dsimp only at h
      split_ifs at h
      rw [hk]
      exact h
    · exact h

theorem upstream_of_onUpstream {e : Effect} {upstream : Slots (Option ℕ)} {i p : ℕ}
    (hi : i < upstream.size) (h : (e.onUpstream upstream) i = some p) :
    upstream i = some p ∧ (p = e.slot → e.gone = false) := by
  unfold onUpstream at h
  cases hg : e.gone with
  | false =>
    rw [hg] at h
    exact ⟨h, fun _ => rfl⟩
  | true =>
    rw [hg, if_pos rfl, Slots.mapBelow_apply, if_pos hi] at h
    split_ifs at h with hp
    exact ⟨h, fun heq => absurd (heq ▸ h) hp⟩

theorem size_onUpstream (e : Effect) (upstream : Slots (Option ℕ)) :
    (e.onUpstream upstream).size = upstream.size := by
  unfold onUpstream
  split_ifs <;> rfl

theorem isOpen_onPeer {e : Effect} (h : e.gone = false) (p : Peer) :
    (e.onPeer p).isOpen = p.isOpen := by
  unfold onPeer
  rw [h]
  rfl

theorem nodeIdx_onPeer (e : Effect) (p : Peer) :
    (e.onPeer p).nodeIdx = if e.gone then none else p.nodeIdx := by
  unfold onPeer
  split_ifs <;> rfl

theorem mem_image_iff (h : InStep π live b b' s t) {p q : ℕ} (hp : p ∈ π.slots) (hq : q ∈ π.slots) :
    π.ren q = π.ren p ↔ q = p := ⟨fun heq => h.inj hq hp heq, congrArg π.ren⟩

theorem hands_map (q i : ℕ) (fs : List Frame) :
    handsTo q (fs.map (.hand i)) = if q = i then fs else [] := by
  induction fs with
  | nil => simp
  | cons f fs ih =>
    show handsTo q ([.hand i f] ++ fs.map (.hand i)) = _
    rw [handsTo_append, ih]
    by_cases hq : q = i
    · simp [handsTo, hq]
    · simp [handsTo, hq, Ne.symm hq]

theorem rename_onNode (h : InStep π live b b' s t) {e : Effect} (he : e.slot ∈ π.slots) (k : ℕ) :
    (e.onNode (s.nodes k)).rename π.ren = (e.atSlot (π.ren e.slot)).onNode ((s.nodes k).rename π.ren) := by
  have hpeer : (if e.gone ∧ (s.nodes k).peerIdx = some e.slot then none else (s.nodes k).peerIdx).map π.ren =
      if e.gone ∧ (s.nodes k).peerIdx.map π.ren = some (π.ren e.slot) then none
        else (s.nodes k).peerIdx.map π.ren := by
    cases hk : (s.nodes k).peerIdx with
    | none => simp
    | some p =>
      have hp : p ∈ π.slots := h.bound k p hk
      simp only [Option.some.injEq, Option.map_some, h.mem_image_iff he hp]
      split_ifs <;> rfl
  unfold Node.rename onNode
  dsimp only
  rw [hpeer]
  rfl

/-- An effect at a slot of `π.slots`. -/
theorem apply (h : InStep π live b b' s t) {e : Effect} (he : e.slot ∈ π.slots) :
    InStep π live b b' (e.apply s) ((e.atSlot (π.ren e.slot)).apply t) where
  nodes := by
    show (e.atSlot (π.ren e.slot)).onNodes t.nodes = (e.onNodes s.nodes).map (Node.rename π.ren)
    rw [h.nodes]
    unfold onNodes
    rw [show (e.atSlot (π.ren e.slot)).node = e.node from rfl]
    cases e.node with
    | none => rfl
    | some k => exact (s.nodes.map_modify k (h.rename_onNode he k)).symm
  conns := congrArg e.onConns h.conns
  overrides := h.overrides
  exponent := h.exponent
  autoId := h.autoId
  upstream := by
    show (e.atSlot (π.ren e.slot)).onUpstream t.upstream = (e.onUpstream s.upstream).map (Option.map π.ren)
    rw [h.upstream]
    unfold onUpstream
    show (if e.gone then _ else _) = (if e.gone then _ else _ : Slots (Option ℕ)).map (Option.map π.ren)
    split_ifs
    · refine (s.upstream.map_mapBelow fun i hlt => ?_).symm
      cases hi : s.upstream i with
      | none => simp
      | some p =>
        have hp : p ∈ π.slots := h.inside p (h.up i hlt p hi)
        simp only [Option.some.injEq, Option.map_some, atSlot, h.mem_image_iff he hp]
        split_ifs <;> rfl
    · rfl
  peers p hp := by
    show (t.peers.modify (π.ren e.slot) _) (π.ren p) = (s.peers.modify e.slot _) p
    simp only [Slots.modify_apply, h.mem_image_iff he hp, h.peers p hp, h.peers e.slot he]
    rfl
  inj := h.inj
  inside p hp := by
    by_cases hpe : p = e.slot
    · exact hpe ▸ he
    · refine h.inside p ?_
      rw [← hp]
      exact congrArg Peer.isOpen (s.peers.modify_of_ne _ hpe).symm
  below := h.below
  others q hq := by
    have hne : q ≠ π.ren e.slot := fun heq => hq ⟨e.slot, he, heq.symm⟩
    rw [← h.others q hq]
    exact congrArg Peer.nodeIdx (t.peers.modify_of_ne _ hne)
  bound k p hk := h.bound k p (peerIdx_of_onNodes hk)
  up i hlt p hi := by
    have hlt' : i < s.upstream.size := size_onUpstream e s.upstream ▸ hlt
    obtain ⟨hi', hne⟩ := upstream_of_onUpstream hlt' hi
    have ho := h.up i hlt' p hi'
    show ((s.peers.modify e.slot e.onPeer) p).isOpen = true
    rw [Slots.modify_apply]
    split_ifs with hpe
    · rw [isOpen_onPeer (hne hpe), ← hpe]
      exact ho
    · exact ho
  rim i hi := by
    have hsize : (e.onUpstream s.upstream).size = s.upstream.size := size_onUpstream e s.upstream
    have hi' : s.upstream.size ≤ i := hsize ▸ hi
    show (e.onUpstream s.upstream) i = none
    unfold onUpstream
    split_ifs
    · rw [Slots.mapBelow_apply, if_neg (by omega), h.rim i hi']
    · exact h.rim i hi'
  answers hl :=
    { h.answers hl with
      write := by
        intro p hp
        show (if π.ren p = π.ren e.slot then _ else _) = if p = e.slot then _ else _
        simp only [h.mem_image_iff he hp, (h.answers hl).write p hp]
        rfl }
  hands p hp := by
    obtain ⟨g, hg, hg'⟩ := h.hands p hp
    refine ⟨(if p = e.slot then e.hands else []) ++ g, ?_, ?_⟩
    · show handsTo p (_ ++ s.log) = _
      rw [handsTo_append, hands_map, hg, List.append_assoc]
    · show handsTo (π.ren p) (e.hands.map (.hand (π.ren e.slot)) ++ t.log) = _
      rw [handsTo_append, hands_map, hg', List.append_assoc]
      simp only [h.mem_image_iff he hp]

theorem foldl_apply (h : InStep π live b b' s t) (es : List Effect)
    (hes : ∀ e ∈ es, e.slot ∈ π.slots) :
    InStep π live b b' (es.foldl Effect.apply s)
      ((es.map fun e => e.atSlot (π.ren e.slot)).foldl Effect.apply t) := by
  induction es generalizing s t with
  | nil => exact h
  | cons e es ih =>
    exact ih (h.apply (hes e (List.mem_cons_self ..)))
      fun e' he' => hes e' (List.mem_cons_of_mem _ he')

/-- An effect at a further slot of `t`. -/
theorem skip (h : InStep π live b b' s t) {e : Effect} (he : e.slot ∉ π.ren '' π.slots)
    (hn : e.node = none) :
    InStep π live b b' s (e.apply t) := by
  have hne : ∀ p ∈ π.slots, π.ren p ≠ e.slot := fun p hp heq => he ⟨p, hp, heq⟩
  have hnodes : e.onNodes t.nodes = t.nodes := by
    unfold onNodes
    rw [hn]
  have hconns : e.onConns t.conns = t.conns := by
    unfold onConns
    rw [hn]
    cases e.gone <;> rfl
  have hup : e.onUpstream t.upstream = t.upstream := by
    unfold onUpstream
    split_ifs
    · refine Slots.eq_of_apply rfl fun i => ?_
      rw [Slots.mapBelow_apply]
      split_ifs with hi hu
      · rw [h.upstream] at hi hu
        obtain ⟨p, hp, hpe⟩ := Option.map_eq_some_iff.1 hu
        exact absurd hpe (hne p (h.inside p (h.up i hi p hp)))
      · rfl
      · rfl
    · rfl
  have hothers : ∀ q, q ∉ π.ren '' π.slots →
      ((t.peers.modify e.slot e.onPeer) q).nodeIdx = none := by
    intro q hq
    rw [Slots.modify_apply]
    split_ifs with hqe
    · rw [nodeIdx_onPeer, h.others e.slot he, ite_self]
    · exact h.others q hq
  have hhands : ∀ p ∈ π.slots, ∃ g, handsTo p s.log = g ++ b p ∧
      handsTo (π.ren p) (e.apply t).log = g ++ b' p := by
    intro p hp
    obtain ⟨g, hg, hg'⟩ := h.hands p hp
    refine ⟨g, hg, ?_⟩
    show handsTo (π.ren p) (_ ++ t.log) = _
    rw [handsTo_append, hands_map, if_neg (hne p hp), List.nil_append, hg']
  exact { h with
    nodes := hnodes.trans h.nodes
    conns := hconns.trans h.conns
    upstream := hup.trans h.upstream
    peers := fun p hp => (t.peers.modify_of_ne _ (hne p hp)).trans (h.peers p hp)
    others := hothers
    hands := hhands
    answers := fun hl =>
      { h.answers hl with
        write := fun p hp => (if_neg (hne p hp)).trans ((h.answers hl).write p hp) } }

theorem foldl_skip (h : InStep π live b b' s t) (es : List Effect)
    (hes : ∀ e ∈ es, e.slot ∉ π.ren '' π.slots ∧ e.node = none) :
    InStep π live b b' s (es.foldl Effect.apply t) := by
  induction es generalizing t with
  | nil => exact h
  | cons e es ih =>
    obtain ⟨he, hn⟩ := hes e (List.mem_cons_self ..)
    exact ih (h.skip he hn) fun e' he' => hes e' (List.mem_cons_of_mem _ he')

/-! ### Loops -/

theorem noLoss (h : InStep π live b b' s t) (hs : NoLoss s) : NoLoss t := by
  unfold NoLoss
  rw [h.overrides]
  exact hs

open Classical in
/-- The slots of `t` are those that `π.slots` is renumbered to, and further ones. -/
theorem range_perm (h : InStep π live b b' s t) :
    (List.range t.peers.size).Perm
      (((List.range s.peers.size).filter (· ∈ π.slots)).map π.ren ++
        (List.range t.peers.size).filter (· ∉ π.ren '' π.slots)) := by
  have hnodup : (((List.range s.peers.size).filter (· ∈ π.slots)).map π.ren).Nodup := by
    refine List.Nodup.map_on (fun p hp q hq => ?_) (List.nodup_range.filter _)
    simp only [List.mem_filter, decide_eq_true_eq] at hp hq
    exact fun heq => h.inj hp.2 hq.2 heq
  refine (List.perm_ext_iff_of_nodup List.nodup_range ?_).2 fun q => ?_
  · refine List.nodup_append.2 ⟨hnodup, List.nodup_range.filter _, fun q hq q' hq' => ?_⟩
    obtain ⟨p, hp, rfl⟩ := List.mem_map.1 hq
    simp only [List.mem_filter, decide_eq_true_eq] at hp hq'
    exact fun heq => hq'.2 ⟨p, hp.2, heq⟩
  · simp only [List.mem_append, List.mem_map, List.mem_filter, List.mem_range, decide_eq_true_eq]
    constructor
    · intro hq
      by_cases himg : q ∈ π.ren '' π.slots
      · obtain ⟨p, hp, rfl⟩ := himg
        exact Or.inl ⟨p, ⟨(h.below p hp).1, hp⟩, rfl⟩
      · exact Or.inr ⟨hq, himg⟩
    · rintro (⟨p, ⟨-, hp⟩, rfl⟩ | ⟨hq, -⟩)
      · exact (h.below p hp).2
      · exact hq

open Classical in
/-- Iterations that have no effect can be left out. -/
theorem foldl_idle {E : Hub → ℕ → Effect} (hidle : ∀ p ∉ π.slots, E s p = idle p) (l : List ℕ)
    (u : Hub) :
    (l.map (E s)).foldl Effect.apply u = ((l.filter (· ∈ π.slots)).map (E s)).foldl Effect.apply u := by
  induction l generalizing u with
  | nil => rfl
  | cons p l ih =>
    by_cases hp : p ∈ π.slots
    · rw [List.filter_cons_of_pos (by simpa using hp)]
      exact ih _
    · rw [List.filter_cons_of_neg (by simpa using hp), List.map_cons, List.foldl_cons, hidle p hp,
        apply_idle]
      exact ih u

/-- A loop over all peers. -/
theorem loop (h : InStep π live b b' s t) (hs : NoLoss s) {g g' : Hub → ℕ → Hub}
    {E E' : Hub → ℕ → Effect}
    (hl : Loop g E) (hl' : Loop g' E') (hE : ∀ p ∈ π.slots, E' t (π.ren p) = (E s p).atSlot (π.ren p))
    (hidle : ∀ p ∉ π.slots, E s p = idle p)
    (hextra : ∀ q ∉ π.ren '' π.slots, (E' t q).node = none) :
    InStep π live b b' ((List.range s.peers.size).foldl g s) ((List.range t.peers.size).foldl g' t) := by
  classical
  have hsl := hl.effects (List.nodup_range (n := s.peers.size)) hs
  have htl := hl'.effects (List.nodup_range (n := t.peers.size)) (h.noLoss hs)
  have hperm := foldl_apply_perm (h.range_perm.map (E' t)) (by
    rw [List.map_map, show slot ∘ E' t = id from funext (hl'.slot t), List.map_id]
    exact List.nodup_range) t
  have hmap : (((List.range s.peers.size).filter (· ∈ π.slots)).map π.ren).map (E' t) =
      (((List.range s.peers.size).filter (· ∈ π.slots)).map (E s)).map
          fun e => e.atSlot (π.ren e.slot) := by
    rw [List.map_map, List.map_map]
    refine List.map_congr_left fun p hp => ?_
    simp only [List.mem_filter, decide_eq_true_eq] at hp
    simp only [Function.comp_apply, hE p hp.2, hl.slot]
  rw [foldl_idle hidle] at hsl
  rw [List.map_append, List.foldl_append, hmap] at hperm
  have hmain := h.foldl_apply (((List.range s.peers.size).filter (· ∈ π.slots)).map (E s)) (by
    intro e he
    obtain ⟨p, hp, rfl⟩ := List.mem_map.1 he
    simp only [List.mem_filter, decide_eq_true_eq] at hp
    rw [hl.slot]
    exact hp.2)
  have hrest := hmain.foldl_skip (((List.range t.peers.size).filter (· ∉ π.ren '' π.slots)).map (E' t)) (by
    intro e he
    obtain ⟨q, hq, rfl⟩ := List.mem_map.1 he
    simp only [List.mem_filter, decide_eq_true_eq] at hq
    rw [hl'.slot]
    exact ⟨hq.2, hextra q hq.2⟩)
  exact hrest.akin hsl (hperm.symm.trans htl)

theorem isOpen_eq_false (h : InStep π live b b' s t) {p : ℕ} (hp : p ∉ π.slots) :
    (s.peers p).isOpen = false := by
  cases ho : (s.peers p).isOpen with
  | false => rfl
  | true => exact absurd (h.inside p ho) hp

theorem node_deliverEffect {p : Peer} (hp : p.nodeIdx = none) (i : ℕ) (malloc : Bool)
    (ws : List WriteRes) (hdr : VbtFrameHdr) (pdu : List UInt8) (rssi : ℤ) :
    (deliverEffect i p malloc ws hdr pdu rssi).node = none := by
  have hsent : ∀ data, (sentEffect i p malloc ws data).node = none := by
    intro data
    unfold sentEffect
    rcases (sendFate p malloc ws data).1 with _ | ⟨f, ok⟩
    · exact hp
    · rfl
  unfold deliverEffect
  dsimp only
  rw [hp]
  split_ifs
  · exact hsent _
  · exact hsent _

theorem sweep (h : InStep π live b b' s t) (hl : live) (hs : NoLoss s) {src : ℕ}
    (hsrc : src ∈ π.slots) (sel : Peer → Bool)
    (hdr : VbtFrameHdr) (pdu : List UInt8) :
    InStep π live b b' (s.sweep sel src hdr pdu) (t.sweep sel (π.ren src) hdr pdu) := by
  refine h.loop hs (sweep_loop sel src hdr pdu) (sweep_loop sel (π.ren src) hdr pdu) (fun p hp => ?_)
    (fun p hp => ?_) fun q hq => ?_
  · exact sweepEffect_near (h.near hl hp) (h.mem_image_iff hsrc hp) sel hdr pdu
  · unfold sweepEffect
    simp only [h.isOpen_eq_false hp, Bool.and_false, Bool.false_and, Bool.false_eq_true, if_false]
  · unfold sweepEffect
    split_ifs
    · exact node_deliverEffect (h.others q hq) ..
    · rfl

theorem fanOut (h : InStep π live b b' s t) (hl : live) (hs : NoLoss s) {src : ℕ}
    (hsrc : src ∈ π.slots)
    (srcNode : Option ℕ) (hdr : VbtFrameHdr) (pdu : List UInt8) :
    InStep π live b b' (s.fanOut src srcNode hdr pdu) (t.fanOut (π.ren src) srcNode hdr pdu) := by
  refine h.loop hs (fanOut_loop src srcNode hdr pdu) (fanOut_loop (π.ren src) srcNode hdr pdu)
    (fun p hp => ?_) (fun p hp => ?_) fun q hq => ?_
  · exact fanOutEffect_near (h.near hl hp) (h.mem_image_iff hsrc hp) srcNode hdr pdu
  · unfold fanOutEffect
    simp only [h.isOpen_eq_false hp, Bool.not_false, Bool.or_true, if_true]
  · unfold fanOutEffect
    rw [h.others q hq]
    split_ifs
    · rfl
    · exact node_deliverEffect (h.others q hq) ..
    · rfl

/-! ### Sockets -/

/-- The same is done at a slot of `π.slots` in the one hub and at the slot it is renumbered to in
the other. -/
theorem does (h : InStep π live b b' s t) {p : ℕ} (hp : p ∈ π.slots) {F : ℕ → Effect}
    (hF : ∀ i j, F j = (F i).atSlot j) (hs : Akin ((F p).apply s) s')
    (ht : Akin ((F (π.ren p)).apply t) t') : InStep π live b b' s' t' := by
  have hslot : (F p).slot = p := congrArg slot (hF p p)
  have happ := h.apply (e := F p) (hslot.symm ▸ hp)
  rw [hslot, ← hF p (π.ren p)] at happ
  exact happ.akin hs ht

theorem peerClose (h : InStep π live b b' s t) {p : ℕ} (hp : p ∈ π.slots) :
    InStep π live b b' (s.peerClose p) (t.peerClose (π.ren p)) := by
  have hpeer := h.peers p hp
  cases ho : (s.peers p).isOpen with
  | false =>
    unfold Hub.peerClose
    rw [hpeer, ho]
    exact h
  | true =>
    have ht := peerClose_does (s := t) (i := π.ren p) (by rw [hpeer, ho])
    rw [hpeer] at ht
    exact h.does hp (F := fun i => close i (s.peers p)) (fun _ _ => rfl) (peerClose_does ho) ht

theorem peerFlush (h : InStep π live b b' s t) (hl : live) {p : ℕ} (hp : p ∈ π.slots) :
    InStep π live b b' (s.peerFlush p) (t.peerFlush (π.ren p)) := by
  have ht := peerFlush_does t (π.ren p)
  rw [h.peers p hp, (h.answers hl).write p hp] at ht
  exact h.does hp (F := fun i => flushEffect i (s.peers p) (s.kern.write p))
    (fun i j => flushEffect_atSlot i j _ _) (peerFlush_does s p) ht

/-- A further peer of `t` is closed. -/
theorem closeFurther (h : InStep π live b b' s t) {q : ℕ} (hq : q ∉ π.ren '' π.slots) :
    InStep π live b b' s (t.peerClose q) := by
  cases ho : (t.peers q).isOpen with
  | false =>
    rw [peerClose_of_closed ho]
    exact h
  | true => exact (h.skip (e := close q (t.peers q)) hq (h.others q hq)).akin (.refl s) (peerClose_does ho)

theorem node_flushEffect {p : Peer} (hp : p.nodeIdx = none) (i : ℕ) (ws : List WriteRes) :
    (flushEffect i p ws).node = none := by
  unfold flushEffect
  dsimp only
  split_ifs
  · rfl
  · rcases writeLoop (p.outbuf.getD []).length 0 ws with ⟨off, ending, ws'⟩
    cases ending with
    | failed => exact hp
    | finished | blocked => rfl

/-- A further peer of `t` is flushed. -/
theorem flushFurther (h : InStep π live b b' s t) {q : ℕ} (hq : q ∉ π.ren '' π.slots) :
    InStep π live b b' s (t.peerFlush q) := by
  have hslot : (flushEffect q (t.peers q) (t.kern.write q)).slot = q :=
    congrArg slot (flushEffect_atSlot q q _ _)
  exact (h.skip (hslot.symm ▸ hq) (node_flushEffect (h.others q hq) _ _)).akin (.refl s)
    (peerFlush_does t q)

theorem deliverHeard (h : InStep π live b b' s t) (hl : live) (hs : NoLoss s) {dst : ℕ}
    (hdst : dst ∈ π.slots)
    (srcNode : Option ℕ) (k : ℕ) (hdr : VbtFrameHdr) (pdu : List UInt8) :
    InStep π live b b' (s.deliverHeard srcNode k dst hdr pdu) (t.deliverHeard srcNode k (π.ren dst) hdr pdu) := by
  have ht := deliverHeard_does (h.noLoss hs) srcNode k (π.ren dst) hdr pdu
  rw [h.peers dst hdst, (h.answers hl).write dst hdst, (h.answers hl).malloc dst hdst,
    (heardBy_congr (h.air hl) srcNode k hdr).1, (heardBy_congr (h.air hl) srcNode k hdr).2] at ht
  exact h.does hdst (F := fun i => heardEffect i (s.peers dst) (s.kern.malloc dst) (s.kern.write dst) k
      (s.heardBy srcNode k hdr).ok (s.heardBy srcNode k hdr).rssi hdr pdu)
    (fun i j => heardEffect_atSlot i j ..) (deliverHeard_does hs srcNode k dst hdr pdu) ht

/-! ### Tables -/

theorem note (h : InStep π live b b' s t) {a a' : Act} (ha : ∀ q f, a ≠ .hand q f)
    (ha' : ∀ q f, a' ≠ .hand q f) : InStep π live b b' (s.note a) (t.note a') :=
  h.akin (.note ha s) (.note ha' t)

theorem modStats (h : InStep π live b b' s t) (f f' : Stats → Stats) :
    InStep π live b b' (s.modStats f) (t.modStats f') := h.akin (.modStats s f) (.modStats t f')

theorem withNodes (h : InStep π live b b' s t) {nodes nodes' : Slots Node}
    (heq : nodes' = nodes.map (Node.rename π.ren))
    (hb : ∀ k p, (nodes k).peerIdx = some p → p ∈ π.slots) :
    InStep π live b b' { s with nodes } { t with nodes := nodes' } :=
  { h with nodes := heq, bound := hb }

theorem modNode (h : InStep π live b b' s t) (k : ℕ) (f f' : Node → Node)
    (hf : ∀ nd, (f nd).rename π.ren = f' (nd.rename π.ren))
    (hb : ∀ nd p, (f nd).peerIdx = some p → nd.peerIdx = some p ∨ p ∈ π.slots) :
    InStep π live b b' (s.modNode k f) (t.modNode k f') := by
  refine h.withNodes ?_ fun i p hp => ?_
  · rw [h.nodes]
    exact (s.nodes.map_modify k (hf _)).symm
  · rw [Slots.modify_apply] at hp
    split_ifs at hp with hik
    · exact (hb _ p hp).elim (h.bound k p) id
    · exact h.bound i p hp

theorem modPeer (h : InStep π live b b' s t) {p : ℕ} (hp : p ∈ π.slots) (f : Peer → Peer)
    (hf : ∀ x, (f x).isOpen = x.isOpen) :
    InStep π live b b' (s.modPeer p f) (t.modPeer (π.ren p) f) where
  __ := h
  peers q hq := by
    show (t.peers.modify (π.ren p) f) (π.ren q) = (s.peers.modify p f) q
    simp only [Slots.modify_apply, h.mem_image_iff hp hq, h.peers q hq, h.peers p hp]
  inside q hq := by
    refine h.inside q ?_
    rw [← hq]
    exact (s.peers.modify_attr Peer.isOpen hf p q).symm
  others q hq := by
    have hne : q ≠ π.ren p := fun heq => hq ⟨p, hp, heq.symm⟩
    rw [← h.others q hq]
    exact congrArg Peer.nodeIdx (t.peers.modify_of_ne _ hne)
  up i hi q hq := (s.peers.modify_attr Peer.isOpen hf p q).trans (h.up i hi q hq)

/-- A change at a further peer of `t`. -/
theorem modFurther (h : InStep π live b b' s t) {q : ℕ} (hq : q ∉ π.ren '' π.slots)
    (f : Peer → Peer)
    (hf : ∀ x, (f x).nodeIdx = x.nodeIdx) : InStep π live b b' s (t.modPeer q f) where
  __ := h
  peers p hp := (t.peers.modify_of_ne _ fun heq => hq ⟨p, hp, heq⟩).trans (h.peers p hp)
  others q' hq' := (t.peers.modify_attr Peer.nodeIdx hf q q').trans (h.others q' hq')

theorem nodeByName (h : InStep π live b b' s t) (nid : NodeId) :
    t.nodeByName nid = s.nodeByName nid := by
  unfold Hub.nodeByName
  rw [h.nodes]
  exact s.nodes.find?_map fun _ => rfl

theorem findNodeByAddr (h : InStep π live b b' s t) (addr : BdAddr) :
    t.findNodeByAddr addr = s.findNodeByAddr addr := by
  unfold Hub.findNodeByAddr
  rw [h.nodes, s.nodes.find?_map (p := fun nd => nd.active && decide (addr ∈ nd.addrs))
    fun _ => rfl]

theorem findNode (h : InStep π live b b' s t) (nid : NodeId) (create : Bool) :
    InStep π live b b' (s.findNode nid create).1 (t.findNode nid create).1 ∧
      (t.findNode nid create).2 = (s.findNode nid create).2 := by
  unfold Hub.findNode
  rw [h.nodeByName]
  cases s.nodeByName nid with
  | some k => exact ⟨h, rfl⟩
  | none =>
    cases create with
    | false => exact ⟨h, rfl⟩
    | true =>
      simp only [if_true]
      have halloc : t.nodes.alloc MAX_NODES (fun nd => !nd.active) (newNode nid) =
          (s.nodes.alloc MAX_NODES (fun nd => !nd.active) (newNode nid)).map
            fun r => (r.1, r.2.map (Node.rename π.ren)) := by
        rw [h.nodes]
        exact s.nodes.alloc_map (fun _ => rfl) MAX_NODES (newNode nid)
      rw [halloc]
      cases hs : s.nodes.alloc MAX_NODES (fun nd => !nd.active) (newNode nid) with
      | none => exact ⟨h, rfl⟩
      | some r =>
        refine ⟨(h.withNodes rfl fun k p hp => ?_).note (fun _ _ => by simp) (fun _ _ => by simp),
          rfl⟩
        rw [(Slots.alloc_eq_some hs).1 k] at hp
        split_ifs at hp
        · cases hp
        · exact h.bound k p hp

theorem learnAddr_rename (ρ : ℕ → ℕ) (nodes : Slots Node) (k : ℕ) (addr : BdAddr) :
    learnAddr (nodes.map (Node.rename ρ)) k addr = (learnAddr nodes k addr).map (Node.rename ρ) := by
  have hleave : leaveOthers (nodes.map (Node.rename ρ)) k addr =
      (leaveOthers nodes k addr).map (Node.rename ρ) := by
    refine (nodes.map_mapBelow fun i _ => ?_).symm
    exact apply_ite (Node.rename ρ) _ _ _
  unfold learnAddr
  dsimp only
  rw [hleave]
  show (if ((leaveOthers nodes k addr) k).addrs.length < _ then _ else _) = _
  split_ifs
  · exact ((leaveOthers nodes k addr).map_modify (f := Node.rename ρ)
      (g := fun nd => withAddrs nd (nd.addrs ++ [addr])) k rfl).symm
  · rfl

theorem learnAddr_peerIdx (nodes : Slots Node) (k : ℕ) (addr : BdAddr) (i : ℕ) :
    ((learnAddr nodes k addr) i).peerIdx = (nodes i).peerIdx := by
  have hleave : ((leaveOthers nodes k addr) i).peerIdx = (nodes i).peerIdx := by
    unfold leaveOthers
    rw [Slots.mapBelow_apply]
    split_ifs <;> rfl
  unfold learnAddr
  dsimp only
  split_ifs
  · exact (Slots.modify_attr (f := fun nd => withAddrs nd (nd.addrs ++ [addr])) _ Node.peerIdx
      (fun _ => rfl) k i).trans hleave
  · exact hleave

theorem nodeAddAddr (h : InStep π live b b' s t) (k : ℕ) (addr : BdAddr) :
    InStep π live b b' (s.nodeAddAddr k addr) (t.nodeAddAddr k addr) := by
  have haddrs : (t.nodes k).addrs = (s.nodes k).addrs := by
    rw [h.nodes]
    rfl
  unfold Hub.nodeAddAddr
  rw [haddrs]
  split_ifs
  · exact h
  · exact h
  · refine h.withNodes ?_ fun i p hp => ?_
    · rw [h.nodes, learnAddr_rename]
    · rw [learnAddr_peerIdx] at hp
      exact h.bound i p hp

theorem learnTx (h : InStep π live b b' s t) (srcNode : Option ℕ) (hdr : VbtFrameHdr) :
    InStep π live b b' (s.learnTx srcNode hdr) (t.learnTx srcNode hdr) := by
  cases srcNode with
  | none => exact h
  | some k =>
    have hcount := h.modNode k
      (fun nd => { nd with txPdus := nd.txPdus + 1, lastChannel := hdr.channel, lastPhy := hdr.phy })
      (fun nd => { nd with txPdus := nd.txPdus + 1, lastChannel := hdr.channel, lastPhy := hdr.phy })
      (fun _ => rfl) fun _ _ hp => Or.inl hp
    exact hcount.nodeAddAddr k hdr.txAddr

theorem findConn (h : InStep π live b b' s t) (aa : UInt32) : t.findConn aa = s.findConn aa := by
  unfold Hub.findConn
  rw [h.conns]

theorem modConn (h : InStep π live b b' s t) (c : ℕ) (f : Conn → Conn) :
    InStep π live b b' (s.modConn c f) (t.modConn c f) :=
  { h with conns := congrArg (fun conns => conns.modify c f) h.conns }

theorem connEntry (h : InStep π live b b' s t) (aa : UInt32) :
    InStep π live b b' (s.connEntry aa).1 (t.connEntry aa).1 ∧
      (t.connEntry aa).2 = (s.connEntry aa).2 := by
  unfold Hub.connEntry connAlloc
  rw [h.findConn, h.conns]
  cases s.findConn aa with
  | some c => exact ⟨h, rfl⟩
  | none =>
    cases s.conns.alloc MAX_CONNS (fun c => !c.active) { accessAddr := aa, active := true } with
    | none => exact ⟨h, rfl⟩
    | some r =>
      have hconns : InStep π live b b' { s with conns := r.2 } { t with conns := r.2 } :=
        { h with conns := rfl }
      exact ⟨hconns.modStats (fun st => { st with connsOpened := st.connsOpened + 1 })
        (fun st => { st with connsOpened := st.connsOpened + 1 }), rfl⟩

theorem observeConnectInd (h : InStep π live b b' s t) (srcNode : Option ℕ) (pdu : List UInt8) :
    InStep π live b b' (s.observeConnectInd srcNode pdu) (t.observeConnectInd srcNode pdu) := by
  obtain ⟨he, hslot⟩ := h.connEntry (indAA pdu)
  unfold Hub.observeConnectInd
  rw [h.findNodeByAddr]
  split_ifs
  · exact h
  · exact h
  dsimp only
  generalize s.connEntry (indAA pdu) = r at he hslot ⊢
  generalize t.connEntry (indAA pdu) = r' at he hslot ⊢
  obtain ⟨u, c⟩ := r
  obtain ⟨u', c'⟩ := r'
  obtain rfl : c' = c := hslot
  cases c' with
  | none => exact he.note (fun _ _ => by simp) fun _ _ => by simp
  | some c => exact (he.modConn c _).note (fun _ _ => by simp) fun _ _ => by simp

theorem bindTables (h : InStep π live b b' s t) {p : ℕ} (hp : p ∈ π.slots) (k : ℕ)
    (physical : Bool) :
    InStep π live b b' (s.bindTables p k physical) (t.bindTables (π.ren p) k physical) := by
  have hidx : (t.nodes k).peerIdx = (s.nodes k).peerIdx.map π.ren := by
    rw [h.nodes]
    rfl
  have hbind : ∀ {u u' : Hub}, InStep π live b b' u u' → InStep π live b b'
      ((u.modNode k fun nd => { nd with peerIdx := some p, physical }).modPeer p
        fun x => { x with nodeIdx := some k })
      ((u'.modNode k fun nd => { nd with peerIdx := some (π.ren p), physical }).modPeer (π.ren p)
        fun x => { x with nodeIdx := some k }) := by
    intro u u' hu
    have hn := hu.modNode k (fun nd => { nd with peerIdx := some p, physical })
      (fun nd => { nd with peerIdx := some (π.ren p), physical }) (fun _ => rfl)
      fun nd q hq => Or.inr (Option.some.inj hq ▸ hp)
    exact hn.modPeer hp (fun x => { x with nodeIdx := some k }) fun _ => rfl
  unfold Hub.bindTables
  rw [hidx]
  cases hq : (s.nodes k).peerIdx with
  | none => exact hbind h
  | some q =>
    have hqO := h.bound k q hq
    simp only [Option.map_some, ne_eq, h.mem_image_iff hp hqO]
    split_ifs
    · exact hbind h
    · exact hbind (h.modPeer hqO (fun x => { x with nodeIdx := none }) fun _ => rfl)

theorem bindPeerNode (h : InStep π live b b' s t) {p : ℕ} (hp : p ∈ π.slots) (nid : NodeId)
    (physical : Bool) :
    InStep π live b b' (s.bindPeerNode p nid physical) (t.bindPeerNode (π.ren p) nid physical) := by
  obtain ⟨hf, hk⟩ := h.findNode nid true
  unfold Hub.bindPeerNode
  generalize s.findNode nid true = r at hf hk ⊢
  generalize t.findNode nid true = r' at hf hk ⊢
  obtain ⟨u, k⟩ := r
  obtain ⟨u', k'⟩ := r'
  obtain rfl : k' = k := hk
  cases k' with
  | none => exact hf.note (fun _ _ => by simp) fun _ _ => by simp
  | some k => exact (hf.bindTables hp k physical).note (fun _ _ => by simp) fun _ _ => by simp

theorem takeHello (h : InStep π live b b' s t) {p : ℕ} (hp : p ∈ π.slots) (hello : Hello) :
    InStep π live b b' (s.takeHello p hello) (t.takeHello (π.ren p) hello) := by
  have hrest : ∀ {u u' : Hub} (nid : NodeId), InStep π live b b' u u' → InStep π live b b'
      (if hello.monitor then (u.modPeer p fun x => { x with isMonitor := true }).note
          (.hello p nid hello.physical true none) else u.bindPeerNode p nid hello.physical)
      (if hello.monitor then (u'.modPeer (π.ren p) fun x => { x with isMonitor := true }).note
          (.hello (π.ren p) nid hello.physical true none) else
        u'.bindPeerNode (π.ren p) nid hello.physical) := by
    intro u u' nid hu
    split_ifs
    · exact (hu.modPeer hp (fun x => { x with isMonitor := true }) fun _ => rfl).note
        (fun _ _ => by simp) fun _ _ => by simp
    · exact hu.bindPeerNode hp nid hello.physical
  unfold Hub.takeHello
  rw [h.autoId]
  by_cases hnid : hello.nid = []
  · rw [if_pos hnid, if_pos hnid]
    have hauto : InStep π live b b' { s with nextAutoId := s.nextAutoId + 1 }
        { t with nextAutoId := s.nextAutoId + 1 } := { h with autoId := rfl }
    exact hrest _ hauto
  · rw [if_neg hnid, if_neg hnid]
    exact hrest _ h

/-! ### Forwarding -/

theorem routeTo (h : InStep π live b b' s t) (hl : live) (hs : NoLoss s) (srcNode other : Option ℕ)
    (hdr : VbtFrameHdr)
    (pdu : List UInt8) :
    InStep π live b b' (s.routeTo srcNode other hdr pdu) (t.routeTo srcNode other hdr pdu) := by
  cases other with
  | none => exact h
  | some o =>
    have hnode : t.nodes o = (s.nodes o).rename π.ren := by
      rw [h.nodes]
      rfl
    unfold Hub.routeTo
    dsimp only
    rw [hnode]
    show InStep π live b b' _ (if !(s.nodes o).active then t else _)
    split_ifs
    · exact h
    · rw [show ((s.nodes o).rename π.ren).peerIdx = (s.nodes o).peerIdx.map π.ren from rfl]
      cases hdst : (s.nodes o).peerIdx with
      | none => exact h
      | some dst => exact h.deliverHeard hl hs (h.bound o dst hdst) srcNode o hdr pdu

theorem observeConnectInd_overrides (s : Hub) (srcNode : Option ℕ) (pdu : List UInt8) :
    (s.observeConnectInd srcNode pdu).overrides = s.overrides := by
  have hentry : ∀ aa, (s.connEntry aa).1.overrides = s.overrides := by
    intro aa
    unfold Hub.connEntry connAlloc
    cases s.findConn aa with
    | some c => rfl
    | none =>
      cases s.conns.alloc MAX_CONNS (fun c => !c.active) { accessAddr := aa, active := true } with
      | none => rfl
      | some r => rfl
  unfold Hub.observeConnectInd
  split_ifs
  · rfl
  · rfl
  have he := hentry (indAA pdu)
  dsimp only
  generalize s.connEntry (indAA pdu) = r at he ⊢
  obtain ⟨u, c⟩ := r
  cases c with
  | none => exact he
  | some c => exact he

theorem routeTo_overrides (hs : NoLoss s) (srcNode other : Option ℕ) (hdr : VbtFrameHdr)
    (pdu : List UInt8) : (s.routeTo srcNode other hdr pdu).overrides = s.overrides := by
  unfold Hub.routeTo
  cases other with
  | none => rfl
  | some o =>
    dsimp only
    split_ifs
    · rfl
    · cases (s.nodes o).peerIdx with
      | none => rfl
      | some dst => exact (deliverHeard_does hs srcNode o dst hdr pdu).overrides

theorem NoLoss.of_eq (h : NoLoss s) (heq : s'.overrides = s.overrides) : NoLoss s' := by
  unfold NoLoss
  rw [heq]
  exact h

theorem forwardAdv (h : InStep π live b b' s t) (hl : live) (hs : NoLoss s) {src : ℕ}
    (hsrc : src ∈ π.slots)
    (srcNode : Option ℕ) (hdr : VbtFrameHdr) (pdu : List UInt8) :
    InStep π live b b' (s.forwardAdv src srcNode hdr pdu) (t.forwardAdv (π.ren src) srcNode hdr pdu) := by
  unfold Hub.forwardAdv
  dsimp only
  split_ifs
  · have hsnoop := h.observeConnectInd srcNode pdu
    have hquiet := NoLoss.of_eq hs (observeConnectInd_overrides s srcNode pdu)
    exact (hsnoop.fanOut hl hquiet hsrc srcNode hdr pdu).modStats _ _
  · exact (h.fanOut hl hs hsrc srcNode hdr pdu).modStats _ _

theorem forwardData (h : InStep π live b b' s t) (hl : live) (hs : NoLoss s) {src : ℕ}
    (hsrc : src ∈ π.slots)
    (srcNode : Option ℕ) (hdr : VbtFrameHdr) (pdu : List UInt8) :
    InStep π live b b' (s.forwardData src srcNode hdr pdu) (t.forwardData (π.ren src) srcNode hdr pdu) := by
  unfold Hub.forwardData
  rw [h.findConn, h.conns]
  cases s.findConn hdr.accessAddr with
  | none => exact h.sweep hl hs hsrc _ hdr pdu
  | some c =>
    have hcount := h.modConn c fun c => { c with pdus := c.pdus + 1 }
    have hroute := hcount.routeTo hl hs srcNode (otherEnd srcNode (s.conns c)) hdr pdu
    have hquiet := NoLoss.of_eq hs (routeTo_overrides (s := s.modConn c fun c => { c with
      pdus := c.pdus + 1 }) hs srcNode (otherEnd srcNode (s.conns c)) hdr pdu)
    exact (hroute.sweep hl hquiet hsrc _ hdr pdu).modStats _ _

theorem forwardFrame (h : InStep π live b b' s t) (hl : live) (hs : NoLoss s) {src : ℕ}
    (hsrc : src ∈ π.slots)
    (hdr : VbtFrameHdr) (pdu : List UInt8) :
    InStep π live b b' (s.forwardFrame src hdr pdu) (t.forwardFrame (π.ren src) hdr pdu) := by
  unfold Hub.forwardFrame
  rw [h.peers src hsrc]
  dsimp only
  cases ttlStep (s.peers src).isBridge hdr with
  | none => exact h
  | some hdr' =>
    have hlearn : InStep π live b b'
        ((s.learnTx (s.peers src).nodeIdx hdr').note (.frame src hdr' pdu))
        ((t.learnTx (s.peers src).nodeIdx hdr').note (.frame (π.ren src) hdr' pdu)) :=
      (h.learnTx (s.peers src).nodeIdx hdr').note (fun _ _ => by simp) fun _ _ => by simp
    have hquiet : NoLoss ((s.learnTx (s.peers src).nodeIdx hdr').note (.frame src hdr' pdu)) :=
      NoLoss.of_eq hs (learnTx_rest s _ hdr').2.2.2
    have htap := hlearn.sweep hl hquiet hsrc Peer.isMonitor hdr' pdu
    have hquiet' := NoLoss.of_eq hquiet (sweep_air _ Peer.isMonitor src hdr' pdu).overrides
    dsimp only
    split_ifs
    · exact htap.forwardAdv hl hquiet' hsrc _ hdr' pdu
    · exact htap.forwardData hl hquiet' hsrc _ hdr' pdu
    · exact htap

/-! ### Receiving -/

theorem handleMessage (h : InStep π live b b' s t) (hl : live) (hs : NoLoss s) {p : ℕ}
    (hp : p ∈ π.slots)
    (payload : List UInt8) :
    InStep π live b b' (s.handleMessage p payload) (t.handleMessage (π.ren p) payload) := by
  have hseen := h.modPeer hp (fun x => { x with framesSeen := x.framesSeen + 1 }) fun _ => rfl
  unfold Hub.handleMessage Hub.maybeHello
  dsimp only
  cases parseHello payload with
  | some hello => exact hseen.takeHello hp hello
  | none =>
    cases frameOf payload with
    | none => exact hseen
    | some f => exact hseen.forwardFrame hl hs hp f.hdr f.pdu

theorem peerReadableIter (h : InStep π live b b' s t) (hl : live) (hs : NoLoss s) {p : ℕ}
    (hp : p ∈ π.slots) :
    InStep π live b b' (s.peerReadableIter p).1 (t.peerReadableIter (π.ren p)).1 := by
  have hm := h.handleMessage hl hs hp (((s.peers p).rxbuf.drop 4).take (headLen (s.peers p).rxbuf))
  unfold Hub.peerReadableIter
  rw [h.peers p hp]
  dsimp only
  rw [hm.peers p hp]
  split_ifs
  · exact h
  · exact h.peerClose hp
  · exact h
  · exact hm.note (fun _ _ => by simp) fun _ _ => by simp
  · exact hm.modPeer hp _ fun _ => rfl

theorem recvBytes (h : InStep π live b b' s t) {p : ℕ} (hp : p ∈ π.slots) (r : ReadRes) :
    InStep π live b b' (s.recvBytes p r) (t.recvBytes (π.ren p) r) := by
  unfold Hub.recvBytes
  rw [h.peers p hp]
  cases r with
  | again => exact h
  | error => exact h.peerClose hp
  | data bytes =>
    dsimp only
    split_ifs
    · exact h.peerClose hp
    · exact h.modPeer hp _ fun _ => rfl

/-! ### Control commands -/

theorem nodeId (h : InStep π live b b' s t) (k : ℕ) : (t.nodes k).nodeId = (s.nodes k).nodeId := by
  rw [h.nodes]
  rfl

theorem resolveNode (h : InStep π live b b' s t) (ident : NodeId) :
    t.resolveNode ident = s.resolveNode ident := by
  unfold Hub.resolveNode
  simp only [h.nodeByName, h.findNodeByAddr]

theorem setNode (h : InStep π live b b' s t) (ident : NodeId) {f : Node → Node}
    (hf : ∀ nd, (f nd).rename π.ren = f (nd.rename π.ren)) (hb : ∀ nd, (f nd).peerIdx = nd.peerIdx)
    (ok : NodeId → CtlReply) :
    InStep π live b b' (s.setNode ident f ok) (t.setNode ident f ok) := by
  have hset : InStep π live b b' (s.settingNode ident).1 (t.settingNode ident).1 ∧
      (t.settingNode ident).2 = (s.settingNode ident).2 := by
    unfold Hub.settingNode
    rw [h.resolveNode]
    cases s.resolveNode ident with
    | some k => exact ⟨h, rfl⟩
    | none => exact h.findNode ident true
  unfold Hub.setNode
  generalize s.settingNode ident = r at hset ⊢
  generalize t.settingNode ident = r' at hset ⊢
  obtain ⟨u, k⟩ := r
  obtain ⟨u', k'⟩ := r'
  obtain ⟨hu, rfl⟩ : InStep π live b b' u u' ∧ k' = k := hset
  cases k' with
  | none => exact hu.note (fun _ _ => by simp) fun _ _ => by simp
  | some k =>
    exact (hu.modNode k f f hf fun nd p hp => Or.inl (hb nd ▸ hp)).note (fun _ _ => by simp)
      fun _ _ => by simp

theorem findOverride (h : InStep π live b b' s t) (a c : NodeId) :
    t.findOverride a c = s.findOverride a c := by
  unfold Hub.findOverride
  rw [h.overrides]

theorem overrideEntry (h : InStep π live b b' s t) (a c : NodeId) :
    InStep π live b b' (s.overrideEntry a c).1 (t.overrideEntry a c).1 ∧
      (t.overrideEntry a c).2 = (s.overrideEntry a c).2 := by
  unfold Hub.overrideEntry
  rw [h.findOverride, h.overrides]
  cases s.findOverride a c with
  | some i => exact ⟨h, rfl⟩
  | none =>
    dsimp only
    cases s.overrides.alloc MAX_OVERRIDES (fun o => !o.used)
        { a := a.take (NODE_ID_LEN - 1), b := c.take (NODE_ID_LEN - 1), used := true } with
    | none => exact ⟨h, rfl⟩
    | some r => exact ⟨{ h with overrides := rfl }, rfl⟩

theorem modOverride (h : InStep π live b b' s t) (i : ℕ) (f : LinkOverride → LinkOverride) :
    InStep π live b b' { s with overrides := s.overrides.modify i f }
      { t with overrides := t.overrides.modify i f } :=
  { h with overrides := congrArg (fun overrides => overrides.modify i f) h.overrides }

theorem setLink (h : InStep π live b b' s t) (a c : NodeId) (f : LinkOverride → LinkOverride)
    (ok : NodeId → NodeId → CtlReply) :
    InStep π live b b' (s.setLink a c f ok) (t.setLink a c f ok) := by
  unfold Hub.setLink
  rw [h.resolveNode, h.resolveNode]
  cases s.resolveNode a with
  | none => exact h.note (fun _ _ => by simp) fun _ _ => by simp
  | some na =>
    cases s.resolveNode c with
    | none => exact h.note (fun _ _ => by simp) fun _ _ => by simp
    | some nc =>
      dsimp only
      rw [h.nodeId, h.nodeId]
      obtain ⟨he, hi⟩ := h.overrideEntry (s.nodes na).nodeId (s.nodes nc).nodeId
      generalize s.overrideEntry (s.nodes na).nodeId (s.nodes nc).nodeId = r at he hi ⊢
      generalize t.overrideEntry (s.nodes na).nodeId (s.nodes nc).nodeId = r' at he hi ⊢
      obtain ⟨u, i⟩ := r
      obtain ⟨u', i'⟩ := r'
      obtain rfl : i' = i := hi
      cases i' with
      | none => exact he.note (fun _ _ => by simp) fun _ _ => by simp
      | some i => exact (he.modOverride i f).note (fun _ _ => by simp) fun _ _ => by simp

theorem clearLink (h : InStep π live b b' s t) (a c : NodeId) :
    InStep π live b b' (s.ctlDispatch (.clearLink a c)) (t.ctlDispatch (.clearLink a c)) := by
  unfold Hub.ctlDispatch
  dsimp only
  rw [h.resolveNode, h.resolveNode]
  refine InStep.note ?_ (fun _ _ => by simp) fun _ _ => by simp
  cases s.resolveNode a with
  | none => exact h
  | some na =>
    cases s.resolveNode c with
    | none => exact h
    | some nc =>
      dsimp only
      rw [h.nodeId, h.nodeId, h.findOverride]
      cases s.findOverride (s.nodes na).nodeId (s.nodes nc).nodeId with
      | none => exact h
      | some i => exact h.modOverride i fun o => { o with used := false }

theorem ctlDispatch (h : InStep π live b b' s t) (cmd : CtlCmd) :
    InStep π live b b' (s.ctlDispatch cmd) (t.ctlDispatch cmd) := by
  cases cmd with
  | setPos ident x y z =>
    unfold Hub.ctlDispatch
    refine h.setNode ident ?_ ?_ _ <;> exact fun _ => rfl
  | setTxpower ident x =>
    unfold Hub.ctlDispatch
    refine h.setNode ident ?_ ?_ _ <;> exact fun _ => rfl
  | setSens ident x =>
    unfold Hub.ctlDispatch
    refine h.setNode ident ?_ ?_ _ <;> exact fun _ => rfl
  | setRssi a c rssi =>
    unfold Hub.ctlDispatch
    exact h.setLink a c _ _
  | setLoss a c p =>
    unfold Hub.ctlDispatch
    exact h.setLink a c _ _
  | clearLink a c => exact h.clearLink a c
  | setPathloss x =>
    have hexp : InStep π live b b' { s with gPathExponent := x } { t with gPathExponent := x } :=
      { h with exponent := rfl }
    exact hexp.note (fun _ _ => by simp) fun _ _ => by simp
  | report => exact h
  | bad => exact h.note (fun _ _ => by simp) fun _ _ => by simp

end InStep

end Hub
end Vbt
