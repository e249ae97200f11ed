import Vbt.Hub.Learning
import Vbt.System.Net

/-!
# The hub relays what the cores send

* `Inv`: what holds of the hub's tables, of the cores and of the frames between them, for a split
  of the frames of each core into those the hub has handled and those that are still on the way;
* `Inv.call`, `Inv.idle`, `Inv.message`: the moves keep it;
* `Inv.run`: whole runs keep it.
-/

namespace Vbt

open VbtLl Router

/-! ### Frames as the other core sees them -/

section View

variable {f g : Frame}

theorem llType_of_view (h : f.view = g.view) : f.hdr.llType = g.hdr.llType :=
  congrArg (fun v => v.1) h

theorem pdu_of_view (h : f.view = g.view) : f.pdu = g.pdu := congrArg (fun v => v.2.2.2) h

/-- Two frames that look the same are the same to a core. -/
theorem step_of_view (h : f.view = g.view) (ll : VbtLl) (junk : Mem) :
    ll.step (fromMedium junk f) = ll.step (fromMedium junk g) := by
  obtain ⟨hf, pf⟩ := f
  obtain ⟨hg, pg⟩ := g
  simp only [Frame.view, Prod.mk.injEq] at h
  obtain ⟨hty, haa, hrssi, rfl⟩ := h
  simp only [step, fromMedium, pduFromMedium, advFromMedium, scanRspFromMedium, dataFromMedium, hty,
    haa, hrssi]

theorem addrAt_ofList {l : List UInt8} (junk : Mem) {off : ℕ} (h : off + 6 ≤ l.length) :
    addrAt (Mem.ofList l junk) off = addrAt (fun i => l.getD i 0) off := by
  simp only [addrAt]
  rw [Mem.ofList_eq_getD (by omega), Mem.ofList_eq_getD (by omega), Mem.ofList_eq_getD (by omega),
    Mem.ofList_eq_getD (by omega), Mem.ofList_eq_getD (by omega), Mem.ofList_eq_getD (by omega)]

theorem le32At_ofList {l : List UInt8} (junk : Mem) {off : ℕ} (h : off + 4 ≤ l.length) :
    le32At (Mem.ofList l junk) off = le32At (fun i => l.getD i 0) off := by
  simp only [le32At]
  rw [Mem.ofList_eq_getD (by omega), Mem.ofList_eq_getD (by omega), Mem.ofList_eq_getD (by omega),
    Mem.ofList_eq_getD (by omega)]

variable {heard : BdAddr → Prop} {given : UInt32 → Prop} {sent : List Frame}

/-- The advertiser a core hears in a frame is the sender of the frame. -/
theorem adv_of_intake (hv : f.view = g.view) (hg : Follows heard given sent g) {junk : Mem}
    {a : BdAddr} (ha : (fromMedium junk f).intake.adv a) : g.hdr.txAddr = a := by
  obtain ⟨hty, hlen, htype, haddr⟩ := ha
  rw [pdu_of_view hv, Mem.ofList_eq_getD (by rw [← pdu_of_view hv]; omega)] at htype
  rw [addrAt_ofList junk (by omega), pdu_of_view hv] at haddr
  have hty' : g.hdr.llType = VBT_LL_ADV := (llType_of_view hv).symm.trans hty
  cases hg with
  | beacon hb => exact (hb.adva htype).symm.trans haddr
  | ind adva aa hi =>
    have h6 : pduType g.pdu = VBT_CONNECT_IND := hi.type
    rcases htype with ht | ht <;> exact absurd (h6.symm.trans ht) (by decide)
  | data x aa hc => exact absurd (hc.llType.symm.trans hty') (by decide)

/-- The Access Address a core is given in a frame is that of the CONNECT_IND. -/
theorem ind_of_intake (hv : f.view = g.view) (hg : Follows heard given sent g) {junk : Mem}
    {aa : UInt32} (ha : (fromMedium junk f).intake.ind aa) : ∃ adva, Invites adva aa g := by
  obtain ⟨hty, hlen, htype, haa⟩ := ha
  have hoff : VBT_CONNIND_AA_OFF + 4 ≤ f.pdu.length :=
    le_trans (by decide : VBT_CONNIND_AA_OFF + 4 ≤ 36) hlen
  rw [Mem.ofList_eq_getD (by omega), pdu_of_view hv] at htype
  rw [le32At_ofList junk hoff, pdu_of_view hv] at haa
  have hty' : g.hdr.llType = VBT_LL_ADV := (llType_of_view hv).symm.trans hty
  cases hg with
  | beacon hb => exact absurd htype hb.type
  | ind adva aa' hi =>
    obtain rfl : aa' = aa := hi.aa.symm.trans haa
    exact ⟨adva, hi⟩
  | data x aa' hc => exact absurd (hc.llType.symm.trans hty') (by decide)

end View

/-! ### Observations -/

namespace Net

variable {n : Net}

theorem handed_event (e : Hub.Event) (hsuf : n.hub.log <:+ (n.hub.step e).log) (x : Side) :
    (n.event e).handed x =
      n.handed x ++ (Hub.handsTo (n.peer x) (Hub.did n.hub (n.hub.step e))).reverse := by
  have hlog := Hub.did_append hsuf
  simp only [handed, event]
  rw [hlog, Hub.handsTo_append, List.reverse_append]

theorem source_mem {x : Side} {f : Frame} (hf : f ∈ (n.core x).frames) :
    f.hdr.txAddr ∈ n.sources x := by
  simp only [sources, List.mem_toFinset, List.mem_map]
  exact ⟨f, hf, rfl⟩

theorem Admissible.sources_disjoint (hadm : n.Admissible) {x : Side} {a b : BdAddr}
    (ha : a ∈ n.sources x)
    (hb : b ∈ n.sources x.other) : a ≠ b := by
  rintro rfl
  cases x with
  | left => exact Finset.disjoint_left.1 hadm.disjoint ha hb
  | right => exact Finset.disjoint_left.1 hadm.disjoint hb ha

end Net

/-! ### The invariant -/

/-- An address is among the source addresses of the frames. -/
def Used (l : List Frame) (a : BdAddr) : Prop := ∃ f ∈ l, f.hdr.txAddr = a

/-- The hub has a route for the Access Address. -/
def Routed (s : Hub) (aa : UInt32) : Prop := s.router.link aa ≠ none

/-- What holds while the hub has handled the frames `handled` of each core and the frames `pending`
are on the way. -/
structure Inv (node : Side → ℕ) (n : Net) (handled pending : Side → List Frame) : Prop where
  tracked : Hub.Tracked n.hub
  oneHello : OneHello n.hub.log
  plain : Hub.Plain n.hub
  bound : ∀ x, Bound n.hub.router (n.peer x) (node x)
  distinct : node .left ≠ node .right
  frames : ∀ x, (n.core x).frames = handled x ++ pending x
  bytes : ∀ x, (n.hub.peers (n.peer x)).rxbuf ++ n.sock x = (pending x).flatMap Frame.packet
  handed : ∀ x, (n.handed x.other).map Frame.view = (handled x).map Frame.view
  inbox : ∀ x, n.inbox x <:+ n.handed x
  learned : ∀ x a, a ∈ n.hub.router.addrs (node x) ↔ Used (handled x) a
  links : ∀ aa e, n.hub.router.link aa = some e → ∃ x, e = ⟨some (node x), some (node x.other)⟩
  routed : ∀ x, ∀ f ∈ handled x, ∀ adva aa, Invites adva aa f → Routed n.hub aa
  room : n.hub.linked.card ≤ (handled .left).countP Frame.isInd + (handled .right).countP Frame.isInd
  reached : ∀ x, Reached (n.core x)
  disciplined : ∀ x, VbtLl.Disciplined (Used (handled x.other)) (Routed n.hub) (n.core x)

namespace Inv

variable {node : Side → ℕ} {n : Net} {handled pending : Side → List Frame}
  (h : Inv node n handled pending)
include h

theorem node_ne (x : Side) : node x.other ≠ node x := by
  cases x with
  | left => exact h.distinct.symm
  | right => exact h.distinct

theorem peer_ne (x : Side) : n.peer x.other ≠ n.peer x := by
  intro hc
  have hx := (h.bound x).nodeOf
  rw [← hc, (h.bound x.other).nodeOf] at hx
  exact h.node_ne x (Option.some.inj hx)

/-- The frames of a core followed the rule with the frames before them. -/
theorem follows {x : Side} {earlier later : List Frame} {f : Frame}
    (hf : (n.core x).frames = earlier ++ f :: later) :
    Follows (Used (handled x.other)) (Routed n.hub) earlier.reverse f := by
  have hfol := (h.disciplined x).follows
  rw [hf, List.reverse_append, List.reverse_cons, List.append_assoc] at hfol
  exact hfol.at_split

/-- What a core is given is a frame that the other core has sent and the hub has handled. -/
theorem handled_of_inbox {x : Side} {f : Frame} (hf : f ∈ n.inbox x) :
    ∃ g ∈ handled x.other, f.view = g.view ∧
      ∃ sent, Follows (Used (handled x)) (Routed n.hub) sent g := by
  have hmem : f.view ∈ (handled x.other).map Frame.view := by
    rw [← h.handed x.other, Side.other_other]
    exact List.mem_map_of_mem ((h.inbox x).subset hf)
  obtain ⟨g, hg, hv⟩ := List.mem_map.1 hmem
  refine ⟨g, hg, hv.symm, ?_⟩
  obtain ⟨earlier, later, hsplit⟩ := List.append_of_mem hg
  have hframes : (n.core x.other).frames = earlier ++ g :: (later ++ pending x.other) := by
    rw [h.frames, hsplit, List.append_assoc, List.cons_append]
  have hfol := h.follows hframes
  rw [Side.other_other] at hfol
  exact ⟨_, hfol⟩

/-! ### Calls -/

/-- A call of core `x` that learns only what the hub has handled. -/
theorem call {x : Side} {i : Input} (hheard : ∀ a, i.intake.adv a → Used (handled x.other) a)
    (hgiven : ∀ aa, i.intake.ind aa → Routed n.hub aa) :
    Inv node (n.call x i) handled (Function.update pending x (pending x ++
        Net.sends (n.core x) i)) := by
  have hpre := (h.reached x).frames_step i
  have hnew : ((n.core x).step i).frames = (n.core x).frames ++ Net.sends (n.core x) i := by
    obtain ⟨new, hnew⟩ := hpre
    rw [Net.sends, ← hnew, List.drop_left]
  refine { h with frames := ?_, bytes := ?_, reached := ?_, disciplined := ?_ }
  · intro y
    by_cases hy : y = x
    · subst hy
      simp only [Net.call, Function.update_self]
      rw [hnew, h.frames, List.append_assoc]
    · simp only [Net.call, Function.update_of_ne hy]
      exact h.frames y
  · intro y
    by_cases hy : y = x
    · subst hy
      simp only [Net.call, Function.update_self]
      rw [← List.append_assoc, h.bytes, List.flatMap_append]
    · simp only [Net.call, Function.update_of_ne hy]
      exact h.bytes y
  · intro y
    by_cases hy : y = x
    · subst hy
      simp only [Net.call, Function.update_self]
      exact (h.reached y).step i
    · simp only [Net.call, Function.update_of_ne hy]
      exact h.reached y
  · intro y
    by_cases hy : y = x
    · subst hy
      simp only [Net.call, Function.update_self]
      exact (h.disciplined y).step (h.reached y) i hheard hgiven
    · simp only [Net.call, Function.update_of_ne hy]
      exact h.disciplined y

/-- Core `x` takes a frame. -/
theorem deliver {x : Side} {f : Frame} {rest : List Frame} (hin : n.inbox x = f :: rest)
    (junk : Mem) :
    Inv node { n.call x (fromMedium junk f) with inbox := Function.update n.inbox x rest } handled
      (Function.update pending x (pending x ++ Net.sends (n.core x) (fromMedium junk f))) := by
  obtain ⟨g, hg, hv, sent, hfol⟩ := h.handled_of_inbox (hin ▸ List.mem_cons_self : f ∈ n.inbox x)
  have hcall := h.call (x := x) (i := fromMedium junk f)
    (fun a ha => ⟨g, hg, adv_of_intake hv hfol ha⟩) fun aa ha => by
      obtain ⟨adva, hi⟩ := ind_of_intake hv hfol ha
      exact h.routed x.other g hg adva aa hi
  refine { hcall with inbox := fun y => ?_ }
  by_cases hy : y = x
  · subst hy
    simp only [Function.update_self]
    have hsuf := h.inbox y
    rw [hin] at hsuf
    exact (List.suffix_cons f rest).trans hsuf
  · simp only [Function.update_of_ne hy]
    exact h.inbox y

/-! ### Events that forward nothing -/

/-- An event that forwards nothing, with the bytes it moves from a socket to the buffer. -/
theorem idle {e : Hub.Event} (hi : Hub.Idle n.hub (n.hub.step e)) {sock : Side → List UInt8}
    (hrx : ∀ x, ((n.hub.step e).peers (n.peer x)).rxbuf ++ sock x =
      (n.hub.peers (n.peer x)).rxbuf ++ n.sock x) :
    Inv node { n.event e with sock } handled pending := by
  have hhanded : ∀ x, Net.handed { n.event e with sock } x = n.handed x := fun x => by
    have hev := Net.handed_event e hi.suffix x
    rw [hi.hands, List.reverse_nil, List.append_nil] at hev
    exact hev
  have hrouted : Routed (n.hub.step e) = Routed n.hub := by
    unfold Routed
    rw [hi.router]
  have hlinked : (n.hub.step e).linked ⊆ n.hub.linked :=
    Hub.linked_subset h.tracked.tidy hi.tracked.tidy fun aa en hl => hi.router ▸ hl
  exact
    { tracked := hi.tracked
      oneHello := hi.oneHello h.oneHello
      plain := hi.plain h.plain
      bound := fun x => by
        show Bound (n.hub.step e).router _ _
        rw [hi.router]
        exact h.bound x
      distinct := h.distinct
      frames := h.frames
      bytes := fun x => (hrx x).trans (h.bytes x)
      handed := fun x => by
        rw [hhanded]
        exact h.handed x
      inbox := fun x => by
        rw [hhanded]
        show n.inbox x ++ (Hub.handsTo (n.peer x) (Hub.did n.hub (n.hub.step e))).reverse <:+ _
        rw [hi.hands, List.reverse_nil, List.append_nil]
        exact h.inbox x
      learned := fun x a => by
        show a ∈ (n.hub.step e).router.addrs _ ↔ _
        rw [hi.router]
        exact h.learned x a
      links := fun aa en hl => h.links aa en (hi.router ▸ hl)
      routed := fun x f hf adva aa hinv => by
        show Routed (n.hub.step e) aa
        rw [hrouted]
        exact h.routed x f hf adva aa hinv
      room := (Finset.card_le_card hlinked).trans h.room
      reached := h.reached
      disciplined := fun x => by
        show VbtLl.Disciplined _ (Routed (n.hub.step e)) _
        rw [hrouted]
        exact h.disciplined x }

/-! ### A frame is handled -/

theorem used_source {x : Side} {a : BdAddr} (ha : Used (handled x) a) : a ∈ n.sources x := by
  obtain ⟨f, hf, rfl⟩ := ha
  refine Net.source_mem ?_
  rw [h.frames]
  exact List.mem_append_left _ hf

/-- There is room to learn a source address of a core. -/
theorem room_addrs (hadm : n.Admissible) {x : Side} {a : BdAddr} (ha : a ∈ n.sources x) :
    a ∈ n.hub.router.addrs (node x) ∨
      (n.hub.router.addrs (node x)).length < MAX_ADDRS_PER_NODE := by
  by_cases hmem : a ∈ n.hub.router.addrs (node x)
  · exact Or.inl hmem
  refine Or.inr ?_
  have hnodup := h.tracked.owned.nodup (node x)
  have hsub : insert a (n.hub.router.addrs (node x)).toFinset ⊆ n.sources x := by
    intro b hb
    rcases Finset.mem_insert.1 hb with rfl | hb
    · exact ha
    · exact h.used_source ((h.learned x b).1 (List.mem_toFinset.1 hb))
  have hcard := (Finset.card_le_card hsub).trans (hadm.few x)
  rw [Finset.card_insert_of_notMem (by simpa using hmem),
    List.toFinset_card_of_nodup hnodup] at hcard
  exact Nat.lt_of_succ_le hcard

theorem local_peer (x : Side) : (n.hub.peers (n.peer x)).isBridge = false := by
  have hd := h.tracked.disciplined h.oneHello
  by_contra hc
  have hfree := (hd.bridge (n.peer x) (Bool.not_eq_false _ ▸ hc)).1
  exact Option.some_ne_none _ ((h.bound x).nodeOf.symm.trans hfree)

section Frame

variable (hadm : n.Admissible) {x : Side} {f : Frame} {rest : List Frame}
  (hp : pending x = f :: rest)
include hp

theorem pending_split : (n.core x).frames = handled x ++ f :: rest := by
  rw [h.frames, hp]

theorem pending_mem : f ∈ (n.core x).frames := by
  rw [h.pending_split hp]
  exact List.mem_append_right _ List.mem_cons_self

theorem sound_pending : ∃ size, Sound size f := (h.disciplined x).sound f (h.pending_mem hp)

theorem frameOf_pending : Hub.frameOf f.payload = some f := by
  obtain ⟨size, hs⟩ := h.sound_pending hp
  refine Hub.frameOf_payload hs.magic hs.pduLen.symm (hs.short.trans ?_)
  decide

theorem rssi_pending : f.hdr.rssi ≠ 0 := by
  obtain ⟨size, hs⟩ := h.sound_pending hp
  rw [hs.rssi]
  decide

include hadm

/-- Who is known under which address once the frame is handled. -/
theorem learned_receive (hz : ∀ x, BdAddr.zero ∉ n.sources x) (kern : Kern) (y : Side)
    (a : BdAddr) :
    a ∈ (n.hub.receive kern (n.peer x) f.payload).router.addrs (node y) ↔
      Used (Function.update handled x (handled x ++ [f]) y) a := by
  have hsrc := Net.source_mem (h.pending_mem hp)
  have hzero : f.hdr.txAddr.isZero = false := by
    rw [Bool.eq_false_iff, Ne, BdAddr.isZero, decide_eq_true_eq]
    intro hc
    exact hz x (hc ▸ hsrc)
  rw [Hub.addrs_receive h.tracked (h.bound x).isOpen (h.frameOf_pending hp)
    (Hub.ttlStep_local (h.local_peer x) f.hdr) kern]
  have hnode : n.hub.router.nodeOf (n.peer x) = some (node x) := (h.bound x).nodeOf
  simp only [Router.apply, hnode]
  rw [mem_learn_addrs h.tracked.owned hzero, h.learned]
  rcases x.eq_or y with rfl | rfl
  · rw [Function.update_self]
    constructor
    · rintro (⟨-, g, hg, rfl⟩ | ⟨rfl, -⟩)
      · exact ⟨g, List.mem_append_left _ hg, rfl⟩
      · exact ⟨f, List.mem_append_right _ (List.mem_singleton_self f), rfl⟩
    · rintro ⟨g, hg, rfl⟩
      by_cases heq : g.hdr.txAddr = f.hdr.txAddr
      · exact Or.inr ⟨heq, rfl, h.room_addrs hadm hsrc⟩
      · refine Or.inl ⟨heq, g, ?_, rfl⟩
        rcases List.mem_append.1 hg with hg | hg
        · exact hg
        · exact absurd (congrArg (fun f => f.hdr.txAddr) (List.mem_singleton.1 hg)) heq
  · rw [Function.update_of_ne x.other_ne]
    constructor
    · rintro (⟨-, hu⟩ | ⟨-, hc, -⟩)
      · exact hu
      · exact absurd hc (h.node_ne x)
    · intro hu
      exact Or.inl ⟨(hadm.sources_disjoint hsrc (h.used_source hu)).symm, hu⟩

/-- A CONNECT_IND on the way is snooped, and names an advertiser the hub knows. -/
theorem snoops_pending {adva : BdAddr} {aa : UInt32} (hi : Invites adva aa f)
    (valid : aa ≠ 0 ∧ aa ≠ VBT_ADV_ACCESS_ADDR) (known : Used (handled x.other) adva) (kern : Kern)
    (hcalm : Hub.NoClose n.hub (n.hub.receive kern (n.peer x) f.payload)) :
    (n.hub.receive kern (n.peer x) f.payload).router.link aa =
      some ⟨some (node x), some (node x.other)⟩ := by
  have haa : Hub.indAA f.pdu = aa := hi.aa
  have hadva : Hub.indAdvA f.pdu = adva := hi.adva
  have hlen : f.pdu.length = 36 := hi.length
  have hind : Hub.Snoops f.pdu := by
    refine ⟨?_, ?_, ?_⟩
    · simp only [Hub.isConnectInd, Bool.and_eq_true, decide_eq_true_eq, beq_iff_eq]
      exact ⟨by omega, hi.type⟩
    · rw [hlen]
      decide
    · rw [haa, Hub.validAA, Bool.and_eq_true, bne_iff_ne, bne_iff_ne]
      exact valid
  have hnode : (n.hub.peers (n.peer x)).nodeIdx = some (node x) := (h.bound x).nodeOf
  have hlink := Hub.link_receive_connectInd h.tracked (h.bound x).isOpen (h.frameOf_pending hp)
    hi.llType hind (Hub.ttlStep_local (h.local_peer x) f.hdr) kern (j := node x.other) ?_ ?_ ?_
  · rw [hnode, haa] at hlink
    exact hlink
  · -- the sender's own address is another one
    rw [hadva, Hub.mem_addrs_apply h.tracked.owned
      (a := .frame (n.peer x) f.hdr f.pdu) (h.bound x).isOpen ?_ (node x.other), h.learned]
    · exact known
    · rintro q hdr pdu k hq -
      cases hq
      exact hadm.sources_disjoint (Net.source_mem (h.pending_mem hp)) (h.used_source known)
  · -- this CONNECT_IND is not counted yet
    refine Or.inl ?_
    have hroom := h.room
    have htotal := hadm.inds
    have hone : f.isInd = true := by
      simp only [Frame.isInd, decide_eq_true_eq]
      exact ⟨hi.llType, hi.type⟩
    have hother := congrArg (List.countP Frame.isInd) (h.frames x.other)
    have hself := congrArg (List.countP Frame.isInd) (h.pending_split hp)
    rw [List.countP_append] at hother hself
    rw [List.countP_cons_of_pos hone] at hself
    simp only [Net.inds] at htotal
    show n.hub.linked.card < 512
    cases x with
    | left =>
      simp only [Side.other] at hother
      omega
    | right =>
      simp only [Side.other] at hother
      omega
  · exact fun q hq => absurd hq (hcalm q)

/-- A CONNECT_IND on the way makes a route between the two cores. -/
theorem link_invites {adva : BdAddr} {aa : UInt32} (hi : Invites adva aa f) {kern : Kern}
    (hcalm : Hub.NoClose n.hub (n.hub.receive kern (n.peer x) f.payload)) :
    (n.hub.receive kern (n.peer x) f.payload).router.link aa =
      some ⟨some (node x), some (node x.other)⟩ := by
  cases h.follows (h.pending_split hp) with
  | beacon hb => exact absurd hi.type hb.type
  | ind adva' aa' hi' valid known =>
    obtain rfl : aa' = aa := hi'.aa.symm.trans hi.aa
    exact h.snoops_pending hadm hp hi' valid known kern hcalm
  | data y aa' hc => exact absurd (hc.llType.symm.trans hi.llType) (by decide)

/-- A frame on the way either makes no route or is a CONNECT_IND between the two cores. -/
theorem link_pending {kern : Kern}
    (hcalm : Hub.NoClose n.hub (n.hub.receive kern (n.peer x) f.payload)) (aa : UInt32) :
    (n.hub.receive kern (n.peer x) f.payload).router.link aa = n.hub.router.link aa ∨
      (f.isInd = true ∧ aa = Hub.indAA f.pdu ∧
        (n.hub.receive kern (n.peer x) f.payload).router.link aa =
          some ⟨some (node x), some (node x.other)⟩) := by
  by_cases hsn : f.hdr.llType = VBT_LL_ADV ∧ Hub.Snoops f.pdu ∧ Hub.indAA f.pdu = aa
  swap
  · exact Or.inl (Hub.link_receive_calm h.tracked (h.bound x).isOpen (h.frameOf_pending hp) hsn hcalm)
  obtain ⟨hadv, hind, rfl⟩ := hsn
  have htype : pduType f.pdu = VBT_CONNECT_IND := by
    have hci := hind.1
    simp only [Hub.isConnectInd, Bool.and_eq_true, beq_iff_eq] at hci
    exact hci.2
  refine Or.inr ⟨by simp only [Frame.isInd, decide_eq_true_eq]; exact ⟨hadv, htype⟩, rfl, ?_⟩
  cases h.follows (h.pending_split hp) with
  | beacon hb => exact absurd htype hb.type
  | ind adva aa hi =>
    have haa : Hub.indAA f.pdu = aa := hi.aa
    rw [haa]
    exact h.link_invites hadm hp hi hcalm
  | data y aa hc => exact absurd (hc.llType.symm.trans hadv) (by decide)

theorem room_pending {kern : Kern}
    (hcalm : Hub.NoClose n.hub (n.hub.receive kern (n.peer x) f.payload)) :
    (n.hub.receive kern (n.peer x) f.payload).linked.card ≤
      n.hub.linked.card + if f.isInd then 1 else 0 := by
  have ht := h.tracked.tidy
  have ht' := (Hub.receive_leads h.tracked (h.bound x).isOpen kern f.payload).tracked.tidy
  split_ifs with hind
  · have hsub : (n.hub.receive kern (n.peer x) f.payload).linked ⊆
        insert (Hub.indAA f.pdu) n.hub.linked := by
      intro aa haa
      obtain ⟨e, he⟩ := (Hub.mem_linked ht').1 haa
      rcases h.link_pending hadm hp hcalm aa with hl | ⟨-, rfl, -⟩
      · exact Finset.mem_insert_of_mem ((Hub.mem_linked ht).2 ⟨e, hl ▸ he⟩)
      · exact Finset.mem_insert_self _ _
    exact (Finset.card_le_card hsub).trans (Finset.card_insert_le _ _)
  · refine Finset.card_le_card (Hub.linked_subset ht ht' fun aa e he => ?_)
    rcases h.link_pending hadm hp hcalm aa with hl | ⟨hc, -⟩
    · exact hl ▸ he
    · exact absurd hc hind

end Frame

/-- The far end of a route between the two cores. -/
theorem other_end (x z : Side) :
    (if some (node z) = some (node x) then some (node z.other) else some (node z)) =
      some (node x.other) := by
  rcases x.eq_or z with rfl | rfl
  · rw [if_pos rfl]
  · rw [if_neg fun hc => h.node_ne x (Option.some.inj hc)]

/-- The Access Address of a data PDU on the way is routed between the two cores. -/
theorem link_of_named {x : Side} {aa : UInt32}
    (named : Named (Routed n.hub) (handled x).reverse aa) :
    ∃ z, n.hub.router.link aa = some ⟨some (node z), some (node z.other)⟩ := by
  have hrouted : Routed n.hub aa := by
    rcases named with hr | ⟨g, hg, adva, hi⟩
    · exact hr
    · exact h.routed x g (List.mem_reverse.1 hg) adva aa hi
  obtain ⟨e, he⟩ := Option.ne_none_iff_exists'.1 hrouted
  obtain ⟨z, rfl⟩ := h.links aa e he
  exact ⟨z, he⟩

section Hands

variable {x : Side} {f : Frame} {rest : List Frame} (hp : pending x = f :: rest)
include hp

/-- A frame on the way is an advertising PDU, or a data PDU with a route. -/
theorem pending_cases : f.hdr.llType = VBT_LL_ADV ∨ (f.hdr.llType = VBT_LL_DATA ∧
    ∃ z, n.hub.router.link f.hdr.accessAddr = some ⟨some (node z), some (node z.other)⟩) := by
  cases h.follows (h.pending_split hp) with
  | beacon hb => exact Or.inl hb.llType
  | ind adva aa hi => exact Or.inl hi.llType
  | data y aa hc named => exact Or.inr ⟨hc.llType, hc.accessAddr ▸ h.link_of_named named⟩

/-- The peer of the other core is handed the frame, once. -/
theorem handsTo_other (kern : Kern) :
    (Hub.handsTo (n.peer x.other) (Hub.did n.hub (n.hub.receive kern (n.peer x) f.payload))).map
      Frame.view = [f.view] := by
  have hd := h.tracked.disciplined h.oneHello
  have hf := h.frameOf_pending hp
  have hr := h.rssi_pending hp
  rcases h.pending_cases hp with hadv | ⟨hdata, z, hlink⟩
  · obtain ⟨flags, hh⟩ := Hub.handsTo_adv h.tracked hd h.plain (h.bound x) (h.bound x.other)
      (h.peer_ne x) hf hadv hr kern
    rw [hh]
    rfl
  · obtain ⟨flags, hh⟩ := Hub.handsTo_data_plain h.tracked hd h.plain (h.bound x) (h.bound x.other)
      hf hdata hr hlink (h.other_end x z) kern
    rw [hh]
    rfl

/-- The sender is handed nothing. -/
theorem handsTo_sender (kern : Kern) :
    Hub.handsTo (n.peer x) (Hub.did n.hub (n.hub.receive kern (n.peer x) f.payload)) = [] := by
  have hf := h.frameOf_pending hp
  refine Hub.handsTo_eq_nil fun g hg => ?_
  rcases h.pending_cases hp with hadv | ⟨hdata, z, hlink⟩
  · refine Hub.delivery_ne_src h.tracked (h.bound x).isOpen hf ?_ rfl hg rfl
    rw [hadv]
    decide
  · rcases Hub.delivery_of_data h.tracked (h.bound x).isOpen hf hdata rfl hg with
      ⟨hne, -⟩ | ⟨hne, -⟩ | ⟨c, o, hc, hoe, ho⟩
    · exact hne rfl
    · exact hne rfl
    · -- the other endpoint is the other core's node, which is reached through its own peer
      have hnode : (n.hub.peers (n.peer x)).nodeIdx = some (node x) := (h.bound x).nodeOf
      have hends : (n.hub.conns c).ends = ⟨some (node z), some (node z.other)⟩ := by
        simp only [Hub.router, hc, Option.map_some, Option.some.injEq] at hlink
        exact hlink
      have ha : (n.hub.conns c).nodeA = some (node z) := congrArg Ends.a hends
      have hb : (n.hub.conns c).nodeB = some (node z.other) := congrArg Ends.b hends
      rw [Hub.otherEnd_eq, hnode, ha, hb, h.other_end x z] at hoe
      obtain rfl := Option.some.inj hoe
      have hpeer : n.hub.router.peerOf (node x.other) = some (n.peer x) := ho
      rw [(h.bound x.other).peerOf] at hpeer
      exact h.peer_ne x (Option.some.inj hpeer)

end Hands

/-- **The hub handles a frame of core `x`.** -/
theorem message (hadm : n.Admissible) (hz : ∀ x, BdAddr.zero ∉ n.sources x) {x : Side} {f : Frame}
    {rest : List Frame} (hp : pending x = f :: rest) {more : List UInt8}
    (hbuf : (n.hub.peers (n.peer x)).rxbuf = f.packet ++ more) {kern : Kern}
    (hcalm : Hub.NoClose n.hub (n.hub.step (.message (n.peer x) kern))) :
    Inv node (n.event (.message (n.peer x) kern)) (Function.update handled x (handled x ++ [f]))
      (Function.update pending x rest) := by
  have hf := h.frameOf_pending hp
  obtain ⟨hproc, hdid, hrouter, hrx, hrx'⟩ :=
    Hub.calm_message h.tracked (h.bound x).isOpen hf hbuf hcalm
  have hcalm' : Hub.NoClose n.hub (n.hub.receive kern (n.peer x) f.payload) :=
    fun q => hdid ▸ hcalm q
  have hrouted : ∀ aa, Routed n.hub aa → Routed (n.hub.step (.message (n.peer x) kern)) aa := by
    intro aa haa
    unfold Routed
    rw [hrouter]
    rcases h.link_pending hadm hp hcalm' aa with hl | ⟨-, -, hl⟩
    · rw [hl]
      exact haa
    · rw [hl]
      exact Option.some_ne_none _
  have hused : ∀ y a, Used (handled y) a →
      Used (Function.update handled x (handled x ++ [f]) y) a := by
    rintro y a ⟨g, hg, rfl⟩
    refine ⟨g, ?_, rfl⟩
    rcases x.eq_or y with rfl | rfl
    · rw [Function.update_self]
      exact List.mem_append_left _ hg
    · rwa [Function.update_of_ne x.other_ne]
  have hother := h.handsTo_other hp kern
  have hsender := h.handsTo_sender hp kern
  rw [← hdid] at hother hsender
  exact
    { tracked := hproc.tracked
      oneHello := hproc.oneHello h.oneHello
      plain := hproc.plain h.plain
      bound := fun y => by
        show Bound (n.hub.step _).router _ _
        rw [hrouter]
        exact Hub.bound_receive h.tracked (h.bound x).isOpen hf hcalm' (h.bound y)
      distinct := h.distinct
      frames := fun y => by
        rcases x.eq_or y with rfl | rfl
        · rw [Function.update_self, Function.update_self, List.append_assoc]
          exact h.pending_split hp
        · rw [Function.update_of_ne x.other_ne, Function.update_of_ne x.other_ne]
          exact h.frames x.other
      bytes := fun y => by
        have hbytes := h.bytes y
        rcases x.eq_or y with rfl | rfl
        · rw [Function.update_self]
          show ((n.hub.step _).peers (n.peer y)).rxbuf ++ n.sock y = _
          rw [hp, hbuf, List.flatMap_cons, List.append_assoc, List.append_cancel_left_eq] at hbytes
          rw [hrx]
          exact hbytes
        · rw [Function.update_of_ne x.other_ne]
          show ((n.hub.step _).peers (n.peer x.other)).rxbuf ++ n.sock x.other = _
          rw [hrx' _ (h.peer_ne x)]
          exact hbytes
      handed := fun y => by
        rw [Net.handed_event _ hproc.suffix, List.map_append, h.handed, List.map_reverse]
        rcases x.eq_or y with rfl | rfl
        · rw [hother, Function.update_self, List.map_append]
          rfl
        · rw [Side.other_other, hsender, Function.update_of_ne x.other_ne]
          exact List.append_nil _
      inbox := fun y => by
        rw [Net.handed_event _ hproc.suffix]
        obtain ⟨old, hold⟩ := h.inbox y
        exact ⟨old, by rw [← hold, List.append_assoc]; rfl⟩
      learned := fun y a => by
        show a ∈ (n.hub.step _).router.addrs _ ↔ _
        rw [hrouter]
        exact h.learned_receive hadm hp hz kern y a
      links := fun aa e he => by
        have he' : (n.hub.step (.message (n.peer x) kern)).router.link aa = some e := he
        rw [hrouter] at he'
        rcases h.link_pending hadm hp hcalm' aa with hl | ⟨-, -, hl⟩
        · exact h.links aa e (hl ▸ he')
        · exact ⟨x, Option.some.inj (he'.symm.trans hl)⟩
      routed := fun y g hg adva aa hi => by
        rcases x.eq_or y with rfl | rfl
        · rw [Function.update_self, List.mem_append, List.mem_singleton] at hg
          rcases hg with hg | rfl
          · exact hrouted aa (h.routed y g hg adva aa hi)
          · show (n.hub.step _).router.link aa ≠ none
            rw [hrouter, h.link_invites hadm hp hi hcalm']
            exact Option.some_ne_none _
        · rw [Function.update_of_ne x.other_ne] at hg
          exact hrouted aa (h.routed _ g hg adva aa hi)
      room := by
        have hsub : (n.hub.step (.message (n.peer x) kern)).linked ⊆
            (n.hub.receive kern (n.peer x) f.payload).linked :=
          Hub.linked_subset (Hub.receive_leads h.tracked (h.bound x).isOpen kern f.payload).tracked.tidy
            hproc.tracked.tidy fun aa e he => hrouter ▸ he
        have hcard := (Finset.card_le_card hsub).trans (h.room_pending hadm hp hcalm')
        have hroom := h.room
        have hcount : (handled x ++ [f]).countP Frame.isInd =
            (handled x).countP Frame.isInd + if f.isInd then 1 else 0 := by
          rw [List.countP_append, List.countP_singleton]
        show (n.hub.step _).linked.card ≤ _
        cases x with
        | left =>
          rw [Function.update_self, Function.update_of_ne (by decide), hcount]
          omega
        | right =>
          rw [Function.update_self, Function.update_of_ne (by decide), hcount]
          omega
      reached := h.reached
      disciplined := fun y => (h.disciplined y).mono (hused y.other) hrouted }

end Inv

end Vbt
