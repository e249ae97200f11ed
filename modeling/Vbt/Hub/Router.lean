import Vbt.Lib.Journal
import Vbt.Hub.Tables

/-!
# The abstract router

What the hub's tables are for, without slots, buffers and counters: which peers are open, which
node a peer speaks for and which peer a node is reached through, which addresses a node is known
by, and which two nodes an Access Address links. Its transitions are the actions of the hub's log.

* `Router`, `Router.apply`, `Router.enabled`, and the journal machine `medium`;
* `Blank`: a closed peer is neither bound nor a bridge nor a monitor, and linked nodes exist;
* `Bijective`: bindings of peers and nodes agree in both directions; `Bijective.apply` says that
  every action keeps this but a hello of a peer that speaks for another node (`Rebinds`);
* `OneHello`: every peer says hello at most once and bridges never; what that gives is
  `Disciplined`.
-/

namespace Vbt

open Hub

/-- The two endpoint nodes of a connection; an unknown one is `none`. -/
structure Ends where
  a : Option ℕ
  b : Option ℕ
  deriving DecidableEq, Repr

/-- The node is known and is an endpoint. -/
def Ends.has (e : Ends) (n : Option ℕ) : Bool := n.isSome && (e.a == n || e.b == n)

theorem Ends.has_some {e : Ends} {k : ℕ} : e.has (some k) = true ↔ e.a = some k ∨ e.b = some k := by
  simp [Ends.has]

@[simp] theorem Ends.has_none (e : Ends) : e.has none = false := rfl

/-- The state of the medium as routing sees it. -/
@[ext] structure Router where
  isOpen : ℕ → Bool
  bridge : ℕ → Bool
  monitor : ℕ → Bool
  nodeOf : ℕ → Option ℕ
  active : ℕ → Bool
  name : ℕ → NodeId
  addrs : ℕ → List BdAddr
  peerOf : ℕ → Option ℕ
  link : UInt32 → Option Ends

namespace Router

/-- The empty medium. -/
def empty : Router where
  isOpen _ := false
  bridge _ := false
  monitor _ := false
  nodeOf _ := none
  active _ := false
  name _ := []
  addrs _ := []
  peerOf _ := none
  link _ := none

/-- A socket is opened. -/
def «open» (r : Router) (p : ℕ) (br : Bool) : Router :=
  { r with
    isOpen := fun q => if q = p then true else r.isOpen q
    bridge := fun q => if q = p then br else r.bridge q
    monitor := fun q => if q = p then false else r.monitor q
    nodeOf := fun q => if q = p then none else r.nodeOf q }

/-- Peer `p` closes: its node goes offline and takes its links with it. -/
def close (r : Router) (p : ℕ) : Router :=
  { r with
    isOpen := fun q => if q = p then false else r.isOpen q
    bridge := fun q => if q = p then false else r.bridge q
    monitor := fun q => if q = p then false else r.monitor q
    nodeOf := fun q => if q = p then none else r.nodeOf q
    peerOf := fun k => if r.nodeOf p = some k ∧ r.peerOf k = some p then none else r.peerOf k
    link := fun aa => (r.link aa).filter fun e => !e.has (r.nodeOf p) }

/-- A node gets a name. -/
def addNode (r : Router) (k : ℕ) (nid : NodeId) : Router :=
  { r with
    active := fun i => if i = k then true else r.active i
    name := fun i => if i = k then nid.take (NODE_ID_LEN - 1) else r.name i
    addrs := fun i => if i = k then [] else r.addrs i
    peerOf := fun i => if i = k then none else r.peerOf i }

/-- Peer `p` is bound to node `k`; a peer that held the node before is left without one. -/
def bind (r : Router) (p k : ℕ) : Router :=
  { r with
    nodeOf := fun q =>
      if q = p then some k else if r.peerOf k = some q then none else r.nodeOf q
    peerOf := fun i => if i = k then some p else r.peerOf i }

/-- Peer `p` becomes a monitor. -/
def tap (r : Router) (p : ℕ) : Router :=
  { r with monitor := fun q => if q = p then true else r.monitor q }

/-- Node `k` is heard under an address. -/
def learn (r : Router) (k : ℕ) (addr : BdAddr) : Router :=
  { r with addrs := fun i =>
      if addr.isZero ∨ addr ∈ r.addrs k then r.addrs i
      else if i = k then
        if (r.addrs k).length < MAX_ADDRS_PER_NODE then r.addrs k ++ [addr] else r.addrs k
      else if r.active i then dropAddr addr (r.addrs i).length (r.addrs i) else r.addrs i }

/-- An Access Address links two nodes. -/
def record (r : Router) (aa : UInt32) (e : Ends) : Router :=
  { r with link := fun x => if x = aa then some e else r.link x }

/-- The effect of an action. -/
def apply (r : Router) : Act → Router
  | .opened p br => r.open p br
  | .closed p => r.close p
  | .named k nid => r.addNode k nid
  | .hello p _ _ true _ => r.tap p
  | .hello p _ _ false (some k) => r.bind p k
  | .hello _ _ _ false none => r
  | .frame src hdr _ =>
    match r.nodeOf src with
    | some k => r.learn k hdr.txAddr
    | none => r
  | .snooped aa a b (some _) => r.record aa ⟨a, b⟩
  | .snooped _ _ _ none => r
  | .hand _ _ => r
  | .wrote _ _ => r
  | .dropped _ => r
  | .rxWrap _ => r
  | .reply _ => r

/-- When an action can be taken. -/
def enabled (r : Router) : Act → Prop
  | .opened p _ => r.isOpen p = false
  | .closed p => r.isOpen p = true
  | .named k _ => r.active k = false
  | .hello p _ _ _ node => r.isOpen p = true ∧ ∀ k, node = some k → r.active k = true
  | .frame src _ _ => r.isOpen src = true
  | .snooped aa a b slot =>
    validAA aa = true ∧ (∀ k, a = some k ∨ b = some k → r.active k = true) ∧
      (slot = none → r.link aa = none)
  | _ => True

end Router

/-- The medium as a machine that keeps a journal. -/
def medium : Journal Router Act where
  init := Router.empty
  apply := Router.apply
  enabled := Router.enabled

@[simp] theorem medium_apply (r : Router) (a : Act) : medium.apply r a = r.apply a := rfl

@[simp] theorem medium_enabled (r : Router) (a : Act) : medium.enabled r a = r.enabled a := rfl

namespace Router

/-- A frame changes only the addresses. -/
theorem apply_frame (r : Router) (src : ℕ) (hdr : VbtFrameHdr) (pdu : List UInt8) :
    ∃ addrs, r.apply (.frame src hdr pdu) = { r with addrs } := by
  simp only [apply]
  split
  · exact ⟨_, rfl⟩
  · exact ⟨_, rfl⟩

section Learn

variable {r : Router} {k i : ℕ} {addr : BdAddr}

theorem learn_addrs_known (h : addr.isZero = true ∨ addr ∈ r.addrs k) :
    (r.learn k addr).addrs i = r.addrs i := if_pos h

variable (h : ¬ (addr.isZero = true ∨ addr ∈ r.addrs k))
include h

theorem learn_addrs_room (hlen : (r.addrs k).length < MAX_ADDRS_PER_NODE) :
    (r.learn k addr).addrs k = r.addrs k ++ [addr] := by
  simp only [learn, if_neg h, if_pos hlen, if_true]

theorem learn_addrs_full (hlen : ¬ (r.addrs k).length < MAX_ADDRS_PER_NODE) :
    (r.learn k addr).addrs k = r.addrs k := by
  simp only [learn, if_neg h, if_neg hlen, if_true]

theorem learn_addrs_other (hik : i ≠ k) (ha : r.active i = true) :
    (r.learn k addr).addrs i = dropAddr addr (r.addrs i).length (r.addrs i) := by
  simp only [learn, if_neg h, if_neg hik, ha, if_true]

theorem learn_addrs_inactive (hik : i ≠ k) (ha : r.active i = false) :
    (r.learn k addr).addrs i = r.addrs i := by
  simp only [learn, if_neg h, if_neg hik, ha, Bool.false_eq_true, if_false]

end Learn

/-! ### Closed peers, known nodes -/

/-- A closed peer is neither a bridge nor a monitor and speaks for no node; a node that is spoken
for, or linked, exists. -/
structure Blank (r : Router) : Prop where
  bridge : ∀ p, r.isOpen p = false → r.bridge p = false
  monitor : ∀ p, r.isOpen p = false → r.monitor p = false
  nodeOf : ∀ p, r.isOpen p = false → r.nodeOf p = none
  active : ∀ p k, r.nodeOf p = some k → r.active k = true
  linked : ∀ aa e k, r.link aa = some e → e.has (some k) = true → r.active k = true
  valid : ∀ aa e, r.link aa = some e → validAA aa = true

theorem Blank.empty : Blank Router.empty where
  bridge _ _ := rfl
  monitor _ _ := rfl
  nodeOf _ _ := rfl
  active _ _ h := by simp [Router.empty] at h
  linked _ _ _ h := by simp [Router.empty] at h
  valid _ _ h := by simp [Router.empty] at h

theorem link_of_close {r : Router} {p : ℕ} {aa : UInt32} {e : Ends} :
    (r.close p).link aa = some e ↔ r.link aa = some e ∧ e.has (r.nodeOf p) = false := by
  simp [close, Option.filter_eq_some_iff]

theorem Blank.open {r : Router} (h : Blank r) (p : ℕ) (br : Bool) : Blank (r.open p br) := by
  refine ⟨fun q hq => ?_, fun q hq => ?_, fun q hq => ?_, fun q k hq => ?_, h.linked, h.valid⟩ <;>
    simp only [Router.open] at hq ⊢ <;> split_ifs at hq ⊢ with hqp
  · exact h.bridge q hq
  · exact h.monitor q hq
  · exact h.nodeOf q hq
  · exact h.active q k hq

theorem Blank.close {r : Router} (h : Blank r) (p : ℕ) : Blank (r.close p) := by
  refine ⟨fun q hq => ?_, fun q hq => ?_, fun q hq => ?_, fun q k hq => ?_,
    fun aa e k he hk => h.linked aa e k (link_of_close.1 he).1 hk,
    fun aa e he => h.valid aa e (link_of_close.1 he).1⟩ <;>
    simp only [Router.close] at hq ⊢ <;> split_ifs at hq ⊢ with hqp
  · rfl
  · exact h.bridge q hq
  · rfl
  · exact h.monitor q hq
  · rfl
  · exact h.nodeOf q hq
  · exact h.active q k hq

theorem Blank.bind {r : Router} (h : Blank r) {p k : ℕ} (hp : r.isOpen p = true)
    (hk : r.active k = true) : Blank (r.bind p k) where
  bridge := h.bridge
  monitor := h.monitor
  nodeOf q hq := by
    have hqp : q ≠ p := by
      rintro rfl
      rw [show r.isOpen q = false from hq] at hp
      cases hp
    simp [Router.bind, hqp, h.nodeOf q hq]
  active q i hi := by
    simp only [Router.bind] at hi ⊢
    split_ifs at hi
    · exact Option.some.inj hi ▸ hk
    · exact h.active q i hi
  linked := h.linked
  valid := h.valid

/-- Every action keeps closed peers blank. -/
theorem Blank.apply {r : Router} (h : Blank r) {a : Act} (he : r.enabled a) :
    Blank (r.apply a) := by
  cases a with
  | opened p br => exact h.open p br
  | closed p => exact h.close p
  | named k nid =>
    have mono : ∀ i, r.active i = true → (r.addNode k nid).active i = true := by
      intro i hi
      simp only [addNode]
      split_ifs <;> trivial
    exact ⟨h.bridge, h.monitor, h.nodeOf, fun p i hp => mono i (h.active p i hp),
      fun aa e i haa hi => mono i (h.linked aa e i haa hi), h.valid⟩
  | hello p nid ph mon node =>
    obtain ⟨hp, hk⟩ := he
    cases mon with
    | true =>
      refine ⟨h.bridge, fun q hq => ?_, h.nodeOf, h.active, h.linked, h.valid⟩
      have hqp : q ≠ p := by
        rintro rfl
        rw [show r.isOpen q = false from hq] at hp
        cases hp
      simpa [Router.apply, tap, hqp] using h.monitor q hq
    | false =>
      cases node with
      | none => exact h
      | some k => exact h.bind hp (hk k rfl)
  | frame src hdr pdu =>
    obtain ⟨addrs, hr⟩ := r.apply_frame src hdr pdu
    rw [hr]
    exact ⟨h.bridge, h.monitor, h.nodeOf, h.active, h.linked, h.valid⟩
  | snooped aa a b slot =>
    obtain ⟨hv, hact, -⟩ := he
    cases slot with
    | none => exact h
    | some c =>
      refine ⟨h.bridge, h.monitor, h.nodeOf, h.active, fun x e k hl hm => ?_, fun x e hl => ?_⟩ <;>
        simp only [Router.apply, record] at hl <;> split_ifs at hl with hx
      · cases hl
        exact hact k (Ends.has_some.1 hm)
      · exact h.linked x e k hl hm
      · exact hx ▸ hv
      · exact h.valid x e hl
  | hand | wrote | dropped | rxWrap | reply => exact h

theorem blank_of_legal {log : List Act} (h : medium.Legal log) : Blank (medium.replay log) :=
  h.invariant (I := Blank) Blank.empty fun _ _ hr he => hr.apply he

/-! ### What deliveries do -/

/-- The actions of a delivery: a frame is handed over, and the socket takes it, drops it or is
closed. -/
def OfSocket : Act → Prop
  | .hand _ _ => True
  | .wrote _ _ => True
  | .dropped _ => True
  | .closed _ => True
  | _ => False

/-- Nothing is opened, bound, learned or linked. -/
structure Shrinks (r r' : Router) : Prop where
  isOpen : ∀ p, r'.isOpen p = true → r.isOpen p = true
  bridge : ∀ p, r'.bridge p = true → r.bridge p = true
  monitor : ∀ p, r'.monitor p = true → r.monitor p = true
  nodeOf : ∀ p k, r'.nodeOf p = some k → r.nodeOf p = some k
  peerOf : ∀ k p, r'.peerOf k = some p → r.peerOf k = some p
  link : ∀ aa e, r'.link aa = some e → r.link aa = some e
  active : r'.active = r.active
  addrs : r'.addrs = r.addrs

theorem Shrinks.refl (r : Router) : Shrinks r r :=
  ⟨fun _ h => h, fun _ h => h, fun _ h => h, fun _ _ h => h, fun _ _ h => h, fun _ _ h => h, rfl,
    rfl⟩

theorem Shrinks.trans {r r' r'' : Router} (h : Shrinks r r') (h' : Shrinks r' r'') :
    Shrinks r r'' where
  isOpen p hp := h.isOpen p (h'.isOpen p hp)
  bridge p hp := h.bridge p (h'.bridge p hp)
  monitor p hp := h.monitor p (h'.monitor p hp)
  nodeOf p k hp := h.nodeOf p k (h'.nodeOf p k hp)
  peerOf k p hp := h.peerOf k p (h'.peerOf k p hp)
  link aa e he := h.link aa e (h'.link aa e he)
  active := h'.active.trans h.active
  addrs := h'.addrs.trans h.addrs

theorem Shrinks.close (r : Router) (p : ℕ) : Shrinks r (r.close p) := by
  refine ⟨fun q hq => ?_, fun q hq => ?_, fun q hq => ?_, fun q k hq => ?_, fun k q hq => ?_,
    fun aa e he => (link_of_close.1 he).1, rfl, rfl⟩
  all_goals
    simp only [Router.close] at hq
    split_ifs at hq
    exact hq

theorem Shrinks.apply (r : Router) {a : Act} (ha : OfSocket a) : Shrinks r (r.apply a) := by
  cases a with
  | closed p => exact Shrinks.close r p
  | hand | wrote | dropped => exact Shrinks.refl r
  | _ => exact absurd ha id

/-- The routes of two states are the same. -/
structure SameRoutes (r r' : Router) : Prop where
  nodeOf : r'.nodeOf = r.nodeOf
  peerOf : r'.peerOf = r.peerOf
  link : r'.link = r.link
  active : r'.active = r.active
  addrs : r'.addrs = r.addrs

theorem SameRoutes.refl (r : Router) : SameRoutes r r := ⟨rfl, rfl, rfl, rfl, rfl⟩

theorem SameRoutes.trans {r r' r'' : Router} (h : SameRoutes r r') (h' : SameRoutes r' r'') :
    SameRoutes r r'' :=
  ⟨h'.nodeOf.trans h.nodeOf, h'.peerOf.trans h.peerOf, h'.link.trans h.link,
    h'.active.trans h.active, h'.addrs.trans h.addrs⟩

/-- A peer that is bound to no node can close without changing a route. -/
theorem SameRoutes.close {r : Router} {p : ℕ} (hp : r.nodeOf p = none) :
    SameRoutes r (r.close p) := by
  refine ⟨funext fun q => ?_, funext fun k => ?_, funext fun aa => ?_, rfl, rfl⟩
  · by_cases hqp : q = p <;> simp [Router.close, hqp, hp]
  · simp [Router.close, hp]
  · cases hl : r.link aa <;> simp [Router.close, hp, hl]

theorem SameRoutes.apply {r : Router} {a : Act} (ha : OfSocket a)
    (hclosed : ∀ p, a = .closed p → r.nodeOf p = none) : SameRoutes r (r.apply a) := by
  cases a with
  | closed p => exact SameRoutes.close (hclosed p rfl)
  | hand | wrote | dropped => exact SameRoutes.refl r
  | _ => exact absurd ha id

/-! ### Links -/

/-- A link comes with a CONNECT_IND only, and goes with one or when a peer of one of its nodes
closes. -/
theorem link_apply_iff {r : Router} {act : Act} {aa : UInt32} {e : Ends}
    (hs : ∀ a b slot, act ≠ .snooped aa a b slot) :
    (r.apply act).link aa = some e ↔
      r.link aa = some e ∧ ∀ p, act = .closed p → e.has (r.nodeOf p) = false := by
  cases act with
  | closed p => exact link_of_close.trans (and_congr_right fun _ => by simp)
  | hello p nid ph mon node => cases mon <;> cases node <;> exact ⟨fun h => ⟨h, nofun⟩, And.left⟩
  | frame src hdr pdu =>
    obtain ⟨addrs, hr⟩ := r.apply_frame src hdr pdu
    rw [hr]
    exact ⟨fun h => ⟨h, nofun⟩, And.left⟩
  | snooped aa' a b slot =>
    have hne : aa ≠ aa' := fun hc => hs a b slot (hc ▸ rfl)
    cases slot with
    | none => exact ⟨fun h => ⟨h, nofun⟩, And.left⟩
    | some c => simp [Router.apply, record, hne]
  | opened | named | hand | wrote | dropped | rxWrap | reply =>
    exact ⟨fun h => ⟨h, nofun⟩, And.left⟩

/-- Deliveries drop a link only with a peer of one of its nodes. -/
theorem link_deliveries {new old : List Act} (hlegal : medium.Legal (new ++ old))
    (hsock : ∀ a ∈ new, OfSocket a) {aa : UInt32} {e : Ends}
    (hclosed : ∀ p, Act.closed p ∈ new → e.has ((medium.replay old).nodeOf p) = false)
    (h : (medium.replay old).link aa = some e) : (medium.replay (new ++ old)).link aa = some e := by
  refine (hlegal.invariant_since (I := fun r => Shrinks (medium.replay old) r ∧ r.link aa = some e)
    (P := fun a => a ∈ new) ⟨Shrinks.refl _, h⟩ ?_ fun _ ha => ha).2
  rintro t a - ⟨hshr, hl⟩ - ha
  refine ⟨hshr.trans (Shrinks.apply _ (hsock a ha)), (link_apply_iff ?_).2 ⟨hl, ?_⟩⟩
  · rintro x y slot rfl
    exact hsock _ ha
  · rintro p rfl
    cases hn : (medium.replay t).nodeOf p with
    | none => rfl
    | some k => exact hshr.nodeOf p k hn ▸ hclosed p ha

/-! ### Bindings -/

/-- Bindings agree: the peer of a node is open and speaks for it, and an open peer that speaks for
a node is the peer of that node. -/
structure Bijective (r : Router) : Prop where
  nodeOf_peerOf : ∀ k p, r.peerOf k = some p → r.isOpen p = true ∧ r.nodeOf p = some k
  peerOf_nodeOf : ∀ p k, r.isOpen p = true → r.nodeOf p = some k →
    r.active k = true ∧ r.peerOf k = some p

/-- A hello of a peer that already speaks for another node. -/
def Rebinds (r : Router) : Act → Prop
  | .hello p _ _ false (some k) => ∃ k', r.nodeOf p = some k' ∧ k' ≠ k
  | _ => False

instance (r : Router) : (a : Act) → Decidable (r.Rebinds a)
  | .hello p _ _ false (some k) =>
    match h : r.nodeOf p with
    | none => isFalse (by simp [Rebinds, h])
    | some k' => decidable_of_iff (k' ≠ k) (by simp [Rebinds, h])
  | .hello _ _ _ true _ | .hello _ _ _ false none | .opened .. | .closed _ | .named .. | .frame ..
    | .snooped .. | .hand .. | .wrote .. | .dropped _ | .rxWrap _ | .reply _ => isFalse id

theorem Bijective.empty : Bijective Router.empty where
  nodeOf_peerOf _ _ h := by simp [Router.empty] at h
  peerOf_nodeOf _ _ h := by simp [Router.empty] at h

theorem Bijective.close {r : Router} (h : Bijective r) (p : ℕ) : Bijective (r.close p) where
  nodeOf_peerOf k q hq := by
    simp only [Router.close] at hq ⊢
    split_ifs at hq with hk
    obtain ⟨ho, hn⟩ := h.nodeOf_peerOf k q hq
    have hqp : q ≠ p := by
      rintro rfl
      exact hk ⟨hn, hq⟩
    simp [hqp, ho, hn]
  peerOf_nodeOf q k ho hq := by
    simp only [Router.close] at ho hq ⊢
    split_ifs at ho hq with hqp
    obtain ⟨ha, hp⟩ := h.peerOf_nodeOf q k ho hq
    refine ⟨ha, ?_⟩
    rw [if_neg, hp]
    rintro ⟨-, hk⟩
    exact hqp (Option.some.inj (hp.symm.trans hk))

/-- Binding an open peer that speaks for no other node keeps bindings in agreement. -/
theorem Bijective.bind {r : Router} (h : Bijective r) {p k : ℕ} (hp : r.isOpen p = true)
    (hk : r.active k = true) (hfree : ∀ k', r.nodeOf p = some k' → k' = k) :
    Bijective (r.bind p k) where
  nodeOf_peerOf i q hq := by
    simp only [Router.bind] at hq ⊢
    split_ifs at hq with hik
    · cases hq
      simp [hp, hik]
    · obtain ⟨ho, hn⟩ := h.nodeOf_peerOf i q hq
      have hqp : q ≠ p := by
        rintro rfl
        exact hik (hfree i hn)
      -- the peer that held `k` speaks for `k`, so it is not `q`
      have hqk : r.peerOf k ≠ some q := fun hc =>
        hik (Option.some.inj (hn.symm.trans (h.nodeOf_peerOf k q hc).2))
      simp [hqp, hqk, ho, hn]
  peerOf_nodeOf q i ho hi := by
    simp only [Router.bind] at hi ⊢
    split_ifs at hi with hqp hqk
    · cases hi
      simp [hk, hqp]
    · obtain ⟨ha, hp'⟩ := h.peerOf_nodeOf q i ho hi
      have hik : i ≠ k := by
        rintro rfl
        exact hqk hp'
      simp [hik, ha, hp']

/-- Every action but a rebinding hello keeps bindings in agreement. -/
theorem Bijective.apply {r : Router} (h : Bijective r) (hb : Blank r) {a : Act} (he : r.enabled a)
    (hreb : ¬ r.Rebinds a) : Bijective (r.apply a) := by
  cases a with
  | opened p br =>
    refine ⟨fun k q hq => ?_, fun q k ho hq => ?_⟩
    · obtain ⟨ho, hn⟩ := h.nodeOf_peerOf k q hq
      have hqp : q ≠ p := by
        rintro rfl
        rw [show r.isOpen q = false from he] at ho
        cases ho
      simp [Router.apply, Router.open, hqp, ho, hn]
    · simp only [Router.apply, Router.open] at ho hq
      split_ifs at hq with hqp
      rw [if_neg hqp] at ho
      exact h.peerOf_nodeOf q k ho hq
  | closed p => exact h.close p
  | named k nid =>
    refine ⟨fun i q hq => ?_, fun q i ho hq => ?_⟩
    · simp only [Router.apply, addNode] at hq
      split_ifs at hq
      exact h.nodeOf_peerOf i q hq
    · have hik : i ≠ k := by
        rintro rfl
        have := hb.active q i hq
        rw [show r.active i = false from he] at this
        cases this
      simpa [Router.apply, addNode, hik] using h.peerOf_nodeOf q i ho hq
  | hello p nid ph mon node =>
    obtain ⟨hp, hk⟩ := he
    cases mon with
    | true => exact ⟨h.nodeOf_peerOf, h.peerOf_nodeOf⟩
    | false =>
      cases node with
      | none => exact h
      | some k =>
        refine h.bind hp (hk k rfl) fun k' hk' => ?_
        by_contra hne
        exact hreb ⟨k', hk', hne⟩
  | frame src hdr pdu =>
    obtain ⟨addrs, hr⟩ := r.apply_frame src hdr pdu
    rw [hr]
    exact ⟨h.nodeOf_peerOf, h.peerOf_nodeOf⟩
  | snooped aa a b slot =>
    cases slot with
    | none => exact h
    | some c => exact ⟨h.nodeOf_peerOf, h.peerOf_nodeOf⟩
  | hand | wrote | dropped | rxWrap | reply => exact h

/-- A rebinding hello breaks the agreement: the old node still names the peer. -/
theorem Rebinds.not_bijective {r : Router} (h : Bijective r) (hb : Blank r) {a : Act}
    (hreb : r.Rebinds a) : ¬ Bijective (r.apply a) := by
  cases a with
  | hello p nid ph mon node =>
    cases mon <;> cases node <;> simp only [Rebinds] at hreb
    rename_i k
    obtain ⟨k', hk', hne⟩ := hreb
    have ho : r.isOpen p = true := by
      by_contra hc
      rw [hb.nodeOf p (by simpa using hc)] at hk'
      cases hk'
    intro hbij
    have hold : (r.bind p k).peerOf k' = some p := by
      simp [Router.bind, hne, (h.peerOf_nodeOf p k' ho hk').2]
    have hnew := (hbij.nodeOf_peerOf k' p hold).2
    simp only [Router.apply, Router.bind, if_true, Option.some.injEq] at hnew
    exact hne hnew.symm
  | _ => exact absurd hreb id

theorem not_rebinds_of_free {r : Router} {a : Act}
    (h : ∀ p nid ph mon node, a = .hello p nid ph mon node → r.nodeOf p = none) :
    ¬ r.Rebinds a := by
  cases a with
  | hello p nid ph mon node =>
    have hp := h p nid ph mon node rfl
    cases mon <;> cases node <;> simp [Rebinds, hp]
  | _ => exact id

/-! ### One hello for each peer -/

/-- The peer has said hello since its socket was opened. -/
def saidHello (p : ℕ) : List Act → Bool
  | [] => false
  | .opened q _ :: t => if q = p then false else saidHello p t
  | .hello q _ _ _ _ :: t => q == p || saidHello p t
  | _ :: t => saidHello p t

/-- A hello is the first of its peer, which is not a bridge. -/
def FirstHello (t : List Act) : Act → Prop
  | .hello p _ _ _ _ => saidHello p t = false ∧ (medium.replay t).bridge p = false
  | _ => True

instance (t : List Act) : (a : Act) → Decidable (FirstHello t a)
  | .hello _ _ _ _ _ => inferInstanceAs (Decidable (_ ∧ _))
  | .opened .. | .closed _ | .named .. | .frame .. | .snooped .. | .hand .. | .wrote .. | .dropped _
    | .rxWrap _ | .reply _ => isTrue trivial

/-- Every peer says hello at most once, and a bridge says none. -/
def OneHello : List Act → Prop := Throughout FirstHello

instance (log : List Act) : Decidable (OneHello log) := Throughout.decidable log

/-- The order that one hello for each peer keeps: bindings agree, and a peer that is silent, a
monitor or a bridge is bound to no node. -/
structure Disciplined (t : List Act) (r : Router) : Prop where
  bijective : Bijective r
  silent : ∀ p, saidHello p t = false → r.nodeOf p = none ∧ r.monitor p = false
  monitor : ∀ p, r.monitor p = true → r.nodeOf p = none
  bridge : ∀ p, r.bridge p = true → r.nodeOf p = none ∧ r.monitor p = false

/-- Actions that touch neither sockets nor hellos keep the order, if they keep bindings. -/
theorem Disciplined.keep {t t' : List Act} {r r' : Router} (h : Disciplined t r)
    (hb : Bijective r') (hs : ∀ p, saidHello p t' = saidHello p t) (hn : r'.nodeOf = r.nodeOf)
    (hm : r'.monitor = r.monitor) (hbr : r'.bridge = r.bridge) : Disciplined t' r' := by
  refine ⟨hb, fun p hp => ?_, fun p hp => ?_, fun p hp => ?_⟩
  · rw [hn, hm]
    exact h.silent p (hs p ▸ hp)
  · rw [hn]
    exact h.monitor p (hm ▸ hp)
  · rw [hn, hm]
    exact h.bridge p (hbr ▸ hp)

theorem Disciplined.opened {t : List Act} {r : Router} (h : Disciplined t r) (p : ℕ) (br : Bool)
    (hb : Bijective (r.open p br)) : Disciplined (.opened p br :: t) (r.open p br) := by
  refine ⟨hb, fun q hq => ?_, fun q hq => ?_, fun q hq => ?_⟩ <;>
    simp only [Router.open, saidHello] at hq ⊢ <;> by_cases hqp : q = p
  · simp [hqp]
  · rw [if_neg (Ne.symm hqp)] at hq
    simpa [hqp] using h.silent q hq
  · simp [hqp]
  · rw [if_neg hqp] at hq
    simpa [hqp] using h.monitor q hq
  · simp [hqp]
  · rw [if_neg hqp] at hq
    simpa [hqp] using h.bridge q hq

theorem Disciplined.closed {t : List Act} {r : Router} (h : Disciplined t r) (p : ℕ) :
    Disciplined (.closed p :: t) (r.close p) := by
  refine ⟨h.bijective.close p, fun q hq => ?_, fun q hq => ?_, fun q hq => ?_⟩ <;>
    simp only [Router.close, saidHello] at hq ⊢ <;> by_cases hqp : q = p
  · simp [hqp]
  · simpa [hqp] using h.silent q hq
  · simp [hqp]
  · rw [if_neg hqp] at hq
    simpa [hqp] using h.monitor q hq
  · simp [hqp]
  · rw [if_neg hqp] at hq
    simpa [hqp] using h.bridge q hq

theorem Disciplined.tapped {t : List Act} {r : Router} (h : Disciplined t r) {p : ℕ}
    (nid : NodeId) (ph : Bool) (node : Option ℕ) (hs : saidHello p t = false)
    (hbr : r.bridge p = false) : Disciplined (.hello p nid ph true node :: t) (r.tap p) := by
  refine ⟨⟨h.bijective.nodeOf_peerOf, h.bijective.peerOf_nodeOf⟩, fun q hq => ?_, fun q hq => ?_,
    fun q hq => ?_⟩
  · simp only [saidHello, Bool.or_eq_false_iff, beq_eq_false_iff_ne] at hq
    simpa [tap, Ne.symm hq.1] using h.silent q hq.2
  · simp only [tap] at hq ⊢
    split_ifs at hq with hqp
    · exact hqp ▸ (h.silent p hs).1
    · exact h.monitor q hq
  · have hqp : q ≠ p := by
      rintro rfl
      rw [show r.bridge q = true from hq] at hbr
      cases hbr
    simpa [tap, hqp] using h.bridge q hq

theorem Disciplined.bound {t : List Act} {r : Router} (h : Disciplined t r) {p k : ℕ}
    (nid : NodeId) (ph : Bool) (hb : Bijective (r.bind p k)) (hs : saidHello p t = false)
    (hbr : r.bridge p = false) :
    Disciplined (.hello p nid ph false (some k) :: t) (r.bind p k) := by
  -- a peer other than `p` that was bound to no node still is
  have free : ∀ q, q ≠ p → r.nodeOf q = none → (r.bind p k).nodeOf q = none := by
    intro q hqp hq
    simp only [Router.bind, if_neg hqp, hq, ite_self]
  have hmon : r.monitor p = false := (h.silent p hs).2
  refine ⟨hb, fun q hq => ?_, fun q hq => ?_, fun q hq => ?_⟩
  · simp only [saidHello, Bool.or_eq_false_iff, beq_eq_false_iff_ne] at hq
    exact ⟨free q (Ne.symm hq.1) (h.silent q hq.2).1, (h.silent q hq.2).2⟩
  · have hqp : q ≠ p := by
      rintro rfl
      rw [show r.monitor q = true from hq] at hmon
      cases hmon
    exact free q hqp (h.monitor q hq)
  · have hqp : q ≠ p := by
      rintro rfl
      rw [show r.bridge q = true from hq] at hbr
      cases hbr
    exact ⟨free q hqp (h.bridge q hq).1, (h.bridge q hq).2⟩

/-- **One hello for each peer keeps the medium in order.** -/
theorem disciplined_of_oneHello {log : List Act} (hlegal : medium.Legal log) (h : OneHello log) :
    Disciplined log (medium.replay log) := by
  refine hlegal.invariant_of (I := Disciplined) ?_ ?_ h
  · exact ⟨Bijective.empty, fun _ _ => ⟨rfl, rfl⟩, fun _ _ => rfl, fun _ _ => ⟨rfl, rfl⟩⟩
  intro t a ht _ hd he hone
  have hb : Bijective ((medium.replay t).apply a) :=
    hd.bijective.apply (blank_of_legal ht) he <| not_rebinds_of_free fun p nid ph mon node ha => by
      subst ha
      exact (hd.silent p hone.1).1
  cases a with
  | opened p br => exact hd.opened p br hb
  | closed p => exact hd.closed p
  | hello p nid ph mon node =>
    obtain ⟨hs, hbr⟩ := hone
    cases mon with
    | true => exact hd.tapped nid ph node hs hbr
    | false =>
      cases node with
      | some k => exact hd.bound nid ph hb hs hbr
      | none =>
        -- the node table is full: the peer stays unbound
        refine ⟨hb, fun q hq => hd.silent q ?_, hd.monitor, hd.bridge⟩
        simp only [saidHello, Bool.or_eq_false_iff] at hq
        exact hq.2
  | frame src hdr pdu =>
    obtain ⟨addrs, hr⟩ := (medium.replay t).apply_frame src hdr pdu
    rw [medium_apply]
    exact hd.keep hb (fun _ => rfl) (by rw [hr]) (by rw [hr]) (by rw [hr])
  | snooped aa a b slot =>
    cases slot <;> exact hd.keep hb (fun _ => rfl) rfl rfl rfl
  | named | hand | wrote | dropped | rxWrap | reply =>
    exact hd.keep hb (fun _ => rfl) rfl rfl rfl

end Router
end Vbt
