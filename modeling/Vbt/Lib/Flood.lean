import Vbt.Lib.Tree
import Mathlib.Data.List.Count

/-!
# Flooding a tree

A vertex that gets a message by one of its wires sends a copy on every other wire, as long as the
message may travel on. The wires keep the order of the messages.

* `Token`, `Flood`, `Step`: the protocol, for any number of messages at a time;
* `Covers`: where the copies of one message are, in a network that is a tree seen from the vertex
  where the message started;
* `Covers.step`, `Covers.settled`: it visits no vertex twice, and all of them when no copy is under
  way;
* `Trails`: a message that starts where another has been overtakes it nowhere.
-/

namespace Vbt

variable {ι : Type*}

/-- A copy of message `id` on the wire to port `port` of `dst`; it may cross `ttl` vertices. -/
@[ext] structure Token (ι : Type*) where
  id : ℕ
  dst : ι
  port : ℕ
  ttl : ℕ

/-- The copies under way and the visits of messages to vertices, both oldest first. -/
structure Flood (ι : Type*) where
  flight : List (Token ι)
  visits : List (ℕ × ι)

namespace Flood

theorem mem_append_iff_of_ne {visits : List (ℕ × ι)} {i j : ℕ} (hne : i ≠ j) (w v : ι) :
    (j, v) ∈ visits ++ [(i, w)] ↔ (j, v) ∈ visits := by
  simp [Ne.symm hne]

variable [DecidableEq ι] {far : ι → ℕ → Option (ι × ℕ)}

/-- The copies on the wire to port `r` of `u`. -/
def towards (u : ι) (r : ℕ) (l : List (Token ι)) : List (Token ι) :=
  l.filter fun x => decide (x.dst = u ∧ x.port = r)

/-- The copies of message `id` on their way to `v`. -/
def inbound (id : ℕ) (v : ι) (l : List (Token ι)) : List (Token ι) :=
  l.filter fun x => decide (x.id = id ∧ x.dst = v)

/-- `out` is one copy on each wire of `v` but the one at port `via`. -/
structure SendsOn (far : ι → ℕ → Option (ι × ℕ)) (v : ι) (via : Option ℕ) (id ttl : ℕ)
    (out : List (Token ι)) : Prop where
  copy : ∀ {q u r}, far v q = some (u, r) → via ≠ some q → towards u r out = [⟨id, u, r, ttl⟩]
  only : ∀ x ∈ out, x.id = id ∧ x.ttl = ttl ∧ ∃ q, far v q = some (x.dst, x.port) ∧ via ≠ some q

/-- What can happen if the messages in `T` are flooded: a new one starts at a vertex, with a budget
of `N`, the first copy on a wire arrives, or something else happens, which leaves them alone. -/
inductive Step (far : ι → ℕ → Option (ι × ℕ)) (N : ℕ) (T : ℕ → Bool) : Flood ι → Flood ι → Prop
  | start {st : Flood ι} {o : ι} {id : ℕ} {out : List (Token ι)} (hT : T id = true)
      (hflight : ∀ x ∈ st.flight, x.id ≠ id) (hvisits : ∀ v ∈ st.visits, v.1 ≠ id)
      (hout : SendsOn far o none id N out) :
      Step far N T st ⟨st.flight ++ out, st.visits ++ [(id, o)]⟩
  | arrive {l r : List (Token ι)} {x : Token ι} {out : List (Token ι)} {visits : List (ℕ × ι)}
      (hT : T x.id = true) (hfirst : ∀ y ∈ l, ¬ (y.dst = x.dst ∧ y.port = x.port))
      (hout : SendsOn far x.dst (some x.port) x.id (x.ttl - 1) out) :
      Step far N T ⟨l ++ x :: r, visits⟩ ⟨l ++ r ++ out, visits ++ [(x.id, x.dst)]⟩
  | other {st st' : Flood ι}
      (hflight : (st'.flight.filter fun x => T x.id) = st.flight.filter fun x => T x.id)
      (hvisits : (st'.visits.filter fun v => T v.1) = st.visits.filter fun v => T v.1) :
      Step far N T st st'

theorem inbound_append (id : ℕ) (v : ι) (l l' : List (Token ι)) :
    inbound id v (l ++ l') = inbound id v l ++ inbound id v l' := List.filter_append ..

theorem mem_inbound {id : ℕ} {v : ι} {l : List (Token ι)} {x : Token ι} :
    x ∈ inbound id v l ↔ x ∈ l ∧ x.id = id ∧ x.dst = v := by
  simp [inbound]

theorem inbound_eq_nil {id : ℕ} {v : ι} {l : List (Token ι)}
    (h : ∀ x ∈ l, x.id = id → x.dst = v → False) : inbound id v l = [] := by
  rw [List.eq_nil_iff_forall_not_mem]
  intro x hx
  obtain ⟨hl, hid, hdst⟩ := mem_inbound.1 hx
  exact h x hl hid hdst

/-- A copy of another message is not looked at. -/
theorem inbound_cons_of_ne {id : ℕ} {v : ι} {x : Token ι} (h : ¬ (x.id = id ∧ x.dst = v))
    (l : List (Token ι)) : inbound id v (x :: l) = inbound id v l :=
  List.filter_cons_of_neg (by simpa using h)

/-- Only the messages in `T` count for one of them. -/
theorem inbound_filter {T : ℕ → Bool} {id : ℕ} (hT : T id = true) (v : ι) (l : List (Token ι)) :
    inbound id v (l.filter fun x => T x.id) = inbound id v l := by
  rw [inbound, inbound, List.filter_filter]
  refine List.filter_congr fun x _ => ?_
  by_cases hid : x.id = id
  · simp [hid, hT]
  · simp [hid]

theorem count_filter_visits {T : ℕ → Bool} {id : ℕ} (hT : T id = true) (v : ι) (l : List (ℕ × ι)) :
    (l.filter fun v => T v.1).count (id, v) = l.count (id, v) :=
  List.count_filter (p := fun v => T v.1) (a := (id, v)) hT

theorem count_append_of_ne {visits : List (ℕ × ι)} {id i : ℕ} (hne : i ≠ id) (w v : ι) :
    (visits ++ [(i, w)]).count (id, v) = visits.count (id, v) := by
  have hzero : [(i, w)].count (id, v) = 0 :=
    List.count_eq_zero.2 fun hc => hne (congrArg Prod.fst (List.mem_singleton.1 hc)).symm
  rw [List.count_append, hzero, Nat.add_zero]

/-! ### One message -/

variable {o : ι} {N id : ℕ}

/-- Message `id` started at the root `o`. A vertex that it visited was visited once, no copy is on
its way there, and its parent was visited; to any other vertex one copy is on its way if its parent
was visited, and none if not. -/
structure Covers (R : Rooted far o) (N id : ℕ) (st : Flood ι) : Prop where
  root : (id, o) ∈ st.visits
  once : ∀ v, st.visits.count (id, v) ≤ 1
  back : ∀ {v u q}, (id, v) ∈ st.visits → v ≠ o → far v (R.up v) = some (u, q) → (id, u) ∈ st.visits
  seen : ∀ {v}, (id, v) ∈ st.visits → inbound id v st.flight = []
  due : ∀ {v u q}, v ≠ o → far v (R.up v) = some (u, q) → (id, v) ∉ st.visits →
    inbound id v st.flight =
      if (id, u) ∈ st.visits then [⟨id, v, R.up v, N + 1 - R.depth v⟩] else []

namespace Covers

variable {R : Rooted far o} {st st' : Flood ι}

/-- Only the copies and the visits of the message count. -/
theorem congr (h : Covers R N id st)
    (hf : ∀ v, inbound id v st'.flight = inbound id v st.flight)
    (hv : ∀ v, st'.visits.count (id, v) = st.visits.count (id, v)) : Covers R N id st' := by
  have hmem : ∀ v, (id, v) ∈ st'.visits ↔ (id, v) ∈ st.visits := fun v => by
    rw [← List.count_pos_iff, hv v, List.count_pos_iff]
  constructor
  · exact (hmem o).2 h.root
  · intro v
    rw [hv v]
    exact h.once v
  · intro v u q hvis hne hfar
    exact (hmem u).2 (h.back ((hmem v).1 hvis) hne hfar)
  · intro v hvis
    rw [hf v]
    exact h.seen ((hmem v).1 hvis)
  · intro v u q hne hfar hvis
    rw [hf v, h.due hne hfar fun hc => hvis ((hmem v).2 hc)]
    simp only [hmem u]

/-- A copy under way goes to a vertex that was not visited, from its parent, which was. -/
theorem of_mem (h : Covers R N id st) {x : Token ι} (hx : x ∈ st.flight) (hid : x.id = id) :
    (id, x.dst) ∉ st.visits ∧ x.dst ≠ o ∧ x.port = R.up x.dst ∧ x.ttl = N + 1 - R.depth x.dst ∧
      inbound id x.dst st.flight = [x] ∧
      ∃ u q, far x.dst (R.up x.dst) = some (u, q) ∧ R.depth x.dst = R.depth u + 1 ∧
        (id, u) ∈ st.visits := by
  have hin : x ∈ inbound id x.dst st.flight := mem_inbound.2 ⟨hx, hid, rfl⟩
  have hvis : (id, x.dst) ∉ st.visits := fun hc => by
    rw [h.seen hc] at hin
    cases hin
  have hne : x.dst ≠ o := fun hc => hvis (hc ▸ h.root)
  obtain ⟨u, q, hfar, hd⟩ := R.parent x.dst hne
  have hdue := h.due hne hfar hvis
  split_ifs at hdue with hu
  · rw [hdue, List.mem_singleton] at hin
    have hport : x.port = R.up x.dst := congrArg Token.port hin
    have httl : x.ttl = N + 1 - R.depth x.dst := congrArg Token.ttl hin
    exact ⟨hvis, hne, hport, httl, by rw [hdue, ← hin], u, q, hfar, hd, hu⟩
  · rw [hdue] at hin
    cases hin

end Covers

/-! ### What a vertex sends on -/

section SendsOn

variable {R : Rooted far o} {v w u : ι} {via : Option ℕ} {ttl q : ℕ} {out : List (Token ι)}

/-- The message starts at the root, or it comes from the parent. -/
def Enters (R : Rooted far o) (v : ι) (via : Option ℕ) : Prop :=
  (v = o ∧ via = none) ∨ (v ≠ o ∧ via = some (R.up v))

/-- The copies go to the children. -/
theorem SendsOn.child (hout : SendsOn far v via id ttl out) (hv : Enters R v via) {y : Token ι}
    (hy : y ∈ out) :
    y.dst ≠ o ∧ y.port = R.up y.dst ∧ ∃ q, far y.dst (R.up y.dst) = some (v, q) := by
  obtain ⟨-, -, q, hfar, hq⟩ := hout.only y hy
  rcases R.wire hfar with ⟨hne, rfl, -⟩ | ⟨hne, hup, -⟩
  · rcases hv with ⟨rfl, -⟩ | ⟨-, rfl⟩
    · exact absurd rfl hne
    · exact absurd rfl hq
  · exact ⟨hne, hup, q, hup ▸ R.symm hfar⟩

/-- Each child gets one. -/
theorem SendsOn.inbound_eq (hout : SendsOn far v via id ttl out) (hv : Enters R v via) (hw : w ≠ o)
    (hfar : far w (R.up w) = some (u, q)) :
    inbound id w out = if u = v then [⟨id, w, R.up w, ttl⟩] else [] := by
  split_ifs with huv
  · subst huv
    have hback : far u q = some (w, R.up w) := R.symm hfar
    have hvia : via ≠ some q := by
      rintro rfl
      rcases hv with ⟨-, hc⟩ | ⟨hne, hc⟩
      · cases hc
      · cases hc
        have := R.depth_eq hw hfar
        have := R.depth_eq hne hback
        omega
    rw [← hout.copy hback hvia]
    refine List.filter_congr fun y hy => decide_eq_decide.2 ?_
    obtain ⟨-, hport, -⟩ := hout.child hv hy
    constructor
    · rintro ⟨-, rfl⟩
      exact ⟨rfl, hport⟩
    · rintro ⟨rfl, -⟩
      exact ⟨(hout.only y hy).1, rfl⟩
  · refine inbound_eq_nil fun y hy _ hdst => huv ?_
    obtain ⟨-, -, q', hfar'⟩ := hout.child hv hy
    rw [hdst, hfar] at hfar'
    cases hfar'
    rfl

/-- Neither the root nor the vertex itself gets one. -/
theorem SendsOn.inbound_self (hout : SendsOn far v via id ttl out) (hv : Enters R v via) :
    inbound id o out = [] ∧ inbound id v out = [] := by
  constructor
  · exact inbound_eq_nil fun y hy _ hdst => (hout.child hv hy).1 hdst
  · refine inbound_eq_nil fun y hy _ hdst => ?_
    obtain ⟨hne, -, q, hfar⟩ := hout.child hv hy
    have := R.depth_eq hne hfar
    rw [hdst] at this
    omega

theorem SendsOn.inbound_of_ne {i : ℕ} (hout : SendsOn far v via i ttl out) (hne : i ≠ id) (w : ι) :
    inbound id w out = [] :=
  inbound_eq_nil fun y hy hid _ => hne ((hout.only y hy).1.symm.trans hid)

end SendsOn

namespace Covers

variable {R : Rooted far o} {st st' : Flood ι}

/-- A message that starts at the root. -/
theorem start {out : List (Token ι)} (hflight : ∀ x ∈ st.flight, x.id ≠ id)
    (hvisits : ∀ v ∈ st.visits, v.1 ≠ id) (hout : SendsOn far o none id N out) :
    Covers R N id ⟨st.flight ++ out, st.visits ++ [(id, o)]⟩ := by
  have henter : Enters R o none := Or.inl ⟨rfl, rfl⟩
  have hmem : ∀ v, (id, v) ∈ st.visits ++ [(id, o)] ↔ v = o := fun v => by
    constructor
    · intro hv
      rcases List.mem_append.1 hv with hv | hv
      · exact absurd rfl (hvisits _ hv)
      · exact congrArg Prod.snd (List.mem_singleton.1 hv)
    · rintro rfl
      simp
  have hnone : ∀ v, inbound id v (st.flight ++ out) = inbound id v out := fun v => by
    rw [inbound_append, inbound_eq_nil fun x hx hid _ => hflight x hx hid, List.nil_append]
  constructor
  · exact (hmem o).2 rfl
  · intro v
    have hzero : st.visits.count (id, v) = 0 :=
      List.count_eq_zero.2 fun hc => hvisits _ hc rfl
    rw [List.count_append, hzero, Nat.zero_add]
    exact List.count_le_length
  · intro v u q hv hne
    exact absurd ((hmem v).1 hv) hne
  · intro v hv
    rw [(hmem v).1 hv, hnone]
    exact (hout.inbound_self henter).1
  · intro v u q hne hfar _
    rw [hnone, hout.inbound_eq henter hne hfar]
    simp only [hmem]
    split_ifs with hu
    · have := R.depth_eq hne hfar
      rw [hu, R.depth_root] at this
      rw [this]
      rfl
    · rfl

/-- The arrival of a copy of the message. -/
theorem arrive {l r : List (Token ι)} {x : Token ι} {out : List (Token ι)} {visits : List (ℕ × ι)}
    (h : Covers R N id ⟨l ++ x :: r, visits⟩) (hid : x.id = id)
    (hout : SendsOn far x.dst (some x.port) x.id (x.ttl - 1) out) :
    Covers R N id ⟨l ++ r ++ out, visits ++ [(x.id, x.dst)]⟩ := by
  have hx : x ∈ l ++ x :: r := List.mem_append_right _ List.mem_cons_self
  obtain ⟨hvis, hne, hport, httl, hin, u₀, q₀, hfar₀, hd₀, hu₀⟩ := h.of_mem hx hid
  rw [hid, hport] at hout
  rw [hid]
  have henter : Enters R x.dst (some (R.up x.dst)) := Or.inr ⟨hne, rfl⟩
  have hmem : ∀ v, (id, v) ∈ visits ++ [(id, x.dst)] ↔ (id, v) ∈ visits ∨ v = x.dst := fun v => by
    simp
  -- the other copies under way are those from before
  have hrest : ∀ v, v ≠ x.dst → inbound id v (l ++ r) = inbound id v (l ++ x :: r) := fun v hv => by
    rw [inbound_append, inbound_append, inbound_cons_of_ne fun hc => hv hc.2.symm]
  have hself : inbound id x.dst (l ++ r) = [] := by
    have hcons : inbound id x.dst (x :: r) = x :: inbound id x.dst r :=
      List.filter_cons_of_pos (by simp [hid])
    rw [inbound_append, hcons, List.append_eq_singleton_iff] at hin
    rw [inbound_append]
    rcases hin with ⟨hl, hr⟩ | ⟨-, hr⟩
    · rw [hl, (List.cons.inj hr).2, List.nil_append]
    · cases hr
  -- a child was not visited, its parent being visited only now
  have hchild : ∀ {v q}, v ≠ o → far v (R.up v) = some (x.dst, q) → (id, v) ∉ visits :=
    fun hvo hfar hc => hvis (h.back hc hvo hfar)
  constructor
  · exact (hmem o).2 (Or.inl h.root)
  · intro v
    rw [List.count_append]
    by_cases hvx : v = x.dst
    · rw [hvx, List.count_eq_zero.2 hvis, Nat.zero_add]
      exact List.count_le_length
    · have hzero : [(id, x.dst)].count (id, v) = 0 :=
        List.count_eq_zero.2 fun hc => hvx (congrArg Prod.snd (List.mem_singleton.1 hc))
      rw [hzero]
      exact h.once v
  · intro v u q hv hvo hfar
    rcases (hmem v).1 hv with hv | rfl
    · exact (hmem u).2 (Or.inl (h.back hv hvo hfar))
    · rw [hfar₀] at hfar
      cases hfar
      exact (hmem u₀).2 (Or.inl hu₀)
  · intro v hv
    show inbound id v (l ++ r ++ out) = []
    rw [inbound_append]
    by_cases hvx : v = x.dst
    · rw [hvx, hself, (hout.inbound_self henter).2, List.nil_append]
    · have hv' : (id, v) ∈ visits := ((hmem v).1 hv).resolve_right hvx
      rw [hrest v hvx, h.seen hv', List.nil_append]
      refine inbound_eq_nil fun y hy _ hdst => ?_
      obtain ⟨hyo, -, q, hfar⟩ := hout.child henter hy
      exact hchild hyo hfar (hdst ▸ hv')
  · intro v u q hvo hfar hv
    show inbound id v (l ++ r ++ out) = _
    obtain ⟨hv', hvx⟩ := not_or.1 (mt (hmem v).2 hv)
    rw [inbound_append, hrest v hvx, h.due hvo hfar hv', hout.inbound_eq henter hvo hfar]
    by_cases hu : u = x.dst
    · have hd := R.depth_eq hvo hfar
      rw [if_neg (hu ▸ hvis), if_pos hu, if_pos ((hmem u).2 (Or.inr hu)), List.nil_append, httl, hd,
        hu]
      congr 2
    · simp only [hmem, hu, or_false, if_false, List.append_nil]

/-- **One step of the protocol.** -/
theorem step (h : Covers R N id st) {T : ℕ → Bool} (hT : T id = true)
    (hstep : Step far N T st st') :
    Covers R N id st' := by
  cases hstep with
  | start hTi hflight hvisits hout =>
    rename_i o' i out
    have hne : i ≠ id := fun hc => hvisits _ h.root hc.symm
    refine h.congr (fun v => ?_) fun v => count_append_of_ne hne o' v
    rw [inbound_append, hout.inbound_of_ne hne, List.append_nil]
  | arrive hTx hfirst hout =>
    rename_i l r x out visits
    by_cases hid : x.id = id
    · exact h.arrive hid hout
    · refine h.congr (fun v => ?_) fun v => count_append_of_ne hid x.dst v
      simp only [inbound_append]
      rw [hout.inbound_of_ne hid, inbound_cons_of_ne fun hc => hid hc.1, List.append_nil]
  | other hflight hvisits =>
    refine h.congr (fun v => ?_) fun v => ?_
    · rw [← inbound_filter hT, hflight, inbound_filter hT]
    · rw [← count_filter_visits hT, hvisits, count_filter_visits hT]

/-- **When no copy is under way every vertex was visited.** -/
theorem settled (h : Covers R N id st) (hnone : ∀ x ∈ st.flight, x.id ≠ id) (v : ι) :
    (id, v) ∈ st.visits := by
  -- by induction on the depth, from the parent
  induction hd : R.depth v generalizing v with
  | zero =>
    by_contra hv
    have hne : v ≠ o := fun hc => hv (hc ▸ h.root)
    obtain ⟨u, q, -, hdu⟩ := R.parent v hne
    omega
  | succ n ih =>
    by_contra hv
    have hne : v ≠ o := fun hc => hv (hc ▸ h.root)
    obtain ⟨u, q, hfar, hdu⟩ := R.parent v hne
    have hdue := h.due hne hfar hv
    rw [if_pos (ih u (by omega)), inbound_eq_nil fun x hx hid _ => hnone x hx hid] at hdue
    cases hdue

end Covers

/-! ### No overtaking -/

/-- The copies of messages `c` and `d` on their way to `v`. -/
def lane (c d : ℕ) (v : ι) (l : List (Token ι)) : List (Token ι) :=
  l.filter fun x => decide ((x.id = c ∨ x.id = d) ∧ x.dst = v)

/-- Message `d` visits no vertex before message `c` does, and where `c` has not been the next of the
two to arrive is `c`. -/
structure Trails (c d : ℕ) (st : Flood ι) : Prop where
  seen : ∀ {v}, (d, v) ∈ st.visits → (c, v) ∈ st.visits
  next : ∀ {v}, (c, v) ∉ st.visits → ∀ x ∈ (lane c d v st.flight).head?, x.id = c

section Lane

variable {c d : ℕ} {v : ι} {l : List (Token ι)} {x : Token ι}

theorem lane_append (c d : ℕ) (v : ι) (l l' : List (Token ι)) :
    lane c d v (l ++ l') = lane c d v l ++ lane c d v l' := List.filter_append ..

theorem mem_lane : x ∈ lane c d v l ↔ x ∈ l ∧ (x.id = c ∨ x.id = d) ∧ x.dst = v := by
  simp [lane]

theorem lane_cons_of_ne (h : ¬ ((x.id = c ∨ x.id = d) ∧ x.dst = v)) (l : List (Token ι)) :
    lane c d v (x :: l) = lane c d v l := List.filter_cons_of_neg (by simpa using h)

theorem lane_eq_nil (h : ∀ x ∈ l, (x.id = c ∨ x.id = d) → x.dst = v → False) :
    lane c d v l = [] := by
  rw [List.eq_nil_iff_forall_not_mem]
  intro x hx
  obtain ⟨hl, hid, hdst⟩ := mem_lane.1 hx
  exact h x hl hid hdst

theorem lane_filter {T : ℕ → Bool} (hc : T c = true) (hd : T d = true) (v : ι)
    (l : List (Token ι)) :
    lane c d v (l.filter fun x => T x.id) = lane c d v l := by
  rw [lane, lane, List.filter_filter]
  refine List.filter_congr fun x _ => ?_
  by_cases hid : x.id = c ∨ x.id = d
  · rcases hid with hid | hid <;> simp [hid, hc, hd]
  · simp [hid]

end Lane

namespace Trails

variable {o' : ι} {R : Rooted far o} {R' : Rooted far o'} {st st' : Flood ι} {c d : ℕ}

/-- More copies behind those that are there change the next one to arrive only if there was none. -/
theorem next_append {v : ι} {l out : List (Token ι)}
    (hl : ∀ x ∈ (lane c d v l).head?, x.id = c)
    (hout : lane c d v l = [] → ∀ x ∈ (lane c d v out).head?, x.id = c) :
    ∀ x ∈ (lane c d v (l ++ out)).head?, x.id = c := by
  rw [lane_append, List.head?_append]
  cases hh : (lane c d v l).head? with
  | none =>
    rw [Option.none_or]
    exact hout (List.head?_eq_none_iff.1 hh)
  | some y =>
    rw [hh] at hl
    exact hl

/-- Copies of `d` that a vertex sends on where `c` has been: at each neighbour `c` has been too, or
a copy of it is under way already. -/
theorem lane_sendsOn (hc : Covers R N c st) {w : ι} {via : Option ℕ} {ttl : ℕ}
    {out : List (Token ι)}
    (hout : SendsOn far w via d ttl out) (hcw : (c, w) ∈ st.visits) {v : ι}
    (hcv : (c, v) ∉ st.visits) (hnil : lane c d v st.flight = []) : lane c d v out = [] := by
  refine lane_eq_nil fun y hy _ hdst => ?_
  obtain ⟨-, -, q, hfar, -⟩ := hout.only y hy
  rw [hdst] at hfar
  rcases R.wire hfar with ⟨hwo, rfl, -⟩ | ⟨hvo, hup, -⟩
  · exact hcv (hc.back hcw hwo hfar)
  · have hback : far v (R.up v) = some (w, q) := hup ▸ R.symm hfar
    have hdue := hc.due hvo hback hcv
    rw [if_pos hcw] at hdue
    have hin : (⟨c, v, R.up v, N + 1 - R.depth v⟩ : Token ι) ∈ inbound c v st.flight := by
      rw [hdue]
      exact List.mem_singleton_self _
    obtain ⟨hmem, -, -⟩ := mem_inbound.1 hin
    have hlane : (⟨c, v, R.up v, N + 1 - R.depth v⟩ : Token ι) ∈ lane c d v st.flight :=
      mem_lane.2 ⟨hmem, Or.inl rfl, rfl⟩
    rw [hnil] at hlane
    cases hlane

/-- The second message starts where the first has been. -/
theorem start (hc : Covers R N c st) {w : ι} (hcw : (c, w) ∈ st.visits) {out : List (Token ι)}
    (hflight : ∀ x ∈ st.flight, x.id ≠ d) (hvisits : ∀ v ∈ st.visits, v.1 ≠ d)
    (hout : SendsOn far w none d N out) :
    Trails c d ⟨st.flight ++ out, st.visits ++ [(d, w)]⟩ where
  seen {v} hv := by
    rcases List.mem_append.1 hv with hv | hv
    · exact absurd rfl (hvisits _ hv)
    · cases List.mem_singleton.1 hv
      exact List.mem_append_left _ hcw
  next {v} hv := by
    have hcv : (c, v) ∉ st.visits := fun hmem => hv (List.mem_append_left _ hmem)
    refine next_append (fun x hx => ?_) fun hnil => ?_
    · obtain ⟨hmem, hid, -⟩ := mem_lane.1 (List.mem_of_mem_head? hx)
      exact hid.resolve_right (hflight x hmem)
    · rw [lane_sendsOn hc hout hcw hcv hnil]
      exact fun x hx => absurd hx (by simp)

/-- The arrival of a copy of the first message. -/
theorem arrive_first {l r out : List (Token ι)} {x : Token ι} {visits : List (ℕ × ι)}
    (h : Trails c d ⟨l ++ x :: r, visits⟩) (hcd : c ≠ d) (hid : x.id = c)
    (hout : ∀ y ∈ out, y.id = x.id) :
    Trails c d ⟨l ++ r ++ out, visits ++ [(x.id, x.dst)]⟩ where
  seen {v} hv := by
    rcases List.mem_append.1 hv with hv | hv
    · exact List.mem_append_left _ (h.seen hv)
    · exact absurd ((congrArg Prod.fst (List.mem_singleton.1 hv)).trans hid).symm hcd
  next {v} hv := by
    obtain ⟨hcv, hlast⟩ := not_or.1 (mt List.mem_append.2 hv)
    have hvx : v ≠ x.dst := by
      rintro rfl
      exact hlast (by simp [hid])
    refine next_append ?_ fun _ y hy => ?_
    · have hnext := h.next hcv
      rwa [lane_append, lane_cons_of_ne fun hc => hvx hc.2.symm, ← lane_append] at hnext
    · exact (hout y (mem_lane.1 (List.mem_of_mem_head? hy)).1).trans hid

/-- The arrival of a copy of the second message: the first has been here, or it would be ahead on
the same wire. -/
theorem arrive_second {l r out : List (Token ι)} {x : Token ι} {visits : List (ℕ × ι)}
    (h : Trails c d ⟨l ++ x :: r, visits⟩) (hc : Covers R N c ⟨l ++ x :: r, visits⟩)
    (hd : Covers R' N d ⟨l ++ x :: r, visits⟩) (hcd : c ≠ d) (hid : x.id = d)
    (hfirst : ∀ y ∈ l, ¬ (y.dst = x.dst ∧ y.port = x.port))
    (hout : SendsOn far x.dst (some x.port) x.id (x.ttl - 1) out) :
    Trails c d ⟨l ++ r ++ out, visits ++ [(x.id, x.dst)]⟩ := by
  have hx : x ∈ l ++ x :: r := List.mem_append_right _ List.mem_cons_self
  have hcx : (c, x.dst) ∈ visits := by
    by_contra hcx
    -- the neighbour that sent the copy is on the side of the root of the first message
    have hport : x.port = R.up x.dst := by
      obtain ⟨-, -, hport, -, -, u, q, hfar, -, hu⟩ := hd.of_mem hx hid
      rw [← hport] at hfar
      rcases R.wire hfar with ⟨-, hup, -⟩ | ⟨huo, rfl, -⟩
      · exact hup
      · exact absurd (hc.back (h.seen hu) huo (R.symm hfar)) hcx
    have hlane : lane c d x.dst (l ++ x :: r) = lane c d x.dst l ++ x :: lane c d x.dst r := by
      rw [lane_append, lane, lane, lane, List.filter_cons_of_pos (by simp [hid])]
    have hnext := h.next hcx
    rw [show lane c d x.dst (Flood.mk (l ++ x :: r) visits).flight = _ from hlane] at hnext
    cases hl : lane c d x.dst l with
    | nil =>
      rw [hl] at hnext
      exact hcd ((hnext x rfl).symm.trans hid)
    | cons y rest =>
      rw [hl] at hnext
      have hy : y ∈ lane c d x.dst l := hl ▸ List.mem_cons_self
      obtain ⟨hyl, -, hdst⟩ := mem_lane.1 hy
      obtain ⟨-, -, hyport, -⟩ := hc.of_mem (List.mem_append_left _ hyl) (hnext y rfl)
      exact hfirst y hyl ⟨hdst, by rw [hyport, hdst, hport]⟩
  rw [hid] at hout ⊢
  refine ⟨fun {v} hv => ?_, fun {v} hv => ?_⟩
  · rcases List.mem_append.1 hv with hv | hv
    · exact List.mem_append_left _ (h.seen hv)
    · cases List.mem_singleton.1 hv
      exact List.mem_append_left _ hcx
  · have hcv : (c, v) ∉ visits := fun hmem => hv (List.mem_append_left _ hmem)
    have hvx : v ≠ x.dst := fun hc => hcv (hc ▸ hcx)
    have hrest : lane c d v (l ++ r) = lane c d v (l ++ x :: r) := by
      rw [lane_append, lane_append, lane_cons_of_ne fun hc => hvx hc.2.symm]
    refine next_append ?_ fun hnil => ?_
    · rw [hrest]
      exact h.next hcv
    · rw [lane_sendsOn hc hout hcx hcv (hrest ▸ hnil)]
      exact fun x hx => absurd hx (by simp)

/-- A step of a message other than the two. -/
theorem other {l l' : List (Token ι)} {visits visits' : List (ℕ × ι)} (h : Trails c d ⟨l, visits⟩)
    (hl : ∀ v, lane c d v l' = lane c d v l)
    (hv : ∀ v, ((c, v) ∈ visits' ↔ (c, v) ∈ visits) ∧ ((d, v) ∈ visits' ↔ (d, v) ∈ visits)) :
    Trails c d ⟨l', visits'⟩ where
  seen {v} hd := (hv v).1.2 (h.seen ((hv v).2.1 hd))
  next {v} hc := by
    show ∀ x ∈ (lane c d v l').head?, x.id = c
    rw [hl v]
    exact h.next fun hmem => hc ((hv v).1.2 hmem)

/-- **No overtaking.** -/
theorem step (h : Trails c d st) (hc : Covers R N c st) (hd : Covers R' N d st) (hcd : c ≠ d)
    {T : ℕ → Bool} (hTc : T c = true) (hTd : T d = true) (hstep : Step far N T st st') :
    Trails c d st' := by
  -- the copies of a message other than the two are in no lane
  have hnil : ∀ {w via i ttl out}, SendsOn far w via i ttl out → i ≠ c → i ≠ d →
      ∀ v, lane c d v out = [] := fun hout hic hidd v =>
    lane_eq_nil fun y hy hid _ => by
      rw [(hout.only y hy).1] at hid
      exact hid.elim hic hidd
  cases hstep with
  | start hTi hflight hvisits hout =>
    rename_i o' i out
    have hic : i ≠ c := fun he => hvisits _ hc.root he.symm
    have hidd : i ≠ d := fun he => hvisits _ hd.root he.symm
    refine h.other (fun v => ?_) fun v =>
      ⟨mem_append_iff_of_ne hic o' v, mem_append_iff_of_ne hidd o' v⟩
    rw [lane_append, hnil hout hic hidd, List.append_nil]
  | arrive hTx hfirst hout =>
    rename_i l r x out visits
    by_cases hxc : x.id = c
    · exact h.arrive_first hcd hxc fun y hy => (hout.only y hy).1
    by_cases hxd : x.id = d
    · exact h.arrive_second hc hd hcd hxd hfirst hout
    refine h.other (fun v => ?_) fun v =>
      ⟨mem_append_iff_of_ne hxc x.dst v, mem_append_iff_of_ne hxd x.dst v⟩
    rw [lane_append, hnil hout hxc hxd, List.append_nil, lane_append, lane_append,
      lane_cons_of_ne fun hm => hm.1.elim hxc hxd]
  | other hflight hvisits =>
    have hmem : ∀ {j v}, T j = true → ((j, v) ∈ st'.visits ↔ (j, v) ∈ st.visits) := by
      intro j v hj
      have hiff : ∀ l : List (ℕ × ι), (j, v) ∈ (l.filter fun v => T v.1) ↔ (j, v) ∈ l := by
        simp [List.mem_filter, hj]
      rw [← hiff, hvisits, hiff]
    refine h.other (fun v => ?_) fun v => ⟨hmem hTc, hmem hTd⟩
    rw [← lane_filter hTc hTd, hflight, lane_filter hTc hTd]

end Trails

end Flood
end Vbt
