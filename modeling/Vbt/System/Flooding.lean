import Vbt.Hub.Bridges
import Vbt.Hub.Undisturbed
import Vbt.Lib.Flood
import Vbt.System.Mesh
import Mathlib.Combinatorics.SimpleGraph.Star

/-!
# A network of hubs floods its frames

On reliable bridges the hubs are the vertices of the flooding protocol: a hub that gets an
advertising or a data frame passes one copy on over each other bridge.

* `Orderly`: the bridges are reliable and keep the order, no position or override is set, and each
  peer says hello at most once; `Network`: the state of a network in which all moves were of this
  kind;
* `flood`: the network as the protocol sees it;
* `emitted_sendsOn`: what a hub passes on; `flood_send`, `flood_step`: so moves are steps of the
  protocol;
* `Afloat`: a frame of a local peer under way; `Afloat.send`, `Afloat.step`;
* `adv_exactly_once`: an advertising frame reaches every node of the network, and none twice.
-/

namespace Vbt

open Hub Router

/-- The frame with another TTL. -/
def Frame.withTtl (f : Frame) (t : UInt8) : Frame :=
  { f with hdr := { f.hdr with flags := { f.hdr.flags with b3 := t } } }

theorem Frame.withTtl_self (f : Frame) : f.withTtl f.hdr.flags.b3 = f := rfl

/-- A valid frame of one of the two kinds that hubs pass on. -/
structure Frame.Floods (f : Frame) : Prop where
  valid : f.Valid
  type : f.hdr.llType = VBT_LL_ADV ∨ f.hdr.llType = VBT_LL_DATA

namespace Frame.Floods

variable {f : Frame}

theorem frameOf_withTtl (h : f.Floods) (t : UInt8) :
    frameOf (f.withTtl t).payload = some (f.withTtl t) :=
  frameOf_payload h.valid.magic h.valid.length h.valid.short

theorem ttlOf_withTtl (h : f.Floods) (t : UInt8) : ttlOf (f.withTtl t).payload = t.toNat := by
  rw [ttlOf, h.frameOf_withTtl t]
  rfl

end Frame.Floods

/-- The TTL with which a hub passes a frame on. -/
def nextTtl (bridge : Bool) (t : UInt8) : UInt8 := if bridge then t - 1 else 8

/-! ### Hubs in order -/

namespace Hub

/-- The hub keeps its books, each peer said hello at most once and a bridge never, and no position
or override is set. -/
structure Sound (s : Hub) : Prop where
  tracked : Tracked s
  hello : OneHello s.log
  plain : Plain s

theorem Sound.disciplined {s : Hub} (h : s.Sound) : Disciplined s.log s.router :=
  h.tracked.disciplined h.hello

theorem Sound.init (n : ℕ) : (Hub.init n).Sound :=
  ⟨Tracked.init n, trivial, fun _ => rfl, fun _ => rfl⟩

theorem Sound.run {s : Hub} (h : s.Sound) {es : List Event} (hes : ∀ e ∈ es, e.isControl = false)
    (hone : OneHello (s.run es).log) : (s.run es).Sound :=
  ⟨(run_continues h.tracked es).tracked, hone, h.plain.run h.tracked hes⟩

/-- From `s` to `s'` no bridge closes or drops a message, no peer says hello twice and no position
or override is set. -/
structure Reliable (s s' : Hub) : Prop where
  closed : ∀ {q}, Act.closed q ∈ did s s' → (s.peers q).isBridge = false
  dropped : ∀ {q}, Act.dropped q ∈ did s s' → (s.peers q).isBridge = false
  hello : OneHello s'.log
  plain : Plain s'

/-- The peer whose socket closes or drops a message. -/
def lost : Act → Option ℕ
  | .closed q | .dropped q => some q
  | _ => none

/-- Frame `f`, with TTL `t`, may be passed on when peer `p` sends it. -/
structure Relaying (s : Hub) (p : ℕ) (f : Frame) (t : UInt8) : Prop where
  floods : f.Floods
  isOpen : (s.peers p).isOpen = true
  alive : (s.peers p).isBridge = true → t ≠ 0

theorem Relaying.handsTo_bridge {s : Hub} {p q : ℕ} {f : Frame} {t : UInt8} (h : Relaying s p f t)
    (hs : s.Sound) (kern : Kern) (hq : s.OpenBridge q) :
    handsTo q (did s (s.receive kern p (f.withTtl t).payload)) =
      if q = p then [] else [f.withTtl (nextTtl (s.peers p).isBridge t)] :=
  Hub.handsTo_bridge hs.tracked hs.disciplined h.isOpen (h.floods.frameOf_withTtl t) h.floods.type
    h.alive kern hq

theorem Reliable.sound {s s' : Hub} (h : Reliable s s') (hc : Continues s s') : s'.Sound :=
  ⟨hc.tracked, h.hello, h.plain⟩

end Hub

namespace Mesh

variable {ι : Type*}

/-- A message on a bridge as a copy in the flooding protocol. -/
def token (x : Packet ι) : Token ι := ⟨x.id, x.dst, x.slot, ttlOf x.payload⟩

/-- The network as the flooding protocol sees it. -/
def flood (m : Mesh ι) : Flood ι := ⟨m.flight.map token, m.visits.map fun v => (v.id, v.hub)⟩

/-! ### Reliable bridges -/

section Moves

variable [DecidableEq ι] (m : Mesh ι)

/-- The hub that a move sets to work, and the state it gets to. -/
def turn : Move ι → Option (ι × Hub)
  | .send i p payload kern =>
    if ((m.hub i).peers p).isOpen then some (i, (m.hub i).receive kern p payload) else none
  | .event i e => some (i, (m.hub i).step e)
  | .deliver k kern =>
    (m.flight[k]?).map fun x => (x.dst, (m.hub x.dst).receive kern x.slot x.payload)
  | .lose _ => none

/-- The number of the message that a move is about. -/
def about : Move ι → Option ℕ
  | .send _ _ _ _ | .event _ _ => some m.next
  | .deliver k _ => (m.flight[k]?).map Packet.id
  | .lose _ => none

/-- Something other than a message. -/
def Move.isEvent : Move ι → Bool
  | .event _ _ => true
  | .send _ _ _ _ | .deliver _ _ | .lose _ => false

/-- No message is lost, and those of one bridge arrive in the order in which they were sent. -/
def InOrder : Move ι → Prop
  | .send _ _ _ _ | .event _ _ => True
  | .deliver k _ => ∀ x ∈ m.flight[k]?, ∀ y ∈ m.flight.take k, ¬ (y.dst = x.dst ∧ y.slot = x.slot)
  | .lose _ => False

/-- A move on reliable FIFO bridges. -/
structure Orderly (mv : Move ι) : Prop where
  inOrder : m.InOrder mv
  reliable : ∀ {i s}, m.turn mv = some (i, s) → Reliable (m.hub i) s

/-- `P` holds of each move of a run, in the state in which it is made. -/
def Each (P : Mesh ι → Move ι → Prop) (m : Mesh ι) : List (Move ι) → Prop
  | [] => True
  | mv :: mvs => P m mv ∧ Each P (m.step mv) mvs

instance decidableInOrder : (mv : Move ι) → Decidable (m.InOrder mv)
  | .send _ _ _ _ | .event _ _ => isTrue trivial
  | .deliver k _ => inferInstanceAs (Decidable (∀ x ∈ m.flight[k]?, ∀ y ∈ m.flight.take k, _))
  | .lose _ => isFalse id

instance decidableEach {P : Mesh ι → Move ι → Prop} [∀ m mv, Decidable (P m mv)] (m : Mesh ι) :
    (mvs : List (Move ι)) → Decidable (Each P m mvs)
  | [] => isTrue trivial
  | mv :: mvs => @instDecidableAnd (P m mv) (Each P (m.step mv) mvs) inferInstance
      (decidableEach (m.step mv) mvs)

variable {m}

/-- What each move keeps a run keeps. -/
theorem Each.run {P : Mesh ι → Move ι → Prop} {I : Mesh ι → Prop}
    (hstep : ∀ {m mv}, I m → P m mv → I (m.step mv)) {mvs : List (Move ι)} (h : Each P m mvs)
    (hi : I m) : I (m.run mvs) := by
  induction mvs generalizing m with
  | nil => exact hi
  | cons mv mvs ih => exact ih h.2 (hstep hi h.1)

theorem Each.append {P : Mesh ι → Move ι → Prop} {l l' : List (Move ι)} (h : Each P m (l ++ l')) :
    Each P m l ∧ Each P (m.run l) l' := by
  induction l generalizing m with
  | nil => exact ⟨trivial, h⟩
  | cons mv l ih =>
    obtain ⟨hl, hl'⟩ := ih h.2
    exact ⟨⟨h.1, hl⟩, hl'⟩

theorem Each.imp {P Q : Mesh ι → Move ι → Prop} (hPQ : ∀ {m mv}, P m mv → Q m mv)
    {mvs : List (Move ι)}
    (h : Each P m mvs) : Each Q m mvs := by
  induction mvs generalizing m with
  | nil => trivial
  | cons mv mvs ih => exact ⟨hPQ h.1, ih h.2⟩

theorem Each.and {P Q : Mesh ι → Move ι → Prop} {mvs : List (Move ι)} (hP : Each P m mvs)
    (hQ : Each Q m mvs) : Each (fun m mv => P m mv ∧ Q m mv) m mvs := by
  induction mvs generalizing m with
  | nil => trivial
  | cons mv mvs ih => exact ⟨⟨hP.1, hQ.1⟩, ih hP.2 hQ.2⟩

end Moves

/-- A network of hubs in which bridges are joined and every hub is sound. -/
structure Network (m : Mesh ι) : Prop where
  joined : m.Joined
  sound : ∀ i, (m.hub i).Sound

/-! ### What a move does -/

section Turns

variable {m : Mesh ι} {mv : Move ι} {i : ι} {s : Hub} {id hops : ℕ}

theorem Network.continues (hn : m.Network) (h : m.turn mv = some (i, s)) :
    Continues (m.hub i) s := by
  cases mv with
  | send j p payload kern =>
    simp only [turn] at h
    split_ifs at h with ho
    cases h
    exact (receive_leads (hn.sound i).tracked ho kern payload).continues
  | event j e =>
    cases h
    exact step_continues (hn.sound i).tracked e
  | deliver k kern =>
    obtain ⟨x, hx, he⟩ := Option.map_eq_some_iff.1 h
    cases he
    have ho := (hn.joined.packet x (List.mem_of_getElem? hx)).isOpen
    exact (receive_leads (hn.sound x.dst).tracked ho kern x.payload).continues
  | lose k => cases h

/-- A message arrives in order, no socket closes or drops one on account of it, and it is not a
second hello. -/
structure Smooth (m : Mesh ι) (mv : Move ι) : Prop where
  inOrder : m.InOrder mv
  message : mv.isEvent = false
  hello : ∀ e ∈ m.turn mv, OneHello e.2.log
  kept : ∀ e ∈ m.turn mv, ∀ a ∈ did (m.hub e.1) e.2, lost a = none

theorem Network.orderly (hn : m.Network) (h : m.Smooth mv) : m.Orderly mv := by
  refine ⟨h.inOrder, fun {i s} hturn => ⟨fun hc => ?_, fun hc => ?_, h.hello _ hturn, ?_⟩⟩
  · cases h.kept _ hturn _ hc
  · cases h.kept _ hturn _ hc
  · -- a message sets no position and no override
    cases mv with
    | send j p payload kern =>
      simp only [turn] at hturn
      split_ifs at hturn with ho
      cases hturn
      exact (receive_leads (hn.sound i).tracked ho kern payload).plain (hn.sound i).plain
    | event j e => cases h.message
    | deliver k kern =>
      obtain ⟨x, hx, he⟩ := Option.map_eq_some_iff.1 hturn
      cases he
      have ho := (hn.joined.packet x (List.mem_of_getElem? hx)).isOpen
      exact (receive_leads (hn.sound x.dst).tracked ho kern x.payload).plain (hn.sound x.dst).plain
    | lose k => cases hturn

variable [DecidableEq ι]

theorem gone_of_reliable (hr : Reliable (m.hub i) s) {j : ι} {q : ℕ} (hq : (m.hub j).OpenBridge q) :
    m.gone i s j q = false := by
  rw [gone, Bool.and_eq_false_iff, decide_eq_false_iff_not, decide_eq_false_iff_not]
  by_cases hji : j = i
  · subst hji
    refine Or.inr fun hc => ?_
    have := hr.closed hc
    rw [hq.isBridge] at this
    cases this
  · exact Or.inl hji

/-- On reliable bridges no bridge goes and no message is lost. -/
theorem advance_of_reliable (hm : m.Joined) (hr : Reliable (m.hub i) s) (id hops : ℕ) :
    (m.advance i s id hops).far = m.far ∧
      (m.advance i s id hops).flight = m.flight ++ m.emitted i s id hops := by
  constructor
  · funext j q
    show (m.far j q).filter _ = m.far j q
    cases hfar : m.far j q with
    | none => rfl
    | some e =>
      rw [Option.filter_some, if_pos]
      rw [gone_of_reliable hr (hm.bridge hfar), gone_of_reliable hr (hm.bridge (hm.symm hfar))]
      rfl
  · refine List.filter_eq_self.2 fun x hx => ?_
    have hopen : (m.hub x.dst).OpenBridge x.slot := by
      rcases List.mem_append.1 hx with hold | hnew
      · exact hm.packet x hold
      · obtain ⟨-, -, q, f, hfar, -, -⟩ := mem_emitted hnew
        exact hm.bridge (hm.symm hfar)
    rw [gone_of_reliable hr hopen]
    rfl

/-- Hub `i` goes to state `s` on account of message `id`; on the bridges are what was `left` there
and what the hub put there. -/
structure Turns (m : Mesh ι) (left : List (Packet ι)) (i : ι) (s : Hub) (id hops : ℕ)
    (m' : Mesh ι) :
    Prop where
  hub : m'.hub = Function.update m.hub i s
  flight : m'.flight = left ++ m.emitted i s id hops
  visits : m'.visits = m.visits ++ [⟨i, id, hops, m.hub i, s⟩]

theorem Orderly.turns_send (hm : m.Joined) {o : ι} {p : ℕ} {payload : List UInt8} {kern : Kern}
    (ho : ((m.hub o).peers p).isOpen = true) (h : m.Orderly (.send o p payload kern)) :
    m.turn (.send o p payload kern) = some (o, (m.hub o).receive kern p payload) ∧
      (m.step (.send o p payload kern)).far = m.far ∧
      Turns m m.flight o ((m.hub o).receive kern p payload) m.next 0
        (m.step (.send o p payload kern)) := by
  have hturn : m.turn (.send o p payload kern) = some (o, (m.hub o).receive kern p payload) := by
    simp only [turn, ho, if_true]
  have hadv := advance_of_reliable hm.number (h.reliable hturn) m.next 0
  have hstep : m.step (.send o p payload kern) = Mesh.advance { m with next := m.next + 1 } o
      ((m.hub o).receive kern p payload) m.next 0 := by
    simp only [step, ho, if_true]
  rw [hstep]
  exact ⟨hturn, hadv.1, rfl, hadv.2, rfl⟩

/-- **What an orderly move does**: nothing of interest, or a hub has a message of its own, or the
first message of a bridge arrives. -/
theorem Orderly.cases (hm : m.Joined) (h : m.Orderly mv) : (m.step mv).far = m.far ∧
    ((m.turn mv = none ∧ (m.step mv).hub = m.hub ∧ (m.step mv).flight = m.flight ∧
      (m.step mv).visits = m.visits) ∨
    (∃ i s, m.turn mv = some (i, s) ∧ Turns m m.flight i s m.next 0 (m.step mv)) ∨
    ∃ l x r kern, m.flight = l ++ x :: r ∧ (∀ y ∈ l, ¬ (y.dst = x.dst ∧ y.slot = x.slot)) ∧
      m.about mv = some x.id ∧
      m.turn mv = some (x.dst, (m.hub x.dst).receive kern x.slot x.payload) ∧
      Turns m (l ++ r) x.dst ((m.hub x.dst).receive kern x.slot x.payload) x.id x.hops
        (m.step mv)) := by
  cases mv with
  | send i p payload kern =>
    cases ho : ((m.hub i).peers p).isOpen with
    | false =>
      have hturn : m.turn (.send i p payload kern) = none := by simp [turn, ho]
      have hstep : m.step (.send i p payload kern) = { m with next := m.next + 1 } :=
        by simp [step, ho]
      rw [hstep]
      exact ⟨rfl, Or.inl ⟨hturn, rfl, rfl, rfl⟩⟩
    | true =>
      obtain ⟨hturn, hfar, ht⟩ := h.turns_send hm ho
      exact ⟨hfar, Or.inr (Or.inl ⟨i, _, hturn, ht⟩)⟩
  | event i e =>
    have hadv := advance_of_reliable hm.number (h.reliable rfl) m.next 0
    exact ⟨hadv.1, Or.inr (Or.inl ⟨i, _, rfl, rfl, hadv.2, rfl⟩)⟩
  | deliver k kern =>
    cases hx : m.flight[k]? with
    | none =>
      have hturn : m.turn (.deliver k kern) = none := by simp [turn, hx]
      have hstep : m.step (.deliver k kern) = m := by simp only [step, hx]
      rw [hstep]
      exact ⟨rfl, Or.inl ⟨hturn, rfl, rfl, rfl⟩⟩
    | some x =>
      have hturn : m.turn (.deliver k kern) =
          some (x.dst, (m.hub x.dst).receive kern x.slot x.payload) := by
        simp only [turn, hx, Option.map_some]
      have hadv := advance_of_reliable (hm.erase k) (h.reliable hturn) x.id x.hops
      obtain ⟨hk, rfl⟩ := List.getElem?_eq_some_iff.1 hx
      have hsplit : m.flight = m.flight.take k ++ m.flight[k] :: m.flight.drop (k + 1) := by
        rw [List.getElem_cons_drop, List.take_append_drop]
      have hstep : m.step (.deliver k kern) = Mesh.advance { m with flight := m.flight.eraseIdx k }
          m.flight[k].dst ((m.hub m.flight[k].dst).receive kern m.flight[k].slot m.flight[k].payload)
          m.flight[k].id m.flight[k].hops := by
        simp only [step, hx]
      have habout : m.about (.deliver k kern) = some m.flight[k].id := by
        simp only [about, hx, Option.map_some]
      rw [hstep]
      refine ⟨hadv.1, Or.inr (Or.inr ⟨_, _, _, kern, hsplit, h.inOrder _ hx, habout, hturn, rfl, ?_,
        rfl⟩)⟩
      rw [hadv.2, List.eraseIdx_eq_take_drop_succ]
      rfl
  | lose k => exact h.inOrder.elim

/-- Only the hub at work changes. -/
theorem Orderly.hub_eq (hm : m.Joined) (h : m.Orderly mv) :
    (m.turn mv = none ∧ (m.step mv).hub = m.hub) ∨
    ∃ i s, m.turn mv = some (i, s) ∧ (m.step mv).hub = Function.update m.hub i s := by
  rcases (h.cases hm).2 with ⟨hturn, hhub, -⟩ | ⟨i, s, hturn, ht⟩ | ⟨l, x, r, kern, -, -, -, hturn,
    ht⟩
  · exact Or.inl ⟨hturn, hhub⟩
  · exact Or.inr ⟨i, s, hturn, ht.hub⟩
  · exact Or.inr ⟨x.dst, _, hturn, ht.hub⟩

theorem Orderly.hub_turn (hm : m.Joined) (h : m.Orderly mv) {j : ι}
    (hturn : m.turn mv = some (j, s)) :
    (m.step mv).hub j = s := by
  obtain ⟨hnone, -⟩ | ⟨i, s', hturn', hhub⟩ := h.hub_eq hm
  · rw [hturn] at hnone
    cases hnone
  · rw [hturn] at hturn'
    cases hturn'
    rw [hhub, Function.update_self]

theorem Orderly.hub_cases (hm : m.Joined) (h : m.Orderly mv) (j : ι) :
    (m.step mv).hub j = m.hub j ∨ m.turn mv = some (j, (m.step mv).hub j) := by
  obtain ⟨-, hhub⟩ | ⟨i, s, hturn, hhub⟩ := h.hub_eq hm
  · exact Or.inl (congrFun hhub j)
  · by_cases hji : j = i
    · subst hji
      exact Or.inr (by rw [h.hub_turn hm hturn, hturn])
    · rw [hhub, Function.update_of_ne hji]
      exact Or.inl rfl

theorem Network.step (hn : m.Network) (h : m.Orderly mv) : (m.step mv).Network := by
  refine ⟨hn.joined.step mv, fun j => ?_⟩
  rcases h.hub_cases hn.joined j with hsame | hturn
  · rw [hsame]
    exact hn.sound j
  · exact (h.reliable hturn).sound (hn.continues hturn)

instance (m : Mesh ι) (mv : Move ι) : Decidable (m.Smooth mv) :=
  decidable_of_iff (m.InOrder mv ∧ mv.isEvent = false ∧ (∀ e ∈ m.turn mv, OneHello e.2.log) ∧
    ∀ e ∈ m.turn mv, ∀ a ∈ did (m.hub e.1) e.2, lost a = none)
    ⟨fun h => ⟨h.1, h.2.1, h.2.2.1, h.2.2.2⟩, fun h => ⟨h.inOrder, h.message, h.hello, h.kept⟩⟩

theorem Network.each_orderly (hn : m.Network) {mvs : List (Move ι)} (h : Each Smooth m mvs) :
    Each Orderly m mvs := by
  induction mvs generalizing m with
  | nil => trivial
  | cons mv mvs ih => exact ⟨hn.orderly h.1, ih (hn.step (hn.orderly h.1)) h.2⟩

/-- A visit is of the hub as it was then. -/
theorem Orderly.before_eq (hm : m.Joined) (h : m.Orderly mv) {v : Visit ι}
    (hv : v ∈ (m.step mv).visits) : v ∈ m.visits ∨ v.before = m.hub v.hub := by
  have hturns : ∀ {left i s id hops}, Turns m left i s id hops (m.step mv) →
      v ∈ m.visits ∨ v.before = m.hub v.hub := by
    intro left i s id hops ht
    rw [ht.visits] at hv
    refine (List.mem_append.1 hv).imp_right fun hlast => ?_
    rw [List.mem_singleton.1 hlast]
  rcases (h.cases hm).2 with ⟨-, -, -, hvisits⟩ | ⟨i, s, -, ht⟩ | ⟨l, x, r, kern, -, -, -, -, ht⟩
  · exact Or.inl (hvisits ▸ hv)
  · exact hturns ht
  · exact hturns ht

end Turns

/-! ### What a hub passes on -/

section Emitted

variable {m : Mesh ι} {i : ι} {s : Hub} {id hops : ℕ}

/-- What goes to one port is what the socket at the other end took. -/
theorem towards_emitted [DecidableEq ι] (hm : m.Joined) {q r : ℕ} {u : ι}
    (hfar : m.far i q = some (u, r)) :
    Flood.towards u r ((m.emitted i s id hops).map token) =
      ((taken (did (m.hub i) s)).reverse.filter fun x => x.1 == q).map fun x =>
        (⟨id, u, r, ttlOf x.2.payload⟩ : Token ι) := by
  rw [emitted]
  induction (taken (did (m.hub i) s)).reverse with
  | nil => rfl
  | cons x l ih =>
    by_cases hxq : x.1 = q
    · have hx : m.far i x.1 = some (u, r) := hxq ▸ hfar
      rw [List.filterMap_cons_some (by rw [hx]; rfl), List.map_cons,
        List.filter_cons_of_pos (by simpa using hxq), List.map_cons, ← ih]
      exact List.filter_cons_of_pos (by simp [token])
    · rw [List.filter_cons_of_neg (by simpa using hxq)]
      cases hx : m.far i x.1 with
      | none => rw [List.filterMap_cons_none (by rw [hx]; rfl), ih]
      | some e =>
        rw [List.filterMap_cons_some (by rw [hx]; rfl), List.map_cons, ← ih]
        refine List.filter_cons_of_neg fun hc => hxq ?_
        -- two ports of the hub would share their other end
        obtain ⟨rfl, rfl⟩ := of_decide_eq_true hc
        have hback := (hm.symm hx).symm.trans (hm.symm hfar)
        exact congrArg Prod.snd (Option.some.inj hback)

variable {p : ℕ} {t : UInt8} {f : Frame} {kern : Kern}

/-- What goes over a bridge is a copy of the frame with a new TTL. -/
theorem payload_emitted (hn : m.Network) (hp : Relaying (m.hub i) p f t) {x : Packet ι}
    (hx : x ∈ m.emitted i ((m.hub i).receive kern p (f.withTtl t).payload) id hops) :
    x.payload = (f.withTtl (nextTtl ((m.hub i).peers p).isBridge t)).payload ∧
      ∃ q, m.far i q = some (x.dst, x.slot) ∧ q ≠ p := by
  obtain ⟨-, -, q, g, hfar, hg, hpay⟩ := mem_emitted hx
  have hmem : g ∈ handsTo q (did (m.hub i) ((m.hub i).receive kern p (f.withTtl t).payload)) :=
    mem_handsTo.2 (mem_hands.1 hg)
  rw [hp.handsTo_bridge (hn.sound i) kern (hn.joined.bridge hfar)] at hmem
  split_ifs at hmem with hqp
  · cases hmem
  · rw [hpay, List.mem_singleton.1 hmem]
    exact ⟨rfl, q, hfar, hqp⟩

/-- **A hub passes one copy on over each other bridge.** -/
theorem emitted_sendsOn [DecidableEq ι] (hn : m.Network) (hp : Relaying (m.hub i) p f t)
    (hr : Reliable (m.hub i) ((m.hub i).receive kern p (f.withTtl t).payload)) {via : Option ℕ}
    (hvia : ∀ {q e}, m.far i q = some e → (via = some q ↔ q = p)) :
    Flood.SendsOn m.far i via id (nextTtl ((m.hub i).peers p).isBridge t).toNat
      ((m.emitted i ((m.hub i).receive kern p (f.withTtl t).payload) id hops).map token) where
  copy {q u r} hfar hq := by
    have hqp : q ≠ p := fun hc => hq ((hvia hfar).2 hc)
    have hopen := hn.joined.bridge hfar
    have hhands := hp.handsTo_bridge (hn.sound i) kern hopen
    rw [if_neg hqp] at hhands
    rw [towards_emitted hn.joined hfar]
    generalize (m.hub i).receive kern p (f.withTtl t).payload = s at hr hhands
    have hbridge : ¬ ((m.hub i).peers q).isBridge = false := by simp [hopen.isBridge]
    have htaken := taken_filter (fun hc => hbridge (hr.closed hc)) fun hd => hbridge (hr.dropped hd)
    rw [hhands, List.map_eq_singleton_iff] at htaken
    obtain ⟨x, hx, hxf⟩ := htaken
    rw [List.filter_reverse, hx, List.reverse_singleton, List.map_singleton, hxf,
      hp.floods.ttlOf_withTtl]
  only y hy := by
    obtain ⟨x, hx, rfl⟩ := List.mem_map.1 hy
    obtain ⟨hpay, q, hfar, hqp⟩ := payload_emitted hn hp hx
    refine ⟨(mem_emitted hx).1, ?_, q, hfar, fun hc => hqp ((hvia hfar).1 hc)⟩
    show ttlOf x.payload = _
    rw [hpay, hp.floods.ttlOf_withTtl]

end Emitted

/-! ### Moves are steps of the flooding protocol -/

section Steps

variable [DecidableEq ι] {m m' : Mesh ι} {mv : Move ι} {left : List (Packet ι)} {i : ι} {s : Hub}
  {id hops : ℕ} {T : ℕ → Bool}

theorem Turns.flood (h : Turns m left i s id hops m') : m'.flood =
    ⟨left.map token ++ (m.emitted i s id hops).map token, m.flood.visits ++ [(id, i)]⟩ := by
  simp [Mesh.flood, h.flight, h.visits]

/-- A message that does not count. -/
theorem Turns.other (h : Turns m left i s id hops m') (hid : T id = false)
    (hleft : ((left.map token).filter fun x => T x.id) = (m.flight.map token).filter fun x => T x.id) :
    Flood.Step m.far 8 T m.flood m'.flood := by
  have hnil : (((m.emitted i s id hops).map token).filter fun x => T x.id) = [] := by
    refine List.filter_eq_nil_iff.2 fun y hy => ?_
    obtain ⟨x, hx, rfl⟩ := List.mem_map.1 hy
    show ¬ T x.id = true
    rw [(mem_emitted hx).1, hid]
    exact Bool.false_ne_true
  rw [h.flood]
  refine .other ?_ ?_
  · rw [List.filter_append, hnil, List.append_nil, hleft]
    rfl
  · rw [List.filter_append, List.filter_cons_of_neg (by simp [hid]), List.filter_nil,
      List.append_nil]

/-- The messages in `T` that are under way are flooded frames. -/
def Flooded (T : ℕ → Bool) (m : Mesh ι) : Prop :=
  ∀ x ∈ m.flight, T x.id = true →
    ∃ (f : Frame) (t : UInt8), f.Floods ∧ t ≠ 0 ∧ x.payload = (f.withTtl t).payload

/-- The arrival of a flooded frame. -/
theorem Turns.arrive (hn : m.Network) {l r : List (Packet ι)} {x : Packet ι} {kern : Kern}
    (hflight : m.flight = l ++ x :: r) (hfirst : ∀ y ∈ l, ¬ (y.dst = x.dst ∧ y.slot = x.slot))
    (h : Turns m (l ++ r) x.dst ((m.hub x.dst).receive kern x.slot x.payload) x.id x.hops m')
    (hr : Reliable (m.hub x.dst) ((m.hub x.dst).receive kern x.slot x.payload))
    (hid : T x.id = true) {f : Frame} {t : UInt8} (hf : f.Floods) (ht : t ≠ 0)
    (hpay : x.payload = (f.withTtl t).payload) : Flood.Step m.far 8 T m.flood m'.flood := by
  have hopen := hn.joined.packet x (by rw [hflight]; simp)
  have hp : Relaying (m.hub x.dst) x.slot f t := ⟨hf, hopen.isOpen, fun _ => ht⟩
  have hlast : m.flood = ⟨l.map token ++ token x :: r.map token, m.flood.visits⟩ := by
    simp [Mesh.flood, hflight]
  have hout : Flood.SendsOn m.far x.dst (some x.slot) x.id _
      ((m.emitted x.dst ((m.hub x.dst).receive kern x.slot (f.withTtl t).payload) x.id x.hops).map
        token) :=
    emitted_sendsOn hn hp (hpay ▸ hr) fun {q _} _ => by rw [Option.some_inj, eq_comm]
  have httl : (nextTtl ((m.hub x.dst).peers x.slot).isBridge t).toNat = (token x).ttl - 1 := by
    have hpos : t.toNat ≠ 0 := fun hc => ht (UInt8.toNat_inj.1 hc)
    have hle : (1 : UInt8) ≤ t := UInt8.le_iff_toNat_le.2 (Nat.one_le_iff_ne_zero.2 hpos)
    show _ = ttlOf x.payload - 1
    rw [hpay, hf.ttlOf_withTtl, hopen.isBridge, nextTtl, if_pos rfl, UInt8.toNat_sub_of_le _ _ hle]
    rfl
  rw [httl, ← hpay] at hout
  rw [h.flood, hlast, List.map_append]
  refine .arrive hid (fun y hy => ?_) hout
  obtain ⟨z, hz, rfl⟩ := List.mem_map.1 hy
  exact hfirst z hz

/-- **A move is a step of the flooding protocol.** -/
theorem flood_step (hn : m.Network) (h : m.Orderly mv) (hnew : T m.next = false)
    (hT : m.Flooded T) :
    Flood.Step m.far 8 T m.flood (m.step mv).flood := by
  rcases (h.cases hn.joined).2 with ⟨-, -, hflight, hvisits⟩ | ⟨i, s, -, ht⟩ |
    ⟨l, x, r, kern, hflight, hfirst, -, hturn, ht⟩
  · refine .other ?_ ?_
    · simp only [flood, hflight]
    · simp only [flood, hvisits]
  · exact ht.other hnew rfl
  · cases hid : T x.id with
    | false =>
      refine ht.other hid ?_
      rw [hflight, List.map_append, List.map_append, List.map_cons, List.filter_append,
        List.filter_append, List.filter_cons_of_neg (by simp [token, hid])]
    | true =>
      obtain ⟨f, t, hf, ht0, hpay⟩ := hT x (by rw [hflight]; simp) hid
      exact ht.arrive hn hflight hfirst (h.reliable hturn) hid hf ht0 hpay

/-- The frame of a local peer starts to spread. -/
theorem flood_send (hn : m.Network) {o : ι} {p : ℕ} {f : Frame} {kern : Kern} (hf : f.Floods)
    (ho : ((m.hub o).peers p).isOpen = true) (hloc : ((m.hub o).peers p).isBridge = false)
    (h : m.Orderly (.send o p f.payload kern)) : ∃ out, Flood.SendsOn m.far o none m.next 8 out ∧
      (m.step (.send o p f.payload kern)).flood =
        ⟨m.flood.flight ++ out, m.flood.visits ++ [(m.next, o)]⟩ := by
  obtain ⟨hturn, -, ht⟩ := h.turns_send hn.joined ho
  have hp : Relaying (m.hub o) p f f.hdr.flags.b3 := ⟨hf, ho, fun hc => by simp [hloc] at hc⟩
  have hout : Flood.SendsOn m.far o none m.next _
      ((m.emitted o ((m.hub o).receive kern p f.payload) m.next 0).map token) :=
    emitted_sendsOn hn hp (h.reliable hturn) fun {q e} hfar => by
      have hq := (hn.joined.bridge hfar).isBridge
      constructor
      · intro hc
        cases hc
      · rintro rfl
        rw [hloc] at hq
        cases hq
  rw [hloc] at hout
  exact ⟨_, hout, ht.flood⟩

end Steps

/-! ### A frame under way -/

section Messages

variable {m : Mesh ι} {mv : Move ι} {id : ℕ}

theorem mem_flood_visits {j : ι} :
    (id, j) ∈ m.flood.visits ↔ ∃ v ∈ m.visits, v.id = id ∧ v.hub = j := by
  simp [flood]

/-- A move about a message that is not new takes a copy of it to a hub. -/
theorem mem_flight_of_about (hid : id < m.next) (habout : m.about mv = some id) {j : ι} {s : Hub}
    (hturn : m.turn mv = some (j, s)) : ∃ x ∈ m.flight, x.id = id ∧ x.dst = j := by
  cases mv with
  | send | event => exact absurd (Option.some.inj habout) hid.ne'
  | deliver k kern =>
    obtain ⟨x, hx, hxid⟩ := Option.map_eq_some_iff.1 habout
    obtain ⟨x', hx', he⟩ := Option.map_eq_some_iff.1 hturn
    obtain rfl : x = x' := Option.some.inj (hx.symm.trans hx')
    exact ⟨x, List.mem_of_getElem? hx, hxid, congrArg Prod.fst he⟩
  | lose k => cases hturn

variable [DecidableEq ι]

/-- Where the copies of a message come from. -/
theorem Orderly.mem_flight (hm : m.Joined) (h : m.Orderly mv) (hid : id < m.next) {y : Packet ι}
    (hy : y ∈ (m.step mv).flight) (hyid : y.id = id) : y ∈ m.flight ∨ ∃ x ∈ m.flight, x.id = id ∧
      ∃ kern, y ∈ m.emitted x.dst ((m.hub x.dst).receive kern x.slot x.payload) x.id x.hops := by
  rcases (h.cases hm).2 with ⟨-, -, hflight, -⟩ | ⟨i, s, -, ht⟩ | ⟨l, x, r, kern, hflight, -, -, -,
    ht⟩
  · exact Or.inl (hflight ▸ hy)
  · rw [ht.flight] at hy
    refine (List.mem_append.1 hy).imp_right fun hnew => ?_
    have := (mem_emitted hnew).1
    omega
  · rw [ht.flight] at hy
    have hsub : ∀ z ∈ l ++ r, z ∈ m.flight := fun z hz => by
      rw [hflight]
      rcases List.mem_append.1 hz with hz | hz
      · exact List.mem_append_left _ hz
      · exact List.mem_append_right _ (List.mem_cons_of_mem x hz)
    refine (List.mem_append.1 hy).imp (hsub y) fun hnew => ?_
    exact ⟨x, by rw [hflight]; simp, (mem_emitted hnew).1.symm.trans hyid, kern, hnew⟩

/-- Where the visits of a message come from. -/
theorem Orderly.mem_visits (hm : m.Joined) (h : m.Orderly mv) (hid : id < m.next) {v : Visit ι}
    (hv : v ∈ (m.step mv).visits) (hvid : v.id = id) : v ∈ m.visits ∨ ∃ x ∈ m.flight, x.id = id ∧
      m.about mv = some id ∧ ∃ kern, m.turn mv = some (x.dst,
        (m.hub x.dst).receive kern x.slot x.payload) ∧
        v = ⟨x.dst, x.id, x.hops, m.hub x.dst, (m.hub x.dst).receive kern x.slot x.payload⟩ := by
  rcases (h.cases hm).2 with ⟨-, -, -, hvisits⟩ | ⟨i, s, -, ht⟩ |
    ⟨l, x, r, kern, hflight, -, habout, hturn, ht⟩
  · exact Or.inl (hvisits ▸ hv)
  · rw [ht.visits] at hv
    refine (List.mem_append.1 hv).imp_right fun hlast => ?_
    rw [List.mem_singleton.1 hlast] at hvid
    exact absurd hvid hid.ne'
  · rw [ht.visits] at hv
    refine (List.mem_append.1 hv).imp_right fun hlast => ?_
    rw [List.mem_singleton.1 hlast] at hvid ⊢
    exact ⟨x, by rw [hflight]; simp, hvid, hvid ▸ habout, kern, hturn, rfl⟩

end Messages

/-- A hub was sound when it got a copy of frame `f`, from the peer that sent the frame or, at
another hub, from a bridge. -/
structure Handled (o : ι) (p : ℕ) (f : Frame) (v : Visit ι) : Prop where
  sound : v.before.Sound
  relayed : ∃ src t kern, Relaying v.before src f t ∧
    v.after = v.before.receive kern src (f.withTtl t).payload ∧
    ((v.hub = o ∧ src = p) ∨ (v.hub ≠ o ∧ (v.before.peers src).isBridge = true))

section Handled

variable {o : ι} {p : ℕ} {f : Frame}

/-- What a visit of an advertising frame hands over. -/
theorem Handled.adv [DecidableEq ι] {v : Visit ι} (h : Handled o p f v)
    (hadv : f.hdr.llType = VBT_LL_ADV) {q l : ℕ} (hq : Bound v.before.router q l) (hne : ¬ (v.hub = o ∧ q = p)) {node : Option ℕ}
    (hnode : (if v.hub = o then (v.before.peers p).nodeIdx else none) = node) :
    ∃ t, handsTo q (did v.before v.after) = [⟨{ (f.withTtl t).hdr with
      rssi := v.before.plainRssi node l f.hdr.rssi }, f.pdu⟩] := by
  obtain ⟨src, t, kern, hsrc, hafter, hfrom⟩ := h.relayed
  have hqs : q ≠ src := by
    rintro rfl
    rcases hfrom with hc | ⟨-, hb⟩
    · exact hne hc
    · rw [hq.not_bridge h.sound.disciplined] at hb
      cases hb
  have hh := handsTo_adv_node h.sound.tracked h.sound.disciplined h.sound.plain
    hsrc.isOpen hq hqs (hsrc.floods.frameOf_withTtl t) hadv hsrc.alive kern
  have hsn : (v.before.peers src).nodeIdx = node := by
    rcases hfrom with ⟨ho, rfl⟩ | ⟨ho, hb⟩
    · exact (if_pos ho).symm.trans hnode
    · exact (h.sound.disciplined.bridge src hb).1.trans ((if_neg ho).symm.trans hnode)
  rw [hsn] at hh
  exact ⟨nextTtl (v.before.peers src).isBridge t, hafter ▸ hh⟩

/-- The sender is handed nothing. -/
theorem Handled.adv_sender {v : Visit ι} (h : Handled o p f v) (hadv : f.hdr.llType = VBT_LL_ADV)
    (ho : v.hub = o) : handsTo p (did v.before v.after) = [] := by
  obtain ⟨src, t, kern, hsrc, hafter, hfrom⟩ := h.relayed
  obtain ⟨-, rfl⟩ : v.hub = o ∧ src = p := hfrom.resolve_right fun hc => hc.1 ho
  rw [hafter, handsTo_receive_adv h.sound.tracked h.sound.disciplined hsrc.isOpen
    (hsrc.floods.frameOf_withTtl t) hadv hsrc.alive kern src rfl, if_pos (Or.inl rfl)]

end Handled

section Afloat

variable [DecidableEq ι] {far : ι → ℕ → Option (ι × ℕ)} {o : ι}

/-- Message `id`, which is frame `f` of peer `p` of hub `o`, spreads over a tree of hubs. -/
structure Afloat (R : Rooted far o) (p : ℕ) (f : Frame) (id : ℕ) (m : Mesh ι) : Prop where
  far : m.far = far
  covers : Flood.Covers R 8 id m.flood
  carried : ∀ x ∈ m.flight, x.id = id → ∃ t, x.payload = (f.withTtl t).payload
  handled : ∀ v ∈ m.visits, v.id = id → Handled o p f v

namespace Afloat

variable {R : Rooted far o} {p id : ℕ} {f : Frame} {m : Mesh ι} {mv : Move ι}

/-- The TTL lasts for eight bridges. -/
theorem alive (h : Afloat R p f id m) (hf : f.Floods) (hdepth : ∀ v, R.depth v ≤ 8) {x : Packet ι}
    (hx : x ∈ m.flight) (hid : x.id = id) :
    ∃ t ≠ 0, x.payload = (f.withTtl t).payload ∧ x.dst ≠ o := by
  obtain ⟨t, ht⟩ := h.carried x hx hid
  obtain ⟨-, hne, -, httl, -⟩ := h.covers.of_mem (List.mem_map_of_mem (f := token) hx) hid
  refine ⟨t, ?_, ht, hne⟩
  rintro rfl
  have hzero : ttlOf x.payload = 0 := by
    rw [ht, hf.ttlOf_withTtl]
    rfl
  have httl' : ttlOf x.payload = 8 + 1 - R.depth x.dst := httl
  have := hdepth x.dst
  omega

theorem flooded (h : Afloat R p f id m) (hf : f.Floods) (hdepth : ∀ v, R.depth v ≤ 8) :
    m.Flooded fun j => decide (j = id) := by
  intro x hx hid
  obtain ⟨t, ht, hpay, -⟩ := h.alive hf hdepth hx (of_decide_eq_true hid)
  exact ⟨f, t, hf, ht, hpay⟩

/-- A local peer sends the frame. -/
theorem send {kern : Kern} (R : Rooted m.far o) (hn : m.Network) (hf : f.Floods)
    (ho : ((m.hub o).peers p).isOpen = true) (hloc : ((m.hub o).peers p).isBridge = false)
    (h : m.Orderly (.send o p f.payload kern)) :
    Afloat R p f m.next (m.step (.send o p f.payload kern)) := by
  have hp : Relaying (m.hub o) p f f.hdr.flags.b3 := ⟨hf, ho, fun hc => by simp [hloc] at hc⟩
  obtain ⟨-, hfar, ht⟩ := h.turns_send hn.joined ho
  refine ⟨hfar, ?_, fun x hx hid => ?_, fun v hv hid => ?_⟩
  · obtain ⟨out, hout, hflood⟩ := flood_send hn hf ho hloc h
    rw [hflood]
    refine .start (fun y hy => ?_) (fun y hy => ?_) hout
    · obtain ⟨x, hx, rfl⟩ := List.mem_map.1 hy
      exact (hn.joined.flight_lt x hx).ne
    · obtain ⟨v, hv, rfl⟩ := List.mem_map.1 hy
      exact (hn.joined.visits_lt v hv).ne
  · rw [ht.flight] at hx
    rcases List.mem_append.1 hx with hold | hnew
    · exact absurd hid (hn.joined.flight_lt x hold).ne
    · exact ⟨_, (payload_emitted hn hp hnew).1⟩
  · rw [ht.visits] at hv
    rcases List.mem_append.1 hv with hold | hlast
    · exact absurd hid (hn.joined.visits_lt v hold).ne
    · rw [List.mem_singleton.1 hlast]
      exact ⟨hn.sound o, p, f.hdr.flags.b3, kern, hp, by rw [f.withTtl_self], Or.inl ⟨rfl, rfl⟩⟩

theorem step (h : Afloat R p f id m) (hn : m.Network) (hf : f.Floods) (hdepth : ∀ v, R.depth v ≤ 8)
    (hid : id < m.next) (ho : m.Orderly mv) : Afloat R p f id (m.step mv) := by
  obtain rfl := h.far
  refine ⟨(ho.cases hn.joined).1, ?_, fun y hy hyid => ?_, fun v hv hvid => ?_⟩
  · exact h.covers.step (T := fun j => decide (j = id)) (by simp)
      (flood_step hn ho (by simpa using hid.ne') (h.flooded hf hdepth))
  · rcases ho.mem_flight hn.joined hid hy hyid with hold | ⟨x, hx, hxid, kern, hnew⟩
    · exact h.carried y hold hyid
    · obtain ⟨t, ht, hpay, -⟩ := h.alive hf hdepth hx hxid
      rw [hpay] at hnew
      have hp : Relaying (m.hub x.dst) x.slot f t :=
        ⟨hf, (hn.joined.packet x hx).isOpen, fun _ => ht⟩
      exact ⟨_, (payload_emitted hn hp hnew).1⟩
  · rcases ho.mem_visits hn.joined hid hv hvid with hold | ⟨x, hx, hxid, -, kern, -, rfl⟩
    · exact h.handled v hold hvid
    · obtain ⟨t, ht, hpay, hne⟩ := h.alive hf hdepth hx hxid
      have hopen := hn.joined.packet x hx
      have hp : Relaying (m.hub x.dst) x.slot f t := ⟨hf, hopen.isOpen, fun _ => ht⟩
      exact ⟨hn.sound x.dst, x.slot, t, kern, hp,
        congrArg ((m.hub x.dst).receive kern x.slot) hpay, Or.inr ⟨hne, hopen.isBridge⟩⟩

end Afloat

end Afloat

/-! ### Peers that stay -/

section Stays

/-- Peer `q` of hub `j` keeps its socket and its node `l` in a move. -/
def Stays (j : ι) (q l : ℕ) (m : Mesh ι) (mv : Move ι) : Prop :=
  ∀ e ∈ m.turn mv, e.1 = j → ∀ a ∈ did (m.hub j) e.2, Keeps q l a

instance [DecidableEq ι] (j : ι) (q l : ℕ) (m : Mesh ι) (mv : Move ι) :
    Decidable (Stays j q l m mv) :=
  inferInstanceAs (Decidable (∀ e ∈ m.turn mv, _ → ∀ a ∈ did (m.hub j) e.2, _))

/-- Peer `q` is bound to node `l` of hub `j`, and was when message `id` came. -/
structure Attends (j : ι) (q l id : ℕ) (m : Mesh ι) : Prop where
  now : Bound (m.hub j).router q l
  visit : ∀ v ∈ m.visits, v.id = id → v.hub = j → Bound v.before.router q l

variable [DecidableEq ι] {m : Mesh ι} {mv : Move ι} {j : ι} {q l id : ℕ}

theorem Orderly.bound (hn : m.Network) (ho : m.Orderly mv) (hs : Stays j q l m mv)
    (h : Bound (m.hub j).router q l) : Bound ((m.step mv).hub j).router q l := by
  rcases ho.hub_cases hn.joined j with hsame | hturn
  · rw [hsame]
    exact h
  · exact (hn.continues hturn).bound (hn.sound j).tracked (ho.reliable hturn).hello (hs _ hturn rfl) h

theorem Attends.step (h : Attends j q l id m) (hn : m.Network) (ho : m.Orderly mv)
    (hs : Stays j q l m mv) : Attends j q l id (m.step mv) where
  now := ho.bound hn hs h.now
  visit v hv hid hj := by
    rcases ho.before_eq hn.joined hv with hold | hnew
    · exact h.visit v hold hid hj
    · rw [hnew, hj]
      exact h.now

/-- A peer that stays through a run was there for each message of the run. -/
theorem Attends.run (hn : m.Network) (hb : Bound (m.hub j).router q l) {mvs : List (Move ι)}
    (ho : Each Orderly m mvs) (hs : Each (Stays j q l) m mvs) :
    Attends j q l m.next (m.run mvs) := by
  have hstart : Attends j q l m.next m :=
    ⟨hb, fun v hv hid => absurd hid (hn.joined.visits_lt v hv).ne⟩
  have hrun := (ho.and hs).run (I := fun m' => m'.Network ∧ Attends j q l m.next m')
    (fun hi hmv => ⟨hi.1.step hmv.1, hi.2.step hi.1 hmv.1 hmv.2⟩) ⟨hn, hstart⟩
  exact hrun.2

end Stays

/-! ### Advertising -/

section Advertising

variable [DecidableEq ι] {m : Mesh ι} {o : ι} {p : ℕ} {f : Frame} {kern : Kern} {mvs : List (Move ι)}

/-- The frames that peer `q` of hub `j` was handed on account of message `id`. -/
def handed (m : Mesh ι) (id : ℕ) (j : ι) (q : ℕ) : List Frame :=
  (m.visits.filter fun v => decide (v.id = id ∧ v.hub = j)).flatMap fun v =>
    handsTo q (did v.before v.after)

/-- The hub at which message `id` was sent was in state `s` then. -/
def Origin (o : ι) (s : Hub) (id : ℕ) (m : Mesh ι) : Prop :=
  ∀ v ∈ m.visits, v.id = id → v.hub = o → v.before = s

/-- A frame of a local peer is under way through the whole run, and does not come back to its
hub. -/
theorem Afloat.run {far : ι → ℕ → Option (ι × ℕ)} (R : Rooted far o) (hfar : m.far = far)
    (hn : m.Network) (hf : f.Floods) (hdepth : ∀ v, R.depth v ≤ 8)
    (ho : ((m.hub o).peers p).isOpen = true) (hloc : ((m.hub o).peers p).isBridge = false)
    (h : Each Orderly m (.send o p f.payload kern :: mvs)) :
    Afloat R p f m.next (m.run (.send o p f.payload kern :: mvs)) ∧
      Origin o (m.hub o) m.next (m.run (.send o p f.payload kern :: mvs)) := by
  subst hfar
  have hstart : Origin o (m.hub o) m.next (m.step (.send o p f.payload kern)) := by
    intro v hv hid _
    rw [(h.1.turns_send hn.joined ho).2.2.visits] at hv
    rcases List.mem_append.1 hv with hold | hlast
    · exact absurd hid (hn.joined.visits_lt v hold).ne
    · rw [List.mem_singleton.1 hlast]
  have hrun := Each.run (I := fun m' => m'.Network ∧ m.next < m'.next ∧ Afloat R p f m.next m' ∧
      Origin o (m.hub o) m.next m')
    (fun {m' mv} hi hmv => ⟨hi.1.step hmv, hi.2.1.trans_le (next_le_step m' mv),
      hi.2.2.1.step hi.1 hf hdepth hi.2.1 hmv, fun v hv hid hvo => ?_⟩) h.2
    ⟨hn.step h.1, next_lt_send m o p f.payload kern, Afloat.send R hn hf ho hloc h.1, hstart⟩
  · exact hrun.2.2
  · rcases hmv.mem_visits hi.1.joined hi.2.1 hv hid with hold | ⟨x, hx, hxid, -, kern, -, rfl⟩
    · exact hi.2.2.2 v hold hid hvo
    · obtain ⟨_, -, -, hne⟩ := hi.2.2.1.alive hf hdepth hx hxid
      exact absurd hvo hne

/-- A hub has got the frame once, or not yet; then a copy is still under way. -/
theorem Afloat.handed_eq {far : ι → ℕ → Option (ι × ℕ)} {R : Rooted far o} {id : ℕ}
    (h : Afloat R p f id m) (j : ι) :
    (∃ v ∈ m.visits, v.id = id ∧ v.hub = j ∧ ∀ q,
      m.handed id j q = handsTo q (did v.before v.after)) ∨
      ((∃ x ∈ m.flight, x.id = id) ∧ ∀ q, m.handed id j q = []) := by
  have hcount : (m.visits.filter fun v => decide (v.id = id ∧ v.hub = j)).length =
      m.flood.visits.count (id, j) := by
    rw [flood, List.count, List.countP_map, List.countP_eq_length_filter]
    congr 2
    funext v
    rw [Bool.eq_iff_iff]
    simp
  have hmem : ∀ v ∈ m.visits.filter (fun v => decide (v.id = id ∧ v.hub = j)),
      v ∈ m.visits ∧ v.id = id ∧ v.hub = j := fun v hv => by simpa using hv
  simp only [handed]
  generalize m.visits.filter (fun v => decide (v.id = id ∧ v.hub = j)) = vs at hcount hmem
  match vs, hcount, hmem with
  | [], hcount, _ =>
    refine Or.inr ⟨?_, fun q => rfl⟩
    by_contra hnone
    have hno : ∀ x ∈ m.flood.flight, x.id ≠ id := fun y hy hid => by
      obtain ⟨x, hx, rfl⟩ := List.mem_map.1 hy
      exact hnone ⟨x, hx, hid⟩
    exact List.count_eq_zero.1 hcount.symm (h.covers.settled hno j)
  | [v], _, hmem =>
    obtain ⟨hv, hid, hj⟩ := hmem v (List.mem_singleton_self v)
    exact Or.inl ⟨v, hv, hid, hj, fun q => by simp⟩
  | _ :: _ :: _, hcount, _ =>
    have := h.covers.once j
    rw [← hcount] at this
    simp at this

/-- **Exactly-once advertising.** On a tree of hubs that are at most eight bridges apart, with
reliable FIFO bridges and no positions or overrides, a node sends a valid advertising frame; then
messages of the bridges arrive in any order, and whatever else happens. A node peer anywhere in the
network that is there before and stays, other than the sender, is handed the frame once, or not yet,
and then a copy is still under way; but for its TTL, and for an RSSI of 0 that becomes the default
at another hub or between nodes that are not physical, it is the frame that was sent. The sender is
never handed it. And the copies do not stay under way for ever. -/
theorem adv_exactly_once [Fintype ι] (hn : m.Network) (htree : Forest m.far)
    (hdiam : ∀ i j, ∃ n ≤ 8, Hops m.far n i j) {k : ℕ} (hp : Bound (m.hub o).router p k)
    (hf : f.Valid) (hadv : f.hdr.llType = VBT_LL_ADV)
    (hord : Each Orderly m (.send o p f.payload kern :: mvs)) {m' : Mesh ι}
    (hm' : m.run (.send o p f.payload kern :: mvs) = m') :
    (∀ j q l, Bound (m.hub j).router q l → Each (Stays j q l) m (.send o p f.payload kern :: mvs) →
      ¬ (j = o ∧ q = p) → ((∃ x ∈ m'.flight, x.id = m.next) ∧ m'.handed m.next j q = []) ∨
        ∃ t, m'.handed m.next j q = [⟨{ (f.withTtl t).hdr with
          rssi := (m.hub j).plainRssi (if j = o then some k else none) l f.hdr.rssi }, f.pdu⟩]) ∧
    m'.handed m.next o p = [] ∧
    ∃ N, ∀ sched : ℕ → Move ι,
      (∀ n, (m'.after sched n).flight ≠ [] → (m'.after sched n).Takes (sched n)) →
        ∃ n ≤ N, (m'.after sched n).flight = [] := by
  obtain ⟨R, hR⟩ := htree.rooted o fun v => (hdiam o v).imp fun n hn => hn.2
  have hdepth : ∀ v, R.depth v ≤ 8 := fun v => by
    obtain ⟨n, hle, hhops⟩ := hdiam o v
    exact (hR v n hhops).trans hle
  have hfloods : f.Floods := ⟨hf, Or.inl hadv⟩
  obtain ⟨haf, horigin⟩ :=
    Afloat.run R rfl hn hfloods hdepth hp.isOpen (hp.not_bridge (hn.sound o).disciplined) hord
  subst hm'
  refine ⟨fun j q l hq hstay hne => ?_, ?_, ?_⟩
  · rcases haf.handed_eq j with ⟨v, hv, hid, rfl, hh⟩ | ⟨hx, hh⟩
    · obtain ⟨t, ht⟩ := (haf.handled v hv hid).adv hadv
        ((Attends.run hn hq hord hstay).visit v hv hid rfl) hne rfl
      refine Or.inr ⟨t, ?_⟩
      rw [hh, ht]
      split_ifs with ho
      · have hk : ((m.hub o).peers p).nodeIdx = some k := hp.nodeOf
        rw [horigin v hv hid ho, hk, ho]
      · rw [plainRssi_none v.before (m.hub v.hub)]
    · exact Or.inl ⟨hx, hh q⟩
  · rcases haf.handed_eq o with ⟨v, hv, hid, ho, hh⟩ | ⟨-, hh⟩
    · rw [hh]
      exact (haf.handled v hv hid).adv_sender hadv ho
    · exact hh p
  · exact (hn.joined.run _).dies_out

/-- Three sites in a line. -/
inductive Site
  | west
  | centre
  | east
  deriving DecidableEq

instance : Fintype Site := ⟨{.west, .centre, .east}, fun i => by cases i <;> simp⟩

/-- A hub at each site; each has a node, and those at the ends have a bridge that leads nowhere. -/
def line : Mesh Site where
  hub _ := ringHub
  far
    | .west, 1 => some (.centre, 0)
    | .centre, 0 => some (.west, 1)
    | .centre, 1 => some (.east, 0)
    | .east, 0 => some (.centre, 1)
    | _, _ => none
  flight := []
  next := 0
  visits := []

/-- The node in the west sends a frame, which travels to the east. -/
def lineMoves (f : Frame) : List (Move Site) :=
  [.send .west 2 f.payload Kern.quiet, .deliver 0 Kern.quiet, .deliver 0 Kern.quiet]

theorem line_far {v u : Site} {p q : ℕ} (h : line.far v p = some (u, q)) :
    (v = .west ∧ p = 1 ∧ u = .centre ∧ q = 0) ∨ (v = .centre ∧ p = 0 ∧ u = .west ∧ q = 1) ∨
      (v = .centre ∧ p = 1 ∧ u = .east ∧ q = 0) ∨ (v = .east ∧ p = 0 ∧ u = .centre ∧ q = 1) := by
  simp only [line] at h
  split at h <;> cases h <;> simp

theorem line_forest : Forest line.far where
  symm h := by
    obtain ⟨rfl, rfl, rfl, rfl⟩ | ⟨rfl, rfl, rfl, rfl⟩ | ⟨rfl, rfl, rfl, rfl⟩ | ⟨rfl, rfl, rfl,
        rfl⟩ :=
      line_far h <;> rfl
  irrefl h := by
    obtain ⟨rfl, rfl, rfl, rfl⟩ | ⟨rfl, rfl, rfl, rfl⟩ | ⟨rfl, rfl, rfl, rfl⟩ | ⟨rfl, rfl, rfl,
        rfl⟩ :=
      line_far h <;> decide
  simple h h' := by
    rcases line_far h with h | h | h | h <;> rcases line_far h' with h' | h' | h' | h' <;> simp_all
  acyclic := by
    refine (SimpleGraph.isAcyclic_starGraph Site.centre).anti fun v u hadj => ?_
    rw [SimpleGraph.starGraph_adj]
    obtain ⟨hne, ⟨p, q, hfar⟩ | ⟨p, q, hfar⟩⟩ := hadj <;>
      exact ⟨hne, by rcases line_far hfar with h | h | h | h <;> simp [h]⟩

theorem line_network_of {hub : Site → Hub} (hs : ∀ i, (hub i).Sound)
    (hb : ∀ i, (hub i).OpenBridge 0 ∧ (hub i).OpenBridge 1) : Network { line with hub } := by
  refine ⟨⟨line_forest.symm, fun {i p j q} h => ?_, fun _ h => ?_, fun _ h => ?_, fun _ h => ?_⟩,
    hs⟩
  · obtain ⟨-, rfl, -⟩ | ⟨-, rfl, -⟩ | ⟨-, rfl, -⟩ | ⟨-, rfl, -⟩ := line_far h
    · exact (hb i).2
    · exact (hb i).1
    · exact (hb i).2
    · exact (hb i).1
  all_goals cases h

theorem ringHub_sound : ringHub.Sound := (Sound.init 0).run (by decide) (by decide +kernel)

theorem line_network : line.Network :=
  line_network_of (fun _ => ringHub_sound) fun _ =>
    ⟨⟨by decide +kernel, by decide +kernel, by decide +kernel⟩,
      ⟨by decide +kernel, by decide +kernel, by decide +kernel⟩⟩

theorem line_hops (i j : Site) : ∃ n ≤ 8, Hops line.far n i j := by
  cases i with
  | west =>
    cases j with
    | west => exact ⟨0, by omega, .zero _⟩
    | centre => exact ⟨1, by omega, (Hops.zero Site.west).succ (p := 1) rfl⟩
    | east => exact ⟨2, by omega, ((Hops.zero Site.west).succ (p := 1) rfl).succ (p := 1) rfl⟩
  | centre =>
    cases j with
    | west => exact ⟨1, by omega, (Hops.zero Site.centre).succ (p := 0) rfl⟩
    | centre => exact ⟨0, by omega, .zero _⟩
    | east => exact ⟨1, by omega, (Hops.zero Site.centre).succ (p := 1) rfl⟩
  | east =>
    cases j with
    | west => exact ⟨2, by omega, ((Hops.zero Site.east).succ (p := 0) rfl).succ (p := 0) rfl⟩
    | centre => exact ⟨1, by omega, (Hops.zero Site.east).succ (p := 0) rfl⟩
    | east => exact ⟨0, by omega, .zero _⟩

/-- A frame without an RSSI. -/
def unmeasured : Frame := { bystanderAdv with hdr := { bystanderAdv.hdr with rssi := 0 } }

/-- Every node of the line hears the frame, and the sender does not. -/
theorem adv_exactly_once_line :
    ((line.run (lineMoves bystanderAdv)).flight.length = 0) ∧
      (∃ t rssi, (line.run (lineMoves bystanderAdv)).handed 0 .east 2 =
        [⟨{ (bystanderAdv.withTtl t).hdr with rssi }, bystanderAdv.pdu⟩]) ∧
      (line.run (lineMoves bystanderAdv)).handed 0 .west 2 = [] := by
  have hb : ∀ j, Bound (line.hub j).router 2 0 :=
    fun _ => (show ringHub.Live 2 0 by decide +kernel).bound
  have hempty : (line.run (lineMoves bystanderAdv)).flight.length = 0 := by decide +kernel
  obtain ⟨hnode, hself, -⟩ := adv_exactly_once line_network line_forest line_hops (hb .west)
    (show bystanderAdv.Valid by decide +kernel) rfl
    (line_network.each_orderly (show Each Smooth line (lineMoves bystanderAdv) by decide +kernel)) rfl
  refine ⟨hempty, ?_, hself⟩
  rcases hnode .east 2 0 (hb .east) (by decide +kernel) (by decide) with ⟨⟨x, hx, -⟩, -⟩ | ⟨t, hh⟩
  · exact absurd hempty (List.length_pos_of_mem hx).ne'
  · exact ⟨t, _, hh⟩

/-- A frame that says nothing of its RSSI is handed over with the default one. -/
theorem unmeasured_adv_changed :
    line.Network ∧ Forest line.far ∧ (∀ i j, ∃ n ≤ 8, Hops line.far n i j) ∧
      Bound (line.hub .west).router 2 0 ∧ Bound (line.hub .east).router 2 0 ∧
      unmeasured.Valid ∧ unmeasured.hdr.llType = VBT_LL_ADV ∧
      Each Orderly line (lineMoves unmeasured) ∧
        Each (Stays .east 2 0) line (lineMoves unmeasured) ∧
      (line.run (lineMoves unmeasured)).flight = [] ∧
      ∀ t, (line.run (lineMoves unmeasured)).handed 0 .east 2 ≠ [unmeasured.withTtl t] := by
  have hb : ∀ j, Bound (line.hub j).router 2 0 :=
    fun _ => (show ringHub.Live 2 0 by decide +kernel).bound
  have hsmooth : Each Smooth line (lineMoves unmeasured) := by decide +kernel
  refine ⟨line_network, line_forest, line_hops, hb .west, hb .east, by decide +kernel, rfl,
    line_network.each_orderly hsmooth, by decide +kernel, ?_, fun t ht => ?_⟩
  · exact List.length_eq_zero_iff.1 (by decide +kernel)
  · have hrssi : ((line.run (lineMoves unmeasured)).handed 0 .east 2).map (fun g => g.hdr.rssi) =
        [VBT_DEFAULT_RSSI] := by decide +kernel
    rw [ht] at hrssi
    revert hrssi
    show ¬ [(0 : Int8)] = [VBT_DEFAULT_RSSI]
    decide

end Advertising

end Mesh
end Vbt
