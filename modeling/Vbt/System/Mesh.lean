import Vbt.Hub.Hands
import Vbt.Lib.Measure
import Vbt.Lib.Tree
import Mathlib.Data.Fintype.Basic
import Mathlib.Data.Finset.Lattice.Fold

/-!
# Hubs joined by bridges

A bridge is a TCP connection between two hubs, at each end a peer with `is_bridge`. What a hub
writes to one end arrives, as a message, at the other.

* `Mesh`: the hubs, the bridges and the messages on them; messages are numbered, and `visits` keeps
  what each hub did on account of each of them;
* `Move`, `step`, `run`: a local peer sends, something else happens to a hub, a message of a bridge
  arrives or is lost, in any order;
* `Joined`: the ends of the bridges are open bridges;
* `flooding_terminates`: the messages on the bridges die out, and a local frame does not get further
  than eight bridges.
-/

namespace Vbt

open Hub

variable {ι : Type*}

/-- A message on a bridge, on its way to slot `slot` of hub `dst`. It is a copy of message number
`id` and crosses its `hops`-th bridge. -/
structure Packet (ι : Type*) where
  dst : ι
  slot : ℕ
  id : ℕ
  hops : ℕ
  payload : List UInt8

/-- Message number `id`, which had crossed `hops` bridges, took hub `hub` from one state to
another. -/
structure Visit (ι : Type*) where
  hub : ι
  id : ℕ
  hops : ℕ
  before : Hub
  after : Hub

/-- Hubs and bridges: `far i p = some (j, q)` says that slot `p` of hub `i` and slot `q` of hub `j`
are the ends of one. `flight` holds the messages on the bridges, oldest first, `next` is the next
number, and `visits` is the history, oldest first. -/
structure Mesh (ι : Type*) where
  hub : ι → Hub
  far : ι → ℕ → Option (ι × ℕ)
  flight : List (Packet ι)
  next : ℕ
  visits : List (Visit ι)

namespace Mesh

/-- What can happen. -/
inductive Move (ι : Type*)
  /-- Hub `i` reads a message of peer `p`. -/
  | send (i : ι) (p : ℕ) (payload : List UInt8) (kern : Kern)
  /-- Any other event of hub `i`. -/
  | event (i : ι) (e : Event)
  /-- The `k`-th message on the bridges arrives. -/
  | deliver (k : ℕ) (kern : Kern)
  /-- The `k`-th message on the bridges is lost. -/
  | lose (k : ℕ)

/-- The messages that hub `i` put on the bridges. -/
def emitted (m : Mesh ι) (i : ι) (s : Hub) (id hops : ℕ) : List (Packet ι) :=
  (taken (did (m.hub i) s)).reverse.filterMap fun x =>
    (m.far i x.1).map fun e => ⟨e.1, e.2, id, hops + 1, x.2.payload⟩

section Step

variable [DecidableEq ι] (m : Mesh ι)

/-- Slot `q` of hub `j` was closed when hub `i` went to state `s`. -/
def gone (i : ι) (s : Hub) (j : ι) (q : ℕ) : Bool :=
  decide (j = i) && decide (Act.closed q ∈ did (m.hub i) s)

/-- Hub `i` goes to state `s` on account of message `id`. A bridge an end of which was closed is no
more, and what was on its way to that end is lost. -/
def advance (i : ι) (s : Hub) (id hops : ℕ) : Mesh ι where
  hub := Function.update m.hub i s
  far j q := (m.far j q).filter fun e => !(m.gone i s j q || m.gone i s e.1 e.2)
  flight := (m.flight ++ m.emitted i s id hops).filter fun x => !m.gone i s x.dst x.slot
  next := m.next
  visits := m.visits ++ [⟨i, id, hops, m.hub i, s⟩]

/-- The effect of a move. -/
def step : Move ι → Mesh ι
  | .send i p payload kern =>
    if ((m.hub i).peers p).isOpen then
      { m with next := m.next + 1 }.advance i ((m.hub i).receive kern p payload) m.next 0
    else { m with next := m.next + 1 }
  | .event i e => { m with next := m.next + 1 }.advance i ((m.hub i).step e) m.next 0
  | .deliver k kern =>
    match m.flight[k]? with
    | none => m
    | some x =>
      { m with flight := m.flight.eraseIdx k }.advance x.dst
        ((m.hub x.dst).receive kern x.slot x.payload) x.id x.hops
  | .lose k => { m with flight := m.flight.eraseIdx k }

/-- The network after a list of moves. -/
def run (mvs : List (Move ι)) : Mesh ι := mvs.foldl step m

@[simp] theorem run_nil : m.run [] = m := rfl

@[simp] theorem run_cons (mv : Move ι) (mvs : List (Move ι)) :
    m.run (mv :: mvs) = (m.step mv).run mvs := rfl

/-- The network after `n` moves of an unending schedule. -/
def after (sched : ℕ → Move ι) : ℕ → Mesh ι
  | 0 => m
  | n + 1 => (after sched n).step (sched n)

/-- The move takes a message off the bridges. -/
def Takes : Move ι → Prop
  | .deliver k _ | .lose k => k < m.flight.length
  | .send _ _ _ _ | .event _ _ => False

end Step

section Basics

variable [DecidableEq ι]

theorem next_le_step (m : Mesh ι) (mv : Move ι) : m.next ≤ (m.step mv).next := by
  cases mv with
  | send i p payload kern =>
    simp only [step]
    split_ifs
    · exact Nat.le_succ _
    · exact Nat.le_succ _
  | event i e => exact Nat.le_succ _
  | deliver k kern =>
    simp only [step]
    split <;> exact le_refl _
  | lose k => exact le_refl _

theorem next_lt_send (m : Mesh ι) (i : ι) (p : ℕ) (payload : List UInt8) (kern : Kern) :
    m.next < (m.step (.send i p payload kern)).next := by
  simp only [step]
  split_ifs <;> exact Nat.lt_succ_self _

end Basics

/-- Every bridge has two ends, which are open bridges of their hubs, and every message on the way
goes to an open bridge. The hubs' tables are otherwise arbitrary. -/
structure Joined (m : Mesh ι) : Prop where
  symm : ∀ {i p j q}, m.far i p = some (j, q) → m.far j q = some (i, p)
  bridge : ∀ {i p j q}, m.far i p = some (j, q) → (m.hub i).OpenBridge p
  packet : ∀ x ∈ m.flight, (m.hub x.dst).OpenBridge x.slot
  flight_lt : ∀ x ∈ m.flight, x.id < m.next
  visits_lt : ∀ v ∈ m.visits, v.id < m.next

/-! ### Bridges stay bridges -/

section Joined

variable {m : Mesh ι} {i : ι} {s : Hub} {id hops : ℕ}

theorem mem_emitted {x : Packet ι} (hx : x ∈ m.emitted i s id hops) :
    x.id = id ∧ x.hops = hops + 1 ∧ ∃ q f, m.far i q = some (x.dst, x.slot) ∧
      (q, f) ∈ hands (did (m.hub i) s) ∧ x.payload = f.payload := by
  obtain ⟨⟨q, f⟩, hq, hx⟩ := List.mem_filterMap.1 hx
  obtain ⟨e, he, rfl⟩ := Option.map_eq_some_iff.1 hx
  refine ⟨rfl, rfl, q, f, he, ?_, rfl⟩
  have := (taken_sublist _).subset (List.mem_reverse.1 hq)
  rwa [List.mem_reverse] at this

theorem Joined.number (h : m.Joined) : Joined { m with next := m.next + 1 } where
  symm := h.symm
  bridge := h.bridge
  packet := h.packet
  flight_lt x hx := Nat.lt_succ_of_lt (h.flight_lt x hx)
  visits_lt v hv := Nat.lt_succ_of_lt (h.visits_lt v hv)

theorem Joined.erase (h : m.Joined) (k : ℕ) : Joined { m with flight := m.flight.eraseIdx k } where
  symm := h.symm
  bridge := h.bridge
  packet x hx := h.packet x (List.mem_of_mem_eraseIdx hx)
  flight_lt x hx := h.flight_lt x (List.mem_of_mem_eraseIdx hx)
  visits_lt := h.visits_lt

variable [DecidableEq ι]

theorem far_advance {j k : ι} {p q : ℕ} (h : (m.advance i s id hops).far j p = some (k, q)) :
    m.far j p = some (k, q) ∧ m.gone i s j p = false ∧ m.gone i s k q = false := by
  obtain ⟨hfar, hgone⟩ := Option.filter_eq_some_iff.1 h
  exact ⟨hfar, by simpa using hgone⟩

theorem mem_flight_advance {x : Packet ι} (hx : x ∈ (m.advance i s id hops).flight) :
    (x ∈ m.flight ∨ x ∈ m.emitted i s id hops) ∧ m.gone i s x.dst x.slot = false := by
  obtain ⟨hmem, hgone⟩ := List.mem_filter.1 hx
  exact ⟨List.mem_append.1 hmem, by simpa using hgone⟩

theorem openBridge_advance {j : ι} {p : ℕ} (hs : Persists (m.hub i) s) (h : (m.hub j).OpenBridge p)
    (hgone : m.gone i s j p = false) : ((m.advance i s id hops).hub j).OpenBridge p := by
  by_cases hji : j = i
  · subst hji
    have hc : Act.closed p ∉ did (m.hub j) s := by simpa [gone] using hgone
    have hhub : (m.advance j s id hops).hub j = s := Function.update_self ..
    rw [hhub]
    exact hs.openBridge h hc
  · have hhub : (m.advance i s id hops).hub j = m.hub j := Function.update_of_ne hji ..
    rw [hhub]
    exact h

theorem Joined.advance (h : m.Joined) (hs : Persists (m.hub i) s) (hid : id < m.next) :
    (m.advance i s id hops).Joined where
  symm hjp := by
    obtain ⟨hfar, hj, hk⟩ := far_advance hjp
    exact Option.filter_eq_some_iff.2 ⟨h.symm hfar, by simp [hj, hk]⟩
  bridge hjp := by
    obtain ⟨hfar, hj, -⟩ := far_advance hjp
    exact openBridge_advance hs (h.bridge hfar) hj
  packet x hx := by
    obtain ⟨hmem, hgone⟩ := mem_flight_advance hx
    rcases hmem with hold | hnew
    · exact openBridge_advance hs (h.packet x hold) hgone
    · obtain ⟨-, -, q, f, hfar, -, -⟩ := mem_emitted hnew
      exact openBridge_advance hs (h.bridge (h.symm hfar)) hgone
  flight_lt x hx := by
    rcases (mem_flight_advance hx).1 with hold | hnew
    · exact h.flight_lt x hold
    · exact (mem_emitted hnew).1 ▸ hid
  visits_lt v hv := by
    rcases List.mem_append.1 hv with hold | hnew
    · exact h.visits_lt v hold
    · rw [List.mem_singleton.1 hnew]
      exact hid

theorem Joined.step (h : m.Joined) (mv : Move ι) : (m.step mv).Joined := by
  cases mv with
  | send i p payload kern =>
    simp only [Mesh.step]
    split_ifs
    · exact h.number.advance (receive_persists _ kern p payload) (Nat.lt_succ_self _)
    · exact h.number
  | event i e => exact h.number.advance (step_persists _ e) (Nat.lt_succ_self _)
  | deliver k kern =>
    simp only [Mesh.step]
    split
    · exact h
    · rename_i x hx
      exact (h.erase k).advance (receive_persists _ kern x.slot x.payload)
        (h.flight_lt x (List.mem_of_getElem? hx))
  | lose k => exact h.erase k

theorem Joined.run (h : m.Joined) (mvs : List (Move ι)) : (m.run mvs).Joined := by
  induction mvs generalizing m with
  | nil => exact h
  | cons mv mvs ih => exact ih (h.step mv)

end Joined

/-! ### Messages on the bridges die out -/

section Dying

variable {m : Mesh ι} {i : ι} {s : Hub} {id hops b : ℕ}

/-- The weight of the messages on the bridges. -/
def burden (b : ℕ) (m : Mesh ι) : ℕ := weight b (fun x => ttlOf x.payload) m.flight

theorem length_emitted_le : (m.emitted i s id hops).length ≤ (hands (did (m.hub i) s)).length := by
  refine (List.length_filterMap_le _ _).trans ?_
  have := (taken_sublist (did (m.hub i) s)).length_le
  simpa using this

/-- What a bridge's message gives rise to weighs less than the message. -/
theorem weight_emitted_lt {p : ℕ} (hp : (m.hub i).OpenBridge p)
    (hb : 2 * (m.hub i).peers.size + 1 < b) (kern : Kern) (payload : List UInt8) (id hops : ℕ) :
    weight b (fun x => ttlOf x.payload) (m.emitted i ((m.hub i).receive kern p payload) id hops) <
      b ^ ttlOf payload := by
  have hrel : Relays (2 * (m.hub i).peers.size + 1) (fun g => ttlOf g.payload < ttlOf payload)
      (m.hub i) ((m.hub i).receive kern p payload) := receive_bridge hp.isBridge
  generalize (m.hub i).receive kern p payload = s at hrel
  obtain ⟨hlen, httl⟩ := hrel.did
  have hlen' : (m.emitted i s id hops).length < b := (length_emitted_le.trans hlen).trans_lt hb
  refine weight_lt_pow hlen' fun x hx => ?_
  obtain ⟨-, -, q, f, -, hf, hpay⟩ := mem_emitted hx
  rw [hpay]
  exact httl (q, f) hf

variable [DecidableEq ι]

theorem burden_advance_le : (m.advance i s id hops).burden b ≤
    m.burden b + weight b (fun x => ttlOf x.payload) (m.emitted i s id hops) :=
  (weight_filter_le _ _).trans (weight_append _ _).le

/-- **A message taken off the bridges makes the rest lighter.** -/
theorem burden_step_lt (hm : m.Joined) (hb : ∀ i, 2 * (m.hub i).peers.size + 1 < b)
    {mv : Move ι} (ht : m.Takes mv) : (m.step mv).burden b < m.burden b := by
  have herase : ∀ {k x}, m.flight[k]? = some x → m.burden b =
      b ^ ttlOf x.payload + burden b { m with flight := m.flight.eraseIdx k } := weight_eraseIdx
  cases mv with
  | send | event => exact ht.elim
  | deliver k kern =>
    obtain ⟨x, hx⟩ : ∃ x, m.flight[k]? = some x := ⟨_, List.getElem?_eq_getElem ht⟩
    have hp := hm.packet x (List.mem_of_getElem? hx)
    have hnew := weight_emitted_lt (m := { m with flight := m.flight.eraseIdx k }) hp (hb x.dst) kern
      x.payload x.id x.hops
    simp only [Mesh.step, hx]
    refine burden_advance_le.trans_lt ?_
    rw [herase hx, Nat.add_comm]
    exact Nat.add_lt_add_right hnew _
  | lose k =>
    obtain ⟨x, hx⟩ : ∃ x, m.flight[k]? = some x := ⟨_, List.getElem?_eq_getElem ht⟩
    have hpos : 0 < b ^ ttlOf x.payload := Nat.pow_pos ((Nat.zero_le _).trans_lt (hb x.dst))
    rw [herase hx]
    exact Nat.lt_add_of_pos_left hpos

theorem size_step {mv : Move ι} (ht : m.Takes mv) (j : ι) :
    ((m.step mv).hub j).peers.size = (m.hub j).peers.size := by
  cases mv with
  | send | event => exact ht.elim
  | deliver k kern =>
    obtain ⟨x, hx⟩ : ∃ x, m.flight[k]? = some x := ⟨_, List.getElem?_eq_getElem ht⟩
    simp only [Mesh.step, hx]
    by_cases hj : j = x.dst
    · subst hj
      simp only [advance, Function.update_self]
      exact receive_size _ kern x.slot x.payload
    · simp only [advance, Function.update_of_ne hj]
  | lose k => rfl

/-- However the messages are taken off the bridges, there are none left after a number of moves that
depends on the network only. -/
theorem exists_flight_eq_nil (hm : m.Joined) (hb : ∀ i, 2 * (m.hub i).peers.size + 1 < b)
    {sched : ℕ → Move ι}
    (hsched : ∀ n, (m.after sched n).flight ≠ [] → (m.after sched n).Takes (sched n)) :
    ∃ n ≤ m.burden b, (m.after sched n).flight = [] := by
  refine exists_done_of_decreasing (x := m.after sched) (f := burden b)
    (I := fun m => m.Joined ∧ ∀ i, 2 * (m.hub i).peers.size + 1 < b)
    (D := fun m => m.flight = []) ⟨hm, hb⟩ ?_
  rintro n ⟨hj, hs⟩ hne
  have ht := hsched n hne
  refine ⟨⟨hj.step _, fun i => ?_⟩, burden_step_lt hj hs ht⟩
  rw [after, size_step ht]
  exact hs i

theorem Joined.dies_out [Fintype ι] (hm : m.Joined) : ∃ N, ∀ sched : ℕ → Move ι,
    (∀ n, (m.after sched n).flight ≠ [] → (m.after sched n).Takes (sched n)) →
      ∃ n ≤ N, (m.after sched n).flight = [] := by
  obtain ⟨b, hb⟩ : ∃ b, ∀ i, 2 * (m.hub i).peers.size + 1 < b := by
    refine ⟨Finset.univ.sup (fun i => 2 * (m.hub i).peers.size + 1) + 1, fun i => ?_⟩
    exact Nat.lt_succ_of_le
      (Finset.le_sup (f := fun i => 2 * (m.hub i).peers.size + 1) (Finset.mem_univ i))
  exact ⟨m.burden b, fun sched hsched => exists_flight_eq_nil hm hb hsched⟩

end Dying

/-! ### How far a local frame gets -/

/-- What is known in `m'` of the copies of message `id`, which entered `m` at hub `o`. -/
structure Spread (m : Mesh ι) (o : ι) (id : ℕ) (m' : Mesh ι) : Prop where
  far : ∀ {i p j q}, m'.far i p = some (j, q) → m.far i p = some (j, q)
  packet : ∀ x ∈ m'.flight, x.id = id → Hops m.far x.hops o x.dst ∧ ttlOf x.payload + x.hops ≤ 9
  visit : ∀ v ∈ m'.visits, v.id = id → Hops m.far v.hops o v.hub ∧
    (hands (did v.before v.after) ≠ [] → v.hops ≤ 8)

namespace Spread

variable [DecidableEq ι] {m m' : Mesh ι} {o i : ι} {s : Hub} {id hops : ℕ}

theorem advance {d : ℕ} (h : Spread m o id m') (hnew : d = id → Hops m.far hops o i ∧
      ∀ x ∈ hands (did (m'.hub i) s), ttlOf x.2.payload + hops ≤ 8) :
    Spread m o id (m'.advance i s d hops) where
  far hjp := h.far (far_advance hjp).1
  packet x hx hid := by
    rcases (mem_flight_advance hx).1 with hold | hemit
    · exact h.packet x hold hid
    · obtain ⟨hd, hhops, q, f, hfar, hf, hpay⟩ := mem_emitted hemit
      obtain ⟨hreach, httl⟩ := hnew (hd ▸ hid)
      rw [hhops, hpay]
      exact ⟨hreach.succ (h.far hfar), Nat.succ_le_succ (httl (q, f) hf)⟩
  visit v hv hid := by
    rcases List.mem_append.1 hv with hold | hlast
    · exact h.visit v hold hid
    · rw [List.mem_singleton.1 hlast] at hid ⊢
      obtain ⟨hreach, httl⟩ := hnew hid
      refine ⟨hreach, fun hne => ?_⟩
      obtain ⟨x, hx⟩ := List.exists_mem_of_ne_nil _ hne
      exact (Nat.le_add_left _ _).trans (httl x hx)

theorem send (hm : m.Joined) {p : ℕ} (hloc : ((m.hub o).peers p).isBridge = false)
    (payload : List UInt8) (kern : Kern) : Spread m o m.next (m.step (.send o p payload kern)) := by
  have hnum : Spread m o m.next { m with next := m.next + 1 } :=
    ⟨fun hjp => hjp, fun x hx hc => absurd hc (hm.flight_lt x hx).ne,
      fun v hv hc => absurd hc (hm.visits_lt v hv).ne⟩
  simp only [Mesh.step]
  split_ifs
  · refine hnum.advance fun _ => ⟨.zero o, fun x hx => ?_⟩
    have hrel : Relays _ (fun g => ttlOf g.payload ≤ 8) (m.hub o)
      ((m.hub o).receive kern p payload) := receive_local hloc
    have hle : ttlOf x.2.payload ≤ 8 := hrel.did.2 x hx
    omega
  · exact hnum

theorem step (h : Spread m o id m') (hj : m'.Joined) (hid : id < m'.next) (mv : Move ι) :
    Spread m o id (m'.step mv) := by
  have hnum : Spread m o id { m' with next := m'.next + 1 } := ⟨h.far, h.packet, h.visit⟩
  have herase : ∀ k, Spread m o id { m' with flight := m'.flight.eraseIdx k } := fun k =>
    ⟨h.far, fun x hx => h.packet x (List.mem_of_mem_eraseIdx hx), h.visit⟩
  cases mv with
  | send i p payload kern =>
    simp only [Mesh.step]
    split_ifs
    · exact hnum.advance fun hc => absurd hc hid.ne'
    · exact hnum
  | event i e => exact hnum.advance fun hc => absurd hc hid.ne'
  | deliver k kern =>
    simp only [Mesh.step]
    split
    · exact h
    · rename_i x hx
      have hmem := List.mem_of_getElem? hx
      refine (herase k).advance fun hd => ?_
      obtain ⟨hreach, hle⟩ := h.packet x hmem hd
      refine ⟨hreach, fun y hy => ?_⟩
      have hrel : Relays _ (fun g => ttlOf g.payload < ttlOf x.payload) (m'.hub x.dst)
          ((m'.hub x.dst).receive kern x.slot x.payload) :=
            receive_bridge (hj.packet x hmem).isBridge
      have hlt : ttlOf y.2.payload < ttlOf x.payload := hrel.did.2 y hy
      omega
  | lose k => exact herase k

theorem run (h : Spread m o id m') (hj : m'.Joined) (hid : id < m'.next) (mvs : List (Move ι)) :
    Spread m o id (m'.run mvs) := by
  induction mvs generalizing m' with
  | nil => exact h
  | cons mv mvs ih => exact ih (h.step hj hid mv) (hj.step mv) (hid.trans_le (next_le_step m' mv))

end Spread

/-- **Flooding between hubs terminates, and a local frame crosses at most eight bridges.** For any
hubs, any bridges between them and any messages on the bridges: if only messages of the bridges
arrive or are lost, in whatever order, there are none left after finitely many moves. And a hub that
hands over, to anyone, a message that a peer which is no bridge sent to hub `o` is at most eight
bridges away from `o`, whatever else happens in the network. -/
theorem flooding_terminates [Fintype ι] [DecidableEq ι] {m : Mesh ι} (hm : m.Joined) :
    (∃ N, ∀ sched : ℕ → Move ι,
      (∀ n, (m.after sched n).flight ≠ [] → (m.after sched n).Takes (sched n)) →
        ∃ n ≤ N, (m.after sched n).flight = []) ∧
    ∀ o p payload kern, ((m.hub o).peers p).isBridge = false → ∀ mvs : List (Move ι),
      ∀ v ∈ ((m.step (.send o p payload kern)).run mvs).visits, v.id = m.next →
        hands (did v.before v.after) ≠ [] → ∃ n ≤ 8, Hops m.far n o v.hub := by
  constructor
  · exact hm.dies_out
  · intro o p payload kern hloc mvs v hv hid hne
    have hspread := (Spread.send hm hloc payload kern).run (hm.step _) (next_lt_send m o p payload kern) mvs
    obtain ⟨hreach, hle⟩ := hspread.visit v hv hid
    exact ⟨v.hops, hle hne, hreach⟩

/-- Two bridges and a node. -/
def ringHub : Hub :=
  (Hub.init 0).run
    ([.accept 5 true, .accept 6 true, .accept 7 false] ++ sends 2 (helloPayload [0x41] 0))

/-- Two such hubs that are joined by two bridges, with a frame of the largest TTL on one of them. -/
def ring : Mesh Bool where
  hub _ := ringHub
  far i p := if p < 2 then some (!i, p) else none
  flight := [⟨true, 0, 0, 1, Frame.payload
    { bystanderAdv with hdr := { bystanderAdv.hdr with flags := ⟨0, 0, 0, 255⟩ } }⟩]
  next := 1
  visits := []

/-- The frames that go round the two hubs die out, and so does what the node of the first hub
sends. -/
theorem flooding_terminates_ring :
    (∃ N, ∀ sched : ℕ → Move Bool,
      (∀ n, (ring.after sched n).flight ≠ [] → (ring.after sched n).Takes (sched n)) →
        ∃ n ≤ N, (ring.after sched n).flight = []) ∧
    (ring.step (.send false 2 bystanderAdv.payload Kern.quiet)).flight.length = 3 ∧
    ∀ mvs, ∀ v ∈ ((ring.step (.send false 2 bystanderAdv.payload Kern.quiet)).run mvs).visits,
      v.id = 1 → hands (did v.before v.after) ≠ [] → ∃ n ≤ 8, Hops ring.far n false v.hub := by
  have hends : ∀ p < 2, ringHub.OpenBridge p := by
    intro p hp
    have h2 : p = 0 ∨ p = 1 := by omega
    rcases h2 with rfl | rfl <;> exact ⟨by decide +kernel, by decide +kernel, by decide +kernel⟩
  have hjoined : ring.Joined := by
    refine ⟨fun {i p j q} h => ?_, fun {i p j q} h => ?_, ?_, ?_, ?_⟩
    · simp only [ring] at h ⊢
      split_ifs at h with hp
      cases h
      rw [if_pos hp, Bool.not_not]
    · simp only [ring] at h ⊢
      split_ifs at h with hp
      exact hends p hp
    · intro x hx
      rw [List.mem_singleton.1 hx]
      exact hends 0 (by decide)
    · decide
    · decide
  obtain ⟨hfin, hreach⟩ := flooding_terminates hjoined
  exact ⟨hfin, by decide +kernel, hreach false 2 _ _ (by decide +kernel)⟩

end Mesh
end Vbt
