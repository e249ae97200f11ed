import Vbt.System.Agreement
import Vbt.System.Refine

/-!
# What the cores see of a run over the hub

The state of the medium without a hub is read off the state with one, and so is each of its moves.
What holds of two cores that are directly given what the other one sends therefore holds over the
hub.

* `Net.underway`, `Net.cross`: what is on its way to a core, wherever it is;
* `Net.visible`, `Net.trace`: the moves of a run that the cores see;
* `Corresponds.cross_run`: the two systems run side by side;
* `connections_over_hub`: the two ends of a connection over the hub.
-/

namespace Vbt

open VbtLl

namespace Net

variable {n : Net}

/-- The number of frames that core `x` has taken. -/
def taken (n : Net) (x : Side) : ℕ := (n.handed x).length - (n.inbox x).length

/-- What is under way to core `x`: what the other one has sent and it has not taken. -/
def underway (n : Net) (x : Side) : List Frame := (n.core x.other).frames.drop (n.taken x)

/-- The two cores, and what is under way between them. -/
def cross (n : Net) : Cross := ⟨n.core, n.underway⟩

/-- What the cores see of a move. -/
def visible (n : Net) : Move → List Cross.Move
  | .host x pkt len => [.host x pkt len]
  | .tick x nowMs => [.tick x nowMs]
  | .deliver x junk => if n.inbox x = [] then [] else [.deliver x junk]
  | .read _ _ | .message _ _ | .flush _ _ => []

/-- What the cores see of a run. -/
def trace (n : Net) : List Move → List Cross.Move
  | [] => []
  | m :: ms => n.visible m ++ (n.step m).trace ms

/-- An event of the hub is invisible: it moves frames from the wire to the inboxes. -/
theorem cross_event (ht : Hub.Tracked n.hub) (hin : ∀ x, n.inbox x <:+ n.handed x) (e : Hub.Event)
    (sock : Side → List UInt8) : ({ n.event e with sock } : Net).cross = n.cross := by
  have htaken : ∀ x, ({ n.event e with sock } : Net).taken x = n.taken x := fun x => by
    have hhanded := handed_event e (Hub.step_continues ht e).suffix x
    have hle := (hin x).length_le
    show ((n.event e).handed x).length - (n.inbox x ++ _).length = _
    rw [hhanded, List.length_append, List.length_append, taken]
    omega
  show (⟨n.core, fun x => (n.core x.other).frames.drop _⟩ : Cross) = ⟨n.core, _⟩
  simp only [htaken]
  rfl

/-- A call happens on both sides. -/
theorem cross_call {x : Side} (hr : Reached (n.core x))
    (hle : n.taken x.other ≤ (n.core x).frames.length) (i : Input) :
    (n.call x i).cross = n.cross.call x i := by
  obtain ⟨new, hnew⟩ := hr.frames_step i
  have hsends : sends (n.core x) i = new := by
    rw [sends, ← hnew, List.drop_left]
  have hqueue : (n.call x i).underway = Function.update n.underway x.other
      (n.underway x.other ++ sends (n.core x) i) := by
    funext y
    rcases x.eq_or y with rfl | rfl
    · rw [Function.update_of_ne y.other_ne.symm]
      show ((Function.update n.core y _) y.other).frames.drop (n.taken y) = _
      rw [Function.update_of_ne y.other_ne]
      rfl
    · rw [Function.update_self]
      show ((Function.update n.core x _) x.other.other).frames.drop (n.taken x.other) = _
      rw [Side.other_other, Function.update_self, hsends, ← hnew, List.drop_append_of_le_length hle]
      show _ = (n.core x.other.other).frames.drop (n.taken x.other) ++ new
      rw [Side.other_other]
  show (⟨_, _⟩ : Cross) = ⟨_, _⟩
  rw [hqueue]
  rfl

end Net

namespace Inv

variable {node : Side → ℕ} {n : Net} {handled pending : Side → List Frame}
  (h : Inv node n handled pending)
include h

/-- What is under way is in the inbox or on the wire. -/
theorem view_underway (x : Side) : (n.underway x).map Frame.view =
    (n.inbox x).map Frame.view ++ (pending x.other).map Frame.view := by
  obtain ⟨old, hold⟩ := h.inbox x
  have htaken : n.taken x = (old.map Frame.view).length := by
    rw [Net.taken, ← hold, List.length_append, List.length_map, Nat.add_sub_cancel]
  have hhanded := h.handed x.other
  rw [Side.other_other, ← hold] at hhanded
  rw [Net.underway, List.map_drop, h.frames, List.map_append, ← hhanded, List.map_append,
    List.append_assoc, htaken, List.drop_left]

theorem taken_le (x : Side) : n.taken x.other ≤ (n.core x).frames.length := by
  have hlen := congrArg List.length (h.handed x)
  rw [List.length_map, List.length_map] at hlen
  rw [h.frames, List.length_append, Net.taken]
  omega

/-- Taking a frame happens on both sides. -/
theorem cross_deliver {x : Side} {f : Frame} {rest : List Frame} (hin : n.inbox x = f :: rest)
    (junk : Mem) :
    ({ n.call x (fromMedium junk f) with inbox := Function.update n.inbox x rest } : Net).cross =
      n.cross.step (.deliver x junk) := by
  have hview := h.view_underway x
  rw [hin, List.map_cons, List.cons_append] at hview
  obtain ⟨g, tail, hq, hv, -⟩ := List.map_eq_cons_iff.1 hview
  have hcall := Net.cross_call (h.reached x) (h.taken_le x) (fromMedium junk f)
  have hsame : n.cross.call x (fromMedium junk f) = n.cross.call x (fromMedium junk g) := by
    simp only [Cross.call, Net.sends, step_of_view hv]
  have hstep : n.cross.step (.deliver x junk) =
      ⟨(n.cross.call x (fromMedium junk g)).core, Function.update
        (n.cross.call x (fromMedium junk g)).queue x tail⟩ := by
    have hq' : n.cross.queue x = g :: tail := hq
    simp only [Cross.step, hq', Cross.call, Function.update_comm x.other_ne,
      Function.update_of_ne x.other_ne]
  rw [hstep, ← hsame, ← hcall]
  show (⟨_, _⟩ : Cross) = ⟨_, _⟩
  congr 1
  funext y
  by_cases hy : y = x
  · -- the frame counts as taken
    subst hy
    have hle := (h.inbox y).length_le
    have hdrop : (n.core y.other).frames.drop ((n.handed y).length - (n.inbox y).length) =
        g :: tail := hq
    rw [hin, List.length_cons] at hle hdrop
    rw [Function.update_self]
    show (Function.update n.core y _ y.other).frames.drop
      ((n.handed y).length - (Function.update n.inbox y rest y).length) = tail
    rw [Function.update_of_ne y.other_ne, Function.update_self, show (n.handed y).length -
      rest.length = (n.handed y).length - (rest.length + 1) + 1 by omega, ← List.drop_drop, hdrop]
    rfl
  · rw [Function.update_of_ne hy]
    show (Function.update n.core x _ y.other).frames.drop
      ((n.handed y).length - (Function.update n.inbox x rest y).length) = _
    rw [Function.update_of_ne hy]
    rfl

/-- **Every move is what the cores see of it.** -/
theorem cross_step (m : Net.Move) : (n.step m).cross = n.cross.run (n.visible m) := by
  have hevent := Net.cross_event h.tracked h.inbox
  cases m with
  | host x pkt len => exact Net.cross_call (h.reached x) (h.taken_le x) _
  | tick x nowMs => exact Net.cross_call (h.reached x) (h.taken_le x) _
  | read x k =>
    simp only [Net.step]
    split_ifs
    · rfl
    · exact hevent _ _
  | message x kern => exact hevent _ _
  | flush x kern => exact hevent _ _
  | deliver x junk =>
    cases hin : n.inbox x with
    | nil =>
      simp only [Net.step, Net.visible, hin]
      rfl
    | cons f rest =>
      simp only [Net.step, Net.visible, hin]
      exact h.cross_deliver hin junk

end Inv

/-- **Every run is what the cores see of it.** -/
theorem Corresponds.cross_run {node : Side → ℕ} {c₀ : Cross} {n : Net} (h : Corresponds node c₀ n)
    (ms : List Net.Move) (hadm : (n.run ms).Admissible)
    (hz : ∀ x, BdAddr.zero ∉ (n.run ms).sources x) :
    (n.run ms).cross = n.cross.run (n.trace ms) := by
  induction ms generalizing n with
  | nil => rfl
  | cons m ms ih =>
    obtain ⟨handled, pending, ms', hinv, hsim⟩ := h
    obtain ⟨ht, hr⟩ := Net.tracked_step hinv.tracked hinv.reached m
    obtain ⟨hlog, hframes⟩ := Net.run_le ht hr ms
    have hnow := hinv.corresponds_step hsim m (hadm.of_le hlog hframes) fun x hc =>
      hz x (Net.sources_mono (hframes x) hc)
    show ((n.step m).run ms).cross = n.cross.run (n.visible m ++ (n.step m).trace ms)
    rw [Cross.run_append, ← hinv.cross_step]
    exact ih hnow hadm hz

theorem Net.cross_start (hub : Hub) (peer : Side → ℕ) (addr : Side → BdAddr) :
    (Net.start hub peer addr).cross = Cross.start addr := by
  have hqueue : (Net.start hub peer addr).underway = fun _ => [] := funext fun _ => List.drop_nil
  show (⟨_, _⟩ : Cross) = ⟨_, _⟩
  rw [hqueue]
  rfl

end Vbt
