import Mathlib.Data.BitVec
import Mathlib.Tactic

/-!
# A ring buffer with free-running counters

The counters of the ring are never reduced to its capacity: a counter counts modulo `2 ^ w` and is
reduced only where a cell is looked up. If the capacity divides `2 ^ w`, consecutive counters have
consecutive cells across the wrap of the counter too, and the difference of the counters is the
number of entries.

* `RingBuffer`, `put`, `front`, `drop`, `clear`; `used`: the difference of the counters;
* `contents`: the entries, oldest first;
* `contents_put`, `contents_of_ne`: the ring is a queue;
* `drain`, `contents_drain`: entries leave the ring as long as there are takers.
-/

/-- A ring of `cap` cells with counters of `w` bits. -/
structure RingBuffer (α : Type) (w cap : ℕ) where
  cells : ℕ → α
  head : BitVec w
  tail : BitVec w

namespace RingBuffer

variable {α β : Type} {w cap : ℕ}

section Operations

variable (r : RingBuffer α w cap)

/-- The number of entries. -/
def used : ℕ := (r.tail - r.head).toNat

/-- An entry is added. -/
def put (a : α) : RingBuffer α w cap :=
  { r with cells := Function.update r.cells (r.tail.toNat % cap) a, tail := r.tail + 1 }

/-- The oldest entry. -/
def front : α := r.cells (r.head.toNat % cap)

/-- The oldest entry is removed. Its cell is left as it is. -/
def drop : RingBuffer α w cap := { r with head := r.head + 1 }

/-- The counters are set back. -/
def clear : RingBuffer α w cap := { r with head := 0, tail := 0 }

/-- The entries, oldest first. -/
def contents : List α := (List.range r.used).map fun i => r.cells ((r.head.toNat + i) % cap)

/-- The oldest entries are given to the takers, as far as there are entries. -/
def drain : List β → RingBuffer α w cap → List (β × α) × RingBuffer α w cap
  | [], r => ([], r)
  | b :: bs, r =>
    if r.head = r.tail then ([], r)
    else ((b, r.front) :: (drain bs r.drop).1, (drain bs r.drop).2)

end Operations

variable {r : RingBuffer α w cap}

@[simp] theorem length_contents (r : RingBuffer α w cap) : r.contents.length = r.used := by
  simp [contents]

/-! ### Counters -/

theorem toNat_one (h : 1 < 2 ^ w) : (1 : BitVec w).toNat = 1 := by
  show 1 % 2 ^ w = 1
  exact Nat.mod_eq_of_lt h

theorem used_eq_zero : r.used = 0 ↔ r.head = r.tail := by
  have hzero : r.used = 0 ↔ r.tail - r.head = 0 :=
    ⟨fun h => BitVec.eq_of_toNat_eq (by simpa [used] using h), fun h => by simp [used, h]⟩
  rw [hzero, sub_eq_zero]
  exact eq_comm

theorem used_clear (r : RingBuffer α w cap) : r.clear.used = 0 := used_eq_zero.2 rfl

theorem used_put (a : α) (h : r.used + 1 < 2 ^ w) : (r.put a).used = r.used + 1 := by
  have hsub : r.tail + 1 - r.head = r.tail - r.head + 1 := by ring
  rw [used, put, hsub, BitVec.toNat_add, toNat_one (by omega)]
  exact Nat.mod_eq_of_lt h

theorem used_drop (h : r.head ≠ r.tail) : r.drop.used + 1 = r.used := by
  have hpos : r.used ≠ 0 := fun h0 => h (used_eq_zero.1 h0)
  have hlt : r.used < 2 ^ w := (r.tail - r.head).isLt
  have hsub : r.tail - r.head = r.tail - (r.head + 1) + 1 := by ring
  have hmod : r.used = (r.drop.used + 1) % 2 ^ w := by
    rw [used, hsub, BitVec.toNat_add, toNat_one (by omega)]
    rfl
  -- the sum does not wrap, for then nothing would be left
  have hdrop : r.drop.used < 2 ^ w := (r.tail - (r.head + 1)).isLt
  rcases Nat.lt_or_ge (r.drop.used + 1) (2 ^ w) with hl | hl
  · rw [hmod, Nat.mod_eq_of_lt hl]
  · rw [show r.drop.used + 1 = 2 ^ w by omega, Nat.mod_self] at hmod
    exact absurd hmod hpos

section Cells

variable (hdvd : cap ∣ 2 ^ w)
include hdvd

/-- The cell of a counter that has moved on, whether or not it has wrapped. -/
theorem toNat_add_mod (c d : BitVec w) : (c + d).toNat % cap = (c.toNat + d.toNat) % cap := by
  rw [BitVec.toNat_add, Nat.mod_mod_of_dvd _ hdvd]

theorem tail_mod (r : RingBuffer α w cap) : r.tail.toNat % cap = (r.head.toNat + r.used) % cap := by
  have htail : r.tail = r.head + (r.tail - r.head) := by ring
  rw [htail, toNat_add_mod hdvd]
  rfl

/-! ### The ring as a queue -/

/-- **An entry is added behind the others**, if there is a cell for it. -/
theorem contents_put (a : α) (hlt : r.used < cap) (hcap : cap < 2 ^ w) :
    (r.put a).contents = r.contents ++ [a] := by
  rw [contents, used_put a (by omega), List.range_succ, List.map_append, contents]
  congr 1
  · refine List.map_congr_left fun i hi => ?_
    -- fewer than `cap` entries are in different cells
    have hi : i < r.used := List.mem_range.1 hi
    refine Function.update_of_ne (fun heq => ?_) _ _
    rw [tail_mod hdvd] at heq
    have hmod : i ≡ r.used [MOD cap] := Nat.ModEq.add_left_cancel' r.head.toNat heq
    have := Nat.ModEq.eq_of_lt_of_lt hmod (by omega) hlt
    omega
  · show [Function.update r.cells (r.tail.toNat % cap) a ((r.head.toNat + r.used) % cap)] = [a]
    rw [← tail_mod hdvd, Function.update_self]

/-- **The oldest entry is the first.** -/
theorem contents_of_ne (h : r.head ≠ r.tail) (hw : 0 < w) :
    r.contents = r.front :: r.drop.contents := by
  rw [contents, ← used_drop h, List.range_succ_eq_map, List.map_cons, List.map_map, contents]
  congr 1
  refine List.map_congr_left fun i _ => ?_
  show r.cells ((r.head.toNat + (i + 1)) % cap) = r.cells (((r.head + 1).toNat + i) % cap)
  rw [Nat.add_mod (r.head + 1).toNat, toNat_add_mod hdvd, toNat_one (Nat.one_lt_two_pow hw.ne'),
    ← Nat.add_mod, Nat.add_assoc,
    Nat.add_comm 1 i]

/-- **What is drained was the head of the queue**, and the rest is left. -/
theorem contents_drain (hw : 0 < w) (bs : List β) (r : RingBuffer α w cap) :
    r.contents = (drain bs r).1.map Prod.snd ++ (drain bs r).2.contents := by
  induction bs generalizing r with
  | nil => rfl
  | cons b bs ih =>
    by_cases h : r.head = r.tail
    · simp only [drain, if_pos h, List.map_nil, List.nil_append]
    · simp only [drain, if_neg h, List.map_cons, List.cons_append]
      rw [contents_of_ne hdvd h hw, ih r.drop]

end Cells

end RingBuffer
