import Mathlib.Tactic
import Mathlib.Data.Finset.Card

/-!
# Bounded slot tables

A statically allocated array of which the first `size` entries are in use: entries are looked up
by scanning from slot `0`, an entry that is given up stays in place and is marked free, and a new
entry takes the first free slot or, when there is none, the slot at `size`, up to a capacity.

* `Slots α`, `set`, `modify`, `mapBelow`;
* `find?`, the scan, with `find?_eq_some_iff` and `find?_eq_none_iff`;
* `alloc`, the first-fit allocation, with its inversion lemma `alloc_eq_some`;
* `used`, with `card_used_alloc`.
-/

/-- An array whose first `size` entries are in use. -/
structure Slots (α : Type) where
  size : ℕ
  get : ℕ → α

namespace Slots

variable {α β : Type}

instance : CoeFun (Slots α) (fun _ => ℕ → α) := ⟨Slots.get⟩

/-- Overwrite one entry. -/
def set (t : Slots α) (i : ℕ) (a : α) : Slots α :=
  { t with get := fun j => if j = i then a else t.get j }

/-- Update one entry in place. -/
def modify (t : Slots α) (i : ℕ) (f : α → α) : Slots α := t.set i (f (t i))

/-- Update every entry in use. -/
def mapBelow (t : Slots α) (f : ℕ → α → α) : Slots α :=
  { t with get := fun i => if i < t.size then f i (t.get i) else t.get i }

@[simp] theorem set_size (t : Slots α) (i : ℕ) (a : α) : (t.set i a).size = t.size := rfl

@[simp] theorem modify_size (t : Slots α) (i : ℕ) (f : α → α) : (t.modify i f).size = t.size := rfl

@[simp] theorem mapBelow_size (t : Slots α) (f : ℕ → α → α) : (t.mapBelow f).size = t.size := rfl

theorem set_apply (t : Slots α) (i j : ℕ) (a : α) :
    (t.set i a) j = if j = i then a else t j := rfl

@[simp] theorem set_same (t : Slots α) (i : ℕ) (a : α) : (t.set i a) i = a := if_pos rfl

theorem set_of_ne (t : Slots α) {i j : ℕ} (a : α) (h : j ≠ i) : (t.set i a) j = t j := if_neg h

theorem modify_apply (t : Slots α) (i j : ℕ) (f : α → α) :
    (t.modify i f) j = if j = i then f (t i) else t j := rfl

@[simp] theorem modify_same (t : Slots α) (i : ℕ) (f : α → α) : (t.modify i f) i = f (t i) :=
  if_pos rfl

theorem modify_of_ne (t : Slots α) {i j : ℕ} (f : α → α) (h : j ≠ i) : (t.modify i f) j = t j :=
  if_neg h

theorem modify_modify (t : Slots α) (i : ℕ) (f g : α → α) :
    (t.modify i f).modify i g = t.modify i fun a => g (f a) := by
  have hget : ((t.modify i f).modify i g).get = (t.modify i fun a => g (f a)).get := by
    funext j
    show ((t.modify i f).modify i g) j = (t.modify i fun a => g (f a)) j
    rw [modify_apply, modify_same, modify_apply, modify_apply]
    split_ifs <;> rfl
  exact congrArg (Slots.mk t.size) hget

theorem mapBelow_apply (t : Slots α) (f : ℕ → α → α) (i : ℕ) :
    (t.mapBelow f) i = if i < t.size then f i (t i) else t i := rfl

/-- An in-place update that keeps an attribute of the entries keeps it everywhere. -/
theorem modify_attr (t : Slots α) (π : α → β) {f : α → α} (h : ∀ a, π (f a) = π a) (i j : ℕ) :
    π ((t.modify i f) j) = π (t j) := by
  rw [modify_apply]
  split_ifs with hj
  · rw [hj, h]
  · rfl

/-! ### Scanning -/

/-- The first entry in use that satisfies `p`. -/
def find? (t : Slots α) (p : α → Bool) : Option ℕ :=
  (List.range t.size).find? fun i => p (t i)

theorem find?_eq_some_iff {t : Slots α} {p : α → Bool} {i : ℕ} :
    t.find? p = some i ↔ i < t.size ∧ p (t i) = true ∧ ∀ j < i, p (t j) = false := by
  unfold find?
  rw [List.find?_range_eq_some]
  simp only [List.mem_range, Bool.not_eq_true']
  constructor
  · rintro ⟨h1, h2, h3⟩
    exact ⟨h2, h1, h3⟩
  · rintro ⟨h1, h2, h3⟩
    exact ⟨h2, h1, h3⟩

theorem find?_eq_none_iff {t : Slots α} {p : α → Bool} :
    t.find? p = none ↔ ∀ i < t.size, p (t i) = false := by
  unfold find?
  rw [List.find?_range_eq_none]
  simp

/-- If only one entry in use can satisfy `p`, the scan finds it. -/
theorem find?_eq_some_of_unique {t : Slots α} {p : α → Bool} {i : ℕ} (hi : i < t.size)
    (hp : p (t i) = true) (huniq : ∀ j < t.size, p (t j) = true → j = i) : t.find? p = some i := by
  refine find?_eq_some_iff.2 ⟨hi, hp, fun j hj => ?_⟩
  by_contra hc
  have := huniq j (by omega) (by simpa using hc)
  omega

/-- The scan depends only on what `p` sees. -/
theorem find?_congr {t t' : Slots α} {p q : α → Bool} (hsize : t'.size = t.size)
    (h : ∀ i < t.size, q (t' i) = p (t i)) : t'.find? q = t.find? p := by
  unfold find?
  rw [hsize]
  exact List.find?_congr fun i hi => h i (List.mem_range.1 hi)

/-! ### First-fit allocation -/

/-- Place `a` in the first free slot, or append it while fewer than `cap` slots are in use. -/
def alloc (t : Slots α) (cap : ℕ) (free : α → Bool) (a : α) : Option (ℕ × Slots α) :=
  match t.find? free with
  | some i => some (i, t.set i a)
  | none => if t.size < cap then some (t.size, { t.set t.size a with size := t.size + 1 }) else none

/-- What an allocation can do: the slot was free or is the first unused one, and only that slot
changes. -/
theorem alloc_eq_some {t t' : Slots α} {cap i : ℕ} {free : α → Bool} {a : α}
    (h : t.alloc cap free a = some (i, t')) :
    (∀ j, t' j = if j = i then a else t j) ∧
      ((i < t.size ∧ free (t i) = true ∧ t'.size = t.size) ∨
        (i = t.size ∧ t.size < cap ∧ t'.size = t.size + 1 ∧ ∀ j < t.size, free (t j) = false)) := by
  unfold alloc at h
  split at h
  · rename_i k hk
    obtain ⟨hlt, hfree, -⟩ := find?_eq_some_iff.1 hk
    simp only [Option.some.injEq, Prod.mk.injEq] at h
    obtain ⟨rfl, rfl⟩ := h
    exact ⟨fun j => rfl, Or.inl ⟨hlt, hfree, rfl⟩⟩
  · rename_i hk
    split_ifs at h with hcap
    simp only [Option.some.injEq, Prod.mk.injEq] at h
    obtain ⟨rfl, rfl⟩ := h
    exact ⟨fun j => rfl, Or.inr ⟨rfl, hcap, rfl, find?_eq_none_iff.1 hk⟩⟩

theorem alloc_eq_none_iff {t : Slots α} {cap : ℕ} {free : α → Bool} {a : α} :
    t.alloc cap free a = none ↔ cap ≤ t.size ∧ ∀ i < t.size, free (t i) = false := by
  unfold alloc
  split
  · rename_i k hk
    obtain ⟨hlt, hfree, -⟩ := find?_eq_some_iff.1 hk
    refine ⟨fun h => by simp at h, fun h => ?_⟩
    have := h.2 k hlt
    rw [hfree] at this
    cases this
  · rename_i hk
    split_ifs with hcap
    · exact ⟨fun h => by simp at h, fun h => by omega⟩
    · exact ⟨fun _ => ⟨by omega, find?_eq_none_iff.1 hk⟩, fun _ => rfl⟩

theorem alloc_size_le {t t' : Slots α} {cap i : ℕ} {free : α → Bool} {a : α}
    (h : t.alloc cap free a = some (i, t')) (hcap : t.size ≤ cap) : t'.size ≤ cap := by
  obtain ⟨-, ⟨-, -, h3⟩ | ⟨-, h2, h3, -⟩⟩ := alloc_eq_some h <;> omega

/-- The slots in use whose entry is not free. -/
def used (t : Slots α) (free : α → Bool) : Finset ℕ :=
  (Finset.range t.size).filter fun i => free (t i) = false

theorem mem_used {t : Slots α} {free : α → Bool} {i : ℕ} :
    i ∈ t.used free ↔ i < t.size ∧ free (t i) = false := by
  rw [used, Finset.mem_filter, Finset.mem_range]

theorem used_congr {t t' : Slots α} {free : α → Bool} (hsize : t'.size = t.size)
    (h : ∀ i < t.size, free (t' i) = free (t i)) : t'.used free = t.used free := by
  ext i
  rw [mem_used, mem_used, hsize]
  exact and_congr_right fun hi => by rw [h i hi]

/-- An allocation uses one slot more. -/
theorem card_used_alloc {t t' : Slots α} {cap i : ℕ} {free : α → Bool} {a : α}
    (h : t.alloc cap free a = some (i, t')) (ha : free a = false) :
    (t'.used free).card = (t.used free).card + 1 := by
  obtain ⟨hget, hslot⟩ := alloc_eq_some h
  have hnew : t'.used free = insert i (t.used free) := by
    ext j
    rw [Finset.mem_insert, mem_used, mem_used, hget]
    by_cases hj : j = i
    · rw [if_pos hj, hj]
      obtain ⟨hlt, -, hsize⟩ | ⟨rfl, -, hsize, -⟩ := hslot
      · exact ⟨fun _ => Or.inl rfl, fun _ => ⟨by omega, ha⟩⟩
      · exact ⟨fun _ => Or.inl rfl, fun _ => ⟨by omega, ha⟩⟩
    · rw [if_neg hj]
      have hsize : j < t'.size ↔ j < t.size := by
        obtain ⟨-, -, hsize⟩ | ⟨rfl, -, hsize, -⟩ := hslot <;> omega
      rw [hsize]
      exact ⟨Or.inr, fun h => h.resolve_left hj⟩
  have hold : i ∉ t.used free := by
    rw [mem_used]
    rintro ⟨hlt, hused⟩
    obtain ⟨-, hfree, -⟩ | ⟨rfl, -, -, -⟩ := hslot
    · rw [hused] at hfree
      cases hfree
    · omega
  rw [hnew, Finset.card_insert_of_notMem hold]

end Slots
