import Mathlib.Logic.Function.Basic
import Vbt.Lib.Slots

/-!
# Slot tables as maps

A slot table whose entries in use have different keys is a finite map: an entry is looked up by its
key, changed in place, added under a new key, or freed.

* `Keyed`: entries in use have different keys;
* `entry`: the map;
* `Keyed.modify`, `Keyed.alloc`, `Keyed.free`, and what each does to the map: `entry_modify`,
  `entry_alloc`, `entry_free`.
-/

namespace Slots

variable {α κ : Type} [DecidableEq κ] (used : α → Bool) (key : α → κ)

/-- Entries in use have different keys. -/
def Keyed (t : Slots α) : Prop :=
  ∀ i < t.size, ∀ j < t.size, used (t i) = true → used (t j) = true → key (t i) = key (t j) → i = j

/-- The slot of a key. -/
def lookup (t : Slots α) (k : κ) : Option ℕ := t.find? fun a => used a && decide (key a = k)

/-- The entry of a key. -/
def entry (t : Slots α) (k : κ) : Option α := (t.lookup used key k).map t

variable {used key} {t t' : Slots α} {i cap : ℕ} {k : κ} {a : α}

theorem lookup_eq_some (h : t.lookup used key k = some i) :
    i < t.size ∧ used (t i) = true ∧ key (t i) = k := by
  obtain ⟨hlt, hp, -⟩ := find?_eq_some_iff.1 h
  rw [Bool.and_eq_true, decide_eq_true_eq] at hp
  exact ⟨hlt, hp⟩

theorem lookup_eq_none :
    t.lookup used key k = none ↔ ∀ i < t.size, used (t i) = true → key (t i) ≠ k := by
  unfold lookup
  rw [find?_eq_none_iff]
  refine forall₂_congr fun i _ => ?_
  rw [Bool.and_eq_false_iff, decide_eq_false_iff_not]
  cases used (t i) <;> simp

namespace Keyed

theorem lookup_of (h : Keyed used key t) (hi : i < t.size) (hu : used (t i) = true) :
    t.lookup used key (key (t i)) = some i := by
  refine find?_eq_some_of_unique hi (by rw [hu, Bool.true_and, decide_eq_true rfl])
    fun j hj hp => ?_
  rw [Bool.and_eq_true, decide_eq_true_eq] at hp
  exact h j hj i hi hp.1 hu hp.2

/-- What an entry of the map is. -/
theorem entry_eq_some_iff (h : Keyed used key t) :
    t.entry used key k = some a ↔ ∃ i < t.size, used (t i) = true ∧ key (t i) = k ∧ t i = a := by
  unfold entry
  rw [Option.map_eq_some_iff]
  constructor
  · rintro ⟨i, hi, rfl⟩
    obtain ⟨hlt, hu, hk⟩ := lookup_eq_some hi
    exact ⟨i, hlt, hu, hk, rfl⟩
  · rintro ⟨i, hlt, hu, rfl, rfl⟩
    exact ⟨i, h.lookup_of hlt hu, rfl⟩

/-- Two tables with the same entries under a key agree there. -/
theorem entry_congr (h : Keyed used key t) (h' : Keyed used key t')
    (hsame : ∀ a, key a = k → ((∃ i < t'.size, used (t' i) = true ∧ t' i = a) ↔
      ∃ i < t.size, used (t i) = true ∧ t i = a)) :
    t'.entry used key k = t.entry used key k := by
  have hpair : ∀ {u : Slots α} (a : α), (∃ i < u.size, used (u i) = true ∧ key (u i) = k ∧
    u i = a) ↔
      key a = k ∧ ∃ i < u.size, used (u i) = true ∧ u i = a := by
    intro u a
    constructor
    · rintro ⟨i, hi, hu, rfl, rfl⟩
      exact ⟨rfl, i, hi, hu, rfl⟩
    · rintro ⟨rfl, i, hi, hu, rfl⟩
      exact ⟨i, hi, hu, rfl, rfl⟩
  ext a
  rw [h'.entry_eq_some_iff, h.entry_eq_some_iff, hpair, hpair]
  exact and_congr_right fun ha => hsame a ha

omit [DecidableEq κ] in
/-- An entry is changed in place and keeps its key. -/
theorem modify (h : Keyed used key t) {f : α → α} (hu : used (f (t i)) = used (t i))
    (hk : key (f (t i)) = key (t i)) : Keyed used key (t.modify i f) := by
  have hsame : ∀ j, used ((t.modify i f) j) = used (t j) ∧ key ((t.modify i f) j) = key (t j) := by
    intro j
    rw [modify_apply]
    split_ifs with hj
    · rw [hj]
      exact ⟨hu, hk⟩
    · exact ⟨rfl, rfl⟩
  intro j hj l hl hju hlu hjl
  rw [(hsame j).1] at hju
  rw [(hsame l).1] at hlu
  rw [(hsame j).2, (hsame l).2] at hjl
  exact h j hj l hl hju hlu hjl

theorem entry_modify (h : Keyed used key t) {f : α → α} (hi : i < t.size)
    (hused : used (t i) = true) (hu : used (f (t i)) = true) (hk : key (f (t i)) = key (t i)) :
    (t.modify i f).entry used key =
      Function.update (t.entry used key) (key (t i)) (some (f (t i))) := by
  have h' : Keyed used key (t.modify i f) := h.modify (hu.trans hused.symm) hk
  funext k
  by_cases hkey : k = key (t i)
  · rw [hkey, Function.update_self, h'.entry_eq_some_iff]
    refine ⟨i, hi, ?_, ?_, modify_same t i f⟩
    · rw [modify_same, hu]
    · rw [modify_same, hk]
  · rw [Function.update_of_ne hkey]
    -- an entry of another key is in another slot
    refine h.entry_congr h' fun a ha => ?_
    constructor
    · rintro ⟨j, hj, hju, rfl⟩
      have hne : j ≠ i := by
        rintro rfl
        rw [modify_same, hk] at ha
        exact hkey ha.symm
      rw [modify_of_ne t f hne] at hju ⊢
      exact ⟨j, hj, hju, rfl⟩
    · rintro ⟨j, hj, hju, rfl⟩
      have hne : j ≠ i := by
        rintro rfl
        exact hkey ha.symm
      refine ⟨j, hj, ?_, modify_of_ne t f hne⟩
      rwa [modify_of_ne t f hne]

/-- An entry is added under a new key. -/
theorem alloc (h : Keyed used key t) (hnone : t.lookup used key (key a) = none)
    (halloc : t.alloc cap (fun x => !used x) a = some (i, t')) : Keyed used key t' := by
  obtain ⟨hget, hslot⟩ := alloc_eq_some halloc
  have hold : ∀ j < t'.size, j ≠ i → j < t.size := by
    intro j hj hne
    obtain ⟨-, -, hsize⟩ | ⟨rfl, -, hsize, -⟩ := hslot <;> omega
  have hnew := lookup_eq_none.1 hnone
  intro j hj l hl hju hlu hjl
  rw [hget j] at hju hjl
  rw [hget l] at hlu hjl
  by_cases hji : j = i <;> by_cases hli : l = i
  · rw [hji, hli]
  · rw [if_pos hji, if_neg hli] at hjl
    rw [if_neg hli] at hlu
    exact absurd hjl.symm (hnew l (hold l hl hli) hlu)
  · rw [if_neg hji, if_pos hli] at hjl
    rw [if_neg hji] at hju
    exact absurd hjl (hnew j (hold j hj hji) hju)
  · rw [if_neg hji] at hju hjl
    rw [if_neg hli] at hlu hjl
    exact h j (hold j hj hji) l (hold l hl hli) hju hlu hjl

theorem entry_alloc (h : Keyed used key t) (hu : used a = true)
    (hnone : t.lookup used key (key a) = none)
    (halloc : t.alloc cap (fun x => !used x) a = some (i, t')) :
    t'.entry used key = Function.update (t.entry used key) (key a) (some a) := by
  have h' := h.alloc hnone halloc
  obtain ⟨hget, hslot⟩ := alloc_eq_some halloc
  have hi : i < t'.size := by
    obtain ⟨hlt, -, hsize⟩ | ⟨rfl, -, hsize, -⟩ := hslot <;> omega
  have hfree : i < t.size → used (t i) = false := by
    obtain ⟨-, hf, -⟩ | ⟨rfl, -, -, -⟩ := hslot
    · intro _
      rwa [Bool.not_eq_true'] at hf
    · exact fun hlt => absurd hlt (Nat.lt_irrefl _)
  funext k
  by_cases hkey : k = key a
  · rw [hkey, Function.update_self, h'.entry_eq_some_iff]
    have hself : t' i = a := by rw [hget, if_pos rfl]
    exact ⟨i, hi, by rw [hself, hu], by rw [hself], hself⟩
  · rw [Function.update_of_ne hkey]
    refine h.entry_congr h' fun b hb => ?_
    constructor
    · rintro ⟨j, hj, hju, rfl⟩
      have hne : j ≠ i := by
        rintro rfl
        rw [hget, if_pos rfl] at hb
        exact hkey hb.symm
      rw [hget, if_neg hne] at hju ⊢
      refine ⟨j, ?_, hju, rfl⟩
      obtain ⟨-, -, hsize⟩ | ⟨rfl, -, hsize, -⟩ := hslot <;> omega
    · rintro ⟨j, hj, hju, rfl⟩
      have hne : j ≠ i := by
        rintro rfl
        rw [hfree hj] at hju
        cases hju
      refine ⟨j, ?_, ?_, ?_⟩
      · obtain ⟨-, -, hsize⟩ | ⟨rfl, -, hsize, -⟩ := hslot <;> omega
      · rwa [hget, if_neg hne]
      · rw [hget, if_neg hne]

omit [DecidableEq κ] in
/-- An entry is freed. -/
theorem free (h : Keyed used key t) {f : α → α} (hu : used (f (t i)) = false) :
    Keyed used key (t.modify i f) := by
  have hsame : ∀ j, used ((t.modify i f) j) = true → j ≠ i ∧ (t.modify i f) j = t j := by
    intro j hj
    have hne : j ≠ i := by
      rintro rfl
      rw [modify_same, hu] at hj
      cases hj
    exact ⟨hne, modify_of_ne t f hne⟩
  intro j hj l hl hju hlu hjl
  have hj' := (hsame j hju).2
  have hl' := (hsame l hlu).2
  rw [hj'] at hju hjl
  rw [hl'] at hlu hjl
  exact h j hj l hl hju hlu hjl

theorem entry_free (h : Keyed used key t) {f : α → α} (hi : i < t.size) (hused : used (t i) = true)
    (hu : used (f (t i)) = false) :
    (t.modify i f).entry used key = Function.update (t.entry used key) (key (t i)) none := by
  have h' : Keyed used key (t.modify i f) := h.free hu
  have hslot : ∀ j, used ((t.modify i f) j) = true → j ≠ i := by
    rintro j hj rfl
    rw [modify_same, hu] at hj
    cases hj
  funext k
  by_cases hkey : k = key (t i)
  · rw [hkey, Function.update_self, entry, Option.map_eq_none_iff, lookup_eq_none]
    intro j hj hju heq
    have hne := hslot j hju
    rw [modify_of_ne t f hne] at hju heq
    exact hne (h j hj i hi hju hused heq)
  · rw [Function.update_of_ne hkey]
    refine h.entry_congr h' fun b hb => ?_
    constructor
    · rintro ⟨j, hj, hju, rfl⟩
      have hne := hslot j hju
      rw [modify_of_ne t f hne] at hju ⊢
      exact ⟨j, hj, hju, rfl⟩
    · rintro ⟨j, hj, hju, rfl⟩
      have hne : j ≠ i := by
        rintro rfl
        exact hkey hb.symm
      refine ⟨j, hj, ?_, modify_of_ne t f hne⟩
      rwa [modify_of_ne t f hne]

end Keyed
end Slots
