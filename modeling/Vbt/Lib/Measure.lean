import Mathlib.Data.List.Basic
import Mathlib.Algebra.Order.BigOperators.Group.List
import Mathlib.Tactic.Linarith

/-!
# A measure for processes that multiply

A process that takes an item off a list and adds others of smaller rank comes to an end, although
the list may grow.

* `weight`: the measure of a list of items, and `weight_lt_pow`: fewer than `b` items of smaller
  rank weigh less than one item;
* `exists_done_of_decreasing`: the rule for processes that come to an end.
-/

namespace Vbt

section Weight

variable {α : Type*} {b : ℕ} {rank : α → ℕ}

/-- The weight of a list of items: an item of rank `r` counts `b ^ r`. -/
def weight (b : ℕ) (rank : α → ℕ) (l : List α) : ℕ := (l.map fun x => b ^ rank x).sum

@[simp] theorem weight_nil : weight b rank [] = 0 := rfl

@[simp] theorem weight_append (l l' : List α) :
    weight b rank (l ++ l') = weight b rank l + weight b rank l' := by
  simp [weight]

theorem weight_filter_le (p : α → Bool) (l : List α) :
    weight b rank (l.filter p) ≤ weight b rank l :=
  ((List.filter_sublist (p := p) (l := l)).map _).sum_le_sum fun _ _ => Nat.zero_le _

theorem weight_eraseIdx {l : List α} {k : ℕ} {x : α} (h : l[k]? = some x) :
    weight b rank l = b ^ rank x + weight b rank (l.eraseIdx k) := by
  obtain ⟨hk, rfl⟩ := List.getElem?_eq_some_iff.1 h
  have hperm := (List.getElem_cons_eraseIdx_perm hk).map fun x => b ^ rank x
  rw [weight, ← hperm.sum_eq]
  simp [weight]

/-- Fewer than `b` items of smaller rank weigh less than one item. -/
theorem weight_lt_pow {l : List α} {r : ℕ} (hlen : l.length < b) (hrank : ∀ x ∈ l, rank x < r) :
    weight b rank l < b ^ r := by
  have hb : 0 < b := by omega
  cases r with
  | zero =>
    have hnil : l = [] := List.eq_nil_iff_forall_not_mem.2
      fun x hx => Nat.not_lt_zero _ (hrank x hx)
    simp [hnil]
  | succ r =>
    calc weight b rank l ≤ l.length * b ^ r := by
          have h := List.sum_le_card_nsmul (l.map fun x => b ^ rank x) (b ^ r) ?_
          · simpa [weight] using h
          · intro w hw
            obtain ⟨x, hx, rfl⟩ := List.mem_map.1 hw
            exact Nat.pow_le_pow_right hb (Nat.lt_succ_iff.1 (hrank x hx))
      _ < b * b ^ r := Nat.mul_lt_mul_of_pos_right hlen (Nat.pow_pos hb)
      _ = b ^ (r + 1) := (Nat.pow_succ' ..).symm

/-- A process that keeps an invariant and lowers a measure until it is done is done in time. -/
theorem exists_done_of_decreasing {σ : Type*} {x : ℕ → σ} {I D : σ → Prop} {f : σ → ℕ}
    (h0 : I (x 0)) (hstep : ∀ n, I (x n) → ¬ D (x n) → I (x (n + 1)) ∧ f (x (n + 1)) < f (x n)) :
    ∃ n ≤ f (x 0), D (x n) := by
  by_contra hne
  push Not at hne
  have hle : ∀ n ≤ f (x 0), I (x n) ∧ f (x n) + n ≤ f (x 0) := by
    intro n
    induction n with
    | zero => exact fun _ => ⟨h0, le_refl _⟩
    | succ n ih =>
      intro hn
      obtain ⟨hI, hf⟩ := ih (by omega)
      obtain ⟨hI', hf'⟩ := hstep n hI (hne n (by omega))
      exact ⟨hI', by omega⟩
  -- at the end nothing is left to lower
  obtain ⟨hI, hf⟩ := hle (f (x 0)) le_rfl
  have := (hstep _ hI (hne _ le_rfl)).2
  omega

end Weight

end Vbt
