import Mathlib.Data.List.Range
import Mathlib.Tactic

/-!
# Items one behind the other

Items of different sizes are placed one behind the other from a position on.

* `located`: the items with their positions;
* `flatMap_range_located`: they leave no gap and do not overlap;
* `mem_located`: every item is within the whole;
* `foldl_located`: a fold that keeps a running position and appends what an item gives at its
  position.
-/

variable {α γ σ : Type}

/-- The items with their positions, from position `h` on. -/
def located (size : α → ℕ) : ℕ → List α → List (ℕ × α)
  | _, [] => []
  | h, a :: l => (h, a) :: located size (h + size a) l

variable {size : α → ℕ}

/-- The items cover the positions from the first on without gap or overlap. -/
theorem flatMap_range_located (h : ℕ) (l : List α) :
    (located size h l).flatMap (fun x => List.range' x.1 (size x.2)) =
      List.range' h (l.map size).sum := by
  induction l generalizing h with
  | nil => rfl
  | cons a l ih =>
    rw [located, List.flatMap_cons, ih, List.map_cons, List.sum_cons, List.range'_append_1]

theorem mem_located {h : ℕ} {l : List α} {x : ℕ × α} (hx : x ∈ located size h l) :
    h ≤ x.1 ∧ x.1 + size x.2 ≤ h + (l.map size).sum := by
  induction l generalizing h with
  | nil => cases hx
  | cons a l ih =>
    rw [List.map_cons, List.sum_cons]
    rcases List.mem_cons.1 hx with rfl | hx
    · dsimp only
      omega
    · have := ih hx
      omega

/-- What an item gives, at its position. -/
theorem foldl_located {f : σ → α → σ} (pos : σ → ℕ) (out : σ → List γ) (emit : ℕ → α → List γ)
    (hpos : ∀ s a, pos (f s a) = pos s + size a)
    (hout : ∀ s a, out (f s a) = out s ++ emit (pos s) a) (l : List α) (s : σ) :
    out (l.foldl f s) = out s ++ (located size (pos s) l).flatMap fun x => emit x.1 x.2 := by
  induction l generalizing s with
  | nil => simp [located]
  | cons a l ih =>
    rw [List.foldl_cons, ih, hout, hpos, located, List.flatMap_cons, List.append_assoc]
