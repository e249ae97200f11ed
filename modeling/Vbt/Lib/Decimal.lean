import Mathlib.Data.Nat.Digits.Defs
import Mathlib.Data.Rat.Floor
import Mathlib.Tactic

/-!
# Decimal fractions as text

* `isDigit`, `value`: digits, and the number that a string of them denotes;
* `ofNat`, `padded`: the digits of a number, and its last `n` digits;
* `fixed n`: a rational number with `n` decimals, rounded to the nearest one, as `printf` writes it;
* `scan`: an optional sign, digits, and a fraction, as `scanf` reads it;
* `scan_fixed`: a number with at most `n` decimals is read back.
-/

namespace Decimal

/-! ### Digits -/

def isDigit (c : UInt8) : Bool := 0x30 ≤ c && c ≤ 0x39

/-- The number that a string of digits denotes. -/
def value (l : List UInt8) : ℕ := l.foldl (fun v c => 10 * v + (c.toNat - 0x30)) 0

/-- The digit of a number below ten. -/
def digit (d : ℕ) : UInt8 := .ofNat (0x30 + d)

/-- The digits of a number. -/
def ofNat (n : ℕ) : List UInt8 :=
  if n = 0 then [0x30] else ((Nat.digits 10 n).map digit).reverse

/-- The last `n` digits of a number. -/
def padded : ℕ → ℕ → List UInt8
  | 0, _ => []
  | n + 1, m => padded n (m / 10) ++ [digit (m % 10)]

theorem toNat_digit {d : ℕ} (h : d < 10) : (digit d).toNat = 0x30 + d := by
  rw [digit, UInt8.toNat_ofNat']
  omega

theorem isDigit_digit {d : ℕ} (h : d < 10) : isDigit (digit d) = true := by
  have hd := toNat_digit h
  rw [isDigit, Bool.and_eq_true, decide_eq_true_eq, decide_eq_true_eq, UInt8.le_iff_toNat_le,
    UInt8.le_iff_toNat_le, hd]
  exact ⟨Nat.le_add_right _ _, by show 0x30 + d ≤ 0x39; omega⟩

theorem value_concat (l : List UInt8) (c : UInt8) :
    value (l ++ [c]) = 10 * value l + (c.toNat - 0x30) := by
  simp [value, List.foldl_append]

theorem value_append (l r : List UInt8) : value (l ++ r) = value l * 10 ^ r.length + value r := by
  induction r using List.reverseRecOn with
  | nil => simp [value]
  | append_singleton r c ih =>
    rw [← List.append_assoc, value_concat, ih, value_concat, List.length_append,
      List.length_singleton, pow_succ]
    ring

theorem value_digits (l : List ℕ) (h : ∀ d ∈ l, d < 10) :
    value (l.map digit).reverse = Nat.ofDigits 10 l := by
  induction l with
  | nil => rfl
  | cons d l ih =>
    rw [List.map_cons, List.reverse_cons, value_concat, toNat_digit (h d List.mem_cons_self),
      ih fun e he => h e (List.mem_cons_of_mem d he), Nat.ofDigits_cons]
    omega

theorem value_ofNat (n : ℕ) : value (ofNat n) = n := by
  unfold ofNat
  split_ifs with h
  · rw [h]
    rfl
  · rw [value_digits _ fun d hd => Nat.digits_lt_base (by omega) hd, Nat.ofDigits_digits]

theorem ofNat_ne_nil (n : ℕ) : ofNat n ≠ [] := by
  unfold ofNat
  split_ifs with h
  · exact List.cons_ne_nil _ _
  · simp [Nat.digits_ne_nil_iff_ne_zero.2 h]

theorem isDigit_ofNat {n : ℕ} {c : UInt8} (h : c ∈ ofNat n) : isDigit c = true := by
  unfold ofNat at h
  split_ifs at h with hn
  · rw [List.mem_singleton.1 h]
    rfl
  · obtain ⟨d, hd, rfl⟩ := List.mem_map.1 (List.mem_reverse.1 h)
    exact isDigit_digit (Nat.digits_lt_base (by omega) hd)

@[simp] theorem length_padded (n m : ℕ) : (padded n m).length = n := by
  induction n generalizing m with
  | zero => rfl
  | succ n ih => rw [padded, List.length_append, ih, List.length_singleton]

theorem isDigit_padded {n m : ℕ} {c : UInt8} (h : c ∈ padded n m) : isDigit c = true := by
  induction n generalizing m with
  | zero => cases h
  | succ n ih =>
    rcases List.mem_append.1 h with h | h
    · exact ih h
    · rw [List.mem_singleton.1 h]
      exact isDigit_digit (Nat.mod_lt m (by omega))

theorem value_padded {n m : ℕ} (h : m < 10 ^ n) : value (padded n m) = m := by
  induction n generalizing m with
  | zero =>
    obtain rfl : m = 0 := by simpa using h
    rfl
  | succ n ih =>
    have hdiv : m / 10 < 10 ^ n := by
      rw [Nat.div_lt_iff_lt_mul (by omega), ← pow_succ]
      exact h
    rw [padded, value_concat, ih hdiv, toNat_digit (Nat.mod_lt m (by omega))]
    omega

/-! ### Fractions -/

/-- The nearest integer, the even one of two. -/
def nearest (x : ℚ) : ℤ :=
  let r := x - ⌊x⌋
  if r < 1 / 2 then ⌊x⌋ else if 1 / 2 < r then ⌊x⌋ + 1
  else if ⌊x⌋ % 2 = 0 then ⌊x⌋ else ⌊x⌋ + 1

theorem nearest_intCast (z : ℤ) : nearest z = z := by
  simp [nearest]

/-- The conversion `%.nf`. -/
def fixed (n : ℕ) (x : ℚ) : List UInt8 :=
  let m := (nearest (|x| * 10 ^ n)).toNat
  (if x < 0 then [0x2D] else []) ++ ofNat (m / 10 ^ n) ++ 0x2E :: padded n (m % 10 ^ n)

/-- Only a minus, a point and digits are written. -/
theorem fixed_range {n : ℕ} {x : ℚ} {c : UInt8} (h : c ∈ fixed n x) : 0x2D ≤ c ∧ c ≤ 0x39 := by
  have hdigit : isDigit c = true → 0x2D ≤ c ∧ c ≤ 0x39 := by
    intro hc
    rw [isDigit, Bool.and_eq_true, decide_eq_true_eq, decide_eq_true_eq] at hc
    exact ⟨UInt8.le_trans (by decide) hc.1, hc.2⟩
  unfold fixed at h
  rcases List.mem_append.1 h with h | h
  · rcases List.mem_append.1 h with h | h
    · split_ifs at h
      · rw [List.mem_singleton.1 h]
        decide
      · cases h
    · exact hdigit (isDigit_ofNat h)
  · rcases List.mem_cons.1 h with rfl | h
    · decide
    · exact hdigit (isDigit_padded h)

theorem fixed_ne_nil (n : ℕ) (x : ℚ) : fixed n x ≠ [] := by
  simp [fixed]

/-- The fraction behind a number: a point and digits. -/
def scanFrac : List UInt8 → List UInt8 × List UInt8
  | 0x2E :: r => (r.takeWhile isDigit, r.dropWhile isDigit)
  | l => ([], l)

/-- A number without a sign. -/
def scanAbs (l : List UInt8) : Option (ℚ × List UInt8) :=
  let int := l.takeWhile isDigit
  let (frac, r) := scanFrac (l.dropWhile isDigit)
  if int ++ frac = [] then none else some ((value (int ++ frac) : ℚ) / 10 ^ frac.length, r)

/-- The conversion `%lf` of a number that begins here, and what follows it. Exponents and the other
ways to write a number are left out. -/
def scan : List UInt8 → Option (ℚ × List UInt8)
  | 0x2D :: l => (scanAbs l).map fun x => (-x.1, x.2)
  | 0x2B :: l => scanAbs l
  | l => scanAbs l

theorem takeWhile_digits {l r : List UInt8} (hl : ∀ c ∈ l, isDigit c = true)
    (hr : ∀ c ∈ r.head?, isDigit c = false) :
    (l ++ r).takeWhile isDigit = l ∧ (l ++ r).dropWhile isDigit = r := by
  have htake : r.takeWhile isDigit = [] ∧ r.dropWhile isDigit = r := by
    cases r with
    | nil => exact ⟨rfl, rfl⟩
    | cons c r =>
      have hc : isDigit c = false := hr c rfl
      simp [hc]
  rw [List.takeWhile_append_of_pos hl, List.dropWhile_append_of_pos hl, htake.1, htake.2,
    List.append_nil]
  exact ⟨rfl, rfl⟩

theorem scanAbs_digits {int frac r : List UInt8} (hint : ∀ c ∈ int, isDigit c = true)
    (hfrac : ∀ c ∈ frac, isDigit c = true) (hne : int ≠ [])
    (hr : ∀ c ∈ r.head?, isDigit c = false) :
    scanAbs (int ++ 0x2E :: (frac ++ r)) =
      some ((value (int ++ frac) : ℚ) / 10 ^ frac.length, r) := by
  obtain ⟨h₁, h₂⟩ := takeWhile_digits (r := 0x2E :: (frac ++ r)) hint fun c hc => by
    cases hc
    rfl
  obtain ⟨h₃, h₄⟩ := takeWhile_digits hfrac hr
  have hne' : int ++ frac ≠ [] := fun h => hne (List.append_eq_nil_iff.1 h).1
  simp only [scanAbs, h₁, h₂, scanFrac, h₃, h₄, if_neg hne']

/-- A number begins with a digit, so that its sign is told apart. -/
theorem scan_digits {int r : List UInt8} (hint : ∀ c ∈ int, isDigit c = true) (hne : int ≠ []) :
    scan (int ++ r) = scanAbs (int ++ r) := by
  cases int with
  | nil => exact absurd rfl hne
  | cons c int =>
    have hc := hint c List.mem_cons_self
    rw [List.cons_append]
    unfold scan
    split
    · rename_i heq
      injection heq with heq
      subst heq
      cases hc
    · rename_i heq
      injection heq with heq
      subst heq
      cases hc
    · rfl

/-- **A number with at most `n` decimals is read back.** -/
theorem scan_fixed {n : ℕ} {x : ℚ} {z : ℤ} (hx : x * 10 ^ n = z) {r : List UInt8}
    (hr : ∀ c ∈ r.head?, isDigit c = false) : scan (fixed n x ++ r) = some (x, r) := by
  have hpos : (0 : ℚ) < 10 ^ n := by positivity
  have habs : |x| * 10 ^ n = ((z.natAbs : ℤ) : ℚ) := by
    rw [Int.natCast_natAbs, Int.cast_abs, ← hx, abs_mul, abs_of_pos hpos]
  have hm : (nearest (|x| * 10 ^ n)).toNat = z.natAbs := by
    rw [habs, nearest_intCast, Int.toNat_natCast]
  generalize hn : z.natAbs = m at habs hm
  -- the digits of the integer part and the fraction are those of the scaled number
  have hval : value (ofNat (m / 10 ^ n) ++ padded n (m % 10 ^ n)) = m := by
    rw [value_append, value_ofNat, length_padded, value_padded (Nat.mod_lt _ (by positivity))]
    exact Nat.div_add_mod' m (10 ^ n)
  have hscan : scanAbs (ofNat (m / 10 ^ n) ++ 0x2E :: (padded n (m % 10 ^ n) ++ r)) =
      some (|x|, r) := by
    rw [scanAbs_digits (fun c => isDigit_ofNat) (fun c => isDigit_padded) (ofNat_ne_nil _) hr, hval,
      length_padded]
    have hquot : (m : ℚ) / 10 ^ n = |x| := by
      rw [div_eq_iff hpos.ne', habs]
      norm_cast
    rw [hquot]
  unfold fixed
  simp only [hm]
  split_ifs with hneg
  · rw [List.append_assoc, List.append_assoc, List.cons_append]
    show (scanAbs _).map _ = _
    rw [List.nil_append, List.cons_append, hscan, Option.map_some, abs_of_neg hneg, neg_neg]
  · rw [List.nil_append, List.append_assoc, List.cons_append,
      scan_digits (fun c => isDigit_ofNat) (ofNat_ne_nil _), hscan, abs_of_nonneg (not_lt.1 hneg)]

end Decimal
