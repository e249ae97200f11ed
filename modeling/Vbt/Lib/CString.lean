import Mathlib.Data.List.TakeWhile
import Vbt.Lib.Bytes

/-!
# Strings in memory

The functions of the C library that look for a byte in memory or in a string, and those that move
bytes.  All look at an array of a given size.

* `Mem.cString`: the bytes before the first NUL;
* `Mem.memchr`, `Mem.strchr`;
* `Mem.write`: the target of `read`, `memcpy` and `memmove`;
* `Mem.terminate`: a NUL in the place of the first such byte of the string.
-/

namespace Mem

/-- The string at a pointer, in an array of `n` bytes. -/
def cString (m : Mem) (n : ℕ) : List UInt8 := (m.take n).takeWhile (· ≠ 0)

/-- `memchr`: where the byte is among the first `n` bytes. -/
def memchr (m : Mem) (b : UInt8) (n : ℕ) : Option ℕ := (m.take n).findIdx? (· == b)

/-- `strchr`: where the byte is in the string. -/
def strchr (m : Mem) (b : UInt8) (n : ℕ) : Option ℕ := (m.cString n).findIdx? (· == b)

/-- The bytes of `l` at the given place. -/
def write (m : Mem) (off : ℕ) (l : List UInt8) : Mem := fun i =>
  if off ≤ i then l.getD (i - off) (m i) else m i

end Mem

/-- A byte that is found splits the list. -/
theorem List.findIdx?_beq_eq_some {α : Type} [BEq α] [LawfulBEq α] {l : List α} {b : α} {k : ℕ}
    (h : l.findIdx? (· == b) = some k) : ∃ x r, l = x ++ b :: r ∧ b ∉ x ∧ x.length = k := by
  obtain ⟨hlt, hb, hbefore⟩ := List.findIdx?_eq_some_iff_getElem.1 h
  refine ⟨l.take k, l.drop (k + 1), ?_, ?_, by simp; omega⟩
  · rw [← eq_of_beq hb, List.getElem_cons_drop, List.take_append_drop]
  · intro hmem
    obtain ⟨j, hj, hget⟩ := List.getElem_of_mem hmem
    rw [List.length_take] at hj
    rw [List.getElem_take] at hget
    exact hbefore j (by omega) (by simp [hget])

namespace Mem

variable {m : Mem} {b : UInt8} {n k : ℕ}

theorem take_add (m : Mem) (a b : ℕ) : m.take (a + b) = m.take a ++ (m.shift a).take b := by
  unfold take
  rw [List.range_add, List.map_append, List.map_map]
  rfl

theorem take_succ (m : Mem) (n : ℕ) : m.take (n + 1) = m.take n ++ [m n] := by
  rw [take_add]
  rfl

/-- Nothing is found. -/
theorem memchr_eq_none (h : m.memchr b n = none) : b ∉ m.take n := by
  intro hmem
  have hne := List.findIdx?_eq_none_iff.1 h b hmem
  simp at hne

/-- What is found is the first one. -/
theorem memchr_eq_some (h : m.memchr b n = some k) :
    k < n ∧ b ∉ m.take k ∧ m.take n = m.take k ++ b :: (m.shift (k + 1)).take (n - (k + 1)) := by
  obtain ⟨x, r, hsplit, hx, hlen⟩ := List.findIdx?_beq_eq_some h
  have hn : k + 1 + r.length = n := by
    have := congrArg List.length hsplit
    rw [take_length, List.length_append, List.length_cons] at this
    omega
  have hparts : m.take n = (m.take k ++ [m k]) ++ (m.shift (k + 1)).take (n - (k + 1)) := by
    rw [← take_succ, ← take_add]
    congr 1
    omega
  rw [hsplit, List.append_cons] at hparts
  obtain ⟨hhead, -⟩ := List.append_inj hparts (by simp [hlen])
  obtain ⟨hxk, hb⟩ := List.append_inj hhead (by simp [hlen])
  refine ⟨by omega, hxk ▸ hx, ?_⟩
  rw [hsplit, List.append_cons, hparts, ← hb, List.append_assoc]
  rfl

/-! ### Writing -/

theorem take_write (m : Mem) (off : ℕ) (l : List UInt8) :
    (m.write off l).take (off + l.length) = m.take off ++ l := by
  rw [take_add]
  congr 1
  · exact List.map_congr_left fun i hi => if_neg (by have := List.mem_range.1 hi; omega)
  · refine List.ext_getElem (by simp) fun i hi hi' => ?_
    simp [take, write, hi']

theorem take_update (m : Mem) {n k : ℕ} (h : n ≤ k) (b : UInt8) :
    (m.update k b).take n = m.take n :=
  (agree_update m k b).take h

theorem update_apply_self (m : Mem) (k : ℕ) (b : UInt8) : m.update k b k = b := by
  simp [update]

/-- The bytes behind the one that is overwritten. -/
theorem shift_update (m : Mem) {n k : ℕ} (h : k < n) (b : UInt8) :
    (m.update k b).shift n = m.shift n := by
  funext i
  exact Function.update_of_ne (show n + i ≠ k by omega) b m

/-! ### Terminating a string -/

/-- A NUL ends the string at the latest. -/
theorem cString_update (m : Mem) (h : k < n) :
    (m.update k 0).cString n = (m.take k).takeWhile (· ≠ 0) := by
  obtain ⟨j, rfl⟩ : ∃ j, n = k + (1 + j) := ⟨n - k - 1, by omega⟩
  have hhead : (m.update k 0).take (k + (1 + j)) =
      m.take k ++ 0 :: ((m.update k 0).shift (k + 1)).take j := by
    rw [← Nat.add_assoc, take_add, take_succ, take_update m le_rfl, update_apply_self,
      List.append_assoc]
    rfl
  rw [cString, hhead, List.takeWhile_append]
  split_ifs with hall
  · rw [List.takeWhile_cons_of_neg (by simp), List.append_nil,
      (List.takeWhile_prefix _).eq_of_length hall]
  · rfl

/-- A NUL in the place of the first `b` of the string. -/
def terminate (m : Mem) (b : UInt8) (n : ℕ) : Mem :=
  match m.strchr b n with
  | some j => m.update j 0
  | none => m

theorem length_cString_le (hend : m k = 0) (hk : k < n) : (m.cString n).length ≤ k := by
  have hself : m.update k 0 = m := by
    rw [← hend]
    exact Function.update_eq_self k m
  rw [← hself, cString_update m hk]
  exact ((List.takeWhile_prefix _).length_le).trans_eq (take_length m k)

theorem cString_eq_nil_iff (h : 0 < n) : m.cString n = [] ↔ m 0 = 0 := by
  obtain ⟨j, rfl⟩ : ∃ j, n = 1 + j := ⟨n - 1, by omega⟩
  rw [cString, take_add]
  show List.takeWhile _ (m 0 :: (m.shift 1).take j) = [] ↔ _
  by_cases h0 : m 0 = 0
  · rw [List.takeWhile_cons_of_neg (by simp [h0])]
    exact ⟨fun _ => h0, fun _ => rfl⟩
  · rw [List.takeWhile_cons_of_pos (by simp [h0])]
    exact ⟨fun hnil => absurd hnil (List.cons_ne_nil _ _), fun hm => absurd hm h0⟩

/-- **The string up to the first `b`**; no byte behind the end of the string is touched. -/
theorem terminate_spec (hend : m k = 0) (hk : k < n) :
    (m.terminate b n).cString n = (m.cString n).takeWhile (· ≠ b) ∧
      ∀ i, k ≤ i → m.terminate b n i = m i := by
  unfold terminate
  cases h : m.strchr b n with
  | none =>
    refine ⟨(List.takeWhile_eq_self_iff.2 fun x hx => ?_).symm, fun i _ => rfl⟩
    simpa using List.findIdx?_eq_none_iff.1 h x hx
  | some j =>
    obtain ⟨x, r, hsplit, hx, hlen⟩ := List.findIdx?_beq_eq_some h
    have hjk : j < k := by
      have hle := length_cString_le hend hk
      rw [hsplit, List.length_append, List.length_cons] at hle
      omega
    -- the bytes before the first `b` are in the string, so none of them is NUL
    have htake : m.take j = x := by
      have hpre : x <+: m.take n :=
        (List.prefix_append x (b :: r)).trans (hsplit ▸ List.takeWhile_prefix _)
      have hpre' : m.take j <+: m.take n := by
        rw [show n = j + (n - j) by omega, take_add]
        exact List.prefix_append _ _
      exact (List.prefix_of_prefix_length_le hpre' hpre (by simp [hlen])).eq_of_length
        (by simp [hlen])
    have hstring : ∀ y ∈ x, decide (y ≠ 0) = true := by
      intro y hy
      have hmem : y ∈ m.cString n := hsplit ▸ List.mem_append_left _ hy
      exact List.mem_takeWhile_imp (p := fun c => decide (c ≠ 0)) hmem
    have hbefore : ∀ y ∈ x, decide (y ≠ b) = true := fun y hy =>
      decide_eq_true fun hyb => hx (hyb ▸ hy)
    refine ⟨?_, fun i hi => Function.update_of_ne (show i ≠ j by omega) 0 m⟩
    rw [cString_update m (by omega), htake, hsplit, List.takeWhile_eq_self_iff.2 hstring,
      List.takeWhile_append_of_pos hbefore, List.takeWhile_cons_of_neg (by simp), List.append_nil]

end Mem
