import Mathlib.Tactic

/-!
# Bytes of machine words

Little- and big-endian readings of two and four bytes, and the bytes of a word. Reading back the
bytes of a word gives the word.

* `byteAt n i`: byte `i` of `n`, the least significant one first;
* `le16`, `le32`, `be32` and the round trips `le16_byteAt`, `le32_byteAt`, `be32_byteAt`;
* `Mem`: the memory a pointer gives access to, without a bound, so that a read past the end of
  a buffer is a read of bytes nobody promised anything about;
* `Mem.Agree`: two memories with the same first bytes.
-/

/-- Byte `i` of a number, the least significant one first. -/
def byteAt (n i : ℕ) : UInt8 := UInt8.ofNat (n / 256 ^ i)

/-- Two bytes read as a little-endian word. -/
def le16 (b0 b1 : UInt8) : UInt16 := UInt16.ofNat (b0.toNat + 256 * b1.toNat)

/-- Four bytes read as a little-endian word. -/
def le32 (b0 b1 b2 b3 : UInt8) : UInt32 :=
  UInt32.ofNat (b0.toNat + 256 * b1.toNat + 65536 * b2.toNat + 16777216 * b3.toNat)

/-- Four bytes read as a big-endian number (`ntohl`). -/
def be32 (b0 b1 b2 b3 : UInt8) : ℕ :=
  16777216 * b0.toNat + 65536 * b1.toNat + 256 * b2.toNat + b3.toNat

@[simp] theorem byteAt_toNat (n i : ℕ) : (byteAt n i).toNat = n / 256 ^ i % 256 := by
  simp [byteAt]

theorem le16_byteAt (x : UInt16) : le16 (byteAt x.toNat 0) (byteAt x.toNat 1) = x := by
  rw [← UInt16.toNat_inj, le16]
  have hx := x.toNat_lt
  simp only [byteAt_toNat, UInt16.toNat_ofNat']
  norm_num
  omega

theorem le32_byteAt (x : UInt32) :
    le32 (byteAt x.toNat 0) (byteAt x.toNat 1) (byteAt x.toNat 2) (byteAt x.toNat 3) = x := by
  rw [← UInt32.toNat_inj, le32]
  have hx := x.toNat_lt
  simp only [byteAt_toNat, UInt32.toNat_ofNat']
  norm_num
  omega

theorem be32_byteAt {n : ℕ} (h : n < 2 ^ 32) :
    be32 (byteAt n 3) (byteAt n 2) (byteAt n 1) (byteAt n 0) = n := by
  simp only [be32, byteAt_toNat]
  norm_num
  omega

/-- The memory behind a pointer. -/
abbrev Mem := ℕ → UInt8

/-- The memory behind a pointer `n` bytes further on. -/
def Mem.shift (m : Mem) (n : ℕ) : Mem := fun i => m (n + i)

@[simp] theorem Mem.shift_apply (m : Mem) (n i : ℕ) : m.shift n i = m (n + i) := rfl

/-- The first `n` bytes behind a pointer (the source of a `memcpy`). -/
def Mem.take (m : Mem) (n : ℕ) : List UInt8 := (List.range n).map m

@[simp] theorem Mem.take_length (m : Mem) (n : ℕ) : (m.take n).length = n := by
  simp [Mem.take]

/-- A buffer that starts with the bytes of `l` and goes on with `junk`. -/
def Mem.ofList (l : List UInt8) (junk : Mem) : Mem := fun i => l.getD i (junk i)

theorem Mem.ofList_apply {l : List UInt8} {junk : Mem} {i : ℕ} (h : i < l.length) :
    Mem.ofList l junk i = l[i] := by
  simp [Mem.ofList, h]

theorem Mem.ofList_eq_getD {l : List UInt8} {junk : Mem} {i : ℕ} (h : i < l.length) :
    Mem.ofList l junk i = l.getD i 0 := by
  simp [Mem.ofList, h]

theorem Mem.take_ofList (l : List UInt8) (junk : Mem) : (Mem.ofList l junk).take l.length = l := by
  apply List.ext_getElem
  · simp
  · intro i h1 h2
    simp [Mem.take, Mem.ofList, h2]

theorem Mem.shift_ofList_append (l r : List UInt8) (junk : Mem) :
    (Mem.ofList (l ++ r) junk).shift l.length = Mem.ofList r (junk.shift l.length) := by
  funext i
  simp [Mem.ofList, Mem.shift, List.getElem?_append_right]

theorem Mem.take_ofList_append (l r : List UInt8) (junk : Mem) :
    (Mem.ofList (l ++ r) junk).take l.length = l := by
  apply List.ext_getElem
  · simp
  · intro i h1 h2
    simp [Mem.take, Mem.ofList, List.getElem?_append_left h2, h2]

theorem Mem.shift_shift (m : Mem) (a b : ℕ) : (m.shift a).shift b = m.shift (a + b) := by
  funext i
  simp only [Mem.shift_apply, Nat.add_assoc]

/-! ### Memory that agrees up to a bound -/

/-- The first `n` bytes are the same. -/
def Mem.Agree (n : ℕ) (m m' : Mem) : Prop := ∀ i < n, m' i = m i

namespace Mem.Agree

variable {n k : ℕ} {m m' : Mem}

theorem mono (h : Agree n m m') (hk : k ≤ n) : Agree k m m' := fun i hi => h i (by omega)

theorem shift (h : Agree n m m') (hk : k ≤ n) : Agree (n - k) (m.shift k) (m'.shift k) :=
  fun i hi => h (k + i) (by omega)

theorem take (h : Agree n m m') (hk : k ≤ n) : m'.take k = m.take k :=
  List.map_congr_left fun i hi => h i (by have := List.mem_range.1 hi; omega)

end Mem.Agree

/-- Memory with one byte overwritten. -/
def Mem.update (m : Mem) (n : ℕ) (b : UInt8) : Mem := Function.update m n b

theorem Mem.agree_update (m : Mem) (n : ℕ) (b : UInt8) : Agree n m (m.update n b) := by
  intro i hi
  exact Function.update_of_ne (show i ≠ n by omega) b m
