import Mathlib.Data.List.TakeWhile
import Vbt.Hub.Forward

/-!
# Encoding and decoding a hello

A hello is the magic number, the node id with its NUL, and the flags, which may be left out. The hub
reads the id up to 63 bytes. It skips the NUL only if that is the byte at which it stopped, so that
behind a longer id it takes the next byte of the id for the flags.

* `makeHello`: the encoder;
* `helloNid`, `helloFlags`: what `maybe_hello` reads, with `parseHello_eq`;
* `hello_decoded_iff`: the id is read back up to 63 bytes, and the flags exactly if the id is no
  longer than that or has the flags as its 64th byte.
-/

namespace Vbt
namespace Hub

/-- The payload of a hello. -/
def makeHello (id : NodeId) (flags : Option UInt8) : List UInt8 :=
  [0x56, 0x42, 0x54, 0x48] ++ (id ++ 0 :: flags.toList)

/-- The id that `maybe_hello` reads. -/
def helloNid (payload : List UInt8) : NodeId :=
  ((payload.drop 4).takeWhile (· ≠ 0)).take (NODE_ID_LEN - 1)

/-- The flags that `maybe_hello` reads. -/
def helloFlags (payload : List UInt8) : UInt8 :=
  let rest := payload.drop (4 + (helloNid payload).length)
  let rest := match rest with
    | 0 :: rest => rest
    | _ => rest
  rest.headD 0

theorem parseHello_eq {payload : List UInt8} (hlen : 5 ≤ payload.length)
    (hmagic : le32At (fun i => payload.getD i 0) 0 = VBT_HELLO_MAGIC) :
    parseHello payload = some ⟨helloNid payload,
      helloFlags payload &&& VBT_HELLO_FLAG_PHYSICAL ≠ 0,
      helloFlags payload &&& VBT_HELLO_FLAG_MONITOR ≠ 0⟩ := by
  rw [parseHello, if_neg (Nat.not_lt.2 hlen), if_neg (not_not.2 hmagic)]
  rfl

theorem magic_makeHello (id : NodeId) (flags : Option UInt8) :
    le32At (fun i => (makeHello id flags).getD i 0) 0 = VBT_HELLO_MAGIC := by
  show le32 0x56 0x42 0x54 0x48 = VBT_HELLO_MAGIC
  decide

section Decode

variable {id : NodeId} (hnul : ∀ c ∈ id, c ≠ 0) (flags : Option UInt8)
include hnul

theorem takeWhile_id : (id ++ 0 :: flags.toList).takeWhile (· ≠ 0) = id := by
  rw [List.takeWhile_append_of_pos fun c hc => decide_eq_true (hnul c hc),
    List.takeWhile_cons_of_neg (by decide), List.append_nil]

theorem helloNid_makeHello : helloNid (makeHello id flags) = id.take (NODE_ID_LEN - 1) := by
  have hdrop : (makeHello id flags).drop 4 = id ++ 0 :: flags.toList := rfl
  rw [helloNid, hdrop, takeWhile_id hnul]

/-- The id is all read: the flags follow. -/
theorem helloFlags_short (hlen : id.length < NODE_ID_LEN) :
    helloFlags (makeHello id flags) = flags.getD 0 := by
  have hall : id.take (NODE_ID_LEN - 1) = id := List.take_of_length_le (Nat.le_sub_one_of_lt hlen)
  have hrest : (makeHello id flags).drop (4 + id.length) = 0 :: flags.toList := by
    rw [makeHello, ← List.append_assoc]
    exact List.drop_left' (by rw [List.length_append]; rfl)
  unfold helloFlags
  dsimp only
  rw [helloNid_makeHello hnul, hall, hrest]
  cases flags <;> rfl

/-- The id is longer: its next byte is taken for the flags. -/
theorem helloFlags_long {c : UInt8} (hc : id[NODE_ID_LEN - 1]? = some c) :
    helloFlags (makeHello id flags) = c := by
  obtain ⟨hlt, hget⟩ := List.getElem?_eq_some_iff.1 hc
  have hne : c ≠ 0 := hnul c (hget ▸ List.getElem_mem hlt)
  have hcut : (id.take (NODE_ID_LEN - 1)).length = NODE_ID_LEN - 1 :=
    List.length_take_of_le hlt.le
  have hrest : (makeHello id flags).drop (4 + (NODE_ID_LEN - 1)) =
      c :: (id.drop NODE_ID_LEN ++ 0 :: flags.toList) := by
    have hdrop : (makeHello id flags).drop 4 = id ++ 0 :: flags.toList := rfl
    rw [← List.drop_drop, hdrop, List.drop_append_of_le_length hlt.le,
      List.drop_eq_getElem_cons hlt, hget]
    rfl
  unfold helloFlags
  dsimp only
  rw [helloNid_makeHello hnul, hcut, hrest]
  split
  · rename_i heq
    injection heq with heq
    exact absurd heq hne
  · rfl

end Decode

/-- **What the hub makes of a hello.** It goes by the first 63 bytes of the id, and by the flags it
reads; these are the flags that were sent exactly if the id has no 64th byte or that is the
flags. -/
theorem hello_decoded_iff {id : NodeId} (hne : id ≠ []) (hnul : ∀ c ∈ id, c ≠ 0)
    (flags : Option UInt8) :
    (∀ (s : Hub) (p : ℕ), s.maybeHello p (makeHello id flags) = some
      (if helloFlags (makeHello id flags) &&& VBT_HELLO_FLAG_MONITOR ≠ 0 then
        (s.modPeer p fun q => { q with isMonitor := true }).note (.hello p (id.take 63)
          (helloFlags (makeHello id flags) &&& VBT_HELLO_FLAG_PHYSICAL ≠ 0) true none)
      else s.bindPeerNode p (id.take 63)
        (helloFlags (makeHello id flags) &&& VBT_HELLO_FLAG_PHYSICAL ≠ 0))) ∧
      (helloFlags (makeHello id flags) = flags.getD 0 ↔ id.length ≤ 63 ∨ id[63]? = flags) := by
  constructor
  · intro s p
    have hsize : 5 ≤ (makeHello id flags).length := by
      simp only [makeHello, List.length_append, List.length_cons]
      omega
    have hnid : id.take (NODE_ID_LEN - 1) ≠ [] := by
      rw [Ne, List.take_eq_nil_iff, not_or]
      exact ⟨by decide, hne⟩
    rw [maybeHello, parseHello_eq hsize (magic_makeHello id flags), helloNid_makeHello hnul,
      Option.map_some, takeHello]
    dsimp only
    rw [if_neg hnid]
    simp only [decide_eq_true_eq]
    rfl
  · rcases Nat.lt_or_ge id.length NODE_ID_LEN with hshort | hlong
    · exact iff_of_true (helloFlags_short hnul flags hshort) (.inl (Nat.le_sub_one_of_lt hshort))
    · obtain ⟨c, hc⟩ : ∃ c, id[NODE_ID_LEN - 1]? = some c :=
        ⟨_, List.getElem?_eq_getElem (Nat.lt_of_lt_of_le (by decide) hlong)⟩
      have hc0 : c ≠ 0 := hnul c (List.mem_of_getElem? hc)
      have hget : id[63]? = some c := hc
      rw [helloFlags_long hnul flags hc, hget]
      constructor
      · intro heq
        cases flags with
        | none => exact absurd heq hc0
        | some f => exact .inr (congrArg some heq)
      · rintro (hle | heq)
        · exact absurd hlong (Nat.not_le.2 (Nat.lt_succ_of_le hle))
        · rw [← heq]
          rfl

theorem hello_decoded_iff_tap :
    helloFlags (makeHello [0x74, 0x61, 0x70] (some 2)) = 2 :=
  (hello_decoded_iff (by decide) (by decide +kernel) (some 2)).2.2 (.inl (by decide))

/-- **A long id makes a tap of a plain node**: a hello without flags whose id has `b` as its 64th
byte. -/
theorem long_id_taps :
    parseHello (makeHello (List.replicate 63 0x61 ++ [0x62]) none) =
      some ⟨List.replicate 63 0x61, false, true⟩ := by
  decide +kernel

end Hub
end Vbt
