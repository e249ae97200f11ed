import Vbt.Lib.Scatter

/-!
# The guest's buffers

A buffer of the guest is a list of segments. The device model fills it with QEMU's `iov_from_buf`
and tells the guest what that returned; the back-end has a loop of its own for the copy and tells
the guest the length of the packet.

* `IovFromBuf`: the helpers of this kind, and `Copies`: what is assumed of QEMU's;
* `iovFromBuf`: the loop of the back-end. It copies (`copies_iovFromBuf`);
* `Virtio.fill`, `VhostUser.fill`: the body of the loop of `flush_pending` in the two transports;
* `transports_agree_iff`: when the two return the same.
-/

namespace Vbt

/-- The number of bytes the segments have room for. -/
def capacity (segs : List (List UInt8)) : ℕ := segs.flatten.length

/-- A function that copies data to segments: the segments afterwards, and what it returns. -/
abbrev IovFromBuf := List (List UInt8) → List UInt8 → List (List UInt8) × ℕ

/-- The data is copied as far as the segments go, and the number of bytes that were is returned. -/
def Copies (iov : IovFromBuf) : Prop :=
  ∀ segs buf, iov segs buf = (scatter segs buf, min buf.length (capacity segs))

/-- `iov_from_buf` of `vbt_vhost_user.c`, from offset `off` on. -/
def iovFromBuf (buf : List UInt8) : ℕ → List (List UInt8) → List (List UInt8) × ℕ
  | off, [] => ([], off)
  | off, seg :: segs =>
    if off < buf.length then
      let c := if buf.length - off < seg.length then buf.length - off else seg.length
      let (segs, n) := iovFromBuf buf (off + c) segs
      (((buf.drop off).take c ++ seg.drop c) :: segs, n)
    else (seg :: segs, off)

theorem iovFromBuf_eq {buf : List UInt8} {off : ℕ} (h : off ≤ buf.length)
    (segs : List (List UInt8)) :
    iovFromBuf buf off segs =
      (scatter segs (buf.drop off), off + min (buf.length - off) (capacity segs)) := by
  induction segs generalizing off with
  | nil =>
    rw [iovFromBuf, show capacity [] = 0 from rfl, Nat.min_zero, Nat.add_zero]
    rfl
  | cons seg segs ih =>
    have hcap : capacity (seg :: segs) = seg.length + capacity segs := by
      rw [capacity, List.flatten_cons, List.length_append]
      rfl
    rw [iovFromBuf]
    split_ifs with hlt hshort
    · -- the data ends in this segment
      have hend : off + (buf.length - off) = buf.length := by omega
      have hdata : (buf.drop off).take (buf.length - off) = buf.drop off :=
        List.take_of_length_le (by rw [List.length_drop])
      have hfirst : (buf.drop off).take seg.length = buf.drop off :=
        List.take_of_length_le (by rw [List.length_drop]; omega)
      have hrest : (buf.drop off).drop seg.length = [] :=
        List.drop_eq_nil_of_le (by rw [List.length_drop]; omega)
      dsimp only
      rw [hend, ih (le_refl _), List.drop_length, scatter_nil, scatter_cons, hdata, hfirst, hrest,
        scatter_nil, List.length_drop, hcap]
      refine Prod.ext rfl ?_
      dsimp only
      omega
    · have hle : off + seg.length ≤ buf.length := by omega
      have hrest : seg.drop (buf.drop off).length = [] :=
        List.drop_eq_nil_of_le (by rw [List.length_drop]; omega)
      dsimp only
      rw [ih hle, scatter_cons, hrest, List.drop_length, List.drop_drop, hcap]
      refine Prod.ext rfl ?_
      dsimp only
      omega
    · have hend : off = buf.length := by omega
      rw [hend, List.drop_length, scatter_nil, Nat.sub_self, Nat.zero_min, Nat.add_zero]

/-- **The loop of the back-end** does what is assumed of QEMU's helper. -/
theorem copies_iovFromBuf : Copies fun segs buf => iovFromBuf buf 0 segs := fun segs buf => by
  dsimp only
  rw [iovFromBuf_eq (Nat.zero_le _), List.drop_zero, Nat.sub_zero, Nat.zero_add]

/-! ### The two transports -/

/-- What the guest gets back: its buffer, and the number of bytes it is told. -/
structure Filled where
  segs : List (List UInt8)
  used : ℕ
  deriving DecidableEq

/-- One packet in `virtio_bt_flush_pending`; `iov` is QEMU's `iov_from_buf`. -/
def Virtio.fill (iov : IovFromBuf) (segs : List (List UInt8)) (pkt : List UInt8) : Filled :=
  let (segs, n) := iov segs pkt
  ⟨segs, n⟩

/-- One packet in `flush_pending`: what `iov_from_buf` returns is not looked at. -/
def VhostUser.fill (segs : List (List UInt8)) (pkt : List UInt8) : Filled :=
  let (segs, _) := iovFromBuf pkt 0 segs
  ⟨segs, pkt.length⟩

theorem Virtio.fill_eq {iov : IovFromBuf} (h : Copies iov) (segs : List (List UInt8))
    (pkt : List UInt8) :
    Virtio.fill iov segs pkt = ⟨scatter segs pkt, min pkt.length (capacity segs)⟩ := by
  rw [Virtio.fill, h]

theorem VhostUser.fill_eq (segs : List (List UInt8)) (pkt : List UInt8) :
    VhostUser.fill segs pkt = ⟨scatter segs pkt, pkt.length⟩ := by
  rw [VhostUser.fill, show iovFromBuf pkt 0 segs = _ from copies_iovFromBuf segs pkt]

/-- What is written is the packet, as far as the segments go. -/
theorem written_scatter (segs : List (List UInt8)) (pkt : List UInt8) :
    (scatter segs pkt).flatten.take (min pkt.length (capacity segs)) = pkt.take (capacity segs) := by
  have hlen : (pkt.take (capacity segs)).length = min pkt.length (capacity segs) := by
    rw [List.length_take, Nat.min_comm]
  rw [flatten_scatter, ← hlen]
  exact List.take_left

/-- **The two transports** write the same bytes, as many as there are and as there is room for, and
the device model tells the guest how many. The back-end does so exactly if the packet fits. -/
theorem transports_agree_iff {iov : IovFromBuf} (hqemu : Copies iov) (segs : List (List UInt8))
    (pkt : List UInt8) :
    (VhostUser.fill segs pkt).segs = (Virtio.fill iov segs pkt).segs ∧
      (Virtio.fill iov segs pkt).segs.flatten.take (min pkt.length (capacity segs)) =
        pkt.take (capacity segs) ∧
      (Virtio.fill iov segs pkt).segs.map List.length = segs.map List.length ∧
      (Virtio.fill iov segs pkt).used = min pkt.length (capacity segs) ∧
      ((VhostUser.fill segs pkt).used = (Virtio.fill iov segs pkt).used ↔
        pkt.length ≤ capacity segs) := by
  rw [VhostUser.fill_eq, Virtio.fill_eq hqemu]
  refine ⟨rfl, written_scatter segs pkt, map_length_scatter segs pkt, rfl, ?_⟩
  show pkt.length = min pkt.length (capacity segs) ↔ pkt.length ≤ capacity segs
  omega

theorem transports_agree_fits :
    (VhostUser.fill [[0xFF], [0xFF, 0xFF]] [0x04, 0x0E]).used =
      (Virtio.fill (fun segs buf => iovFromBuf buf 0 segs) [[0xFF], [0xFF, 0xFF]] [0x04, 0x0E]).used :=
  (transports_agree_iff copies_iovFromBuf _ _).2.2.2.2.2 (by decide)

/-- A packet of two bytes for a buffer of one: the back-end tells the guest of a byte that it did
not write. -/
theorem short_buffer_overstated :
    VhostUser.fill [[], [0xFF]] [0x04, 0x0E] = ⟨[[], [0x04]], 2⟩ ∧
      ∀ iov, Copies iov → Virtio.fill iov [[], [0xFF]] [0x04, 0x0E] = ⟨[[], [0x04]], 1⟩ := by
  refine ⟨by decide, fun iov h => ?_⟩
  rw [Virtio.fill_eq h]
  decide

end Vbt
