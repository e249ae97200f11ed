import Vbt.Lib.Bytes

/-!
# The wire protocol (`vbt.h`)

Every message between a node and the hub is a four-byte length in network order followed by the
message: a hello, or a 44-byte frame header and one Link-Layer PDU.

* `BdAddr`, the six octets of a device address; `VbtFrameHdr`, the header, field by field;
* `hdrBytes` and `hdrOfBytes`, the `memcpy` of the header to and from the wire, with the round
  trip `hdrOfBytes_hdrBytes`;
* `Frame`, a header with its PDU, and `Frame.payload`, the message it travels in.

Multi-byte fields are little-endian. The 32-bit `flags` word is kept as its four bytes, since
the hub only ever reads and writes byte 3 of it (the TTL).
-/

namespace Vbt

def VBT_MAGIC : UInt32 := 0x31544256
def VBT_VERSION : UInt16 := 1
def VBT_MAX_PDU_SIZE : ℕ := 512
def VBT_HDR_SIZE : ℕ := 44
def VBT_MAX_MSG_SIZE : ℕ := VBT_HDR_SIZE + VBT_MAX_PDU_SIZE
def VBT_RXBUF_SIZE : ℕ := 4 + VBT_HDR_SIZE + VBT_MAX_PDU_SIZE
def VBT_LL_ADV : UInt8 := 0x01
def VBT_LL_DATA : UInt8 := 0x02
def VBT_PHY_1M : UInt8 := 1
def VBT_CHAN_ADV_37 : UInt8 := 37
def VBT_CHAN_ADV_38 : UInt8 := 38
def VBT_CHAN_ADV_39 : UInt8 := 39
def VBT_ADV_ACCESS_ADDR : UInt32 := 0x8E89BED6
def VBT_ADV_PDU_TYPE_MASK : UInt8 := 0x0F
def VBT_ADV_IND : UInt8 := 0x00
def VBT_ADV_DIRECT_IND : UInt8 := 0x01
def VBT_ADV_NONCONN_IND : UInt8 := 0x02
def VBT_SCAN_REQ : UInt8 := 0x03
def VBT_SCAN_RSP : UInt8 := 0x04
def VBT_CONNECT_IND : UInt8 := 0x05
def VBT_ADV_SCAN_IND : UInt8 := 0x06
def VBT_CONNIND_INITA_OFF : ℕ := 2
def VBT_CONNIND_ADVA_OFF : ℕ := 8
def VBT_CONNIND_AA_OFF : ℕ := 14
def VBT_HELLO_MAGIC : UInt32 := 0x48544256
def VBT_HELLO_FLAG_PHYSICAL : UInt8 := 0x01
def VBT_HELLO_FLAG_MONITOR : UInt8 := 0x02
def VBT_DEFAULT_RSSI : Int8 := -40
def VBT_DEFAULT_TXPOWER : Int8 := 0
def VBT_DEFAULT_RX_SENS : ℤ := -95

/-- Six octets, in the order they have in memory. -/
structure BdAddr where
  b0 : UInt8
  b1 : UInt8
  b2 : UInt8
  b3 : UInt8
  b4 : UInt8
  b5 : UInt8
  deriving DecidableEq, Repr, Inhabited

/-- The all-zero address, which the hub takes for "no address". -/
def BdAddr.zero : BdAddr := ⟨0, 0, 0, 0, 0, 0⟩

/-- `addr_is_zero`. -/
def BdAddr.isZero (a : BdAddr) : Bool := a = BdAddr.zero

/-- The octets of an address. -/
def BdAddr.bytes (a : BdAddr) : List UInt8 := [a.b0, a.b1, a.b2, a.b3, a.b4, a.b5]

/-- The six octets behind a pointer. -/
def addrAt (m : Mem) (off : ℕ) : BdAddr :=
  ⟨m off, m (off + 1), m (off + 2), m (off + 3), m (off + 4), m (off + 5)⟩

/-- The little-endian word behind a pointer. -/
def le32At (m : Mem) (off : ℕ) : UInt32 := le32 (m off) (m (off + 1)) (m (off + 2)) (m (off + 3))

/-- The four bytes of the `flags` word; `b3` is the TTL. -/
structure FlagBytes where
  b0 : UInt8
  b1 : UInt8
  b2 : UInt8
  b3 : UInt8
  deriving DecidableEq, Repr, Inhabited

/-- `struct vbt_frame_hdr`. -/
structure VbtFrameHdr where
  magic : UInt32
  version : UInt16
  pduLen : UInt16
  accessAddr : UInt32
  tsfLo : UInt32
  tsfHi : UInt32
  flags : FlagBytes
  txAddr : BdAddr
  txAddrType : UInt8
  llType : UInt8
  channel : UInt8
  phy : UInt8
  txPowerDbm : Int8
  rssi : Int8
  connHandle : UInt16
  reserved : BdAddr
  deriving DecidableEq, Inhabited

/-- The two bytes of a word, as they stand in memory. -/
def bytes16 (x : UInt16) : List UInt8 := [byteAt x.toNat 0, byteAt x.toNat 1]

/-- The four bytes of a word, as they stand in memory. -/
def bytes32 (x : UInt32) : List UInt8 :=
  [byteAt x.toNat 0, byteAt x.toNat 1, byteAt x.toNat 2, byteAt x.toNat 3]

/-- The header as it stands in memory. -/
def hdrBytes (h : VbtFrameHdr) : List UInt8 :=
  bytes32 h.magic ++ bytes16 h.version ++ bytes16 h.pduLen ++ bytes32 h.accessAddr ++
    bytes32 h.tsfLo ++ bytes32 h.tsfHi ++ [h.flags.b0, h.flags.b1, h.flags.b2, h.flags.b3] ++
    h.txAddr.bytes ++ [h.txAddrType, h.llType, h.channel, h.phy, h.txPowerDbm.toUInt8,
    h.rssi.toUInt8] ++ bytes16 h.connHandle ++ h.reserved.bytes

/-- The header behind a pointer. -/
def hdrOfBytes (m : Mem) : VbtFrameHdr where
  magic := le32At m 0
  version := le16 (m 4) (m 5)
  pduLen := le16 (m 6) (m 7)
  accessAddr := le32At m 8
  tsfLo := le32At m 12
  tsfHi := le32At m 16
  flags := ⟨m 20, m 21, m 22, m 23⟩
  txAddr := addrAt m 24
  txAddrType := m 30
  llType := m 31
  channel := m 32
  phy := m 33
  txPowerDbm := (m 34).toInt8
  rssi := (m 35).toInt8
  connHandle := le16 (m 36) (m 37)
  reserved := addrAt m 38

@[simp] theorem hdrBytes_length (h : VbtFrameHdr) : (hdrBytes h).length = VBT_HDR_SIZE := rfl

/-- Copying a header to the wire and back gives the header, whatever follows it. -/
theorem hdrOfBytes_hdrBytes (h : VbtFrameHdr) (rest : List UInt8) :
    hdrOfBytes (fun i => (hdrBytes h ++ rest).getD i 0) = h := by
  simp only [hdrBytes, bytes16, bytes32, BdAddr.bytes, List.cons_append, List.nil_append,
    hdrOfBytes, le32At, addrAt, List.getD_cons_zero, List.getD_cons_succ, Nat.reduceAdd,
    le32_byteAt, le16_byteAt, Int8.toInt8_toUInt8]

/-- A header with its PDU. -/
structure Frame where
  hdr : VbtFrameHdr
  pdu : List UInt8
  deriving DecidableEq, Inhabited

/-- The message a frame travels in, without the length in front of it. -/
def Frame.payload (f : Frame) : List UInt8 := hdrBytes f.hdr ++ f.pdu

/-- A frame as a controller core or the hub makes it. -/
structure Frame.Valid (f : Frame) : Prop where
  magic : f.hdr.magic = VBT_MAGIC
  length : f.pdu.length = f.hdr.pduLen.toNat
  short : f.pdu.length ≤ VBT_MAX_PDU_SIZE

instance (f : Frame) : Decidable f.Valid :=
  decidable_of_iff (f.hdr.magic = VBT_MAGIC ∧ f.pdu.length = f.hdr.pduLen.toNat ∧
    f.pdu.length ≤ VBT_MAX_PDU_SIZE) ⟨fun h => ⟨h.1, h.2.1, h.2.2⟩, fun h => ⟨h.1, h.2, h.3⟩⟩

/-- The message a client introduces itself with. -/
def helloPayload (nid : List UInt8) (flags : UInt8) : List UInt8 :=
  bytes32 VBT_HELLO_MAGIC ++ nid ++ [0, flags]

/-- The four-byte length and the payload, as they are written to the socket. -/
def wire (payload : List UInt8) : List UInt8 :=
  [byteAt payload.length 3, byteAt payload.length 2, byteAt payload.length 1,
    byteAt payload.length 0] ++ payload

theorem wire_length (payload : List UInt8) : (wire payload).length = 4 + payload.length := by
  simp only [wire, List.length_append, List.length_cons, List.length_nil]

end Vbt
