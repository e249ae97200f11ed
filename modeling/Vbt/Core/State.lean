import Vbt.Lib.Slots
import Vbt.Wire.Frame

/-!
# The controller core: state and emission (`vbt_ll.c`)

* `LlConn`, `VbtLl`: the connection entries and the state of a core. The core has no output of its
  own: what it passes to its two callbacks is appended to `VbtLl.out`, newest first, with the size
  of the array the bytes were assembled in;
* `connByHandle`, `connByAA`, `connAlloc`: the connection table;
* `cmdComplete`, `cmdStatus` and the `evt…` functions: packets to the host;
* `sendAdvPdu`, `sendDataPdu`, `sendLlControl`, `sendConnectInd`: PDUs to the medium.
-/

namespace Vbt

def VBT_LL_MAX_CONN : ℕ := 8
def ADV_INTERVAL_MS_DEFAULT : UInt16 := 100
def BASE_CONN_HANDLE : ℕ := 0x0040
def LE_ACL_MTU : ℕ := 251
def LE_ACL_PKTS : UInt8 := 8

def HCI_CMD_PKT : UInt8 := 0x01
def HCI_ACL_PKT : UInt8 := 0x02
def HCI_EVT_PKT : UInt8 := 0x04

def EVT_DISCONN_COMPLETE : UInt8 := 0x05
def EVT_ENCRYPT_CHANGE : UInt8 := 0x08
def EVT_READ_REMOTE_VERSION_CMPL : UInt8 := 0x0C
def EVT_CMD_COMPLETE : UInt8 := 0x0E
def EVT_CMD_STATUS : UInt8 := 0x0F
def EVT_NUM_COMPLETED_PACKETS : UInt8 := 0x13
def EVT_LE_META : UInt8 := 0x3E
def SUB_LE_CONN_COMPLETE : UInt8 := 0x01
def SUB_LE_ADV_REPORT : UInt8 := 0x02
def SUB_LE_CONN_UPDATE_COMPLETE : UInt8 := 0x03
def SUB_LE_READ_REMOTE_FEAT_CMPL : UInt8 := 0x04
def SUB_LE_LTK_REQUEST : UInt8 := 0x05

def HCI_SUCCESS : UInt8 := 0x00
def HCI_UNKNOWN_COMMAND : UInt8 := 0x01
def HCI_REMOTE_USER_TERM : UInt8 := 0x13
def HCI_CONN_TERM_LOCAL_HOST : UInt8 := 0x16

def LL_TERMINATE_IND : UInt8 := 0x02
def LL_ENC_REQ : UInt8 := 0x03
def LL_ENC_RSP : UInt8 := 0x04
def LL_START_ENC_REQ : UInt8 := 0x05
def LL_START_ENC_RSP : UInt8 := 0x06
def LL_FEATURE_REQ : UInt8 := 0x08
def LL_FEATURE_RSP : UInt8 := 0x09
def LL_VERSION_IND : UInt8 := 0x0C
def LL_SLAVE_FEATURE_REQ : UInt8 := 0x0E

def LLID_CONT : UInt8 := 0x01
def LLID_START : UInt8 := 0x02
def LLID_CONTROL : UInt8 := 0x03

/-- `enum ll_state`. -/
inductive LlState
  | idle
  | advertising
  | scanning
  | initiating
  deriving DecidableEq, Repr

/-- `struct ll_conn`; the defaults are those of `memset`. -/
structure LlConn where
  active : Bool := false
  handle : UInt16 := 0
  accessAddr : UInt32 := 0
  role : UInt8 := 0
  peerAddr : BdAddr := BdAddr.zero
  peerAddrType : UInt8 := 0
  encrypting : Bool := false
  encrypted : Bool := false
  deriving DecidableEq

/-- What the core passes to its callbacks: a packet to the host or a frame to the medium. `size` is
the size of the array it was assembled in. -/
inductive Out
  | hci (size : ℕ) (pkt : List UInt8)
  | pdu (size : ℕ) (f : Frame)
  deriving DecidableEq

/-- Advertising or scan response data: the bytes of an array of 31 that are in use. -/
abbrev AdData := { data : List UInt8 // data.length ≤ 31 }

theorem noConns_size : (⟨VBT_LL_MAX_CONN, fun _ => {}⟩ : Slots LlConn).size = VBT_LL_MAX_CONN := rfl

/-- `struct vbt_ll`. -/
structure VbtLl where
  publicAddr : BdAddr
  randomAddr : BdAddr := BdAddr.zero
  randomAddrSet : Bool := false
  state : LlState := .idle
  numHciCmd : UInt8 := 0
  advEnabled : Bool := false
  advType : UInt8 := 0
  advOwnAddrType : UInt8 := 0
  advDirectAddrType : UInt8 := 0
  advDirectAddr : BdAddr := BdAddr.zero
  advIntervalMs : UInt16 := 0
  advData : AdData := ⟨[], by decide⟩
  scanRspData : AdData := ⟨[], by decide⟩
  lastAdvMs : UInt64 := 0
  scanEnabled : Bool := false
  scanType : UInt8 := 0
  scanOwnAddrType : UInt8 := 0
  initPeerAddr : BdAddr := BdAddr.zero
  initPeerAddrType : UInt8 := 0
  initOwnAddrType : UInt8 := 0
  conns : Slots LlConn := ⟨VBT_LL_MAX_CONN, fun _ => {}⟩
  /-- The table has a fixed number of entries. -/
  connsSize : conns.size = VBT_LL_MAX_CONN := by exact noConns_size
  nextAa : UInt32
  out : List Out := []

namespace VbtLl

/-! ### Small helpers -/

/-- `own_source_addr`. -/
def ownSourceAddr (ll : VbtLl) (ownType : UInt8) : BdAddr :=
  if ownType &&& 0x01 ≠ 0 ∧ ll.randomAddrSet then ll.randomAddr else ll.publicAddr

/-- `own_source_addr_type`. -/
def ownSourceAddrType (ownType : UInt8) : UInt8 := if ownType &&& 0x01 ≠ 0 then 1 else 0

/-- `conn_by_handle`. -/
def connByHandle (ll : VbtLl) (h : UInt16) : Option ℕ :=
  ll.conns.find? fun c => c.active && c.handle == h

/-- `conn_by_aa`. -/
def connByAA (ll : VbtLl) (aa : UInt32) : Option ℕ :=
  ll.conns.find? fun c => c.active && c.accessAddr == aa

/-- Update one connection in place. -/
def modConn (ll : VbtLl) (i : ℕ) (f : LlConn → LlConn) : VbtLl :=
  { ll with conns := ll.conns.modify i f, connsSize := ll.connsSize }

/-- The entry that `conn_alloc` returns for slot `i`. -/
def newConn (i : ℕ) : LlConn := { active := true, handle := .ofNat (BASE_CONN_HANDLE + i) }

/-- `conn_alloc`. -/
def connAlloc (ll : VbtLl) : Option (ℕ × VbtLl) :=
  (ll.conns.find? fun c => !c.active).map fun i => (i, ll.modConn i fun _ => newConn i)

/-- `ll_rand32`: the next state, which is also the value. -/
def llRand32 (ll : VbtLl) : VbtLl := { ll with nextAa := ll.nextAa * 1664525 + 1013904223 }

/-! ### HCI event emission -/

/-- `send_hci` of a packet assembled in an array of the given size. -/
def sendHci (ll : VbtLl) (size : ℕ) (pkt : List UInt8) : VbtLl :=
  { ll with out := .hci size pkt :: ll.out }

/-- `p[2] = (uint8_t)(n - 3)`. -/
def patchLen (p : List UInt8) : List UInt8 := p.set 2 (.ofNat (p.length - 3))

/-- The credits in a Command Complete or Command Status. -/
def credits (ll : VbtLl) : UInt8 := if ll.numHciCmd ≠ 0 then ll.numHciCmd else 1

/-- `cmd_complete`. -/
def cmdComplete (ll : VbtLl) (opcode : UInt16) (ret : List UInt8) : VbtLl :=
  ll.sendHci 260 ([HCI_EVT_PKT, EVT_CMD_COMPLETE, .ofNat (3 + ret.length), ll.credits] ++
    bytes16 opcode ++ ret)

/-- `cmd_complete_status`. -/
def cmdCompleteStatus (ll : VbtLl) (opcode : UInt16) (status : UInt8) : VbtLl :=
  ll.cmdComplete opcode [status]

/-- `cmd_status`. -/
def cmdStatus (ll : VbtLl) (opcode : UInt16) (status : UInt8) : VbtLl :=
  ll.sendHci 7 ([HCI_EVT_PKT, EVT_CMD_STATUS, 4, status, ll.credits] ++ bytes16 opcode)

/-- `evt_le_conn_complete`. -/
def evtLeConnComplete (ll : VbtLl) (c : LlConn) (status : UInt8) : VbtLl :=
  ll.sendHci 24 (patchLen ([HCI_EVT_PKT, EVT_LE_META, 0, SUB_LE_CONN_COMPLETE, status] ++
    bytes16 c.handle ++ [c.role, c.peerAddrType] ++ c.peerAddr.bytes ++
    [0x18, 0x00, 0x00, 0x00, 0x2a, 0x00, 0x00]))

/-- `evt_disconn_complete`. -/
def evtDisconnComplete (ll : VbtLl) (handle : UInt16) (reason : UInt8) : VbtLl :=
  ll.sendHci 7 ([HCI_EVT_PKT, EVT_DISCONN_COMPLETE, 4, HCI_SUCCESS] ++ bytes16 handle ++ [reason])

/-- `evt_num_completed`. -/
def evtNumCompleted (ll : VbtLl) (handle n : UInt16) : VbtLl :=
  ll.sendHci 10 ([HCI_EVT_PKT, EVT_NUM_COMPLETED_PACKETS, 5, 1] ++ bytes16 handle ++ bytes16 n)

/-- `evt_encrypt_change`. -/
def evtEncryptChange (ll : VbtLl) (handle : UInt16) (enabled : UInt8) : VbtLl :=
  ll.sendHci 7 ([HCI_EVT_PKT, EVT_ENCRYPT_CHANGE, 4, HCI_SUCCESS] ++ bytes16 handle ++ [enabled])

/-- `evt_le_ltk_request`. -/
def evtLeLtkRequest (ll : VbtLl) (c : LlConn) (rand8 ediv2 : List UInt8) : VbtLl :=
  ll.sendHci 16 (patchLen ([HCI_EVT_PKT, EVT_LE_META, 0, SUB_LE_LTK_REQUEST] ++ bytes16 c.handle ++
    rand8 ++ ediv2))

/-- `report_adv`. -/
def reportAdv (ll : VbtLl) (eventType addrType : UInt8) (addr : BdAddr) (data : List UInt8)
    (rssi : Int8) : VbtLl :=
  ll.sendHci 45 (patchLen ([HCI_EVT_PKT, EVT_LE_META, 0, SUB_LE_ADV_REPORT, 1, eventType, addrType] ++
    addr.bytes ++ [.ofNat data.length] ++ data ++ [rssi.toUInt8]))

/-! ### Medium PDU emission -/

/-- `fill_hdr`. -/
def fillHdr (llType : UInt8) (aa : UInt32) (channel : UInt8) (txAddr : BdAddr) (txAddrType : UInt8)
    (pduLen : ℕ) : VbtFrameHdr where
  magic := VBT_MAGIC
  version := VBT_VERSION
  pduLen := .ofNat pduLen
  accessAddr := aa
  tsfLo := 0
  tsfHi := 0
  flags := ⟨0, 0, 0, 0⟩
  txAddr
  txAddrType
  llType
  channel
  phy := VBT_PHY_1M
  txPowerDbm := VBT_DEFAULT_TXPOWER
  rssi := VBT_DEFAULT_RSSI
  connHandle := 0
  reserved := BdAddr.zero

/-- The callback `pdu_to_medium`, for a PDU assembled in an array of the given size. -/
def pduToMedium (ll : VbtLl) (size : ℕ) (hdr : VbtFrameHdr) (pdu : List UInt8) : VbtLl :=
  { ll with out := .pdu size ⟨hdr, pdu⟩ :: ll.out }

/-- `send_adv_pdu`. -/
def sendAdvPdu (ll : VbtLl) (size : ℕ) (channel : UInt8) (txAddr : BdAddr) (txAddrType : UInt8)
    (pdu : List UInt8) : VbtLl :=
  ll.pduToMedium size (fillHdr VBT_LL_ADV VBT_ADV_ACCESS_ADDR channel txAddr txAddrType pdu.length) pdu

/-- The own address type a connection is run under. -/
def connOwnType (ll : VbtLl) (c : LlConn) : UInt8 :=
  if c.role = 1 then ll.advOwnAddrType else ll.initOwnAddrType

/-- `send_data_pdu`. -/
def sendDataPdu (ll : VbtLl) (size : ℕ) (c : LlConn) (pdu : List UInt8) : VbtLl :=
  ll.pduToMedium size { fillHdr VBT_LL_DATA c.accessAddr 5 (ll.ownSourceAddr (ll.connOwnType c))
    (ownSourceAddrType (ll.connOwnType c)) pdu.length with connHandle := c.handle } pdu

/-- `send_ll_control`. -/
def sendLlControl (ll : VbtLl) (c : LlConn) (opcode : UInt8) (params : List UInt8) : VbtLl :=
  ll.sendDataPdu 64 c ([LLID_CONTROL, .ofNat (1 + params.length), opcode] ++ params)

/-- The TxAdd bit. -/
def txAddBit (atype : UInt8) : UInt8 := if atype ≠ 0 then 0x40 else 0

/-- The RxAdd bit. -/
def rxAddBit (atype : UInt8) : UInt8 := if atype ≠ 0 then 0x80 else 0

/-- The type of the PDU that advertises with `adv_type`. -/
def advPduType (ll : VbtLl) : UInt8 :=
  if ll.advType = 0x02 then VBT_ADV_NONCONN_IND
  else if ll.advType = 0x03 then VBT_ADV_NONCONN_IND
  else if ll.advType = 0x06 then VBT_ADV_SCAN_IND
  else VBT_ADV_IND

/-- The PDU of an advertisement or a scan response: header, AdvA, data. -/
def advPdu (type atype : UInt8) (adva : BdAddr) (data : AdData) : List UInt8 :=
  [type ||| txAddBit atype, .ofNat (6 + data.val.length)] ++ adva.bytes ++ data.val

/-- `emit_advertisement`. -/
def emitAdvertisement (ll : VbtLl) : VbtLl :=
  let adva := ll.ownSourceAddr ll.advOwnAddrType
  let atype := ownSourceAddrType ll.advOwnAddrType
  let pdu := advPdu ll.advPduType atype adva ll.advData
  ((ll.sendAdvPdu 39 VBT_CHAN_ADV_37 adva atype pdu).sendAdvPdu 39 VBT_CHAN_ADV_38 adva atype
    pdu).sendAdvPdu 39 VBT_CHAN_ADV_39 adva atype pdu

/-- `send_scan_rsp`. -/
def sendScanRsp (ll : VbtLl) : VbtLl :=
  let adva := ll.ownSourceAddr ll.advOwnAddrType
  let atype := ownSourceAddrType ll.advOwnAddrType
  ll.sendAdvPdu 39 VBT_CHAN_ADV_37 adva atype (advPdu VBT_SCAN_RSP atype adva ll.scanRspData)

/-- The LLData of a CONNECT_IND after the Access Address. -/
def connectIndParams : List UInt8 :=
  [0x55, 0x55, 0x55, 0x03, 0x00, 0x00, 0x18, 0x00, 0x00, 0x00, 0x2a, 0x00, 0xff, 0xff, 0xff, 0xff,
    0x1f, 0x00]

/-- The PDU of `send_connect_ind`. -/
def connectIndPdu (itype advaType : UInt8) (inita adva : BdAddr) (aa : UInt32) : List UInt8 :=
  [VBT_CONNECT_IND ||| txAddBit itype ||| rxAddBit advaType, 34] ++ inita.bytes ++ adva.bytes ++
    bytes32 aa ++ connectIndParams

/-- `send_connect_ind`. -/
def sendConnectInd (ll : VbtLl) (adva : BdAddr) (advaType : UInt8) (c : LlConn) : VbtLl :=
  let inita := ll.ownSourceAddr ll.initOwnAddrType
  let itype := ownSourceAddrType ll.initOwnAddrType
  ll.sendAdvPdu 36 VBT_CHAN_ADV_37 inita itype (connectIndPdu itype advaType inita adva c.accessAddr)

end VbtLl
end Vbt
