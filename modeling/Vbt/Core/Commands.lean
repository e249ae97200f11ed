import Vbt.Core.State

/-!
# The controller core: packets from the host

* `Op`, the opcodes that `dispatch_command` knows, with `Op.code` and `Op.ofCode`;
* `command`, the `switch` of `dispatch_command`, with one definition for each command that does
  more than return constants;
* `handleAclFromHost`, `hciFromHost`.

Packets are memory and a length, as they are in the source: nothing stops a command from reading
past the length.
-/

namespace Vbt

/-- The opcodes of `dispatch_command`. -/
inductive Op
  | disconnect
  | readRemoteVersion
  | setEventMask
  | reset
  | setEventMaskPage2
  | readLocalVersion
  | readLocalCommands
  | readLocalFeatures
  | readBufferSize
  | readBdAddr
  | leSetEventMask
  | leReadBufferSize
  | leReadLocalFeatures
  | leSetRandomAddress
  | leSetAdvParameters
  | leReadAdvTxPower
  | leSetAdvData
  | leSetScanRspData
  | leSetAdvEnable
  | leSetScanParameters
  | leSetScanEnable
  | leCreateConn
  | leCreateConnCancel
  | leReadWhiteListSize
  | leClearWhiteList
  | leAddWhiteList
  | leRemoveWhiteList
  | leConnUpdate
  | leSetHostChanClass
  | leReadRemoteFeatures
  | leEncrypt
  | leRand
  | leStartEncryption
  | leLtkReqReply
  | leLtkReqNegReply
  | leReadSupportedStates
  deriving DecidableEq, Repr

namespace Op

/-- The values of the `OP_…` macros. -/
def code : Op → UInt16
  | disconnect => 0x0406
  | readRemoteVersion => 0x041D
  | setEventMask => 0x0C01
  | reset => 0x0C03
  | setEventMaskPage2 => 0x0C63
  | readLocalVersion => 0x1001
  | readLocalCommands => 0x1002
  | readLocalFeatures => 0x1003
  | readBufferSize => 0x1005
  | readBdAddr => 0x1009
  | leSetEventMask => 0x2001
  | leReadBufferSize => 0x2002
  | leReadLocalFeatures => 0x2003
  | leSetRandomAddress => 0x2005
  | leSetAdvParameters => 0x2006
  | leReadAdvTxPower => 0x2007
  | leSetAdvData => 0x2008
  | leSetScanRspData => 0x2009
  | leSetAdvEnable => 0x200A
  | leSetScanParameters => 0x200B
  | leSetScanEnable => 0x200C
  | leCreateConn => 0x200D
  | leCreateConnCancel => 0x200E
  | leReadWhiteListSize => 0x200F
  | leClearWhiteList => 0x2010
  | leAddWhiteList => 0x2011
  | leRemoveWhiteList => 0x2012
  | leConnUpdate => 0x2013
  | leSetHostChanClass => 0x2014
  | leReadRemoteFeatures => 0x2016
  | leEncrypt => 0x2017
  | leRand => 0x2018
  | leStartEncryption => 0x2019
  | leLtkReqReply => 0x201A
  | leLtkReqNegReply => 0x201B
  | leReadSupportedStates => 0x201C

/-- All opcodes. -/
def all : List Op :=
  [disconnect, readRemoteVersion, setEventMask, reset, setEventMaskPage2, readLocalVersion,
    readLocalCommands, readLocalFeatures, readBufferSize, readBdAddr, leSetEventMask,
    leReadBufferSize, leReadLocalFeatures, leSetRandomAddress, leSetAdvParameters, leReadAdvTxPower,
    leSetAdvData, leSetScanRspData, leSetAdvEnable, leSetScanParameters, leSetScanEnable,
    leCreateConn, leCreateConnCancel, leReadWhiteListSize, leClearWhiteList, leAddWhiteList,
    leRemoveWhiteList, leConnUpdate, leSetHostChanClass, leReadRemoteFeatures, leEncrypt, leRand,
    leStartEncryption, leLtkReqReply, leLtkReqNegReply, leReadSupportedStates]

/-- The case of the `switch` that an opcode selects. -/
def ofCode (opcode : UInt16) : Option Op := all.find? fun op => op.code == opcode

theorem code_of_ofCode {opcode : UInt16} {op : Op} (h : ofCode opcode = some op) :
    op.code = opcode := by
  simpa using List.find?_some h

theorem ofCode_code (op : Op) : ofCode op.code = some op := by
  cases op <;> decide

end Op

namespace VbtLl

/-! ### Commands -/

/-- `OP_RESET`. -/
def reset (ll : VbtLl) : VbtLl :=
  ({ ll with conns := ⟨VBT_LL_MAX_CONN, fun _ => {}⟩, connsSize := noConns_size, state := .idle,
             advEnabled := false, scanEnabled := false } : VbtLl).cmdCompleteStatus Op.reset.code
    HCI_SUCCESS

/-- The supported commands of `OP_READ_LOCAL_COMMANDS`, octet by octet. -/
def localCommands : List UInt8 :=
  (((((((List.replicate 64 0).set 0 0x20).set 2 0x80).set 5 0xC0).set 22 0x04).set 25 0xF7).set 26
    0xFF).set 27 0xEF |>.set 28 0x0F

/-- `OP_LE_SET_RANDOM_ADDRESS`. -/
def leSetRandomAddress (ll : VbtLl) (params : Mem) (plen : ℕ) : VbtLl :=
  (if 6 ≤ plen then { ll with randomAddr := addrAt params 0, randomAddrSet := true }
    else ll).cmdCompleteStatus Op.leSetRandomAddress.code HCI_SUCCESS

/-- `OP_LE_SET_ADV_PARAMETERS`. -/
def leSetAdvParameters (ll : VbtLl) (params : Mem) (plen : ℕ) : VbtLl :=
  (if 15 ≤ plen then
    { ll with
      advIntervalMs := 100
      advType := params 4
      advOwnAddrType := params 5
      advDirectAddrType := params 6
      advDirectAddr := addrAt params 7 }
    else ll).cmdCompleteStatus Op.leSetAdvParameters.code HCI_SUCCESS

/-- The data of `OP_LE_SET_ADV_DATA` and `OP_LE_SET_SCAN_RSP_DATA`: as many bytes as the first one
says, at most 31, whether or not the packet has them. -/
def adDataOf (params : Mem) : AdData :=
  ⟨(params.shift 1).take (min (params 0).toNat 31), by simp⟩

/-- `OP_LE_SET_ADV_DATA`. -/
def leSetAdvData (ll : VbtLl) (params : Mem) (plen : ℕ) : VbtLl :=
  (if 1 ≤ plen then { ll with advData := adDataOf params } else ll).cmdCompleteStatus
    Op.leSetAdvData.code HCI_SUCCESS

/-- `OP_LE_SET_SCAN_RSP_DATA`. -/
def leSetScanRspData (ll : VbtLl) (params : Mem) (plen : ℕ) : VbtLl :=
  (if 1 ≤ plen then { ll with scanRspData := adDataOf params } else ll).cmdCompleteStatus
    Op.leSetScanRspData.code HCI_SUCCESS

/-- `plen >= 1 && params[0]`. -/
def enableFlag (params : Mem) (plen : ℕ) : Bool := decide (1 ≤ plen) && params 0 != 0

/-- `OP_LE_SET_ADV_ENABLE`. -/
def leSetAdvEnable (ll : VbtLl) (params : Mem) (plen : ℕ) : VbtLl :=
  (if enableFlag params plen then
      { ll with advEnabled := true, state := .advertising, lastAdvMs := 0 }
    else
      { ll with advEnabled := false, state := if ll.state = LlState.advertising then .idle else ll.state }
    ).cmdCompleteStatus Op.leSetAdvEnable.code HCI_SUCCESS

/-- `OP_LE_SET_SCAN_PARAMETERS`. -/
def leSetScanParameters (ll : VbtLl) (params : Mem) (plen : ℕ) : VbtLl :=
  (if 1 ≤ plen then
      { ll with
        scanType := params 0
        scanOwnAddrType := if 6 ≤ plen then params 5 else ll.scanOwnAddrType }
    else ll).cmdCompleteStatus Op.leSetScanParameters.code HCI_SUCCESS

/-- `OP_LE_SET_SCAN_ENABLE`. -/
def leSetScanEnable (ll : VbtLl) (params : Mem) (plen : ℕ) : VbtLl :=
  (if enableFlag params plen then { ll with scanEnabled := true, state := .scanning }
    else
      { ll with scanEnabled := false, state := if ll.state = LlState.scanning then .idle else ll.state }
    ).cmdCompleteStatus Op.leSetScanEnable.code HCI_SUCCESS

/-- `handle_le_create_conn`. -/
def handleLeCreateConn (ll : VbtLl) (params : Mem) (plen : ℕ) : VbtLl :=
  if plen < 13 then ll.cmdStatus Op.leCreateConn.code HCI_UNKNOWN_COMMAND
  else
    ({ ll with
        initPeerAddrType := params 5
        initPeerAddr := addrAt params 6
        initOwnAddrType := params 12
        state := .initiating } : VbtLl).cmdStatus Op.leCreateConn.code HCI_SUCCESS

/-- `OP_LE_CREATE_CONN_CANCEL`. -/
def leCreateConnCancel (ll : VbtLl) : VbtLl :=
  ({ ll with state := if ll.state = .initiating then .idle else ll.state } : VbtLl).cmdCompleteStatus
    Op.leCreateConnCancel.code HCI_SUCCESS

/-- The handle at the head of the parameters. -/
def handleOf (params : Mem) : UInt16 := le16 (params 0) (params 1)

/-- `OP_LE_CONN_UPDATE`. -/
def leConnUpdate (ll : VbtLl) (params : Mem) (plen : ℕ) : VbtLl :=
  let ll := ll.cmdStatus Op.leConnUpdate.code HCI_SUCCESS
  if 2 ≤ plen then
    match ll.connByHandle (handleOf params) with
    | none => ll
    | some _ =>
      ll.sendHci 16 (patchLen ([HCI_EVT_PKT, EVT_LE_META, 0, SUB_LE_CONN_UPDATE_COMPLETE,
        HCI_SUCCESS] ++ bytes16 (handleOf params) ++ [0x18, 0x00, 0x00, 0x00, 0x2a, 0x00]))
  else ll

/-- `OP_LE_READ_REMOTE_FEATURES`. -/
def leReadRemoteFeatures (ll : VbtLl) (params : Mem) (plen : ℕ) : VbtLl :=
  let ll := ll.cmdStatus Op.leReadRemoteFeatures.code HCI_SUCCESS
  if 2 ≤ plen then
    ll.sendHci 16 (patchLen ([HCI_EVT_PKT, EVT_LE_META, 0, SUB_LE_READ_REMOTE_FEAT_CMPL,
      HCI_SUCCESS] ++ bytes16 (handleOf params) ++ [0x01] ++ List.replicate 7 0x00))
  else ll

/-- `OP_LE_RAND`. -/
def leRand (ll : VbtLl) : VbtLl :=
  let ll1 := ll.llRand32
  let ll2 := ll1.llRand32
  ll2.cmdComplete Op.leRand.code ([HCI_SUCCESS] ++ bytes32 ll1.nextAa ++ bytes32 ll2.nextAa)

/-- `OP_LE_ENCRYPT`. -/
def leEncrypt (ll : VbtLl) (params : Mem) (plen : ℕ) : VbtLl :=
  ll.cmdComplete Op.leEncrypt.code ([HCI_SUCCESS] ++
    if 32 ≤ plen then (params.shift 16).take 16 else List.replicate 16 0)

/-- `OP_LE_START_ENCRYPTION`. -/
def leStartEncryption (ll : VbtLl) (params : Mem) (plen : ℕ) : VbtLl :=
  let ll := ll.cmdStatus Op.leStartEncryption.code HCI_SUCCESS
  if 2 ≤ plen then
    match ll.connByHandle (handleOf params) with
    | none => ll
    | some i =>
      let ll := ll.modConn i fun c => { c with encrypting := true }
      ll.sendLlControl (ll.conns i) LL_ENC_REQ
        ((if 28 ≤ plen then (params.shift 2).take 10 else List.replicate 10 0) ++
          List.replicate 12 0)
  else ll

/-- The handle of a reply to a key request, 0 if it is missing. -/
def ltkHandle (params : Mem) (plen : ℕ) : UInt16 := if 2 ≤ plen then handleOf params else 0

/-- `OP_LE_LTK_REQ_REPLY`. -/
def leLtkReqReply (ll : VbtLl) (params : Mem) (plen : ℕ) : VbtLl :=
  let h := ltkHandle params plen
  let c := ll.connByHandle h
  let ll := ll.cmdComplete Op.leLtkReqReply.code ([HCI_SUCCESS] ++ bytes16 h)
  match c with
  | none => ll
  | some i => ll.sendLlControl (ll.conns i) LL_START_ENC_REQ []

/-- `OP_LE_LTK_REQ_NEG_REPLY`. -/
def leLtkReqNegReply (ll : VbtLl) (params : Mem) (plen : ℕ) : VbtLl :=
  ll.cmdComplete Op.leLtkReqNegReply.code ([HCI_SUCCESS] ++ bytes16 (ltkHandle params plen))

/-- `OP_DISCONNECT`. -/
def disconnect (ll : VbtLl) (params : Mem) (plen : ℕ) : VbtLl :=
  let ll := ll.cmdStatus Op.disconnect.code HCI_SUCCESS
  if 3 ≤ plen then
    match ll.connByHandle (handleOf params) with
    | none => ll
    | some i =>
      ((ll.sendLlControl (ll.conns i) LL_TERMINATE_IND [params 2]).modConn i fun c =>
        { c with active := false }).evtDisconnComplete (handleOf params) HCI_CONN_TERM_LOCAL_HOST
  else ll

/-- `OP_READ_REMOTE_VERSION`. -/
def readRemoteVersion (ll : VbtLl) (params : Mem) (plen : ℕ) : VbtLl :=
  let ll := ll.cmdStatus Op.readRemoteVersion.code HCI_SUCCESS
  if 2 ≤ plen then
    ll.sendHci 11 ([HCI_EVT_PKT, EVT_READ_REMOTE_VERSION_CMPL, 8, HCI_SUCCESS] ++
      bytes16 (handleOf params) ++ [0x0c, 0x3f, 0x00, 0x00, 0x00])
  else ll

/-- The `switch` of `dispatch_command`. -/
def command (ll : VbtLl) (op : Op) (params : Mem) (plen : ℕ) : VbtLl :=
  match op with
  | .reset => ll.reset
  | .setEventMask | .setEventMaskPage2 | .leSetEventMask | .leSetHostChanClass | .leClearWhiteList
  | .leAddWhiteList | .leRemoveWhiteList => ll.cmdCompleteStatus op.code HCI_SUCCESS
  | .readLocalVersion =>
    ll.cmdComplete op.code [HCI_SUCCESS, 0x0c, 0x00, 0x00, 0x0c, 0x3f, 0x00, 0x00, 0x00]
  | .readLocalCommands => ll.cmdComplete op.code ([HCI_SUCCESS] ++ localCommands)
  | .readLocalFeatures => ll.cmdComplete op.code [HCI_SUCCESS, 0, 0, 0, 0, 0x60, 0, 0, 0]
  | .leReadLocalFeatures => ll.cmdComplete op.code [HCI_SUCCESS, 0x01, 0, 0, 0, 0, 0, 0, 0]
  | .readBufferSize => ll.cmdComplete op.code [HCI_SUCCESS, 251, 0, 0, LE_ACL_PKTS, 0, 0, 0]
  | .leReadBufferSize => ll.cmdComplete op.code [HCI_SUCCESS, 251, 0, LE_ACL_PKTS]
  | .readBdAddr => ll.cmdComplete op.code ([HCI_SUCCESS] ++ ll.publicAddr.bytes)
  | .leReadAdvTxPower => ll.cmdComplete op.code [HCI_SUCCESS, 0x00]
  | .leReadWhiteListSize => ll.cmdComplete op.code [HCI_SUCCESS, 8]
  | .leReadSupportedStates =>
    ll.cmdComplete op.code [HCI_SUCCESS, 0xff, 0xff, 0xff, 0xff, 0xff, 0xff, 0xff, 0x03]
  | .leSetRandomAddress => ll.leSetRandomAddress params plen
  | .leSetAdvParameters => ll.leSetAdvParameters params plen
  | .leSetAdvData => ll.leSetAdvData params plen
  | .leSetScanRspData => ll.leSetScanRspData params plen
  | .leSetAdvEnable => ll.leSetAdvEnable params plen
  | .leSetScanParameters => ll.leSetScanParameters params plen
  | .leSetScanEnable => ll.leSetScanEnable params plen
  | .leCreateConn => ll.handleLeCreateConn params plen
  | .leCreateConnCancel => ll.leCreateConnCancel
  | .leConnUpdate => ll.leConnUpdate params plen
  | .leReadRemoteFeatures => ll.leReadRemoteFeatures params plen
  | .leRand => ll.leRand
  | .leEncrypt => ll.leEncrypt params plen
  | .leStartEncryption => ll.leStartEncryption params plen
  | .leLtkReqReply => ll.leLtkReqReply params plen
  | .leLtkReqNegReply => ll.leLtkReqNegReply params plen
  | .disconnect => ll.disconnect params plen
  | .readRemoteVersion => ll.readRemoteVersion params plen

/-- `dispatch_command`. -/
def dispatchCommand (ll : VbtLl) (pkt : Mem) (len : ℕ) : VbtLl :=
  if len < 4 then ll
  else
    let opcode := le16 (pkt 1) (pkt 2)
    let plen := if len < 4 + (pkt 3).toNat then len - 4 else (pkt 3).toNat
    match Op.ofCode opcode with
    | some op => ll.command op (pkt.shift 4) plen
    | none => ll.cmdCompleteStatus opcode HCI_UNKNOWN_COMMAND

/-! ### ACL data -/

/-- The part of an ACL packet that `handle_acl_from_host` sends: the declared length, at most what
the packet has and at most `LE_ACL_MTU`. -/
def aclLen (pkt : Mem) (len : ℕ) : ℕ :=
  let dlen := (le16 (pkt 3) (pkt 4)).toNat
  let dlen := if len < 5 + dlen then len - 5 else dlen
  if LE_ACL_MTU < dlen then LE_ACL_MTU else dlen

/-- `handle_acl_from_host`. -/
def handleAclFromHost (ll : VbtLl) (pkt : Mem) (len : ℕ) : VbtLl :=
  if len < 5 then ll
  else
    let handle := le16 (pkt 1) (pkt 2) &&& 0x0fff
    match ll.connByHandle handle with
    | none => ll
    | some i =>
      let dlen := aclLen pkt len
      (ll.sendDataPdu 261 (ll.conns i) ([LLID_START, .ofNat dlen] ++
        (pkt.shift 5).take dlen)).evtNumCompleted handle 1

/-- `vbt_ll_hci_from_host`. -/
def hciFromHost (ll : VbtLl) (pkt : Mem) (len : ℕ) : VbtLl :=
  if len < 1 then ll
  else if pkt 0 = HCI_CMD_PKT then ll.dispatchCommand pkt len
  else if pkt 0 = HCI_ACL_PKT then ll.handleAclFromHost pkt len
  else ll

end VbtLl
end Vbt
