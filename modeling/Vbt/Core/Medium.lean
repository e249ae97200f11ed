import Vbt.Core.Commands

/-!
# The controller core: PDUs from the medium, ticks and whole runs

* `aclToHost`, `handleLlControl`, `pduFromMedium`, `tick`;
* `vbtLlNew`, `Input`, `step`, `run`: a core from its creation, through any sequence of calls of
  its three entry points.
-/

namespace Vbt
namespace VbtLl

/-! ### Data PDUs -/

/-- `acl_to_host`. -/
def aclToHost (ll : VbtLl) (handle : UInt16) (l2cap : List UInt8) : VbtLl :=
  if LE_ACL_MTU + 4 < l2cap.length then ll
  else
    let hf := handle ||| 0x2000
    ll.sendHci 271 ([HCI_ACL_PKT] ++ bytes16 hf ++ bytes16 (.ofNat l2cap.length) ++ l2cap)

/-- Mark a connection encrypted and say so, unless it is encrypted already. -/
def markEncrypted (ll : VbtLl) (i : ℕ) : VbtLl :=
  if (ll.conns i).encrypted then ll
  else (ll.modConn i fun c => { c with encrypted := true }).evtEncryptChange (ll.conns i).handle 1

/-- The case `LL_ENC_REQ` of `handle_ll_control`. -/
def handleEncReq (ll : VbtLl) (i : ℕ) (payload : Mem) (plen : ℕ) : VbtLl :=
  let ll := ll.modConn i fun c => { c with encrypting := true }
  let rand8 := if 23 ≤ plen then (payload.shift 1).take 8 else List.replicate 8 0
  let ediv := if 23 ≤ plen then (payload.shift 9).take 2 else List.replicate 2 0
  (ll.sendLlControl (ll.conns i) LL_ENC_RSP (List.replicate 12 0)).evtLeLtkRequest (ll.conns i) rand8
    ediv

/-- `handle_ll_control`, for the connection in slot `i`. -/
def handleLlControl (ll : VbtLl) (i : ℕ) (payload : Mem) (plen : ℕ) : VbtLl :=
  if plen < 1 then ll
  else if payload 0 = LL_TERMINATE_IND then
    (ll.modConn i fun c => { c with active := false }).evtDisconnComplete (ll.conns i).handle
      (if 2 ≤ plen then payload 1 else HCI_REMOTE_USER_TERM)
  else if payload 0 = LL_VERSION_IND then
    ll.sendLlControl (ll.conns i) LL_VERSION_IND [0x0c, 0x0f, 0x00, 0x0f, 0x00]
  else if payload 0 = LL_FEATURE_REQ ∨ payload 0 = LL_SLAVE_FEATURE_REQ then
    ll.sendLlControl (ll.conns i) LL_FEATURE_RSP [0x01, 0, 0, 0, 0, 0, 0, 0]
  else if payload 0 = LL_ENC_REQ then ll.handleEncReq i payload plen
  else if payload 0 = LL_START_ENC_REQ then
    (ll.sendLlControl (ll.conns i) LL_START_ENC_RSP []).markEncrypted i
  else if payload 0 = LL_START_ENC_RSP then ll.markEncrypted i
  else ll

/-- The data PDUs of `vbt_ll_pdu_from_medium`. -/
def dataFromMedium (ll : VbtLl) (hdr : VbtFrameHdr) (pdu : Mem) (bodyLen : ℕ) : VbtLl :=
  match ll.connByAA hdr.accessAddr with
  | none => ll
  | some i =>
    let llid := pdu 0 &&& 0x03
    if llid = LLID_CONTROL then ll.handleLlControl i (pdu.shift 2) bodyLen
    else if llid = LLID_START ∨ llid = LLID_CONT then
      if 0 < bodyLen then ll.aclToHost (ll.conns i).handle ((pdu.shift 2).take bodyLen) else ll
    else ll

/-! ### Advertising PDUs -/

/-- The Access Address a central chooses, from a pseudo-random value. -/
def chosenAA (r : UInt32) : UInt32 :=
  let aa := (r &&& 0x7fffffff) ||| 0x00400000
  if aa = VBT_ADV_ACCESS_ADDR then aa ^^^ 0x1 else aa

/-- Bit 31 is clear, so it is not the address of the advertising channels. -/
theorem chosenAA_eq (r : UInt32) : chosenAA r = (r &&& 0x7fffffff) ||| 0x00400000 := by
  refine if_neg fun h => ?_
  have hbit := congrArg (fun x : UInt32 => x.toBitVec.getLsbD 31) h
  simp [VBT_ADV_ACCESS_ADDR] at hbit

/-- The central's side of a connection: what an initiating core does on the advertisement of its
target. -/
def initiate (ll : VbtLl) (adva : BdAddr) (txadd : UInt8) : VbtLl :=
  match ll.connAlloc with
  | none => ll
  | some (i, ll) =>
    let ll := ll.llRand32
    let ll := ll.modConn i fun c =>
      { c with accessAddr := chosenAA ll.nextAa, role := 0, peerAddrType := txadd, peerAddr := adva }
    let ll := ll.sendConnectInd adva txadd (ll.conns i)
    ({ ll with state := .idle, scanEnabled := false } : VbtLl).evtLeConnComplete (ll.conns i)
      HCI_SUCCESS

/-- The event type of an advertising report. -/
def reportType (type : UInt8) : UInt8 :=
  if type = VBT_ADV_IND then 0x00 else if type = VBT_ADV_DIRECT_IND then 0x01
  else if type = VBT_ADV_SCAN_IND then 0x02 else 0x03

/-- The SCAN_REQ of an active scanner. -/
def sendScanReq (ll : VbtLl) (adva : BdAddr) (txadd : UInt8) : VbtLl :=
  let sa := ll.ownSourceAddr ll.scanOwnAddrType
  let st := ownSourceAddrType ll.scanOwnAddrType
  ll.sendAdvPdu 14 VBT_CHAN_ADV_37 sa st
    ([VBT_SCAN_REQ ||| txAddBit st ||| rxAddBit txadd, 12] ++ sa.bytes ++ adva.bytes)

/-- `ADV_IND`, `ADV_DIRECT_IND`, `ADV_NONCONN_IND` and `ADV_SCAN_IND` from the medium. -/
def advFromMedium (ll : VbtLl) (hdr : VbtFrameHdr) (type txadd : UInt8) (body : Mem) (bodyLen : ℕ) :
    VbtLl :=
  if bodyLen < 6 then ll
  else
    let adva := addrAt body 0
    if ll.state = .initiating ∧ (type = VBT_ADV_IND ∨ type = VBT_ADV_DIRECT_IND) ∧
        adva = ll.initPeerAddr then
      ll.initiate adva txadd
    else if ll.scanEnabled then
      let ll := ll.reportAdv (reportType type) txadd adva ((body.shift 6).take (bodyLen - 6)) hdr.rssi
      if ll.scanType = 1 ∧ (type = VBT_ADV_IND ∨ type = VBT_ADV_SCAN_IND) then
        ll.sendScanReq adva txadd
      else ll
    else ll

/-- `SCAN_REQ` from the medium. -/
def scanReqFromMedium (ll : VbtLl) (body : Mem) (bodyLen : ℕ) : VbtLl :=
  if ll.advEnabled ∧ 12 ≤ bodyLen then
    if addrAt body 6 = ll.ownSourceAddr ll.advOwnAddrType then ll.sendScanRsp else ll
  else ll

/-- `SCAN_RSP` from the medium. -/
def scanRspFromMedium (ll : VbtLl) (hdr : VbtFrameHdr) (txadd : UInt8) (body : Mem) (bodyLen : ℕ) :
    VbtLl :=
  if ll.scanEnabled ∧ 6 ≤ bodyLen then
    ll.reportAdv 0x04 txadd (addrAt body 0) ((body.shift 6).take (bodyLen - 6)) hdr.rssi
  else ll

/-- `CONNECT_IND` from the medium: the peripheral's side of a connection. -/
def connectIndFromMedium (ll : VbtLl) (txadd : UInt8) (body : Mem) (bodyLen : ℕ) : VbtLl :=
  if ll.advEnabled = false ∨ bodyLen < 34 then ll
  else if addrAt body 6 ≠ ll.ownSourceAddr ll.advOwnAddrType then ll
  else
    match ll.connAlloc with
    | none => ll
    | some (i, ll) =>
      let ll := ll.modConn i fun c =>
        { c with
          accessAddr := le32 (body 12) (body 13) (body 14) (body 15)
          role := 1
          peerAddrType := txadd
          peerAddr := addrAt body 0 }
      ({ ll with advEnabled := false, state := .idle } : VbtLl).evtLeConnComplete (ll.conns i)
        HCI_SUCCESS

/-- The length byte of a PDU, at most what follows it. -/
def bodyLenOf (pdu : Mem) (pduLen : ℕ) : ℕ :=
  if pduLen < 2 + (pdu 1).toNat then pduLen - 2 else (pdu 1).toNat

/-- `vbt_ll_pdu_from_medium`. -/
def pduFromMedium (ll : VbtLl) (hdr : VbtFrameHdr) (pdu : Mem) (pduLen : ℕ) : VbtLl :=
  if pduLen < 2 then ll
  else if hdr.llType = VBT_LL_ADV then
    let type := pdu 0 &&& VBT_ADV_PDU_TYPE_MASK
    let txadd := if pdu 0 &&& 0x40 ≠ 0 then 1 else 0
    let bodyLen := bodyLenOf pdu pduLen
    let body := pdu.shift 2
    if type = VBT_ADV_IND ∨ type = VBT_ADV_DIRECT_IND ∨ type = VBT_ADV_NONCONN_IND ∨
        type = VBT_ADV_SCAN_IND then
      ll.advFromMedium hdr type txadd body bodyLen
    else if type = VBT_SCAN_REQ then ll.scanReqFromMedium body bodyLen
    else if type = VBT_SCAN_RSP then ll.scanRspFromMedium hdr txadd body bodyLen
    else if type = VBT_CONNECT_IND then ll.connectIndFromMedium txadd body bodyLen
    else ll
  else if hdr.llType = VBT_LL_DATA then ll.dataFromMedium hdr pdu (bodyLenOf pdu pduLen)
  else ll

/-- `vbt_ll_tick`. -/
def tick (ll : VbtLl) (nowMs : UInt64) : VbtLl :=
  if ll.advEnabled then
    if ll.lastAdvMs = 0 ∨ ll.advIntervalMs.toUInt64 ≤ nowMs - ll.lastAdvMs then
      { ll.emitAdvertisement with lastAdvMs := nowMs }
    else ll
  else ll

/-! ### Runs -/

/-- `vbt_ll_new`. -/
def vbtLlNew (bdaddr : BdAddr) : VbtLl where
  publicAddr := bdaddr
  numHciCmd := 1
  advIntervalMs := ADV_INTERVAL_MS_DEFAULT
  nextAa := bdaddr.bytes.foldl (fun aa b => aa * 33 + b.toUInt32) 0x811c9dc5

/-- One call of an entry point. -/
inductive Input
  | hci (pkt : Mem) (len : ℕ)
  | pdu (hdr : VbtFrameHdr) (pdu : Mem) (len : ℕ)
  | tick (nowMs : UInt64)

/-- A core handles one call. -/
def step (ll : VbtLl) : Input → VbtLl
  | .hci pkt len => ll.hciFromHost pkt len
  | .pdu hdr pdu len => ll.pduFromMedium hdr pdu len
  | .tick nowMs => ll.tick nowMs

/-- A core handles a sequence of calls. -/
def run (ll : VbtLl) (is : List Input) : VbtLl := is.foldl step ll

end VbtLl
end Vbt
