import Vbt.Core.Requests

/-!
# Discovery

An advertiser is set up by its host, sends its data on three channels at a tick, and answers the
SCAN_REQ of an active scanner with its scan response data.

* `adCommand`, `LastSet`: the data a host has set, with `advData_eq` and `scanRspData_eq`: it is
  what the core sends;
* `Report`, `readReport`: an LE Advertising Report as the host of the scanner reads it;
* `step_adv`, `step_scanReq`, `step_scanRsp`: the three PDUs of the exchange at their receivers;
* `discovery`: the whole round trip.
-/

namespace Vbt
namespace VbtLl

/-! ### The data a host has set -/

/-- The advertising and the scan response data. -/
def ads (ll : VbtLl) : AdData × AdData := (ll.advData, ll.scanRspData)

/-- What a command makes of them. -/
def adsAfter (d : AdData × AdData) (op : Op) (params : Mem) (plen : ℕ) : AdData × AdData :=
  match op with
  | .leSetAdvData => if 1 ≤ plen then (adDataOf params, d.2) else d
  | .leSetScanRspData => if 1 ≤ plen then (d.1, adDataOf params) else d
  | _ => d

theorem ads_sets (ll : VbtLl) (op : Op) (params : Mem) (plen : ℕ) :
    (ll.sets op params plen).ads = adsAfter ll.ads op params plen := by
  cases op with
  | leSetRandomAddress | leSetAdvParameters | leSetAdvData | leSetScanRspData | leSetAdvEnable
  | leSetScanParameters | leSetScanEnable | leCreateConn =>
    unfold sets adsAfter
    dsimp only
    split_ifs <;> rfl
  | _ => rfl

theorem ads_steady {ll ll' : VbtLl} (h : Steady ll ll') : ll'.ads = ll.ads := by
  obtain ⟨_, _, _, _, _, rfl⟩ := h
  rfl

theorem ads_command (ll : VbtLl) {i : Input} {op : Op} (h : i.Is op) :
    (ll.step i).ads = adsAfter ll.ads op i.params i.plen := by
  rw [step_command ll h, ads_steady (command_answered ll i.params i.plen op).steady, ads_sets]

/-- Only the commands for them change the data. -/
theorem ads_step (ll : VbtLl) (i : Input) : (ll.step i).ads = ll.ads ∨
    ∃ op, i.Is op ∧ (ll.step i).ads = adsAfter ll.ads op i.params i.plen := by
  cases hop : i.opcode with
  | some opcode =>
    cases hcode : Op.ofCode opcode with
    | some op =>
      have his : i.Is op := Input.is_of_ofCode hop hcode
      exact Or.inr ⟨op, his, ads_command ll his⟩
    | none =>
      have hsteady := ads_steady (step_answered ll hop).steady
      rw [settings, hcode] at hsteady
      exact Or.inl hsteady
  | none =>
    left
    cases step_reacts ll hop with
    | place k txadd free ready heard does => rw [does]; rfl
    | accept k inita txadd aa free ready heard does => rw [does]; rfl
    | routine opens emits => exact ads_steady emits.steady

theorem advData_step {ll : VbtLl} {i : Input} (h : ¬ i.Is .leSetAdvData) :
    (ll.step i).advData = ll.advData := by
  rcases ads_step ll i with hsame | ⟨op, his, hafter⟩
  · exact congrArg Prod.fst hsame
  · refine (congrArg Prod.fst hafter).trans ?_
    cases op with
    | leSetAdvData => exact absurd his h
    | leSetScanRspData =>
      unfold adsAfter
      dsimp only
      split_ifs <;> rfl
    | _ => rfl

theorem scanRspData_step {ll : VbtLl} {i : Input} (h : ¬ i.Is .leSetScanRspData) :
    (ll.step i).scanRspData = ll.scanRspData := by
  rcases ads_step ll i with hsame | ⟨op, his, hafter⟩
  · exact congrArg Prod.snd hsame
  · refine (congrArg Prod.snd hafter).trans ?_
    cases op with
    | leSetScanRspData => exact absurd his h
    | leSetAdvData =>
      unfold adsAfter
      dsimp only
      split_ifs <;> rfl
    | _ => rfl

/-- LE Set Advertising Data or LE Set Scan Response Data, with all its parameters. -/
def adCommand (op : Op) (data pad : List UInt8) : List UInt8 :=
  [HCI_CMD_PKT] ++ bytes16 op.code ++
    [.ofNat (1 + data.length + pad.length), .ofNat data.length] ++ data ++ pad

/-- The last command of this kind among the calls sets these data. -/
def LastSet (op : Op) (data : List UInt8) (is : List Input) : Prop :=
  ∃ is₁ is₂ junk pad, is = is₁ ++ fromHost junk (adCommand op data pad) :: is₂ ∧
    1 + data.length + pad.length ≤ 255 ∧ ∀ j ∈ is₂, ¬ j.Is op

section Setting

variable (op : Op) (data pad : List UInt8) (junk : Mem)

theorem adCommand_length : (adCommand op data pad).length = 5 + data.length + pad.length := by
  simp only [adCommand, bytes16, List.length_append, List.length_cons, List.length_nil]

theorem adCommand_is : (fromHost junk (adCommand op data pad)).Is op := by
  have hlen := adCommand_length op data pad
  show (if 4 ≤ (adCommand op data pad).length ∧ HCI_CMD_PKT = HCI_CMD_PKT then
    some (le16 (byteAt op.code.toNat 0) (byteAt op.code.toNat 1)) else none) = _
  rw [if_pos ⟨by omega, rfl⟩, le16_byteAt]

theorem adCommand_plen {data pad : List UInt8} (hlen : 1 + data.length + pad.length ≤ 255) :
    1 ≤ (fromHost junk (adCommand op data pad)).plen := by
  have hl := adCommand_length op data pad
  have hb : (UInt8.ofNat (1 + data.length + pad.length)).toNat = 1 + data.length + pad.length := by
    rw [UInt8.toNat_ofNat']
    omega
  show 1 ≤ if (adCommand op data pad).length <
      4 + (UInt8.ofNat (1 + data.length + pad.length)).toNat then _
    else (UInt8.ofNat (1 + data.length + pad.length)).toNat
  rw [hb, hl, if_neg (by omega)]
  omega

theorem adDataOf_adCommand {data : List UInt8} (pad : List UInt8) (hdata : data.length ≤ 31) :
    (adDataOf (fromHost junk (adCommand op data pad)).params).val = data := by
  have hb : (UInt8.ofNat data.length).toNat = data.length := by
    rw [UInt8.toNat_ofNat']
    omega
  have hshift := Mem.shift_ofList_append ([HCI_CMD_PKT] ++ bytes16 op.code ++
    [.ofNat (1 + data.length + pad.length), .ofNat data.length]) (data ++ pad) junk
  show Mem.take (((Mem.ofList (adCommand op data pad) junk).shift 4).shift 1)
    (min (UInt8.ofNat data.length).toNat 31) = data
  rw [hb, Nat.min_eq_left hdata, Mem.shift_shift]
  unfold adCommand
  rw [List.append_assoc]
  exact (congrArg (fun m => Mem.take m data.length) hshift).trans (Mem.take_ofList_append _ _ _)

end Setting

section Last

variable {π : VbtLl → AdData} {op : Op}

/-- What the calls do not touch is kept over a run. -/
theorem run_keeps (hkeep : ∀ (ll : VbtLl) (i : Input), ¬ i.Is op → π (ll.step i) = π ll)
    {is : List Input} (his : ∀ i ∈ is, ¬ i.Is op) (ll : VbtLl) : π (ll.run is) = π ll := by
  induction is generalizing ll with
  | nil => rfl
  | cons i is ih =>
    refine (ih (fun j hj => his j (List.mem_cons_of_mem _ hj)) (ll.step i)).trans ?_
    exact hkeep ll i (his i List.mem_cons_self)

/-- Data that one command sets and no other call changes are what the last such command set. -/
theorem eq_of_lastSet (hset : ∀ (ll : VbtLl) (i : Input), i.Is op → 1 ≤ i.plen →
      π (ll.step i) = adDataOf i.params)
    (hkeep : ∀ (ll : VbtLl) (i : Input), ¬ i.Is op → π (ll.step i) = π ll) (ll : VbtLl)
    {data : List UInt8} {is : List Input} (h : LastSet op data is) (hdata : data.length ≤ 31) :
    (π (ll.run is)).val = data := by
  obtain ⟨is₁, is₂, junk, pad, rfl, hlen, hrest⟩ := h
  have his := adCommand_is op data pad junk
  have hplen := adCommand_plen op junk hlen
  have hval := adDataOf_adCommand op junk pad hdata
  generalize fromHost junk (adCommand op data pad) = x at his hplen hval
  have hsplit : ll.run (is₁ ++ x :: is₂) = ((ll.run is₁).step x).run is₂ := run_append ll is₁ _
  rw [hsplit, run_keeps hkeep hrest, hset _ x his hplen, hval]

end Last

/-- **A core sends the data its host has set last.** -/
theorem advData_eq (ll : VbtLl) {data : List UInt8} {is : List Input}
    (h : LastSet .leSetAdvData data is) (hdata : data.length ≤ 31) :
    (ll.run is).advData.val = data := by
  refine eq_of_lastSet (fun ll i his hplen => ?_) (fun ll i => advData_step) ll h hdata
  have hads := ads_command ll his
  rw [adsAfter, if_pos hplen] at hads
  exact congrArg Prod.fst hads

theorem scanRspData_eq (ll : VbtLl) {data : List UInt8} {is : List Input}
    (h : LastSet .leSetScanRspData data is) (hdata : data.length ≤ 31) :
    (ll.run is).scanRspData.val = data := by
  refine eq_of_lastSet (fun ll i his hplen => ?_) (fun ll i => scanRspData_step) ll h hdata
  have hads := ads_command ll his
  rw [adsAfter, if_pos hplen] at hads
  exact congrArg Prod.snd hads

/-! ### Advertising reports -/

/-- What an LE Advertising Report tells. -/
structure Report where
  eventType : UInt8
  addrType : UInt8
  addr : BdAddr
  data : List UInt8
  rssi : Int8
  deriving DecidableEq

/-- Read an LE Advertising Report with one report in it. -/
def readReport (pkt : List UInt8) : Option Report :=
  let b := fun i => pkt.getD i 0
  if b 0 = HCI_EVT_PKT ∧ b 1 = EVT_LE_META ∧ b 3 = SUB_LE_ADV_REPORT ∧ b 4 = 1 then
    some ⟨b 5, b 6, addrAt b 7, (pkt.drop 14).take (b 13).toNat,
      ((pkt.drop 14).getD (b 13).toNat 0).toInt8⟩
  else none

/-- The packet of `report_adv`. -/
def reportPkt (r : Report) : List UInt8 :=
  patchLen ([HCI_EVT_PKT, EVT_LE_META, 0, SUB_LE_ADV_REPORT, 1, r.eventType, r.addrType] ++
    r.addr.bytes ++ [.ofNat r.data.length] ++ r.data ++ [r.rssi.toUInt8])

theorem readReport_reportPkt {r : Report} (h : r.data.length ≤ 31) :
    readReport (reportPkt r) = some r := by
  have hb : (UInt8.ofNat r.data.length).toNat = r.data.length := by
    rw [UInt8.toNat_ofNat']
    omega
  have hlast : (r.data ++ [r.rssi.toUInt8]).getD r.data.length 0 = r.rssi.toUInt8 := by simp
  have hpkt : reportPkt r = [HCI_EVT_PKT, EVT_LE_META, .ofNat (12 + r.data.length),
      SUB_LE_ADV_REPORT, 1, r.eventType, r.addrType] ++ r.addr.bytes ++ [.ofNat r.data.length] ++
      (r.data ++ [r.rssi.toUInt8]) := by
    unfold reportPkt
    simp only [List.cons_append, List.nil_append, patchLen_cons, BdAddr.bytes, List.length_cons,
      List.length_append, List.length_nil]
    congr 4
    omega
  rw [hpkt]
  show some (Report.mk _ _ _ ((r.data ++ [r.rssi.toUInt8]).take (UInt8.ofNat r.data.length).toNat)
    ((r.data ++ [r.rssi.toUInt8]).getD (UInt8.ofNat r.data.length).toNat 0).toInt8) = _
  rw [hb, List.take_left, hlast]
  rfl

/-! ### The PDUs at their receivers -/

/-- A frame as it arrives: the medium keeps the PDU and its class. -/
structure Aired (f f' : Frame) : Prop where
  pdu : f'.pdu = f.pdu
  llType : f'.hdr.llType = f.hdr.llType

/-- The TxAdd bit is read back. -/
theorem txadd_advPdu {type : UInt8} (htype : type &&& 0x40 = 0) (t : UInt8) :
    (if (type ||| txAddBit (ownSourceAddrType t)) &&& 0x40 ≠ 0 then (1 : UInt8) else 0) =
      ownSourceAddrType t := by
  have hor : ∀ b : UInt8, (type ||| b) &&& 0x40 = b &&& 0x40 := by
    intro b
    rw [← UInt8.toNat_inj, UInt8.toNat_and, UInt8.toNat_or, Nat.and_or_distrib_right,
      ← UInt8.toNat_and, ← UInt8.toNat_and, htype]
    exact Nat.zero_or _
  rw [hor]
  unfold ownSourceAddrType txAddBit
  by_cases ht : t &&& 0x01 ≠ 0
  · rw [if_pos ht]
    rfl
  · rw [if_neg ht]
    rfl

section Receive

variable {f : Frame} {type t : UInt8} {adva : BdAddr} {data : AdData} (junk : Mem)

theorem bodyLenOf_advPdu (atype : UInt8) :
    bodyLenOf (Mem.ofList (advPdu type atype adva data) junk) (8 + data.val.length) =
      6 + data.val.length := by
  have hd := data.property
  have hb : (Mem.ofList (advPdu type atype adva data) junk 1).toNat = 6 + data.val.length := by
    show (UInt8.ofNat (6 + data.val.length)).toNat = _
    rw [UInt8.toNat_ofNat']
    omega
  unfold bodyLenOf
  rw [hb, if_neg (by omega)]

theorem data_advPdu (atype : UInt8) :
    (((Mem.ofList (advPdu type atype adva data) junk).shift 2).shift 6).take
      (6 + data.val.length - 6) = data.val := by
  have hshift := Mem.shift_ofList_append
    ([type ||| txAddBit atype, .ofNat (6 + data.val.length)] ++ adva.bytes) data.val junk
  rw [Nat.add_sub_cancel_left, Mem.shift_shift]
  exact (congrArg (fun m => Mem.take m data.val.length) hshift).trans (Mem.take_ofList _ _)

/-- An advertisement at a scanner. -/
theorem step_adv {s : VbtLl} (hscan : s.scanEnabled = true) (hinit : s.state ≠ .initiating)
    (htype : type = VBT_ADV_IND ∨ type = VBT_ADV_NONCONN_IND ∨ type = VBT_ADV_SCAN_IND)
    (hll : f.hdr.llType = VBT_LL_ADV) (hpdu : f.pdu = advPdu type (ownSourceAddrType t) adva data) :
    s.step (fromMedium junk f) =
      if s.scanType = 1 ∧ (type = VBT_ADV_IND ∨ type = VBT_ADV_SCAN_IND) then
        (s.reportAdv (reportType type) (ownSourceAddrType t) adva data.val f.hdr.rssi).sendScanReq
          adva (ownSourceAddrType t)
      else s.reportAdv (reportType type) (ownSourceAddrType t) adva data.val f.hdr.rssi := by
  have hmask : type &&& VBT_ADV_PDU_TYPE_MASK = type ∧ type &&& 0x40 = 0 := by
    rcases htype with rfl | rfl | rfl <;> decide
  have hfour : type = VBT_ADV_IND ∨ type = VBT_ADV_DIRECT_IND ∨ type = VBT_ADV_NONCONN_IND ∨
      type = VBT_ADV_SCAN_IND := by tauto
  have hm : Mem.ofList (advPdu type (ownSourceAddrType t) adva data) junk 0 =
    type ||| txAddBit (ownSourceAddrType t) := rfl
  show s.pduFromMedium f.hdr (Mem.ofList f.pdu junk) f.pdu.length = _
  rw [hpdu, advPdu_length]
  unfold pduFromMedium
  rw [if_neg (by omega), if_pos hll, hm, type_or_txAddBit hmask.1, txadd_advPdu hmask.2,
    bodyLenOf_advPdu]
  dsimp only
  rw [if_pos hfour]
  unfold advFromMedium
  rw [if_neg (by omega), data_advPdu]
  dsimp only
  rw [if_neg fun h => hinit h.1, if_pos hscan]
  rfl

/-- A scan response at a scanner. -/
theorem step_scanRsp {s : VbtLl} (hscan : s.scanEnabled = true) (hll : f.hdr.llType = VBT_LL_ADV)
    (hpdu : f.pdu = advPdu VBT_SCAN_RSP (ownSourceAddrType t) adva data) :
    s.step (fromMedium junk f) =
      s.reportAdv 0x04 (ownSourceAddrType t) adva data.val f.hdr.rssi := by
  have hm : Mem.ofList (advPdu VBT_SCAN_RSP (ownSourceAddrType t) adva data) junk 0 =
    VBT_SCAN_RSP ||| txAddBit (ownSourceAddrType t) := rfl
  show s.pduFromMedium f.hdr (Mem.ofList f.pdu junk) f.pdu.length = _
  rw [hpdu, advPdu_length]
  unfold pduFromMedium
  rw [if_neg (by omega), if_pos hll, hm, type_or_txAddBit (by decide), txadd_advPdu (by decide),
    bodyLenOf_advPdu]
  dsimp only
  rw [if_neg (by decide), if_neg (by decide), if_pos rfl]
  unfold scanRspFromMedium
  rw [if_pos ⟨hscan, by omega⟩, data_advPdu]
  rfl

/-- A SCAN_REQ at the advertiser it is for. -/
theorem step_scanReq {p : VbtLl} (hadv : p.advEnabled = true) {st : UInt8} {sa : BdAddr}
    (hll : f.hdr.llType = VBT_LL_ADV)
    (hpdu : f.pdu = [VBT_SCAN_REQ ||| txAddBit st ||| rxAddBit t, 12] ++ sa.bytes ++
      (p.ownSourceAddr p.advOwnAddrType).bytes) :
    p.step (fromMedium junk f) = p.sendScanRsp := by
  generalize hadva : p.ownSourceAddr p.advOwnAddrType = a at hpdu
  have hm : Mem.ofList ([VBT_SCAN_REQ ||| txAddBit st ||| rxAddBit t, 12] ++ sa.bytes ++ a.bytes)
    junk 0 = VBT_SCAN_REQ ||| txAddBit st ||| rxAddBit t := rfl
  have hlen : ([VBT_SCAN_REQ ||| txAddBit st ||| rxAddBit t, 12] ++ sa.bytes ++ a.bytes).length =
    14 := rfl
  have hbody : bodyLenOf (Mem.ofList ([VBT_SCAN_REQ ||| txAddBit st ||| rxAddBit t, 12] ++
    sa.bytes ++ a.bytes) junk) 14 = 12 := rfl
  show p.pduFromMedium f.hdr (Mem.ofList f.pdu junk) f.pdu.length = _
  rw [hpdu, hlen]
  unfold pduFromMedium
  rw [if_neg (by omega), if_pos hll, hm, scanReqType, hbody]
  dsimp only
  rw [if_neg (by decide), if_pos rfl]
  unfold scanReqFromMedium
  rw [if_pos ⟨hadv, le_rfl⟩, if_pos]
  rw [hadva]
  rfl

end Receive

/-! ### The round trip -/

/-- An advertisement on the given channel. -/
def advFrame (p : VbtLl) (channel : UInt8) : Frame :=
  ⟨fillHdr VBT_LL_ADV VBT_ADV_ACCESS_ADDR channel (p.ownSourceAddr p.advOwnAddrType)
      (ownSourceAddrType p.advOwnAddrType) (advPdu p.advPduType (ownSourceAddrType p.advOwnAddrType)
        (p.ownSourceAddr p.advOwnAddrType) p.advData).length,
    advPdu p.advPduType (ownSourceAddrType p.advOwnAddrType) (p.ownSourceAddr p.advOwnAddrType)
      p.advData⟩

/-- A tick sends three advertisements or none, and changes nothing but the time of the last. -/
theorem tick_cases (p : VbtLl) (now : UInt64) :
    framesIn (p.outputs (.tick now)) = [] ∨
      framesIn (p.outputs (.tick now)) =
          [p.advFrame VBT_CHAN_ADV_37, p.advFrame VBT_CHAN_ADV_38, p.advFrame VBT_CHAN_ADV_39] ∧
        ∃ out, p.step (.tick now) = { p with lastAdvMs := now, out := out } := by
  have hidle : p.step (.tick now) = p → framesIn (p.outputs (.tick now)) = [] := by
    intro h
    have hout : (p.step (.tick now)).out = [] ++ p.out := congrArg VbtLl.out h
    rw [outputs_eq hout]
    rfl
  show _ ∨ _ ∧ ∃ out, p.tick now = _
  by_cases hadv : p.advEnabled = true
  · by_cases hdue : p.lastAdvMs = 0 ∨ p.advIntervalMs.toUInt64 ≤ now - p.lastAdvMs
    · right
      have htick : p.tick now = { p.emitAdvertisement with lastAdvMs := now } := by
        unfold tick
        rw [if_pos hadv, if_pos hdue]
      have hout : (p.step (.tick now)).out = [_, _, _] ++ p.out := congrArg VbtLl.out htick
      refine ⟨?_, _, htick⟩
      rw [outputs_eq hout]
      rfl
    · left
      refine hidle ?_
      show p.tick now = p
      unfold tick
      rw [if_pos hadv, if_neg hdue]
  · left
    refine hidle ?_
    show p.tick now = p
    unfold tick
    rw [if_neg hadv]

section Exchange

variable {s p : VbtLl} {i : Input} {r : Report}

/-- A report is all that the host is told. -/
theorem packets_report (hlen : r.data.length ≤ 31)
    (h : s.step i = s.reportAdv r.eventType r.addrType r.addr r.data r.rssi) :
    ∃ pkt, packetsIn (s.outputs i) = [pkt] ∧ readReport pkt = some r := by
  have hout : (s.step i).out = [.hci 45 (reportPkt r)] ++ s.out := congrArg VbtLl.out h
  refine ⟨reportPkt r, ?_, readReport_reportPkt hlen⟩
  rw [outputs_eq hout]
  rfl

/-- An active scanner sends its request after the report. -/
theorem outputs_report_request {txadd : UInt8} (hlen : r.data.length ≤ 31)
    (h : s.step i =
      (s.reportAdv r.eventType r.addrType r.addr r.data r.rssi).sendScanReq r.addr txadd) :
    (∃ pkt, packetsIn (s.outputs i) = [pkt] ∧ readReport pkt = some r) ∧
      ∃ req st sa, framesIn (s.outputs i) = [req] ∧ req.hdr.llType = VBT_LL_ADV ∧
        req.pdu = [VBT_SCAN_REQ ||| txAddBit st ||| rxAddBit txadd, 12] ++ BdAddr.bytes sa ++
          r.addr.bytes := by
  obtain ⟨req, hll, hpdu, hout⟩ : ∃ req : Frame, req.hdr.llType = VBT_LL_ADV ∧
      req.pdu = [VBT_SCAN_REQ ||| txAddBit (ownSourceAddrType s.scanOwnAddrType) |||
        rxAddBit txadd, 12] ++ (s.ownSourceAddr s.scanOwnAddrType).bytes ++ r.addr.bytes ∧
      (s.step i).out = [.pdu 14 req, .hci 45 (reportPkt r)] ++ s.out :=
    ⟨_, rfl, rfl, congrArg VbtLl.out h⟩
  rw [outputs_eq hout]
  exact ⟨⟨reportPkt r, rfl, readReport_reportPkt hlen⟩, req, _, _, rfl, hll, hpdu⟩

theorem frames_scanRsp (h : p.step i = p.sendScanRsp) :
    ∃ f, framesIn (p.outputs i) = [f] ∧ f.hdr.llType = VBT_LL_ADV ∧
      f.pdu = advPdu VBT_SCAN_RSP (ownSourceAddrType p.advOwnAddrType)
        (p.ownSourceAddr p.advOwnAddrType) p.scanRspData := by
  obtain ⟨f, hll, hpdu, hout⟩ : ∃ f : Frame, f.hdr.llType = VBT_LL_ADV ∧
      f.pdu = advPdu VBT_SCAN_RSP (ownSourceAddrType p.advOwnAddrType)
        (p.ownSourceAddr p.advOwnAddrType) p.scanRspData ∧
      (p.step i).out = [.pdu 39 f] ++ p.out := ⟨_, rfl, rfl, congrArg VbtLl.out h⟩
  rw [outputs_eq hout]
  exact ⟨f, rfl, hll, hpdu⟩

end Exchange

theorem advPduType_three (p : VbtLl) : p.advPduType = VBT_ADV_IND ∨
    p.advPduType = VBT_ADV_NONCONN_IND ∨ p.advPduType = VBT_ADV_SCAN_IND := by
  unfold advPduType
  split_ifs <;> simp

/-- **Discovery.** Every advertisement of a core is reported by a scanner with the address and the
data of the advertiser, and an active scanner obtains and reports the scan response data. -/
theorem discovery (bdaddr : BdAddr) {is : List Input} {data rsp : List UInt8}
    (hdata : data.length ≤ 31) (hrsp : rsp.length ≤ 31) (hsetData : LastSet .leSetAdvData data is)
    (hsetRsp : LastSet .leSetScanRspData rsp is) {p : VbtLl} (hp : p = (vbtLlNew bdaddr).run is)
    (hadv : p.advEnabled = true) {s : VbtLl} (hscan : s.scanEnabled = true)
    (hinit : s.state ≠ .initiating) (now : UInt64) (junk : Mem) {f f' : Frame}
    (hf : f ∈ framesIn (p.outputs (.tick now))) (hair : Aired f f') :
    (framesIn (p.outputs (.tick now))).length = 3 ∧
    (∃ pkt type, packetsIn (s.outputs (fromMedium junk f')) = [pkt] ∧
      readReport pkt = some ⟨type, ownSourceAddrType p.advOwnAddrType,
        p.ownSourceAddr p.advOwnAddrType, data, f'.hdr.rssi⟩) ∧
    (s.scanType = 1 → pduType f.pdu = VBT_ADV_IND ∨ pduType f.pdu = VBT_ADV_SCAN_IND →
      ∃ req, framesIn (s.outputs (fromMedium junk f')) = [req] ∧ pduType req.pdu = VBT_SCAN_REQ ∧
        ∀ req', Aired req req' →
          ∃ r, framesIn ((p.step (.tick now)).outputs (fromMedium junk req')) = [r] ∧
            pduType r.pdu = VBT_SCAN_RSP ∧
            ∀ r', Aired r r' →
              ∃ pkt, packetsIn ((s.step (fromMedium junk f')).outputs (fromMedium junk r')) =
                  [pkt] ∧
                readReport pkt = some ⟨0x04, ownSourceAddrType p.advOwnAddrType,
                  p.ownSourceAddr p.advOwnAddrType, rsp, r'.hdr.rssi⟩) := by
  have hd : p.advData.val = data := hp ▸ advData_eq _ hsetData hdata
  have hr : p.scanRspData.val = rsp := hp ▸ scanRspData_eq _ hsetRsp hrsp
  rcases tick_cases p now with hnone | ⟨hthree, out, htick⟩
  · rw [hnone] at hf
    cases hf
  have hpdu : f.pdu = advPdu p.advPduType (ownSourceAddrType p.advOwnAddrType)
      (p.ownSourceAddr p.advOwnAddrType) p.advData ∧ f.hdr.llType = VBT_LL_ADV := by
    rw [hthree] at hf
    simp only [List.mem_cons, List.not_mem_nil, or_false] at hf
    rcases hf with rfl | rfl | rfl <;> exact ⟨rfl, rfl⟩
  have hstep := step_adv junk hscan hinit p.advPduType_three (hair.llType.trans hpdu.2)
    (hair.pdu.trans hpdu.1)
  have htype : pduType f.pdu = p.advPduType := by
    rw [hpdu.1, pduType_advPdu p.advPduType_cases.1]
  have hreport : p.advData.val.length ≤ 31 := hd ▸ hdata
  refine ⟨by rw [hthree]; rfl, ?_, fun hactive hscannable => ?_⟩
  · -- with or without a request, the report is the only packet
    rw [← hd]
    split_ifs at hstep with hask
    · obtain ⟨⟨pkt, hpkt, hread⟩, -⟩ := outputs_report_request (r := ⟨_, _, _, _, _⟩) hreport hstep
      exact ⟨pkt, _, hpkt, hread⟩
    · obtain ⟨pkt, hpkt, hread⟩ := packets_report (r := ⟨_, _, _, _, _⟩) hreport hstep
      exact ⟨pkt, _, hpkt, hread⟩
  · rw [if_pos ⟨hactive, htype ▸ hscannable⟩] at hstep
    obtain ⟨-, req, st, sa, hframes, hll, hreq⟩ :=
      outputs_report_request (r := ⟨_, _, _, _, _⟩) hreport hstep
    refine ⟨req, hframes, by rw [hreq]; exact scanReqType _ _, fun req' hair' => ?_⟩
    -- the tick has left the address, the data and the advertising state as they were
    have hanswer := step_scanReq (p := p.step (.tick now)) junk (by rw [htick]; exact hadv)
      (hair'.llType.trans hll) (by rw [htick]; exact hair'.pdu.trans hreq)
    obtain ⟨r, hr₁, hrll, hrpdu⟩ := frames_scanRsp hanswer
    refine ⟨r, hr₁, by rw [hrpdu]; exact pduType_advPdu (by decide) _ _ _, fun r' hair'' => ?_⟩
    have hs : (s.step (fromMedium junk f')).scanEnabled = true := by
      rw [hstep]
      exact hscan
    have hlast := step_scanRsp junk hs (hair''.llType.trans hrll) (hair''.pdu.trans hrpdu)
    rw [htick] at hlast
    rw [← hr]
    exact packets_report (r := ⟨_, _, _, _, _⟩) (hr ▸ hrsp) hlast

/-- A host sets both kinds of data and starts advertising. -/
def beaconing : List Input :=
  [fromHost blank (adCommand .leSetAdvData [2, 1, 6] []),
    fromHost blank (adCommand .leSetScanRspData [2, 9, 0x56] []),
    fromHost blank [HCI_CMD_PKT, 0x0A, 0x20, 1, 1]]

def beacon : VbtLl := (vbtLlNew peripheralAddr).run beaconing

/-- An active scanner. -/
def scanner : VbtLl :=
  (vbtLlNew centralAddr).run [fromHost blank [HCI_CMD_PKT, 0x0B, 0x20, 7, 1, 0x10, 0, 0x10, 0, 0, 0],
    fromHost blank [HCI_CMD_PKT, 0x0C, 0x20, 2, 1, 0]]

theorem discovery_scanner :
    ∃ pkt type, packetsIn (scanner.outputs (fromMedium blank (beacon.advFrame VBT_CHAN_ADV_38))) =
        [pkt] ∧
      readReport pkt = some ⟨type, ownSourceAddrType beacon.advOwnAddrType,
        beacon.ownSourceAddr beacon.advOwnAddrType, [2, 1, 6],
        (beacon.advFrame VBT_CHAN_ADV_38).hdr.rssi⟩ := by
  have hdata : LastSet .leSetAdvData [2, 1, 6] beaconing := by
    refine ⟨[], _, blank, [], rfl, by decide, ?_⟩
    simp only [List.forall_mem_cons]
    exact ⟨by decide +kernel, by decide +kernel, List.forall_mem_nil _⟩
  have hrsp : LastSet .leSetScanRspData [2, 9, 0x56] beaconing := by
    refine ⟨[_], _, blank, [], rfl, by decide, ?_⟩
    simp only [List.forall_mem_cons]
    exact ⟨by decide +kernel, List.forall_mem_nil _⟩
  have hf : beacon.advFrame VBT_CHAN_ADV_38 ∈ framesIn (beacon.outputs (.tick 100)) := by
    rcases tick_cases beacon 100 with hnone | ⟨hthree, -⟩
    · exact absurd (congrArg List.length hnone) (by decide +kernel)
    · rw [hthree]
      exact List.mem_cons_of_mem _ List.mem_cons_self
  exact (discovery peripheralAddr (by decide) (by decide) hdata hrsp rfl (by decide +kernel)
    (s := scanner) (by decide +kernel) (by decide +kernel) 100 blank hf ⟨rfl, rfl⟩).2.1

end VbtLl
end Vbt
