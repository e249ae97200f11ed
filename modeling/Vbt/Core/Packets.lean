import Vbt.Core.Discovery

/-!
# The packets to the host and the arrays they are assembled in

Every event builder of `vbt_ll.c` fills an array whose size was counted by hand, and most patch the
length of the event in afterwards.

* `WellFramed`, `Out.Consistent`: the length field of a packet is right, and the packet fits its
  array;
* `Tells`: all that is put out is consistent. One lemma for each shape of event, `Tells.event` and
  `Tells.patched`, and then one for each function of the core;
* `packets_consistent`: commands, ACL data, data PDUs, CONNECT_IND, SCAN_REQ and ticks;
* `Reports`: a PDU is reported to a scanning host. `report_fits_iff`: the report fits its array,
  which is one byte short, exactly if it has at most 30 bytes of advertising data.
-/

namespace Vbt

/-- An event or ACL data with the right length in its header. -/
def WellFramed (pkt : List UInt8) : Prop :=
  (pkt.getD 0 0 = HCI_EVT_PKT ∧ 3 ≤ pkt.length ∧ (pkt.getD 2 0).toNat = pkt.length - 3) ∨
    (pkt.getD 0 0 = HCI_ACL_PKT ∧ 5 ≤ pkt.length ∧
      (le16 (pkt.getD 3 0) (pkt.getD 4 0)).toNat = pkt.length - 5)

/-- A packet to the host has the right length in its header and fits its array. -/
def Out.Consistent : Out → Prop
  | .hci size pkt => WellFramed pkt ∧ pkt.length ≤ size
  | .pdu _ _ => True

namespace VbtLl

/-! ### Consistent output -/

/-- Whatever is put out between two states is consistent. -/
def Tells (ll ll' : VbtLl) : Prop := ∃ new, ll'.out = new ++ ll.out ∧ ∀ o ∈ new, o.Consistent

namespace Tells

variable {ll ll' ll'' : VbtLl}

theorem silent (h : ll'.out = ll.out) : Tells ll ll' := ⟨[], h, fun _ h => by cases h⟩

theorem refl (ll : VbtLl) : Tells ll ll := silent rfl

theorem trans (h : Tells ll ll') (h' : Tells ll' ll'') : Tells ll ll'' := by
  obtain ⟨new, hout, hnew⟩ := h
  obtain ⟨new', hout', hnew'⟩ := h'
  refine ⟨new' ++ new, by rw [hout', hout, List.append_assoc], fun o ho => ?_⟩
  rcases List.mem_append.1 ho with ho | ho
  · exact hnew' o ho
  · exact hnew o ho

theorem hci (h : Tells ll ll') {size : ℕ} {pkt : List UInt8} (hpkt : WellFramed pkt)
    (hsize : pkt.length ≤ size) : Tells ll (ll'.sendHci size pkt) := by
  refine h.trans ⟨[.hci size pkt], rfl, fun o ho => ?_⟩
  rw [List.mem_singleton.1 ho]
  exact ⟨hpkt, hsize⟩

theorem pdu (h : Tells ll ll') (size : ℕ) (hdr : VbtFrameHdr) (pdu : List UInt8) :
    Tells ll (ll'.pduToMedium size hdr pdu) := by
  refine h.trans ⟨[.pdu size ⟨hdr, pdu⟩], rfl, fun o ho => ?_⟩
  rw [List.mem_singleton.1 ho]
  exact trivial

theorem control (h : Tells ll ll') (c : LlConn) (opcode : UInt8) (params : List UInt8) :
    Tells ll (ll'.sendLlControl c opcode params) := h.pdu _ _ _

/-- An event whose length is written with the packet. -/
theorem event (h : Tells ll ll') {code n : UInt8} {r : List UInt8} {size : ℕ}
    (hn : n.toNat = r.length) (hsize : 3 + r.length ≤ size) :
    Tells ll (ll'.sendHci size (HCI_EVT_PKT :: code :: n :: r)) := by
  refine h.hci (Or.inl ⟨rfl, ?_, ?_⟩) ?_
  · simp
  · show n.toNat = r.length + 1 + 1 + 1 - 3
    omega
  · show r.length + 1 + 1 + 1 ≤ size
    omega

/-- An event whose length is patched in afterwards. -/
theorem patched (h : Tells ll ll') {code n : UInt8} {rest : List UInt8} {size : ℕ}
    (hrest : rest.length ≤ 255) (hsize : 3 + rest.length ≤ size) :
    Tells ll (ll'.sendHci size (patchLen (HCI_EVT_PKT :: code :: n :: rest))) := by
  rw [patchLen_cons]
  refine h.event ?_ hsize
  rw [UInt8.toNat_ofNat']
  omega

end Tells

/-! ### The event builders -/

section Builders

variable {ll ll' : VbtLl}

theorem Tells.cmdComplete (h : Tells ll ll') (opcode : UInt16) {ret : List UInt8}
    (hret : ret.length ≤ 252) : Tells ll (ll'.cmdComplete opcode ret) := by
  have hlen : (ll'.credits :: (bytes16 opcode ++ ret)).length = 3 + ret.length := by
    simp only [bytes16, List.cons_append, List.nil_append, List.length_cons]
    omega
  have hn : (UInt8.ofNat (3 + ret.length)).toNat = 3 + ret.length := by
    rw [UInt8.toNat_ofNat']
    omega
  exact h.event (r := ll'.credits :: (bytes16 opcode ++ ret)) (hn.trans hlen.symm) (by omega)

theorem Tells.cmdStatus (h : Tells ll ll') (opcode : UInt16) (status : UInt8) :
    Tells ll (ll'.cmdStatus opcode status) := h.event rfl (le_refl 7)

theorem Tells.connComplete (h : Tells ll ll') (c : LlConn) :
    Tells ll (ll'.evtLeConnComplete c HCI_SUCCESS) :=
  h.patched (show 19 ≤ 255 by omega) (show 3 + 19 ≤ 24 by omega)

theorem Tells.disconnComplete (h : Tells ll ll') (handle : UInt16) (reason : UInt8) :
    Tells ll (ll'.evtDisconnComplete handle reason) := h.event rfl (le_refl 7)

theorem Tells.numCompleted (h : Tells ll ll') (handle n : UInt16) :
    Tells ll (ll'.evtNumCompleted handle n) := h.event rfl (show 8 ≤ 10 by omega)

theorem Tells.encryptChange (h : Tells ll ll') (handle : UInt16) (enabled : UInt8) :
    Tells ll (ll'.evtEncryptChange handle enabled) := h.event rfl (le_refl 7)

theorem Tells.ltkRequest (h : Tells ll ll') (c : LlConn) {rand8 ediv2 : List UInt8}
    (hrand : rand8.length = 8) (hediv : ediv2.length = 2) :
    Tells ll (ll'.evtLeLtkRequest c rand8 ediv2) := by
  have hlen : (SUB_LE_LTK_REQUEST :: (bytes16 c.handle ++ rand8 ++ ediv2)).length = 13 := by
    simp [bytes16, hrand, hediv]
  have hpkt : [HCI_EVT_PKT, EVT_LE_META, 0, SUB_LE_LTK_REQUEST] ++ bytes16 c.handle ++ rand8 ++
      ediv2 = HCI_EVT_PKT :: EVT_LE_META :: 0 ::
        SUB_LE_LTK_REQUEST :: (bytes16 c.handle ++ rand8 ++ ediv2) := rfl
  unfold evtLeLtkRequest
  rw [hpkt]
  exact h.patched (by omega) (by omega)

/-- ACL data is delivered up to four bytes beyond the MTU, and the array has room for these. -/
theorem aclToHost_tells (ll : VbtLl) (handle : UInt16) (l2cap : List UInt8) :
    Tells ll (ll.aclToHost handle l2cap) := by
  unfold aclToHost
  dsimp only
  split_ifs with hlong
  · exact .refl ll
  · have hle : l2cap.length ≤ 255 := Nat.not_lt.1 hlong
    have hlen : ([HCI_ACL_PKT] ++ bytes16 (handle ||| 0x2000) ++
        bytes16 (.ofNat l2cap.length) ++ l2cap).length = 5 + l2cap.length := by
      simp only [bytes16, List.cons_append, List.nil_append, List.length_cons]
      omega
    refine (Tells.refl ll).hci (Or.inr ⟨rfl, ?_, ?_⟩) ?_
    · omega
    · show (le16 (byteAt _ 0) (byteAt _ 1)).toNat = _
      rw [le16_byteAt, hlen, UInt16.toNat_ofNat']
      omega
    · omega

end Builders

/-! ### Packets from the host and ticks -/

section Host

variable (ll : VbtLl) (params : Mem) (plen : ℕ)

theorem leConnUpdate_tells : Tells ll (ll.leConnUpdate params plen) := by
  have h := (Tells.refl ll).cmdStatus Op.leConnUpdate.code HCI_SUCCESS
  unfold leConnUpdate
  dsimp only
  split
  · split
    · exact h
    · exact h.patched (show 10 ≤ 255 by omega) (show 3 + 10 ≤ 16 by omega)
  · exact h

theorem leReadRemoteFeatures_tells : Tells ll (ll.leReadRemoteFeatures params plen) := by
  have h := (Tells.refl ll).cmdStatus Op.leReadRemoteFeatures.code HCI_SUCCESS
  unfold leReadRemoteFeatures
  dsimp only
  split
  · exact h.patched (show 12 ≤ 255 by omega) (show 3 + 12 ≤ 16 by omega)
  · exact h

theorem leStartEncryption_tells : Tells ll (ll.leStartEncryption params plen) := by
  have h := (Tells.refl ll).cmdStatus Op.leStartEncryption.code HCI_SUCCESS
  unfold leStartEncryption
  dsimp only
  split
  · split
    · exact h
    · exact (h.trans (.silent rfl)).control _ _ _
  · exact h

theorem leLtkReqReply_tells : Tells ll (ll.leLtkReqReply params plen) := by
  have h := (Tells.refl ll).cmdComplete Op.leLtkReqReply.code
    (show ([HCI_SUCCESS] ++ bytes16 (ltkHandle params plen)).length ≤ 252 by simp [bytes16])
  unfold leLtkReqReply
  dsimp only
  split
  · exact h
  · exact h.control _ _ _

theorem disconnect_tells : Tells ll (ll.disconnect params plen) := by
  have h := (Tells.refl ll).cmdStatus Op.disconnect.code HCI_SUCCESS
  unfold disconnect
  dsimp only
  split
  · split
    · exact h
    · exact ((h.control _ _ _).trans (.silent rfl)).disconnComplete _ _
  · exact h

theorem readRemoteVersion_tells : Tells ll (ll.readRemoteVersion params plen) := by
  have h := (Tells.refl ll).cmdStatus Op.readRemoteVersion.code HCI_SUCCESS
  unfold readRemoteVersion
  dsimp only
  split
  · exact h.event rfl (le_refl 11)
  · exact h

theorem leRand_tells : Tells ll ll.leRand := by
  have hrand : ∀ l : VbtLl, l.llRand32.out = l.out := fun l => by unfold llRand32; rfl
  refine (Tells.silent ((hrand _).trans (hrand ll))).cmdComplete _ ?_
  simp [bytes32]

theorem leEncrypt_tells : Tells ll (ll.leEncrypt params plen) := by
  refine (Tells.refl ll).cmdComplete _ ?_
  split <;> simp

theorem handleLeCreateConn_tells : Tells ll (ll.handleLeCreateConn params plen) := by
  unfold handleLeCreateConn
  split
  · exact (Tells.refl ll).cmdStatus _ _
  · exact Tells.cmdStatus (.silent rfl) _ _

/-- A command that is done by its settings and a Command Complete with the status. -/
theorem complete_tells {ll ll' : VbtLl} (h : ll'.out = ll.out) (opcode : UInt16) (status : UInt8) :
    Tells ll (ll'.cmdCompleteStatus opcode status) :=
  (Tells.silent h).cmdComplete opcode (show 1 ≤ 252 by omega)

theorem command_tells (op : Op) : Tells ll (ll.command op params plen) := by
  have h := Tells.refl ll
  cases op with
  | setEventMask | setEventMaskPage2 | leSetEventMask | leSetHostChanClass | leClearWhiteList
  | leAddWhiteList | leRemoveWhiteList => exact complete_tells rfl _ _
  | readLocalVersion | readLocalCommands | readLocalFeatures | leReadLocalFeatures
  | readBufferSize | leReadBufferSize | readBdAddr | leReadAdvTxPower | leReadWhiteListSize
  | leReadSupportedStates => exact h.cmdComplete _ (by simp [localCommands, BdAddr.bytes])
  | leLtkReqNegReply => exact h.cmdComplete _ (show 3 ≤ 252 by omega)
  | reset | leCreateConnCancel => exact complete_tells rfl _ _
  | leSetRandomAddress | leSetAdvParameters | leSetAdvData | leSetScanRspData
  | leSetScanParameters | leSetAdvEnable | leSetScanEnable =>
    refine complete_tells ?_ _ _
    split <;> rfl
  | leCreateConn => exact handleLeCreateConn_tells ll params plen
  | leConnUpdate => exact leConnUpdate_tells ll params plen
  | leReadRemoteFeatures => exact leReadRemoteFeatures_tells ll params plen
  | leRand => exact leRand_tells ll
  | leEncrypt => exact leEncrypt_tells ll params plen
  | leStartEncryption => exact leStartEncryption_tells ll params plen
  | leLtkReqReply => exact leLtkReqReply_tells ll params plen
  | disconnect => exact disconnect_tells ll params plen
  | readRemoteVersion => exact readRemoteVersion_tells ll params plen

theorem hciFromHost_tells (pkt : Mem) (len : ℕ) : Tells ll (ll.hciFromHost pkt len) := by
  unfold hciFromHost
  split_ifs
  · exact .refl ll
  · unfold dispatchCommand
    dsimp only
    split
    · exact .refl ll
    · split
      · exact command_tells ll _ _ _
      · exact complete_tells rfl _ _
  · unfold handleAclFromHost
    dsimp only
    split
    · exact .refl ll
    · split
      · exact .refl ll
      · exact ((Tells.refl ll).pdu _ _ _).numCompleted _ _
  · exact .refl ll

theorem tick_tells (nowMs : UInt64) : Tells ll (ll.tick nowMs) := by
  unfold tick
  split_ifs
  · exact ((((Tells.refl ll).pdu _ _ _).pdu _ _ _).pdu _ _ _).trans (.silent rfl)
  · exact .refl ll
  · exact .refl ll

end Host

/-! ### PDUs from the medium -/

theorem markEncrypted_tells (ll : VbtLl) (i : ℕ) : Tells ll (ll.markEncrypted i) := by
  unfold markEncrypted
  split
  · exact .refl ll
  · exact Tells.encryptChange (.silent rfl) _ _

theorem handleLlControl_tells (ll : VbtLl) (i : ℕ) (payload : Mem) (plen : ℕ) :
    Tells ll (ll.handleLlControl i payload plen) := by
  have h := Tells.refl ll
  unfold handleLlControl
  split
  · exact h
  split
  · exact Tells.disconnComplete (.silent rfl) _ _
  split
  · exact h.control _ _ _
  split
  · exact h.control _ _ _
  split
  · -- the key request fills its array to the last byte
    refine (Tells.control (.silent rfl) _ _ _).ltkRequest _ ?_ ?_
    · split <;> simp
    · split <;> simp
  split
  · exact (h.control _ _ _).trans (markEncrypted_tells _ i)
  split
  · exact markEncrypted_tells ll i
  · exact h

theorem dataFromMedium_tells (ll : VbtLl) (hdr : VbtFrameHdr) (pdu : Mem) (bodyLen : ℕ) :
    Tells ll (ll.dataFromMedium hdr pdu bodyLen) := by
  unfold dataFromMedium
  split
  · exact .refl ll
  · dsimp only
    split_ifs
    · exact handleLlControl_tells ll _ _ _
    · exact aclToHost_tells ll _ _
    · exact .refl ll
    · exact .refl ll

theorem connectIndFromMedium_tells (ll : VbtLl) (txadd : UInt8) (body : Mem) (bodyLen : ℕ) :
    Tells ll (ll.connectIndFromMedium txadd body bodyLen) := by
  unfold connectIndFromMedium
  split
  · exact .refl ll
  split
  · exact .refl ll
  · rw [connAlloc_eq]
    cases ll.freeSlot with
    | none => exact .refl ll
    | some k => exact Tells.connComplete (.silent rfl) _

theorem scanReqFromMedium_tells (ll : VbtLl) (body : Mem) (bodyLen : ℕ) :
    Tells ll (ll.scanReqFromMedium body bodyLen) := by
  unfold scanReqFromMedium
  split
  · split
    · exact (Tells.refl ll).pdu _ _ _
    · exact .refl ll
  · exact .refl ll

/-- The calls other than a PDU that may be reported to a scanning host. -/
def Input.Unreported : Input → Prop
  | .hci _ _ => True
  | .pdu hdr b _ => hdr.llType = VBT_LL_DATA ∨ hdr.llType = VBT_LL_ADV ∧
      (b 0 &&& VBT_ADV_PDU_TYPE_MASK = VBT_CONNECT_IND ∨
        b 0 &&& VBT_ADV_PDU_TYPE_MASK = VBT_SCAN_REQ)
  | .tick _ => True

theorem pduFromMedium_tells (ll : VbtLl) {hdr : VbtFrameHdr} {pdu : Mem} {len : ℕ}
    (h : (Input.pdu hdr pdu len).Unreported) : Tells ll (ll.pduFromMedium hdr pdu len) := by
  unfold pduFromMedium
  split
  · exact .refl ll
  rcases h with hdata | ⟨hadv, hind | hreq⟩
  · rw [if_neg (by rw [hdata]; decide), if_pos hdata]
    exact dataFromMedium_tells ll _ _ _
  · rw [if_pos hadv]
    dsimp only
    rw [hind, if_neg (by decide), if_neg (by decide), if_neg (by decide), if_pos rfl]
    exact connectIndFromMedium_tells ll _ _ _
  · rw [if_pos hadv]
    dsimp only
    rw [hreq, if_neg (by decide), if_pos rfl]
    exact scanReqFromMedium_tells ll _ _

/-- **The packets to the host are consistent.** In every state and for every packet from the host,
every data PDU, CONNECT_IND or SCAN_REQ and every tick, whatever their bytes and lengths: each
packet to the host is an event or ACL data with its own length in the header, and fits the array
it was assembled in. -/
theorem packets_consistent (ll : VbtLl) {i : Input} (h : i.Unreported) {size : ℕ}
    {pkt : List UInt8} (ho : Out.hci size pkt ∈ ll.outputs i) :
    WellFramed pkt ∧ pkt.length ≤ size := by
  have htells : Tells ll (ll.step i) := by
    cases i with
    | hci pkt len => exact hciFromHost_tells ll pkt len
    | pdu hdr pdu len => exact pduFromMedium_tells ll h
    | tick now => exact tick_tells ll now
  obtain ⟨new, hout, hnew⟩ := htells
  rw [outputs_eq hout, List.mem_reverse] at ho
  exact hnew _ ho

/-- A key request, which fills its array to the last byte. -/
def encReqFrame : Frame :=
  ⟨fillHdr VBT_LL_DATA (peripheral.conns 0).accessAddr 5 centralAddr 0 25,
    [LLID_CONTROL, 23, LL_ENC_REQ] ++ List.replicate 22 7⟩

theorem packets_consistent_ltkRequest :
    WellFramed ([HCI_EVT_PKT, EVT_LE_META, 13, SUB_LE_LTK_REQUEST, 0x40, 0] ++
      List.replicate 10 7) ∧
      ([HCI_EVT_PKT, EVT_LE_META, 13, SUB_LE_LTK_REQUEST, 0x40, 0] ++
          List.replicate 10 7).length ≤ 16 :=
  packets_consistent peripheral (i := fromMedium blank encReqFrame) (Or.inl rfl) (by decide +kernel)

/-! ### Reports -/

/-- The PDU type, as `vbt_ll_pdu_from_medium` masks it. -/
def typeAt (pdu : Mem) : UInt8 := pdu 0 &&& VBT_ADV_PDU_TYPE_MASK

/-- The PDU is reported to the host: an advertisement that is not answered by a connection, or a
scan response. -/
structure Reports (ll : VbtLl) (hdr : VbtFrameHdr) (pdu : Mem) (len : ℕ) : Prop where
  header : 2 ≤ len
  adv : hdr.llType = VBT_LL_ADV
  scanning : ll.scanEnabled = true
  body : 6 ≤ bodyLenOf pdu len
  type : typeAt pdu = VBT_SCAN_RSP ∨
    (typeAt pdu = VBT_ADV_IND ∨ typeAt pdu = VBT_ADV_DIRECT_IND ∨
      typeAt pdu = VBT_ADV_NONCONN_IND ∨ typeAt pdu = VBT_ADV_SCAN_IND) ∧
    ¬ (ll.state = .initiating ∧ (typeAt pdu = VBT_ADV_IND ∨ typeAt pdu = VBT_ADV_DIRECT_IND) ∧
      addrAt (pdu.shift 2) 0 = ll.initPeerAddr)

/-- What the length byte and the size of the array come to for a report. -/
theorem report_fits (r : Report) :
    ((reportPkt r).length ≤ 45 ∧ ((reportPkt r).getD 2 0).toNat = (reportPkt r).length - 3) ↔
      r.data.length ≤ 30 := by
  have hpkt : reportPkt r = HCI_EVT_PKT :: EVT_LE_META :: .ofNat (12 + r.data.length) ::
      SUB_LE_ADV_REPORT :: 1 :: r.eventType :: r.addrType ::
        (r.addr.bytes ++ [.ofNat r.data.length] ++ r.data ++ [r.rssi.toUInt8]) := by
    unfold reportPkt
    simp only [List.cons_append, List.nil_append, patchLen_cons, BdAddr.bytes, List.length_cons,
      List.length_append, List.length_nil]
    congr 4
    omega
  have hlen : (reportPkt r).length = 15 + r.data.length := by
    rw [hpkt]
    simp only [BdAddr.bytes, List.cons_append, List.nil_append, List.length_cons,
      List.length_append, List.length_nil]
    omega
  have hbyte : ((reportPkt r).getD 2 0).toNat = (12 + r.data.length) % 256 := by
    rw [hpkt]
    exact UInt8.toNat_ofNat'
  rw [hlen, hbyte]
  omega

/-- A report is put out as one packet, perhaps followed by a SCAN_REQ. -/
theorem reports_step {ll : VbtLl} {hdr : VbtFrameHdr} {pdu : Mem} {len : ℕ}
    (h : Reports ll hdr pdu len) : ∃ r : Report, r.data.length = bodyLenOf pdu len - 6 ∧
      ((ll.step (.pdu hdr pdu len)).out = .hci 45 (reportPkt r) :: ll.out ∨
        ∃ f, (ll.step (.pdu hdr pdu len)).out = .pdu 14 f :: .hci 45 (reportPkt r) :: ll.out) := by
  have hstep : ll.step (.pdu hdr pdu len) = ll.pduFromMedium hdr pdu len := rfl
  have hlen : ¬ len < 2 := Nat.not_lt.2 h.header
  have hbody : ¬ bodyLenOf pdu len < 6 := Nat.not_lt.2 h.body
  rw [hstep, pduFromMedium, if_neg hlen, if_pos h.adv]
  dsimp only
  generalize (if pdu 0 &&& 0x40 ≠ 0 then (1 : UInt8) else 0) = txadd
  have htype := h.type
  unfold typeAt at htype
  generalize pdu 0 &&& VBT_ADV_PDU_TYPE_MASK = type at htype
  rcases htype with rfl | ⟨hfour, hother⟩
  · refine ⟨⟨0x04, txadd, addrAt (pdu.shift 2) 0,
      ((pdu.shift 2).shift 6).take (bodyLenOf pdu len - 6), hdr.rssi⟩, Mem.take_length _ _,
        Or.inl ?_⟩
    rw [if_neg (by decide), if_neg (by decide), if_pos rfl, scanRspFromMedium,
      if_pos ⟨h.scanning, h.body⟩]
    rfl
  · refine ⟨⟨reportType type, txadd, addrAt (pdu.shift 2) 0,
      ((pdu.shift 2).shift 6).take (bodyLenOf pdu len - 6), hdr.rssi⟩, Mem.take_length _ _, ?_⟩
    rw [if_pos hfour, advFromMedium, if_neg hbody]
    dsimp only
    rw [if_neg hother, if_pos h.scanning]
    split_ifs
    · exact Or.inr ⟨_, rfl⟩
    · exact Or.inl rfl

theorem reports_outputs {ll : VbtLl} {hdr : VbtFrameHdr} {pdu : Mem} {len : ℕ}
    (h : Reports ll hdr pdu len) : ∃ r : Report, r.data.length = bodyLenOf pdu len - 6 ∧
      ∀ size pkt, Out.hci size pkt ∈ ll.outputs (.pdu hdr pdu len) ↔ size = 45 ∧
          pkt = reportPkt r := by
  obtain ⟨r, hdata, hout | ⟨f, hout⟩⟩ := reports_step h
  · refine ⟨r, hdata, fun size pkt => ?_⟩
    rw [outputs_eq (show _ = [_] ++ ll.out from hout)]
    simp
  · refine ⟨r, hdata, fun size pkt => ?_⟩
    rw [outputs_eq (show _ = [_, _] ++ ll.out from hout)]
    simp

/-- **A report fits its array** and its length byte exactly if the body of the PDU, as far as the
PDU has it, is at most 36 bytes long: an address and 30 bytes of advertising data. -/
theorem report_fits_iff {ll : VbtLl} {hdr : VbtFrameHdr} {pdu : Mem} {len : ℕ}
    (h : Reports ll hdr pdu len) :
    (∀ size pkt, Out.hci size pkt ∈ ll.outputs (.pdu hdr pdu len) →
      pkt.length ≤ size ∧ (pkt.getD 2 0).toNat = pkt.length - 3) ↔ bodyLenOf pdu len ≤ 36 := by
  obtain ⟨r, hdata, hmem⟩ := reports_outputs h
  have hbody := h.body
  constructor
  · intro hall
    have := (report_fits r).1 (hall 45 (reportPkt r) ((hmem _ _).2 ⟨rfl, rfl⟩))
    omega
  · intro hle size pkt ho
    obtain ⟨rfl, rfl⟩ := (hmem size pkt).1 ho
    exact (report_fits r).2 (by omega)

/-- A scanning core is given an advertisement with `n` bytes of advertising data. -/
def longAdv (n : ℕ) : Frame :=
  ⟨fillHdr VBT_LL_ADV VBT_ADV_ACCESS_ADDR VBT_CHAN_ADV_37 peripheralAddr 0 (8 + n),
    [VBT_ADV_IND, .ofNat (6 + n)] ++ peripheralAddr.bytes ++ List.replicate n 0xAA⟩

theorem report_fits_iff_thirty :
    Reports scanner (longAdv 30).hdr (Mem.ofList (longAdv 30).pdu blank) 38 ∧
      ∀ size pkt, Out.hci size pkt ∈ scanner.outputs (fromMedium blank (longAdv 30)) →
        pkt.length ≤ size ∧ (pkt.getD 2 0).toNat = pkt.length - 3 := by
  have h : Reports scanner (longAdv 30).hdr (Mem.ofList (longAdv 30).pdu blank) 38 :=
    ⟨by decide, rfl, by decide +kernel, by decide +kernel,
      Or.inr ⟨Or.inl rfl, by decide +kernel⟩⟩
  exact ⟨h, (report_fits_iff h).2 (by decide +kernel)⟩

/-- Advertising data of 31 bytes, the legal maximum, runs over the end of the array. -/
theorem report_overruns :
    (longAdv 31).hdr.pduLen.toNat = (longAdv 31).pdu.length ∧ (longAdv 31).pdu.length = 39 ∧
      ∃ pkt, Out.hci 45 pkt ∈ scanner.outputs (fromMedium blank (longAdv 31)) ∧ pkt.length = 46 :=
  ⟨by decide, by decide,
    reportPkt ⟨0, 0, peripheralAddr, List.replicate 31 0xAA, VBT_DEFAULT_RSSI⟩, by decide +kernel,
    by decide +kernel⟩

end VbtLl
end Vbt
