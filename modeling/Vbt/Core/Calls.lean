import Vbt.Core.Effects

/-!
# Every call is a chain of moves

* `command_doing`, `hciFromHost_doing`: packets from the host;
* `handleLlControl_doing`, `initiate_doing`, `connectIndFromMedium_doing`, `pduFromMedium_doing`:
  PDUs from the medium;
* `tick_doing`, and `step_doing` for any call.
-/

namespace Vbt
namespace VbtLl

variable {m : Intake}

/-! ### Commands -/

theorem reset_doing (ll : VbtLl) : Doing m ll ll.reset := by
  refine (Doing.refl ll).does (.resets 260 _ rfl ?_ rfl)
  rw [hostEvent_cmdComplete, if_pos rfl]

/-- A command that sets fields and answers with a status. -/
theorem doing_setting {ll ll' : VbtLl} {op : Op} (hop : op.code ≠ Op.reset.code)
    (hlink : ll'.link = ll.link) (hout : ll'.out = ll.out) (status : UInt8) :
    Doing m ll (ll'.cmdCompleteStatus op.code status) :=
  ((Doing.refl ll).sets hlink hout).completeStatus hop status

theorem handleLeCreateConn_doing (ll : VbtLl) (params : Mem) (plen : ℕ) :
    Doing m ll (ll.handleLeCreateConn params plen) := by
  unfold handleLeCreateConn
  split_ifs
  · exact (Doing.refl ll).status _ _
  · refine Doing.status ?_ _ _
    exact (Doing.refl ll).sets rfl rfl

theorem leConnUpdate_doing (ll : VbtLl) (params : Mem) (plen : ℕ) :
    Doing m ll (ll.leConnUpdate params plen) := by
  have h0 := (Doing.refl (m := m) ll).status Op.leConnUpdate.code HCI_SUCCESS
  unfold leConnUpdate
  dsimp only
  split_ifs
  · split
    · exact h0
    · refine h0.other 16 ?_
      simp only [List.cons_append, patchLen_cons, hostEvent_leMeta]
      rfl
  · exact h0

theorem leReadRemoteFeatures_doing (ll : VbtLl) (params : Mem) (plen : ℕ) :
    Doing m ll (ll.leReadRemoteFeatures params plen) := by
  have h0 := (Doing.refl (m := m) ll).status Op.leReadRemoteFeatures.code HCI_SUCCESS
  unfold leReadRemoteFeatures
  dsimp only
  split_ifs
  · refine h0.other 16 ?_
    simp only [List.cons_append, patchLen_cons, hostEvent_leMeta]
    rfl
  · exact h0

theorem leRand_doing (ll : VbtLl) : Doing m ll ll.leRand :=
  (Doing.refl ll).rand.rand.complete (by decide) _

theorem leStartEncryption_doing (ll : VbtLl) (params : Mem) (plen : ℕ) :
    Doing m ll (ll.leStartEncryption params plen) := by
  have h0 := (Doing.refl (m := m) ll).status Op.leStartEncryption.code HCI_SUCCESS
  unfold leStartEncryption
  dsimp only
  split
  · split
    · exact h0
    · rename_i i hi
      obtain ⟨hlt, hl⟩ := link_of_connByHandle hi
      refine Doing.control (h0.flag i _ ?_) hlt ?_ _ ?_
      · exact fun _ => rfl
      · rw [modConn_same]
        exact (LlConn.link_eq_some.1 hl).1
      · split_ifs <;> simp
  · exact h0

theorem leLtkReqReply_doing (ll : VbtLl) (params : Mem) (plen : ℕ) :
    Doing m ll (ll.leLtkReqReply params plen) := by
  unfold leLtkReqReply
  dsimp only
  have h0 : Doing m ll (ll.cmdComplete Op.leLtkReqReply.code
      ([HCI_SUCCESS] ++ bytes16 (ltkHandle params plen))) :=
    (Doing.refl ll).complete (by decide) _
  split
  · exact h0
  · rename_i i hi
    obtain ⟨hlt, hl⟩ := link_of_connByHandle hi
    exact h0.control hlt (LlConn.link_eq_some.1 hl).1 _ (by decide)

/-- Slot `i` is given up and the host is told. -/
theorem Doing.close {ll ll' : VbtLl} (h : Doing m ll ll') {i : ℕ} {x : UInt16} {aa : UInt32}
    (hi : i < VBT_LL_MAX_CONN) (hl : ll'.link i = some (x, aa)) (reason : UInt8) :
    Doing m ll ((ll'.modConn i fun c => { c with active := false }).evtDisconnComplete x reason) := by
  have hlink : (ll'.modConn i fun c => { c with active := false }).link =
      Function.update ll'.link i none := link_modConn ll' i _
  exact h.does (.closes i x aa 7 _ hi hl hlink (hostEvent_disconnComplete _ _ _ _) rfl)

theorem disconnect_doing (ll : VbtLl) (params : Mem) (plen : ℕ) :
    Doing m ll (ll.disconnect params plen) := by
  have h0 := (Doing.refl (m := m) ll).status Op.disconnect.code HCI_SUCCESS
  unfold disconnect
  dsimp only
  split_ifs
  · split
    · exact h0
    · rename_i i hi
      obtain ⟨hlt, hl⟩ := link_of_connByHandle hi
      have hlen : [params 2].length ≤ 61 := Nat.succ_le_succ (Nat.zero_le _)
      exact (h0.control hlt (LlConn.link_eq_some.1 hl).1 LL_TERMINATE_IND hlen).close hlt hl _
  · exact h0

theorem readRemoteVersion_doing (ll : VbtLl) (params : Mem) (plen : ℕ) :
    Doing m ll (ll.readRemoteVersion params plen) := by
  have h0 := (Doing.refl (m := m) ll).status Op.readRemoteVersion.code HCI_SUCCESS
  unfold readRemoteVersion
  dsimp only
  split_ifs
  · exact h0.other 11 (hostEvent_remoteVersion _ _)
  · exact h0

theorem command_doing (ll : VbtLl) (op : Op) (params : Mem) (plen : ℕ) :
    Doing m ll (ll.command op params plen) := by
  have h0 := Doing.refl (m := m) ll
  cases op with
  | reset => exact reset_doing ll
  | setEventMask | setEventMaskPage2 | leSetEventMask | leSetHostChanClass | leClearWhiteList
  | leAddWhiteList | leRemoveWhiteList => exact h0.completeStatus (by decide) _
  | readLocalVersion | readLocalCommands | readLocalFeatures | leReadLocalFeatures | readBufferSize
  | leReadBufferSize | readBdAddr | leReadAdvTxPower | leReadWhiteListSize
  | leReadSupportedStates => exact h0.complete (by decide) _
  | leSetRandomAddress | leSetAdvParameters | leSetAdvData | leSetScanRspData
  | leSetScanParameters => refine doing_setting (by decide) ?_ ?_ _ <;> split_ifs <;> rfl
  | leSetAdvEnable | leSetScanEnable =>
    refine doing_setting (by decide) ?_ ?_ _ <;> cases enableFlag params plen <;> rfl
  | leCreateConn => exact handleLeCreateConn_doing ll params plen
  | leCreateConnCancel => refine doing_setting (by decide) ?_ ?_ _ <;> rfl
  | leConnUpdate => exact leConnUpdate_doing ll params plen
  | leReadRemoteFeatures => exact leReadRemoteFeatures_doing ll params plen
  | leRand => exact leRand_doing ll
  | leEncrypt => exact h0.complete (by decide) _
  | leStartEncryption => exact leStartEncryption_doing ll params plen
  | leLtkReqReply => exact leLtkReqReply_doing ll params plen
  | leLtkReqNegReply => exact h0.complete (by decide) _
  | disconnect => exact disconnect_doing ll params plen
  | readRemoteVersion => exact readRemoteVersion_doing ll params plen

theorem dispatchCommand_doing (ll : VbtLl) (pkt : Mem) (len : ℕ) :
    Doing m ll (ll.dispatchCommand pkt len) := by
  unfold dispatchCommand
  dsimp only
  split
  · exact Doing.refl ll
  · split
    · exact command_doing ll _ _ _
    · -- an opcode without a case is not that of the reset
      rename_i hop
      refine (Doing.refl ll).completeStatus ?_ _
      intro heq
      rw [heq, Op.ofCode_code] at hop
      cases hop

/-! ### ACL data from the host -/

theorem aclLen_le (pkt : Mem) (len : ℕ) : aclLen pkt len ≤ LE_ACL_MTU := by
  unfold aclLen
  dsimp only
  split_ifs <;> omega

/-- The data PDU of an ACL packet carries its length, and is not too long. -/
theorem aclPdu_length (pkt : Mem) (len : ℕ) :
    ([LLID_START, .ofNat (aclLen pkt len)] ++ (pkt.shift 5).take (aclLen pkt len)).length =
        2 + (UInt8.ofNat (aclLen pkt len)).toNat ∧
      ([LLID_START, .ofNat (aclLen pkt len)] ++ (pkt.shift 5).take (aclLen pkt len)).length ≤
        253 := by
  have hle : aclLen pkt len ≤ 251 := aclLen_le pkt len
  simp only [List.length_append, List.length_cons, List.length_nil, Mem.take_length,
    UInt8.toNat_ofNat']
  omega

theorem handleAclFromHost_doing (ll : VbtLl) (pkt : Mem) (len : ℕ) :
    Doing m ll (ll.handleAclFromHost pkt len) := by
  unfold handleAclFromHost
  dsimp only
  split
  · exact Doing.refl ll
  · split
    · exact Doing.refl ll
    · rename_i i hi
      obtain ⟨hlt, hl⟩ := link_of_connByHandle hi
      obtain ⟨hbody, hshort⟩ := aclPdu_length pkt len
      have h1 := (Doing.refl (m := m) ll).data hlt (LlConn.link_eq_some.1 hl).1 hbody hshort
        (hshort.trans (by decide : 253 ≤ 261))
      refine h1.about 10 ?_ (Or.inr (Or.inr (Or.inr (hostEvent_numCompleted _ _ _))))
      exact mem_activeHandles.2 ⟨i, hlt, _, hl⟩

theorem hciFromHost_doing (ll : VbtLl) (pkt : Mem) (len : ℕ) :
    Doing m ll (ll.hciFromHost pkt len) := by
  unfold hciFromHost
  split_ifs
  · exact Doing.refl ll
  · exact dispatchCommand_doing ll pkt len
  · exact handleAclFromHost_doing ll pkt len
  · exact Doing.refl ll

/-! ### Data PDUs from the medium -/

theorem slotHandle_acl {i : ℕ} (hi : i < VBT_LL_MAX_CONN) :
    (slotHandle i ||| 0x2000) &&& 0x0fff = slotHandle i := by
  have hi8 : i < 8 := hi
  interval_cases i <;> rfl

theorem aclToHost_doing {ll : VbtLl} (hn : ll.Numbered) {i : ℕ} (hi : i < VBT_LL_MAX_CONN)
    (hact : (ll.conns i).active = true) (l2cap : List UInt8) :
    Doing m ll (ll.aclToHost (ll.conns i).handle l2cap) := by
  have hl : ll.link i = some ((ll.conns i).handle, _) := LlConn.link_eq_some.2 ⟨hact, rfl, rfl⟩
  unfold aclToHost
  split
  · exact Doing.refl ll
  · refine (Doing.refl ll).about 271 (mem_activeHandles.2 ⟨i, hi, _, hl⟩) (Or.inl ?_)
    rw [List.append_assoc, hostEvent_acl, hn i hi _ _ hl, slotHandle_acl hi]

theorem markEncrypted_doing {ll : VbtLl} {i : ℕ} (hi : i < VBT_LL_MAX_CONN)
    (hact : (ll.conns i).active = true) : Doing m ll (ll.markEncrypted i) := by
  unfold markEncrypted
  split
  · exact Doing.refl ll
  · have h1 : Doing m ll (ll.modConn i fun c => { c with encrypted := true }) :=
      (Doing.refl ll).flag i _ fun _ => rfl
    refine h1.about 7 ?_ (Or.inr (Or.inl (hostEvent_encryptChange _ _ _ _)))
    refine mem_activeHandles.2 ⟨i, hi, (ll.conns i).accessAddr, ?_⟩
    rw [link, modConn_same]
    exact LlConn.link_eq_some.2 ⟨hact, rfl, rfl⟩

theorem handleEncReq_doing {ll : VbtLl} {i : ℕ} (hi : i < VBT_LL_MAX_CONN)
    (hact : (ll.conns i).active = true) (payload : Mem) (plen : ℕ) :
    Doing m ll (ll.handleEncReq i payload plen) := by
  unfold handleEncReq
  dsimp only
  generalize hll1 : (ll.modConn i fun c => { c with encrypting := true }) = ll1
  have h1 : Doing m ll ll1 := hll1 ▸ (Doing.refl ll).flag i _ fun _ => rfl
  have hact1 : (ll1.conns i).active = true := by
    rw [← hll1, modConn_same]
    exact hact
  have h2 := h1.control hi hact1 LL_ENC_RSP (show (List.replicate 12 0).length ≤ 61 by decide)
  refine h2.about 16 (mem_activeHandles.2 ⟨i, hi, _, LlConn.link_eq_some.2 ⟨hact1, rfl, rfl⟩⟩)
    (Or.inr (Or.inr (Or.inl ?_)))
  rw [List.append_assoc]
  exact hostEvent_ltkRequest _ _

theorem handleLlControl_doing {ll : VbtLl} {i : ℕ} (hi : i < VBT_LL_MAX_CONN)
    (hact : (ll.conns i).active = true) (payload : Mem) (plen : ℕ) :
    Doing m ll (ll.handleLlControl i payload plen) := by
  have h0 := Doing.refl (m := m) ll
  unfold handleLlControl
  split_ifs
  · exact h0
  · exact h0.close hi (LlConn.link_eq_some.2 ⟨hact, rfl, rfl⟩) _
  · exact h0.close hi (LlConn.link_eq_some.2 ⟨hact, rfl, rfl⟩) _
  · exact h0.control hi hact _ (by decide)
  · exact h0.control hi hact _ (by decide)
  · exact handleEncReq_doing hi hact payload plen
  · exact (h0.control hi hact _ (by decide)).trans (markEncrypted_doing hi hact)
  · exact markEncrypted_doing hi hact
  · exact h0

theorem dataFromMedium_doing {ll : VbtLl} (hn : ll.Numbered) (hdr : VbtFrameHdr) (pdu : Mem)
    (bodyLen : ℕ) : Doing m ll (ll.dataFromMedium hdr pdu bodyLen) := by
  unfold dataFromMedium
  split
  · exact Doing.refl ll
  · rename_i i hi
    obtain ⟨hlt, hl⟩ := link_of_connByAA hi
    have hact := (LlConn.link_eq_some.1 hl).1
    dsimp only
    split_ifs
    · exact handleLlControl_doing hlt hact _ _
    · exact aclToHost_doing hn hlt hact _
    · exact Doing.refl ll
    · exact Doing.refl ll

/-! ### Opening connections -/

/-- A fresh entry that is given an Access Address is linked under the handle of its slot. -/
theorem link_opened {ll ll' : VbtLl} {i : ℕ} {f : LlConn → LlConn} {aa : UInt32}
    (hlink : ll'.link = (ll.modConn i fun _ => newConn i).link) (hc : ll'.conns i = newConn i)
    (hf : (f (newConn i)).link = some (slotHandle i, aa)) :
    (ll'.modConn i f).link = Function.update ll.link i (some (slotHandle i, aa)) := by
  rw [link_modConn, hc, hf, hlink, link_modConn, Function.update_idem]

/-- The host is told of the connection in slot `i`, after the CONNECT_IND if this is the central. -/
theorem hostEvent_evtLeConnComplete (c : LlConn) :
    hostEvent (patchLen ([HCI_EVT_PKT, EVT_LE_META, 0, SUB_LE_CONN_COMPLETE, HCI_SUCCESS] ++
      bytes16 c.handle ++ [c.role, c.peerAddrType] ++ c.peerAddr.bytes ++
      [0x18, 0x00, 0x00, 0x00, 0x2a, 0x00, 0x00])) = .connComplete c.handle := by
  rw [List.append_assoc, List.append_assoc]
  exact hostEvent_connComplete _ _

theorem chosenAA_valid (r : UInt32) : chosenAA r ≠ 0 ∧ chosenAA r ≠ VBT_ADV_ACCESS_ADDR := by
  rw [chosenAA_eq]
  -- bit 22 is set, and bit 31 is clear
  constructor
  · intro h
    have hbit := congrArg (fun x : UInt32 => x.toBitVec.getLsbD 22) h
    simp at hbit
  · intro h
    have hbit := congrArg (fun x : UInt32 => x.toBitVec.getLsbD 31) h
    simp [VBT_ADV_ACCESS_ADDR] at hbit

theorem connectIndType (itype advaType : UInt8) :
    (VBT_CONNECT_IND ||| txAddBit itype ||| rxAddBit advaType) &&& VBT_ADV_PDU_TYPE_MASK =
      VBT_CONNECT_IND := by
  unfold txAddBit rxAddBit
  split_ifs <;> rfl

theorem invites_sendConnectInd (channel txAddrType itype advaType : UInt8) (inita adva : BdAddr)
    (aa : UInt32) (n : ℕ) :
    Invites adva aa ⟨fillHdr VBT_LL_ADV VBT_ADV_ACCESS_ADDR channel inita txAddrType n,
      connectIndPdu itype advaType inita adva aa⟩ where
  llType := rfl
  accessAddr := rfl
  type := connectIndType itype advaType
  length := rfl
  adva := rfl
  aa := le32_byteAt aa

theorem sound_sendConnectInd (channel txAddrType itype advaType : UInt8) (inita adva : BdAddr)
    (aa : UInt32) :
    Sound 36 ⟨fillHdr VBT_LL_ADV VBT_ADV_ACCESS_ADDR channel inita txAddrType 36,
      connectIndPdu itype advaType inita adva aa⟩ where
  magic := rfl
  version := rfl
  pduLen := rfl
  body := rfl
  short := show 36 ≤ 253 by omega
  fits := le_rfl
  rssi := rfl

section Open

variable {ll ll' : VbtLl} {i : ℕ} {aa : UInt32}

/-- The rest of `initiate` once the entry is filled in. -/
theorem Doing.call {adva : BdAddr} (txadd : UInt8) (hi : i < VBT_LL_MAX_CONN)
    (hfree : ll.link i = none) (hadv : m.adv adva) (hvalid : aa ≠ 0 ∧ aa ≠ VBT_ADV_ACCESS_ADDR)
    (hlink : ll'.link = Function.update ll.link i (some (slotHandle i, aa)))
    (hout : ll'.out = ll.out) :
    Doing m ll (({ ll'.sendConnectInd adva txadd (ll'.conns i) with
      state := .idle, scanEnabled := false } : VbtLl).evtLeConnComplete (ll'.conns i) HCI_SUCCESS) := by
  have hl : ll'.link i = some (slotHandle i, aa) := by rw [hlink, Function.update_self]
  obtain ⟨-, hh, rfl⟩ := LlConn.link_eq_some.1 hl
  refine (Doing.refl ll).does (.calls i _ adva 24 36 _ _ hi hfree hadv hvalid hlink
    (sound_sendConnectInd VBT_CHAN_ADV_37 (ownSourceAddrType ll'.initOwnAddrType) _ txadd
      (ll'.ownSourceAddr ll'.initOwnAddrType) adva _)
    (invites_sendConnectInd _ _ (ownSourceAddrType ll'.initOwnAddrType) _ _ _ _ _)
    ((hostEvent_evtLeConnComplete _).trans (congrArg _ hh)) ?_)
  rw [← hout]
  rfl

/-- The rest of `connectIndFromMedium` once the entry is filled in. -/
theorem Doing.answer (hi : i < VBT_LL_MAX_CONN) (hfree : ll.link i = none) (hind : m.ind aa)
    (hlink : ll'.link = Function.update ll.link i (some (slotHandle i, aa)))
    (hout : ll'.out = ll.out) :
    Doing m ll (({ ll' with advEnabled := false, state := .idle } : VbtLl).evtLeConnComplete
      (ll'.conns i) HCI_SUCCESS) := by
  have hl : ll'.link i = some (slotHandle i, aa) := by rw [hlink, Function.update_self]
  obtain ⟨-, hh, -⟩ := LlConn.link_eq_some.1 hl
  refine (Doing.refl ll).does (.answers i aa 24 _ hi hfree hind hlink
    ((hostEvent_evtLeConnComplete _).trans (congrArg _ hh)) ?_)
  rw [← hout]
  rfl

end Open

theorem initiate_doing (ll : VbtLl) {adva : BdAddr} (hadv : m.adv adva) (txadd : UInt8) :
    Doing m ll (ll.initiate adva txadd) := by
  unfold initiate
  split
  · exact Doing.refl ll
  · rename_i i ll1 halloc
    obtain ⟨hlt, hfree, rfl⟩ := connAlloc_eq_some halloc
    dsimp only
    generalize hll2 : (ll.modConn i fun _ => newConn i).llRand32 = ll2
    have hlink : ll2.link = (ll.modConn i fun _ => newConn i).link := by
      rw [← hll2, link_llRand32]
    have hout : ll2.out = ll.out := by
      rw [← hll2, out_llRand32]
      rfl
    have hc : ll2.conns i = newConn i := by
      rw [← hll2, conns_llRand32, modConn_same]
    exact Doing.call txadd hlt hfree hadv (chosenAA_valid _) (link_opened hlink hc rfl) hout

/-- `bodyLenOf` never goes past the PDU. -/
theorem bodyLenOf_le (pdu : Mem) {pduLen : ℕ} (h : 2 ≤ pduLen) :
    2 + bodyLenOf pdu pduLen ≤ pduLen := by
  unfold bodyLenOf
  split_ifs <;> omega

theorem connectIndFromMedium_doing (ll : VbtLl) (txadd : UInt8) {body : Mem} {bodyLen : ℕ}
    (hind : 34 ≤ bodyLen → m.ind (le32 (body 12) (body 13) (body 14) (body 15))) :
    Doing m ll (ll.connectIndFromMedium txadd body bodyLen) := by
  unfold connectIndFromMedium
  split_ifs with hshort haddr
  · exact Doing.refl ll
  · exact Doing.refl ll
  · split
    · exact Doing.refl ll
    · rename_i i ll1 halloc
      obtain ⟨hlt, hfree, rfl⟩ := connAlloc_eq_some halloc
      have hlen : 34 ≤ bodyLen := by
        by_contra hc
        exact hshort (Or.inr (by omega))
      exact Doing.answer hlt hfree (hind hlen) (link_opened rfl (modConn_same ll i _) rfl) rfl

/-! ### Advertising PDUs from the medium -/

theorem reportAdv_doing (ll : VbtLl) (eventType addrType : UInt8) (addr : BdAddr)
    (data : List UInt8)
    (rssi : Int8) : Doing m ll (ll.reportAdv eventType addrType addr data rssi) := by
  refine (Doing.refl ll).other 45 ?_
  exact congrArg hostEvent (patchLen_cons _ _ _ _)

theorem sendScanReq_doing (ll : VbtLl) (adva : BdAddr) (txadd : UInt8) :
    Doing m ll (ll.sendScanReq adva txadd) :=
  (Doing.refl ll).adv (advShape_scanReq _ _ _ _)

theorem advFromMedium_doing (ll : VbtLl) (hdr : VbtFrameHdr) {type : UInt8} (txadd : UInt8)
    {body : Mem} {bodyLen : ℕ}
    (hadv : 6 ≤ bodyLen → type = VBT_ADV_IND ∨ type = VBT_ADV_DIRECT_IND → m.adv (addrAt body 0)) :
    Doing m ll (ll.advFromMedium hdr type txadd body bodyLen) := by
  unfold advFromMedium
  dsimp only
  split_ifs with hshort hinit hscan hactive
  · exact Doing.refl ll
  · exact initiate_doing ll (hadv (by omega) hinit.2.1) txadd
  · exact (reportAdv_doing ll _ _ _ _ _).trans (sendScanReq_doing _ _ _)
  · exact reportAdv_doing ll _ _ _ _ _
  · exact Doing.refl ll

theorem scanReqFromMedium_doing (ll : VbtLl) (body : Mem) (bodyLen : ℕ) :
    Doing m ll (ll.scanReqFromMedium body bodyLen) := by
  unfold scanReqFromMedium
  split_ifs
  · exact (Doing.refl ll).advertise rfl (by decide) _ _ _ _
  · exact Doing.refl ll
  · exact Doing.refl ll

theorem scanRspFromMedium_doing (ll : VbtLl) (hdr : VbtFrameHdr) (txadd : UInt8) (body : Mem)
    (bodyLen : ℕ) : Doing m ll (ll.scanRspFromMedium hdr txadd body bodyLen) := by
  unfold scanRspFromMedium
  split_ifs
  · exact reportAdv_doing ll _ _ _ _ _
  · exact Doing.refl ll

/-! ### Entry points -/

theorem pduFromMedium_doing {ll : VbtLl} (hn : ll.Numbered) (hdr : VbtFrameHdr) (pdu : Mem)
    (pduLen : ℕ) : Doing (intake hdr pdu pduLen) ll (ll.pduFromMedium hdr pdu pduLen) := by
  unfold pduFromMedium
  dsimp only
  generalize (if pdu 0 &&& 0x40 ≠ 0 then (1 : UInt8) else 0) = txadd
  split_ifs with hlen hll hadv hreq hrsp hind hdata
  · exact Doing.refl ll
  · refine advFromMedium_doing ll hdr _ fun hbody htype => ?_
    have := bodyLenOf_le pdu (by omega : 2 ≤ pduLen)
    exact ⟨hll, by omega, htype, rfl⟩
  · exact scanReqFromMedium_doing ll _ _
  · exact scanRspFromMedium_doing ll hdr _ _ _
  · refine connectIndFromMedium_doing ll _ fun hbody => ?_
    have := bodyLenOf_le pdu (by omega : 2 ≤ pduLen)
    exact ⟨hll, by omega, hind, rfl⟩
  · exact Doing.refl ll
  · exact dataFromMedium_doing hn hdr pdu _
  · exact Doing.refl ll

theorem advPduType_cases (ll : VbtLl) :
    ll.advPduType &&& VBT_ADV_PDU_TYPE_MASK = ll.advPduType ∧ ll.advPduType ≠ VBT_CONNECT_IND := by
  unfold advPduType
  split_ifs <;> decide

theorem tick_doing (ll : VbtLl) (nowMs : UInt64) : Doing m ll (ll.tick nowMs) := by
  unfold tick
  split_ifs
  · obtain ⟨hmask, htype⟩ := ll.advPduType_cases
    have h1 := (Doing.refl (m := m) ll).advertise hmask htype VBT_CHAN_ADV_37
      (ownSourceAddrType ll.advOwnAddrType) (ll.ownSourceAddr ll.advOwnAddrType) ll.advData
    have h2 := h1.advertise hmask htype VBT_CHAN_ADV_38
      (ownSourceAddrType ll.advOwnAddrType) (ll.ownSourceAddr ll.advOwnAddrType) ll.advData
    have h3 := h2.advertise hmask htype VBT_CHAN_ADV_39
      (ownSourceAddrType ll.advOwnAddrType) (ll.ownSourceAddr ll.advOwnAddrType) ll.advData
    exact h3.sets rfl rfl
  · exact Doing.refl ll
  · exact Doing.refl ll

/-- What a call learns from the medium. -/
def Input.intake : Input → Intake
  | .pdu hdr m len => VbtLl.intake hdr m len
  | _ => Intake.nothing

/-- **Every call of an entry point is a chain of moves.** -/
theorem step_doing {ll : VbtLl} (hn : ll.Numbered) (i : Input) : Doing i.intake ll (ll.step i) := by
  cases i with
  | hci pkt len => exact hciFromHost_doing ll pkt len
  | pdu hdr pdu len => exact pduFromMedium_doing hn hdr pdu len
  | tick nowMs => exact tick_doing ll nowMs

end VbtLl
end Vbt
