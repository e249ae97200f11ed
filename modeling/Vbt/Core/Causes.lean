import Vbt.Core.Ends

/-!
# Every call is one transition of the abstract machine

* `Quiet`: the call leaves connections, their signals and the reports of encryption alone, with a
  rule for each kind of packet and PDU;
* `command_effect`, `handleLlControl_effect`, `initiate_effect`, `connectIndFromMedium_effect`: the
  calls that do something;
* `step_effect`: every call;
* `cause_due`, `cause_apt`: when a call has a given cause.
-/

namespace Vbt
namespace VbtLl

/-! ### Tables -/

theorem ends_congr {ll ll' : VbtLl} (h : ll'.conns = ll.conns) : ll'.ends = ll.ends := by
  unfold ends
  rw [h]

theorem ends_modConn (ll : VbtLl) {i : ℕ} (hi : i < VBT_LL_MAX_CONN) (f : LlConn → LlConn) :
    (ll.modConn i f).ends = Function.update ll.ends i (f (ll.conns i)).linkEnd := by
  funext k
  unfold ends modConn
  rw [Slots.modify_apply, Function.update_apply]
  by_cases hk : k = i
  · rw [if_pos hk, if_pos hk, hk, if_pos hi]
  · rw [if_neg hk, if_neg hk]

theorem ends_of_active {ll : VbtLl} {k : ℕ} (hk : k < VBT_LL_MAX_CONN)
    (hact : (ll.conns k).active = true) :
    ll.ends k = some ⟨(ll.conns k).handle, (ll.conns k).accessAddr, (ll.conns k).role,
      (ll.conns k).encrypted⟩ := by
  unfold ends LlConn.linkEnd
  rw [if_pos hk, if_pos hact]

/-- Changing what `LinkEnd` does not show leaves the table as it is. -/
theorem ends_flag (ll : VbtLl) (i : ℕ) (f : LlConn → LlConn)
    (hf : ∀ c : LlConn, (f c).linkEnd = c.linkEnd) : (ll.modConn i f).ends = ll.ends := by
  funext k
  unfold ends
  rw [show ((ll.modConn i f).conns k).linkEnd = (ll.conns k).linkEnd from
    Slots.modify_attr ll.conns LlConn.linkEnd hf i k]

/-! ### Packets and PDUs -/

theorem signals_sendHci (ll : VbtLl) (size : ℕ) (pkt : List UInt8) :
    (ll.sendHci size pkt).signals = ll.signals := by
  unfold signals
  rw [frames_sendHci]

theorem changes_pduToMedium (ll : VbtLl) (size : ℕ) (hdr : VbtFrameHdr) (pdu : List UInt8) :
    (ll.pduToMedium size hdr pdu).changes = ll.changes := by
  unfold changes
  rw [packets_pduToMedium]

theorem signals_pduToMedium (ll : VbtLl) (size : ℕ) (f : Frame) :
    (ll.pduToMedium size f.hdr f.pdu).signals =
      ll.signals ++ if f.signal.notable then [f.signal] else [] := by
  unfold signals
  rw [frames_pduToMedium, List.map_append, List.filter_append]
  congr 1
  show [f.signal].filter Signal.notable = _
  rw [List.filter_singleton, Bool.cond_eq_ite]

theorem changes_sendHci (ll : VbtLl) (size : ℕ) (pkt : List UInt8) :
    (ll.sendHci size pkt).changes = ll.changes ++
      match hostEvent pkt with
      | .encryptChange h => [h]
      | _ => [] := by
  unfold changes
  rw [packets_sendHci, List.filterMap_append]
  congr 1
  cases h : hostEvent pkt <;> simp [h]

theorem changes_quiet {ll : VbtLl} {size : ℕ} {pkt : List UInt8}
    (h : ∀ x, hostEvent pkt ≠ .encryptChange x) : (ll.sendHci size pkt).changes = ll.changes := by
  rw [changes_sendHci]
  cases hp : hostEvent pkt with
  | encryptChange x => exact absurd hp (h x)
  | _ => exact List.append_nil _

theorem signals_congr {ll ll' : VbtLl} (h : ll'.out = ll.out) : ll'.signals = ll.signals := by
  unfold signals frames
  rw [h]

theorem changes_congr {ll ll' : VbtLl} (h : ll'.out = ll.out) : ll'.changes = ll.changes := by
  unfold changes packets
  rw [h]

/-- Nothing happens to the connections. -/
abbrev Quiet (ll ll' : VbtLl) : Prop := Effect ll .nothing ll'

theorem Effect.of_eq {ll ll' : VbtLl} (hends : ll'.ends = ll.ends)
    (hsignals : ll'.signals = ll.signals) (hchanges : ll'.changes = ll.changes) : Quiet ll ll' where
  ends := hends
  signals := hsignals.trans (List.append_nil _).symm
  changes := hchanges.trans (List.append_nil _).symm

theorem Effect.refl (ll : VbtLl) : Quiet ll ll := .of_eq rfl rfl rfl

/-- Something quiet after the effect. -/
theorem Effect.trans {ll ll' ll'' : VbtLl} {c : Cause} (h : Effect ll c ll') (h' : Quiet ll' ll'') :
    Effect ll c ll'' where
  ends := h'.ends.trans h.ends
  signals := by rw [h'.signals, h.signals]; exact List.append_nil _
  changes := by rw [h'.changes, h.changes]; exact List.append_nil _

/-- Something quiet before the effect. -/
theorem Effect.after {ll ll' ll'' : VbtLl} {c : Cause} (h : Quiet ll ll') (h' : Effect ll' c ll'') :
    Effect ll c ll'' where
  ends := by rw [h'.ends, h.ends]; rfl
  signals := by rw [h'.signals, h.signals]; exact congrArg (· ++ _) (List.append_nil _)
  changes := by
    rw [h'.changes, h.changes, h.ends]
    exact congrArg (· ++ _) (List.append_nil _)

section Rules

variable {ll ll' : VbtLl} {c : Cause}

theorem Effect.sets (h : Effect ll c ll') {ll'' : VbtLl} (hends : ll''.ends = ll'.ends)
    (hout : ll''.out = ll'.out) : Effect ll c ll'' :=
  h.trans (.of_eq hends (signals_congr hout) (changes_congr hout))

theorem Effect.hci (h : Effect ll c ll') (size : ℕ) {pkt : List UInt8}
    (hp : ∀ x, hostEvent pkt ≠ .encryptChange x) : Effect ll c (ll'.sendHci size pkt) :=
  h.trans (.of_eq rfl (signals_sendHci ll' size pkt) (changes_quiet hp))

theorem Effect.pdu (h : Effect ll c ll') (size : ℕ) (f : Frame) (hf : f.signal.notable = false) :
    Effect ll c (ll'.pduToMedium size f.hdr f.pdu) := by
  refine h.trans (.of_eq rfl ?_ (changes_pduToMedium ll' size f.hdr f.pdu))
  rw [signals_pduToMedium, hf]
  exact List.append_nil _

theorem Effect.complete (h : Effect ll c ll') (opcode : UInt16) (ret : List UInt8) :
    Effect ll c (ll'.cmdComplete opcode ret) := by
  refine h.hci 260 fun x => ?_
  rw [hostEvent_cmdComplete]
  split_ifs <;> exact HostEvent.noConfusion

theorem Effect.completeStatus (h : Effect ll c ll') (opcode : UInt16) (status : UInt8) :
    Effect ll c (ll'.cmdCompleteStatus opcode status) :=
  h.complete opcode [status]

theorem Effect.status (h : Effect ll c ll') (opcode : UInt16) (status : UInt8) :
    Effect ll c (ll'.cmdStatus opcode status) := by
  refine h.hci 7 fun x hx => ?_
  cases (hostEvent_cmdStatus _ _ _ _).symm.trans hx

theorem Effect.flag (h : Effect ll c ll') (i : ℕ) (f : LlConn → LlConn)
    (hf : ∀ c : LlConn, (f c).linkEnd = c.linkEnd) : Effect ll c (ll'.modConn i f) :=
  h.sets (ends_flag ll' i f hf) rfl

theorem Effect.rand (h : Effect ll c ll') : Effect ll c ll'.llRand32 :=
  h.sets (ends_congr (conns_llRand32 ll')) (out_llRand32 ll')

/-- An advertising PDU that is not a CONNECT_IND. -/
theorem Effect.adv (h : Effect ll c ll') {size : ℕ} {channel txAddrType : UInt8} {txAddr : BdAddr}
    {pdu : List UInt8} (htype : pduType pdu ≠ VBT_CONNECT_IND) :
    Effect ll c (ll'.sendAdvPdu size channel txAddr txAddrType pdu) := by
  refine h.pdu size ⟨_, pdu⟩ ?_
  have h0 : Mem.ofList pdu (fun _ => 0) 0 &&& VBT_ADV_PDU_TYPE_MASK ≠ VBT_CONNECT_IND := htype
  unfold Frame.signal Vbt.signal
  split_ifs with h1 h2
  · rfl
  · unfold advSignal
    split_ifs with ha hc
    · rfl
    · exact absurd hc.1 h0
    · rfl
  · exact absurd rfl h2
  · rfl

end Rules

/-! ### Control PDUs -/

theorem signal_control {hdr : VbtFrameHdr} (hll : hdr.llType = VBT_LL_DATA) (opcode : UInt8)
    {params : List UInt8} (hlen : params.length ≤ 61) :
    Frame.signal ⟨hdr, [LLID_CONTROL, .ofNat (1 + params.length), opcode] ++ params⟩ =
      controlSignal hdr.accessAddr opcode := by
  have hn : ([LLID_CONTROL, .ofNat (1 + params.length), opcode] ++ params).length =
      3 + params.length := by
    simp only [List.length_append, List.length_cons, List.length_nil]
  have hadv : hdr.llType ≠ VBT_LL_ADV := by
    rw [hll]
    decide
  unfold Frame.signal Vbt.signal
  dsimp only
  rw [hn, if_neg (by omega), if_neg hadv, if_pos]
  · rfl
  · refine ⟨hll, (rfl : LLID_CONTROL &&& 0x03 = LLID_CONTROL), ?_⟩
    unfold bodyLenOf
    show 1 ≤ if _ < 2 + (UInt8.ofNat (1 + params.length)).toNat then _
      else (UInt8.ofNat (1 + params.length)).toNat
    rw [UInt8.toNat_ofNat']
    split_ifs <;> omega

theorem signals_sendLlControl (ll : VbtLl) (c : LlConn) (opcode : UInt8) {params : List UInt8}
    (hlen : params.length ≤ 61) :
    (ll.sendLlControl c opcode params).signals = ll.signals ++
      if (controlSignal c.accessAddr opcode).notable then [controlSignal c.accessAddr opcode]
      else [] := by
  have hs := signals_pduToMedium ll 64 ⟨{ fillHdr VBT_LL_DATA c.accessAddr 5
    (ll.ownSourceAddr (ll.connOwnType c)) (ownSourceAddrType (ll.connOwnType c))
    ([LLID_CONTROL, .ofNat (1 + params.length), opcode] ++ params).length with
    connHandle := c.handle }, [LLID_CONTROL, .ofNat (1 + params.length), opcode] ++ params⟩
  rw [signal_control rfl opcode hlen] at hs
  exact hs

/-- A control PDU that does not concern the life of the connection. -/
theorem Effect.control {ll ll' : VbtLl} {c : Cause} (h : Effect ll c ll') (x : LlConn)
    {opcode : UInt8} (hop : (controlSignal x.accessAddr opcode).notable = false)
    {params : List UInt8} (hlen : params.length ≤ 61) :
    Effect ll c (ll'.sendLlControl x opcode params) := by
  refine h.trans (.of_eq rfl ?_ (changes_pduToMedium _ _ _ _))
  rw [signals_sendLlControl ll' x opcode hlen, hop]
  exact List.append_nil _

/-! ### Commands -/

/-- A command that sets fields and answers with a status. -/
theorem quiet_setting {ll ll' : VbtLl} (hends : ll'.ends = ll.ends) (hout : ll'.out = ll.out)
    (opcode : UInt16) (status : UInt8) : Quiet ll (ll'.cmdCompleteStatus opcode status) :=
  ((Effect.refl ll).sets hends hout).completeStatus opcode status

theorem reset_effect (ll : VbtLl) : Effect ll .reset ll.reset := by
  have h1 : Effect ll .reset { ll with
      conns := ⟨VBT_LL_MAX_CONN, fun _ => {}⟩, connsSize := rfl, state := .idle,
      advEnabled := false, scanEnabled := false } := by
    refine ⟨?_, (List.append_nil _).symm, (List.append_nil _).symm⟩
    funext k
    unfold ends
    split_ifs <;> rfl
  exact h1.completeStatus _ _

theorem handleLeCreateConn_quiet (ll : VbtLl) (params : Mem) (plen : ℕ) :
    Quiet ll (ll.handleLeCreateConn params plen) := by
  unfold handleLeCreateConn
  split_ifs
  · exact (Effect.refl ll).status _ _
  · refine Effect.status ?_ _ _
    exact (Effect.refl ll).sets rfl rfl

theorem leConnUpdate_quiet (ll : VbtLl) (params : Mem) (plen : ℕ) :
    Quiet ll (ll.leConnUpdate params plen) := by
  have h0 := (Effect.refl ll).status Op.leConnUpdate.code HCI_SUCCESS
  unfold leConnUpdate
  dsimp only
  split_ifs
  · split
    · exact h0
    · refine h0.hci 16 fun x hx => ?_
      simp only [List.cons_append, patchLen_cons, hostEvent_leMeta] at hx
      cases hx
  · exact h0

theorem leReadRemoteFeatures_quiet (ll : VbtLl) (params : Mem) (plen : ℕ) :
    Quiet ll (ll.leReadRemoteFeatures params plen) := by
  have h0 := (Effect.refl ll).status Op.leReadRemoteFeatures.code HCI_SUCCESS
  unfold leReadRemoteFeatures
  dsimp only
  split_ifs
  · refine h0.hci 16 fun x hx => ?_
    simp only [List.cons_append, patchLen_cons, hostEvent_leMeta] at hx
    cases hx
  · exact h0

theorem readRemoteVersion_quiet (ll : VbtLl) (params : Mem) (plen : ℕ) :
    Quiet ll (ll.readRemoteVersion params plen) := by
  have h0 := (Effect.refl ll).status Op.readRemoteVersion.code HCI_SUCCESS
  unfold readRemoteVersion
  dsimp only
  split_ifs
  · exact h0.hci 11 fun x hx => by cases (hostEvent_remoteVersion _ _).symm.trans hx
  · exact h0

theorem leStartEncryption_quiet (ll : VbtLl) (params : Mem) (plen : ℕ) :
    Quiet ll (ll.leStartEncryption params plen) := by
  have h0 := (Effect.refl ll).status Op.leStartEncryption.code HCI_SUCCESS
  unfold leStartEncryption
  dsimp only
  split
  · split
    · exact h0
    · refine (h0.flag _ _ ?_).control _ rfl ?_
      · exact fun _ => rfl
      · split_ifs <;> simp
  · exact h0

/-- The reply with a key is passed on as a START_ENC_REQ. -/
theorem leLtkReqReply_effect (ll : VbtLl) (params : Mem) (plen : ℕ) :
    Effect ll (ll.onRequest (.ltkReply (ltkHandle params plen))) (ll.leLtkReqReply params plen) := by
  have h0 := (Effect.refl ll).complete Op.leLtkReqReply.code
    ([HCI_SUCCESS] ++ bytes16 (ltkHandle params plen))
  unfold leLtkReqReply onRequest
  dsimp only
  cases hk : ll.connByHandle (ltkHandle params plen) with
  | none => exact h0
  | some k =>
    refine Effect.after h0 ⟨rfl, ?_, ?_⟩
    · exact signals_sendLlControl _ _ _ (Nat.zero_le _)
    · exact (changes_pduToMedium _ _ _ _).trans (List.append_nil _).symm

/-- A connection is closed, and the peer is told. -/
theorem disconnect_effect (ll : VbtLl) (params : Mem) {plen : ℕ} (hlen : 3 ≤ plen) :
    Effect ll (ll.onRequest (.disconnect (handleOf params))) (ll.disconnect params plen) := by
  have h0 := (Effect.refl ll).status Op.disconnect.code HCI_SUCCESS
  unfold disconnect onRequest
  dsimp only
  rw [if_pos hlen]
  have hby : (ll.cmdStatus Op.disconnect.code HCI_SUCCESS).connByHandle (handleOf params) =
      ll.connByHandle (handleOf params) := rfl
  rw [hby]
  cases hk : ll.connByHandle (handleOf params) with
  | none => exact h0
  | some k =>
    obtain ⟨hlt, -⟩ := link_of_connByHandle hk
    refine Effect.hci ?_ 7 fun x hx => ?_
    · refine Effect.after h0 ⟨?_, ?_, ?_⟩
      · exact ends_modConn _ hlt _
      · exact signals_sendLlControl _ _ _ (Nat.succ_le_succ (Nat.zero_le _))
      · exact (changes_pduToMedium _ _ _ _).trans (List.append_nil _).symm
    · cases (hostEvent_disconnComplete _ _ _ _).symm.trans hx

theorem disconnect_quiet (ll : VbtLl) (params : Mem) {plen : ℕ} (hlen : ¬ 3 ≤ plen) :
    Quiet ll (ll.disconnect params plen) := by
  unfold disconnect
  dsimp only
  rw [if_neg hlen]
  exact (Effect.refl ll).status _ _

theorem command_effect (ll : VbtLl) (op : Op) (params : Mem) (plen : ℕ) :
    Effect ll (ll.onRequest (opRequest op params plen)) (ll.command op params plen) := by
  have h0 := Effect.refl ll
  cases op with
  | reset => exact reset_effect ll
  | setEventMask | setEventMaskPage2 | leSetEventMask | leSetHostChanClass | leClearWhiteList
  | leAddWhiteList | leRemoveWhiteList => exact h0.completeStatus _ _
  | readLocalVersion | readLocalCommands | readLocalFeatures | leReadLocalFeatures | readBufferSize
  | leReadBufferSize | readBdAddr | leReadAdvTxPower | leReadWhiteListSize
  | leReadSupportedStates => exact h0.complete _ _
  | leSetRandomAddress | leSetAdvParameters | leSetAdvData | leSetScanRspData
  | leSetScanParameters => refine quiet_setting ?_ ?_ _ _ <;> split_ifs <;> rfl
  | leSetAdvEnable | leSetScanEnable =>
    refine quiet_setting ?_ ?_ _ _ <;> cases enableFlag params plen <;> rfl
  | leCreateConn => exact handleLeCreateConn_quiet ll params plen
  | leCreateConnCancel => refine quiet_setting ?_ ?_ _ _ <;> rfl
  | leConnUpdate => exact leConnUpdate_quiet ll params plen
  | leReadRemoteFeatures => exact leReadRemoteFeatures_quiet ll params plen
  | leRand => exact h0.rand.rand.complete _ _
  | leEncrypt => exact h0.complete _ _
  | leStartEncryption =>
    have hq := leStartEncryption_quiet ll params plen
    have hreq : opRequest .leStartEncryption params plen =
        if 2 ≤ plen then .startEncryption (handleOf params) else .other := rfl
    rw [hreq]
    split_ifs <;> exact hq
  | leLtkReqReply => exact leLtkReqReply_effect ll params plen
  | leLtkReqNegReply => exact h0.complete _ _
  | disconnect =>
    have hreq : opRequest .disconnect params plen =
        if 3 ≤ plen then .disconnect (handleOf params) else .other := rfl
    rw [hreq]
    split_ifs with hlen
    · exact disconnect_effect ll params hlen
    · exact disconnect_quiet ll params hlen
  | readRemoteVersion => exact readRemoteVersion_quiet ll params plen

/-! ### Packets from the host -/

theorem handleAclFromHost_quiet (ll : VbtLl) (pkt : Mem) (len : ℕ) :
    Quiet ll (ll.handleAclFromHost pkt len) := by
  unfold handleAclFromHost
  dsimp only
  split
  · exact Effect.refl ll
  · split
    · exact Effect.refl ll
    · refine Effect.hci ((Effect.refl ll).pdu 261 ⟨_, _⟩ ?_) 10 fun x hx => ?_
      · -- data of the host is never a control PDU
        unfold Frame.signal Vbt.signal
        split_ifs with h1 h2 h3
        · rfl
        · cases h2
        · exact absurd h3.2.1 (by decide : LLID_START &&& 0x03 ≠ LLID_CONTROL)
        · rfl
      · cases (hostEvent_numCompleted _ _ _).symm.trans hx

theorem hciFromHost_effect (ll : VbtLl) (pkt : Mem) (len : ℕ) :
    Effect ll (ll.onRequest (request pkt len)) (ll.hciFromHost pkt len) := by
  unfold hciFromHost request
  by_cases hcmd : pkt 0 = HCI_CMD_PKT
  · rw [if_pos hcmd]
    unfold dispatchCommand
    by_cases hlen : len < 4
    · rw [if_pos (Or.inr hlen), if_pos hlen]
      split_ifs <;> exact Effect.refl ll
    · have hone : ¬ len < 1 := by omega
      have hreq : ¬ (pkt 0 ≠ HCI_CMD_PKT ∨ len < 4) := by tauto
      rw [if_neg hone, if_neg hreq, if_neg hlen]
      dsimp only
      cases Op.ofCode (le16 (pkt 1) (pkt 2)) with
      | none => exact (Effect.refl ll).completeStatus _ _
      | some op => exact command_effect ll op _ _
  · rw [if_neg hcmd, if_pos (Or.inl hcmd)]
    split_ifs
    · exact Effect.refl ll
    · exact handleAclFromHost_quiet ll pkt len
    · exact Effect.refl ll

/-! ### Data PDUs from the medium -/

theorem aclToHost_quiet (ll : VbtLl) (handle : UInt16) (l2cap : List UInt8) :
    Quiet ll (ll.aclToHost handle l2cap) := by
  unfold aclToHost
  split
  · exact Effect.refl ll
  · refine (Effect.refl ll).hci 271 fun x hx => ?_
    rw [List.append_assoc, hostEvent_acl] at hx
    cases hx

theorem handleEncReq_quiet (ll : VbtLl) (i : ℕ) (payload : Mem) (plen : ℕ) :
    Quiet ll (ll.handleEncReq i payload plen) := by
  unfold handleEncReq
  refine Effect.hci (Effect.control ((Effect.refl ll).flag i _ ?_) _ rfl ?_) 16 fun x hx => ?_
  · exact fun _ => rfl
  · simp
  · rw [List.append_assoc, hostEvent_ltkRequest] at hx
    cases hx

/-- What the two last PDUs of the handshake have in common. -/
theorem markEncrypted_effect {ll : VbtLl} {k : ℕ} (hk : k < VBT_LL_MAX_CONN)
    (hact : (ll.conns k).active = true) (aa : UInt32) :
    Effect ll (.startRsp k aa) (ll.markEncrypted k) := by
  have hend := ends_of_active hk hact
  unfold markEncrypted
  split_ifs with henc
  · refine ⟨?_, (List.append_nil _).symm, ?_⟩
    · -- a connection that is encrypted stays as it is
      show ll.ends = Function.update ll.ends k ((ll.ends k).map _)
      rw [hend, eq_comm]
      simp only [Option.map_some, ← henc]
      rw [← hend]
      exact Function.update_eq_self k ll.ends
    · rw [Cause.reports_startRsp hend, if_pos henc, List.append_nil]
  · refine ⟨?_, (signals_sendHci _ _ _).trans (List.append_nil _).symm, ?_⟩
    · show (ll.modConn k fun c => { c with encrypted := true }).ends =
        Function.update ll.ends k ((ll.ends k).map _)
      rw [ends_modConn ll hk, hend]
      unfold LlConn.linkEnd
      rw [if_pos hact]
      rfl
    · refine (changes_sendHci _ _ _).trans ?_
      rw [Cause.reports_startRsp hend, if_neg henc, hostEvent_encryptChange]
      rfl

/-- A PDU of the handshake and a connection that it is for. -/
theorem handleLlControl_effect {ll : VbtLl} {k : ℕ} {aa : UInt32} (hk : ll.connByAA aa = some k)
    (payload : Mem) {plen : ℕ} (hlen : 1 ≤ plen) :
    Effect ll (ll.onSignal (controlSignal aa (payload 0))) (ll.handleLlControl k payload plen) := by
  obtain ⟨hlt, hl⟩ := link_of_connByAA hk
  obtain ⟨hact, -, haa⟩ := LlConn.link_eq_some.1 hl
  have h0 := Effect.refl ll
  have hone : ¬ plen < 1 := by omega
  unfold handleLlControl controlSignal
  rw [if_neg hone]
  by_cases hterm : payload 0 = LL_TERMINATE_IND
  · rw [if_pos hterm, if_pos hterm, onSignal_terminate, hk]
    refine Effect.hci ⟨ends_modConn ll hlt _, ?_, ?_⟩ 7 fun x hx => ?_
    · exact (List.append_nil _).symm
    · exact (List.append_nil _).symm
    · cases (hostEvent_disconnComplete _ _ _ _).symm.trans hx
  rw [if_neg hterm, if_neg hterm]
  by_cases hver : payload 0 = LL_VERSION_IND
  · rw [if_pos hver, hver]
    exact h0.control _ rfl (by decide)
  rw [if_neg hver]
  by_cases hfeat : payload 0 = LL_FEATURE_REQ ∨ payload 0 = LL_SLAVE_FEATURE_REQ
  · rw [if_pos hfeat]
    rcases hfeat with hf | hf <;> rw [hf] <;> exact h0.control _ rfl (by decide)
  rw [if_neg hfeat]
  by_cases hreq : payload 0 = LL_ENC_REQ
  · rw [if_pos hreq, hreq]
    exact handleEncReq_quiet ll k payload plen
  rw [if_neg hreq]
  by_cases hsreq : payload 0 = LL_START_ENC_REQ
  · rw [if_pos hsreq, if_pos hsreq, onSignal_startEncReq, hk]
    have hact' : ((ll.sendLlControl (ll.conns k) LL_START_ENC_RSP []).conns k).active = true := hact
    have hm := markEncrypted_effect hlt hact' aa
    refine ⟨hm.ends, ?_, ?_⟩
    · rw [hm.signals, signals_sendLlControl _ _ _ (Nat.zero_le _), haa]
      exact List.append_nil _
    · rw [hm.changes]
      exact congrArg (· ++ _) (changes_pduToMedium _ _ _ _)
  rw [if_neg hsreq, if_neg hsreq]
  by_cases hsrsp : payload 0 = LL_START_ENC_RSP
  · rw [if_pos hsrsp, if_pos hsrsp, onSignal_startEncRsp, hk]
    exact markEncrypted_effect hlt hact aa
  · rw [if_neg hsrsp, if_neg hsrsp]
    exact h0

theorem dataFromMedium_effect (ll : VbtLl) (hdr : VbtFrameHdr) (pdu : Mem) (bodyLen : ℕ) :
    Effect ll (ll.onSignal (if pdu 0 &&& 0x03 = LLID_CONTROL ∧ 1 ≤ bodyLen then
      controlSignal hdr.accessAddr (pdu 2) else .other)) (ll.dataFromMedium hdr pdu bodyLen) := by
  have h0 := Effect.refl ll
  unfold dataFromMedium
  cases hk : ll.connByAA hdr.accessAddr with
  | none =>
    -- nothing is done for an Access Address that is not in use
    dsimp only
    split_ifs
    · unfold controlSignal
      split_ifs
      · rw [onSignal_terminate, hk]
        exact h0
      · rw [onSignal_startEncReq, hk]
        exact h0
      · rw [onSignal_startEncRsp, hk]
        exact h0
      · exact h0
    · exact h0
  | some k =>
    dsimp only
    by_cases hctl : pdu 0 &&& 0x03 = LLID_CONTROL
    · rw [if_pos hctl]
      by_cases hlen : 1 ≤ bodyLen
      · rw [if_pos ⟨hctl, hlen⟩]
        exact handleLlControl_effect hk (pdu.shift 2) hlen
      · rw [if_neg fun h => hlen h.2]
        unfold handleLlControl
        rw [if_pos (by omega)]
        exact h0
    · rw [if_neg hctl, if_neg fun h => hctl h.1]
      split_ifs
      · exact aclToHost_quiet ll _ _
      · exact h0
      · exact h0

/-! ### Advertising PDUs from the medium -/

theorem connAlloc_eq (ll : VbtLl) :
    ll.connAlloc = ll.freeSlot.map fun k => (k, ll.modConn k fun _ => newConn k) := rfl

theorem freeSlot_lt {ll : VbtLl} {k : ℕ} (h : ll.freeSlot = some k) : k < VBT_LL_MAX_CONN :=
  ll.connsSize ▸ (Slots.find?_eq_some_iff.1 h).1

/-- A fresh entry is filled in. -/
theorem ends_opened {ll ll' : VbtLl} {k : ℕ} (hk : k < VBT_LL_MAX_CONN)
    (hconns : ll'.conns = (ll.modConn k fun _ => newConn k).conns) (f : LlConn → LlConn) :
    (ll'.modConn k f).ends = Function.update ll.ends k (f (newConn k)).linkEnd := by
  have hc : ll'.conns k = newConn k := by rw [hconns]; exact modConn_same ll k _
  rw [ends_modConn ll' hk, hc, ends_congr hconns, ends_modConn ll hk, Function.update_idem]

theorem signal_connectInd (channel txAddrType itype advaType : UInt8) (inita adva : BdAddr)
    (aa : UInt32) (n : ℕ) :
    Frame.signal ⟨fillHdr VBT_LL_ADV VBT_ADV_ACCESS_ADDR channel inita txAddrType n,
      connectIndPdu itype advaType inita adva aa⟩ = .connect adva aa := by
  have htype := connectIndType itype advaType
  have hlen : ¬ (connectIndPdu itype advaType inita adva aa).length < 2 := by
    show ¬ 36 < 2
    omega
  have hll : (fillHdr VBT_LL_ADV VBT_ADV_ACCESS_ADDR channel inita txAddrType n).llType =
    VBT_LL_ADV := rfl
  unfold Frame.signal Vbt.signal
  rw [if_neg hlen, if_pos hll]
  show advSignal ((VBT_CONNECT_IND ||| txAddBit itype ||| rxAddBit advaType) &&&
    VBT_ADV_PDU_TYPE_MASK) _ 34 = _
  rw [htype]
  unfold advSignal
  rw [if_neg (by decide), if_pos ⟨rfl, le_rfl⟩]
  exact congrArg (Signal.connect adva) (le32_byteAt aa)

theorem signals_sendConnectInd (ll : VbtLl) (adva : BdAddr) (advaType : UInt8) (c : LlConn) :
    (ll.sendConnectInd adva advaType c).signals = ll.signals ++ [.connect adva c.accessAddr] := by
  have hs := signals_pduToMedium ll 36 ⟨fillHdr VBT_LL_ADV VBT_ADV_ACCESS_ADDR VBT_CHAN_ADV_37
    (ll.ownSourceAddr ll.initOwnAddrType) (ownSourceAddrType ll.initOwnAddrType) 36,
    connectIndPdu (ownSourceAddrType ll.initOwnAddrType) advaType
      (ll.ownSourceAddr ll.initOwnAddrType) adva c.accessAddr⟩
  rw [signal_connectInd] at hs
  exact hs

/-- A call to the target. -/
theorem initiate_effect (ll : VbtLl) (adva : BdAddr) (txadd : UInt8) :
    Effect ll (ll.freeSlot.elim .nothing fun k => .call k adva (chosenAA ll.llRand32.nextAa))
      (ll.initiate adva txadd) := by
  unfold initiate
  rw [connAlloc_eq]
  cases hk : ll.freeSlot with
  | none => exact Effect.refl ll
  | some k =>
    dsimp only [Option.map_some, Option.elim_some]
    generalize hll1 : (ll.modConn k fun _ => newConn k).llRand32 = ll1
    have hconns : ll1.conns = (ll.modConn k fun _ => newConn k).conns := by
      rw [← hll1, conns_llRand32]
    have hout : ll1.out = ll.out := by
      rw [← hll1, out_llRand32]
      rfl
    have haa : ll1.nextAa = ll.llRand32.nextAa := by
      rw [← hll1]
      rfl
    rw [haa]
    generalize chosenAA ll.llRand32.nextAa = aa
    generalize hll2 : (ll1.modConn k fun c =>
      { c with accessAddr := aa, role := 0, peerAddrType := txadd, peerAddr := adva }) = ll2
    have hends : ll2.ends = Function.update ll.ends k (some ⟨slotHandle k, aa, 0, false⟩) := by
      rw [← hll2]
      exact ends_opened (freeSlot_lt hk) hconns _
    have hcaa : (ll2.conns k).accessAddr = aa := by
      rw [← hll2, modConn_same]
    have hout2 : ll2.out = ll.out := by
      rw [← hll2]
      exact hout
    refine Effect.hci ⟨hends, ?_, ?_⟩ 24 fun x hx => ?_
    · refine (signals_sendConnectInd ll2 adva txadd (ll2.conns k)).trans ?_
      rw [hcaa, signals_congr hout2]
      rfl
    · refine (changes_pduToMedium ll2 36 _ _).trans ?_
      rw [changes_congr hout2]
      exact (List.append_nil _).symm
    · cases (hostEvent_evtLeConnComplete _).symm.trans hx

theorem connectIndFromMedium_effect (ll : VbtLl) (txadd : UInt8) (body : Mem) {bodyLen : ℕ}
    (hlen : 34 ≤ bodyLen) :
    Effect ll (ll.onSignal (.connect (addrAt body 6)
      (le32 (body 12) (body 13) (body 14) (body 15)))) (ll.connectIndFromMedium txadd body bodyLen) := by
  unfold connectIndFromMedium
  rw [onSignal_connect]
  by_cases hadv : ll.advEnabled = true
  · have hcond : ¬ (ll.advEnabled = false ∨ bodyLen < 34) := by
      rw [hadv]
      rintro (h | h)
      · cases h
      · omega
    rw [if_neg hcond]
    by_cases haddr : addrAt body 6 = ll.ownSourceAddr ll.advOwnAddrType
    · rw [if_neg (not_not.2 haddr), if_pos ⟨hadv, haddr⟩, connAlloc_eq]
      cases hk : ll.freeSlot with
      | none => exact Effect.refl ll
      | some k =>
        dsimp only [Option.map_some, Option.elim_some]
        generalize le32 (body 12) (body 13) (body 14) (body 15) = aa
        generalize hll2 : ((ll.modConn k fun _ => newConn k).modConn k fun c =>
          { c with accessAddr := aa, role := 1, peerAddrType := txadd,
                   peerAddr := addrAt body 0 }) = ll2
        have hends : ll2.ends = Function.update ll.ends k (some ⟨slotHandle k, aa, 1, false⟩) := by
          rw [← hll2]
          exact ends_opened (freeSlot_lt hk) rfl _
        have hout : ll2.out = ll.out := by
          rw [← hll2]
          rfl
        refine Effect.hci ⟨hends, ?_, ?_⟩ 24 fun x hx => ?_
        · exact (signals_congr hout).trans (List.append_nil _).symm
        · exact (changes_congr hout).trans (List.append_nil _).symm
        · cases (hostEvent_evtLeConnComplete _).symm.trans hx
    · rw [if_pos haddr, if_neg fun h => haddr h.2]
      exact Effect.refl ll
  · rw [if_pos (Or.inl (Bool.eq_false_of_not_eq_true hadv)), if_neg fun h => hadv h.1]
    exact Effect.refl ll

theorem connectIndFromMedium_quiet (ll : VbtLl) (txadd : UInt8) (body : Mem) {bodyLen : ℕ}
    (hlen : ¬ 34 ≤ bodyLen) : Quiet ll (ll.connectIndFromMedium txadd body bodyLen) := by
  unfold connectIndFromMedium
  rw [if_pos (Or.inr (by omega))]
  exact Effect.refl ll

theorem reportAdv_quiet (ll : VbtLl) (eventType addrType : UInt8) (addr : BdAddr)
    (data : List UInt8) (rssi : Int8) :
    Quiet ll (ll.reportAdv eventType addrType addr data rssi) := by
  refine (Effect.refl ll).hci 45 fun x hx => ?_
  cases (congrArg hostEvent (patchLen_cons _ _ _ _)).symm.trans hx

theorem sendScanReq_quiet (ll : VbtLl) (adva : BdAddr) (txadd : UInt8) :
    Quiet ll (ll.sendScanReq adva txadd) := by
  refine (Effect.refl ll).adv ?_
  show (VBT_SCAN_REQ ||| txAddBit _ ||| rxAddBit txadd) &&& VBT_ADV_PDU_TYPE_MASK ≠ _
  rw [scanReqType]
  decide

/-- What an advertising PDU does: it is answered by an initiator that waits for its sender, and
else reported, and asked for more, by a scanner. -/
theorem advFromMedium_rule {I : Signal → VbtLl → Prop} {R : VbtLl → Prop} (ll : VbtLl)
    (hdr : VbtFrameHdr) {type : UInt8} (txadd : UInt8) (body : Mem) (bodyLen : ℕ)
    (htype : type ≠ VBT_CONNECT_IND) (refl : R ll)
    (report : ∀ ev addr data, R (ll.reportAdv ev txadd addr data hdr.rssi))
    (ask : ∀ ll' addr, R ll' → R (ll'.sendScanReq addr txadd))
    (quiet : ∀ s ll', ll.onSignal s = .nothing → R ll' → I s ll')
    (answer : ll.state = .initiating →
      I (.adv ll.initPeerAddr) (ll.initiate ll.initPeerAddr txadd)) :
    I (advSignal type body bodyLen) (ll.advFromMedium hdr type txadd body bodyLen) := by
  unfold advFromMedium
  rw [advSignal_of_ne htype]
  by_cases hlen : bodyLen < 6
  · rw [if_pos hlen, if_neg (by omega)]
    exact quiet _ _ rfl refl
  rw [if_neg hlen]
  dsimp only
  by_cases hinit : ll.state = .initiating ∧ (type = VBT_ADV_IND ∨ type = VBT_ADV_DIRECT_IND) ∧
      addrAt body 0 = ll.initPeerAddr
  · rw [if_pos hinit, if_pos (show _ ∧ 6 ≤ bodyLen from ⟨hinit.2.1, by omega⟩), hinit.2.2]
    exact answer hinit.1
  rw [if_neg hinit]
  refine quiet _ _ ?_ ?_
  · split_ifs with hadv
    · rw [onSignal_adv, if_neg fun h => hinit ⟨h.1, hadv.1, h.2⟩]
    · rfl
  · split_ifs
    · exact ask _ _ (report _ _ _)
    · exact report _ _ _
    · exact refl

theorem advFromMedium_effect (ll : VbtLl) (hdr : VbtFrameHdr) {type : UInt8} (txadd : UInt8)
    (body : Mem) (bodyLen : ℕ) (htype : type ≠ VBT_CONNECT_IND) :
    Effect ll (ll.onSignal (advSignal type body bodyLen))
      (ll.advFromMedium hdr type txadd body bodyLen) := by
  refine advFromMedium_rule (I := fun s => Effect ll (ll.onSignal s)) (R := Quiet ll) ll hdr txadd
    body bodyLen htype (Effect.refl ll) (fun _ _ _ => reportAdv_quiet ll _ _ _ _ _)
    (fun _ _ h => h.trans (sendScanReq_quiet _ _ _)) (fun s ll' hs h => ?_) fun hinit => ?_
  · rw [hs]
    exact h
  · rw [onSignal_adv, if_pos ⟨hinit, rfl⟩]
    exact initiate_effect ll _ txadd

theorem scanReqFromMedium_quiet (ll : VbtLl) (body : Mem) (bodyLen : ℕ) :
    Quiet ll (ll.scanReqFromMedium body bodyLen) := by
  unfold scanReqFromMedium
  split_ifs
  · refine (Effect.refl ll).adv ?_
    rw [pduType_advPdu rfl]
    decide
  · exact Effect.refl ll
  · exact Effect.refl ll

theorem scanRspFromMedium_quiet (ll : VbtLl) (hdr : VbtFrameHdr) (txadd : UInt8) (body : Mem)
    (bodyLen : ℕ) : Quiet ll (ll.scanRspFromMedium hdr txadd body bodyLen) := by
  unfold scanRspFromMedium
  split_ifs
  · exact reportAdv_quiet ll _ _ _ _ _
  · exact Effect.refl ll

/-! ### Entry points -/

theorem advSignal_other {type : UInt8} (hind : type ≠ VBT_ADV_IND)
    (hdir : type ≠ VBT_ADV_DIRECT_IND) (hconn : type ≠ VBT_CONNECT_IND) (body : Mem) (bodyLen : ℕ) :
    advSignal type body bodyLen = .other := by
  unfold advSignal
  rw [if_neg (by tauto), if_neg (by tauto)]

/-- What a PDU does, by its type. -/
theorem pduFromMedium_rule {I : Signal → VbtLl → Prop} (ll : VbtLl) (hdr : VbtFrameHdr) (pdu : Mem)
    (pduLen : ℕ) (other : I .other ll)
    (adv : ∀ {type} txadd body bodyLen, type ≠ VBT_CONNECT_IND →
      I (advSignal type body bodyLen) (ll.advFromMedium hdr type txadd body bodyLen))
    (scanReq : ∀ body bodyLen, I .other (ll.scanReqFromMedium body bodyLen))
    (scanRsp : ∀ txadd body bodyLen, I .other (ll.scanRspFromMedium hdr txadd body bodyLen))
    (connectInd : ∀ txadd body bodyLen, I (advSignal VBT_CONNECT_IND body bodyLen)
      (ll.connectIndFromMedium txadd body bodyLen))
    (data : ∀ bodyLen, I (if pdu 0 &&& 0x03 = LLID_CONTROL ∧ 1 ≤ bodyLen then
      controlSignal hdr.accessAddr (pdu 2) else .other) (ll.dataFromMedium hdr pdu bodyLen)) :
    I (signal hdr pdu pduLen) (ll.pduFromMedium hdr pdu pduLen) := by
  unfold pduFromMedium signal
  by_cases hlen : pduLen < 2
  · rw [if_pos hlen, if_pos hlen]
    exact other
  rw [if_neg hlen, if_neg hlen]
  by_cases hll : hdr.llType = VBT_LL_ADV
  · rw [if_pos hll, if_pos hll]
    dsimp only
    generalize (if pdu 0 &&& 0x40 ≠ 0 then (1 : UInt8) else 0) = txadd
    generalize pdu 0 &&& VBT_ADV_PDU_TYPE_MASK = type
    split_ifs with hadv hreq hrsp hind
    · refine adv _ _ _ fun heq => ?_
      rw [heq] at hadv
      exact absurd hadv (by decide)
    · rw [hreq, advSignal_other (by decide) (by decide) (by decide)]
      exact scanReq _ _
    · rw [hrsp, advSignal_other (by decide) (by decide) (by decide)]
      exact scanRsp _ _ _
    · rw [hind]
      exact connectInd _ _ _
    · push Not at hadv
      rw [advSignal_other hadv.1 hadv.2.1 hind]
      exact other
  rw [if_neg hll, if_neg hll]
  by_cases hdata : hdr.llType = VBT_LL_DATA
  · rw [if_pos hdata]
    simpa only [hdata, true_and] using data (bodyLenOf pdu pduLen)
  · rw [if_neg hdata, if_neg fun h => hdata h.1]
    exact other

theorem pduFromMedium_effect (ll : VbtLl) (hdr : VbtFrameHdr) (pdu : Mem) (pduLen : ℕ) :
    Effect ll (ll.onSignal (signal hdr pdu pduLen)) (ll.pduFromMedium hdr pdu pduLen) := by
  refine pduFromMedium_rule (I := fun s => Effect ll (ll.onSignal s)) ll hdr pdu pduLen
    (Effect.refl ll) (advFromMedium_effect ll hdr) (scanReqFromMedium_quiet ll)
    (scanRspFromMedium_quiet ll hdr) (fun txadd body bodyLen => ?_) (dataFromMedium_effect ll hdr pdu)
  unfold advSignal
  rw [if_neg fun h => absurd h.1 (by decide)]
  split_ifs with hc
  · exact connectIndFromMedium_effect ll txadd body hc.2
  · exact connectIndFromMedium_quiet ll txadd body fun h => hc ⟨rfl, h⟩

theorem tick_quiet (ll : VbtLl) (nowMs : UInt64) : Quiet ll (ll.tick nowMs) := by
  have htype : pduType (advPdu ll.advPduType (ownSourceAddrType ll.advOwnAddrType)
      (ll.ownSourceAddr ll.advOwnAddrType) ll.advData) ≠ VBT_CONNECT_IND := by
    rw [pduType_advPdu ll.advPduType_cases.1]
    exact ll.advPduType_cases.2
  unfold tick
  split_ifs
  · have h3 : Quiet ll ll.emitAdvertisement :=
      (((Effect.refl ll).adv htype).adv htype).adv htype
    exact h3.sets rfl rfl
  · exact Effect.refl ll
  · exact Effect.refl ll

/-- **Every call of an entry point is one transition of the abstract machine.** -/
theorem step_effect (ll : VbtLl) (i : Input) : Effect ll (ll.cause i) (ll.step i) := by
  cases i with
  | hci pkt len => exact hciFromHost_effect ll pkt len
  | pdu hdr pdu len => exact pduFromMedium_effect ll hdr pdu len
  | tick nowMs => exact tick_quiet ll nowMs

/-! ### Causes -/

section Due

variable {ll : VbtLl} {k : ℕ}

theorem ends_of_connByHandle {h : UInt16} (hk : ll.connByHandle h = some k) :
    ∃ e, ll.ends k = some e ∧ e.accessAddr = (ll.conns k).accessAddr ∧ e.handle = h := by
  obtain ⟨hlt, hl⟩ := link_of_connByHandle hk
  obtain ⟨hact, hh, -⟩ := LlConn.link_eq_some.1 hl
  exact ⟨_, ends_of_active hlt hact, rfl, hh⟩

theorem ends_of_connByAA {aa : UInt32} (hk : ll.connByAA aa = some k) :
    ∃ e, ll.ends k = some e ∧ e.accessAddr = aa := by
  obtain ⟨hlt, hl⟩ := link_of_connByAA hk
  obtain ⟨hact, -, haa⟩ := LlConn.link_eq_some.1 hl
  exact ⟨_, ends_of_active hlt hact, haa⟩

theorem ends_eq_some_iff {e : LinkEnd} : ll.ends k = some e ↔
    k < VBT_LL_MAX_CONN ∧ (ll.conns k).active = true ∧
      e = ⟨(ll.conns k).handle, (ll.conns k).accessAddr, (ll.conns k).role,
        (ll.conns k).encrypted⟩ := by
  unfold ends LlConn.linkEnd
  constructor
  · intro h
    split_ifs at h with hk hact
    exact ⟨hk, hact, (Option.some.inj h).symm⟩
  · rintro ⟨hk, hact, rfl⟩
    rw [if_pos hk, if_pos hact]

theorem ends_of_freeSlot (hk : ll.freeSlot = some k) : ll.ends k = none := by
  obtain ⟨-, hp, -⟩ := Slots.find?_eq_some_iff.1 hk
  unfold ends LlConn.linkEnd
  split_ifs with hlt hact
  · rw [hact] at hp
    cases hp
  · rfl
  · rfl

theorem onSignal_due {i : Input} {s : Signal} (hs : i.signal = s) : ll.Due i (ll.onSignal s) := by
  cases s with
  | adv adva =>
    rw [onSignal_adv]
    split_ifs
    · cases hk : ll.freeSlot with
      | none => trivial
      | some k => exact ⟨freeSlot_lt hk, ends_of_freeSlot hk, hs⟩
    · trivial
  | connect adva aa =>
    rw [onSignal_connect]
    split_ifs
    · cases hk : ll.freeSlot with
      | none => trivial
      | some k => exact ⟨freeSlot_lt hk, ends_of_freeSlot hk, adva, hs⟩
    · trivial
  | terminate aa =>
    rw [onSignal_terminate]
    cases hk : ll.connByAA aa with
    | none => trivial
    | some k => exact ⟨hk, hs⟩
  | startEncReq aa =>
    rw [onSignal_startEncReq]
    cases hk : ll.connByAA aa with
    | none => trivial
    | some k => exact ⟨hk, hs⟩
  | startEncRsp aa =>
    rw [onSignal_startEncRsp]
    cases hk : ll.connByAA aa with
    | none => trivial
    | some k => exact ⟨hk, hs⟩
  | other => trivial

theorem onRequest_due {i : Input} {r : Request} (hr : i.request = r) :
    ll.Due i (ll.onRequest r) := by
  cases r with
  | reset => exact hr
  | startEncryption h => trivial
  | disconnect h | ltkReply h =>
    show ll.Due i ((ll.connByHandle h).elim .nothing _)
    cases hk : ll.connByHandle h with
    | none => trivial
    | some k =>
      obtain ⟨e, he, haa, rfl⟩ := ends_of_connByHandle hk
      exact ⟨e, he, haa, hr⟩
  | other => trivial

/-- A call has a cause only where it is due. -/
theorem cause_due (ll : VbtLl) (i : Input) : ll.Due i (ll.cause i) := by
  cases i with
  | hci pkt len => exact onRequest_due rfl
  | pdu hdr pdu len => exact onSignal_due rfl
  | tick nowMs => trivial

/-- A signal that is about a connection causes what it says. -/
theorem cause_of_signal {i : Input} {s : Signal} (hs : i.signal = s) (hne : s ≠ .other) :
    ll.cause i = ll.onSignal s := by
  cases i with
  | pdu hdr pdu len => exact congrArg ll.onSignal hs
  | hci pkt len => exact absurd hs.symm hne
  | tick nowMs => exact absurd hs.symm hne

theorem ends_ne_of_connByAA {aa : UInt32} (h : ll.connByAA aa = none) {e : LinkEnd}
    (he : ll.ends k = some e) : e.accessAddr ≠ aa := by
  obtain ⟨hlt, hact, rfl⟩ := ends_eq_some_iff.1 he
  have hp := Slots.find?_eq_none_iff.1 h k (ll.connsSize ▸ hlt)
  intro heq
  rw [hact, Bool.true_and, beq_eq_false_iff_ne] at hp
  exact hp heq

theorem signal_of_request {i : Input} (h : i.request ≠ .other) : i.signal = .other := by
  cases i with
  | hci pkt len => rfl
  | pdu hdr pdu len => exact absurd rfl h
  | tick nowMs => rfl

/-- The cause of a call fits the table and the signal of the call. -/
theorem cause_apt (ll : VbtLl) (i : Input) : (ll.cause i).Apt ll.ends i.signal := by
  have hdue := cause_due ll i
  cases hc : ll.cause i with
  | nothing =>
    intro aa hs k e he
    rw [cause_of_signal hs Signal.noConfusion, onSignal_terminate] at hc
    cases hk : ll.connByAA aa with
    | none => exact ends_ne_of_connByAA hk he
    | some j =>
      rw [hk] at hc
      cases hc
  | reset =>
    rw [hc] at hdue
    exact signal_of_request (hdue.symm ▸ Request.noConfusion)
  | disconnect k aa =>
    rw [hc] at hdue
    obtain ⟨e, he, haa, hr⟩ := hdue
    exact ⟨signal_of_request (hr.symm ▸ Request.noConfusion), e, he, haa⟩
  | reply k aa =>
    rw [hc] at hdue
    obtain ⟨e, he, haa, hr⟩ := hdue
    exact ⟨signal_of_request (hr.symm ▸ Request.noConfusion), e, he, haa⟩
  | call k adva aa =>
    rw [hc] at hdue
    exact ⟨hdue.2.2, hdue.2.1⟩
  | answer k aa =>
    rw [hc] at hdue
    exact ⟨hdue.2.2, hdue.2.1⟩
  | terminate k aa =>
    rw [hc] at hdue
    exact ⟨hdue.2, ends_of_connByAA hdue.1⟩
  | startReq k aa =>
    rw [hc] at hdue
    exact ⟨hdue.2, ends_of_connByAA hdue.1⟩
  | startRsp k aa =>
    rw [hc] at hdue
    exact ⟨hdue.2, ends_of_connByAA hdue.1⟩

end Due

end VbtLl
end Vbt
