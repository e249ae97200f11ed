import Vbt.Core.Output

/-!
# What a call does, case by case

* `place`, `accept`: the core opens a connection, as central or as peripheral, with the equations
  `initiate_eq` and `connectIndFromMedium_eq`;
* `Reacts`: what a PDU from the medium can do. `step_reacts` is this for every call that is not a
  command, and `step_answered` says what a command does first;
* `outputs`: what one call puts out, with `packetsIn` and `framesIn`.
-/

namespace Vbt

/-- The cause opens a connection. -/
def Cause.opens : Cause → Bool
  | .call _ _ _ | .answer _ _ => true
  | _ => false

namespace VbtLl

/-! ### Opening connections -/

theorem modConn_modConn (ll : VbtLl) (i : ℕ) (f g : LlConn → LlConn) :
    (ll.modConn i f).modConn i g = ll.modConn i fun c => g (f c) := by
  unfold modConn
  congr 1
  exact Slots.modify_modify ll.conns i f g

theorem nextAa_modConn (ll : VbtLl) (i : ℕ) (f : LlConn → LlConn) :
    (ll.modConn i f).nextAa = ll.nextAa := rfl

/-- The entry of a connection opened as central. -/
def centralConn (k : ℕ) (adva : BdAddr) (txadd : UInt8) (aa : UInt32) : LlConn :=
  { newConn k with accessAddr := aa, role := 0, peerAddrType := txadd, peerAddr := adva }

/-- The entry of a connection opened as peripheral. -/
def peripheralConn (k : ℕ) (inita : BdAddr) (txadd : UInt8) (aa : UInt32) : LlConn :=
  { newConn k with accessAddr := aa, role := 1, peerAddrType := txadd, peerAddr := inita }

/-- The packet of `evt_le_conn_complete` for a connection that was opened. -/
def connCompletePkt (c : LlConn) : List UInt8 :=
  patchLen ([HCI_EVT_PKT, EVT_LE_META, 0, SUB_LE_CONN_COMPLETE, HCI_SUCCESS] ++
    bytes16 c.handle ++ [c.role, c.peerAddrType] ++ c.peerAddr.bytes ++
    [0x18, 0x00, 0x00, 0x00, 0x2a, 0x00, 0x00])

/-- The frame of `send_connect_ind`. -/
def connectIndFrame (ll : VbtLl) (adva : BdAddr) (advaType : UInt8) (aa : UInt32) : Frame :=
  ⟨fillHdr VBT_LL_ADV VBT_ADV_ACCESS_ADDR VBT_CHAN_ADV_37 (ll.ownSourceAddr ll.initOwnAddrType)
      (ownSourceAddrType ll.initOwnAddrType) 36,
    connectIndPdu (ownSourceAddrType ll.initOwnAddrType) advaType
      (ll.ownSourceAddr ll.initOwnAddrType) adva aa⟩

/-- The Access Address of the next connection that is opened as central. -/
def nextAddress (ll : VbtLl) : UInt32 := chosenAA ll.llRand32.nextAa

/-- A connection is opened as central in slot `k`. -/
def place (ll : VbtLl) (k : ℕ) (adva : BdAddr) (txadd : UInt8) : VbtLl :=
  { (ll.modConn k fun _ => centralConn k adva txadd ll.nextAddress) with
    nextAa := ll.llRand32.nextAa
    state := .idle
    scanEnabled := false
    out := .hci 24 (connCompletePkt (centralConn k adva txadd ll.nextAddress)) ::
      .pdu 36 (ll.connectIndFrame adva txadd ll.nextAddress) :: ll.out }

/-- A connection is opened as peripheral in slot `k`. -/
def accept (ll : VbtLl) (k : ℕ) (inita : BdAddr) (txadd : UInt8) (aa : UInt32) : VbtLl :=
  { (ll.modConn k fun _ => peripheralConn k inita txadd aa) with
    advEnabled := false
    state := .idle
    out := .hci 24 (connCompletePkt (peripheralConn k inita txadd aa)) :: ll.out }

theorem initiate_eq {ll : VbtLl} {k : ℕ} (hk : ll.freeSlot = some k) (adva : BdAddr)
    (txadd : UInt8) : ll.initiate adva txadd = ll.place k adva txadd := by
  unfold initiate place nextAddress
  rw [connAlloc_eq, hk]
  dsimp only [Option.map_some]
  have hr : (ll.modConn k fun _ => newConn k).llRand32 =
      ({ ll with nextAa := ll.llRand32.nextAa } : VbtLl).modConn k fun _ => newConn k := by
    unfold llRand32
    rfl
  rw [hr, nextAa_modConn]
  generalize ll.llRand32.nextAa = r
  generalize chosenAA r = aa
  rw [modConn_modConn]
  generalize hll2 : (({ ll with nextAa := r } : VbtLl).modConn k fun _ =>
    { newConn k with accessAddr := aa, role := 0, peerAddrType := txadd, peerAddr := adva }) = ll2
  have hc : ll2.conns k = centralConn k adva txadd aa := by
    rw [← hll2, modConn_same]
    rfl
  show ({ ll2.sendConnectInd adva txadd (ll2.conns k) with
    state := .idle, scanEnabled := false } : VbtLl).evtLeConnComplete (ll2.conns k) HCI_SUCCESS = _
  rw [hc, ← hll2]
  rfl

theorem initiate_full {ll : VbtLl} (hk : ll.freeSlot = none) (adva : BdAddr) (txadd : UInt8) :
    ll.initiate adva txadd = ll := by
  unfold initiate
  rw [connAlloc_eq, hk]
  rfl

theorem connectIndFromMedium_eq {ll : VbtLl} {k : ℕ} (hk : ll.freeSlot = some k)
    (hadv : ll.advEnabled = true) {body : Mem} {bodyLen : ℕ} (hlen : 34 ≤ bodyLen)
    (haddr : addrAt body 6 = ll.ownSourceAddr ll.advOwnAddrType) (txadd : UInt8) :
    ll.connectIndFromMedium txadd body bodyLen =
      ll.accept k (addrAt body 0) txadd (le32 (body 12) (body 13) (body 14) (body 15)) := by
  have hcond : ¬ (ll.advEnabled = false ∨ bodyLen < 34) := by
    rw [hadv]
    rintro (h | h)
    · cases h
    · omega
  unfold connectIndFromMedium accept
  rw [if_neg hcond, if_neg (not_not.2 haddr), connAlloc_eq, hk]
  dsimp only [Option.map_some]
  rw [modConn_modConn]
  simp only [modConn_same]
  rfl

theorem connectIndFromMedium_ignored {ll : VbtLl} {body : Mem} {bodyLen : ℕ}
    (h : ll.advEnabled = false ∨ bodyLen < 34 ∨
      addrAt body 6 ≠ ll.ownSourceAddr ll.advOwnAddrType ∨ ll.freeSlot = none) (txadd : UInt8) :
    ll.connectIndFromMedium txadd body bodyLen = ll := by
  unfold connectIndFromMedium
  split_ifs with hc haddr
  · rfl
  · rfl
  · rw [connAlloc_eq]
    rcases h with h | h | h | h
    · exact absurd (Or.inl h) hc
    · exact absurd (Or.inr h) hc
    · exact absurd h haddr
    · rw [h]
      rfl

/-- **What a PDU from the medium can do**, by what it says about connections. -/
inductive Reacts (ll : VbtLl) (s : Signal) : VbtLl → Prop
  | place {ll' : VbtLl} (k : ℕ) (txadd : UInt8) (free : ll.freeSlot = some k)
      (ready : ll.state = .initiating) (heard : s = .adv ll.initPeerAddr)
      (does : ll' = ll.place k ll.initPeerAddr txadd) : Reacts ll s ll'
  | accept {ll' : VbtLl} (k : ℕ) (inita : BdAddr) (txadd : UInt8) (aa : UInt32)
      (free : ll.freeSlot = some k) (ready : ll.advEnabled = true)
      (heard : s = .connect (ll.ownSourceAddr ll.advOwnAddrType) aa)
      (does : ll' = ll.accept k inita txadd aa) : Reacts ll s ll'
  | routine {ll' : VbtLl} (opens : (ll.onSignal s).opens = false) (emits : Emits ll ll ll') :
      Reacts ll s ll'

theorem advFromMedium_reacts (ll : VbtLl) (hdr : VbtFrameHdr) {type : UInt8} (txadd : UInt8)
    (body : Mem) (bodyLen : ℕ) (htype : type ≠ VBT_CONNECT_IND) :
    Reacts ll (advSignal type body bodyLen) (ll.advFromMedium hdr type txadd body bodyLen) := by
  refine advFromMedium_rule (I := Reacts ll) (R := Emits ll ll) ll hdr txadd body bodyLen htype
    (Emits.refl ll ll) (fun _ _ _ => reportAdv_emits ll ll _ _ _ _ _)
    (fun _ _ h => h.trans (sendScanReq_emits ll _ _ _))
    (fun s ll' hs h => .routine (by rw [hs]; rfl) h) fun hinit => ?_
  cases hk : ll.freeSlot with
  | none =>
    rw [initiate_full hk]
    refine .routine ?_ (Emits.refl ll ll)
    rw [onSignal_adv, if_pos ⟨hinit, rfl⟩, hk]
    rfl
  | some k =>
    rw [initiate_eq hk]
    exact .place k txadd hk hinit rfl rfl

theorem connectIndFromMedium_reacts (ll : VbtLl) (txadd : UInt8) (body : Mem) (bodyLen : ℕ) :
    Reacts ll (advSignal VBT_CONNECT_IND body bodyLen)
      (ll.connectIndFromMedium txadd body bodyLen) := by
  have hsig : advSignal VBT_CONNECT_IND body bodyLen = if 34 ≤ bodyLen then
      .connect (addrAt body 6) (le32 (body 12) (body 13) (body 14) (body 15)) else .other := by
    unfold advSignal
    rw [if_neg fun h => absurd h.1 (by decide)]
    simp only [true_and]
  rw [hsig]
  by_cases hlen : 34 ≤ bodyLen
  · rw [if_pos hlen]
    by_cases hready : ll.advEnabled = true ∧ addrAt body 6 = ll.ownSourceAddr ll.advOwnAddrType
    · cases hk : ll.freeSlot with
      | none =>
        rw [connectIndFromMedium_ignored (Or.inr (Or.inr (Or.inr hk)))]
        refine .routine ?_ (Emits.refl ll ll)
        rw [onSignal_connect, if_pos hready, hk]
        rfl
      | some k =>
        rw [connectIndFromMedium_eq hk hready.1 hlen hready.2, hready.2]
        exact .accept k _ txadd _ hk hready.1 rfl rfl
    · have hign : ll.advEnabled = false ∨ addrAt body 6 ≠ ll.ownSourceAddr ll.advOwnAddrType := by
        rcases Decidable.not_and_iff_or_not.1 hready with h | h
        · exact Or.inl (Bool.eq_false_of_not_eq_true h)
        · exact Or.inr h
      rw [connectIndFromMedium_ignored (by tauto)]
      refine .routine ?_ (Emits.refl ll ll)
      rw [onSignal_connect, if_neg hready]
      rfl
  · rw [if_neg hlen, connectIndFromMedium_ignored (Or.inr (Or.inl (by omega)))]
    exact .routine rfl (Emits.refl ll ll)

theorem onSignal_control_opens (ll : VbtLl) (aa : UInt32) (opcode : UInt8) :
    (ll.onSignal (controlSignal aa opcode)).opens = false := by
  unfold controlSignal
  split_ifs
  · rw [onSignal_terminate]
    cases ll.connByAA aa <;> rfl
  · rw [onSignal_startEncReq]
    cases ll.connByAA aa <;> rfl
  · rw [onSignal_startEncRsp]
    cases ll.connByAA aa <;> rfl
  · rfl

theorem pduFromMedium_reacts (ll : VbtLl) (hdr : VbtFrameHdr) (pdu : Mem) (pduLen : ℕ) :
    Reacts ll (signal hdr pdu pduLen) (ll.pduFromMedium hdr pdu pduLen) := by
  refine pduFromMedium_rule ll hdr pdu pduLen (.routine rfl (Emits.refl ll ll))
    (advFromMedium_reacts ll hdr) (fun _ _ => .routine rfl (scanReqFromMedium_emits ll _ _))
    (fun _ _ _ => .routine rfl (scanRspFromMedium_emits ll hdr _ _ _))
    (connectIndFromMedium_reacts ll) fun bodyLen => .routine ?_ (dataFromMedium_emits ll hdr pdu _)
  split_ifs
  · exact onSignal_control_opens ll _ _
  · rfl

/-! ### Calls -/

/-- The opcode of a call that is a command packet. -/
def Input.opcode : Input → Option UInt16
  | .hci pkt len => if 4 ≤ len ∧ pkt 0 = HCI_CMD_PKT then some (le16 (pkt 1) (pkt 2)) else none
  | _ => none

/-- The parameters of a command packet. -/
def Input.params : Input → Mem
  | .hci pkt _ => pkt.shift 4
  | _ => fun _ => 0

/-- How many bytes of parameters a command packet has. -/
def Input.plen : Input → ℕ
  | .hci pkt len => if len < 4 + (pkt 3).toNat then len - 4 else (pkt 3).toNat
  | _ => 0

/-- How a command packet is answered. -/
def replyTo (ll : VbtLl) (i : Input) (opcode : UInt16) : Notice :=
  (Op.ofCode opcode).elim (.complete opcode ll.credits) fun op => ll.reply op i.plen

/-- The fields that a command packet sets. -/
def settings (ll : VbtLl) (i : Input) (opcode : UInt16) : VbtLl :=
  (Op.ofCode opcode).elim ll fun op => ll.sets op i.params i.plen

theorem replyTo_answers (ll : VbtLl) (i : Input) (opcode : UInt16) :
    (ll.replyTo i opcode).answers = some (opcode, ll.credits) := by
  unfold replyTo
  cases hop : Op.ofCode opcode with
  | none => rfl
  | some op =>
    rw [Option.elim_some, reply_answers, Op.code_of_ofCode hop]

section Calls

variable (ll : VbtLl) {i : Input} {opcode : UInt16}

/-- A command packet is handed to the `switch`. -/
theorem step_of_opcode (h : i.opcode = some opcode) :
    ll.step i = (Op.ofCode opcode).elim (ll.cmdCompleteStatus opcode HCI_UNKNOWN_COMMAND) fun op =>
      ll.command op i.params i.plen := by
  cases i with
  | hci pkt len =>
    simp only [Input.opcode, Option.ite_none_right_eq_some, Option.some.injEq] at h
    obtain ⟨⟨hlen, hcmd⟩, rfl⟩ := h
    show ll.hciFromHost pkt len = _
    unfold hciFromHost dispatchCommand
    rw [if_neg (by omega), if_pos hcmd, if_neg (by omega)]
    dsimp only
    cases Op.ofCode (le16 (pkt 1) (pkt 2)) <;> rfl
  | pdu hdr pdu len => cases h
  | tick nowMs => cases h

theorem step_command {op : Op} (h : i.opcode = some op.code) :
    ll.step i = ll.command op i.params i.plen := by
  rw [step_of_opcode ll h, Op.ofCode_code]
  rfl

/-- **A command packet is answered first of all.** -/
theorem step_answered (h : i.opcode = some opcode) :
    Answered ll (ll.replyTo i opcode) (ll.settings i opcode) (ll.step i) := by
  rw [step_of_opcode ll h]
  unfold replyTo settings
  cases Op.ofCode opcode with
  | none => exact answered_at_once ll _ _
  | some op => exact command_answered ll _ _ op

/-- **Any other call opens a connection or does nothing but routine.** -/
theorem step_reacts (h : i.opcode = none) : Reacts ll i.signal (ll.step i) := by
  cases i with
  | hci pkt len =>
    refine .routine rfl ?_
    show Emits ll ll (ll.hciFromHost pkt len)
    unfold hciFromHost
    split_ifs with hlen hcmd hacl
    · exact Emits.refl ll ll
    · have hshort : len < 4 := by
        by_contra hc
        simp [Input.opcode, hcmd, show 4 ≤ len by omega] at h
      unfold dispatchCommand
      rw [if_pos hshort]
      exact Emits.refl ll ll
    · exact handleAclFromHost_emits ll pkt len
    · exact Emits.refl ll ll
  | pdu hdr pdu len => exact pduFromMedium_reacts ll hdr pdu len
  | tick nowMs => exact .routine rfl (tick_emits ll nowMs)

end Calls

/-! ### The output of one call -/

/-- What a call puts out, oldest first. -/
def outputs (ll : VbtLl) (i : Input) : List Out :=
  ((ll.step i).out.take ((ll.step i).out.length - ll.out.length)).reverse

/-- The packets among the output. -/
def packetsIn (os : List Out) : List (List UInt8) :=
  os.filterMap fun
    | .hci _ pkt => some pkt
    | .pdu _ _ => none

/-- The frames among the output. -/
def framesIn (os : List Out) : List Frame :=
  os.filterMap fun
    | .hci _ _ => none
    | .pdu _ f => some f

section Outputs

variable {ll : VbtLl} {i : Input} {new : List Out}

theorem outputs_eq (h : (ll.step i).out = new ++ ll.out) : ll.outputs i = new.reverse := by
  unfold outputs
  rw [h, List.length_append, Nat.add_sub_cancel, List.take_left]

theorem out_step (ll : VbtLl) (i : Input) : ∃ new, (ll.step i).out = new ++ ll.out := by
  cases hop : i.opcode with
  | some opcode =>
    obtain ⟨size, pkt, new, hout, -, -⟩ := (step_answered ll hop).out
    exact ⟨new ++ [.hci size pkt], by rw [hout, List.append_assoc]; rfl⟩
  | none =>
    cases step_reacts ll hop with
    | place k txadd free ready heard does => exact ⟨[_, _], congrArg VbtLl.out does⟩
    | accept k inita txadd aa free ready heard does => exact ⟨[_], congrArg VbtLl.out does⟩
    | routine opens emits =>
      obtain ⟨new, hout, -⟩ := emits.out
      exact ⟨new, hout⟩

theorem packets_step (ll : VbtLl) (i : Input) :
    (ll.step i).packets = ll.packets ++ packetsIn (ll.outputs i) := by
  obtain ⟨new, hout⟩ := out_step ll i
  rw [outputs_eq hout, packets, hout, List.reverse_append]
  exact List.filterMap_append

end Outputs

end VbtLl
end Vbt
