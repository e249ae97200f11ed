import Vbt.Core.Causes

/-!
# What a call puts out

Everything a core passes to its callbacks during one call, told relative to the state in which the
call began.

* `Notice`, `notice`: what a packet is in the books of commands and connection requests;
* `Routine`: an output that answers no command and opens no connection. A frame among them is sound,
  and if it carries data it belongs to a connection that was active when the call began;
* `Emits`: all that was put out between two states is routine;
* `sets`, `reply`: the fields that a command sets and how it is answered;
* `Answered`: the answer to a command came first, and the rest is routine. `command_answered` is
  this for every command;
* the calls that are not commands and open no connection, one lemma each.
-/

namespace Vbt

/-- What a packet says about commands and about connections opened as central. -/
inductive Notice
  /-- A Command Complete. -/
  | complete (opcode : UInt16) (credits : UInt8)
  /-- A Command Status. -/
  | status (opcode : UInt16) (credits status : UInt8)
  /-- An LE Connection Complete in the role of the central. -/
  | central (peer : BdAddr)
  | other
  deriving DecidableEq, Repr

/-- Read a packet. -/
def notice (pkt : List UInt8) : Notice :=
  let b := fun i => pkt.getD i 0
  if b 0 = HCI_EVT_PKT then
    if b 1 = EVT_CMD_COMPLETE then .complete (le16 (b 4) (b 5)) (b 3)
    else if b 1 = EVT_CMD_STATUS then .status (le16 (b 5) (b 6)) (b 4) (b 3)
    else if b 1 = EVT_LE_META then
      if b 3 = SUB_LE_CONN_COMPLETE ∧ b 7 = 0 then .central (addrAt b 9) else .other
    else .other
  else .other

/-- The opcode and the credits, if the packet answers a command. -/
def Notice.answers : Notice → Option (UInt16 × UInt8)
  | .complete opcode credits | .status opcode credits _ => some (opcode, credits)
  | .central _ | .other => none

/-! ### The packets a core sends -/

theorem notice_cmdComplete (n credits : UInt8) (opcode : UInt16) (ret : List UInt8) :
    notice ([HCI_EVT_PKT, EVT_CMD_COMPLETE, n, credits] ++ bytes16 opcode ++ ret) =
      .complete opcode credits := by
  nth_rewrite 2 [← le16_byteAt opcode]
  rfl

theorem notice_cmdStatus (n status credits : UInt8) (opcode : UInt16) :
    notice ([HCI_EVT_PKT, EVT_CMD_STATUS, n, status, credits] ++ bytes16 opcode) =
      .status opcode credits status := by
  nth_rewrite 2 [← le16_byteAt opcode]
  rfl

/-- Of the LE meta events, only a connection as central is entered in the books. -/
theorem notice_leMeta (n sub : UInt8) (rest : List UInt8) :
    notice (HCI_EVT_PKT :: EVT_LE_META :: n :: sub :: rest) =
      if sub = SUB_LE_CONN_COMPLETE ∧ rest.getD 3 0 = 0 then
        .central (addrAt (fun i => rest.getD i 0) 5)
      else .other := rfl

theorem notice_connComplete (status : UInt8) (c : LlConn) :
    notice (VbtLl.patchLen ([HCI_EVT_PKT, EVT_LE_META, 0, SUB_LE_CONN_COMPLETE, status] ++
      bytes16 c.handle ++ [c.role, c.peerAddrType] ++ c.peerAddr.bytes ++
      [0x18, 0x00, 0x00, 0x00, 0x2a, 0x00, 0x00])) =
      if c.role = 0 then .central c.peerAddr else .other := by
  simp only [List.cons_append, patchLen_cons]
  rw [notice_leMeta]
  show (if SUB_LE_CONN_COMPLETE = SUB_LE_CONN_COMPLETE ∧ c.role = 0 then
    Notice.central c.peerAddr else .other) = _
  simp only [true_and]

namespace VbtLl

/-! ### Routine output -/

/-- The output answers no command and opens no connection, and a frame is sound and may be sent in
this state. -/
def Routine (ll : VbtLl) : Out → Prop
  | .hci _ pkt => notice pkt = .other
  | .pdu size f => Sound size f ∧ ll.Airs f

/-- Nothing but the connections, the time of the last advertisement, the state of the pseudo-random
numbers and the output differs. -/
def Steady (ll ll' : VbtLl) : Prop :=
  ∃ conns connsSize lastAdvMs nextAa out, ll' = { ll with
    conns := conns, connsSize := connsSize, lastAdvMs := lastAdvMs, nextAa := nextAa, out := out }

theorem Steady.refl (ll : VbtLl) : Steady ll ll := ⟨_, ll.connsSize, _, _, _, rfl⟩

theorem Steady.trans {ll ll' ll'' : VbtLl} (h : Steady ll ll') (h' : Steady ll' ll'') :
    Steady ll ll'' := by
  obtain ⟨c, hc, t, r, o, rfl⟩ := h
  obtain ⟨c', hc', t', r', o', rfl⟩ := h'
  exact ⟨c', hc', t', r', o', rfl⟩

section Steady

variable {ll ll' : VbtLl}

theorem Steady.numHciCmd (h : Steady ll ll') : ll'.numHciCmd = ll.numHciCmd := by
  obtain ⟨_, _, _, _, _, rfl⟩ := h
  rfl

theorem Steady.state (h : Steady ll ll') : ll'.state = ll.state := by
  obtain ⟨_, _, _, _, _, rfl⟩ := h
  rfl

theorem Steady.initPeerAddr (h : Steady ll ll') : ll'.initPeerAddr = ll.initPeerAddr := by
  obtain ⟨_, _, _, _, _, rfl⟩ := h
  rfl

end Steady

/-- What was put out between the last two states is routine for the first, and nothing was set. -/
structure Emits (start ll ll' : VbtLl) : Prop where
  out : ∃ new, ll'.out = new ++ ll.out ∧ ∀ o ∈ new, start.Routine o
  steady : Steady ll ll'

namespace Emits

variable {start ll ll' ll'' : VbtLl}

theorem refl (start ll : VbtLl) :
    Emits start ll ll := ⟨⟨[], rfl, fun _ h => by cases h⟩, Steady.refl ll⟩

theorem trans (h : Emits start ll ll') (h' : Emits start ll' ll'') : Emits start ll ll'' := by
  obtain ⟨⟨new, hout, hnew⟩, hs⟩ := h
  obtain ⟨⟨new', hout', hnew'⟩, hs'⟩ := h'
  refine ⟨⟨new' ++ new, ?_, ?_⟩, hs.trans hs'⟩
  · rw [hout', hout, List.append_assoc]
  · intro o ho
    rcases List.mem_append.1 ho with ho | ho
    · exact hnew' o ho
    · exact hnew o ho

theorem flag (h : Emits start ll ll') (i : ℕ) (f : LlConn → LlConn) :
    Emits start ll (ll'.modConn i f) :=
  h.trans ⟨⟨[], rfl, fun _ h => by cases h⟩, _, (ll'.modConn i f).connsSize, _, _, _, rfl⟩

/-- One more output. -/
theorem put (h : Emits start ll ll') {o : Out} (ho : start.Routine o) :
    Emits start ll { ll' with out := o :: ll'.out } := by
  refine h.trans ⟨⟨[o], rfl, ?_⟩, _, ll'.connsSize, _, _, _, rfl⟩
  intro o' ho'
  rwa [List.mem_singleton.1 ho']

theorem tells (h : Emits start ll ll') (size : ℕ) {pkt : List UInt8} (hpkt : notice pkt = .other) :
    Emits start ll (ll'.sendHci size pkt) :=
  h.put (o := .hci size pkt) hpkt

/-- A data PDU of an entry that is linked as it was when the call began. -/
theorem data (h : Emits start ll ll') {i : ℕ} (hi : i < VBT_LL_MAX_CONN) {c : LlConn}
    (hact : c.active = true) (hlink : start.link i = c.link) {size : ℕ} {pdu : List UInt8}
    (hbody : pdu.length = 2 + (pdu.getD 1 0).toNat) (hshort : pdu.length ≤ 253)
    (hfits : pdu.length ≤ size) : Emits start ll (ll'.sendDataPdu size c pdu) := by
  refine h.put (o := .pdu size ⟨_, pdu⟩) ⟨sound_fillHdr hbody hshort hfits, Or.inr ?_⟩
  exact ⟨i, hi, _, _, hlink.trans (LlConn.link_eq_some.2 ⟨hact, rfl, rfl⟩), rfl, rfl, rfl⟩

theorem control (h : Emits start ll ll') {i : ℕ} (hi : i < VBT_LL_MAX_CONN) {c : LlConn}
    (hact : c.active = true) (hlink : start.link i = c.link) (opcode : UInt8) {params : List UInt8}
    (hlen : params.length ≤ 61) : Emits start ll (ll'.sendLlControl c opcode params) := by
  have hn : ([LLID_CONTROL, .ofNat (1 + params.length), opcode] ++ params).length =
      3 + params.length := by
    simp only [List.length_append, List.length_cons, List.length_nil]
  refine h.data hi hact hlink ?_ (by omega) (by omega)
  show _ = 2 + (UInt8.ofNat (1 + params.length)).toNat
  rw [hn, UInt8.toNat_ofNat']
  omega

/-- An advertising PDU that is not a CONNECT_IND. -/
theorem adv (h : Emits start ll ll') {size : ℕ} {channel txAddrType : UInt8} {txAddr : BdAddr}
    {pdu : List UInt8} (hpdu : AdvShape size txAddr pdu) :
    Emits start ll (ll'.sendAdvPdu size channel txAddr txAddrType pdu) :=
  h.put (o := .pdu size ⟨_, pdu⟩)
    ⟨sound_fillHdr hpdu.body hpdu.short hpdu.fits, Or.inl ⟨rfl, rfl, hpdu.type, hpdu.adva⟩⟩

end Emits

/-! ### Answers to commands -/

/-- The answer was put out first, the rest is routine, and `set` has the fields that were set. -/
structure Answered (ll : VbtLl) (first : Notice) (set ll' : VbtLl) : Prop where
  out : ∃ size pkt new, ll'.out = new ++ .hci size pkt :: ll.out ∧ notice pkt = first ∧
    ∀ o ∈ new, ll.Routine o
  steady : Steady set ll'

section Answers

variable {ll ll' set : VbtLl}

theorem Answered.emits {ll'' : VbtLl} {first : Notice} (h : Answered ll first set ll')
    (h' : Emits ll ll' ll'') : Answered ll first set ll'' := by
  obtain ⟨⟨size, pkt, new, hout, hpkt, hnew⟩, hs⟩ := h
  obtain ⟨⟨new', hout', hnew'⟩, hs'⟩ := h'
  refine ⟨⟨size, pkt, new' ++ new, ?_, hpkt, ?_⟩, hs.trans hs'⟩
  · rw [hout', hout, List.append_assoc]
  · intro o ho
    rcases List.mem_append.1 ho with ho | ho
    · exact hnew' o ho
    · exact hnew o ho

theorem Steady.sendHci (h : Steady ll ll') (size : ℕ) (pkt : List UInt8) :
    Steady ll (ll'.sendHci size pkt) :=
  h.trans ⟨_, ll'.connsSize, _, _, _, rfl⟩

/-- A command that sets fields and is complete. -/
theorem answered_complete (hout : ll'.out = ll.out) (hc : ll'.numHciCmd = ll.numHciCmd)
    (hset : Steady set ll') (opcode : UInt16) (ret : List UInt8) :
    Answered ll (.complete opcode ll.credits) set (ll'.cmdComplete opcode ret) := by
  refine ⟨⟨260, _, [], congrArg (List.cons _) hout, ?_, fun _ h => by cases h⟩, hset.sendHci _ _⟩
  rw [notice_cmdComplete]
  unfold VbtLl.credits
  rw [hc]

theorem answered_status (hout : ll'.out = ll.out) (hc : ll'.numHciCmd = ll.numHciCmd)
    (hset : Steady set ll') (opcode : UInt16) (status : UInt8) :
    Answered ll (.status opcode ll.credits status) set (ll'.cmdStatus opcode status) := by
  refine ⟨⟨7, _, [], congrArg (List.cons _) hout, ?_, fun _ h => by cases h⟩, hset.sendHci _ _⟩
  rw [notice_cmdStatus]
  unfold VbtLl.credits
  rw [hc]

/-- A command that is answered with a status and goes on. -/
theorem answered_begin (ll : VbtLl) (op : Op) :
    Answered ll (.status op.code ll.credits HCI_SUCCESS) ll (ll.cmdStatus op.code HCI_SUCCESS) :=
  answered_status rfl rfl (Steady.refl ll) op.code HCI_SUCCESS

/-- A command that sets nothing and is complete. -/
theorem answered_at_once (ll : VbtLl) (opcode : UInt16) (ret : List UInt8) :
    Answered ll (.complete opcode ll.credits) ll (ll.cmdComplete opcode ret) :=
  answered_complete rfl rfl (Steady.refl ll) opcode ret

end Answers

/-- How a command is answered. -/
def reply (ll : VbtLl) (op : Op) (plen : ℕ) : Notice :=
  match op with
  | .disconnect | .readRemoteVersion | .leConnUpdate | .leReadRemoteFeatures | .leStartEncryption =>
    .status op.code ll.credits HCI_SUCCESS
  | .leCreateConn =>
    .status op.code ll.credits (if plen < 13 then HCI_UNKNOWN_COMMAND else HCI_SUCCESS)
  | _ => .complete op.code ll.credits

theorem reply_answers (ll : VbtLl) (op : Op) (plen : ℕ) :
    (ll.reply op plen).answers = some (op.code, ll.credits) := by
  cases op <;> rfl

/-- The fields that a command sets. -/
def sets (ll : VbtLl) (op : Op) (params : Mem) (plen : ℕ) : VbtLl :=
  match op with
  | .reset => { ll with state := .idle, advEnabled := false, scanEnabled := false }
  | .leSetRandomAddress =>
    if 6 ≤ plen then { ll with randomAddr := addrAt params 0, randomAddrSet := true } else ll
  | .leSetAdvParameters =>
    if 15 ≤ plen then
      { ll with
        advIntervalMs := 100
        advType := params 4
        advOwnAddrType := params 5
        advDirectAddrType := params 6
        advDirectAddr := addrAt params 7 }
    else ll
  | .leSetAdvData => if 1 ≤ plen then { ll with advData := adDataOf params } else ll
  | .leSetScanRspData => if 1 ≤ plen then { ll with scanRspData := adDataOf params } else ll
  | .leSetAdvEnable =>
    if enableFlag params plen then { ll with advEnabled := true, state := .advertising }
    else { ll with advEnabled := false,
                   state := if ll.state = LlState.advertising then .idle else ll.state }
  | .leSetScanParameters =>
    if 1 ≤ plen then
      { ll with
        scanType := params 0
        scanOwnAddrType := if 6 ≤ plen then params 5 else ll.scanOwnAddrType }
    else ll
  | .leSetScanEnable =>
    if enableFlag params plen then { ll with scanEnabled := true, state := .scanning }
    else { ll with scanEnabled := false,
                   state := if ll.state = LlState.scanning then .idle else ll.state }
  | .leCreateConn =>
    if plen < 13 then ll
    else
      { ll with
        initPeerAddrType := params 5
        initPeerAddr := addrAt params 6
        initOwnAddrType := params 12
        state := .initiating }
  | .leCreateConnCancel => { ll with state := if ll.state = .initiating then .idle else ll.state }
  | _ => ll

section Commands

variable (ll : VbtLl) (params : Mem) (plen : ℕ)

/-- A command sets nothing of the output and the credits. -/
theorem sets_output (op : Op) : (ll.sets op params plen).out = ll.out ∧
    (ll.sets op params plen).numHciCmd = ll.numHciCmd := by
  cases op with
  | leSetRandomAddress | leSetAdvParameters | leSetAdvData | leSetScanRspData | leSetAdvEnable
  | leSetScanParameters | leSetScanEnable | leCreateConn =>
    unfold sets
    dsimp only
    split_ifs <;> exact ⟨rfl, rfl⟩
  | _ => exact ⟨rfl, rfl⟩

theorem leSetAdvEnable_answered :
    Answered ll (ll.reply .leSetAdvEnable plen) (ll.sets .leSetAdvEnable params plen)
      (ll.leSetAdvEnable params plen) := by
  unfold leSetAdvEnable sets
  cases enableFlag params plen with
  | false => refine answered_complete ?_ ?_ (Steady.refl _) _ _ <;> rfl
  | true => refine answered_complete ?_ ?_ ⟨_, ll.connsSize, 0, _, _, rfl⟩ _ _ <;> rfl

theorem leSetScanEnable_answered :
    Answered ll (ll.reply .leSetScanEnable plen) (ll.sets .leSetScanEnable params plen)
      (ll.leSetScanEnable params plen) := by
  unfold leSetScanEnable sets
  cases enableFlag params plen <;> refine answered_complete ?_ ?_ (Steady.refl _) _ _ <;> rfl

theorem handleLeCreateConn_answered :
    Answered ll (ll.reply .leCreateConn plen) (ll.sets .leCreateConn params plen)
      (ll.handleLeCreateConn params plen) := by
  unfold handleLeCreateConn reply sets
  dsimp only
  split_ifs <;> refine answered_status ?_ ?_ (Steady.refl _) _ _ <;> rfl

theorem leConnUpdate_answered :
    Answered ll (ll.reply .leConnUpdate plen) ll (ll.leConnUpdate params plen) := by
  have h0 := answered_begin ll .leConnUpdate
  unfold leConnUpdate
  dsimp only
  split_ifs
  · split
    · exact h0
    · refine h0.emits ((Emits.refl ll _).tells 16 ?_)
      simp only [List.cons_append, patchLen_cons, notice_leMeta]
      rfl
  · exact h0

theorem leReadRemoteFeatures_answered :
    Answered ll (ll.reply .leReadRemoteFeatures plen) ll (ll.leReadRemoteFeatures params plen) := by
  have h0 := answered_begin ll .leReadRemoteFeatures
  unfold leReadRemoteFeatures
  dsimp only
  split_ifs
  · refine h0.emits ((Emits.refl ll _).tells 16 ?_)
    simp only [List.cons_append, patchLen_cons, notice_leMeta]
    rfl
  · exact h0

theorem leRand_answered : Answered ll (.complete Op.leRand.code ll.credits) ll ll.leRand := by
  have hrand : ∀ x : VbtLl, ∃ r, x.llRand32 = { x with nextAa := r } := fun x => ⟨_, rfl⟩
  obtain ⟨r, hr⟩ := hrand ll
  obtain ⟨r', hr'⟩ := hrand ll.llRand32
  unfold leRand
  dsimp only
  rw [hr', hr]
  refine answered_complete ?_ ?_ ⟨_, ll.connsSize, _, r', _, rfl⟩ _ _ <;> rfl

theorem leStartEncryption_answered :
    Answered ll (ll.reply .leStartEncryption plen) ll (ll.leStartEncryption params plen) := by
  have h0 := answered_begin ll .leStartEncryption
  unfold leStartEncryption
  dsimp only
  split
  · split
    · exact h0
    · rename_i i hi
      obtain ⟨hlt, hl⟩ := link_of_connByHandle hi
      have hact := (LlConn.link_eq_some.1 hl).1
      refine h0.emits (Emits.control ((Emits.refl ll _).flag i _) hlt ?_ ?_ _ ?_)
      · rw [modConn_same]
        exact hact
      · rw [modConn_same]
        rfl
      · split_ifs <;> simp
  · exact h0

theorem leLtkReqReply_answered :
    Answered ll (.complete Op.leLtkReqReply.code ll.credits) ll (ll.leLtkReqReply params plen) := by
  have h0 := answered_at_once ll Op.leLtkReqReply.code
    ([HCI_SUCCESS] ++ bytes16 (ltkHandle params plen))
  unfold leLtkReqReply
  dsimp only
  split
  · exact h0
  · rename_i i hi
    obtain ⟨hlt, hl⟩ := link_of_connByHandle hi
    exact h0.emits ((Emits.refl ll _).control hlt (LlConn.link_eq_some.1 hl).1 rfl _ (by decide))

theorem disconnect_answered :
    Answered ll (ll.reply .disconnect plen) ll (ll.disconnect params plen) := by
  have h0 := answered_begin ll .disconnect
  unfold disconnect
  dsimp only
  split_ifs
  · split
    · exact h0
    · rename_i i hi
      obtain ⟨hlt, hl⟩ := link_of_connByHandle hi
      have hlen : [params 2].length ≤ 61 := Nat.succ_le_succ (Nat.zero_le _)
      have h1 := (Emits.refl ll (ll.cmdStatus Op.disconnect.code HCI_SUCCESS)).control hlt
        (LlConn.link_eq_some.1 hl).1 rfl LL_TERMINATE_IND hlen
      refine h0.emits ((h1.flag i _).tells 7 ?_)
      rfl
  · exact h0

theorem readRemoteVersion_answered :
    Answered ll (ll.reply .readRemoteVersion plen) ll (ll.readRemoteVersion params plen) := by
  have h0 := answered_begin ll .readRemoteVersion
  unfold readRemoteVersion
  dsimp only
  split_ifs
  · exact h0.emits ((Emits.refl ll _).tells 11 rfl)
  · exact h0

/-- **Every command is answered at once**, and sets the fields it is to set. -/
theorem command_answered (op : Op) :
    Answered ll (ll.reply op plen) (ll.sets op params plen) (ll.command op params plen) := by
  cases op with
  | setEventMask | setEventMaskPage2 | leSetEventMask | leSetHostChanClass | leClearWhiteList
  | leAddWhiteList | leRemoveWhiteList | readLocalVersion | readLocalCommands | readLocalFeatures
  | leReadLocalFeatures | readBufferSize | leReadBufferSize | readBdAddr | leReadAdvTxPower
  | leReadWhiteListSize | leReadSupportedStates | leEncrypt | leLtkReqNegReply =>
    exact answered_at_once ll _ _
  | reset => refine answered_complete ?_ ?_ ⟨_, rfl, _, _, _, rfl⟩ _ _ <;> rfl
  | leCreateConnCancel => refine answered_complete ?_ ?_ (Steady.refl _) _ _ <;> rfl
  | leSetRandomAddress | leSetAdvParameters | leSetAdvData | leSetScanRspData
  | leSetScanParameters =>
    exact answered_complete (sets_output ll params plen _).1 (sets_output ll params plen _).2
      (Steady.refl _) _ _
  | leSetAdvEnable => exact leSetAdvEnable_answered ll params plen
  | leSetScanEnable => exact leSetScanEnable_answered ll params plen
  | leCreateConn => exact handleLeCreateConn_answered ll params plen
  | leConnUpdate => exact leConnUpdate_answered ll params plen
  | leReadRemoteFeatures => exact leReadRemoteFeatures_answered ll params plen
  | leRand => exact leRand_answered ll
  | leStartEncryption => exact leStartEncryption_answered ll params plen
  | leLtkReqReply => exact leLtkReqReply_answered ll params plen
  | disconnect => exact disconnect_answered ll params plen
  | readRemoteVersion => exact readRemoteVersion_answered ll params plen

end Commands

/-! ### Other packets from the host, ticks -/

theorem handleAclFromHost_emits (ll : VbtLl) (pkt : Mem) (len : ℕ) :
    Emits ll ll (ll.handleAclFromHost pkt len) := by
  unfold handleAclFromHost
  dsimp only
  split
  · exact Emits.refl ll ll
  · split
    · exact Emits.refl ll ll
    · rename_i i hi
      obtain ⟨hlt, hl⟩ := link_of_connByHandle hi
      obtain ⟨hbody, hshort⟩ := aclPdu_length pkt len
      have h1 := (Emits.refl ll ll).data hlt (LlConn.link_eq_some.1 hl).1 rfl hbody hshort
        (hshort.trans (by decide : 253 ≤ 261))
      exact h1.tells 10 rfl

theorem Emits.advertise {start ll ll' : VbtLl} (h : Emits start ll ll') {type : UInt8}
    (hmask : type &&& VBT_ADV_PDU_TYPE_MASK = type) (htype : type ≠ VBT_CONNECT_IND)
    (channel atype : UInt8) (adva : BdAddr) (data : AdData) :
    Emits start ll (ll'.sendAdvPdu 39 channel adva atype (advPdu type atype adva data)) :=
  h.adv (advShape_advPdu hmask htype atype adva data)

theorem tick_emits (ll : VbtLl) (nowMs : UInt64) : Emits ll ll (ll.tick nowMs) := by
  unfold tick
  split_ifs
  · obtain ⟨hmask, htype⟩ := ll.advPduType_cases
    have h1 := (Emits.refl ll ll).advertise hmask htype VBT_CHAN_ADV_37
      (ownSourceAddrType ll.advOwnAddrType) (ll.ownSourceAddr ll.advOwnAddrType) ll.advData
    have h2 := h1.advertise hmask htype VBT_CHAN_ADV_38
      (ownSourceAddrType ll.advOwnAddrType) (ll.ownSourceAddr ll.advOwnAddrType) ll.advData
    have h3 := h2.advertise hmask htype VBT_CHAN_ADV_39
      (ownSourceAddrType ll.advOwnAddrType) (ll.ownSourceAddr ll.advOwnAddrType) ll.advData
    exact h3.trans ⟨⟨[], rfl, fun _ h => by cases h⟩, _, ll.connsSize, nowMs, _, _, rfl⟩
  · exact Emits.refl ll ll
  · exact Emits.refl ll ll

/-! ### Data PDUs from the medium -/

theorem aclToHost_emits (ll : VbtLl) (handle : UInt16) (l2cap : List UInt8) :
    Emits ll ll (ll.aclToHost handle l2cap) := by
  unfold aclToHost
  split
  · exact Emits.refl ll ll
  · exact (Emits.refl ll ll).tells 271 rfl

theorem markEncrypted_emits (start ll : VbtLl) (i : ℕ) : Emits start ll (ll.markEncrypted i) := by
  unfold markEncrypted
  split
  · exact Emits.refl start ll
  · refine ((Emits.refl start ll).flag i _).tells 7 ?_
    rfl

theorem handleEncReq_emits {ll : VbtLl} {i : ℕ} (hi : i < VBT_LL_MAX_CONN)
    (hact : (ll.conns i).active = true) (payload : Mem) (plen : ℕ) :
    Emits ll ll (ll.handleEncReq i payload plen) := by
  unfold handleEncReq
  dsimp only
  generalize hll1 : (ll.modConn i fun c => { c with encrypting := true }) = ll1
  have h1 : Emits ll ll ll1 := hll1 ▸ (Emits.refl ll ll).flag i _
  have hact1 : (ll1.conns i).active = true := by
    rw [← hll1, modConn_same]
    exact hact
  have hlink : ll.link i = (ll1.conns i).link := by
    rw [← hll1, modConn_same]
    rfl
  have h2 := h1.control hi hact1 hlink LL_ENC_RSP (show (List.replicate 12 0).length ≤ 61 by decide)
  refine h2.tells 16 ?_
  simp only [List.cons_append, patchLen_cons, notice_leMeta]
  rfl

theorem handleLlControl_emits {ll : VbtLl} {i : ℕ} (hi : i < VBT_LL_MAX_CONN)
    (hact : (ll.conns i).active = true) (payload : Mem) (plen : ℕ) :
    Emits ll ll (ll.handleLlControl i payload plen) := by
  have h0 := Emits.refl ll ll
  unfold handleLlControl
  split_ifs
  · exact h0
  · refine (h0.flag i _).tells 7 ?_
    rfl
  · refine (h0.flag i _).tells 7 ?_
    rfl
  · exact h0.control hi hact rfl _ (by decide)
  · exact h0.control hi hact rfl _ (by decide)
  · exact handleEncReq_emits hi hact payload plen
  · exact (h0.control hi hact rfl _ (by decide)).trans (markEncrypted_emits ll _ i)
  · exact markEncrypted_emits ll ll i
  · exact h0

theorem dataFromMedium_emits (ll : VbtLl) (hdr : VbtFrameHdr) (pdu : Mem) (bodyLen : ℕ) :
    Emits ll ll (ll.dataFromMedium hdr pdu bodyLen) := by
  unfold dataFromMedium
  split
  · exact Emits.refl ll ll
  · rename_i i hi
    obtain ⟨hlt, hl⟩ := link_of_connByAA hi
    have hact := (LlConn.link_eq_some.1 hl).1
    dsimp only
    split_ifs
    · exact handleLlControl_emits hlt hact _ _
    · exact aclToHost_emits ll _ _
    · exact Emits.refl ll ll
    · exact Emits.refl ll ll

/-! ### Advertising PDUs from the medium -/

theorem reportAdv_emits (start ll : VbtLl) (eventType addrType : UInt8) (addr : BdAddr)
    (data : List UInt8) (rssi : Int8) :
    Emits start ll (ll.reportAdv eventType addrType addr data rssi) := by
  refine (Emits.refl start ll).tells 45 ?_
  exact congrArg notice (patchLen_cons _ _ _ _)

theorem sendScanReq_emits (start ll : VbtLl) (adva : BdAddr) (txadd : UInt8) :
    Emits start ll (ll.sendScanReq adva txadd) :=
  (Emits.refl start ll).adv (advShape_scanReq _ _ _ _)

theorem scanReqFromMedium_emits (ll : VbtLl) (body : Mem) (bodyLen : ℕ) :
    Emits ll ll (ll.scanReqFromMedium body bodyLen) := by
  unfold scanReqFromMedium
  split_ifs
  · exact (Emits.refl ll ll).advertise rfl (by decide) _ _ _ _
  · exact Emits.refl ll ll
  · exact Emits.refl ll ll

theorem scanRspFromMedium_emits (ll : VbtLl) (hdr : VbtFrameHdr) (txadd : UInt8) (body : Mem)
    (bodyLen : ℕ) : Emits ll ll (ll.scanRspFromMedium hdr txadd body bodyLen) := by
  unfold scanRspFromMedium
  split_ifs
  · exact reportAdv_emits ll ll _ _ _ _ _
  · exact Emits.refl ll ll

end VbtLl
end Vbt
