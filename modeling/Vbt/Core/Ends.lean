import Vbt.Core.Emission

/-!
# The connections of a core as an abstract machine

Of everything a core does, little concerns the life of its connections: they are opened by an
advertisement or a CONNECT_IND, closed by the host, by LL_TERMINATE_IND or by a reset, and
encrypted by the control PDUs of the start-encryption handshake. Here that part is stated on its
own, as a machine on the table of connection ends, and every call of the core is shown to be one
transition of it.

* `LinkEnd`, `ends`: one end of a connection, and the table of a core;
* `Signal`, `Request`: what a PDU and an HCI packet say about connections;
* `Cause`, with `Cause.apply`, `Cause.sends`, `Cause.reports`: the abstract machine;
* `cause`: the transition a call causes in a given state;
* `Effect`: what a call does to the table, on the air and to the host is what its cause says. That
  it is so for every call is `step_effect` in `Vbt.Core.Causes`.
-/

namespace Vbt

/-- One end of a connection. -/
structure LinkEnd where
  handle : UInt16
  accessAddr : UInt32
  role : UInt8
  encrypted : Bool
  deriving DecidableEq, Repr

/-- The end that an entry of the table stands for. -/
def LlConn.linkEnd (c : LlConn) : Option LinkEnd :=
  if c.active then some ⟨c.handle, c.accessAddr, c.role, c.encrypted⟩ else none

/-! ### Signals -/

/-- What a PDU says about connections. -/
inductive Signal
  | adv (adva : BdAddr)
  | connect (adva : BdAddr) (aa : UInt32)
  | terminate (aa : UInt32)
  | startEncReq (aa : UInt32)
  | startEncRsp (aa : UInt32)
  | other
  deriving DecidableEq, Repr

/-- The signal is about a connection. -/
def Signal.notable : Signal → Bool
  | .adv _ | .other => false
  | _ => true

/-- A control PDU with the given opcode. -/
def controlSignal (aa : UInt32) (opcode : UInt8) : Signal :=
  if opcode = LL_TERMINATE_IND then .terminate aa
  else if opcode = LL_START_ENC_REQ then .startEncReq aa
  else if opcode = LL_START_ENC_RSP then .startEncRsp aa
  else .other

/-- An advertising PDU of the given type. -/
def advSignal (type : UInt8) (body : Mem) (bodyLen : ℕ) : Signal :=
  if (type = VBT_ADV_IND ∨ type = VBT_ADV_DIRECT_IND) ∧ 6 ≤ bodyLen then .adv (addrAt body 0)
  else if type = VBT_CONNECT_IND ∧ 34 ≤ bodyLen then
    .connect (addrAt body 6) (le32 (body 12) (body 13) (body 14) (body 15))
  else .other

/-- Read a PDU as a core does. -/
def signal (hdr : VbtFrameHdr) (pdu : Mem) (pduLen : ℕ) : Signal :=
  if pduLen < 2 then .other
  else if hdr.llType = VBT_LL_ADV then
    advSignal (pdu 0 &&& VBT_ADV_PDU_TYPE_MASK) (pdu.shift 2) (VbtLl.bodyLenOf pdu pduLen)
  else if hdr.llType = VBT_LL_DATA ∧ pdu 0 &&& 0x03 = LLID_CONTROL ∧
      1 ≤ VbtLl.bodyLenOf pdu pduLen then
    controlSignal hdr.accessAddr (pdu 2)
  else .other

/-- What a frame says about connections. -/
def Frame.signal (f : Frame) : Signal := Vbt.signal f.hdr (Mem.ofList f.pdu fun _ => 0) f.pdu.length

theorem advSignal_of_ne {type : UInt8} {body : Mem} {bodyLen : ℕ} (h : type ≠ VBT_CONNECT_IND) :
    advSignal type body bodyLen =
      if (type = VBT_ADV_IND ∨ type = VBT_ADV_DIRECT_IND) ∧ 6 ≤ bodyLen then .adv (addrAt body 0)
      else .other := by
  unfold advSignal
  rw [if_neg fun hc : type = VBT_CONNECT_IND ∧ 34 ≤ bodyLen => h hc.1]

theorem advSignal_congr {type : UInt8} {m m' : Mem} {n : ℕ} (h : ∀ i < n, m' i = m i) :
    advSignal type m' n = advSignal type m n := by
  unfold advSignal
  split_ifs with ha hc
  · unfold addrAt
    rw [h _ (by omega), h _ (by omega), h _ (by omega), h _ (by omega), h _ (by omega),
      h _ (by omega)]
  · unfold addrAt
    rw [h _ (by omega), h _ (by omega), h _ (by omega), h _ (by omega), h _ (by omega),
      h _ (by omega), h _ (by omega), h _ (by omega), h _ (by omega), h _ (by omega)]
  · rfl

/-- A core reads nothing past the end of the PDU. -/
theorem signal_congr {hdr : VbtFrameHdr} {m m' : Mem} {n : ℕ} (h : ∀ i < n, m' i = m i) :
    signal hdr m' n = signal hdr m n := by
  unfold signal
  by_cases hlen : n < 2
  · rw [if_pos hlen, if_pos hlen]
  have hbody : VbtLl.bodyLenOf m' n = VbtLl.bodyLenOf m n := by
    unfold VbtLl.bodyLenOf
    rw [h 1 (by omega)]
  have hle := VbtLl.bodyLenOf_le m (by omega : 2 ≤ n)
  have hadv : advSignal (m 0 &&& VBT_ADV_PDU_TYPE_MASK) (m'.shift 2) (VbtLl.bodyLenOf m n) =
      advSignal (m 0 &&& VBT_ADV_PDU_TYPE_MASK) (m.shift 2) (VbtLl.bodyLenOf m n) :=
    advSignal_congr fun i hi => h (2 + i) (by omega)
  rw [if_neg hlen, if_neg hlen, hbody, h 0 (by omega), hadv]
  by_cases hb : 1 ≤ VbtLl.bodyLenOf m n
  · rw [h 2 (by omega)]
  · simp only [hb, and_false, if_false]

/-- What a core is given is what the frame says, whatever follows it in memory. -/
theorem signal_fromMedium (junk : Mem) (f : Frame) :
    signal f.hdr (Mem.ofList f.pdu junk) f.pdu.length = f.signal :=
  signal_congr fun i hi => by rw [Mem.ofList_apply hi, Mem.ofList_apply hi]

/-! ### Requests -/

/-- What an HCI packet asks for, as far as it concerns the life of a connection. -/
inductive Request
  | reset
  | disconnect (handle : UInt16)
  | startEncryption (handle : UInt16)
  | ltkReply (handle : UInt16)
  | other
  deriving DecidableEq, Repr

/-- The request of a command with the given parameters. -/
def opRequest (op : Op) (params : Mem) (plen : ℕ) : Request :=
  match op with
  | .reset => .reset
  | .disconnect => if 3 ≤ plen then .disconnect (VbtLl.handleOf params) else .other
  | .leStartEncryption => if 2 ≤ plen then .startEncryption (VbtLl.handleOf params) else .other
  | .leLtkReqReply => .ltkReply (VbtLl.ltkHandle params plen)
  | _ => .other

/-- Read an HCI packet as a core does. -/
def request (pkt : Mem) (len : ℕ) : Request :=
  if pkt 0 ≠ HCI_CMD_PKT ∨ len < 4 then .other
  else
    match Op.ofCode (le16 (pkt 1) (pkt 2)) with
    | some op =>
      opRequest op (pkt.shift 4) (if len < 4 + (pkt 3).toNat then len - 4 else (pkt 3).toNat)
    | none => .other

/-! ### The abstract machine -/

/-- What a call means for the connections. Slot `k` is where it happens, and `aa` the Access Address
of the connection there. -/
inductive Cause
  | nothing
  | reset
  /-- The host closes a connection. -/
  | disconnect (k : ℕ) (aa : UInt32)
  /-- The host replies with a key. -/
  | reply (k : ℕ) (aa : UInt32)
  /-- A connection is opened as central. -/
  | call (k : ℕ) (adva : BdAddr) (aa : UInt32)
  /-- A connection is opened as peripheral. -/
  | answer (k : ℕ) (aa : UInt32)
  /-- The peer closes a connection. -/
  | terminate (k : ℕ) (aa : UInt32)
  /-- The peer asks to start encryption. -/
  | startReq (k : ℕ) (aa : UInt32)
  /-- The peer confirms the start of encryption. -/
  | startRsp (k : ℕ) (aa : UInt32)
  deriving DecidableEq, Repr

namespace Cause

/-- The table of connection ends afterwards. -/
def apply (t : ℕ → Option LinkEnd) : Cause → ℕ → Option LinkEnd
  | nothing | reply _ _ => t
  | reset => fun _ => none
  | disconnect k _ | terminate k _ => Function.update t k none
  | call k _ aa => Function.update t k (some ⟨slotHandle k, aa, 0, false⟩)
  | answer k aa => Function.update t k (some ⟨slotHandle k, aa, 1, false⟩)
  | startReq k _ | startRsp k _ =>
    Function.update t k ((t k).map fun e => { e with encrypted := true })

/-- What is sent, of what is about a connection. -/
def sends : Cause → List Signal
  | disconnect _ aa => [.terminate aa]
  | reply _ aa => [.startEncReq aa]
  | call _ adva aa => [.connect adva aa]
  | startReq _ aa => [.startEncRsp aa]
  | _ => []

/-- The handles for which the host is told that encryption is on. -/
def reports (t : ℕ → Option LinkEnd) : Cause → List UInt16
  | startReq k _ | startRsp k _ =>
    match t k with
    | some e => if e.encrypted then [] else [e.handle]
    | none => []
  | _ => []

/-- The cause fits the table and the signal that was taken. Only a reaction to a signal can open or
encrypt a connection, and LL_TERMINATE_IND is ignored only if no entry has its Access Address. -/
def Apt (t : ℕ → Option LinkEnd) (s : Signal) : Cause → Prop
  | nothing => ∀ aa, s = .terminate aa → ∀ k e, t k = some e → e.accessAddr ≠ aa
  | reset => s = .other
  | disconnect k aa | reply k aa => s = .other ∧ ∃ e, t k = some e ∧ e.accessAddr = aa
  | call k adva _ => s = .adv adva ∧ t k = none
  | answer k aa => (∃ adva, s = .connect adva aa) ∧ t k = none
  | terminate k aa => s = .terminate aa ∧ ∃ e, t k = some e ∧ e.accessAddr = aa
  | startReq k aa => s = .startEncReq aa ∧ ∃ e, t k = some e ∧ e.accessAddr = aa
  | startRsp k aa => s = .startEncRsp aa ∧ ∃ e, t k = some e ∧ e.accessAddr = aa

/-- Where an entry of the table comes from. -/
theorem apply_eq_some {t : ℕ → Option LinkEnd} {c : Cause} {k : ℕ} {e : LinkEnd}
    (h : c.apply t k = some e) :
    t k = some e ∨
    (∃ adva aa, c = .call k adva aa ∧ e = ⟨slotHandle k, aa, 0, false⟩) ∨
    (∃ aa, c = .answer k aa ∧ e = ⟨slotHandle k, aa, 1, false⟩) ∨
    ∃ e₀ aa, (c = .startReq k aa ∨ c = .startRsp k aa) ∧ t k = some e₀ ∧
      e = { e₀ with encrypted := true } := by
  -- an entry that was not touched
  have key : ∀ (j : ℕ) (o : Option LinkEnd), Function.update t j o k = some e →
      t k = some e ∨ j = k ∧ o = some e := by
    intro j o hu
    rw [Function.update_apply] at hu
    split_ifs at hu with hkj
    · exact Or.inr ⟨hkj.symm, hu⟩
    · exact Or.inl hu
  cases c with
  | nothing => exact Or.inl h
  | reply j aa => exact Or.inl h
  | reset => cases h
  | disconnect j aa =>
    rcases key j _ h with h | ⟨-, hj⟩
    · exact Or.inl h
    · cases hj
  | terminate j aa =>
    rcases key j _ h with h | ⟨-, hj⟩
    · exact Or.inl h
    · cases hj
  | call j adva aa =>
    rcases key j _ h with h | ⟨rfl, hj⟩
    · exact Or.inl h
    · exact Or.inr (Or.inl ⟨adva, aa, rfl, (Option.some.inj hj).symm⟩)
  | answer j aa =>
    rcases key j _ h with h | ⟨rfl, hj⟩
    · exact Or.inl h
    · exact Or.inr (Or.inr (Or.inl ⟨aa, rfl, (Option.some.inj hj).symm⟩))
  | startReq j aa =>
    rcases key j _ h with h | ⟨rfl, hj⟩
    · exact Or.inl h
    · obtain ⟨e₀, h₀, rfl⟩ := Option.map_eq_some_iff.1 hj
      exact Or.inr (Or.inr (Or.inr ⟨e₀, aa, Or.inl rfl, h₀, rfl⟩))
  | startRsp j aa =>
    rcases key j _ h with h | ⟨rfl, hj⟩
    · exact Or.inl h
    · obtain ⟨e₀, h₀, rfl⟩ := Option.map_eq_some_iff.1 hj
      exact Or.inr (Or.inr (Or.inr ⟨e₀, aa, Or.inr rfl, h₀, rfl⟩))

theorem reports_startReq {t : ℕ → Option LinkEnd} {k : ℕ} {e : LinkEnd} (h : t k = some e)
    (aa : UInt32) : (startReq k aa).reports t = if e.encrypted then [] else [e.handle] := by
  show (match t k with
    | some e => if e.encrypted then [] else [e.handle]
    | none => []) = _
  rw [h]

theorem reports_startRsp {t : ℕ → Option LinkEnd} {k : ℕ} {e : LinkEnd} (h : t k = some e)
    (aa : UInt32) : (startRsp k aa).reports t = if e.encrypted then [] else [e.handle] :=
  reports_startReq h aa

end Cause

namespace VbtLl

/-- The table of connection ends. -/
def ends (ll : VbtLl) (k : ℕ) : Option LinkEnd :=
  if k < VBT_LL_MAX_CONN then (ll.conns k).linkEnd else none

/-- What was sent, of what is about a connection, oldest first. -/
def signals (ll : VbtLl) : List Signal := (ll.frames.map Frame.signal).filter Signal.notable

/-- The handles for which the host was told that encryption is on, oldest first. -/
def changes (ll : VbtLl) : List UInt16 :=
  ll.packets.filterMap fun pkt =>
    match hostEvent pkt with
    | .encryptChange h => some h
    | _ => none

/-- The slot that a new connection takes. -/
def freeSlot (ll : VbtLl) : Option ℕ := ll.conns.find? fun c => !c.active

/-- What a signal from the medium causes. -/
def onSignal (ll : VbtLl) : Signal → Cause
  | .adv adva =>
    if ll.state = .initiating ∧ adva = ll.initPeerAddr then
      ll.freeSlot.elim .nothing fun k => .call k adva (chosenAA ll.llRand32.nextAa)
    else .nothing
  | .connect adva aa =>
    if ll.advEnabled ∧ adva = ll.ownSourceAddr ll.advOwnAddrType then
      ll.freeSlot.elim .nothing fun k => .answer k aa
    else .nothing
  | .terminate aa => (ll.connByAA aa).elim .nothing fun k => .terminate k aa
  | .startEncReq aa => (ll.connByAA aa).elim .nothing fun k => .startReq k aa
  | .startEncRsp aa => (ll.connByAA aa).elim .nothing fun k => .startRsp k aa
  | .other => .nothing

section OnSignal

variable (ll : VbtLl) (adva : BdAddr) (aa : UInt32)

@[simp] theorem onSignal_adv : ll.onSignal (.adv adva) =
    if ll.state = .initiating ∧ adva = ll.initPeerAddr then
      ll.freeSlot.elim .nothing fun k => .call k adva (chosenAA ll.llRand32.nextAa)
    else .nothing := rfl

@[simp] theorem onSignal_connect : ll.onSignal (.connect adva aa) =
    if ll.advEnabled ∧ adva = ll.ownSourceAddr ll.advOwnAddrType then
      ll.freeSlot.elim .nothing fun k => .answer k aa
    else .nothing := rfl

@[simp] theorem onSignal_terminate :
    ll.onSignal (.terminate aa) = (ll.connByAA aa).elim .nothing fun k => .terminate k aa := rfl

@[simp] theorem onSignal_startEncReq :
    ll.onSignal (.startEncReq aa) = (ll.connByAA aa).elim .nothing fun k => .startReq k aa := rfl

@[simp] theorem onSignal_startEncRsp :
    ll.onSignal (.startEncRsp aa) = (ll.connByAA aa).elim .nothing fun k => .startRsp k aa := rfl

@[simp] theorem onSignal_other : ll.onSignal .other = .nothing := rfl

end OnSignal

/-- What a request of the host causes. -/
def onRequest (ll : VbtLl) : Request → Cause
  | .reset => .reset
  | .disconnect h => (ll.connByHandle h).elim .nothing
      fun k => .disconnect k (ll.conns k).accessAddr
  | .ltkReply h => (ll.connByHandle h).elim .nothing fun k => .reply k (ll.conns k).accessAddr
  | .startEncryption _ | .other => .nothing

/-- What a call says about connections, if it is a PDU. -/
def Input.signal : Input → Signal
  | .pdu hdr m len => Vbt.signal hdr m len
  | _ => .other

/-- What a call asks for, if it is a packet from the host. -/
def Input.request : Input → Request
  | .hci pkt len => Vbt.request pkt len
  | _ => .other

/-- What a call causes. -/
def cause (ll : VbtLl) : Input → Cause
  | .hci pkt len => ll.onRequest (request pkt len)
  | .pdu hdr pdu len => ll.onSignal (signal hdr pdu len)
  | .tick _ => .nothing

/-- The calls and states in which a cause is due. -/
def Due (ll : VbtLl) (i : Input) : Cause → Prop
  | .nothing => True
  | .reset => i.request = .reset
  | .disconnect k aa =>
    ∃ e, ll.ends k = some e ∧ e.accessAddr = aa ∧ i.request = .disconnect e.handle
  | .reply k aa => ∃ e, ll.ends k = some e ∧ e.accessAddr = aa ∧ i.request = .ltkReply e.handle
  | .call k adva _ => k < VBT_LL_MAX_CONN ∧ ll.ends k = none ∧ i.signal = .adv adva
  | .answer k aa => k < VBT_LL_MAX_CONN ∧ ll.ends k = none ∧ ∃ adva, i.signal = .connect adva aa
  | .terminate k aa => ll.connByAA aa = some k ∧ i.signal = .terminate aa
  | .startReq k aa => ll.connByAA aa = some k ∧ i.signal = .startEncReq aa
  | .startRsp k aa => ll.connByAA aa = some k ∧ i.signal = .startEncRsp aa

/-- `ll'` is what `ll` becomes by the given cause. -/
structure Effect (ll : VbtLl) (c : Cause) (ll' : VbtLl) : Prop where
  ends : ll'.ends = c.apply ll.ends
  signals : ll'.signals = ll.signals ++ c.sends
  changes : ll'.changes = ll.changes ++ c.reports ll.ends

end VbtLl
end Vbt
