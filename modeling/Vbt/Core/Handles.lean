import Vbt.Core.Contract

/-!
# Commands on a connection handle

Seven commands name a connection by its handle.  Each is answered before, or without, a look at the
connection table, so that a handle which no connection has is answered like any other.

* `Op.paramLen`: the commands and the length of their parameters;
* `deadPackets`, `step_dead`: all that such a command does when no connection has the handle;
* `Refused`, `Checked`: what a host would expect of it;
* `checked_iff`: this holds for the handles of connections only.
-/

namespace Vbt

/-- The commands that name a connection, with the length of their parameters. -/
def Op.paramLen : Op → Option ℕ
  | .disconnect => some 3
  | .leConnUpdate => some 14
  | .leStartEncryption => some 28
  | .leLtkReqReply => some 18
  | .leReadRemoteFeatures | .leLtkReqNegReply | .readRemoteVersion => some 2
  | _ => none

/-- The status in a Command Status, or the first return parameter of a Command Complete. -/
def answerStatus (pkt : List UInt8) : UInt8 :=
  if pkt.getD 1 0 = EVT_CMD_STATUS then pkt.getD 3 0 else pkt.getD 6 0

/-- The handle that a completion event names. -/
def completion (pkt : List UInt8) : Option UInt16 :=
  let b := fun i => pkt.getD i 0
  if b 0 = HCI_EVT_PKT then
    if b 1 = EVT_LE_META then
      if b 3 = SUB_LE_CONN_COMPLETE ∨ b 3 = SUB_LE_CONN_UPDATE_COMPLETE ∨
          b 3 = SUB_LE_READ_REMOTE_FEAT_CMPL then
        some (le16 (b 5) (b 6))
      else none
    else if b 1 = EVT_DISCONN_COMPLETE ∨ b 1 = EVT_ENCRYPT_CHANGE ∨
        b 1 = EVT_READ_REMOTE_VERSION_CMPL then
      some (le16 (b 4) (b 5))
    else none
  else none

namespace VbtLl

/-! ### What a host expects -/

/-- The call is refused: its answer is an error, and nothing else happens. -/
structure Refused (ll : VbtLl) (i : Input) (h : UInt16) : Prop where
  status : ∃ first rest, packetsIn (ll.outputs i) = first :: rest ∧ answering first = true ∧
    answerStatus first ≠ HCI_SUCCESS
  silent : ∀ pkt ∈ packetsIn (ll.outputs i), completion pkt ≠ some h
  air : framesIn (ll.outputs i) = []
  same : ll.step i = { ll with out := (ll.step i).out }

/-- The command looks at the handle: it is refused when no connection has the handle, and a
Disconnect that succeeds is followed by its Disconnection Complete. -/
structure Checked (ll : VbtLl) (i : Input) (op : Op) (h : UInt16) : Prop where
  refused : ll.connByHandle h = none → ll.Refused i h
  followed : op = .disconnect → ∀ before pkt after,
    packetsIn (ll.outputs i) = before ++ pkt :: after → answering pkt = true →
    answerStatus pkt = HCI_SUCCESS → ∃ pkt' ∈ after, hostEvent pkt' = .disconnComplete h

/-! ### A handle that no connection has -/

/-- The Command Status that begins a command. -/
def statusPkt (ll : VbtLl) (op : Op) : List UInt8 :=
  [HCI_EVT_PKT, EVT_CMD_STATUS, 4, HCI_SUCCESS, ll.credits] ++ bytes16 op.code

/-- The Command Complete of a reply to a key request. -/
def keyReplyPkt (ll : VbtLl) (op : Op) (h : UInt16) : List UInt8 :=
  [HCI_EVT_PKT, EVT_CMD_COMPLETE, 6, ll.credits] ++ bytes16 op.code ++ ([HCI_SUCCESS] ++ bytes16 h)

/-- The packets of a command on a handle that no connection has: two commands complete for it. -/
def deadPackets (ll : VbtLl) (op : Op) (h : UInt16) : List (ℕ × List UInt8) :=
  match op with
  | .leLtkReqReply | .leLtkReqNegReply => [(260, ll.keyReplyPkt op h)]
  | .leReadRemoteFeatures =>
    [(7, ll.statusPkt op),
      (16, patchLen ([HCI_EVT_PKT, EVT_LE_META, 0, SUB_LE_READ_REMOTE_FEAT_CMPL, HCI_SUCCESS] ++
        bytes16 h ++ [0x01] ++ List.replicate 7 0x00))]
  | .readRemoteVersion =>
    [(7, ll.statusPkt op),
      (11, [HCI_EVT_PKT, EVT_READ_REMOTE_VERSION_CMPL, 8, HCI_SUCCESS] ++ bytes16 h ++
        [0x0c, 0x3f, 0x00, 0x00, 0x00])]
  | _ => [(7, ll.statusPkt op)]

section Dead

variable {ll : VbtLl} {i : Input} {op : Op} {n : ℕ}

/-- A command on a handle that no connection has sends its packets and does nothing else. -/
theorem command_dead {params : Mem} {plen : ℕ} (hop : op.paramLen = some n) (hn : n ≤ plen)
    (hdead : ll.connByHandle (handleOf params) = none) :
    ll.command op params plen = { ll with
      out := ((ll.deadPackets op (handleOf params)).map fun p => Out.hci p.1 p.2).reverse ++
        ll.out } := by
  -- The table is the same after the Command Status.
  have hstatus : (ll.cmdStatus op.code HCI_SUCCESS).connByHandle (handleOf params) = none := hdead
  cases op <;> cases hop
  case disconnect =>
    show ll.disconnect params plen = _
    rw [disconnect, if_pos hn, hstatus]
    rfl
  case leConnUpdate =>
    show ll.leConnUpdate params plen = _
    rw [leConnUpdate, if_pos (by omega), hstatus]
    rfl
  case leStartEncryption =>
    show ll.leStartEncryption params plen = _
    rw [leStartEncryption, if_pos (by omega), hstatus]
    rfl
  case leLtkReqReply =>
    have hkey : ltkHandle params plen = handleOf params := if_pos (by omega)
    show ll.leLtkReqReply params plen = _
    rw [leLtkReqReply, hkey, hdead]
    rfl
  case leLtkReqNegReply =>
    have hkey : ltkHandle params plen = handleOf params := if_pos hn
    show ll.leLtkReqNegReply params plen = _
    rw [leLtkReqNegReply, hkey]
    rfl
  case leReadRemoteFeatures =>
    show ll.leReadRemoteFeatures params plen = _
    rw [leReadRemoteFeatures, if_pos hn]
    rfl
  case readRemoteVersion =>
    show ll.readRemoteVersion params plen = _
    rw [readRemoteVersion, if_pos hn]
    rfl

/-- **What is left of a refusal**: the state and the medium are left alone. -/
theorem step_dead (hi : i.opcode = some op.code) (hop : op.paramLen = some n) (hn : n ≤ i.plen)
    (hdead : ll.connByHandle (handleOf i.params) = none) :
    ll.outputs i = (ll.deadPackets op (handleOf i.params)).map (fun p => Out.hci p.1 p.2) ∧
      ll.step i = { ll with out := (ll.step i).out } := by
  have hstep : ll.step i = _ := (step_command ll hi).trans (command_dead hop hn hdead)
  have hout := congrArg VbtLl.out hstep
  refine ⟨?_, ?_⟩
  · rw [outputs_eq hout, List.reverse_reverse]
  · rw [hstep]

/-- The first packet is an answer of success. -/
theorem deadPackets_first (ll : VbtLl) (op : Op) (h : UInt16) :
    ∃ size first rest, ll.deadPackets op h = (size, first) :: rest ∧
      answerStatus first = HCI_SUCCESS := by
  unfold deadPackets
  split
  all_goals exact ⟨_, _, _, rfl, rfl⟩

theorem not_refused (hi : i.opcode = some op.code) (hop : op.paramLen = some n) (hn : n ≤ i.plen)
    (hdead : ll.connByHandle (handleOf i.params) = none) : ¬ ll.Refused i (handleOf i.params) := by
  intro h
  obtain ⟨first, rest, hpkts, -, herr⟩ := h.status
  obtain ⟨size, first', rest', hdp, hok⟩ := deadPackets_first ll op (handleOf i.params)
  rw [(step_dead hi hop hn hdead).1, hdp] at hpkts
  -- The answer is the head of both lists.
  obtain ⟨rfl, -⟩ := List.cons.inj hpkts
  exact herr hok

end Dead

/-! ### A Disconnect that finds its connection -/

/-- The Disconnection Complete of a Disconnect. -/
def disconnPkt (h : UInt16) : List UInt8 :=
  [HCI_EVT_PKT, EVT_DISCONN_COMPLETE, 4, HCI_SUCCESS] ++ bytes16 h ++ [HCI_CONN_TERM_LOCAL_HOST]

section Alive

variable {ll : VbtLl} {i : Input} {k : ℕ}

/-- The packets of a Disconnect on a connection: the answer and then the completion. -/
theorem packets_disconnect (hi : i.opcode = some Op.disconnect.code) (hn : 3 ≤ i.plen)
    (hk : ll.connByHandle (handleOf i.params) = some k) :
    packetsIn (ll.outputs i) = [ll.statusPkt .disconnect, disconnPkt (handleOf i.params)] := by
  have hstatus : (ll.cmdStatus Op.disconnect.code HCI_SUCCESS).connByHandle (handleOf i.params) =
      some k := hk
  have hstep : ll.step i = ll.disconnect i.params i.plen := step_command ll hi
  rw [disconnect, if_pos hn, hstatus] at hstep
  have hout : (ll.step i).out = [_, _, _] ++ ll.out := congrArg VbtLl.out hstep
  rw [outputs_eq hout]
  rfl

theorem answering_disconnPkt (h : UInt16) : answering (disconnPkt h) = false :=
  answering_of_other rfl

/-- The completion follows the answer. -/
theorem followed_of_connection (hi : i.opcode = some Op.disconnect.code) (hn : 3 ≤ i.plen)
    (hk : ll.connByHandle (handleOf i.params) = some k) {before after : List (List UInt8)}
    {pkt : List UInt8} (hsplit : packetsIn (ll.outputs i) = before ++ pkt :: after)
    (hans : answering pkt = true) :
    ∃ pkt' ∈ after, hostEvent pkt' = .disconnComplete (handleOf i.params) := by
  rw [packets_disconnect hi hn hk] at hsplit
  match before with
  | [] =>
    obtain ⟨-, rfl⟩ := List.cons.inj hsplit
    exact ⟨_, List.mem_singleton.2 rfl, hostEvent_disconnComplete _ _ _ _⟩
  | [_] =>
    -- The packet would be the Disconnection Complete itself.
    obtain ⟨rfl, -⟩ := List.cons.inj (List.cons.inj hsplit).2
    rw [answering_disconnPkt] at hans
    cases hans
  | _ :: _ :: before =>
    have hnil := (List.cons.inj (List.cons.inj hsplit).2).2
    exact absurd hnil.symm (List.append_ne_nil_of_right_ne_nil _ (List.cons_ne_nil _ _))

/-- **The handle is looked at only if a connection has it**: each of the seven commands succeeds on
every other handle. -/
theorem checked_iff (ll : VbtLl) {i : Input} {op : Op} {n : ℕ} (hi : i.opcode = some op.code)
    (hop : op.paramLen = some n) (hn : n ≤ i.plen) :
    ll.Checked i op (handleOf i.params) ↔ ∃ k, ll.connByHandle (handleOf i.params) = some k := by
  constructor
  · intro h
    refine Option.ne_none_iff_exists'.1 fun hdead => ?_
    exact not_refused hi hop hn hdead (h.refused hdead)
  · rintro ⟨k, hk⟩
    refine ⟨fun hdead => ?_, ?_⟩
    · rw [hk] at hdead
      cases hdead
    · rintro rfl before pkt after hsplit hans -
      cases hop
      exact followed_of_connection hi hn hk hsplit hans

end Alive

/-- Disconnect handle 0x0040, because the user ended the connection. -/
def hangUp : Input := .hci (fun j => [0x01, 0x06, 0x04, 0x03, 0x40, 0x00, 0x13].getD j 0) 7

/-- The core that has called hangs up. -/
theorem checked_hangUp : central.Checked hangUp .disconnect 0x0040 :=
  (checked_iff central (i := hangUp) rfl (show Op.disconnect.paramLen = some 3 from rfl)
    (by decide)).2 ⟨0, by decide +kernel⟩

/-- A core that has just been created disconnects with success, and no completion follows. -/
theorem hangUp_unnoticed :
    (vbtLlNew centralAddr).connByHandle 0x0040 = none ∧
      packetsIn ((vbtLlNew centralAddr).outputs hangUp) = [[0x04, 0x0f, 0x04, 0x00, 0x01, 0x06, 0x04]] ∧
      ¬ (vbtLlNew centralAddr).Checked hangUp .disconnect 0x0040 := by
  have hdead : (vbtLlNew centralAddr).connByHandle (handleOf hangUp.params) = none := by decide
  refine ⟨hdead, by decide, fun h => ?_⟩
  exact not_refused rfl (show Op.disconnect.paramLen = some 3 from rfl) (by decide) hdead (h.refused hdead)

end VbtLl
end Vbt
