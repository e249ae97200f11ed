import Vbt.Lib.Journal
import Vbt.Core.Medium

/-!
# What the host learns of connections

A host keeps its own account of the connections of its controller, from the packets it is sent.

* `HostEvent`, `hostEvent`: what a packet tells about connections;
* `hostView`: the host's account as a journal machine. Its state is the set of handles, and
  `enabled` says which packets make sense in a state;
* `hostEvents`: the journal that a core has written.
-/

namespace Vbt

/-- What a packet tells the host about connections. -/
inductive HostEvent
  | connComplete (handle : UInt16)
  | disconnComplete (handle : UInt16)
  | resetComplete
  | acl (handle : UInt16)
  | encryptChange (handle : UInt16)
  | ltkRequest (handle : UInt16)
  | numCompleted (handles : List UInt16)
  | other
  deriving DecidableEq, Repr

/-- The handles of a Number Of Completed Packets event with `n` entries. -/
def completedHandles : ℕ → List UInt8 → List UInt16
  | n + 1, h0 :: h1 :: _ :: _ :: rest => le16 h0 h1 :: completedHandles n rest
  | _, _ => []

/-- Read a packet as a host does. -/
def hostEvent (pkt : List UInt8) : HostEvent :=
  let b := fun i => pkt.getD i 0
  if b 0 = HCI_ACL_PKT then .acl (le16 (b 1) (b 2) &&& 0x0fff)
  else if b 0 = HCI_EVT_PKT then
    if b 1 = EVT_LE_META then
      if b 3 = SUB_LE_CONN_COMPLETE ∧ b 4 = HCI_SUCCESS then .connComplete (le16 (b 5) (b 6))
      else if b 3 = SUB_LE_LTK_REQUEST then .ltkRequest (le16 (b 4) (b 5))
      else .other
    else if b 1 = EVT_DISCONN_COMPLETE then .disconnComplete (le16 (b 4) (b 5))
    else if b 1 = EVT_ENCRYPT_CHANGE then .encryptChange (le16 (b 4) (b 5))
    else if b 1 = EVT_NUM_COMPLETED_PACKETS then .numCompleted (completedHandles (b 3).toNat (pkt.drop 4))
    else if b 1 = EVT_CMD_COMPLETE ∧ le16 (b 4) (b 5) = Op.reset.code then .resetComplete
    else .other
  else .other

/-- **The host's account of the connections.** -/
def hostView : Journal (Finset UInt16) HostEvent where
  init := ∅
  apply handles
    | .connComplete h => insert h handles
    | .disconnComplete h => handles.erase h
    | .resetComplete => ∅
    | _ => handles
  enabled handles
    | .connComplete h => h ∉ handles
    | .disconnComplete h | .acl h | .encryptChange h | .ltkRequest h => h ∈ handles
    | .numCompleted hs => ∀ h ∈ hs, h ∈ handles
    | .resetComplete | .other => True

/-- The packet makes sense to a host with these connections and does not change them. -/
structure Uneventful (handles : Finset UInt16) (pkt : List UInt8) : Prop where
  enabled : hostView.enabled handles (hostEvent pkt)
  apply : hostView.apply handles (hostEvent pkt) = handles

theorem uneventful_of_other {handles : Finset UInt16} {pkt : List UInt8}
    (h : hostEvent pkt = .other) : Uneventful handles pkt := by
  constructor
  · rw [h]; trivial
  · rw [h]; rfl

namespace VbtLl

/-- The handles of the active connections. -/
def activeHandles (ll : VbtLl) : Finset UInt16 :=
  ((Finset.range ll.conns.size).filter fun i => (ll.conns i).active).image fun i =>
    (ll.conns i).handle

/-- What the host was told, newest first. -/
def hostEvents (ll : VbtLl) : List HostEvent :=
  ll.out.filterMap fun
    | .hci _ pkt => some (hostEvent pkt)
    | .pdu _ _ => none

end VbtLl

/-! ### The packets a core sends -/

theorem patchLen_cons (a b c : UInt8) (rest : List UInt8) :
    VbtLl.patchLen (a :: b :: c :: rest) = a :: b :: .ofNat rest.length :: rest := by
  simp [VbtLl.patchLen]

/-- Of the LE meta events, only two subevents tell about connections. -/
theorem hostEvent_leMeta (n sub : UInt8) (rest : List UInt8) :
    hostEvent (HCI_EVT_PKT :: EVT_LE_META :: n :: sub :: rest) =
      if sub = SUB_LE_CONN_COMPLETE ∧ rest.getD 0 0 = HCI_SUCCESS then
        .connComplete (le16 (rest.getD 1 0) (rest.getD 2 0))
      else if sub = SUB_LE_LTK_REQUEST then .ltkRequest (le16 (rest.getD 0 0) (rest.getD 1 0))
      else .other := rfl

theorem hostEvent_connComplete (h : UInt16) (rest : List UInt8) :
    hostEvent (VbtLl.patchLen ([HCI_EVT_PKT, EVT_LE_META, 0, SUB_LE_CONN_COMPLETE, HCI_SUCCESS] ++
      bytes16 h ++ rest)) = .connComplete h := by
  nth_rewrite 2 [← le16_byteAt h]
  exact congrArg hostEvent (patchLen_cons _ _ _ _)

theorem hostEvent_ltkRequest (h : UInt16) (rest : List UInt8) :
    hostEvent (VbtLl.patchLen ([HCI_EVT_PKT, EVT_LE_META, 0, SUB_LE_LTK_REQUEST] ++ bytes16 h ++
      rest)) = .ltkRequest h := by
  nth_rewrite 2 [← le16_byteAt h]
  exact congrArg hostEvent (patchLen_cons _ _ _ _)

theorem hostEvent_cmdComplete (credits n : UInt8) (opcode : UInt16) (ret : List UInt8) :
    hostEvent ([HCI_EVT_PKT, EVT_CMD_COMPLETE, n, credits] ++ bytes16 opcode ++ ret) =
      if opcode = Op.reset.code then .resetComplete else .other := by
  simp [hostEvent, bytes16, le16_byteAt, HCI_EVT_PKT, HCI_ACL_PKT, EVT_CMD_COMPLETE, EVT_LE_META,
    EVT_DISCONN_COMPLETE, EVT_ENCRYPT_CHANGE, EVT_NUM_COMPLETED_PACKETS]

theorem hostEvent_cmdStatus (n status credits : UInt8) (rest : List UInt8) :
    hostEvent (HCI_EVT_PKT :: EVT_CMD_STATUS :: n :: status :: credits :: rest) = .other := rfl

theorem hostEvent_remoteVersion (n : UInt8) (rest : List UInt8) :
    hostEvent (HCI_EVT_PKT :: EVT_READ_REMOTE_VERSION_CMPL :: n :: rest) = .other := rfl

theorem hostEvent_disconnComplete (n status : UInt8) (h : UInt16) (rest : List UInt8) :
    hostEvent ([HCI_EVT_PKT, EVT_DISCONN_COMPLETE, n, status] ++ bytes16 h ++ rest) =
      .disconnComplete h := by
  nth_rewrite 2 [← le16_byteAt h]
  rfl

theorem hostEvent_encryptChange (n status : UInt8) (h : UInt16) (rest : List UInt8) :
    hostEvent ([HCI_EVT_PKT, EVT_ENCRYPT_CHANGE, n, status] ++ bytes16 h ++ rest) =
      .encryptChange h := by
  nth_rewrite 2 [← le16_byteAt h]
  rfl

theorem hostEvent_numCompleted (n : UInt8) (h k : UInt16) :
    hostEvent ([HCI_EVT_PKT, EVT_NUM_COMPLETED_PACKETS, n, 1] ++ bytes16 h ++ bytes16 k) =
      .numCompleted [h] := by
  nth_rewrite 2 [← le16_byteAt h]
  rfl

theorem hostEvent_acl (hf : UInt16) (rest : List UInt8) :
    hostEvent ([HCI_ACL_PKT] ++ bytes16 hf ++ rest) = .acl (hf &&& 0x0fff) := by
  nth_rewrite 2 [← le16_byteAt hf]
  rfl

end Vbt
