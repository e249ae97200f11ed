import Vbt.Hub.State

/-!
# The hub's tables

Node lookup and creation, address learning, the connection table with the CONNECT_IND snoop, and
the override table. Functions of the source that return a pointer into a table return the index
of the entry here.

* `findNode`, `findNodeByAddr`, `nodeAddAddr`, `resolveNode`;
* `findConn`, `connAlloc`, `observeConnectInd`, `connsDropNode`;
* `findOverride`, `overrideEntry`.
-/

namespace Vbt
namespace Hub

/-! ### Node table -/

/-- The scan of `find_node`: the active entry with this id. -/
def nodeByName (s : Hub) (nid : NodeId) : Option ℕ :=
  s.nodes.find? fun nd => nd.active && nd.nodeId == nid

/-- The entry `find_node` creates: the id is cut to `NODE_ID_LEN - 1` bytes. -/
def newNode (nid : NodeId) : Node :=
  { nodeId := nid.take (NODE_ID_LEN - 1), active := true, rxSensDbm := VBT_DEFAULT_RX_SENS,
    txPowerDbm := VBT_DEFAULT_TXPOWER.toInt }

/-- `find_node`. -/
def findNode (s : Hub) (nid : NodeId) (create : Bool) : Hub × Option ℕ :=
  match s.nodeByName nid with
  | some k => (s, some k)
  | none =>
    if create then
      match s.nodes.alloc MAX_NODES (fun nd => !nd.active) (newNode nid) with
      | some (k, nodes) => (({ s with nodes } : Hub).note (.named k nid), some k)
      | none => (s, none)
    else (s, none)

/-- `find_node_by_addr`. -/
def findNodeByAddr (s : Hub) (addr : BdAddr) : Option ℕ :=
  if addr.isZero then none
  else s.nodes.find? fun nd => nd.active && decide (addr ∈ nd.addrs)

/-- The last entry of a list moved to its front. -/
def lastFirst (l : List BdAddr) : List BdAddr :=
  match l.getLast? with
  | none => []
  | some z => z :: l.dropLast

/-- The inner loop of `node_add_addr`: an entry equal to `addr` is overwritten by the last one and
looked at again. The first argument bounds the number of iterations by the length of the list. -/
def dropAddr (addr : BdAddr) : ℕ → List BdAddr → List BdAddr
  | 0, l => l
  | _ + 1, [] => []
  | n + 1, a :: rest =>
    if a = addr then dropAddr addr n (lastFirst rest) else a :: dropAddr addr n rest

/-- The node with other addresses. -/
def withAddrs (nd : Node) (addrs : List BdAddr) : Node := { nd with addrs }

@[simp] theorem withAddrs_self (nd : Node) : withAddrs nd nd.addrs = nd := rfl

/-- The loop of `node_add_addr` over the other active nodes: `addr` leaves them. -/
def leaveOthers (nodes : Slots Node) (k : ℕ) (addr : BdAddr) : Slots Node :=
  nodes.mapBelow fun i nd =>
    if nd.active && i != k then withAddrs nd (dropAddr addr nd.addrs.length nd.addrs) else nd

/-- `addr` leaves every other node and joins node `k` if there is room. -/
def learnAddr (nodes : Slots Node) (k : ℕ) (addr : BdAddr) : Slots Node :=
  let nodes := leaveOthers nodes k addr
  if (nodes k).addrs.length < MAX_ADDRS_PER_NODE then
    nodes.modify k fun nd => withAddrs nd (nd.addrs ++ [addr])
  else nodes

/-- `node_add_addr`. -/
def nodeAddAddr (s : Hub) (k : ℕ) (addr : BdAddr) : Hub :=
  if addr.isZero then s
  else if addr ∈ (s.nodes k).addrs then s
  else { s with nodes := learnAddr s.nodes k addr }

/-! ### Addresses in control commands -/

/-- The value of a hexadecimal digit. -/
def hexVal (c : UInt8) : Option ℕ :=
  if 0x30 ≤ c ∧ c ≤ 0x39 then some (c.toNat - 0x30)
  else if 0x61 ≤ c ∧ c ≤ 0x66 then some (c.toNat - 0x61 + 10)
  else if 0x41 ≤ c ∧ c ≤ 0x46 then some (c.toNat - 0x41 + 10)
  else none

/-- The digits at the head of a string, accumulated onto `acc`, and what follows them. -/
def scanDigits (acc : ℕ) : List UInt8 → ℕ × List UInt8
  | [] => (acc, [])
  | c :: rest =>
    match hexVal c with
    | some d => scanDigits (16 * acc + d) rest
    | none => (acc, c :: rest)

/-- An unsigned hexadecimal number of at least one digit. -/
def scanUnsigned (s : List UInt8) : Option (ℕ × List UInt8) :=
  match s with
  | [] => none
  | c :: _ => if (hexVal c).isSome then some (scanDigits 0 s) else none

/-- The conversion `%x` of `sscanf` into an `unsigned`: an optional sign, an optional `0x`,
digits. -/
def scanHex (s : List UInt8) : Option (ℕ × List UInt8) :=
  let (neg, s) := match s with
    | 0x2D :: rest => (true, rest)
    | 0x2B :: rest => (false, rest)
    | _ => (false, s)
  let s := match s with
    | 0x30 :: 0x78 :: rest => rest
    | 0x30 :: 0x58 :: rest => rest
    | _ => s
  match scanUnsigned s with
  | none => none
  | some (n, rest) => some (if neg then (2 ^ 32 - n % 2 ^ 32) % 2 ^ 32 else n % 2 ^ 32, rest)

/-- `n` numbers separated by colons. -/
def scanColons : ℕ → List UInt8 → Option (List ℕ)
  | 0, _ => some []
  | 1, s => (scanHex s).map fun r => [r.1]
  | n + 2, s =>
    match scanHex s with
    | some (v, 0x3A :: rest) => (scanColons (n + 1) rest).map (v :: ·)
    | _ => none

/-- `parse_addr`. -/
def parseAddr (s : List UInt8) : Option BdAddr :=
  match scanColons 6 s with
  | some [m0, m1, m2, m3, m4, m5] =>
    if m0 ≤ 0xff ∧ m1 ≤ 0xff ∧ m2 ≤ 0xff ∧ m3 ≤ 0xff ∧ m4 ≤ 0xff ∧ m5 ≤ 0xff then
      some ⟨.ofNat m0, .ofNat m1, .ofNat m2, .ofNat m3, .ofNat m4, .ofNat m5⟩
    else none
  | _ => none

/-- `resolve_node`: by id, else by address. -/
def resolveNode (s : Hub) (ident : NodeId) : Option ℕ :=
  match s.nodeByName ident with
  | some k => some k
  | none =>
    match parseAddr ident with
    | some a => s.findNodeByAddr a
    | none => none

/-! ### Connection table -/

/-- An Access Address that can name a connection. -/
def validAA (aa : UInt32) : Bool := aa != 0 && aa != VBT_ADV_ACCESS_ADDR

/-- `find_conn`. -/
def findConn (s : Hub) (aa : UInt32) : Option ℕ :=
  if validAA aa then s.conns.find? fun c => c.active && c.accessAddr == aa else none

/-- `conn_alloc`. -/
def connAlloc (s : Hub) (aa : UInt32) : Hub × Option ℕ :=
  match s.conns.alloc MAX_CONNS (fun c => !c.active) { accessAddr := aa, active := true } with
  | some (c, conns) => ({ s with conns }, some c)
  | none => (s, none)

/-- The entry of `observe_connect_ind`: the one that has `aa`, or a new one. -/
def connEntry (s : Hub) (aa : UInt32) : Hub × Option ℕ :=
  match s.findConn aa with
  | some c => (s, some c)
  | none =>
    match s.connAlloc aa with
    | (s, some c) => (s.modStats fun st => { st with connsOpened := st.connsOpened + 1 }, some c)
    | (s, none) => (s, none)

/-- The initiator's address in a CONNECT_IND. -/
def indInitA (pdu : List UInt8) : BdAddr := addrAt (fun i => pdu.getD i 0) VBT_CONNIND_INITA_OFF

/-- The advertiser's address in a CONNECT_IND. -/
def indAdvA (pdu : List UInt8) : BdAddr := addrAt (fun i => pdu.getD i 0) VBT_CONNIND_ADVA_OFF

/-- The Access Address in a CONNECT_IND. -/
def indAA (pdu : List UInt8) : UInt32 := le32At (fun i => pdu.getD i 0) VBT_CONNIND_AA_OFF

/-- `observe_connect_ind`. -/
def observeConnectInd (s : Hub) (initiator : Option ℕ) (pdu : List UInt8) : Hub :=
  if pdu.length < VBT_CONNIND_AA_OFF + 4 then s
  else if !validAA (indAA pdu) then s
  else
    let nodeB := s.findNodeByAddr (indAdvA pdu)
    match s.connEntry (indAA pdu) with
    | (s, none) => s.note (.snooped (indAA pdu) initiator nodeB none)
    | (s, some c) =>
      (s.modConn c fun c =>
          { c with nodeA := initiator, nodeB, inita := indInitA pdu, adva := indAdvA pdu }).note
        (.snooped (indAA pdu) initiator nodeB (some c))

/-- The entry is one of those a departing node takes with it. -/
def mentions (k : ℕ) (c : Conn) : Bool := c.active && (c.nodeA == some k || c.nodeB == some k)

/-- `conns_drop_node`. -/
def connsDropNode (s : Hub) (k : ℕ) : Hub :=
  let dropped := (List.range s.conns.size).countP fun i => mentions k (s.conns i)
  ({ s with conns := s.conns.mapBelow fun _ c =>
      if mentions k c then { c with active := false } else c } : Hub).modStats fun st =>
    { st with connsClosed := st.connsClosed + dropped }

/-! ### Overrides -/

/-- `find_override` without `create`. -/
def findOverride (s : Hub) (a b : NodeId) : Option ℕ :=
  s.overrides.find? fun o => o.used && ((o.a == a && o.b == b) || (o.a == b && o.b == a))

/-- `find_override` with `create`. -/
def overrideEntry (s : Hub) (a b : NodeId) : Hub × Option ℕ :=
  match s.findOverride a b with
  | some i => (s, some i)
  | none =>
    match s.overrides.alloc MAX_OVERRIDES (fun o => !o.used)
        { a := a.take (NODE_ID_LEN - 1), b := b.take (NODE_ID_LEN - 1), used := true } with
    | some (i, overrides) => ({ s with overrides }, some i)
    | none => (s, none)

end Hub
end Vbt
