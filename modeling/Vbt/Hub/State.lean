import Vbt.Lib.Slots
import Vbt.Wire.Frame
import Mathlib.Data.Rat.Floor

/-!
# The medium hub (`vbt_medium.c`): data model

The hub is one process with static tables: nodes (named endpoints, which survive a reconnection),
peers (live sockets), connections (an Access Address and its two endpoint nodes) and per-link
overrides. An index that the source keeps as an `int` with `-1` for "none" is an `Option ℕ` here.

* `Node`, `Peer`, `Conn`, `LinkOverride`, `Stats`: the records of the tables;
* `Kern`: what the environment answers while one event is handled (results of `write`, `malloc`
  and `rand`, and the two `libm` functions of the propagation model);
* `Act`: what the hub does, written to `Hub.log`, newest first. The source prints most of these
  to `stderr`; here they are the history that theorems about runs speak of;
* `Hub`: the whole state, with `Hub.init`.

Quantities the source keeps as `double` are rationals.
-/

namespace Vbt

def MAX_PEERS : ℕ := 300
def MAX_NODES : ℕ := 300
def MAX_CONNS : ℕ := 512
def MAX_ADDRS_PER_NODE : ℕ := 8
def MAX_OVERRIDES : ℕ := 1024
def NODE_ID_LEN : ℕ := 64
def SEND_BUF_SIZE : ℕ := 256 * 1024
def RAND_MAX : ℕ := 2147483647

/-- A C string without its terminator. -/
abbrev NodeId := List UInt8

/-- `struct node`. The first `num_addrs` entries of `addrs` are the list `addrs`. -/
structure Node where
  nodeId : NodeId := []
  addrs : List BdAddr := []
  posX : ℚ := 0
  posY : ℚ := 0
  posZ : ℚ := 0
  posSet : Bool := false
  txPowerDbm : ℚ := 0
  txPowerSet : Bool := false
  rxSensDbm : ℚ := 0
  peerIdx : Option ℕ := none
  active : Bool := false
  physical : Bool := false
  autoNamed : Bool := false
  lastChannel : UInt8 := 0
  lastPhy : UInt8 := 0
  txPdus : ℕ := 0
  rxPdus : ℕ := 0
  rxDropped : ℕ := 0

/-- `struct peer`. `rxbuf` holds the first `rxused` bytes of the receive buffer; `outbuf` is `none`
until the backlog is allocated and then holds its first `outused` bytes. -/
structure Peer where
  fd : Option ℕ := none
  rxbuf : List UInt8 := []
  outbuf : Option (List UInt8) := none
  wantWrite : Bool := false
  isBridge : Bool := false
  isMonitor : Bool := false
  nodeIdx : Option ℕ := none
  framesSeen : ℕ := 0
  txDropped : ℕ := 0

/-- A slot without a socket: zeroed, with `fd = -1` and `node_idx = -1`. -/
def Peer.closed : Peer := {}

/-- `p->fd >= 0`. -/
def Peer.isOpen (p : Peer) : Bool := p.fd.isSome

/-- `struct conn`. -/
structure Conn where
  accessAddr : UInt32 := 0
  nodeA : Option ℕ := none
  nodeB : Option ℕ := none
  active : Bool := false
  pdus : ℕ := 0
  inita : BdAddr := BdAddr.zero
  adva : BdAddr := BdAddr.zero

/-- `struct link_override`. -/
structure LinkOverride where
  a : NodeId := []
  b : NodeId := []
  rssiSet : Bool := false
  rssiDbm : ℤ := 0
  lossSet : Bool := false
  lossProb : ℚ := 0
  used : Bool := false

/-- The global counters. -/
structure Stats where
  advForwarded : ℕ := 0
  dataForwarded : ℕ := 0
  droppedModel : ℕ := 0
  droppedBackpressure : ℕ := 0
  connsOpened : ℕ := 0
  connsClosed : ℕ := 0

/-- What a `write` on a socket can return. -/
inductive WriteRes
  | wrote (n : ℕ)
  | eintr
  | eagain
  | error
  deriving DecidableEq, Repr

/-- The environment during one event: for each peer slot the results of the `write` calls to come
(after the last one the socket would block) and whether its backlog can be allocated; the values
of `rand`; and `libm`. -/
structure Kern where
  write : ℕ → List WriteRes
  malloc : ℕ → Bool
  rand : List ℕ
  sqrt : ℚ → ℚ
  log10 : ℚ → ℚ

/-- The answers of the control socket. The arguments are those of the `printf`. -/
inductive CtlReply
  | usage
  | nodeTableFull
  | unknownNodes
  | overrideTableFull
  | pos (nid : NodeId) (x y z : ℚ)
  | txpower (nid : NodeId) (x : ℚ)
  | sensitivity (nid : NodeId) (x : ℚ)
  | rssi (a b : NodeId) (dbm : ℤ)
  | loss (a b : NodeId) (prob : ℚ)
  | cleared
  | pathLoss (exponent : ℚ)
  deriving DecidableEq

/-- What the hub does. -/
inductive Act
  /-- `peer_alloc` opened slot `p`. -/
  | opened (p : ℕ) (bridge : Bool)
  /-- `peer_close` closed slot `p`. -/
  | closed (p : ℕ)
  /-- `find_node` created entry `k`. -/
  | named (k : ℕ) (nid : NodeId)
  /-- `maybe_hello` took a hello of peer `p`; `node` is the node it is bound to by it. -/
  | hello (p : ℕ) (nid : NodeId) (physical monitor : Bool) (node : Option ℕ)
  /-- `forward_frame` forwards a frame of peer `src`. -/
  | frame (src : ℕ) (hdr : VbtFrameHdr) (pdu : List UInt8)
  /-- `observe_connect_ind` processed a CONNECT_IND carrying `aa` from node `a` to node `b`;
  `slot` is the entry it is recorded in, `none` when the table is full. -/
  | snooped (aa : UInt32) (a b : Option ℕ) (slot : Option ℕ)
  /-- `deliver_to_peer` hands a frame to peer `dst`. -/
  | hand (dst : ℕ) (f : Frame)
  /-- The socket of peer `p` took `bytes`. -/
  | wrote (p : ℕ) (bytes : List UInt8)
  /-- `peer_send` dropped a message to peer `p`: its backlog is full. -/
  | dropped (p : ℕ)
  /-- `p->rxused -= total` in `peer_readable` went below zero. -/
  | rxWrap (p : ℕ)
  /-- An answer on the control socket. -/
  | reply (r : CtlReply)
  deriving DecidableEq

/-- The state of the hub. `upstream` holds `upstream_state[i].peer_idx`. -/
structure Hub where
  nodes : Slots Node
  nextAutoId : ℕ
  peers : Slots Peer
  conns : Slots Conn
  overrides : Slots LinkOverride
  upstream : Slots (Option ℕ)
  gPathExponent : ℚ
  stats : Stats
  kern : Kern
  log : List Act

/-- A kernel whose sockets never block and whose random draws are all zero. -/
def Kern.quiet : Kern where
  write _ := List.replicate 64 (.wrote 1000)
  malloc _ := true
  rand := []
  sqrt _ := 0
  log10 _ := 0

/-- The state in which `main` enters its loop, with `n` upstream hubs configured. -/
def Hub.init (n : ℕ) : Hub where
  nodes := ⟨0, fun _ => {}⟩
  nextAutoId := 0
  peers := ⟨0, fun _ => Peer.closed⟩
  conns := ⟨0, fun _ => {}⟩
  overrides := ⟨0, fun _ => {}⟩
  upstream := ⟨n, fun _ => none⟩
  gPathExponent := 2
  stats := {}
  kern := Kern.quiet
  log := []

namespace Hub

/-- Append to the history. -/
def note (s : Hub) (a : Act) : Hub := { s with log := a :: s.log }

/-- Update one peer in place. -/
def modPeer (s : Hub) (i : ℕ) (f : Peer → Peer) : Hub := { s with peers := s.peers.modify i f }

/-- Update one node in place. -/
def modNode (s : Hub) (k : ℕ) (f : Node → Node) : Hub := { s with nodes := s.nodes.modify k f }

/-- Update one connection in place. -/
def modConn (s : Hub) (c : ℕ) (f : Conn → Conn) : Hub := { s with conns := s.conns.modify c f }

/-- Update the counters. -/
def modStats (s : Hub) (f : Stats → Stats) : Hub := { s with stats := f s.stats }

end Hub

end Vbt
