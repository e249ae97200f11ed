import Vbt.Core.Emission
import Vbt.Hub.Undisturbed

/-!
# Two cores and a hub

Two cores are attached to a hub by two sockets. What a core sends is written to its socket; the hub
reads the socket in pieces of any size and handles one message at a time; what it hands to the peer
of a core waits there until the core takes it. Hosts, timers, reads, messages and deliveries happen
in any order.

* `Net`, `Net.Move`, `Net.step`, `Net.run`: the system;
* `Attached`: a hub to which both peers have said hello;
* `Net.handed`, `Net.Admissible`: what is observed of a run, and what is assumed of it;
* `Cross`: the medium without a hub, where each core is given what the other one sends.
-/

namespace Vbt

open VbtLl

/-- The two sides. -/
inductive Side
  | left
  | right
  deriving DecidableEq, Repr

/-- The opposite side. -/
def Side.other : Side → Side
  | .left => .right
  | .right => .left

@[simp] theorem Side.other_other (x : Side) : x.other.other = x := by
  cases x <;> rfl

theorem Side.other_ne (x : Side) : x.other ≠ x := by
  cases x <;> decide

theorem Side.eq_or (x y : Side) : y = x ∨ y = x.other := by
  cases x <;> cases y <;> simp [Side.other]

/-- What a core looks at of a frame. -/
def Frame.view (f : Frame) : UInt8 × UInt32 × Int8 × List UInt8 :=
  (f.hdr.llType, f.hdr.accessAddr, f.hdr.rssi, f.pdu)

/-- A frame as it is written to a socket. -/
def Frame.packet (f : Frame) : List UInt8 := wire f.payload

/-- The frame is a CONNECT_IND. -/
def Frame.isInd (f : Frame) : Bool :=
  f.hdr.llType = VBT_LL_ADV ∧ pduType f.pdu = VBT_CONNECT_IND

/-- A socket was closed or a message dropped. -/
def Act.isFailure : Act → Bool
  | .closed _ => true
  | .dropped _ => true
  | _ => false

/-- A hub and two cores. `peer` is the slot of the socket of each core, `sock` holds what a core has
written and the hub has not read, `inbox` what the hub handed over and the core has not taken. -/
structure Net where
  hub : Hub
  peer : Side → ℕ
  core : Side → VbtLl
  sock : Side → List UInt8
  inbox : Side → List Frame

namespace Net

/-- The state in which the two cores are created. -/
def start (hub : Hub) (peer : Side → ℕ) (addr : Side → BdAddr) : Net where
  hub := hub
  peer := peer
  core x := vbtLlNew (addr x)
  sock _ := []
  inbox _ := []

/-- The frames that a call adds to those a core has sent. -/
def sends (ll : VbtLl) (i : Input) : List Frame := (ll.step i).frames.drop ll.frames.length

/-- Core `x` handles a call and writes what it sends to its socket. -/
def call (n : Net) (x : Side) (i : Input) : Net :=
  { n with
    core := Function.update n.core x ((n.core x).step i)
    sock := Function.update n.sock x (n.sock x ++ (sends (n.core x) i).flatMap Frame.packet) }

/-- The hub handles an event. -/
def event (n : Net) (e : Hub.Event) : Net :=
  { n with
    hub := n.hub.step e
    inbox := fun y => n.inbox y ++ (Hub.handsTo (n.peer y) (Hub.did n.hub (n.hub.step e))).reverse }

/-- What can happen. -/
inductive Move
  /-- The host of core `x` sends a packet. -/
  | host (x : Side) (pkt : Mem) (len : ℕ)
  /-- The timer of core `x`. -/
  | tick (x : Side) (nowMs : UInt64)
  /-- The hub reads at most `k` bytes from the socket of core `x`. -/
  | read (x : Side) (k : ℕ)
  /-- One iteration of the receive loop for core `x`. -/
  | message (x : Side) (kern : Kern)
  /-- The socket to core `x` can be written to again. -/
  | flush (x : Side) (kern : Kern)
  /-- Core `x` takes a frame. -/
  | deliver (x : Side) (junk : Mem)

/-- The bytes a `read` returns: no more than asked for, than there are, and than fit the buffer. -/
def chunk (n : Net) (x : Side) (k : ℕ) : List UInt8 :=
  (n.sock x).take (min k (VBT_RXBUF_SIZE - (n.hub.peers (n.peer x)).rxbuf.length))

/-- The effect of a move. A `read` that would return nothing does not happen: `poll` reports a
socket only when there is something to read, and the loop leaves room in the buffer. -/
def step (n : Net) : Move → Net
  | .host x pkt len => n.call x (.hci pkt len)
  | .tick x nowMs => n.call x (.tick nowMs)
  | .read x k =>
    if n.chunk x k = [] then n
    else
      { n.event (.recv (n.peer x) (.data (n.chunk x k))) with
        sock := Function.update n.sock x ((n.sock x).drop (n.chunk x k).length) }
  | .message x kern => n.event (.message (n.peer x) kern)
  | .flush x kern => n.event (.flush (n.peer x) kern)
  | .deliver x junk =>
    match n.inbox x with
    | [] => n
    | f :: rest => { n.call x (fromMedium junk f) with inbox := Function.update n.inbox x rest }

/-- The state after a list of moves. -/
def run (n : Net) (ms : List Move) : Net := ms.foldl step n

@[simp] theorem run_nil (n : Net) : n.run [] = n := rfl

/-! ### Observations -/

/-- What the hub has handed to the peer of core `x`, oldest first. -/
def handed (n : Net) (x : Side) : List Frame := (Hub.handsTo (n.peer x) n.hub.log).reverse

/-- The source addresses a core has used. -/
def sources (n : Net) (x : Side) : Finset BdAddr :=
  ((n.core x).frames.map fun f => f.hdr.txAddr).toFinset

/-- The number of CONNECT_INDs sent. -/
def inds (n : Net) : ℕ :=
  (n.core .left).frames.countP Frame.isInd + (n.core .right).frames.countP Frame.isInd

/-- What is assumed of a run, of the state it ends in: no socket was closed and no message dropped,
the two cores used disjoint sets of at most eight source addresses, and at most 512 CONNECT_INDs
were sent. -/
structure Admissible (n : Net) : Prop where
  quiet : ∀ a ∈ n.hub.log, a.isFailure = false
  few : ∀ x, (n.sources x).card ≤ 8
  disjoint : Disjoint (n.sources .left) (n.sources .right)
  inds : n.inds ≤ 512

/-- **What core `x` sent is what its counterpart was handed**, in order and once each, except what
is still in the socket or in the hub's receive buffer. -/
def Relays (n : Net) (x : Side) : Prop :=
  ∃ pending : List Frame,
    (n.hub.peers (n.peer x)).rxbuf ++ n.sock x = pending.flatMap Frame.packet ∧
      (n.handed x.other).map Frame.view ++ pending.map Frame.view = (n.core x).frames.map Frame.view

end Net

/-! ### Attaching -/

/-- The actions of setting up the medium. -/
def Act.isSetup : Act → Bool
  | .opened _ _ => true
  | .named _ _ => true
  | .hello _ _ _ _ _ => true
  | _ => false

/-- Two peers have been accepted and have each said hello once, under different node ids, and
nothing else has happened. -/
structure Attached (hub : Hub) (peer node : Side → ℕ) : Prop where
  reachable : Hub.Reachable hub
  live : ∀ x, hub.Live (peer x) (node x)
  distinct : node .left ≠ node .right
  oneHello : Router.OneHello hub.log
  setup : ∀ a ∈ hub.log, a.isSetup = true
  plain : Hub.Plain hub
  rxbuf : ∀ x, (hub.peers (peer x)).rxbuf = []

/-! ### The medium without a hub -/

/-- Two cores, each with the queue of what the other one sent. -/
structure Cross where
  core : Side → VbtLl
  queue : Side → List Frame

namespace Cross

/-- The state in which the two cores are created. -/
def start (addr : Side → BdAddr) : Cross where
  core x := vbtLlNew (addr x)
  queue _ := []

/-- Core `x` handles a call, and what it sends goes to the other one. -/
def call (c : Cross) (x : Side) (i : Input) : Cross where
  core := Function.update c.core x ((c.core x).step i)
  queue := Function.update c.queue x.other (c.queue x.other ++ Net.sends (c.core x) i)

/-- What can happen. -/
inductive Move
  | host (x : Side) (pkt : Mem) (len : ℕ)
  | tick (x : Side) (nowMs : UInt64)
  | deliver (x : Side) (junk : Mem)

/-- The effect of a move. -/
def step (c : Cross) : Move → Cross
  | .host x pkt len => c.call x (.hci pkt len)
  | .tick x nowMs => c.call x (.tick nowMs)
  | .deliver x junk =>
    match c.queue x with
    | [] => c
    | f :: rest => ({ c with queue := Function.update c.queue x rest } : Cross).call x (fromMedium junk f)

/-- The state after a list of moves. -/
def run (c : Cross) (ms : List Move) : Cross := ms.foldl step c

end Cross

end Vbt
