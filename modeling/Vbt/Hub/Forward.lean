import Vbt.Hub.Tables

/-!
# The hub: sockets, propagation, routing and the receive loop

* `peerClose`, `peerSend`, `peerFlush`: the sockets, with the backlog of a slow consumer;
* `propagate`: the propagation model;
* `bindPeerNode`, `maybeHello`: registration;
* `deliverToPeer`, `forwardFrame`: routing. `forwardFrame` is cut into `ttlStep`, `learnTx`, the
  sweeps over the peer table (`sweep` for monitors and bridges, `fanOut` for advertising), and
  `routeTo` for data;
* `handleMessage`, `peerReadableIter`, `peerReadable`: one message, one iteration of the receive
  loop, the whole function.

The source hands `pdu` around as a pointer into the sender's receive buffer; here it is a value.
-/

namespace Vbt
namespace Hub

/-! ### Sockets -/

/-- `peer_close`. -/
def peerClose (s : Hub) (idx : ℕ) : Hub :=
  if !(s.peers idx).isOpen then s
  else
    let s := match (s.peers idx).nodeIdx with
      | none => s
      | some k =>
        let s := s.modNode k fun nd =>
          { nd with peerIdx := if nd.peerIdx = some idx then none else nd.peerIdx }
        let s := s.connsDropNode k
        s.modNode k fun nd =>
          { nd with active := nd.active && !(nd.autoNamed && nd.addrs.isEmpty) }
    let s := { s with upstream := s.upstream.mapBelow fun _ u => if u = some idx then none else u }
    ({ s with peers := s.peers.set idx Peer.closed } : Hub).note (.closed idx)

/-- How a run of `write` calls on one buffer ends. -/
inductive WriteEnd
  | finished
  | blocked
  | failed
  deriving DecidableEq, Repr

/-- The `write` loop of `peer_send` and `peer_flush`: the number of the `len` bytes that the socket
took, starting at `off`, how the loop ended, and the results that are left. -/
def writeLoop (len : ℕ) : ℕ → List WriteRes → ℕ × WriteEnd × List WriteRes
  | off, ws =>
    if len ≤ off then (off, .finished, ws)
    else
      match ws with
      | [] => (off, .blocked, [])
      | .wrote 0 :: ws => (off, .failed, ws)
      | .wrote (n + 1) :: ws => writeLoop len (off + min (n + 1) (len - off)) ws
      | .eintr :: ws => writeLoop len off ws
      | .eagain :: ws => (off, .blocked, ws)
      | .error :: ws => (off, .failed, ws)

/-- Take the remaining results of the `write` calls on a slot into the environment. -/
def setWrites (s : Hub) (idx : ℕ) (ws : List WriteRes) : Hub :=
  { s with kern := { s.kern with write := fun i => if i = idx then ws else s.kern.write i } }

/-- The second half of `peer_send`: `data` joins the backlog. -/
def bufferRest (s : Hub) (idx : ℕ) (data : List UInt8) : Hub × Bool :=
  let p := s.peers idx
  if p.outbuf = none && !s.kern.malloc idx then (s.peerClose idx, false)
  else
    let used := p.outbuf.getD []
    if SEND_BUF_SIZE < used.length + data.length then
      (((s.modPeer idx fun p =>
          { p with outbuf := some used, txDropped := p.txDropped + 1 }).modStats fun st =>
        { st with droppedBackpressure := st.droppedBackpressure + 1 }).note (.dropped idx), false)
    else
      (s.modPeer idx fun p => { p with outbuf := some (used ++ data), wantWrite := true }, true)

/-- `peer_send`. -/
def peerSend (s : Hub) (idx : ℕ) (data : List UInt8) : Hub × Bool :=
  let p := s.peers idx
  if !p.isOpen then (s, false)
  else if (p.outbuf.getD []).isEmpty then
    let (off, ending, ws) := writeLoop data.length 0 (s.kern.write idx)
    let s := (s.setWrites idx ws).note (.wrote idx (data.take off))
    match ending with
    | .failed => (s.peerClose idx, false)
    | .finished => (s, true)
    | .blocked => s.bufferRest idx (data.drop off)
  else s.bufferRest idx data

/-- `peer_flush`. -/
def peerFlush (s : Hub) (idx : ℕ) : Hub :=
  let p := s.peers idx
  let used := p.outbuf.getD []
  if !p.isOpen || used.isEmpty then s.modPeer idx fun p => { p with wantWrite := false }
  else
    let (off, ending, ws) := writeLoop used.length 0 (s.kern.write idx)
    let s := (s.setWrites idx ws).note (.wrote idx (used.take off))
    match ending with
    | .failed => s.peerClose idx
    | _ => s.modPeer idx fun p =>
        { p with outbuf := some (used.drop off), wantWrite := !(used.drop off).isEmpty }

/-! ### Propagation -/

/-- The outcome of `propagate`: whether the receiver hears the PDU, the RSSI it sees, and the
environment after the random draws. -/
structure Heard where
  ok : Bool
  rssi : ℤ
  kern : Kern

/-- The conversion of a `double` to `int`. -/
def truncInt (q : ℚ) : ℤ := if q < 0 then -⌊-q⌋ else ⌊q⌋

/-- `lround`: to the nearest integer, halves away from zero. -/
def lround (q : ℚ) : ℤ := if q < 0 then -⌊-q + 1 / 2⌋ else ⌊q + 1 / 2⌋

/-- The log-distance model, the last part of `propagate`. -/
def pathModel (s : Hub) (kern : Kern) (tx rx : Node) (frameTxpower : Int8) (out : ℤ) : Heard :=
  if !tx.posSet || !rx.posSet then ⟨true, out, kern⟩
  else
    let dx := tx.posX - rx.posX
    let dy := tx.posY - rx.posY
    let dz := tx.posZ - rx.posZ
    let d := kern.sqrt (dx * dx + dy * dy + dz * dz)
    let d := if d < 1 then 1 else d
    let txp := if tx.txPowerSet then tx.txPowerDbm else (frameTxpower.toInt : ℚ)
    let rssi := txp - (40 + 10 * s.gPathExponent * kern.log10 (d / 1))
    ⟨decide (rx.rxSensDbm ≤ rssi), min (max (lround rssi) (-128)) 20, kern⟩

/-- `propagate`. -/
def propagate (s : Hub) (tx : Option Node) (rx : Node) (frameTxpower frameRssi : Int8) : Heard :=
  let out : ℤ := if frameRssi ≠ 0 then frameRssi.toInt else VBT_DEFAULT_RSSI.toInt
  match tx with
  | none => ⟨true, out, s.kern⟩
  | some tx =>
    if tx.physical || rx.physical then ⟨true, frameRssi.toInt, s.kern⟩
    else
      match s.findOverride tx.nodeId rx.nodeId with
      | none => s.pathModel s.kern tx rx frameTxpower out
      | some i =>
        let o := s.overrides i
        -- a draw is made only for a positive loss probability
        let draws := o.lossSet && decide (0 < o.lossProb)
        let kern := if draws then { s.kern with rand := s.kern.rand.tail } else s.kern
        let lost := draws && decide (((s.kern.rand.headD 0 : ℕ) : ℚ) / RAND_MAX < o.lossProb)
        if lost then ⟨false, out, kern⟩
        else if o.rssiSet then ⟨decide (truncInt rx.rxSensDbm ≤ o.rssiDbm), o.rssiDbm, kern⟩
        else s.pathModel kern tx rx frameTxpower out

/-! ### Registration -/

/-- The update of the two tables in `bind_peer_node`, once the node is found. -/
def bindTables (s : Hub) (pidx k : ℕ) (physical : Bool) : Hub :=
  let s := match (s.nodes k).peerIdx with
    | some q => if q ≠ pidx then s.modPeer q fun p => { p with nodeIdx := none } else s
    | none => s
  let s := s.modNode k fun nd => { nd with peerIdx := some pidx, physical }
  s.modPeer pidx fun p => { p with nodeIdx := some k }

/-- `bind_peer_node`. -/
def bindPeerNode (s : Hub) (pidx : ℕ) (nid : NodeId) (physical : Bool) : Hub :=
  match s.findNode nid true with
  | (s, none) => s.note (.hello pidx nid physical false none)
  | (s, some k) => (s.bindTables pidx k physical).note (.hello pidx nid physical false (some k))

/-- A decoded hello. -/
structure Hello where
  nid : NodeId
  physical : Bool
  monitor : Bool
  deriving DecidableEq, Repr

/-- The decoding of `maybe_hello`: the id up to its NUL or `NODE_ID_LEN - 1` bytes, then, after the
NUL if there is one, the flags. `none` when the payload is not a hello. -/
def parseHello (payload : List UInt8) : Option Hello :=
  if payload.length < 5 then none
  else if le32At (fun i => payload.getD i 0) 0 ≠ VBT_HELLO_MAGIC then none
  else
    let nid := ((payload.drop 4).takeWhile (· ≠ 0)).take (NODE_ID_LEN - 1)
    let rest := payload.drop (4 + nid.length)
    let rest := match rest with
      | 0 :: rest => rest
      | _ => rest
    let flags := rest.headD 0
    some ⟨nid, flags &&& VBT_HELLO_FLAG_PHYSICAL ≠ 0, flags &&& VBT_HELLO_FLAG_MONITOR ≠ 0⟩

/-- The name of an anonymous node, `"node%d"` in an array of `NODE_ID_LEN` bytes. -/
def autoName (n : ℕ) : NodeId :=
  let name : NodeId := [0x6E, 0x6F, 0x64, 0x65] ++
    (Nat.toDigits 10 n).map fun c => UInt8.ofNat c.toNat
  name.take (NODE_ID_LEN - 1)

/-- The part of `maybe_hello` after the decoding. -/
def takeHello (s : Hub) (pidx : ℕ) (h : Hello) : Hub :=
  let (s, nid) :=
    if h.nid = [] then ({ s with nextAutoId := s.nextAutoId + 1 }, autoName s.nextAutoId)
    else (s, h.nid)
  if h.monitor then
    (s.modPeer pidx fun p => { p with isMonitor := true }).note
      (.hello pidx nid h.physical true none)
  else s.bindPeerNode pidx nid h.physical

/-- `maybe_hello`; `none` stands for the return value 0. -/
def maybeHello (s : Hub) (pidx : ℕ) (payload : List UInt8) : Option Hub :=
  (parseHello payload).map (s.takeHello pidx)

/-! ### Routing -/

/-- `deliver_to_peer`. -/
def deliverToPeer (s : Hub) (dst : ℕ) (hdr : VbtFrameHdr) (pdu : List UInt8) (rssi : ℤ) : Hub :=
  let f : Frame := ⟨{ hdr with rssi := Int8.ofInt rssi }, pdu⟩
  match (s.note (.hand dst f)).peerSend dst (wire f.payload) with
  | (s, false) => s
  | (s, true) =>
    match (s.peers dst).nodeIdx with
    | some k => s.modNode k fun nd => { nd with rxPdus := nd.rxPdus + 1 }
    | none => s

/-- The TTL at the head of `forward_frame`: a bridge's frame expires or counts down, a local one
starts at 8. -/
def ttlStep (bridge : Bool) (hdr : VbtFrameHdr) : Option VbtFrameHdr :=
  if bridge then
    if hdr.flags.b3 = 0 then none
    else some { hdr with flags := { hdr.flags with b3 := hdr.flags.b3 - 1 } }
  else some { hdr with flags := { hdr.flags with b3 := 8 } }

/-- The block `if (tx)` of `forward_frame`. -/
def learnTx (s : Hub) (srcNode : Option ℕ) (hdr : VbtFrameHdr) : Hub :=
  match srcNode with
  | none => s
  | some k =>
    (s.modNode k fun nd =>
      { nd with txPdus := nd.txPdus + 1, lastChannel := hdr.channel, lastPhy := hdr.phy }).nodeAddAddr
        k hdr.txAddr

/-- A loop over the peer table that hands the frame to every open peer but the source that
`sel` selects. -/
def sweep (s : Hub) (sel : Peer → Bool) (src : ℕ) (hdr : VbtFrameHdr) (pdu : List UInt8) : Hub :=
  (List.range s.peers.size).foldl (fun s i =>
    if i ≠ src && (s.peers i).isOpen && sel (s.peers i) then
      s.deliverToPeer i hdr pdu hdr.rssi.toInt
    else s) s

/-- The delivery to peer `dst` of node `k` subject to `propagate`, as both the broadcast and the
routing of data make it: what the node does not hear is counted as dropped. -/
def deliverHeard (s : Hub) (srcNode : Option ℕ) (k dst : ℕ) (hdr : VbtFrameHdr) (pdu : List UInt8) :
    Hub :=
  let h := s.propagate (srcNode.map s.nodes) (s.nodes k) hdr.txPowerDbm hdr.rssi
  let s := { s with kern := h.kern }
  if h.ok then s.deliverToPeer dst hdr pdu h.rssi
  else
    (s.modNode k fun nd => { nd with rxDropped := nd.rxDropped + 1 }).modStats fun st =>
      { st with droppedModel := st.droppedModel + 1 }

/-- One iteration of the broadcast loop of `forward_frame`. -/
def fanOutOne (s : Hub) (src : ℕ) (srcNode : Option ℕ) (hdr : VbtFrameHdr) (pdu : List UInt8)
    (i : ℕ) : Hub :=
  if i = src || !(s.peers i).isOpen then s
  else if (s.peers i).isBridge then s.deliverToPeer i hdr pdu hdr.rssi.toInt
  else
    match (s.peers i).nodeIdx with
    | none => s
    | some k => s.deliverHeard srcNode k i hdr pdu

/-- The broadcast loop of `forward_frame`. -/
def fanOut (s : Hub) (src : ℕ) (srcNode : Option ℕ) (hdr : VbtFrameHdr) (pdu : List UInt8) : Hub :=
  (List.range s.peers.size).foldl (fun s i => s.fanOutOne src srcNode hdr pdu i) s

/-- The PDU is a CONNECT_IND, as `forward_frame` tests it. -/
def isConnectInd (pdu : List UInt8) : Bool :=
  decide (2 ≤ pdu.length) && (pdu.getD 0 0 &&& VBT_ADV_PDU_TYPE_MASK) == VBT_CONNECT_IND

/-- The branch `VBT_LL_ADV` of `forward_frame`. -/
def forwardAdv (s : Hub) (src : ℕ) (srcNode : Option ℕ) (hdr : VbtFrameHdr) (pdu : List UInt8) :
    Hub :=
  let s := if isConnectInd pdu then s.observeConnectInd srcNode pdu else s
  (s.fanOut src srcNode hdr pdu).modStats fun st =>
    { st with advForwarded := st.advForwarded + 1 }

/-- The endpoint a data PDU is routed to. -/
def otherEnd (srcNode : Option ℕ) (c : Conn) : Option ℕ :=
  if srcNode.isSome && c.nodeA == srcNode then c.nodeB
  else if srcNode.isSome && c.nodeB == srcNode then c.nodeA
  else if c.nodeA = srcNode then c.nodeB else c.nodeA

/-- The delivery of a data PDU to endpoint `other`, if it is online. -/
def routeTo (s : Hub) (srcNode other : Option ℕ) (hdr : VbtFrameHdr) (pdu : List UInt8) : Hub :=
  match other with
  | none => s
  | some o =>
    if !(s.nodes o).active then s
    else
      match (s.nodes o).peerIdx with
      | none => s
      | some dst => s.deliverHeard srcNode o dst hdr pdu

/-- The branch `VBT_LL_DATA` of `forward_frame`. -/
def forwardData (s : Hub) (src : ℕ) (srcNode : Option ℕ) (hdr : VbtFrameHdr) (pdu : List UInt8) :
    Hub :=
  match s.findConn hdr.accessAddr with
  | none => s.sweep Peer.isBridge src hdr pdu
  | some c =>
    let other := otherEnd srcNode (s.conns c)
    let s := s.modConn c fun c => { c with pdus := c.pdus + 1 }
    let s := s.routeTo srcNode other hdr pdu
    let s := s.sweep Peer.isBridge src hdr pdu
    s.modStats fun st => { st with dataForwarded := st.dataForwarded + 1 }

/-- `forward_frame`. -/
def forwardFrame (s : Hub) (src : ℕ) (hdr : VbtFrameHdr) (pdu : List UInt8) : Hub :=
  let srcNode := (s.peers src).nodeIdx
  match ttlStep (s.peers src).isBridge hdr with
  | none => s
  | some hdr =>
    let s := (s.learnTx srcNode hdr).note (.frame src hdr pdu)
    let s := s.sweep Peer.isMonitor src hdr pdu
    if hdr.llType = VBT_LL_ADV then s.forwardAdv src srcNode hdr pdu
    else if hdr.llType = VBT_LL_DATA then s.forwardData src srcNode hdr pdu
    else s

/-! ### Receiving -/

/-- The checks of `peer_readable` on a message that is not a hello: the frame to forward. -/
def frameOf (payload : List UInt8) : Option Frame :=
  let hdr := hdrOfBytes fun i => payload.getD i 0
  let pduLen := payload.length - VBT_HDR_SIZE
  if VBT_HDR_SIZE ≤ payload.length ∧ hdr.magic = VBT_MAGIC ∧ pduLen = hdr.pduLen.toNat ∧
      pduLen ≤ VBT_MAX_PDU_SIZE then
    some ⟨hdr, payload.drop VBT_HDR_SIZE⟩
  else none

/-- One message of peer `idx`: a hello, or a frame that passes the checks of `peer_readable`. -/
def handleMessage (s : Hub) (idx : ℕ) (payload : List UInt8) : Hub :=
  let s := s.modPeer idx fun p => { p with framesSeen := p.framesSeen + 1 }
  match s.maybeHello idx payload with
  | some s => s
  | none =>
    match frameOf payload with
    | some f => s.forwardFrame idx f.hdr f.pdu
    | none => s

/-- The length in front of the message at the head of a receive buffer. -/
def headLen (buf : List UInt8) : ℕ :=
  be32 (buf.getD 0 0) (buf.getD 1 0) (buf.getD 2 0) (buf.getD 3 0)

/-- One iteration of the loop of `peer_readable`, and whether the loop goes on. When the buffer
was cleared while the message was handled, the unsigned `p->rxused -= total` wraps: the
iteration is recorded as `rxWrap` and the loop is left. -/
def peerReadableIter (s : Hub) (idx : ℕ) : Hub × Bool :=
  let buf := (s.peers idx).rxbuf
  if buf.length < 4 then (s, false)
  else
    let plen := headLen buf
    if VBT_MAX_MSG_SIZE < plen then (s.peerClose idx, false)
    else if buf.length < 4 + plen then (s, false)
    else
      let s := s.handleMessage idx ((buf.drop 4).take plen)
      if (s.peers idx).rxbuf.length < 4 + plen then (s.note (.rxWrap idx), false)
      else (s.modPeer idx fun p => { p with rxbuf := p.rxbuf.drop (4 + plen) }, true)

/-- The loop of `peer_readable`; every iteration that goes on takes at least four bytes off the
buffer, so its length bounds their number. -/
def peerReadableLoop (idx : ℕ) : ℕ → Hub → Hub
  | 0, s => s
  | n + 1, s =>
    match s.peerReadableIter idx with
    | (s, true) => peerReadableLoop idx n s
    | (s, false) => s

/-- What the `read` of `peer_readable` can return. -/
inductive ReadRes
  | data (bytes : List UInt8)
  | again
  | error
  deriving DecidableEq, Repr

/-- The `read` at the head of `peer_readable`. At most the free part of the buffer is filled, and a
read of nothing is the end of the stream. -/
def recvBytes (s : Hub) (idx : ℕ) (r : ReadRes) : Hub :=
  match r with
  | .again => s
  | .error => s.peerClose idx
  | .data bytes =>
    let got := bytes.take (VBT_RXBUF_SIZE - (s.peers idx).rxbuf.length)
    if got.isEmpty then s.peerClose idx
    else s.modPeer idx fun p => { p with rxbuf := p.rxbuf ++ got }

/-- `peer_readable`. -/
def peerReadable (s : Hub) (idx : ℕ) (r : ReadRes) : Hub :=
  let s := s.recvBytes idx r
  match r with
  | .data _ => peerReadableLoop idx (s.peers idx).rxbuf.length s
  | _ => s

/-! ### Accepting -/

/-- `peer_alloc`. -/
def peerAlloc (s : Hub) (fd : ℕ) (isBridge : Bool) : Hub × Option ℕ :=
  match s.peers.alloc MAX_PEERS (fun p => !p.isOpen) { fd := some fd, isBridge } with
  | some (i, peers) => (({ s with peers } : Hub).note (.opened i isBridge), some i)
  | none => (s, none)

end Hub
end Vbt
