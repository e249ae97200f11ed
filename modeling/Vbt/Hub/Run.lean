import Vbt.Hub.Forward

/-!
# The hub: control commands, events and runs

* `CtlCmd`, `ctlDispatch`: the commands of the control socket that change the medium;
* `Event`, `step`, `run`: what the main loop does to the tables, one event at a time. An iteration
  of the receive loop is an event of its own, so that the states between two messages of one
  `read` are states of a run too;
* `step_rule`: what an event can do, function by function;
* `Reachable`, and the rule `Reachable.invariant`.
-/

namespace Vbt
namespace Hub

/-- A line of the control socket, as `sscanf` reads it. The commands that only report (`LIST_PEERS`,
`LIST_CONNS`, `STATS`, `HELP`, `SAVE_CONFIG`), `QUIT` and unknown ones are `report`; a line whose
arguments do not scan is `bad`. -/
inductive CtlCmd
  | setPos (ident : NodeId) (x y : ℚ) (z : Option ℚ)
  | setTxpower (ident : NodeId) (x : ℚ)
  | setSens (ident : NodeId) (x : ℚ)
  | setRssi (a b : NodeId) (rssi : ℤ)
  | setLoss (a b : NodeId) (p : ℚ)
  | clearLink (a b : NodeId)
  | setPathloss (x : ℚ)
  | report
  | bad

/-- The name that a setting may make a node under. -/
def CtlCmd.ident : CtlCmd → Option NodeId
  | .setPos ident _ _ _ => some ident
  | .setTxpower ident _ => some ident
  | .setSens ident _ => some ident
  | _ => none

/-- The node a setting applies to: an existing one, or a new one of that name. -/
def settingNode (s : Hub) (ident : NodeId) : Hub × Option ℕ :=
  match s.resolveNode ident with
  | some k => (s, some k)
  | none => s.findNode ident true

/-- A setting of one node: `SET_POS`, `SET_TXPOWER`, `SET_SENS`. -/
def setNode (s : Hub) (ident : NodeId) (f : Node → Node) (ok : NodeId → CtlReply) : Hub :=
  match s.settingNode ident with
  | (s, none) => s.note (.reply .nodeTableFull)
  | (s, some k) => (s.modNode k f).note (.reply (ok (s.nodes k).nodeId))

/-- A setting of one link: `SET_RSSI`, `SET_LOSS`. -/
def setLink (s : Hub) (a b : NodeId) (f : LinkOverride → LinkOverride)
    (ok : NodeId → NodeId → CtlReply) : Hub :=
  match s.resolveNode a, s.resolveNode b with
  | some na, some nb =>
    match s.overrideEntry (s.nodes na).nodeId (s.nodes nb).nodeId with
    | (s, none) => s.note (.reply .overrideTableFull)
    | (s, some i) =>
      ({ s with overrides := s.overrides.modify i f } : Hub).note
        (.reply (ok (s.nodes na).nodeId (s.nodes nb).nodeId))
  | _, _ => s.note (.reply .unknownNodes)

/-- `ctl_dispatch`. -/
def ctlDispatch (s : Hub) : CtlCmd → Hub
  | .setPos ident x y z =>
    s.setNode ident (fun nd => { nd with posX := x, posY := y, posZ := z.getD 0, posSet := true })
      fun nid => .pos nid x y (z.getD 0)
  | .setTxpower ident x =>
    s.setNode ident (fun nd => { nd with txPowerDbm := x, txPowerSet := true })
      fun nid => .txpower nid x
  | .setSens ident x =>
    s.setNode ident (fun nd => { nd with rxSensDbm := x }) fun nid => .sensitivity nid x
  | .setRssi a b rssi =>
    s.setLink a b (fun o => { o with rssiSet := true, rssiDbm := rssi })
      fun na nb => .rssi na nb rssi
  | .setLoss a b p =>
    let p := if p < 0 then 0 else if 1 < p then 1 else p
    s.setLink a b (fun o => { o with lossSet := true, lossProb := p }) fun na nb => .loss na nb p
  | .clearLink a b =>
    let s := match s.resolveNode a, s.resolveNode b with
      | some na, some nb =>
        match s.findOverride (s.nodes na).nodeId (s.nodes nb).nodeId with
        | some i => { s with overrides := s.overrides.modify i fun o => { o with used := false } }
        | none => s
      | _, _ => s
    s.note (.reply .cleared)
  | .setPathloss x => ({ s with gPathExponent := x } : Hub).note (.reply (.pathLoss x))
  | .report => s
  | .bad => s.note (.reply .usage)

/-! ### Events -/

/-- What can happen to the hub. -/
inductive Event
  /-- A local socket is accepted (`accept_unix`), or a TCP one (`accept_tcp`), which is a bridge. -/
  | accept (fd : ℕ) (bridge : Bool)
  /-- Upstream hub `i` is connected (`upstream_connect`). -/
  | upstream (i fd : ℕ)
  /-- `read` on the socket of peer `p`. -/
  | recv (p : ℕ) (r : ReadRes)
  /-- One iteration of the receive loop of peer `p`. -/
  | message (p : ℕ) (kern : Kern)
  /-- The socket of peer `p` can be written to again (`peer_flush`). -/
  | flush (p : ℕ) (kern : Kern)
  /-- `poll` reports an error or a hang-up on the socket of peer `p`. -/
  | close (p : ℕ)
  /-- A line on the control socket. -/
  | control (cmd : CtlCmd)

/-- The effect of an event. Events of a slot without a socket do not occur and change nothing. -/
def step (s : Hub) : Event → Hub
  | .accept fd bridge => (s.peerAlloc fd bridge).1
  | .upstream i fd =>
    if i < s.upstream.size ∧ s.upstream i = none then
      match s.peerAlloc fd true with
      | (s, some p) => { s with upstream := s.upstream.set i (some p) }
      | (s, none) => s
    else s
  | .recv p r => if (s.peers p).isOpen then s.recvBytes p r else s
  | .message p kern =>
    if (s.peers p).isOpen then (({ s with kern } : Hub).peerReadableIter p).1 else s
  | .flush p kern => if (s.peers p).isOpen then ({ s with kern } : Hub).peerFlush p else s
  | .close p => s.peerClose p
  | .control cmd => s.ctlDispatch cmd

section Rules

variable {I : Hub → Prop} {s : Hub}

/-- A hello is for a monitor or binds a node, under a name that may have to be made first. -/
theorem takeHello_rule {J : Hub → NodeId → Prop} {p : ℕ} (hello : Hello)
    (auto : J { s with nextAutoId := s.nextAutoId + 1 } (autoName s.nextAutoId))
    (named : J s hello.nid)
    (tap : ∀ t nid, J t nid → I ((t.modPeer p fun q => { q with isMonitor := true }).note
      (.hello p nid hello.physical true none)))
    (bind : ∀ t nid, J t nid → I (t.bindPeerNode p nid hello.physical)) :
    I (s.takeHello p hello) := by
  simp only [takeHello]
  by_cases hnid : hello.nid = []
  · simp only [if_pos hnid]
    split_ifs
    · exact tap _ _ auto
    · exact bind _ _ auto
  · simp only [if_neg hnid]
    split_ifs
    · exact tap _ _ named
    · exact bind _ _ named

/-- A `read` leaves the hub as it is, closes the peer or adds to its buffer. -/
theorem recvBytes_rule {p : ℕ} (r : ReadRes) (start : I s) (close : I (s.peerClose p))
    (buffer : ∀ bytes, I (s.modPeer p fun q => { q with rxbuf := q.rxbuf ++ bytes })) :
    I (s.recvBytes p r) := by
  cases r with
  | again => exact start
  | error => exact close
  | data bytes =>
    simp only [recvBytes]
    split_ifs
    · exact close
    · exact buffer _

/-- An iteration of the receive loop leaves the hub as it is, closes the peer, or handles a message
and then takes it off the buffer. -/
theorem peerReadableIter_rule {p : ℕ} (start : I s) (close : I (s.peerClose p))
    (wrap : ∀ payload, I ((s.handleMessage p payload).note (.rxWrap p)))
    (take : ∀ payload n,
      I ((s.handleMessage p payload).modPeer p fun q => { q with rxbuf := q.rxbuf.drop n })) :
    I (s.peerReadableIter p).1 := by
  simp only [peerReadableIter]
  split_ifs
  · exact start
  · exact close
  · exact start
  · exact wrap _
  · exact take _ _

/-- What holds before an event and after each function that it may call holds after it. -/
theorem step_rule (e : Event) (start : I s) (alloc : ∀ fd bridge, I (s.peerAlloc fd bridge).1)
    (dialled : ∀ t upstream, I t → I { t with upstream })
    (recv : ∀ p r, e = .recv p r → I (s.recvBytes p r))
    (message : ∀ p kern, e = .message p kern → (s.peers p).isOpen = true →
      I (({ s with kern } : Hub).peerReadableIter p).1)
    (flush : ∀ p kern, I (({ s with kern } : Hub).peerFlush p)) (close : ∀ p, I (s.peerClose p))
    (control : ∀ cmd, e = .control cmd → I (s.ctlDispatch cmd)) : I (s.step e) := by
  cases e with
  | accept fd bridge => exact alloc fd bridge
  | upstream i fd =>
    have hp := alloc fd true
    simp only [step]
    split_ifs
    · generalize s.peerAlloc fd true = r at hp
      obtain ⟨t, _ | q⟩ := r
      · exact hp
      · exact dialled t _ hp
    · exact start
  | recv p r =>
    simp only [step]
    split_ifs
    · exact recv p r rfl
    · exact start
  | message p kern =>
    simp only [step]
    split_ifs with ho
    · exact message p kern rfl ho
    · exact start
  | flush p kern =>
    simp only [step]
    split_ifs
    · exact flush p kern
    · exact start
  | close p => exact close p
  | control cmd => exact control cmd rfl

end Rules

/-- The state after a list of events. -/
def run (s : Hub) (es : List Event) : Hub := es.foldl step s

@[simp] theorem run_nil (s : Hub) : s.run [] = s := rfl

@[simp] theorem run_cons (s : Hub) (e : Event) (es : List Event) :
    s.run (e :: es) = (s.step e).run es := rfl

theorem run_append (s : Hub) (es es' : List Event) : s.run (es ++ es') = (s.run es).run es' := by
  simp [run, List.foldl_append]

/-- The states the hub can reach, whatever its clients and its kernel do. -/
def Reachable (s : Hub) : Prop := ∃ n es, s = (Hub.init n).run es

theorem Reachable.init (n : ℕ) : Reachable (Hub.init n) := ⟨n, [], rfl⟩

theorem Reachable.step {s : Hub} (h : Reachable s) (e : Event) : Reachable (s.step e) := by
  obtain ⟨n, es, rfl⟩ := h
  exact ⟨n, es ++ [e], by rw [run_append]; rfl⟩

/-- What holds initially and is kept by every event holds in every reachable state. -/
theorem Reachable.invariant {I : Hub → Prop} (h0 : ∀ n, I (Hub.init n))
    (hstep : ∀ s e, I s → I (s.step e)) {s : Hub} (h : Reachable s) : I s := by
  obtain ⟨n, es, rfl⟩ := h
  induction es using List.reverseRecOn with
  | nil => exact h0 n
  | append_singleton es e ih =>
    rw [run_append]
    exact hstep _ e ih

end Hub
end Vbt
