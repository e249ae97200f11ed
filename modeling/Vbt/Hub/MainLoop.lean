import Vbt.Hub.Chunks

/-!
# The main loop

An iteration of the main loop asks `poll` about the sockets of all open peers, opens new ones, and
then walks over the slots and the rows of `poll` in step.  The walk is kept in step by a comparison
of descriptors only: slots below it may have been filled since the poll, and peers ahead of it are
closed while a frame is forwarded.

* `Fades`: sockets are closed and none is opened;
* `PollFd`, `pollRows`, `Turn`, `Sweep.visit`, `dispatchLoop`, `iterate`: one iteration;
* `Opened`: what is opened between the poll and the walk has a new descriptor;
* `visit_attributed`, `visit_serviced`: one slot;
* `poll_attributed`: no call is made for a socket that `poll` did not report, and if no slot was
  opened or closed, all that it reported is dealt with.
-/

namespace Vbt
namespace Hub

/-! ### Sockets that go -/

/-- Sockets are closed, and none is opened. -/
structure Fades (s s' : Hub) : Prop where
  size : s'.peers.size = s.peers.size
  fd : ∀ i, (s'.peers i).fd = (s.peers i).fd ∨ (s'.peers i).fd = none

namespace Fades

variable {s s' s'' : Hub}

theorem of_peers (h : s'.peers = s.peers) : Fades s s' :=
  ⟨by rw [h], fun i => Or.inl (by rw [h])⟩

theorem refl (s : Hub) : Fades s s := of_peers rfl

theorem trans (h : Fades s s') (h' : Fades s' s'') : Fades s s'' := by
  refine ⟨h'.size.trans h.size, fun i => ?_⟩
  rcases h'.fd i with heq | hnone
  · rw [heq]
    exact h.fd i
  · exact Or.inr hnone

theorem modPeer (s : Hub) (i : ℕ) {f : Peer → Peer} (hf : ∀ q, (f q).fd = q.fd) :
    Fades s (s.modPeer i f) := ⟨rfl, fun j => Or.inl (Slots.modify_attr _ _ hf i j)⟩

/-- What is as it was in the end was so all the time. -/
theorem squeeze (h : Fades s s') (h' : Fades s' s'')
    (heq : ∀ i, (s''.peers i).fd = (s.peers i).fd) (i : ℕ) : (s'.peers i).fd = (s.peers i).fd := by
  rcases h.fd i with hsame | hnone
  · exact hsame
  · rw [hnone, ← heq i]
    exact ((h'.fd i).elim (fun hs => hs.trans hnone) id).symm

theorem of_lasts (hsize : s'.peers.size = s.peers.size) (h : ∀ p, Lasts p s s') : Fades s s' :=
  ⟨hsize, fun p => (h p).imp And.left And.left⟩

/-- What has a socket had it before. -/
theorem before (h : Fades s s') {i fd : ℕ} (hfd : (s'.peers i).fd = some fd) :
    (s.peers i).fd = some fd := by
  rcases h.fd i with heq | hnone
  · rw [← heq, hfd]
  · rw [hfd] at hnone
    cases hnone

end Fades

theorem peerClose_fades (s : Hub) (idx : ℕ) : Fades s (s.peerClose idx) := by
  refine .of_lasts ?_ fun p => peerClose_lasts s idx
  cases ho : (s.peers idx).isOpen with
  | false => rw [peerClose_of_closed ho]
  | true => rw [peerClose_peers ho, Slots.set_size]

theorem peerFlush_fades (s : Hub) (idx : ℕ) : Fades s (s.peerFlush idx) :=
  .of_lasts (peerFlush_rule (I := fun t => t.peers.size = s.peers.size) s idx rfl (fun _ _ => rfl)
    (fun t ht => (peerClose_fades t idx).size.trans ht) fun _ _ _ ht => ht)
    fun _ => peerFlush_lasts s idx

theorem recvBytes_fades (s : Hub) (idx : ℕ) (r : ReadRes) : Fades s (s.recvBytes idx r) :=
  recvBytes_rule r (.refl s) (peerClose_fades s idx) fun _ => .modPeer s idx fun _ => rfl

theorem peerReadableIter_fades (s : Hub) (idx : ℕ) : Fades s (s.peerReadableIter idx).1 := by
  have hmsg : ∀ payload, Fades s (s.handleMessage idx payload) := fun payload =>
    .of_lasts (receive_size s s.kern idx payload) fun p => receive_lasts s s.kern idx payload
  exact peerReadableIter_rule (.refl s) (peerClose_fades s idx)
    (fun payload => (hmsg payload).trans (.of_peers rfl))
    fun payload _ => (hmsg payload).trans (.modPeer _ idx fun _ => rfl)

theorem peerReadableLoop_fades (idx n : ℕ) (s : Hub) : Fades s (peerReadableLoop idx n s) := by
  induction n generalizing s with
  | zero => exact .refl s
  | succ n ih =>
    have hiter := peerReadableIter_fades s idx
    unfold peerReadableLoop
    generalize s.peerReadableIter idx = r at hiter
    obtain ⟨t, go⟩ := r
    cases go with
    | true => exact hiter.trans (ih t)
    | false => exact hiter

/-- Reading from a peer closes sockets at most, its own and those its frames cannot be written
to. -/
theorem peerReadable_fades (s : Hub) (idx : ℕ) (r : ReadRes) : Fades s (s.peerReadable idx r) := by
  have hrecv := recvBytes_fades s idx r
  unfold peerReadable
  cases r with
  | data bytes => exact hrecv.trans (peerReadableLoop_fades idx _ _)
  | again => exact hrecv
  | error => exact hrecv

/-! ### One iteration -/

/-- The field `revents`. -/
structure Revents where
  pollIn : Bool
  pollOut : Bool
  pollErr : Bool
  pollHup : Bool
  pollNval : Bool
  deriving DecidableEq, Repr

namespace Revents

/-- `re & (POLLERR | POLLHUP | POLLNVAL)`. -/
def broken (re : Revents) : Bool := re.pollErr || re.pollHup || re.pollNval

/-- Something is reported. -/
def pending (re : Revents) : Bool := re.broken || re.pollOut || re.pollIn

end Revents

/-- `struct pollfd`, for a peer. -/
structure PollFd where
  fd : Option ℕ
  /-- POLLOUT is asked for besides POLLIN. -/
  wantWrite : Bool
  revents : Revents
  deriving DecidableEq, Repr

/-- The slots that have a row, in the order of their rows. -/
def openSlots (s : Hub) : List ℕ := (List.range s.peers.size).filter fun i => (s.peers i).isOpen

/-- The rows of the peers, from `peer_base` to `ctl_base`. -/
def pollRows (s : Hub) (revents : ℕ → Revents) : List PollFd :=
  s.openSlots.mapIdx fun row i => ⟨(s.peers i).fd, (s.peers i).wantWrite, revents row⟩

/-- What the kernel does in the calls for one slot. -/
structure Service where
  flush : Kern
  read : Kern
  result : ReadRes

/-- What happens to the hub in one iteration. A `poll` that times out reports nothing. -/
structure Turn where
  /-- What `poll` reports in the rows of the peers. -/
  revents : ℕ → Revents
  /-- The upstream hubs that `upstream_tick` connects, and the new descriptors. -/
  upstreams : List (ℕ × ℕ)
  /-- The descriptor that `accept_unix` gets. -/
  unix : Option ℕ
  /-- The descriptor that `accept_tcp` gets. -/
  tcp : Option ℕ
  service : ℕ → Service

/-- What is opened after `poll`. -/
def Turn.openings (t : Turn) : List Event :=
  t.upstreams.map (fun u => .upstream u.1 u.2) ++ t.unix.toList.map (.accept · false) ++
    t.tcp.toList.map (.accept · true)

/-- The calls of the dispatch loop. -/
inductive Call
  | close
  | flush
  | read
  deriving DecidableEq, Repr

/-- What is reported when a call is made. -/
def Call.asked : Call → Revents → Bool
  | .close, re => re.broken
  | .flush, re => !re.broken && re.pollOut
  | .read, re => !re.broken && re.pollIn

/-- Whatever is reported asks for a call. -/
theorem exists_asked {re : Revents} (h : re.pending = true) : ∃ c : Call, c.asked re = true := by
  cases hbroken : re.broken with
  | true => exact ⟨.close, hbroken⟩
  | false =>
    rw [Revents.pending, hbroken, Bool.false_or, Bool.or_eq_true] at h
    rcases h with hout | hin
    · exact ⟨.flush, by rw [Call.asked, hbroken, hout]; rfl⟩
    · exact ⟨.read, by rw [Call.asked, hbroken, hin]; rfl⟩

/-- A call for a slot, and the socket that the slot has then. -/
structure Made where
  slot : ℕ
  call : Call
  fd : Option ℕ
  deriving DecidableEq, Repr

/-- The state of the dispatch loop: the hub, the row, and the calls so far. -/
structure Sweep where
  hub : Hub
  row : ℕ
  made : List Made

namespace Sweep

/-- A call for slot `i`. -/
def call (x : Sweep) (i : ℕ) (c : Call) (sv : Service) : Sweep :=
  { x with
    hub := match c with
      | .close => x.hub.peerClose i
      | .flush => ({ x.hub with kern := sv.flush } : Hub).peerFlush i
      | .read => ({ x.hub with kern := sv.read } : Hub).peerReadable i sv.result
    made := x.made ++ [⟨i, c, (x.hub.peers i).fd⟩] }

/-- The flush of slot `i`, if its row asks for it. -/
def flushed (x : Sweep) (i : ℕ) (re : Revents) (sv : Service) : Sweep :=
  if re.pollOut then x.call i .flush sv else x

/-- The calls for slot `i` with the socket of its row. -/
def serve (x : Sweep) (i : ℕ) (re : Revents) (sv : Service) : Sweep :=
  if re.broken then x.call i .close sv
  else
    let x := x.flushed i re sv
    if (x.hub.peers i).isOpen && re.pollIn then x.call i .read sv else x

/-- The body of the dispatch loop, for the row `r` at `row`. -/
def visit (x : Sweep) (i : ℕ) (r : PollFd) (sv : Service) : Sweep :=
  if (x.hub.peers i).isOpen then
    let x := { x with row := x.row + 1 }
    if r.fd ≠ (x.hub.peers i).fd then x else x.serve i r.revents sv
  else x

end Sweep

/-- The dispatch loop from slot `i` on, with at most `n` iterations. -/
def dispatchLoop (rows : List PollFd) (service : ℕ → Service) : ℕ → ℕ → Sweep → Sweep
  | 0, _, x => x
  | n + 1, i, x =>
    if i < x.hub.peers.size then
      match rows[x.row]? with
      | some r => dispatchLoop rows service n (i + 1) (x.visit i r (service i))
      | none => x
    else x

/-- One iteration of the main loop, as far as the peers are concerned. The number of slots bounds
that of the iterations of the dispatch loop, since no slot is made there. -/
def iterate (s : Hub) (t : Turn) : Sweep :=
  let rows := s.pollRows t.revents
  let s := s.run t.openings
  dispatchLoop rows t.service s.peers.size 0 ⟨s, 0, []⟩

/-! ### What is opened -/

/-- Each socket has one slot, and no slot beyond the table has a socket. -/
structure Sockets (s : Hub) : Prop where
  distinct : ∀ i j fd, (s.peers i).fd = some fd → (s.peers j).fd = some fd → i = j
  beyond : ∀ i, s.peers.size ≤ i → (s.peers i).fd = none

theorem Sockets.fades {s s' : Hub} (hs : Sockets s) (h : Fades s s') : Sockets s' where
  distinct i j fd hi hj := hs.distinct i j fd (h.before hi) (h.before hj)
  beyond i hi := by
    rcases h.fd i with heq | hnone
    · rw [heq, hs.beyond i (h.size ▸ hi)]
    · exact hnone

/-- Sockets are opened, each with a descriptor that no slot had. -/
structure Opened (s s' : Hub) : Prop where
  size_le : s.peers.size ≤ s'.peers.size
  kept : ∀ i fd, (s.peers i).fd = some fd → (s'.peers i).fd = some fd
  fresh : ∀ i fd, (s'.peers i).fd = some fd →
    (s.peers i).fd = some fd ∨ ∀ j, (s.peers j).fd ≠ some fd

namespace Opened

variable {s s' s'' : Hub}

theorem of_peers (h : s'.peers = s.peers) : Opened s s' where
  size_le := by rw [h]
  kept i fd hi := by rw [h, hi]
  fresh i fd hi := Or.inl (by rw [← h, hi])

theorem trans (h : Opened s s') (h' : Opened s' s'') : Opened s s'' where
  size_le := h.size_le.trans h'.size_le
  kept i fd hi := h'.kept i fd (h.kept i fd hi)
  fresh i fd hi := by
    rcases h'.fresh i fd hi with hold | hnew
    · exact h.fresh i fd hold
    · exact Or.inr fun j hj => hnew j (h.kept j fd hj)

end Opened

/-- The descriptor that an event opens. -/
def Event.opens : Event → Option ℕ
  | .accept fd _ | .upstream _ fd => some fd
  | _ => none

/-- A new descriptor differs from those of all open sockets. -/
def Fresh : Hub → List Event → Prop
  | _, [] => True
  | s, e :: es => (∀ fd, e.opens = some fd → ∀ i, (s.peers i).fd ≠ some fd) ∧ Fresh (s.step e) es

/-- The slot that a new socket gets. -/
theorem Sockets.alloc {s : Hub} (hs : Sockets s) {new : Peer} {k : ℕ} {peers : Slots Peer}
    (ha : s.peers.alloc MAX_PEERS (fun p => !p.isOpen) new = some (k, peers)) :
    (s.peers k).fd = none ∧ s.peers.size ≤ peers.size ∧ k < peers.size ∧
      ∀ i, peers i = if i = k then new else s.peers i := by
  obtain ⟨hget, hslot⟩ := Slots.alloc_eq_some ha
  refine ⟨?_, ?_, ?_, hget⟩
  · rcases hslot with ⟨-, hfree, -⟩ | ⟨heq, -⟩
    · simpa [Peer.isOpen] using hfree
    · exact hs.beyond k heq.ge
  · rcases hslot with ⟨-, -, h⟩ | ⟨-, -, h, -⟩ <;> omega
  · rcases hslot with ⟨hlt, -, h⟩ | ⟨heq, -, h, -⟩ <;> omega

theorem peerAlloc_opened {s : Hub} (hs : Sockets s) {fd : ℕ}
    (hfresh : ∀ i, (s.peers i).fd ≠ some fd)
    (bridge : Bool) :
    Opened s (s.peerAlloc fd bridge).1 ∧ Sockets (s.peerAlloc fd bridge).1 := by
  unfold peerAlloc
  cases ha : s.peers.alloc MAX_PEERS (fun p => !p.isOpen) { fd := some fd, isBridge := bridge } with
  | none => exact ⟨.of_peers rfl, hs⟩
  | some r =>
    obtain ⟨k, peers⟩ := r
    obtain ⟨hfree, hsize, hk, hget⟩ := hs.alloc ha
    have hfd : ∀ i, (peers i).fd = if i = k then some fd else (s.peers i).fd := by
      intro i
      rw [hget]
      split_ifs <;> rfl
    have hcases : ∀ {i x}, (peers i).fd = some x → i = k ∧ x = fd ∨ i ≠ k ∧
        (s.peers i).fd = some x := by
      intro i x hi
      rw [hfd] at hi
      split_ifs at hi with hik
      · exact Or.inl ⟨hik, (Option.some.inj hi).symm⟩
      · exact Or.inr ⟨hik, hi⟩
    refine ⟨⟨hsize, fun i x hi => ?_, fun i x hi => ?_⟩, fun i j x hi hj => ?_, fun i hi => ?_⟩
    · show (peers i).fd = some x
      rw [hfd, if_neg, hi]
      rintro rfl
      rw [hfree] at hi
      cases hi
    · rcases hcases hi with ⟨-, rfl⟩ | ⟨-, hold⟩
      · exact Or.inr hfresh
      · exact Or.inl hold
    · rcases hcases hi with ⟨rfl, rfl⟩ | ⟨-, hi'⟩ <;> rcases hcases hj with ⟨rfl, hx⟩ | ⟨-, hj'⟩
      · rfl
      · exact absurd hj' (hfresh j)
      · exact absurd (hx ▸ hi') (hfresh i)
      · exact hs.distinct i j x hi' hj'
    · show (peers i).fd = none
      have hi : peers.size ≤ i := hi
      rw [hfd, if_neg (by omega), hs.beyond i (by omega)]

theorem step_opened {s : Hub} (hs : Sockets s) {e : Event} {fd : ℕ} (he : e.opens = some fd)
    (hfresh : ∀ i, (s.peers i).fd ≠ some fd) : Opened s (s.step e) ∧ Sockets (s.step e) := by
  cases e with
  | accept x bridge =>
    cases he
    exact peerAlloc_opened hs hfresh bridge
  | upstream i x =>
    cases he
    have halloc := peerAlloc_opened hs hfresh true
    simp only [step]
    split_ifs
    · generalize s.peerAlloc fd true = r at halloc
      obtain ⟨t, _ | p⟩ := r
      · exact halloc
      · exact ⟨halloc.1.trans (.of_peers rfl), halloc.2.fades (.of_peers rfl)⟩
    · exact ⟨.of_peers rfl, hs⟩
  | recv | message | flush | close | control => cases he

/-- **All that is opened** has descriptors that no slot had. -/
theorem run_opened {s : Hub} (hs : Sockets s) {es : List Event} (hes : ∀ e ∈ es, e.opens ≠ none)
    (hfresh : Fresh s es) : Opened s (s.run es) ∧ Sockets (s.run es) := by
  induction es generalizing s with
  | nil => exact ⟨.of_peers rfl, hs⟩
  | cons e es ih =>
    obtain ⟨fd, he⟩ := Option.ne_none_iff_exists'.1 (hes e List.mem_cons_self)
    obtain ⟨hopened, hsockets⟩ := step_opened hs he (hfresh.1 fd he)
    obtain ⟨hrest, hend⟩ := ih hsockets (fun e' he' => hes e' (List.mem_cons_of_mem _ he')) hfresh.2
    exact ⟨hopened.trans hrest, hend⟩

theorem Turn.openings_open (t : Turn) : ∀ e ∈ t.openings, e.opens ≠ none := by
  intro e he
  simp only [Turn.openings, List.mem_append, List.mem_map] at he
  rcases he with (⟨u, -, rfl⟩ | ⟨x, -, rfl⟩) | ⟨x, -, rfl⟩ <;> exact Option.some_ne_none _

/-! ### One slot -/

namespace Sweep

variable {x : Sweep} {i : ℕ} {re : Revents} {sv : Service}

theorem call_fades (x : Sweep) (i : ℕ) (c : Call) (sv : Service) :
    Fades x.hub (x.call i c sv).hub := by
  cases c with
  | close => exact peerClose_fades x.hub i
  | flush =>
    have hkern : Fades x.hub { x.hub with kern := sv.flush } := .of_peers rfl
    exact hkern.trans (peerFlush_fades _ i)
  | read =>
    have hkern : Fades x.hub { x.hub with kern := sv.read } := .of_peers rfl
    exact hkern.trans (peerReadable_fades _ i sv.result)

theorem flushed_fades (x : Sweep) (i : ℕ) (re : Revents) (sv : Service) :
    Fades x.hub (x.flushed i re sv).hub := by
  unfold flushed
  split_ifs
  · exact call_fades x i .flush sv
  · exact .refl x.hub

theorem serve_fades (x : Sweep) (i : ℕ) (re : Revents) (sv : Service) :
    Fades x.hub (x.serve i re sv).hub := by
  have hflush := flushed_fades x i re sv
  unfold serve
  dsimp only
  split_ifs
  · exact call_fades x i .close sv
  · exact hflush.trans (call_fades _ i .read sv)
  · exact hflush

theorem visit_fades (x : Sweep) (i : ℕ) (r : PollFd) (sv : Service) :
    Fades x.hub (x.visit i r sv).hub := by
  unfold visit
  dsimp only
  split_ifs
  · exact .refl x.hub
  · exact serve_fades { x with row := x.row + 1 } i r.revents sv
  · exact .refl x.hub

/-- The call that a socket is still open for has the socket that was there before. -/
theorem fd_of_isOpen {s s' : Hub} (h : Fades s s') (ho : (s'.peers i).isOpen = true) :
    (s'.peers i).fd = (s.peers i).fd := by
  refine (h.fd i).resolve_right fun hnone => ?_
  rw [Peer.isOpen, hnone] at ho
  cases ho

theorem mem_made_call {m : Made} {c : Call} :
    m ∈ (x.call i c sv).made ↔ m ∈ x.made ∨ m = ⟨i, c, (x.hub.peers i).fd⟩ := by
  show m ∈ x.made ++ [_] ↔ _
  rw [List.mem_append, List.mem_singleton]

theorem mem_made_flushed {m : Made} : m ∈ (x.flushed i re sv).made ↔
    m ∈ x.made ∨ re.pollOut = true ∧ m = ⟨i, .flush, (x.hub.peers i).fd⟩ := by
  unfold flushed
  split_ifs with hout
  · rw [mem_made_call]
    simp [hout]
  · simp [hout]

/-- The calls of one slot, when its row is not broken. -/
theorem mem_made_serve_whole {m : Made} (hre : re.broken = false) : m ∈ (x.serve i re sv).made ↔
    m ∈ (x.flushed i re sv).made ∨
      ((x.flushed i re sv).hub.peers i).isOpen = true ∧ re.pollIn = true ∧
        m = ⟨i, .read, ((x.flushed i re sv).hub.peers i).fd⟩ := by
  have hserve : x.serve i re sv =
      if ((x.flushed i re sv).hub.peers i).isOpen && re.pollIn then
        (x.flushed i re sv).call i .read sv
      else x.flushed i re sv := by
    rw [serve, hre]
    rfl
  rw [hserve]
  split_ifs with hread
  · rw [mem_made_call]
    simp only [Bool.and_eq_true] at hread
    simp [hread]
  · simp only [Bool.and_eq_true, not_and] at hread
    constructor
    · exact Or.inl
    · rintro (hm | ⟨ho, hin, -⟩)
      · exact hm
      · exact absurd hin (hread ho)

/-- The calls of one slot are those that its row asks for, with the socket it had. -/
theorem mem_made_serve {m : Made} (hm : m ∈ (x.serve i re sv).made) :
    m ∈ x.made ∨ m.slot = i ∧ m.call.asked re = true ∧ m.fd = (x.hub.peers i).fd := by
  cases hre : re.broken with
  | true =>
    rw [serve, if_pos hre, mem_made_call] at hm
    refine hm.imp_right ?_
    rintro rfl
    exact ⟨rfl, hre, rfl⟩
  | false =>
    rcases (mem_made_serve_whole hre).1 hm with hm | ⟨ho, hin, rfl⟩
    · refine (mem_made_flushed.1 hm).imp_right ?_
      rintro ⟨hout, rfl⟩
      exact ⟨rfl, by simp [Call.asked, hre, hout], rfl⟩
    · exact Or.inr ⟨rfl, by simp [Call.asked, hre, hin],
        fd_of_isOpen (flushed_fades x i re sv) ho⟩

/-- A slot that keeps its socket is served as its row asks. -/
theorem made_of_asked (ho : (x.hub.peers i).isOpen = true)
    (hkept : ((x.serve i re sv).hub.peers i).fd = (x.hub.peers i).fd) {c : Call}
    (hc : c.asked re = true) : ⟨i, c, (x.hub.peers i).fd⟩ ∈ (x.serve i re sv).made := by
  cases hre : re.broken with
  | true =>
    cases c with
    | close =>
      rw [serve, if_pos hre, mem_made_call]
      exact Or.inr rfl
    | flush | read =>
      rw [Call.asked, hre] at hc
      cases hc
  | false =>
    rw [mem_made_serve_whole hre]
    cases c with
    | close =>
      rw [Call.asked, hre] at hc
      cases hc
    | flush =>
      rw [Call.asked, hre] at hc
      exact Or.inl (mem_made_flushed.2 (Or.inr ⟨hc, rfl⟩))
    | read =>
      rw [Call.asked, hre] at hc
      -- had the flush closed the socket, it would be closed in the end
      have hopen : ((x.flushed i re sv).hub.peers i).isOpen = true := by
        by_contra hclosed
        have hserve : x.serve i re sv = x.flushed i re sv := by
          rw [serve, hre]
          simp [hclosed]
        rw [hserve] at hkept
        rw [Peer.isOpen, hkept] at hclosed
        exact hclosed ho
      exact Or.inr ⟨hopen, hc, by rw [fd_of_isOpen (flushed_fades x i re sv) hopen]⟩

theorem row_serve (x : Sweep) (i : ℕ) (re : Revents) (sv : Service) :
    (x.serve i re sv).row = x.row := by
  unfold serve flushed
  dsimp only
  split_ifs <;> rfl

theorem made_subset_serve (x : Sweep) (i : ℕ) (re : Revents) (sv : Service) :
    x.made ⊆ (x.serve i re sv).made := by
  intro m hm
  cases hre : re.broken with
  | true =>
    rw [serve, if_pos hre, mem_made_call]
    exact Or.inl hm
  | false => exact (mem_made_serve_whole hre).2 (Or.inl (mem_made_flushed.2 (Or.inl hm)))

theorem made_subset_visit (x : Sweep) (i : ℕ) (r : PollFd) (sv : Service) :
    x.made ⊆ (x.visit i r sv).made := by
  unfold visit
  dsimp only
  split_ifs
  · exact List.Subset.refl _
  · exact made_subset_serve { x with row := x.row + 1 } i r.revents sv
  · exact List.Subset.refl _

end Sweep

/-! ### Rows and slots -/

section Rows

variable {s : Hub} {revents : ℕ → Revents}

theorem mem_openSlots {i : ℕ} : i ∈ s.openSlots ↔ i < s.peers.size ∧ (s.peers i).isOpen = true := by
  simp [openSlots]

/-- The row of a slot: the number of open slots before it. -/
def rank (s : Hub) (i : ℕ) : ℕ := ((List.range i).filter fun j => (s.peers j).isOpen).length

theorem rank_succ (s : Hub) (i : ℕ) :
    s.rank (i + 1) = s.rank i + if (s.peers i).isOpen then 1 else 0 := by
  unfold rank
  rw [List.range_succ, List.filter_append, List.length_append, List.filter_singleton]
  cases (s.peers i).isOpen <;> rfl

theorem rank_mono (s : Hub) {i j : ℕ} (h : i ≤ j) : s.rank i ≤ s.rank j := by
  obtain ⟨k, rfl⟩ := Nat.exists_eq_add_of_le h
  unfold rank
  rw [List.range_add, List.filter_append, List.length_append]
  omega

theorem openSlots_rank {i : ℕ} (hi : i < s.peers.size) (ho : (s.peers i).isOpen = true) :
    s.openSlots[s.rank i]? = some i := by
  obtain ⟨k, hk⟩ : ∃ k, s.peers.size = (i + 1) + k := ⟨s.peers.size - (i + 1), by omega⟩
  unfold openSlots rank
  rw [hk, List.range_add, List.range_succ, List.filter_append, List.filter_append,
    List.filter_singleton, ho, List.append_assoc, List.getElem?_append_right le_rfl, Nat.sub_self]
  rfl

/-- A slot has one row only. -/
theorem row_eq_rank {row slot : ℕ} (h : s.openSlots[row]? = some slot) :
    slot < s.peers.size ∧ (s.peers slot).isOpen = true ∧ row = s.rank slot := by
  obtain ⟨hlt, hopen⟩ := mem_openSlots.1 (List.mem_of_getElem? h)
  have hnodup : s.openSlots.Nodup := List.nodup_range.filter _
  have hrow : row < s.openSlots.length := (List.getElem?_eq_some_iff.1 h).1
  refine ⟨hlt, hopen, (List.getElem?_inj hrow hnodup).1 ?_⟩
  rw [h, openSlots_rank hlt hopen]

theorem getElem?_pollRows (row : ℕ) : (s.pollRows revents)[row]? = s.openSlots[row]?.map fun i =>
    ⟨(s.peers i).fd, (s.peers i).wantWrite, revents row⟩ := by
  rw [pollRows, List.getElem?_mapIdx]

theorem pollRows_eq_some {row : ℕ} {r : PollFd} (h : (s.pollRows revents)[row]? = some r) :
    ∃ j, s.openSlots[row]? = some j ∧ r.fd = (s.peers j).fd ∧ r.revents = revents row := by
  rw [getElem?_pollRows] at h
  obtain ⟨j, hj, rfl⟩ := Option.map_eq_some_iff.1 h
  exact ⟨j, hj, rfl, rfl⟩

end Rows

/-! ### The walk -/

/-- The call is for the socket that its slot had in the poll, and the row of the slot asks for
it. -/
def Made.Due (s : Hub) (revents : ℕ → Revents) (m : Made) : Prop :=
  ∃ row, s.openSlots[row]? = some m.slot ∧ m.fd = (s.peers m.slot).fd ∧
    m.call.asked (revents row) = true

section Walk

variable {s t : Hub} {revents : ℕ → Revents} {service : ℕ → Service}

/-- **One slot**: a row with the descriptor of the slot is the row of the slot. -/
theorem visit_attributed (hs : Sockets s) (hopened : Opened s t) {x : Sweep} (hx : Fades t x.hub)
    {r : PollFd} (hr : (s.pollRows revents)[x.row]? = some r) {i : ℕ} {sv : Service} {m : Made}
    (hm : m ∈ (x.visit i r sv).made) : m ∈ x.made ∨ m.Due s revents := by
  obtain ⟨j, hj, hfd, hre⟩ := pollRows_eq_some hr
  unfold Sweep.visit at hm
  dsimp only at hm
  split_ifs at hm with hopen hne
  · exact Or.inl hm
  · refine (Sweep.mem_made_serve hm).imp_right ?_
    rintro ⟨rfl, hasked, hmfd⟩
    obtain ⟨fd, hi⟩ := Option.isSome_iff_exists.1 hopen
    have hjfd : (s.peers j).fd = some fd := by rw [← hfd, not_not.1 hne, hi]
    -- the descriptor was polled, so the slot had it then
    have hold : (s.peers m.slot).fd = some fd :=
      (hopened.fresh m.slot fd (hx.before hi)).resolve_right fun hnew => hnew j hjfd
    have hslot : m.slot = j := hs.distinct m.slot j fd hold hjfd
    exact ⟨x.row, hslot ▸ hj, by rw [hmfd, hold]; exact hi, hre ▸ hasked⟩
  · exact Or.inl hm

theorem dispatchLoop_fades (rows : List PollFd) (n i : ℕ) (x : Sweep) :
    Fades x.hub (dispatchLoop rows service n i x).hub := by
  induction n generalizing i x with
  | zero => exact .refl x.hub
  | succ n ih =>
    unfold dispatchLoop
    split_ifs
    · split
      · exact (Sweep.visit_fades x i _ _).trans (ih (i + 1) _)
      · exact .refl x.hub
    · exact .refl x.hub

theorem made_subset_dispatchLoop (rows : List PollFd) (n i : ℕ) (x : Sweep) :
    x.made ⊆ (dispatchLoop rows service n i x).made := by
  induction n generalizing i x with
  | zero => exact List.Subset.refl _
  | succ n ih =>
    unfold dispatchLoop
    split_ifs
    · split
      · exact List.Subset.trans (Sweep.made_subset_visit x i _ _) (ih (i + 1) _)
      · exact List.Subset.refl _
    · exact List.Subset.refl _

/-- **The walk** makes no other calls. -/
theorem dispatchLoop_attributed (hs : Sockets s) (hopened : Opened s t) (n i : ℕ) {x : Sweep}
    (hx : Fades t x.hub) {m : Made}
    (hm : m ∈ (dispatchLoop (s.pollRows revents) service n i x).made) :
    m ∈ x.made ∨ m.Due s revents := by
  induction n generalizing i x with
  | zero => exact Or.inl hm
  | succ n ih =>
    unfold dispatchLoop at hm
    split_ifs at hm
    · cases hr : (s.pollRows revents)[x.row]? with
      | none =>
        rw [hr] at hm
        exact Or.inl hm
      | some r =>
        rw [hr] at hm
        rcases ih (i + 1) (hx.trans (Sweep.visit_fades x i r _)) hm with hm | hdue
        · exact visit_attributed hs hopened hx hr hm
        · exact Or.inr hdue
    · exact Or.inl hm

/-- **One slot**, when the sockets are those of the poll: the walk stays in step, and the calls that
the row asks for are made. -/
theorem visit_serviced {x : Sweep} {i : ℕ} (hi : i < s.peers.size)
    (hsame : ∀ k, (x.hub.peers k).fd = (s.peers k).fd) (hrow : x.row = s.rank i) {r : PollFd}
    (hr : (s.pollRows revents)[x.row]? = some r) {sv : Service}
    (hkept : ((x.visit i r sv).hub.peers i).fd = (x.hub.peers i).fd) :
    (x.visit i r sv).row = s.rank (i + 1) ∧
      ((s.peers i).isOpen = true → ∀ c : Call, c.asked (revents (s.rank i)) = true →
        ⟨i, c, (s.peers i).fd⟩ ∈ (x.visit i r sv).made) := by
  have hopen : (x.hub.peers i).isOpen = (s.peers i).isOpen := by rw [Peer.isOpen, hsame]; rfl
  rw [rank_succ]
  cases ho : (s.peers i).isOpen with
  | false =>
    have hvisit : x.visit i r sv = x := by rw [Sweep.visit, hopen, ho]; rfl
    rw [hvisit, hrow]
    exact ⟨rfl, fun h => by cases h⟩
  | true =>
    obtain ⟨j, hj, hfd, hre⟩ := pollRows_eq_some hr
    rw [hrow, openSlots_rank hi ho, Option.some.injEq] at hj
    subst hj
    have hvisit : x.visit i r sv = { x with row := x.row + 1 }.serve i r.revents sv := by
      rw [Sweep.visit, hopen, ho, if_pos rfl]
      exact if_neg (not_not.2 (hfd.trans (hsame i).symm))
    rw [hvisit] at hkept ⊢
    refine ⟨by rw [Sweep.row_serve, hrow]; rfl, fun _ c hc => ?_⟩
    rw [← hsame i]
    refine Sweep.made_of_asked (x := { x with row := x.row + 1 }) (hopen.trans ho) hkept ?_
    rw [hre, hrow, hc]

/-- **The walk**, when no slot is opened or closed, deals with every row. -/
theorem dispatchLoop_serviced {n i : ℕ} {x : Sweep} (hsize : s.peers.size ≤ x.hub.peers.size)
    (hn : s.peers.size ≤ i + n) (hsame : ∀ k, (x.hub.peers k).fd = (s.peers k).fd)
    (hrow : x.row = s.rank i)
    (hend : ∀ k, ((dispatchLoop (s.pollRows revents) service n i x).hub.peers k).fd =
      (s.peers k).fd)
    {slot : ℕ} (hslot : slot < s.peers.size) (ho : (s.peers slot).isOpen = true) (hge : i ≤ slot)
    {c : Call} (hc : c.asked (revents (s.rank slot)) = true) :
    ⟨slot, c, (s.peers slot).fd⟩ ∈ (dispatchLoop (s.pollRows revents) service n i x).made := by
  induction n generalizing i x with
  | zero => omega
  | succ n ih =>
    have hi : i < s.peers.size := by omega
    unfold dispatchLoop at hend ⊢
    rw [if_pos (hi.trans_le hsize)] at hend ⊢
    cases hr : (s.pollRows revents)[x.row]? with
    | none =>
      -- the rows are used up, but the slot has one
      rw [getElem?_pollRows, Option.map_eq_none_iff, List.getElem?_eq_none_iff, hrow] at hr
      have hlt := (List.getElem?_eq_some_iff.1 (openSlots_rank hslot ho)).1
      have hmono := s.rank_mono hge
      omega
    | some r =>
      rw [hr] at hend
      dsimp only at hend ⊢
      have hvisit := Sweep.visit_fades x i r (service i)
      have hrest : Fades _ (dispatchLoop _ service n (i + 1) (x.visit i r (service i))).hub :=
        dispatchLoop_fades (s.pollRows revents) n (i + 1) (x.visit i r (service i))
      have hkept := hvisit.squeeze hrest fun k => (hend k).trans (hsame k).symm
      obtain ⟨hrow', hmade⟩ := visit_serviced hi hsame hrow hr (hkept i)
      rcases Nat.eq_or_lt_of_le hge with rfl | hlt
      · exact made_subset_dispatchLoop _ n _ _ (hmade ho c hc)
      · exact ih (hvisit.size ▸ hsize) (by omega) (fun k => (hkept k).trans (hsame k)) hrow' hend hlt

end Walk

/-! ### Iterations -/

/-- The iteration opens and closes no socket. -/
def Steady (s : Hub) (t : Turn) : Prop :=
  ∀ i, ((s.run t.openings).peers i).fd = (s.peers i).fd ∧
    ((s.iterate t).hub.peers i).fd = (s.peers i).fd

/-- **Poll results and peers**: every call of the dispatch loop is for the socket that its slot had
in the poll, and what `poll` reported for that socket asks for it; if the iteration opens and closes
no socket, all calls that the reports ask for are made. New descriptors are assumed to differ from
the open ones, and this goes on to hold. -/
theorem poll_attributed {s : Hub} (hs : Sockets s) (t : Turn) (hfresh : Fresh s t.openings) :
    (∀ m ∈ (s.iterate t).made, ∃ row, s.openSlots[row]? = some m.slot ∧
      m.fd = (s.peers m.slot).fd ∧ m.call.asked (t.revents row) = true) ∧
    (s.Steady t → ∀ row slot, s.openSlots[row]? = some slot →
      ((t.revents row).pending = true → ∃ m ∈ (s.iterate t).made, m.slot = slot) ∧
      ∀ c : Call, c.asked (t.revents row) = true →
        ⟨slot, c, (s.peers slot).fd⟩ ∈ (s.iterate t).made) ∧
    Sockets (s.iterate t).hub := by
  obtain ⟨hopened, hsockets⟩ := run_opened hs t.openings_open hfresh
  refine ⟨fun m hm => ?_, fun hsteady row slot hslot => ?_, ?_⟩
  · have hdue := dispatchLoop_attributed hs hopened _ 0 (.refl _) hm
    exact hdue.resolve_left List.not_mem_nil
  · obtain ⟨hlt, ho, rfl⟩ := row_eq_rank hslot
    have hmade : ∀ c : Call, c.asked (t.revents (s.rank slot)) = true →
        ⟨slot, c, (s.peers slot).fd⟩ ∈ (s.iterate t).made := by
      intro c hc
      refine dispatchLoop_serviced hopened.size_le ?_ (fun k => (hsteady k).1) rfl
        (fun k => (hsteady k).2) hlt ho (Nat.zero_le slot) hc
      rw [Nat.zero_add]
      exact hopened.size_le
    refine ⟨fun hpending => ?_, hmade⟩
    obtain ⟨c, hc⟩ := exists_asked hpending
    exact ⟨_, hmade c hc, rfl⟩
  · exact hsockets.fades
      (dispatchLoop_fades (s.pollRows t.revents) _ 0 ⟨s.run t.openings, 0, []⟩)

theorem sockets_init (n : ℕ) : Sockets (Hub.init n) where
  distinct i j fd hi := by cases hi
  beyond _ _ := rfl

/-- A hub with one peer. -/
def oneSocket : Hub := (Hub.init 0).step (.accept 5 false)

theorem sockets_oneSocket : Sockets oneSocket :=
  (step_opened (sockets_init 0) (e := .accept 5 false) rfl fun _ h => by cases h).2

/-- The peer hangs up while another one connects. -/
def crossing : Turn where
  revents _ := ⟨true, false, false, true, false⟩
  upstreams := []
  unix := some 6
  tcp := none
  service _ := ⟨Kern.quiet, Kern.quiet, .again⟩

theorem fresh_crossing : Fresh oneSocket crossing.openings := by
  refine ⟨fun fd hfd i hi => ?_, trivial⟩
  cases hfd
  cases i with
  | zero => exact absurd hi (by decide)
  | succ i => cases hi

/-- The new peer is not taken for the one that hung up. -/
theorem poll_attributed_crossing :
    (oneSocket.iterate crossing).made = [⟨0, .close, some 5⟩] ∧
      (∃ row, oneSocket.openSlots[row]? = some 0 ∧ some 5 = (oneSocket.peers 0).fd ∧
        Call.close.asked (crossing.revents row) = true) ∧
      Sockets (oneSocket.iterate crossing).hub := by
  have hmade : (oneSocket.iterate crossing).made = [⟨0, .close, some 5⟩] := by decide +kernel
  obtain ⟨hdue, -, hsockets⟩ := poll_attributed sockets_oneSocket crossing fresh_crossing
  exact ⟨hmade, hdue ⟨0, .close, some 5⟩ (by rw [hmade]; exact List.mem_cons_self), hsockets⟩

end Hub
end Vbt
