import Vbt.Client.Iovec
import Vbt.Lib.RingBuffer
import Vbt.Wire.Frame

/-!
# The packets on their way to the guest

The device model `vbt_virtio.c` and the back-end `vbt_vhost_user.c` keep the HCI packets of the core
in a ring until the guest has buffers for them. The counters of the ring are 32-bit numbers that run
freely.

* `GuestQueue`: the ring, with a record of what was accepted and what was pushed to the guest since
  the last reset; `flush`, `offer`, `reset`: the common code;
* `Virtio`, `VhostUser`: the members of the family under their names in the source, and the runs of
  each transport;
* `flush_agree_iff`: when a flush returns the same buffers in the two transports;
* `GuestQueue.Exact`: the invariant, kept by the three operations;
* `guest_queue_exact`: both transports, any run.
-/

namespace Vbt

/-- The number of packets that wait for the guest at most. -/
def PENDING_MAX : ℕ := 256

/-- A packet that was pushed to the guest, with what the guest got back. -/
structure Pushed where
  pkt : List UInt8
  filled : Filled
  deriving DecidableEq

/-- The packets on their way to the guest. A `pending_pkt` is the list of the first `len` bytes of
its array. The last two fields are a record for theorems, oldest first, since the last reset. -/
structure GuestQueue where
  pending : RingBuffer (List UInt8) 32 PENDING_MAX := ⟨fun _ => [], 0, 0⟩
  pushed : List Pushed := []
  accepted : List (List UInt8) := []

namespace GuestQueue

variable (fill : List (List UInt8) → List UInt8 → Filled) (q : GuestQueue)

/-- The loop of `flush_pending` with body `fill`. The guest's buffers are what the calls of
`virtqueue_pop` or `vu_queue_pop` return before one returns nothing. -/
def flush (bufs : List (List (List UInt8))) : GuestQueue :=
  let (out, pending) := q.pending.drain bufs
  { q with
    pending
    pushed := q.pushed ++ out.map fun x => ⟨x.2, fill x.1 x.2⟩ }

/-- `virtio_bt_queue_to_guest` and `cb_hci_to_host`, up to the flush: a packet that is too long or
does not find a free cell is dropped. -/
def offer (pkt : List UInt8) : Option GuestQueue :=
  if VBT_MAX_MSG_SIZE < pkt.length then none
  else if PENDING_MAX ≤ (q.pending.tail - q.pending.head).toNat then none
  else some { q with pending := q.pending.put pkt, accepted := q.accepted ++ [pkt] }

/-- Both counters are set to zero. -/
def reset : GuestQueue := { pending := q.pending.clear }

/-- The two transports return the same buffers exactly if every packet fits the buffer it meets. -/
theorem flush_agree_iff {iov : IovFromBuf} (hqemu : Copies iov) (bufs : List (List (List UInt8))) :
    q.flush VhostUser.fill bufs = q.flush (Virtio.fill iov) bufs ↔
      ∀ x ∈ (q.pending.drain bufs).1, x.2.length ≤ capacity x.1 := by
  simp only [flush, GuestQueue.mk.injEq, true_and, and_true, List.append_cancel_left_eq,
    List.map_inj_left, Pushed.mk.injEq, VhostUser.fill_eq, Virtio.fill_eq hqemu, Filled.mk.injEq]
  exact forall₂_congr fun x _ => by omega

end GuestQueue

/-! ### The device model -/

/-- The guest's side of `VirtIOBT`. -/
structure Virtio where
  queue : GuestQueue := {}
  hciToGuest : UInt64 := 0

namespace Virtio

variable (iov : IovFromBuf)

/-- `virtio_bt_flush_pending`; `iov` is QEMU's `iov_from_buf`. -/
def flushPending (s : Virtio) (bufs : List (List (List UInt8))) : Virtio :=
  { queue := s.queue.flush (fill iov) bufs
    hciToGuest := s.hciToGuest + .ofNat (s.queue.pending.drain bufs).1.length }

/-- `virtio_bt_queue_to_guest`. -/
def queueToGuest (s : Virtio) (pkt : List UInt8) (bufs : List (List (List UInt8))) : Virtio :=
  match s.queue.offer pkt with
  | none => s
  | some queue => flushPending iov { s with queue } bufs

/-- `virtio_bt_reset`. -/
def reset (s : Virtio) : Virtio := { s with queue := s.queue.reset }

/-- What happens to the queue: the core hands a packet up, the queue is flushed
(`virtio_bt_handle_rx` or `virtio_bt_tick_cb`), or the device is reset. -/
inductive Op
  | hciToHost (pkt : List UInt8) (bufs : List (List (List UInt8)))
  | flush (bufs : List (List (List UInt8)))
  | reset

def step (s : Virtio) : Op → Virtio
  | .hciToHost pkt bufs => s.queueToGuest iov pkt bufs
  | .flush bufs => s.flushPending iov bufs
  | .reset => s.reset

/-- The state after a list of operations on a device that was just realized. -/
def run (ops : List Op) : Virtio := ops.foldl (step iov) {}

end Virtio

/-! ### The back-end -/

/-- The guest's side of the state of `vbt_vhost_user.c`. -/
structure VhostUser where
  queue : GuestQueue := {}
  devReady : Bool := false

namespace VhostUser

/-- `flush_pending`. `vq` is `none` if there is no queue. -/
def flushPending (g : VhostUser) (vq : Option (List (List (List UInt8)))) : VhostUser :=
  if !g.devReady then g
  else
    match vq with
    | none => g
    | some bufs => { g with queue := g.queue.flush fill bufs }

/-- `cb_hci_to_host`. -/
def hciToHost (g : VhostUser) (pkt : List UInt8) (vq : Option (List (List (List UInt8)))) : VhostUser :=
  match g.queue.offer pkt with
  | none => g
  | some queue => flushPending { g with queue } vq

/-- What happens to the queue: the core hands a packet up, the queue is flushed (`handle_rx` or the
tick), the receive queue is started (`queue_set_started`), and a connection of the front-end begins
or ends (`serve_connection`). -/
inductive Op
  | hciToHost (pkt : List UInt8) (vq : Option (List (List (List UInt8))))
  | flush (vq : Option (List (List (List UInt8))))
  | started
  | connected
  | disconnected

def step (g : VhostUser) : Op → VhostUser
  | .hciToHost pkt vq => g.hciToHost pkt vq
  | .flush vq => g.flushPending vq
  | .started => { g with devReady := true }
  | .connected => { queue := g.queue.reset, devReady := false }
  | .disconnected => { g with devReady := false }

/-- The state after a list of operations. -/
def run (ops : List Op) : VhostUser := ops.foldl step {}

end VhostUser

/-! ### The queue is exact -/

namespace GuestQueue

/-- At most `PENDING_MAX` packets wait; what was pushed, and then what waits, is what was accepted;
and no packet is too long. -/
structure Exact (q : GuestQueue) : Prop where
  bound : (q.pending.tail - q.pending.head).toNat ≤ PENDING_MAX
  fifo : q.pushed.map Pushed.pkt ++ q.pending.contents = q.accepted
  short : ∀ pkt ∈ q.accepted, pkt.length ≤ VBT_MAX_MSG_SIZE

variable {q q' : GuestQueue} {pkt : List UInt8}

/-- The number of cells divides the number of values of a counter. -/
theorem pendingMax_dvd : PENDING_MAX ∣ 2 ^ 32 := by decide

theorem Exact.init : Exact {} := ⟨by decide, rfl, fun _ h => by cases h⟩

theorem Exact.reset (q : GuestQueue) : Exact q.reset where
  bound := (RingBuffer.used_clear q.pending).le.trans (Nat.zero_le _)
  fifo := List.eq_nil_of_length_eq_zero
    ((RingBuffer.length_contents _).trans (RingBuffer.used_clear q.pending))
  short _ h := by cases h

theorem Exact.flush (h : Exact q) (fill : List (List UInt8) → List UInt8 → Filled)
    (bufs : List (List (List UInt8))) : Exact (q.flush fill bufs) := by
  have hdrain := RingBuffer.contents_drain pendingMax_dvd (by decide) bufs q.pending
  rcases hd : q.pending.drain bufs with ⟨out, pending⟩
  rw [hd] at hdrain
  dsimp only at hdrain
  have hflush : q.flush fill bufs = { q with
      pending
      pushed := q.pushed ++ out.map fun x => ⟨x.2, fill x.1 x.2⟩ } := by
    simp only [GuestQueue.flush, hd]
  rw [hflush]
  refine ⟨?_, ?_, h.short⟩
  · have hlen := congrArg List.length hdrain
    rw [List.length_append, RingBuffer.length_contents, RingBuffer.length_contents] at hlen
    have hle : pending.used ≤ q.pending.used := by omega
    exact hle.trans h.bound
  · rw [← h.fifo, hdrain, List.map_append, List.map_map, List.append_assoc]
    rfl

/-- A packet is refused exactly if it is too long or the queue is full. -/
theorem offer_eq_none (h : Exact q) : q.offer pkt = none ↔
    VBT_MAX_MSG_SIZE < pkt.length ∨ q.pending.contents.length = PENDING_MAX := by
  have hbound : q.pending.used ≤ PENDING_MAX := h.bound
  have hfull : PENDING_MAX ≤ (q.pending.tail - q.pending.head).toNat ↔
      q.pending.contents.length = PENDING_MAX := by
    rw [RingBuffer.length_contents]
    exact ⟨fun hle => le_antisymm hbound hle, fun heq => heq.ge⟩
  unfold offer
  split_ifs with hlong hmax
  · exact iff_of_true rfl (Or.inl hlong)
  · exact iff_of_true rfl (Or.inr (hfull.1 hmax))
  · exact iff_of_false (by simp) fun hor => hor.elim hlong fun heq => hmax (hfull.2 heq)

theorem Exact.offer (h : Exact q) (hq : q.offer pkt = some q') :
    Exact q' ∧ q'.accepted = q.accepted ++ [pkt] := by
  unfold GuestQueue.offer at hq
  split_ifs at hq with hlong hmax
  cases hq
  have hlt : q.pending.used < PENDING_MAX := Nat.lt_of_not_le hmax
  have hput := RingBuffer.contents_put pendingMax_dvd pkt hlt (by decide)
  refine ⟨⟨?_, ?_, fun x hx => ?_⟩, rfl⟩
  · have hused : (q.pending.put pkt).used = q.pending.used + 1 :=
      RingBuffer.used_put pkt (Nat.lt_of_le_of_lt hlt (by decide))
    exact hused.le.trans hlt
  · show q.pushed.map Pushed.pkt ++ (q.pending.put pkt).contents = q.accepted ++ [pkt]
    rw [hput, ← List.append_assoc, h.fifo]
  · rcases List.mem_append.1 hx with hx | hx
    · exact h.short x hx
    · rw [List.mem_singleton.1 hx]
      exact Nat.le_of_not_lt hlong

/-- What is asked of the queue in the states before and after the core has handed a packet up: the
packet is accepted, or it is too long, or the queue is full, and then nothing changes. -/
def Takes (q q' : GuestQueue) (pkt : List UInt8) : Prop :=
  q'.accepted = q.accepted ++ [pkt] ∨
    q' = q ∧ (VBT_MAX_MSG_SIZE < pkt.length ∨ q.pending.contents.length = PENDING_MAX)

end GuestQueue

namespace Virtio

open GuestQueue

variable {iov : IovFromBuf} {s : Virtio}

theorem flushPending_exact (h : s.queue.Exact) (bufs : List (List (List UInt8))) :
    (s.flushPending iov bufs).queue.Exact := h.flush (fill iov) bufs

theorem queueToGuest_exact (h : s.queue.Exact) (pkt : List UInt8)
    (bufs : List (List (List UInt8))) :
    (s.queueToGuest iov pkt bufs).queue.Exact ∧
      Takes s.queue (s.queueToGuest iov pkt bufs).queue pkt := by
  unfold queueToGuest
  cases hq : s.queue.offer pkt with
  | none => exact ⟨h, Or.inr ⟨rfl, (offer_eq_none h).1 hq⟩⟩
  | some q =>
    obtain ⟨hexact, hacc⟩ := h.offer hq
    exact ⟨flushPending_exact (s := { s with queue := q }) hexact bufs, Or.inl hacc⟩

theorem step_exact (h : s.queue.Exact) (op : Op) : (s.step iov op).queue.Exact := by
  cases op with
  | hciToHost pkt bufs => exact (queueToGuest_exact h pkt bufs).1
  | flush bufs => exact flushPending_exact h bufs
  | reset => exact .reset _

theorem run_exact (ops : List Op) : (run iov ops).queue.Exact :=
  List.foldlRecOn (motive := fun s : Virtio => s.queue.Exact) ops (step iov) .init
    fun _ h op _ => step_exact h op

end Virtio

namespace VhostUser

open GuestQueue

theorem flushPending_exact {g : VhostUser} (h : g.queue.Exact) (vq : Option (List (List (List UInt8)))) :
    (g.flushPending vq).queue.Exact ∧ (g.flushPending vq).queue.accepted = g.queue.accepted := by
  unfold flushPending
  split_ifs
  · exact ⟨h, rfl⟩
  · cases vq with
    | none => exact ⟨h, rfl⟩
    | some bufs => exact ⟨h.flush fill bufs, rfl⟩

theorem hciToHost_exact {g : VhostUser} (h : g.queue.Exact) (pkt : List UInt8)
    (vq : Option (List (List (List UInt8)))) :
    (g.hciToHost pkt vq).queue.Exact ∧ Takes g.queue (g.hciToHost pkt vq).queue pkt := by
  unfold hciToHost
  cases hq : g.queue.offer pkt with
  | none => exact ⟨h, Or.inr ⟨rfl, (offer_eq_none h).1 hq⟩⟩
  | some q =>
    obtain ⟨hexact, hacc⟩ := h.offer hq
    obtain ⟨hflush, hsame⟩ := flushPending_exact (g := { g with queue := q }) hexact vq
    exact ⟨hflush, Or.inl (hsame.trans hacc)⟩

theorem step_exact {g : VhostUser} (h : g.queue.Exact) (op : Op) : (g.step op).queue.Exact := by
  cases op with
  | hciToHost pkt vq => exact (hciToHost_exact h pkt vq).1
  | flush vq => exact (flushPending_exact h vq).1
  | started => exact h
  | connected => exact .reset _
  | disconnected => exact h

theorem run_exact (ops : List Op) : (run ops).queue.Exact :=
  List.foldlRecOn (motive := fun g : VhostUser => g.queue.Exact) ops step .init
    fun _ h op _ => step_exact h op

end VhostUser

end Vbt
