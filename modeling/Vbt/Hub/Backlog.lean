import Vbt.Hub.Chunks

/-!
# The backlog of a slow consumer

A message is written to the socket as far as that takes it, and the rest is kept in the backlog of
the peer. Nothing is written directly while there is a backlog, and a message that does not fit into
the backlog is dropped before a byte of it is written. So what the socket took and the backlog
together are whole messages.

* `written`: what the socket of a peer took, read off the log;
* `writeLoop_le`, `writeLoop_finished`: how far a run of `write` calls gets;
* `Pending`: what the peer has been sent, up to a point of the stream, with `Pending.send` and
  `Pending.flush`, what one call does;
* `IoCall`, `Outbox`: calls of `peer_send` and `peer_flush`, and which messages were accepted;
* `backlog_whole`: after any calls, the stream is that of the accepted messages.
-/

namespace Vbt
namespace Hub

/-- What the socket of peer `p` took, in order. -/
def written (p : ℕ) : List Act → List UInt8
  | [] => []
  | .wrote q bytes :: l => if q = p then written p l ++ bytes else written p l
  | _ :: l => written p l

/-- What the socket of peer `p` has yet to take. -/
def backlog (s : Hub) (p : ℕ) : List UInt8 := (s.peers p).outbuf.getD []

@[simp] theorem backlog_modPeer (s : Hub) (p : ℕ) (f : Peer → Peer) :
    (s.modPeer p f).backlog p = (f (s.peers p)).outbuf.getD [] := by
  simp [backlog, modPeer]

@[simp] theorem modPeer_same (s : Hub) (p : ℕ) (f : Peer → Peer) :
    (s.modPeer p f).peers p = f (s.peers p) := by
  simp [modPeer]

/-! ### Runs of `write` calls -/

theorem writeLoop_le (len off : ℕ) (ws : List WriteRes) (h : off ≤ len) :
    (writeLoop len off ws).1 ≤ len := by
  fun_induction writeLoop len off ws with
  | case1 off ws hle => exact h
  | case2 off hlt => exact h
  | case3 off hlt ws => exact h
  | case4 off hlt n ws ih => exact ih (by omega)
  | case5 off hlt ws ih => exact ih h
  | case6 off hlt ws => exact h
  | case7 off hlt ws => exact h

theorem writeLoop_finished (len off : ℕ) (ws : List WriteRes)
    (h : (writeLoop len off ws).2.1 = .finished) : len ≤ (writeLoop len off ws).1 := by
  fun_induction writeLoop len off ws with
  | case1 off ws hle => exact hle
  | case2 off hlt => cases h
  | case3 off hlt ws => cases h
  | case4 off hlt n ws ih => exact ih h
  | case5 off hlt ws ih => exact ih h
  | case6 off hlt ws => cases h
  | case7 off hlt ws => cases h

/-! ### One call -/

/-- The socket of peer `p` took the bytes of `stream` up to the backlog, which is not too long, and
the hub waits for the socket if there is one. -/
structure Pending (p : ℕ) (stream : List UInt8) (s : Hub) : Prop where
  stream : written p s.log ++ s.backlog p = stream
  bounded : (s.backlog p).length ≤ SEND_BUF_SIZE
  waits : s.backlog p ≠ [] → (s.peers p).wantWrite = true

namespace Pending

variable {p : ℕ} {stream : List UInt8} {s : Hub}

/-- Only the socket's part of the log and of the peer matters. -/
theorem of_peer {s' : Hub} (h : Pending p stream s) (hlog : written p s'.log = written p s.log)
    (hout : s'.backlog p = s.backlog p)
    (hwant : (s'.peers p).wantWrite = (s.peers p).wantWrite) : Pending p stream s' where
  stream := by rw [hlog, hout, h.stream]
  bounded := by rw [hout]; exact h.bounded
  waits hne := by rw [hout] at hne; rw [hwant]; exact h.waits hne

/-- What `bufferRest` does: the peer is closed, or the message is dropped, or it joins. -/
theorem bufferRest (h : Pending p stream s) (data : List UInt8) :
    ((s.bufferRest p data).2 = true ∧ Pending p (stream ++ data) (s.bufferRest p data).1) ∨
      ((s.bufferRest p data).2 = false ∧ (((s.bufferRest p data).1.peers p).isOpen = false ∨
        Pending p stream (s.bufferRest p data).1 ∧
          written p (s.bufferRest p data).1.log = written p s.log ∧
          SEND_BUF_SIZE < (s.backlog p).length + data.length)) := by
  unfold Hub.bufferRest
  dsimp only
  split_ifs with hmem hfull
  · exact .inr ⟨rfl, .inl (peerClose_isOpen s p)⟩
  · refine .inr ⟨rfl, .inr ⟨?_, rfl, hfull⟩⟩
    refine h.of_peer rfl ?_ ?_
    · simp [backlog, Hub.note, modStats]
    · simp [Hub.note, modStats]
  · refine .inl ⟨rfl, ?_, ?_, fun _ => ?_⟩
    · rw [backlog_modPeer, ← h.stream, List.append_assoc]
      rfl
    · rw [backlog_modPeer]
      exact (List.length_append ..).le.trans (not_lt.1 hfull)
    · rw [modPeer_same]

/-- **What `peer_send` does**: the message is accepted and follows the stream, or it is dropped and
leaves no byte, or the peer is closed. -/
theorem send (h : Pending p stream s) (kern : Kern) {data : List UInt8}
    (hlen : data.length ≤ SEND_BUF_SIZE) :
    ((({ s with kern } : Hub).peerSend p data).2 = true ∧
        Pending p (stream ++ data) (({ s with kern } : Hub).peerSend p data).1) ∨
      ((({ s with kern } : Hub).peerSend p data).2 = false ∧
        (((({ s with kern } : Hub).peerSend p data).1.peers p).isOpen = false ∨
          Pending p stream (({ s with kern } : Hub).peerSend p data).1 ∧
            written p (({ s with kern } : Hub).peerSend p data).1.log = written p s.log)) := by
  unfold peerSend
  dsimp only
  split_ifs with hopen hempty
  · rw [Bool.not_eq_true'] at hopen
    exact .inr ⟨rfl, .inl hopen⟩
  · -- nothing is buffered: the socket takes a part of the message
    have hnil : s.backlog p = [] := List.isEmpty_iff.1 hempty
    have hle := writeLoop_le data.length 0 (kern.write p) (Nat.zero_le _)
    have hfin := writeLoop_finished data.length 0 (kern.write p)
    generalize writeLoop data.length 0 (kern.write p) = res at hle hfin
    obtain ⟨off, ending, ws⟩ := res
    generalize hw : (({ s with kern } : Hub).setWrites p ws).note (.wrote p (data.take off)) = t
    have hback : t.backlog p = [] := by rw [← hw]; exact hnil
    have hlog : written p t.log = stream ++ data.take off := by
      rw [← hw, ← h.stream, hnil, List.append_nil]
      exact if_pos rfl
    dsimp only
    cases ending with
    | finished =>
      have hall : data.take off = data := List.take_of_length_le (hfin rfl)
      refine .inl ⟨rfl, ?_, by rw [hback]; exact Nat.zero_le _, fun hne => absurd hback hne⟩
      rw [hback, hlog, hall, List.append_nil]
    | blocked =>
      -- the rest fits into the empty backlog
      have hrest : (data.drop off).length ≤ SEND_BUF_SIZE := by
        rw [List.length_drop]
        omega
      have hdone : Pending p (stream ++ data.take off) t :=
        ⟨by rw [hback, hlog, List.append_nil], by rw [hback]; exact Nat.zero_le _,
          fun hne => absurd hback hne⟩
      rcases hdone.bufferRest (data.drop off) with ⟨hr, hp⟩ | ⟨hr, hc | ⟨-, -, hfull⟩⟩
      · refine .inl ⟨hr, ?_⟩
        rwa [List.append_assoc, List.take_append_drop] at hp
      · exact .inr ⟨hr, .inl hc⟩
      · rw [hback, List.length_nil, Nat.zero_add] at hfull
        omega
    | failed => exact .inr ⟨rfl, .inl (peerClose_isOpen t p)⟩
  · have hkern : Pending p stream { s with kern } := h.of_peer rfl rfl rfl
    rcases hkern.bufferRest data with hp | ⟨hr, hc | ⟨hp, hlog, -⟩⟩
    · exact .inl hp
    · exact .inr ⟨hr, .inl hc⟩
    · exact .inr ⟨hr, .inr ⟨hp, hlog⟩⟩

/-- **What `peer_flush` does**: a part of the backlog is written. -/
theorem flush (h : Pending p stream s) (kern : Kern) :
    ((({ s with kern } : Hub).peerFlush p).peers p).isOpen = false ∨
      Pending p stream (({ s with kern } : Hub).peerFlush p) := by
  unfold peerFlush
  dsimp only
  split_ifs with hidle
  · cases hopen : (s.peers p).isOpen with
    | false => exact .inl (by rw [modPeer_same]; exact hopen)
    | true =>
      have hnil : s.backlog p = [] := by simpa [hopen, backlog] using hidle
      refine .inr ⟨?_, ?_, fun hne => ?_⟩
      · rw [backlog_modPeer]
        exact h.stream
      · rw [backlog_modPeer]
        exact h.bounded
      · rw [backlog_modPeer] at hne
        exact absurd hnil hne
  · rw [show ((({ s with kern } : Hub).peers p).outbuf.getD []) = s.backlog p from rfl]
    generalize writeLoop (s.backlog p).length 0 (kern.write p) = res
    obtain ⟨off, ending, ws⟩ := res
    generalize hw : (({ s with kern } : Hub).setWrites p ws).note
      (.wrote p ((s.backlog p).take off)) = t
    have hlog : written p t.log = written p s.log ++ (s.backlog p).take off := by
      rw [← hw]
      exact if_pos rfl
    have hkeep : ∀ f : Peer → Peer, (∀ q, (f q).outbuf = some ((s.backlog p).drop off)) →
        (∀ q, (f q).wantWrite = !((s.backlog p).drop off).isEmpty) →
        Pending p stream (t.modPeer p f) := by
      intro f hout hwant
      have hrest : (t.modPeer p f).backlog p = (s.backlog p).drop off := by
        rw [backlog_modPeer, hout]
        rfl
      refine ⟨?_, ?_, fun hne => ?_⟩
      · show written p t.log ++ _ = stream
        rw [hrest, hlog, List.append_assoc, List.take_append_drop, h.stream]
      · rw [hrest, List.length_drop]
        exact (Nat.sub_le _ _).trans h.bounded
      · rw [hrest] at hne
        rw [modPeer_same, hwant, Bool.not_eq_true', ← Bool.not_eq_true, List.isEmpty_iff]
        exact hne
    dsimp only
    cases ending with
    | finished => exact .inr (hkeep _ (fun _ => rfl) fun _ => rfl)
    | blocked => exact .inr (hkeep _ (fun _ => rfl) fun _ => rfl)
    | failed => exact .inl (peerClose_isOpen t p)

end Pending

/-! ### Sequences of calls -/

/-- A call on the socket of a peer. -/
inductive IoCall
  | send (data : List UInt8)
  | flush

/-- The hub, and the messages that `peer_send` has accepted. -/
structure Outbox where
  hub : Hub
  accepted : List (List UInt8)

/-- A call on the socket of peer `p`, with the `write` results that it gets. -/
def Outbox.call (p : ℕ) (x : Outbox) : Kern × IoCall → Outbox
  | (kern, .send data) =>
    match ({ x.hub with kern } : Hub).peerSend p data with
    | (s, true) => ⟨s, x.accepted ++ [data]⟩
    | (s, false) => ⟨s, x.accepted⟩
  | (kern, .flush) => ⟨({ x.hub with kern } : Hub).peerFlush p, x.accepted⟩

/-- The length of a message, as far as the call has one. -/
def IoCall.length : IoCall → ℕ
  | .send data => data.length
  | .flush => 0

theorem peerSend_of_closed {s : Hub} {p : ℕ} (h : (s.peers p).isOpen = false) (data : List UInt8) :
    s.peerSend p data = (s, false) := by
  simp [peerSend, h]

theorem peerFlush_of_closed {s : Hub} {p : ℕ} (h : (s.peers p).isOpen = false) :
    ((s.peerFlush p).peers p).isOpen = false := by
  have hidle : s.peerFlush p = s.modPeer p fun q => { q with wantWrite := false } := by
    simp [peerFlush, h]
  rw [hidle, modPeer_same]
  exact h

/-- One call keeps the stream that of the accepted messages, or the peer is closed. -/
theorem Outbox.call_pending {p : ℕ} {before : List UInt8} {x : Outbox}
    (h : (x.hub.peers p).isOpen = false ∨ Pending p (before ++ x.accepted.flatten) x.hub)
    {c : Kern × IoCall} (hlen : c.2.length ≤ SEND_BUF_SIZE) :
    ((x.call p c).hub.peers p).isOpen = false ∨
      Pending p (before ++ (x.call p c).accepted.flatten) (x.call p c).hub := by
  obtain ⟨kern, data | -⟩ := c
  · unfold call
    dsimp only
    rcases h with hc | h
    · rw [peerSend_of_closed (s := { x.hub with kern }) hc]
      exact .inl hc
    · have hs := h.send kern hlen
      generalize ({ x.hub with kern } : Hub).peerSend p data = res at hs
      rcases hs with ⟨hr, hp⟩ | ⟨hr, hp⟩
      · obtain ⟨s, rfl⟩ : ∃ s, res = (s, true) := ⟨res.1, by rw [← hr]⟩
        refine .inr ?_
        show Pending p (before ++ (x.accepted ++ [data]).flatten) s
        rw [List.flatten_append, List.flatten_singleton, ← List.append_assoc]
        exact hp
      · obtain ⟨s, rfl⟩ : ∃ s, res = (s, false) := ⟨res.1, by rw [← hr]⟩
        exact hp.imp_right And.left
  · rcases h with hc | h
    · exact .inl (peerFlush_of_closed (s := { x.hub with kern }) hc)
    · exact h.flush kern

theorem Outbox.calls_pending {p : ℕ} {before : List UInt8} {calls : List (Kern × IoCall)}
    (hlen : ∀ c ∈ calls, c.2.length ≤ SEND_BUF_SIZE) {x : Outbox}
    (h : (x.hub.peers p).isOpen = false ∨ Pending p (before ++ x.accepted.flatten) x.hub) :
    ((calls.foldl (Outbox.call p) x).hub.peers p).isOpen = false ∨
      Pending p (before ++ (calls.foldl (Outbox.call p) x).accepted.flatten)
        (calls.foldl (Outbox.call p) x).hub := by
  induction calls generalizing x with
  | nil => exact h
  | cons c calls ih =>
    exact ih (fun d hd => hlen d (List.mem_cons_of_mem c hd))
      (Outbox.call_pending h (hlen c List.mem_cons_self))

/-- **Backpressure never tears a message.** After any calls on a peer that had no backlog, and as
long as it is open, the socket and the backlog together have the accepted messages, one after the
other; the backlog is bounded, and the hub waits for the socket if there is one. A message that is
then refused leaves no byte. -/
theorem backlog_whole {s : Hub} {p : ℕ} (hempty : s.backlog p = []) {calls : List (Kern × IoCall)}
    (hlen : ∀ c ∈ calls, c.2.length ≤ 560) {x : Outbox}
    (hx : x = calls.foldl (Outbox.call p) ⟨s, []⟩) (hopen : (x.hub.peers p).isOpen = true) :
    written p x.hub.log ++ x.hub.backlog p = written p s.log ++ x.accepted.flatten ∧
      (x.hub.backlog p).length ≤ 262144 ∧
      (x.hub.backlog p ≠ [] → (x.hub.peers p).wantWrite = true) ∧
      ∀ (kern : Kern) (data : List UInt8) (s' : Hub), data.length ≤ 560 →
        ({ x.hub with kern } : Hub).peerSend p data = (s', false) →
        (s'.peers p).isOpen = true →
        written p s'.log = written p x.hub.log ∧ s'.backlog p = x.hub.backlog p := by
  have hsize : ∀ n ≤ 560, n ≤ SEND_BUF_SIZE := fun n hn => hn.trans (by decide)
  have hstart : Pending p (written p s.log ++ ([] : List (List UInt8)).flatten) s :=
    ⟨by rw [hempty]; rfl, by rw [hempty]; exact Nat.zero_le _, fun hne => absurd hempty hne⟩
  have hrun := Outbox.calls_pending (fun c hc => hsize _ (hlen c hc)) (x := ⟨s, []⟩) (.inr hstart)
  rw [← hx] at hrun
  rcases hrun with hc | h
  · rw [hopen] at hc
    cases hc
  · refine ⟨h.stream, h.bounded, h.waits, fun kern data s' hdata hsend hopen' => ?_⟩
    have hs := h.send kern (hsize _ hdata)
    rw [hsend] at hs
    rcases hs with ⟨hr, -⟩ | ⟨-, hc | ⟨hp, hlog⟩⟩
    · cases hr
    · rw [hopen'] at hc
      cases hc
    · have hstream := hp.stream.trans h.stream.symm
      rw [hlog] at hstream
      exact ⟨hlog, List.append_cancel_left hstream⟩

/-- A socket that takes three bytes of a message of five, and the rest later. -/
def slowCalls : List (Kern × IoCall) :=
  [({ Kern.quiet with write := fun _ => [.wrote 3, .eagain] }, .send [1, 2, 3, 4, 5]),
    ({ Kern.quiet with write := fun _ => [] }, .send [6]),
    ({ Kern.quiet with write := fun _ => [.eintr, .wrote 1] }, .flush)]

theorem backlog_whole_slow :
    written 0 (slowCalls.foldl (Outbox.call 0)
        ⟨(Hub.init 0).step (.accept 1 false), []⟩).hub.log = [1, 2, 3, 4] ∧
      [1, 2, 3, 4] ++ (slowCalls.foldl (Outbox.call 0)
        ⟨(Hub.init 0).step (.accept 1 false), []⟩).hub.backlog 0 = [1, 2, 3, 4, 5] ++ [6] := by
  have hshort : ∀ c ∈ slowCalls, c.2.length ≤ 560 := by decide
  obtain ⟨hstream, -⟩ := backlog_whole (s := (Hub.init 0).step (.accept 1 false)) (p := 0)
    (by decide) hshort rfl (by decide)
  have hlog : written 0 (slowCalls.foldl (Outbox.call 0)
      ⟨(Hub.init 0).step (.accept 1 false), []⟩).hub.log = [1, 2, 3, 4] := by decide
  rw [hlog] at hstream
  exact ⟨hlog, hstream.trans (by decide)⟩

end Hub
end Vbt
