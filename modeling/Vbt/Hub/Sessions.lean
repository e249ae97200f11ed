import Vbt.Hub.MainLoop

/-!
# Runs that name sockets

The events of a run speak of slots. Which slot a socket gets depends on what else is open, so to
compare two runs of the hub we name the sockets instead. No two sockets of a run have the same name,
also if one of them is closed before the other is opened.

* `slotOf`, `answers`, `locate`: an event of a socket is one of the slot that the socket is in;
* `advance`, `Session`, `play`: a run, and the frames that were handed to each socket;
* `names`: the sockets that are opened, with `play_sockets` and `play_fresh`.
-/

namespace Vbt
namespace Hub

/-- The slot of an open socket. -/
def slotOf (s : Hub) (x : ℕ) : Option ℕ := s.peers.find? fun p => decide (p.fd = some x)

/-- What the environment answers at the sockets, by slots. -/
def answers (s : Hub) (kern : Kern) : Kern :=
  { kern with
    write := fun i => (s.peers i).fd.elim [] kern.write
    malloc := fun i => (s.peers i).fd.elim true kern.malloc }

/-- An event with a socket for its slot. A socket that is not open has none. -/
def locate (s : Hub) : Event → Option Event
  | .accept x bridge => some (.accept x bridge)
  | .upstream i x => some (.upstream i x)
  | .recv x r => (s.slotOf x).map fun p => .recv p r
  | .message x kern => (s.slotOf x).map fun p => .message p (s.answers kern)
  | .flush x kern => (s.slotOf x).map fun p => .flush p (s.answers kern)
  | .close x => (s.slotOf x).map fun p => .close p
  | .control cmd => some (.control cmd)

/-- The effect of an event with a socket for its slot. -/
def advance (s : Hub) (e : Event) : Hub := (s.locate e).elim s s.step

/-- The frames that an event hands to a socket. -/
def handed (s : Hub) (e : Event) (x : ℕ) : List Frame :=
  (s.slotOf x).elim [] fun p => (handsTo p (did s (s.advance e))).reverse

/-- A hub, and the frames that were handed to each socket. -/
structure Session where
  hub : Hub
  heard : ℕ → List Frame

/-- An event in a session. -/
def Session.next (c : Session) (e : Event) : Session where
  hub := c.hub.advance e
  heard x := c.heard x ++ c.hub.handed e x

/-- The session that starts with `n` upstream hubs. -/
def play (n : ℕ) (es : List Event) : Session := es.foldl Session.next ⟨Hub.init n, fun _ => []⟩

theorem play_concat (n : ℕ) (es : List Event) (e : Event) :
    play n (es ++ [e]) = (play n es).next e := by
  simp [play, List.foldl_append]

/-! ### One event -/

section Event

variable {s : Hub} {e : Event} {x i p : ℕ}

theorem Sockets.slotOf_eq_some_iff (hs : Sockets s) :
    s.slotOf x = some p ↔ (s.peers p).fd = some x := by
  constructor
  · intro h
    exact of_decide_eq_true (Slots.find?_eq_some_iff.1 h).2.1
  · intro h
    have hlt : p < s.peers.size := by
      by_contra hge
      rw [hs.beyond p (by omega)] at h
      cases h
    exact Slots.find?_eq_some_of_unique hlt (decide_eq_true h) fun j _ hj =>
      hs.distinct j p x (of_decide_eq_true hj) h

theorem isOpen_of_slotOf (h : s.slotOf x = some p) : (s.peers p).isOpen = true := by
  have hfd : (s.peers p).fd = some x := of_decide_eq_true (Slots.find?_eq_some_iff.1 h).2.1
  rw [Peer.isOpen, hfd]
  rfl

/-- An event of a socket that is not open changes nothing. -/
theorem advance_of_none (h : s.locate e = none) : s.advance e = s := by
  rw [advance, h]
  rfl

theorem advance_of_some {f : Event} (h : s.locate e = some f) : s.advance e = s.step f := by
  rw [advance, h]
  rfl

theorem locate_of_opens (h : e.opens = some x) : s.locate e = some e := by
  cases e with
  | accept | upstream => rfl
  | recv | message | flush | close | control => cases h

theorem opens_of_locate {e' : Event} (h : s.locate e = some e') : e'.opens = e.opens := by
  cases e with
  | accept | upstream | control =>
    cases h
    rfl
  | recv | message | flush | close =>
    obtain ⟨p, -, rfl⟩ := Option.map_eq_some_iff.1 h
    rfl

/-- **An event that opens no socket** closes some at most. -/
theorem step_fades (s : Hub) (h : e.opens = none) : Fades s (s.step e) := by
  cases e with
  | accept | upstream => cases h
  | recv p r =>
    simp only [step]
    split_ifs
    · exact recvBytes_fades s p r
    · exact .refl s
  | message p kern =>
    have hkern : Fades s { s with kern } := .of_peers rfl
    simp only [step]
    split_ifs
    · exact hkern.trans (peerReadableIter_fades _ p)
    · exact .refl s
  | flush p kern =>
    have hkern : Fades s { s with kern } := .of_peers rfl
    simp only [step]
    split_ifs
    · exact hkern.trans (peerFlush_fades _ p)
    · exact .refl s
  | close p => exact peerClose_fades s p
  | control cmd => exact .of_peers (ctlDispatch_peers s cmd)

theorem advance_fades (s : Hub) (h : e.opens = none) : Fades s (s.advance e) := by
  cases hl : s.locate e with
  | none =>
    rw [advance_of_none hl]
    exact .refl s
  | some e' =>
    rw [advance_of_some hl]
    exact step_fades s ((opens_of_locate hl).trans h)

theorem fd_peerAlloc {fd : ℕ} {bridge : Bool}
    (h : ((s.peerAlloc fd bridge).1.peers i).fd = some x) :
    (s.peers i).fd = some x ∨ fd = x := by
  unfold peerAlloc at h
  cases ha : s.peers.alloc MAX_PEERS (fun p => !p.isOpen) { fd := some fd, isBridge := bridge } with
  | none =>
    rw [ha] at h
    exact Or.inl h
  | some r =>
    obtain ⟨k, peers⟩ := r
    rw [ha] at h
    change (peers i).fd = some x at h
    rw [(Slots.alloc_eq_some ha).1] at h
    split_ifs at h
    · exact Or.inr (Option.some.inj h)
    · exact Or.inl h

/-- A socket that is open was open before, or is opened by the event. -/
theorem fd_advance (h : ((s.advance e).peers i).fd = some x) :
    (s.peers i).fd = some x ∨ e.opens = some x := by
  cases ho : e.opens with
  | none => exact Or.inl ((advance_fades s ho).before h)
  | some y =>
    rw [advance_of_some (locate_of_opens ho)] at h
    cases e with
    | accept fd bridge =>
      cases ho
      exact (fd_peerAlloc h).imp_right (congrArg some)
    | upstream j fd =>
      cases ho
      simp only [step] at h
      split_ifs at h
      · have halloc : ∀ {k x}, ((s.peerAlloc y true).1.peers k).fd = some x →
            (s.peers k).fd = some x ∨ y = x := fd_peerAlloc
        generalize s.peerAlloc y true = r at h halloc
        obtain ⟨t, _ | p⟩ := r
        · exact (halloc h).imp_right (congrArg some)
        · exact (halloc h).imp_right (congrArg some)
      · exact Or.inl h
    | recv | message | flush | close | control => cases ho

theorem Sockets.advance (hs : Sockets s)
    (hfresh : ∀ x, e.opens = some x → ∀ i, (s.peers i).fd ≠ some x) : Sockets (s.advance e) := by
  cases ho : e.opens with
  | none => exact hs.fades (advance_fades s ho)
  | some x =>
    rw [advance_of_some (locate_of_opens ho)]
    exact (step_opened hs ho (hfresh x ho)).2

theorem Reachable.advance (h : Reachable s) (e : Event) : Reachable (s.advance e) := by
  unfold Hub.advance
  cases s.locate e with
  | none => exact h
  | some e' => exact h.step e'

theorem advance_suffix (s : Hub) (e : Event) : s.log <:+ (s.advance e).log := by
  unfold Hub.advance
  cases s.locate e with
  | none => exact List.suffix_rfl
  | some e' => exact (step_persists s e').suffix

end Event

/-! ### Sessions -/

/-- The sockets that are opened in a run. -/
def names (es : List Event) : List ℕ := es.filterMap Event.opens

section Play

variable {n : ℕ} {es : List Event} {e : Event}

theorem names_concat (es : List Event) (e : Event) :
    names (es ++ [e]) = names es ++ e.opens.toList := by
  rw [names, List.filterMap_append]
  cases h : e.opens <;> simp [names, h]

theorem play_reachable (n : ℕ) (es : List Event) : Reachable (play n es).hub := by
  induction es using List.reverseRecOn with
  | nil => exact .init n
  | append_singleton es e ih =>
    rw [play_concat]
    exact ih.advance e

theorem mem_names_of_fd {i x : ℕ} (h : ((play n es).hub.peers i).fd = some x) : x ∈ names es := by
  induction es using List.reverseRecOn with
  | nil => cases h
  | append_singleton es e ih =>
    rw [play_concat] at h
    rw [names_concat, List.mem_append]
    rcases fd_advance h with hold | hnew
    · exact Or.inl (ih hold)
    · exact Or.inr (by rw [hnew]; exact List.mem_singleton_self x)

/-- A socket that is opened has a new name. -/
theorem play_fresh (h : (names (es ++ [e])).Nodup) {x : ℕ} (hx : e.opens = some x) (i : ℕ) :
    ((play n es).hub.peers i).fd ≠ some x := by
  intro hfd
  rw [names_concat, hx] at h
  exact (List.nodup_append.1 h).2.2 x (mem_names_of_fd hfd) x (List.mem_singleton_self x) rfl

/-- **Each socket has one slot** in every state of a run. -/
theorem play_sockets (h : (names es).Nodup) : Sockets (play n es).hub := by
  induction es using List.reverseRecOn with
  | nil => exact sockets_init n
  | append_singleton es e ih =>
    have hes : (names es).Nodup := by
      rw [names_concat] at h
      exact (List.nodup_append.1 h).1
    rw [play_concat]
    exact (ih hes).advance fun x hx => play_fresh h hx

end Play

end Hub
end Vbt
