import Vbt.Client.Medium
import Vbt.Hub.Routing
import Vbt.Hub.Sessions
import Vbt.Hub.Twin

/-!
# A monitor perturbs nothing

A run of the hub with a monitor is compared with the run without it. The monitor takes a slot, so
that sockets that are opened later may have other slots in the two runs, and it may be closed in the
midst of a fan-out.

* `purge`, `Monitors`: the run without the monitor, and what a monitor does in a run;
* `Apart`: the tables agree up to a renumbering of the slots, and the further peer, if it is open,
  is the monitor;
* `Apart.shared`, `Apart.guestEvent`, `Apart.opens`, `Apart.guestOpens`: one event;
* `Alongside`: the invariant of the two runs, with `Alongside.guest` and `Alongside.other`;
* `monitor_unnoticed`: whole runs, and `monitor_noticed_rebound`: a run in which a hello rebinds a
  peer.
-/

namespace Vbt
namespace Hub

open Effect Router

/-- The socket that an event is about. -/
def Event.socket : Event → Option ℕ
  | .accept x _ | .upstream _ x | .recv x _ | .message x _ | .flush x _ | .close x => some x
  | .control _ => none

/-- The run without the events of a socket. -/
def purge (m : ℕ) (es : List Event) : List Event := es.filter fun e => decide (e.socket ≠ some m)

/-- The bytes that an event brings from a socket. -/
def Event.brings (m : ℕ) : Event → List UInt8
  | .recv x (.data bytes) => if x = m then bytes else []
  | _ => []

/-- The bytes that a socket has sent. -/
def said (m : ℕ) (es : List Event) : List UInt8 := es.flatMap (Event.brings m)

/-- A hello with the monitor flag and an id, as the hub reads it. -/
structure MonitorHello (payload : List UInt8) : Prop where
  read : ∃ hello, parseHello payload = some hello ∧ hello.monitor = true ∧ hello.nid ≠ []
  short : payload.length ≤ VBT_MAX_MSG_SIZE

/-- The socket connects to the hub before anything else happens to it, and all that it sends is one
hello, or a part of one. -/
structure Monitors (m : ℕ) (es : List Event) : Prop where
  accepted : ∀ i, Event.upstream i m ∉ es
  first : ∀ pre e post, es = pre ++ e :: post → e.socket = some m → e.opens = none → m ∈ names pre
  hello : ∃ payload, MonitorHello payload ∧ said m es <+: wire payload

/-- A slot is free. -/
def NotFull (s : Hub) : Prop := ∃ i < MAX_PEERS, (s.peers i).isOpen = false

/-! ### Two hubs, one with a further peer -/

/-- `t` has the peers of `s` and possibly a further one, whose socket is `m`, and whose receive
buffer is as `P` says. -/
structure Apart (m : ℕ) (P : List UInt8 → Prop) (π : Pairing) (s t : Hub) : Prop
    extends Twin π s t where
  isOpen : ∀ p ∈ π.slots, (s.peers p).isOpen = true
  guest : ∀ q x, q ∉ π.ren '' π.slots → (t.peers q).fd = some x → x = m ∧ P (t.peers q).rxbuf
  own : ∀ p, (s.peers p).fd ≠ some m

/-- The peers are handed the same frames. -/
def SameHands (π : Pairing) (s s' t t' : Hub) : Prop :=
  ∀ p ∈ π.slots, handsTo (π.ren p) (did t t') = handsTo p (did s s')

/-- Nodes refer to open peers only, and what is closed is bound to no node. -/
structure Anchored (s : Hub) : Prop where
  blank : ∀ p, (s.peers p).isOpen = false → (s.peers p).nodeIdx = none
  bound : ∀ k p, (s.nodes k).peerIdx = some p → (s.peers p).isOpen = true

theorem Reachable.anchored {s : Hub} (hr : Reachable s) (hreb : NoRebinding s.log) :
    Anchored s where
  blank p hp := by
    have hblank := blank_of_legal hr.tracked.legal
    rw [← hr.tracked.router] at hblank
    exact hblank.nodeOf p hp
  bound k p hk := ((bindingsAgree_iff.2 (hr.tracked.bijective hreb)).of_node k p hk).1

theorem isOpen_of_fd {p : Peer} {x : ℕ} (h : p.fd = some x) : p.isOpen = true := by
  rw [Peer.isOpen, h]
  rfl

theorem fd_ne_none {p : Peer} (h : p.isOpen = true) : p.fd ≠ none := by
  intro hc
  rw [Peer.isOpen, hc] at h
  cases h

/-- After an event the pairing is cut down to the peers that are still open. -/
theorem Twin.settle {π : Pairing} {s t : Hub} (h : Twin π s t) (hs : Anchored s) :
    Twin ⟨{p | (s.peers p).isOpen = true}, π.ren⟩ s t where
  nodes := h.nodes
  conns := h.conns
  overrides := h.overrides
  exponent := h.exponent
  autoId := h.autoId
  upstream := h.upstream
  peers p hp := h.peers p (h.inside p hp)
  inj := h.inj.mono fun p hp => h.inside p hp
  inside _ hp := hp
  below p hp := h.below p (h.inside p hp)
  others q hq := by
    by_cases himg : q ∈ π.ren '' π.slots
    · obtain ⟨p, hp, rfl⟩ := himg
      rw [h.peers p hp]
      refine hs.blank p ?_
      by_contra hne
      exact hq ⟨p, by simpa using hne, rfl⟩
    · exact h.others q himg
  bound := hs.bound
  up := h.up
  rim := h.rim

section Apart

variable {m : ℕ} {P P' : List UInt8 → Prop} {π : Pairing} {s s' t t' : Hub}

theorem SameHands.refl (π : Pairing) (s t : Hub) : SameHands π s s t t := by
  intro p _
  rw [did, did, since_self, since_self]
  rfl

/-- The two hubs at the start of an event. -/
theorem Apart.inStep (h : Apart m P π s t) :
    InStep π False (fun p => handsTo p s.log) (fun p => handsTo (π.ren p) t.log) s t where
  toTwin := h.toTwin
  hands _ _ := ⟨[], rfl, rfl⟩
  answers := False.elim

/-- At the start of an event that brings answers of the environment. -/
theorem Apart.given (h : Apart m P π s t) (kern : Kern) :
    InStep π True (fun p => handsTo p s.log) (fun p => handsTo (π.ren p) t.log)
      { s with kern := s.answers kern } { t with kern := t.answers kern } :=
  { h.inStep with
    answers := fun _ =>
      { write := fun p hp => by simp only [answers, h.peers p hp]
        malloc := fun p hp => by simp only [answers, h.peers p hp]
        rand := rfl
        sqrt := rfl
        log10 := rfl } }

theorem InStep.sameHands {live : Prop} (h : InStep π live (fun p => handsTo p s.log)
    (fun p => handsTo (π.ren p) t.log) s' t') (hs : s.log <:+ s'.log) (ht : t.log <:+ t'.log) :
    SameHands π s s' t t' := by
  intro p hp
  obtain ⟨g, hg, hg'⟩ := h.hands p hp
  rw [did_append hs, handsTo_append] at hg
  rw [did_append ht, handsTo_append] at hg'
  exact (List.append_cancel_right hg').trans (List.append_cancel_right hg).symm

/-- The sockets of both hubs are found in slots that belong together. -/
theorem Apart.slotOf_ren (h : Apart m P π s t) (hs : Sockets s) (ht : Sockets t) {x : ℕ}
    (hx : x ≠ m) :
    t.slotOf x = (s.slotOf x).map π.ren := by
  cases hp : s.slotOf x with
  | some p =>
    have hfd := hs.slotOf_eq_some_iff.1 hp
    refine ht.slotOf_eq_some_iff.2 ?_
    rw [h.peers p (h.inside p (isOpen_of_fd hfd)), hfd]
  | none =>
    refine Option.eq_none_iff_forall_ne_some.2 fun q hq => ?_
    have hfd := ht.slotOf_eq_some_iff.1 hq
    by_cases himg : q ∈ π.ren '' π.slots
    · obtain ⟨p, hpO, rfl⟩ := himg
      rw [h.peers p hpO] at hfd
      rw [hs.slotOf_eq_some_iff.2 hfd] at hp
      cases hp
    · exact hx (h.guest q x himg hfd).1

theorem Apart.notMem_of_guest (h : Apart m P π s t) {q : ℕ} (hq : (t.peers q).fd = some m) :
    q ∉ π.ren '' π.slots := by
  rintro ⟨p, hp, rfl⟩
  rw [h.peers p hp] at hq
  exact h.own p hq

/-- A hub without the further peer is as any condition on it says. -/
theorem Apart.vacant (h : Apart m P π s t) (hm : ∀ q, (t.peers q).fd ≠ some m) : Apart m P' π s t :=
  { h with guest := fun q x hq hx => absurd ((h.guest q x hq hx).1 ▸ hx) (hm q) }

/-- What is handed to the others in an event of both hubs, and in one of the further peer. -/
theorem Apart.handed_eq (h : Apart m P π s t) (hs : Sockets s) (ht : Sockets t) {e : Event}
    (hh : SameHands π s (s.advance e) t (t.advance e)) {x : ℕ} (hx : x ≠ m) :
    t.handed e x = s.handed e x := by
  unfold handed
  rw [h.slotOf_ren hs ht hx]
  cases hp : s.slotOf x with
  | none => rfl
  | some p => exact congrArg List.reverse (hh p (h.inside p (isOpen_of_slotOf hp)))

theorem Apart.handed_eq_nil (h : Apart m P π s t) (hs : Sockets s) (ht : Sockets t) {e : Event}
    (hh : SameHands π s s t (t.advance e)) {x : ℕ} (hx : x ≠ m) : t.handed e x = [] := by
  unfold handed
  rw [h.slotOf_ren hs ht hx]
  cases hp : s.slotOf x with
  | none => rfl
  | some p =>
    have hnil := hh p (h.inside p (isOpen_of_slotOf hp))
    rw [did, did, since_self] at hnil
    exact congrArg List.reverse hnil

/-! ### An event of both hubs -/

theorem Apart.both (h : Apart m P π s t) (ht : Sockets t) {e f : Event} {live : Prop}
    (hin : InStep π live (fun p => handsTo p s.log) (fun p => handsTo (π.ren p) t.log) (s.step e)
      (t.step f)) (ho : e.opens = none) (ho' : f.opens = none)
    (hread : ∀ q ∉ π.ren '' π.slots, f.readsFrom q = false) (hatt : Anchored (s.step e)) :
    Apart m P ⟨{p | ((s.step e).peers p).isOpen = true}, π.ren⟩ (s.step e) (t.step f) ∧
      SameHands π s (s.step e) t (t.step f) := by
  refine ⟨{ hin.toTwin.settle hatt with isOpen := fun _ hp => hp, guest := ?_, own := ?_ },
    hin.sameHands (step_persists s e).suffix (step_persists t f).suffix⟩
  · intro q x hq hfd
    have hq' : q ∉ π.ren '' π.slots := by
      rintro ⟨p, hp, rfl⟩
      rw [hin.peers p hp] at hfd
      exact hq ⟨p, isOpen_of_fd hfd, rfl⟩
    have hold := (step_fades t ho').before hfd
    obtain ⟨hx, hP⟩ := h.guest q x hq' hold
    have hlt : q < t.peers.size := by
      by_contra hge
      rw [ht.beyond q (by omega)] at hold
      cases hold
    refine ⟨hx, ?_⟩
    rcases step_lasts hlt (isOpen_of_fd hold) (hread q hq') with ⟨-, hbuf⟩ | ⟨hnone, -⟩
    · rw [hbuf]
      exact hP
    · rw [hnone] at hfd
      cases hfd
  · intro p hp
    exact h.own p ((step_fades s ho).before hp)

/-- An event at a socket that both hubs have. -/
theorem Apart.atSocket (h : Apart m P π s t) (hs : Sockets s) (ht : Sockets t) {x : ℕ} (hx : x ≠ m)
    {e : Event} (f : Hub → ℕ → Event) (he : ∀ u : Hub, u.locate e = (u.slotOf x).map (f u))
    (ho : ∀ u p, (f u p).opens = none) (hread : ∀ u p q, q ≠ p → (f u p).readsFrom q = false)
    (live : Prop) (hin : ∀ p ∈ π.slots, InStep π live (fun p => handsTo p s.log)
      (fun p => handsTo (π.ren p) t.log) (s.step (f s p)) (t.step (f t (π.ren p))))
    (hatt : Anchored (s.advance e)) :
    ∃ π', Apart m P π' (s.advance e) (t.advance e) ∧
        SameHands π s (s.advance e) t (t.advance e) := by
  have hslot := h.slotOf_ren hs ht hx
  cases hp : s.slotOf x with
  | none =>
    rw [hp] at hslot
    rw [advance_of_none (s := s) (by rw [he, hp]; rfl),
      advance_of_none (s := t) (by rw [he, hslot]; rfl)]
    exact ⟨π, h, .refl π s t⟩
  | some p =>
    rw [hp] at hslot
    have hpO := h.inside p (isOpen_of_slotOf hp)
    rw [advance_of_some (s := s) (f := f s p) (by rw [he, hp]; rfl)] at hatt ⊢
    rw [advance_of_some (s := t) (f := f t (π.ren p)) (by rw [he, hslot]; rfl)]
    refine ⟨_, h.both ht (hin p hpO) (ho s p) (ho t _) (fun q hq => hread t _ q ?_) hatt⟩
    exact fun heq => hq ⟨p, hpO, heq.symm⟩

/-- **An event of another socket** that opens none, or a control command. -/
theorem Apart.shared (h : Apart m P π s t) (hs : Sockets s) (ht : Sockets t) (hloss : NoLoss s)
    {e : Event} (hm : e.socket ≠ some m) (ho : e.opens = none) (hatt : Anchored (s.advance e)) :
    ∃ π', Apart m P π' (s.advance e) (t.advance e) ∧
        SameHands π s (s.advance e) t (t.advance e) := by
  have hpos : ∀ p ∈ π.slots, (s.peers p).isOpen = true ∧ (t.peers (π.ren p)).isOpen = true :=
    fun p hp => ⟨h.isOpen p hp, h.peers p hp ▸ h.isOpen p hp⟩
  cases e with
  | accept | upstream => cases ho
  | recv x r =>
    refine h.atSocket hs ht (fun hx => hm (congrArg some hx)) (fun _ p => .recv p r) (fun _ => rfl)
      (fun _ _ => rfl) (fun _ p q hq => ?_) False (fun p hp => ?_) hatt
    · cases r with
      | data bytes => exact beq_eq_false_iff_ne.2 hq.symm
      | again | error => rfl
    · simp only [step, if_pos (hpos p hp).1, if_pos (hpos p hp).2]
      exact h.inStep.recvBytes hp r
  | message x kern =>
    refine h.atSocket hs ht (fun hx => hm (congrArg some hx)) (fun u p => .message p (u.answers kern))
      (fun _ => rfl) (fun _ _ => rfl) (fun _ p q hq => beq_eq_false_iff_ne.2 hq.symm) True
      (fun p hp => ?_) hatt
    simp only [step, if_pos (hpos p hp).1, if_pos (hpos p hp).2]
    exact (h.given kern).peerReadableIter trivial hloss hp
  | flush x kern =>
    refine h.atSocket hs ht (fun hx => hm (congrArg some hx)) (fun u p => .flush p (u.answers kern))
      (fun _ => rfl) (fun _ _ => rfl) (fun _ _ _ _ => rfl) True (fun p hp => ?_) hatt
    simp only [step, if_pos (hpos p hp).1, if_pos (hpos p hp).2]
    exact (h.given kern).peerFlush trivial hp
  | close x =>
    exact h.atSocket hs ht (fun hx => hm (congrArg some hx)) (fun _ p => .close p) (fun _ => rfl)
      (fun _ _ => rfl) (fun _ _ _ _ => rfl) False (fun p hp => h.inStep.peerClose hp) hatt
  | control cmd =>
    exact ⟨_, h.both (e := .control cmd) (f := .control cmd) ht (h.inStep.ctlDispatch cmd) rfl rfl
      (fun _ _ => rfl) hatt⟩

/-! ### An event of the further peer -/

theorem Apart.guestOnly (h : Apart m P π s t) (ht : Sockets t) {q : ℕ}
    (hq : (t.peers q).fd = some m)
    {live : Prop} (hin : InStep π live (fun p => handsTo p s.log) (fun p => handsTo (π.ren p) t.log) s t')
    (hfades : Fades t t') (hlog : t.log <:+ t'.log)
    (hbuf : (t'.peers q).fd = some m → P' (t'.peers q).rxbuf) :
    Apart m P' π s t' ∧ SameHands π s s t t' := by
  refine ⟨{ hin.toTwin with isOpen := h.isOpen, own := h.own, guest := ?_ },
    hin.sameHands List.suffix_rfl hlog⟩
  intro q' x hq' hfd
  obtain ⟨rfl, -⟩ := h.guest q' x hq' (hfades.before hfd)
  obtain rfl := ht.distinct q' q x (hfades.before hfd) hq
  exact ⟨rfl, hbuf hfd⟩

end Apart

/-- What a socket has sent of the message `w` and was not handled: all of it, or nothing more. -/
def Unread (w sent buf : List UInt8) : Prop := buf = sent ∨ buf = [] ∧ sent = w

/-- The hello is taken, and nothing else is done. -/
theorem peerReadableIter_monitor {u : Hub} {q : ℕ} {payload : List UInt8} (h : MonitorHello payload)
    (hbuf : (u.peers q).rxbuf = wire payload) :
    ∃ a, (∀ i f, a ≠ Act.hand i f) ∧ (u.peerReadableIter q).1 =
      (((u.modPeer q fun p => { p with framesSeen := p.framesSeen + 1 }).modPeer q
        fun p => { p with isMonitor := true }).note a).modPeer q
          fun p => { p with rxbuf := p.rxbuf.drop (4 + payload.length) } := by
  obtain ⟨⟨hello, hread, hmon, hnid⟩, hshort⟩ := h
  have hlen : (wire payload).length = 4 + payload.length := wire_length payload
  have hhead : headLen (wire payload) = payload.length := by
    rw [← List.append_nil (wire payload)]
    exact headLen_wire hshort []
  have hpay : ((wire payload).drop 4).take payload.length = payload := by
    have := (take_wire payload []).1
    rwa [List.append_nil] at this
  refine ⟨.hello q hello.nid hello.physical true none, fun _ _ => by simp, ?_⟩
  unfold peerReadableIter
  dsimp only
  rw [hbuf, hhead, hpay, if_neg (by omega), if_neg (by omega), if_neg (by omega)]
  have hmsg : u.handleMessage q payload =
      ((u.modPeer q fun p => { p with framesSeen := p.framesSeen + 1 }).modPeer q
        fun p => { p with isMonitor := true }).note (.hello q hello.nid hello.physical true none) := by
    unfold handleMessage maybeHello
    rw [hread]
    simp only [Option.map_some, takeHello, if_neg hnid, hmon, if_true]
  rw [hmsg]
  have hkept : ((((u.modPeer q fun p => { p with framesSeen := p.framesSeen + 1 }).modPeer q
      fun p => { p with isMonitor := true }).note
        (.hello q hello.nid hello.physical true none)).peers q).rxbuf = wire payload := by
    simp only [modPeer, note, Slots.modify_same, hbuf]
  rw [if_neg (by rw [hkept]; omega)]

/-- While the hello is not complete, the loop is left. -/
theorem peerReadableIter_unread {u : Hub} {q : ℕ} {payload rest : List UInt8}
    (hshort : payload.length ≤ VBT_MAX_MSG_SIZE) (hne : rest ≠ [])
    (hbuf : wire payload = (u.peers q).rxbuf ++ rest) : (u.peerReadableIter q).1 = u := by
  unfold peerReadableIter
  rcases part_of_wire hshort hne hbuf with h4 | ⟨hhead, hlt⟩
  · simp only [if_pos h4]
  · simp only [hhead, if_neg (Nat.not_lt.2 hshort), if_pos hlt, ite_self]

section Guest

variable {m q : ℕ} {π : Pairing} {s t : Hub} {payload sent : List UInt8}

/-- The answers of the environment to the further peer are of no account. -/
theorem InStep.rekern {b b' : ℕ → List Frame} (h : InStep π False b b' s t) (kern : Kern) :
    InStep π False b b' s { t with kern } := { h with answers := False.elim }

variable (hhello : MonitorHello payload) (h : Apart m (Unread (wire payload) sent) π s t)
  (ht : Sockets t) (hq : (t.peers q).fd = some m)
include hhello h ht hq

theorem Apart.guestRecv {r : ReadRes} (hsent : sent ++ (Event.recv m r).brings m <+: wire payload) :
    Apart m (Unread (wire payload) (sent ++ (Event.recv m r).brings m)) π s (t.step (.recv q r)) ∧
      SameHands π s s t (t.step (.recv q r)) := by
  have hfar := h.notMem_of_guest hq
  have ho := isOpen_of_fd hq
  have hstep : t.step (.recv q r) = t.recvBytes q r := if_pos ho
  have hlog := (step_persists t (.recv q r)).suffix
  rw [hstep] at hlog ⊢
  have hclosed : ((t.peerClose q).peers q).fd ≠ some m := by
    rw [peerClose_peers ho, Slots.set_same]
    exact fun hc => by cases hc
  have hfades := recvBytes_fades t q r
  cases r with
  | again =>
    refine h.guestOnly ht hq h.inStep hfades hlog fun _ => ?_
    rw [show (Event.recv m .again).brings m = [] from rfl, List.append_nil]
    exact (h.guest q m hfar hq).2
  | error =>
    exact h.guestOnly ht hq (h.inStep.closeFurther hfar) hfades hlog fun hc => absurd hc hclosed
  | data bytes =>
    rw [show (Event.recv m (.data bytes)).brings m = bytes from if_pos rfl] at hsent ⊢
    unfold recvBytes at hfades hlog ⊢
    dsimp only at hfades hlog ⊢
    split_ifs at hfades hlog ⊢ with hempty
    · exact h.guestOnly ht hq (h.inStep.closeFurther hfar) hfades hlog fun hc => absurd hc hclosed
    · refine h.guestOnly ht hq (h.inStep.modFurther hfar _ fun _ => rfl) hfades hlog fun _ => ?_
      simp only [modPeer, Slots.modify_same]
      have hle := hsent.length_le
      rw [List.length_append, wire_length] at hle
      have hsize : VBT_RXBUF_SIZE = 4 + VBT_MAX_MSG_SIZE := by
        simp only [VBT_RXBUF_SIZE, VBT_MAX_MSG_SIZE]
        omega
      have hshort := hhello.short
      rcases (h.guest q m hfar hq).2 with hbuf | ⟨-, hall⟩
      · rw [hbuf, List.take_of_length_le (by omega)]
        exact Or.inl rfl
      · -- the hello was complete, so there is nothing more to come
        rw [hall, wire_length] at hle
        rw [List.eq_nil_of_length_eq_zero (by omega : bytes.length = 0), List.take_nil] at hempty
        exact absurd rfl hempty

theorem Apart.guestMessage (kern : Kern) (hsent : sent <+: wire payload) :
    Apart m (Unread (wire payload) sent) π s (t.step (.message q kern)) ∧
      SameHands π s s t (t.step (.message q kern)) := by
  have hfar := h.notMem_of_guest hq
  have hstep : t.step (.message q kern) = (({ t with kern } : Hub).peerReadableIter q).1 :=
    if_pos (isOpen_of_fd hq)
  have hlog := (step_persists t (.message q kern)).suffix
  have hfades := step_fades (e := .message q kern) t rfl
  rw [hstep] at hlog hfades ⊢
  have hin := h.inStep.rekern kern
  have hidle : (({ t with kern } : Hub).peerReadableIter q).1 = { t with kern } →
      Apart m (Unread (wire payload) sent) π s (({ t with kern } : Hub).peerReadableIter q).1 ∧
        SameHands π s s t (({ t with kern } : Hub).peerReadableIter q).1 := by
    intro heq
    rw [heq]
    exact h.guestOnly ht hq hin (.of_peers rfl) List.suffix_rfl fun _ => (h.guest q m hfar hq).2
  rcases (h.guest q m hfar hq).2 with hbuf | ⟨hbuf, -⟩
  · obtain ⟨rest, hrest⟩ := hsent
    rw [← hbuf] at hrest
    by_cases hne : rest = []
    · rw [hne, List.append_nil] at hrest
      obtain ⟨a, ha, heq⟩ := peerReadableIter_monitor (u := { t with kern }) hhello hrest
      rw [heq] at hlog hfades ⊢
      have hseen := (hin.modFurther hfar (fun p => { p with framesSeen := p.framesSeen + 1 })
        fun _ => rfl).modFurther hfar (fun p => { p with isMonitor := true }) fun _ => rfl
      refine h.guestOnly ht hq ((hseen.akin (.refl s) (.note ha _)).modFurther hfar _
        fun _ => rfl) hfades
        hlog fun _ => Or.inr ⟨?_, hbuf ▸ hrest⟩
      simp only [modPeer, note, Slots.modify_same, hrest]
      exact List.drop_of_length_le (wire_length payload).le
    · exact hidle (peerReadableIter_unread hhello.short hne hrest.symm)
  · refine hidle ?_
    unfold peerReadableIter
    simp only [hbuf, List.length_nil, Nat.zero_lt_succ, if_true]

omit hhello in
theorem Apart.guestFlush (kern : Kern) :
    Apart m (Unread (wire payload) sent) π s (t.step (.flush q kern)) ∧
      SameHands π s s t (t.step (.flush q kern)) := by
  have hfar := h.notMem_of_guest hq
  have hstep : t.step (.flush q kern) = ({ t with kern } : Hub).peerFlush q :=
    if_pos (isOpen_of_fd hq)
  have hlog := (step_persists t (.flush q kern)).suffix
  have hfades := step_fades (e := .flush q kern) t rfl
  rw [hstep] at hlog hfades ⊢
  refine h.guestOnly ht hq ((h.inStep.rekern kern).flushFurther hfar) hfades hlog fun hc => ?_
  rcases peerFlush_lasts (p := q) { t with kern } q with ⟨-, hbuf⟩ | ⟨hnone, -⟩
  · rw [hbuf]
    exact (h.guest q m hfar hq).2
  · rw [hnone] at hc
    cases hc

omit hhello in
theorem Apart.guestClose :
    Apart m (Unread (wire payload) sent) π s (t.step (.close q)) ∧
        SameHands π s s t (t.step (.close q)) := by
  refine h.guestOnly ht hq (h.inStep.closeFurther (h.notMem_of_guest hq)) (peerClose_fades t q)
    (step_persists t (.close q)).suffix fun hc => ?_
  change ((t.peerClose q).peers q).fd = some m at hc
  rw [peerClose_peers (isOpen_of_fd hq), Slots.set_same] at hc
  cases hc

omit hq in
/-- **An event of the monitor** after it was accepted. -/
theorem Apart.guestEvent {e : Event} (hm : e.socket = some m) (ho : e.opens = none)
    (hsent : sent ++ e.brings m <+: wire payload) :
    Apart m (Unread (wire payload) (sent ++ e.brings m)) π s (t.advance e) ∧
      SameHands π s s t (t.advance e) := by
  cases hslot : t.slotOf m with
  | none =>
    have hnone : t.locate e = none := by
      cases e with
      | accept | upstream => cases ho
      | control => cases hm
      | recv x | message x | flush x | close x =>
        cases hm
        rw [locate, hslot]
        rfl
    rw [advance_of_none hnone]
    refine ⟨h.vacant fun q hfd => ?_, .refl π s t⟩
    rw [ht.slotOf_eq_some_iff.2 hfd] at hslot
    cases hslot
  | some q =>
    have hfd := ht.slotOf_eq_some_iff.1 hslot
    cases e with
    | accept | upstream => cases ho
    | control => cases hm
    | recv x r =>
      cases hm
      rw [advance_of_some (f := .recv q r) (by rw [locate, hslot]; rfl)]
      exact h.guestRecv hhello ht hfd hsent
    | message x kern =>
      cases hm
      rw [advance_of_some (f := .message q (t.answers kern)) (by rw [locate, hslot]; rfl)]
      rw [show (Event.message m kern).brings m = [] from rfl, List.append_nil] at hsent ⊢
      exact h.guestMessage hhello ht hfd _ hsent
    | flush x kern =>
      cases hm
      rw [advance_of_some (f := .flush q (t.answers kern)) (by rw [locate, hslot]; rfl)]
      rw [show (Event.flush m kern).brings m = [] from rfl, List.append_nil]
      exact h.guestFlush ht hfd _
    | close x =>
      cases hm
      rw [advance_of_some (f := .close q) (by rw [locate, hslot]; rfl)]
      rw [show (Event.close m).brings m = [] from rfl, List.append_nil]
      exact h.guestClose ht hfd

end Guest

/-! ### Sockets that are opened -/

theorem map_update_of_ne {ρ : ℕ → ℕ} {p q : ℕ} {o : Option ℕ} (h : o ≠ some p) :
    o.map (Function.update ρ p q) = o.map ρ := by
  cases o with
  | none => rfl
  | some p' => exact congrArg some (Function.update_of_ne (fun heq => h (congrArg some heq)) q ρ)

section Open

variable {m : ℕ} {P P' : List UInt8 → Prop} {π : Pairing} {s t : Hub}

/-- The monitor is accepted. -/
theorem Apart.guestOpens (h : Apart m P π s t) (ht : Sockets t) (hm : ∀ q, (t.peers q).fd ≠ some m)
    (bridge : Bool) (hP : P' []) :
    Apart m P' π s (t.advance (.accept m bridge)) ∧
        SameHands π s s t (t.advance (.accept m bridge)) := by
  rw [show t.advance (.accept m bridge) = (t.peerAlloc m bridge).1 from rfl]
  unfold peerAlloc
  cases ha : t.peers.alloc MAX_PEERS (fun p => !p.isOpen) { fd := some m, isBridge := bridge } with
  | none => exact ⟨h.vacant hm, .refl π s t⟩
  | some r =>
    obtain ⟨q, peers⟩ := r
    obtain ⟨hfree, hsize, hq, hget⟩ := ht.alloc ha
    have hqO : ∀ p ∈ π.slots, π.ren p ≠ q := by
      rintro p hp rfl
      rw [h.peers p hp] at hfree
      exact fd_ne_none (h.isOpen p hp) hfree
    have hold : ∀ p ∈ π.slots, peers (π.ren p) = s.peers p := by
      intro p hp
      rw [hget, if_neg (hqO p hp), h.peers p hp]
    refine ⟨{ h with
      peers := hold
      below := fun p hp => ⟨(h.below p hp).1, (h.below p hp).2.trans_le hsize⟩
      others := fun q' hq' => ?_
      guest := fun q' x hq' hfd => ?_ }, fun p hp => ?_⟩
    · show (peers q').nodeIdx = none
      rw [hget]
      split_ifs
      · rfl
      · exact h.others q' hq'
    · change (peers q').fd = some x at hfd
      show x = m ∧ P' (peers q').rxbuf
      rw [hget] at hfd ⊢
      split_ifs at hfd ⊢
      · exact ⟨(Option.some.inj hfd).symm, hP⟩
      · exact absurd ((h.guest q' x hq' hfd).1 ▸ hfd) (hm q')
    · rw [did_eq [.opened q bridge] rfl, did, since_self]
      rfl

/-- Both hubs have given a slot to the same socket. -/
theorem Apart.alloc (h : Apart m P π s t) (hs : Sockets s) (ht : Sockets t) {x : ℕ} (hx : x ≠ m)
    {bridge : Bool} {p q : ℕ} {peers peers' : Slots Peer}
    (ha : s.peers.alloc MAX_PEERS (fun p => !p.isOpen) { fd := some x, isBridge := bridge } =
      some (p, peers))
    (ha' : t.peers.alloc MAX_PEERS (fun p => !p.isOpen) { fd := some x, isBridge := bridge } =
      some (q, peers')) :
    Apart m P ⟨insert p π.slots, Function.update π.ren p q⟩
      (({ s with peers } : Hub).note (.opened p bridge))
      (({ t with peers := peers' } : Hub).note (.opened q bridge)) := by
  obtain ⟨hfree, hsize, hp, hget⟩ := hs.alloc ha
  obtain ⟨hfree', hsize', hq, hget'⟩ := ht.alloc ha'
  have hclosed : (s.peers p).isOpen ≠ true := fun ho => fd_ne_none ho hfree
  have hpO : p ∉ π.slots := fun hmem => hclosed (h.isOpen p hmem)
  have hqO : ∀ p' ∈ π.slots, π.ren p' ≠ q := by
    rintro p' hp' rfl
    rw [h.peers p' hp'] at hfree'
    exact fd_ne_none (h.isOpen p' hp') hfree'
  have hne : ∀ p' ∈ π.slots, p' ≠ p := by
    rintro p' hp' rfl
    exact hpO hp'
  have hself : Function.update π.ren p q p = q := Function.update_self p q π.ren
  have hren : ∀ p' ∈ π.slots, Function.update π.ren p q p' = π.ren p' := fun p' hp' =>
    Function.update_of_ne (hne p' hp') q π.ren
  have himg : ∀ q', q' ∉ Function.update π.ren p q '' insert p π.slots → q' ≠ q ∧
      q' ∉ π.ren '' π.slots := by
    refine fun q' hq' => ⟨?_, ?_⟩
    · rintro rfl
      exact hq' ⟨p, Set.mem_insert _ _, hself⟩
    · rintro ⟨p', hp', rfl⟩
      exact hq' ⟨p', Set.mem_insert_of_mem _ hp', hren p' hp'⟩
  exact
    { conns := h.conns
      overrides := h.overrides
      exponent := h.exponent
      autoId := h.autoId
      nodes := by
        show t.nodes = _
        rw [h.nodes]
        refine Slots.eq_of_apply rfl fun k => ?_
        have hk : (s.nodes k).peerIdx ≠ some p := fun hk => hpO (h.bound k p hk)
        simp only [note, Slots.map_apply, Node.rename, map_update_of_ne hk]
      upstream := by
        show t.upstream = _
        rw [h.upstream]
        refine Slots.eq_of_apply rfl fun i => ?_
        have hi : s.upstream i ≠ some p := by
          intro hi
          rcases Nat.lt_or_ge i s.upstream.size with hlt | hge
          · exact hclosed (h.up i hlt p hi)
          · rw [h.rim i hge] at hi
            cases hi
        exact (map_update_of_ne hi).symm
      peers := by
        show ∀ p' ∈ insert p π.slots, peers' (Function.update π.ren p q p') = peers p'
        rintro p' (rfl | hp')
        · rw [hself, hget, hget', if_pos rfl, if_pos rfl]
        · rw [hren p' hp', hget, hget', if_neg (hqO p' hp'), if_neg (hne p' hp'), h.peers p' hp']
      inj := by
        rintro p₁ (rfl | h₁) p₂ (rfl | h₂) heq
        · rfl
        · exact absurd ((hren p₂ h₂).symm.trans (heq.symm.trans hself)) (hqO p₂ h₂)
        · exact absurd ((hren p₁ h₁).symm.trans (heq.trans hself)) (hqO p₁ h₁)
        · exact h.inj h₁ h₂ ((hren p₁ h₁).symm.trans (heq.trans (hren p₂ h₂)))
      inside := by
        show ∀ p', (peers p').isOpen = true → p' ∈ insert p π.slots
        intro p' hp'
        rw [hget] at hp'
        split_ifs at hp' with heq
        · exact Or.inl heq
        · exact Or.inr (h.inside p' hp')
      below := by
        show ∀ p' ∈ insert p π.slots, p' < peers.size ∧ Function.update π.ren p q p' < peers'.size
        rintro p' (rfl | hp')
        · exact ⟨hp, hself.symm ▸ hq⟩
        · exact ⟨(h.below p' hp').1.trans_le hsize,
            hren p' hp' ▸ (h.below p' hp').2.trans_le hsize'⟩
      others := fun q' hq' => by
        show (peers' q').nodeIdx = none
        rw [hget', if_neg (himg q' hq').1]
        exact h.others q' (himg q' hq').2
      bound := fun k p' hk => Set.mem_insert_of_mem _ (h.bound k p' hk)
      up := by
        show ∀ i < s.upstream.size, ∀ p', s.upstream i = some p' → (peers p').isOpen = true
        intro i hi p' hp'
        rw [hget]
        split_ifs
        · rfl
        · exact h.up i hi p' hp'
      rim := h.rim
      isOpen := by
        show ∀ p' ∈ insert p π.slots, (peers p').isOpen = true
        rintro p' (rfl | hp')
        · rw [hget, if_pos rfl]
          rfl
        · rw [hget, if_neg (hne p' hp')]
          exact h.isOpen p' hp'
      guest := fun q' y hq' hfd => by
        change (peers' q').fd = some y at hfd
        show y = m ∧ P (peers' q').rxbuf
        rw [hget', if_neg (himg q' hq').1] at hfd ⊢
        exact h.guest q' y (himg q' hq').2 hfd
      own := fun p' => by
        show (peers p').fd ≠ some m
        rw [hget]
        split_ifs
        · exact fun hc => hx (Option.some.inj hc)
        · exact h.own p' }

/-- If the one hub has a free slot still when it has opened a socket, the other has one for that
socket. -/
theorem Apart.room (h : Apart m P π s t) (ht : Sockets t) {new : Peer} {p : ℕ}
    {peers : Slots Peer}
    (ha : s.peers.alloc MAX_PEERS (fun p => !p.isOpen) new = some (p, peers))
    (hnew : new.isOpen = true)
    (hmax : peers.size ≤ MAX_PEERS) (hfull : ∃ i < MAX_PEERS, (peers i).isOpen = false)
    (new' : Peer) : t.peers.alloc MAX_PEERS (fun p => !p.isOpen) new' ≠ none := by
  intro hnone
  obtain ⟨hcap, hall⟩ := Slots.alloc_eq_none_iff.1 hnone
  -- every slot of `t` has a peer of `s` or the monitor
  have hcover : Finset.range MAX_PEERS ⊆ (s.peers.used fun p => !p.isOpen).image π.ren ∪
      (Finset.range MAX_PEERS).filter fun q => (t.peers q).fd = some m := by
    intro q hq
    have hopen : (t.peers q).isOpen = true := by
      simpa using hall q ((Finset.mem_range.1 hq).trans_le hcap)
    rw [Finset.mem_union, Finset.mem_image, Finset.mem_filter]
    by_cases himg : q ∈ π.ren '' π.slots
    · obtain ⟨p', hp', rfl⟩ := himg
      refine Or.inl ⟨p', Slots.mem_used.2 ⟨(h.below p' hp').1, ?_⟩, rfl⟩
      rw [h.isOpen p' hp']
      rfl
    · obtain ⟨x, hx⟩ := Option.ne_none_iff_exists'.1 (fd_ne_none hopen)
      exact Or.inr ⟨hq, (h.guest q x himg hx).1 ▸ hx⟩
  have hone : ((Finset.range MAX_PEERS).filter fun q => (t.peers q).fd = some m).card ≤ 1 := by
    refine Finset.card_le_one.2 fun q hq q' hq' => ?_
    exact ht.distinct q q' m (Finset.mem_filter.1 hq).2 (Finset.mem_filter.1 hq').2
  have hcard : MAX_PEERS ≤ (s.peers.used fun p => !p.isOpen).card + 1 := by
    have hle := (Finset.card_le_card hcover).trans (Finset.card_union_le _ _)
    rw [Finset.card_range] at hle
    have himage := Finset.card_image_le (s := s.peers.used fun p => !p.isOpen) (f := π.ren)
    omega
  rw [← Slots.card_used_alloc ha (by rw [hnew]; rfl)] at hcard
  obtain ⟨i, hi, hclosed⟩ := hfull
  have hsub : (peers.used fun p => !p.isOpen) ⊆ (Finset.range MAX_PEERS).erase i := by
    intro j hj
    obtain ⟨hlt, hopen⟩ := Slots.mem_used.1 hj
    refine Finset.mem_erase.2 ⟨?_, Finset.mem_range.2 (hlt.trans_le hmax)⟩
    rintro rfl
    rw [hclosed] at hopen
    cases hopen
  have hlt := Finset.card_le_card hsub
  rw [Finset.card_erase_of_mem (Finset.mem_range.2 hi), Finset.card_range] at hlt
  omega

theorem NotFull.alloc_ne_none (h : NotFull s) (new : Peer) :
    s.peers.alloc MAX_PEERS (fun p => !p.isOpen) new ≠ none := by
  intro hnone
  obtain ⟨hcap, hall⟩ := Slots.alloc_eq_none_iff.1 hnone
  obtain ⟨i, hi, hclosed⟩ := h
  have hopen := hall i (hi.trans_le hcap)
  rw [hclosed] at hopen
  cases hopen

/-- Both hubs open a socket, and each finds a slot for it. -/
theorem Apart.peerAlloc (h : Apart m P π s t) (hs : Sockets s) (ht : Sockets t) {x : ℕ} (hx : x ≠ m)
    (bridge : Bool) (hfull : NotFull s) (hfull' : NotFull (s.peerAlloc x bridge).1)
    (hmax : (s.peerAlloc x bridge).1.peers.size ≤ MAX_PEERS) :
    ∃ s' t' p q π', s.peerAlloc x bridge = (s', some p) ∧ t.peerAlloc x bridge = (t', some q) ∧
      Apart m P π' s' t' ∧ p ∈ π'.slots ∧ π'.ren p = q ∧ s'.upstream = s.upstream ∧
      s'.log = .opened p bridge :: s.log ∧ t'.log = .opened q bridge :: t.log := by
  unfold Hub.peerAlloc at hfull' hmax ⊢
  obtain ⟨⟨p, peers⟩, ha⟩ := Option.ne_none_iff_exists'.1
    (hfull.alloc_ne_none { fd := some x, isBridge := bridge })
  rw [ha] at hfull' hmax ⊢
  obtain ⟨⟨q, peers'⟩, ha'⟩ := Option.ne_none_iff_exists'.1
    (h.room ht ha rfl hmax hfull' { fd := some x, isBridge := bridge })
  rw [ha']
  exact ⟨_, _, p, q, _, rfl, rfl, h.alloc hs ht hx ha ha', Set.mem_insert _ _,
    Function.update_self .., rfl,
    rfl, rfl⟩

/-- The peer of an upstream hub is entered into the table. -/
theorem Apart.enroll (h : Apart m P π s t) {i p : ℕ} (hi : i < s.upstream.size) (hp : p ∈ π.slots) :
    Apart m P π { s with upstream := s.upstream.set i (some p) }
      { t with upstream := t.upstream.set i (some (π.ren p)) } :=
  { h with
    upstream := by
      show t.upstream.set i _ = (s.upstream.set i (some p)).map (Option.map π.ren)
      rw [h.upstream, Slots.set_map]
      rfl
    up := by
      show ∀ j < s.upstream.size, ∀ p', (s.upstream.set i (some p)) j = some p' → _
      intro j hj p' hp'
      rw [Slots.set_apply] at hp'
      split_ifs at hp'
      · exact Option.some.inj hp' ▸ h.isOpen p hp
      · exact h.up j hj p' hp'
    rim := by
      show ∀ j, s.upstream.size ≤ j → (s.upstream.set i (some p)) j = none
      intro j hj
      rw [Slots.set_apply, if_neg (by omega)]
      exact h.rim j hj }

theorem peers_upstream {i x : ℕ} (hi : i < s.upstream.size ∧ s.upstream i = none) :
    (s.step (.upstream i x)).peers = (s.peerAlloc x true).1.peers := by
  simp only [step, if_pos hi]
  obtain ⟨u, _ | p⟩ := s.peerAlloc x true <;> rfl

/-- **A socket is opened** in both hubs. -/
theorem Apart.opens (h : Apart m P π s t) (hs : Sockets s) (ht : Sockets t) {e : Event} {x : ℕ}
    (he : e.opens = some x) (hx : x ≠ m) (hfull : NotFull s) (hfull' : NotFull (s.advance e))
    (hmax : (s.advance e).peers.size ≤ MAX_PEERS) :
    ∃ π', Apart m P π' (s.advance e) (t.advance e) ∧
        SameHands π s (s.advance e) t (t.advance e) := by
  have hhands : ∀ {u v : Hub} {p q : ℕ} {bridge : Bool}, u.log = .opened p bridge :: s.log →
      v.log = .opened q bridge :: t.log → SameHands π s u t v := by
    intro u v p q bridge hu hv i _
    rw [did_eq [.opened p bridge] hu, did_eq [.opened q bridge] hv]
    rfl
  rw [advance_of_some (s := s) (locate_of_opens he)] at hfull' hmax ⊢
  rw [advance_of_some (s := t) (locate_of_opens he)]
  cases e with
  | recv | message | flush | close | control => cases he
  | accept fd bridge =>
    cases he
    obtain ⟨s', t', p, q, π', hs', ht', ha, -, -, -, hl, hl'⟩ :=
      h.peerAlloc hs ht hx bridge hfull hfull' hmax
    simp only [step, hs', ht']
    exact ⟨π', ha, hhands hl hl'⟩
  | upstream i fd =>
    cases he
    have hsize : t.upstream.size = s.upstream.size := by
      rw [h.upstream]
      rfl
    have hentry : t.upstream i = none ↔ s.upstream i = none := by
      rw [h.upstream]
      exact Option.map_eq_none_iff
    by_cases hi : i < s.upstream.size ∧ s.upstream i = none
    · unfold NotFull at hfull'
      rw [peers_upstream hi] at hfull' hmax
      obtain ⟨s', t', p, q, π', hs', ht', ha, hp, rfl, hu, hl, hl'⟩ :=
        h.peerAlloc hs ht hx true hfull hfull' hmax
      simp only [step, hsize, hentry, if_pos hi, hs', ht']
      exact ⟨π', ha.enroll (hu ▸ hi.1) hp, hhands (u := { s' with upstream := _ })
        (v := { t' with upstream := _ }) hl hl'⟩
    · simp only [step, hsize, hentry, if_neg hi]
      exact ⟨π, h, .refl π s t⟩

end Open

/-! ### Whole runs -/

/-- The second session is the first one with a further socket `m` that makes no difference: the
others are handed the same, and the tables agree up to the numbers of the slots. -/
structure Unnoticed (m : ℕ) (c d : Session) : Prop where
  heard : ∀ x ≠ m, d.heard x = c.heard x
  conns : d.hub.conns = c.hub.conns
  slots : ∃ ρ : ℕ → ℕ, Set.InjOn ρ {p | (c.hub.peers p).isOpen = true} ∧
    (∀ p, (c.hub.peers p).isOpen = true → d.hub.peers (ρ p) = c.hub.peers p) ∧
    d.hub.nodes = c.hub.nodes.map (Node.rename ρ)

/-- What is assumed of a run with a monitor, with the hello of the monitor fixed. -/
structure Setting (n m : ℕ) (payload : List UInt8) (es : List Event) : Prop where
  hello : MonitorHello payload
  said : said m es <+: wire payload
  accepted : ∀ i, Event.upstream i m ∉ es
  first : ∀ pre e post, es = pre ++ e :: post → e.socket = some m → e.opens = none → m ∈ names pre
  names : (names es).Nodup
  noLoss : ∀ bs, bs <+: purge m es → NoLoss (play n bs).hub
  notFull : ∀ bs, bs <+: purge m es → NotFull (play n bs).hub
  noRebinding : NoRebinding (play n (purge m es)).hub.log

section Runs

variable {n m : ℕ} {payload : List UInt8} {es as : List Event} {e : Event}

theorem play_suffix (n : ℕ) {as es : List Event} (h : as <+: es) :
    (play n as).hub.log <:+ (play n es).hub.log := by
  obtain ⟨rest, rfl⟩ := h
  induction rest using List.reverseRecOn with
  | nil => rw [List.append_nil]
  | append_singleton rest e ih =>
    rw [← List.append_assoc, play_concat]
    exact ih.trans (advance_suffix _ e)

theorem said_concat (m : ℕ) (es : List Event) (e : Event) :
    said m (es ++ [e]) = said m es ++ e.brings m := by
  simp [said]

theorem brings_of_ne (h : e.socket ≠ some m) : e.brings m = [] := by
  cases e with
  | recv x r =>
    cases r with
    | data bytes => exact if_neg fun hx => h (congrArg some hx)
    | again | error => rfl
  | accept | upstream | message | flush | close | control => rfl

/-- The assumptions hold up to every point of the run. -/
theorem Setting.begins (h : Setting n m payload es) (has : as <+: es) : Setting n m payload as := by
  have hpurge : purge m as <+: purge m es := has.filter _
  obtain ⟨new, hlog⟩ := play_suffix n hpurge
  obtain ⟨rest, hrest⟩ := has
  refine ⟨h.hello, ?_, fun i hi => h.accepted i ?_, fun pre e post heq => ?_, ?_,
    fun bs hbs => h.noLoss bs (hbs.trans hpurge), fun bs hbs => h.notFull bs (hbs.trans hpurge), ?_⟩
  · refine List.IsPrefix.trans ?_ h.said
    rw [← hrest, Hub.said, Hub.said, List.flatMap_append]
    exact List.prefix_append _ _
  · rw [← hrest]
    exact List.mem_append_left _ hi
  · refine h.first pre e (post ++ rest) ?_
    rw [← hrest, heq, List.append_assoc, List.cons_append]
  · have hnames := h.names
    rw [← hrest, Hub.names, List.filterMap_append] at hnames
    exact (List.nodup_append.1 hnames).1
  · have hreb := h.noRebinding
    rw [← hlog] at hreb
    exact hreb.of_append

theorem Setting.sockets (h : Setting n m payload es) :
    Sockets (play n (purge m es)).hub ∧ Sockets (play n es).hub :=
  ⟨play_sockets (h.names.sublist (List.filter_sublist.filterMap Event.opens)), play_sockets h.names⟩

/-- Until it is accepted, nothing is heard of the monitor. -/
theorem Setting.said_eq_nil (h : Setting n m payload es) (hm : m ∉ Hub.names es) :
    Hub.said m es = [] := by
  refine List.flatMap_eq_nil_iff.2 fun e he => brings_of_ne fun hs => hm ?_
  cases ho : e.opens with
  | none =>
    obtain ⟨pre, post, rfl⟩ := List.append_of_mem he
    have hmem := h.first pre e post rfl hs ho
    rw [Hub.names, List.filterMap_append]
    exact List.mem_append_left _ hmem
  | some x =>
    have hx : some x = some m := by
      rw [← ho, ← hs]
      cases e with
      | accept | upstream => rfl
      | recv | message | flush | close | control => cases ho
    exact List.mem_filterMap.2 ⟨e, he, ho.trans hx⟩

theorem apart_init (n m : ℕ) (P : List UInt8 → Prop) :
    Apart m P ⟨∅, id⟩ (Hub.init n) (Hub.init n) where
  nodes := Slots.eq_of_apply rfl fun _ => rfl
  conns := rfl
  overrides := rfl
  exponent := rfl
  autoId := rfl
  upstream := Slots.eq_of_apply rfl fun _ => rfl
  peers _ hp := absurd hp (Set.notMem_empty _)
  inj := Set.injOn_empty _
  inside _ hp := by cases hp
  below _ hp := absurd hp (Set.notMem_empty _)
  others _ _ := rfl
  bound _ _ hk := by cases hk
  up _ _ _ hi := by cases hi
  rim _ _ := rfl
  isOpen _ hp := absurd hp (Set.notMem_empty _)
  guest _ _ _ hfd := by cases hfd
  own _ hfd := by cases hfd

/-- The invariant of the two runs. -/
def Alongside (n m : ℕ) (payload : List UInt8) (es : List Event) : Prop :=
  (∃ π, Apart m (Unread (wire payload) (said m es)) π (play n (purge m es)).hub (play n es).hub) ∧
    ∀ x ≠ m, (play n es).heard x = (play n (purge m es)).heard x

/-- One event of the monitor. -/
theorem Alongside.guest (h : Alongside n m payload es) (hset : Setting n m payload (es ++ [e]))
    (hm : e.socket = some m) : Alongside n m payload (es ++ [e]) := by
  have hes := hset.begins (List.prefix_append es [e])
  obtain ⟨⟨π, ha⟩, hheard⟩ := h
  obtain ⟨hs, ht⟩ := hes.sockets
  have hpurge : purge m (es ++ [e]) = purge m es := by simp [purge, hm]
  have hstep : Apart m (Unread (wire payload) (Hub.said m (es ++ [e]))) π (play n (purge m es)).hub
        ((play n es).hub.advance e) ∧
      SameHands π (play n (purge m es)).hub (play n (purge m es)).hub (play n es).hub
        ((play n es).hub.advance e) := by
    have hsaid := hset.said
    rw [said_concat] at hsaid ⊢
    cases ho : e.opens with
    | none => exact ha.guestEvent hset.hello ht hm ho hsaid
    | some x =>
      cases e with
      | recv | message | flush | close | control => cases ho
      | upstream i fd =>
        cases hm
        exact absurd (by simp) (hset.accepted i)
      | accept fd bridge =>
        cases hm
        have hfresh := play_fresh (n := n) hset.names (x := m) rfl
        have hnil : Hub.said m es = [] := hes.said_eq_nil fun hmem => by
          have := hset.names
          rw [names_concat] at this
          exact (List.nodup_append.1 this).2.2 m hmem m (List.mem_singleton_self m) rfl
        refine ha.guestOpens ht hfresh bridge (Or.inl ?_)
        rw [hnil]
        rfl
  unfold Alongside
  rw [hpurge, play_concat]
  refine ⟨⟨π, hstep.1⟩, fun x hx => ?_⟩
  show (play n es).heard x ++ (play n es).hub.handed e x = _
  rw [ha.handed_eq_nil hs ht hstep.2 hx, List.append_nil, hheard x hx]

/-- One event of another socket. -/
theorem Alongside.other (h : Alongside n m payload es) (hset : Setting n m payload (es ++ [e]))
    (hm : e.socket ≠ some m) : Alongside n m payload (es ++ [e]) := by
  have hes := hset.begins (List.prefix_append es [e])
  obtain ⟨⟨π, ha⟩, hheard⟩ := h
  obtain ⟨hs, ht⟩ := hes.sockets
  have hpurge : purge m (es ++ [e]) = purge m es ++ [e] := by simp [purge, hm]
  have hstep : ∃ π', Apart m (Unread (wire payload) (Hub.said m es)) π'
        ((play n (purge m es)).hub.advance e) ((play n es).hub.advance e) ∧
      SameHands π (play n (purge m es)).hub ((play n (purge m es)).hub.advance e) (play n es).hub
        ((play n es).hub.advance e) := by
    have hreach := (play_reachable n (purge m es)).advance e
    cases ho : e.opens with
    | none =>
      refine ha.shared hs ht (hes.noLoss _ List.prefix_rfl) hm ho (hreach.anchored ?_)
      have hreb := hset.noRebinding
      rwa [hpurge, play_concat] at hreb
    | some x =>
      have hx : x ≠ m := by
        rintro rfl
        cases e with
        | accept | upstream => exact hm ho
        | recv | message | flush | close | control => cases ho
      have hfull := hset.notFull _ List.prefix_rfl
      rw [hpurge, play_concat] at hfull
      exact ha.opens hs ht ho hx (hes.notFull _ List.prefix_rfl) hfull hreach.tracked.tidy.peersMax
  obtain ⟨π', hπ', hhands⟩ := hstep
  unfold Alongside
  rw [hpurge, play_concat, play_concat, said_concat, brings_of_ne hm, List.append_nil]
  refine ⟨⟨π', hπ'⟩, fun x hx => ?_⟩
  show (play n es).heard x ++ (play n es).hub.handed e x =
    (play n (purge m es)).heard x ++ (play n (purge m es)).hub.handed e x
  rw [hheard x hx, ha.handed_eq hs ht hhands hx]

theorem Setting.alongside (h : Setting n m payload es) : Alongside n m payload es := by
  induction es using List.reverseRecOn with
  | nil => exact ⟨⟨_, apart_init n m _⟩, fun _ _ => rfl⟩
  | append_singleton es e ih =>
    have hes := ih (h.begins (List.prefix_append es [e]))
    by_cases hm : e.socket = some m
    · exact hes.guest h hm
    · exact hes.other h hm

theorem Alongside.unnoticed (h : Alongside n m payload es) :
    Unnoticed m (play n (purge m es)) (play n es) := by
  obtain ⟨⟨π, ha⟩, hheard⟩ := h
  exact ⟨hheard, ha.conns, π.ren, ha.inj.mono fun p hp => ha.inside p hp,
    fun p hp => ha.peers p (ha.inside p hp), ha.nodes⟩

/-- **A monitor perturbs nothing**, at any point of a run without losses in which the peer table is
not full and no hello rebinds a peer: the others are handed the same frames as without it, and the
tables are the same up to the numbers of the slots. -/
theorem monitor_unnoticed (n : ℕ) {m : ℕ} {es : List Event} (hm : Monitors m es)
    (hnames : (names es).Nodup) (hloss : ∀ bs, bs <+: purge m es → NoLoss (play n bs).hub)
    (hfull : ∀ bs, bs <+: purge m es → NotFull (play n bs).hub)
    (hreb : NoRebinding (play n (purge m es)).hub.log) {as : List Event} (has : as <+: es) :
    Unnoticed m (play n (purge m as)) (play n as) := by
  obtain ⟨payload, hhello, hsaid⟩ := hm.hello
  have hset : Setting n m payload es := ⟨hhello, hsaid, hm.accepted, hm.first, hnames, hloss, hfull,
    hreb⟩
  exact (hset.begins has).alongside.unnoticed

end Runs

/-! ### Two runs -/

theorem first_of_accept {m : ℕ} {bridge : Bool} {before after : List Event}
    (h : ∀ e ∈ before, e.socket ≠ some m) (pre : List Event) (e : Event) (post : List Event)
    (heq : before ++ .accept m bridge :: after = pre ++ e :: post) (hs : e.socket = some m)
    (ho : e.opens = none) : m ∈ names pre := by
  rcases List.append_eq_append_iff.1 heq with ⟨mid, hpre, htail⟩ | ⟨mid, hbefore, htail⟩
  · cases mid with
    | nil =>
      obtain rfl := (List.cons.inj htail).1
      cases ho
    | cons e' mid =>
      obtain rfl := (List.cons.inj htail).1
      rw [hpre, names, List.filterMap_append]
      exact List.mem_append_right _ List.mem_cons_self
  · cases mid with
    | nil =>
      obtain rfl := (List.cons.inj htail).1
      cases ho
    | cons e' mid =>
      obtain rfl := (List.cons.inj htail).1
      exact absurd hs (h e (hbefore ▸ List.mem_append_right _ List.mem_cons_self))

/-- The hello of the monitor. -/
def monitorHello : List UInt8 := helloPayload [0x4D] VBT_HELLO_FLAG_MONITOR

theorem monitorHello_read : MonitorHello monitorHello where
  read := ⟨⟨[0x4D], false, true⟩, by decide +kernel, rfl, by decide⟩
  short := by decide

theorem NoLoss.of_empty {s : Hub} (h : s.overrides.size = 0) : NoLoss s := by
  intro i hi
  rw [h] at hi
  exact absurd hi (Nat.not_lt_zero i)

/-- `A` says hello, a monitor listens, `B` says hello, the monitor goes, and `B` advertises. -/
def tappedRun : List Event :=
  ([.accept 5 false] ++ sends 5 (helloPayload [0x41] 0)) ++ .accept 9 false ::
    (sends 9 monitorHello ++ [.accept 7 false] ++ sends 7 (helloPayload [0x42] 0) ++ [.close 9] ++
      sends 7 (plainFrame VBT_LL_ADV VBT_ADV_ACCESS_ADDR (addr 1) [0, 6, 1, 0, 0, 0, 0, 0]).payload)

theorem monitors_tappedRun : Monitors 9 tappedRun where
  accepted i := by simp [tappedRun, sends]
  first := first_of_accept (by decide)
  hello := ⟨monitorHello, monitorHello_read, by decide +kernel⟩

theorem monitor_unnoticed_tapped :
    Monitors 9 tappedRun ∧ ((play 0 tappedRun).heard 5).length = 1 ∧
      (play 0 (purge 9 tappedRun)).hub.slotOf 7 = some 1 ∧
        (play 0 tappedRun).hub.slotOf 7 = some 2 ∧
      Unnoticed 9 (play 0 (purge 9 tappedRun)) (play 0 tappedRun) := by
  have hloss : ∀ bs ∈ (purge 9 tappedRun).inits, (play 0 bs).hub.overrides.size = 0 :=
    by decide +kernel
  have hfull : ∀ bs ∈ (purge 9 tappedRun).inits, ((play 0 bs).hub.peers 299).isOpen = false := by
    decide +kernel
  refine ⟨monitors_tappedRun, by decide +kernel, by decide +kernel, by decide +kernel, ?_⟩
  exact monitor_unnoticed 0 monitors_tappedRun (by decide +kernel)
    (fun bs hbs => .of_empty (hloss bs ((List.mem_inits _ _).2 hbs)))
    (fun bs hbs => ⟨299, by decide, hfull bs ((List.mem_inits _ _).2 hbs)⟩)
    (by decide +kernel) List.prefix_rfl

/-- `A` says hello as `x`, advertises, and says hello as `y`. `D` connects to the address that `x`
has advertised. `A` goes, and its slot is free: the monitor takes it, if there is one, and otherwise
`B` does. Then `D` sends data. -/
def reboundRun : List Event :=
  ([.accept 5 false] ++ sends 5 (helloPayload [0x78] 0) ++
      sends 5 (plainFrame VBT_LL_ADV VBT_ADV_ACCESS_ADDR (addr 1) [0, 6, 1, 0, 0, 0, 0, 0]).payload ++
      sends 5 (helloPayload [0x79] 0) ++ [.accept 6 false] ++ sends 6 (helloPayload [0x44] 0) ++
      sends 6 (plainFrame VBT_LL_ADV VBT_ADV_ACCESS_ADDR (addr 2)
        (connectInd (addr 2) (addr 1) 0x1234)).payload ++ [.close 5]) ++ .accept 9 false ::
    (sends 9 monitorHello ++ [.accept 7 false] ++
      sends 6 (plainFrame VBT_LL_DATA 0x1234 (addr 2) [2, 1, 0]).payload)

theorem monitors_reboundRun : Monitors 9 reboundRun where
  accepted i := by simp [reboundRun, sends]
  first := first_of_accept (by decide)
  hello := ⟨monitorHello, monitorHello_read, by decide +kernel⟩

/-- Without the monitor, the data reaches `B`, which has the slot that node `x` still refers to.
With the monitor, it does not. -/
theorem monitor_noticed_rebound :
    Monitors 9 reboundRun ∧ (names reboundRun).Nodup ∧
      (∀ bs, bs <+: purge 9 reboundRun → NoLoss (play 0 bs).hub ∧ NotFull (play 0 bs).hub) ∧
      ((play 0 (purge 9 reboundRun)).heard 7).length = 1 ∧ (play 0 reboundRun).heard 7 = [] ∧
      ¬ Unnoticed 9 (play 0 (purge 9 reboundRun)) (play 0 reboundRun) := by
  have hloss : ∀ bs ∈ (purge 9 reboundRun).inits, (play 0 bs).hub.overrides.size = 0 :=
    by decide +kernel
  have hfull : ∀ bs ∈ (purge 9 reboundRun).inits, ((play 0 bs).hub.peers 299).isOpen = false := by
    decide +kernel
  have hbare : ((play 0 (purge 9 reboundRun)).heard 7).length = 1 := by decide +kernel
  have htapped : (play 0 reboundRun).heard 7 = [] := by decide +kernel
  refine ⟨monitors_reboundRun, by decide +kernel, fun bs hbs => ?_, hbare, htapped, fun h => ?_⟩
  · exact ⟨.of_empty (hloss bs ((List.mem_inits _ _).2 hbs)), 299, by decide,
      hfull bs ((List.mem_inits _ _).2 hbs)⟩
  · rw [← h.heard 7 (by decide), htapped] at hbare
    cases hbare

end Hub
end Vbt
