import Vbt.Client.Device

/-!
# The daemons and their connection to the medium

`vbt_controller.c` and `vbt_vhost_user.c` run a core in a loop over `poll`. The connection to the hub
may be lost in `medium_readable` and, by a failed `write`, in any call of the core. The loop itself
looks whether there is a connection and tries again every two seconds.

* `Daemon`: the medium side of a daemon, with its core; `Round`, `round`: one iteration of the loop;
* `Keeps`: what the calls before the end of an iteration leave alone;
* `daemon_recovers`: what holds in every run.
-/

namespace Vbt

open Hub
open VbtLl (Input vbtLlNew fromHost)

def TICK_MS : UInt64 := 5
def MEDIUM_RECONNECT_MS : UInt64 := 2000

/-- The medium side of a daemon, with the variables of its loop. The last two fields are a record
for theorems: the bytes that were read since the last connect, and the times at which the loop tried
to connect, newest first. -/
structure Daemon where
  ll : VbtLl
  mediumFd : Option ℕ := none
  rxbuf : List UInt8 := []
  lastTick : UInt64
  lastReconnect : UInt64 := 0
  env : DeviceEnv := {}
  stream : List UInt8 := []
  attempts : List UInt64 := []

/-- What `poll` finds: a packet of the host or the guest, or bytes of the hub. -/
inductive Work
  | host (pkt : List UInt8)
  | medium (r : ReadRes)

/-- Neither the end of the stream nor an error. -/
def Work.Fine : Work → Prop
  | .medium (.data bytes) => bytes ≠ []
  | .medium .error => False
  | _ => True

/-- An iteration of the loop: the work in the order in which it is done, the time, what an attempt
to connect would return, and the answers to the `write` calls. -/
structure Round where
  works : List Work
  now : UInt64
  connect : Option ℕ
  env : DeviceEnv := {}

/-- The hub is there: it accepts connections, and neither a `read` nor a `write` fails. -/
structure Round.Fine (r : Round) : Prop where
  works : ∀ w ∈ r.works, w.Fine
  connect : r.connect.isSome
  env : r.env.Healthy

namespace Daemon

/-- `cb_pdu_to_medium`. -/
def cbPduToMedium (s : Daemon) (f : Frame) : Daemon :=
  if s.mediumFd.isNone then s
  else
    let all := (Client.writeAll (wire f.payload).length 0 (s.env.writes.headD [])).2
    let s := { s with env := { s.env with writes := s.env.writes.tail } }
    if all then s else { s with mediumFd := none }

/-- The core handles a call. The PDUs it sends on the way go to `cb_pdu_to_medium` one by one. -/
def call (s : Daemon) (i : Input) : Daemon :=
  ((s.ll.step i).frames.drop s.ll.frames.length).foldl cbPduToMedium { s with ll := s.ll.step i }

/-- One whole message at the head of the buffer: a frame goes to the core. -/
def takeMessage (s : Daemon) (msg : ℕ) : Daemon :=
  let hdr := hdrOfBytes fun i => (s.rxbuf.drop 4).getD i 0
  if VBT_HDR_SIZE ≤ msg ∧ hdr.magic = VBT_MAGIC ∧ msg - VBT_HDR_SIZE = hdr.pduLen.toNat then
    s.call (.pdu hdr (Mem.ofList (s.rxbuf.drop (4 + VBT_HDR_SIZE)) s.env.stale) (msg - VBT_HDR_SIZE))
  else s

/-- One iteration of the loop in `medium_readable`, and whether that loop goes on. -/
def readIter (s : Daemon) : Daemon × Bool :=
  if s.rxbuf.length < 4 then (s, false)
  else
    let msg := headLen s.rxbuf
    if VBT_MAX_MSG_SIZE < msg then ({ s with rxbuf := [] }, false)
    else if s.rxbuf.length < 4 + msg then (s, false)
    else
      let s := s.takeMessage msg
      ({ s with rxbuf := s.rxbuf.drop (4 + msg) }, true)

/-- What the guard in front of the `read` leaves in the buffer. -/
def held (s : Daemon) : List UInt8 := if VBT_RXBUF_SIZE ≤ s.rxbuf.length then [] else s.rxbuf

/-- `medium_readable`. If a call of the core has closed the socket since `poll`, the `read` fails. -/
def mediumReadable (s : Daemon) (r : ReadRes) : Daemon :=
  if s.mediumFd.isNone then s
  else
    match r with
    | .again => s
    | .error => { s with mediumFd := none }
    | .data bytes =>
      let got := bytes.take (VBT_RXBUF_SIZE - s.held.length)
      if got.isEmpty then { s with mediumFd := none }
      else
        loopWhile readIter (s.held ++ got).length
          { s with rxbuf := s.held ++ got, stream := s.stream ++ got }

/-- `vhci_readable` and one packet of `handle_tx`, and `medium_readable`. -/
def work (s : Daemon) : Work → Daemon
  | .host pkt =>
    let pkt := pkt.take VBT_MAX_MSG_SIZE
    if pkt.isEmpty then s else s.call (fromHost s.env.stale pkt)
  | .medium r => s.mediumReadable r

/-- `connect_medium`; `none` if `socket`, `connect` or the `write` of the hello fails. -/
def connectMedium (s : Daemon) : Option ℕ → Daemon
  | none => s
  | some fd => { s with mediumFd := some fd, rxbuf := [], stream := [] }

/-- An iteration of the loop, up to the attempt to connect. -/
def attended (s : Daemon) (r : Round) : Daemon :=
  let s := r.works.foldl work { s with env := r.env }
  if TICK_MS ≤ r.now - s.lastTick then { s.call (.tick r.now) with lastTick := r.now } else s

/-- An iteration of the loop. -/
def round (s : Daemon) (r : Round) : Daemon :=
  let s := s.attended r
  if s.mediumFd.isNone ∧ MEDIUM_RECONNECT_MS ≤ r.now - s.lastReconnect then
    connectMedium { s with lastReconnect := r.now, attempts := r.now :: s.attempts } r.connect
  else s

/-- The loop begins: once in `main` of `vbt_controller.c`, and in `serve_connection` each time QEMU
connects. -/
def serve (s : Daemon) (now : UInt64) : Daemon :=
  { s with lastTick := now, lastReconnect := 0, attempts := [] }

/-- A daemon after some loops, each with the time of its beginning. -/
def run (s : Daemon) (loops : List (UInt64 × List Round)) : Daemon :=
  loops.foldl (fun s l => l.2.foldl round (s.serve l.1)) s

/-- What is set up before the first loop. -/
def start (bdaddr : BdAddr) (res : Option ℕ) : Daemon :=
  connectMedium { ll := vbtLlNew bdaddr, lastTick := 0 } res

/-! ### What the calls leave alone -/

/-- The loop's variables stay, and the buffer still holds bytes of this connection. If `fine` and no
`write` fails, so does the connection. -/
structure Keeps (fine : Prop) (s s' : Daemon) : Prop where
  lastReconnect : s'.lastReconnect = s.lastReconnect
  attempts : s'.attempts = s.attempts
  buffer : s.rxbuf <:+ s.stream → s'.rxbuf <:+ s'.stream
  fd : fine → s.env.Healthy → s'.env.Healthy ∧ s'.mediumFd = s.mediumFd

section Keeps

variable {fine : Prop} {s s' s'' : Daemon}

theorem Keeps.refl (s : Daemon) : Keeps fine s s := ⟨rfl, rfl, id, fun _ h => ⟨h, rfl⟩⟩

theorem Keeps.trans (h : Keeps fine s s') (h' : Keeps fine s' s'') : Keeps fine s s'' where
  lastReconnect := h'.lastReconnect.trans h.lastReconnect
  attempts := h'.attempts.trans h.attempts
  buffer hb := h'.buffer (h.buffer hb)
  fd hf hs := by
    obtain ⟨he, hfd⟩ := h.fd hf hs
    obtain ⟨he', hfd'⟩ := h'.fd hf he
    exact ⟨he', hfd'.trans hfd⟩

theorem cbPduToMedium_keeps (s : Daemon) (f : Frame) : Keeps fine s (s.cbPduToMedium f) := by
  unfold cbPduToMedium
  dsimp only
  split_ifs with hnone hall
  · exact .refl s
  · exact ⟨rfl, rfl, id, fun _ hs => ⟨fun ws hws => hs ws (List.mem_of_mem_tail hws), rfl⟩⟩
  · refine ⟨rfl, rfl, id, fun _ hs => absurd (VirtIOBT.writeAll_healthy _ _ fun w hw => ?_) hall⟩
    cases hws : s.env.writes with
    | nil => simp [hws] at hw
    | cons ws rest => exact hs ws (by simp [hws]) w (by simpa [hws] using hw)

theorem call_keeps (s : Daemon) (i : Input) : Keeps fine s (s.call i) :=
  List.foldlRecOn (motive := Keeps fine s) _ _ ⟨rfl, rfl, id, fun _ h => ⟨h, rfl⟩⟩
    fun t ht f _ => ht.trans (cbPduToMedium_keeps t f)

theorem readIter_keeps (s : Daemon) : Keeps fine s s.readIter.1 := by
  simp only [readIter]
  split_ifs
  · exact .refl s
  · exact ⟨rfl, rfl, fun _ => List.nil_suffix, fun _ h => ⟨h, rfl⟩⟩
  · exact .refl s
  · have htake : Keeps fine s (s.takeMessage (headLen s.rxbuf)) := by
      unfold takeMessage
      dsimp only
      split_ifs
      · exact call_keeps s _
      · exact .refl s
    exact ⟨htake.lastReconnect, htake.attempts,
      fun hb => (List.drop_suffix _ _).trans (htake.buffer hb), htake.fd⟩

theorem loop_keeps (n : ℕ) (s : Daemon) : Keeps fine s (loopWhile readIter n s) :=
  loopWhile_rule (fun _ => id) (fun t ht _ => ht.trans (readIter_keeps t))
    (fun t ht _ => ht.trans (readIter_keeps t)) n (.refl s)

theorem held_cases (s : Daemon) : s.held.length < VBT_RXBUF_SIZE ∧ s.held <:+ s.rxbuf := by
  unfold held
  split_ifs with h
  · exact ⟨by decide, List.nil_suffix⟩
  · exact ⟨Nat.lt_of_not_le h, List.suffix_rfl⟩

theorem work_keeps (s : Daemon) (w : Work) : Keeps w.Fine s (s.work w) := by
  cases w with
  | host pkt =>
    simp only [work]
    split_ifs
    · exact .refl s
    · exact call_keeps s _
  | medium r =>
    simp only [work, mediumReadable]
    split_ifs with hnone
    · exact .refl s
    cases r with
    | again => exact .refl s
    | error => exact ⟨rfl, rfl, id, fun hf => hf.elim⟩
    | data bytes =>
      obtain ⟨hroom, hheld⟩ := held_cases s
      dsimp only
      split_ifs with hempty
      · refine ⟨rfl, rfl, id, fun hne => absurd hempty ?_⟩
        rw [List.isEmpty_iff, List.take_eq_nil_iff]
        rintro (h | h)
        · omega
        · exact hne h
      · have hput : Keeps (Work.medium (.data bytes)).Fine s { s with
            rxbuf := s.held ++ bytes.take (VBT_RXBUF_SIZE - s.held.length)
            stream := s.stream ++ bytes.take (VBT_RXBUF_SIZE - s.held.length) } := by
          refine ⟨rfl, rfl, fun hb => ?_, fun _ h => ⟨h, rfl⟩⟩
          obtain ⟨before, hbefore⟩ := hheld.trans hb
          exact ⟨before, by rw [← hbefore, List.append_assoc]⟩
        exact hput.trans (loop_keeps _ _)

/-- All of an iteration but the attempt to connect. -/
theorem attended_keeps (s : Daemon) (r : Round) :
    Keeps (∀ w ∈ r.works, w.Fine) { s with env := r.env } (s.attended r) := by
  have hworks : Keeps (∀ w ∈ r.works, w.Fine) { s with env := r.env }
      (r.works.foldl work { s with env := r.env }) :=
    List.foldlRecOn (motive := Keeps (∀ w ∈ r.works, w.Fine) { s with env := r.env }) _ _ (.refl _)
      fun t ht w hw => ht.trans
        { work_keeps t w with fd := fun hf => (work_keeps t w).fd (hf w hw) }
  simp only [attended]
  split_ifs
  · have htick := hworks.trans (call_keeps _ (.tick r.now))
    exact ⟨htick.lastReconnect, htick.attempts, htick.buffer, htick.fd⟩
  · exact hworks

end Keeps

/-! ### Recovery -/

/-- The buffer holds bytes of one connection only, and the attempts to connect are two seconds
apart. -/
structure Inv (s : Daemon) : Prop where
  buffer : s.rxbuf <:+ s.stream
  spaced : s.attempts.IsChain fun later earlier => MEDIUM_RECONNECT_MS ≤ later - earlier
  last : ∀ a ∈ s.attempts.head?, a = s.lastReconnect

section Recovery

variable {s : Daemon} {r : Round}

theorem Inv.connectMedium (h : Inv s) (res : Option ℕ) : Inv (s.connectMedium res) := by
  cases res with
  | none => exact h
  | some fd => exact ⟨List.nil_suffix, h.spaced, h.last⟩

theorem Inv.round (h : Inv s) (r : Round) : Inv (s.round r) := by
  have hk := attended_keeps s r
  have ha : Inv (s.attended r) := by
    refine ⟨hk.buffer h.buffer, ?_, ?_⟩
    · rw [hk.attempts]
      exact h.spaced
    · rw [hk.attempts, hk.lastReconnect]
      exact h.last
  simp only [Daemon.round]
  split_ifs with hdue
  · refine Inv.connectMedium (s := { s.attended r with
      lastReconnect := r.now, attempts := r.now :: (s.attended r).attempts })
      ⟨ha.buffer, List.isChain_cons.2 ⟨fun a hmem => ?_, ha.spaced⟩, ?_⟩ _
    · rw [ha.last a hmem]
      exact hdue.2
    · rintro a ⟨⟩
      rfl
  · exact ha

theorem Inv.run (h : Inv s) (loops : List (UInt64 × List Round)) : Inv (s.run loops) :=
  List.foldlRecOn (motive := Inv) loops _ h fun t ht l _ =>
    List.foldlRecOn (motive := Inv) l.2 _ ⟨ht.buffer, .nil, fun a ha => by cases ha⟩
      fun _ hq r _ => hq.round r

/-- Without a connection, the last attempt is less than two seconds ago. -/
theorem round_none (h : (s.round r).mediumFd = none) :
    r.now - (s.round r).lastReconnect < MEDIUM_RECONNECT_MS := by
  simp only [Daemon.round] at h ⊢
  split_ifs at h ⊢ with hdue
  · cases hres : r.connect with
    | none =>
      rw [connectMedium]
      dsimp only
      rw [UInt64.sub_self]
      decide
    | some fd =>
      rw [hres] at h
      cases h
  · have hlate : ¬ MEDIUM_RECONNECT_MS ≤ r.now - (s.attended r).lastReconnect := fun hle =>
      hdue ⟨by rw [h]; rfl, hle⟩
    exact UInt64.not_le.1 hlate

/-- While the hub is there a connection stays, and an attempt makes one. -/
theorem round_fine (hr : r.Fine) : (s.round r).mediumFd.isSome = true ∨
    s.mediumFd = none ∧ (s.round r).lastReconnect = s.lastReconnect ∧
      r.now - s.lastReconnect < MEDIUM_RECONNECT_MS := by
  have hk := attended_keeps s r
  obtain ⟨-, hfd⟩ := hk.fd hr.works hr.env
  simp only [Daemon.round]
  split_ifs with hdue
  · obtain ⟨fd, hres⟩ := Option.isSome_iff_exists.1 hr.connect
    rw [hres]
    exact .inl rfl
  · cases hs : (s.attended r).mediumFd with
    | some fd => exact .inl rfl
    | none =>
      refine .inr ⟨hfd.symm.trans hs, hk.lastReconnect, UInt64.not_le.1 fun hle => hdue ⟨by rw [hs]; rfl, ?_⟩⟩
      rw [hk.lastReconnect]
      exact hle

end Recovery

/-- **The daemons recover.** In every run the buffer holds bytes of one connection only, and attempts
to connect are two seconds apart. However a connection was lost, at the end of every iteration
without one the last attempt is less than two seconds ago; and as soon as the hub is there for two
seconds the daemon is connected. -/
theorem daemon_recovers {bdaddr : BdAddr} {res : Option ℕ} {loops : List (UInt64 × List Round)}
    {s : Daemon} (hs : s = (start bdaddr res).run loops) :
    Inv s ∧
      (∀ r, (s.round r).mediumFd = none →
        r.now - (s.round r).lastReconnect < MEDIUM_RECONNECT_MS) ∧
      ∀ rs r, (∀ q ∈ rs ++ [r], q.Fine) → MEDIUM_RECONNECT_MS ≤ r.now - s.lastReconnect →
        ((rs ++ [r]).foldl round s).mediumFd.isSome = true := by
  have hstart : Inv (start bdaddr res) :=
    Inv.connectMedium ⟨List.suffix_rfl, .nil, fun a ha => by cases ha⟩ res
  refine ⟨hs ▸ hstart.run loops, fun r => round_none, fun rs r hfine hdue => ?_⟩
  -- up to the last iteration there is a connection, or no attempt was made
  have hbefore := List.foldlRecOn
    (motive := fun t : Daemon => t.mediumFd = none → t.lastReconnect = s.lastReconnect)
    rs round (fun _ => rfl) fun t ht q hq hnone => by
      rcases round_fine (s := t) (hfine q (List.mem_append_left _ hq)) with h | ⟨hoff, hlast, -⟩
      · rw [hnone] at h
        cases h
      · exact hlast.trans (ht hoff)
  rw [List.foldl_append]
  rcases round_fine (s := rs.foldl round s) (hfine r (by simp)) with h | ⟨hoff, -, hearly⟩
  · exact h
  · rw [hbefore hoff] at hearly
    exact absurd hdue (UInt64.not_le.2 hearly)

/-- The host enables advertising, and the hub has gone when the first PDU is sent. -/
def hubLost : List (UInt64 × List Round) :=
  [(1, [⟨[.host [0x01, 0x0A, 0x20, 0x01, 0x01]], 1000, none, { writes := [[.error]] }⟩])]

theorem daemon_recovers_hubLost :
    ((start .zero (some 7)).run hubLost).mediumFd = none ∧
      (([] ++ [(⟨[], 3000, some 8, {}⟩ : Round)]).foldl round
        ((start .zero (some 7)).run hubLost)).mediumFd.isSome = true := by
  refine ⟨by decide +kernel, (daemon_recovers rfl).2.2 [] _ ?_ (by decide +kernel)⟩
  exact List.forall_mem_singleton.2 ⟨by simp, rfl, by simp [DeviceEnv.Healthy]⟩

end Daemon
end Vbt
