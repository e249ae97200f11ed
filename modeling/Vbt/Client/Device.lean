import Vbt.Client.Medium
import Vbt.Core.Acl

/-!
# The device model and its connection to the medium

`vbt_virtio.c` keeps a connection to the hub for as long as the device lives. The connection is lost
when `virtio_bt_medium_read` meets the end of the stream or an error, and when `cb_pdu_to_medium`
meets an error, which the core may call from inside the receive loop. A timer tries to connect
again.

* `VirtIOBT`: the medium side of the device, with its core; `cbPduToMedium`, `mediumRead`,
  `tryConnect`, `reconnectCb`, `realize` are the functions of the source;
* `Event`, `step`, `run`: what can happen to the device;
* `Up`, `Waiting`, `Stranded`: the phases of the connection, and `Phased.step`, how events move
  between them;
* `Stranded.run`: a device that lost its connection to a failed write stays off the air;
* `medium_recovers`: what holds in every run.
-/

namespace Vbt

open Hub
open VbtLl (Input vbtLlNew fromHost)

/-- What the environment of the device answers: the results of the `write` calls, one list for each
PDU to come, and what stands in memory behind the bytes that were read. -/
structure DeviceEnv where
  writes : List (List WriteRes) := []
  stale : Mem := fun _ => 0

/-- No `write` fails. -/
def DeviceEnv.Healthy (env : DeviceEnv) : Prop :=
  ∀ ws ∈ env.writes, ∀ w ∈ ws, w ≠ .error ∧ w ≠ .wrote 0

/-- The medium side of `VirtIOBT`. `mediumRxbuf` holds the first `medium_rxbuf_used` bytes of the
buffer, and `reconnectTimer` says whether the timer is armed. The last three fields are a record for
theorems: the bytes that the socket took and those that were read since the last connect, and how
often a `write` failed. -/
structure VirtIOBT where
  mediumPath : List UInt8
  nodeId : List UInt8
  ll : VbtLl
  mediumFd : Option ℕ := none
  mediumConnected : Bool := false
  mediumRxbuf : List UInt8 := []
  reconnectTimer : Bool := false
  pduTx : ℕ := 0
  pduRx : ℕ := 0
  env : DeviceEnv := {}
  sent : List UInt8 := []
  stream : List UInt8 := []
  failures : ℕ := 0

namespace VirtIOBT

/-! ### Sending -/

/-- `cb_pdu_to_medium`. A failed `write` closes the socket. -/
def cbPduToMedium (s : VirtIOBT) (f : Frame) : VirtIOBT :=
  if !s.mediumConnected || s.mediumFd.isNone then s
  else
    let bytes := wire f.payload
    let (off, all) := Client.writeAll bytes.length 0 (s.env.writes.headD [])
    let s := { s with
      env := { s.env with writes := s.env.writes.tail }
      sent := s.sent ++ bytes.take off }
    if all then { s with pduTx := s.pduTx + 1 }
    else { s with mediumFd := none, mediumConnected := false, failures := s.failures + 1 }

/-- The core handles a call. The PDUs it sends on the way go to `cb_pdu_to_medium` one by one. -/
def call (s : VirtIOBT) (i : Input) : VirtIOBT :=
  ((s.ll.step i).frames.drop s.ll.frames.length).foldl cbPduToMedium { s with ll := s.ll.step i }

/-! ### Receiving -/

/-- One whole message at the head of the buffer: a frame goes to the core. -/
def takeMessage (s : VirtIOBT) (msg : ℕ) : VirtIOBT :=
  if msg < VBT_HDR_SIZE then s
  else
    let hdr := hdrOfBytes fun i => (s.mediumRxbuf.drop 4).getD i 0
    if hdr.magic ≠ VBT_MAGIC then s
    else
      let pduLen := msg - VBT_HDR_SIZE
      if pduLen ≠ hdr.pduLen.toNat then s
      else
        let pdu := Mem.ofList (s.mediumRxbuf.drop (4 + VBT_HDR_SIZE)) s.env.stale
        let s := s.call (.pdu hdr pdu pduLen)
        { s with pduRx := s.pduRx + 1 }

/-- One iteration of the receive loop, and whether the loop goes on. -/
def readIter (s : VirtIOBT) : VirtIOBT × Bool :=
  if s.mediumRxbuf.length < 4 then (s, false)
  else
    let msg := headLen s.mediumRxbuf
    if VBT_MAX_MSG_SIZE < msg then ({ s with mediumRxbuf := [] }, false)
    else if s.mediumRxbuf.length < 4 + msg then (s, false)
    else
      let s := s.takeMessage msg
      ({ s with mediumRxbuf := s.mediumRxbuf.drop (4 + msg) }, true)

/-- `virtio_bt_schedule_reconnect`. -/
def scheduleReconnect (s : VirtIOBT) : VirtIOBT := { s with reconnectTimer := true }

/-- The guard `used >= VBT_RXBUF_SIZE` in front of the `read`. -/
def guarded (s : VirtIOBT) : VirtIOBT :=
  if VBT_RXBUF_SIZE ≤ s.mediumRxbuf.length then { s with mediumRxbuf := [] } else s

/-- The end of the stream, or an error of `read`. -/
def lose (s : VirtIOBT) : VirtIOBT :=
  scheduleReconnect { s with mediumFd := none, mediumConnected := false, mediumRxbuf := [] }

/-- A `read` that brings `got`. -/
def put (s : VirtIOBT) (got : List UInt8) : VirtIOBT :=
  { s with mediumRxbuf := s.mediumRxbuf ++ got, stream := s.stream ++ got }

/-- The receive loop; every iteration that goes on takes at least four bytes off the buffer, so its
length bounds their number. -/
def drain (s : VirtIOBT) : VirtIOBT := loopWhile readIter s.mediumRxbuf.length s

/-- `virtio_bt_medium_read`. -/
def mediumRead (s : VirtIOBT) (r : ReadRes) : VirtIOBT :=
  if s.mediumFd.isNone then s
  else
    match r with
    | .again => s.guarded
    | .error => s.guarded.lose
    | .data bytes =>
      let got := bytes.take (VBT_RXBUF_SIZE - s.guarded.mediumRxbuf.length)
      if got.isEmpty then s.guarded.lose else (s.guarded.put got).drain

/-! ### Connecting -/

/-- What `socket` and `connect` return, and how much of the hello the new socket takes. -/
inductive ConnectRes
  | noSocket
  | refused
  | connected (fd taken : ℕ)

/-- The id the device registers with: `"vbt-vm"` unless one is set. -/
def nid (s : VirtIOBT) : List UInt8 :=
  if s.nodeId.isEmpty then [0x76, 0x62, 0x74, 0x2D, 0x76, 0x6D] else s.nodeId

/-- The hello of the device, with an id of at most 63 bytes. -/
def hello (s : VirtIOBT) : List UInt8 := wire (bytes32 VBT_HELLO_MAGIC ++ s.nid.take 63 ++ [0])

/-- `virtio_bt_try_connect`. Whether the hello was written is not looked at. -/
def tryConnect (s : VirtIOBT) (res : ConnectRes) : VirtIOBT × Bool :=
  if s.mediumPath.isEmpty then (s, false)
  else if s.mediumConnected then (s, true)
  else
    match res with
    | .noSocket => (s, false)
    | .refused => (s, false)
    | .connected fd taken =>
      ({ s with
        mediumFd := some fd, mediumConnected := true, mediumRxbuf := []
        sent := s.hello.take taken, stream := [], reconnectTimer := false }, true)

/-- An attempt to connect that arms the timer if it fails. -/
def attempt (s : VirtIOBT) (res : ConnectRes) : VirtIOBT :=
  match s.tryConnect res with
  | (s, true) => s
  | (s, false) => s.scheduleReconnect

/-- `virtio_bt_reconnect_cb`. A timer that expires is not armed any more. -/
def reconnectCb (s : VirtIOBT) (res : ConnectRes) : VirtIOBT :=
  let s := { s with reconnectTimer := false }
  if s.mediumConnected then s else s.attempt res

/-- The end of `virtio_bt_device_realize`. -/
def realize (mediumPath nodeId : List UInt8) (bdaddr : BdAddr) (res : ConnectRes) : VirtIOBT :=
  attempt { mediumPath, nodeId, ll := vbtLlNew bdaddr } res

/-! ### Runs -/

/-- What can happen to the device. -/
inductive Event
  /-- A packet of the guest (`virtio_bt_handle_tx`). -/
  | guest (pkt : List UInt8)
  /-- The tick timer (`virtio_bt_tick_cb`). -/
  | tick (nowMs : UInt64)
  /-- The socket is readable (`virtio_bt_medium_read`). -/
  | readable (r : ReadRes)
  /-- The reconnect timer expires (`virtio_bt_reconnect_cb`). -/
  | timer (res : ConnectRes)

/-- The effect of an event with the answers of the environment. A timer that is not armed does not
expire. -/
def step (s : VirtIOBT) (x : Event × DeviceEnv) : VirtIOBT :=
  let s := { s with env := x.2 }
  match x.1 with
  | .guest pkt =>
    let pkt := pkt.take VBT_MAX_MSG_SIZE
    if pkt.isEmpty then s else s.call (fromHost x.2.stale pkt)
  | .tick nowMs => s.call (.tick nowMs)
  | .readable r => s.mediumRead r
  | .timer res => if s.reconnectTimer then s.reconnectCb res else s

/-- The state after a list of events. -/
def run (s : VirtIOBT) (es : List (Event × DeviceEnv)) : VirtIOBT := es.foldl step s

/-! ### The phases of the connection -/

/-- The device is connected. -/
structure Up (s : VirtIOBT) : Prop where
  connected : s.mediumConnected = true
  fd : s.mediumFd.isSome = true
  timer : s.reconnectTimer = false
  failures : s.failures = 0

/-- The device is not connected, and the timer is armed. -/
structure Waiting (s : VirtIOBT) : Prop where
  connected : s.mediumConnected = false
  fd : s.mediumFd = none
  timer : s.reconnectTimer = true
  failures : s.failures = 0

/-- A `write` failed. The device is not connected, and the timer is not armed. -/
structure Stranded (s : VirtIOBT) : Prop where
  connected : s.mediumConnected = false
  fd : s.mediumFd = none
  timer : s.reconnectTimer = false
  failures : 0 < s.failures

/-- The device is in one of the phases, and its buffer holds the last bytes that this connection
brought. -/
structure Phased (s : VirtIOBT) : Prop where
  phase : Up s ∨ Waiting s ∨ Stranded s
  buffer : s.mediumRxbuf <:+ s.stream

/-- The device is in no worse a phase: it is in the same one, or a `write` failed since. The buffer
and what was read are the same. -/
structure Sinks (s s' : VirtIOBT) : Prop where
  up : Up s → Up s' ∨ Stranded s'
  waiting : Waiting s → Waiting s'
  stranded : Stranded s → Stranded s'
  buffer : s'.mediumRxbuf = s.mediumRxbuf
  stream : s'.stream = s.stream

namespace Sinks

variable {s s' s'' : VirtIOBT}

/-- Nothing happened that concerns the connection. -/
theorem of_eq (hc : s'.mediumConnected = s.mediumConnected) (hf : s'.mediumFd = s.mediumFd)
    (ht : s'.reconnectTimer = s.reconnectTimer) (hn : s'.failures = s.failures)
    (hb : s'.mediumRxbuf = s.mediumRxbuf) (hs : s'.stream = s.stream) : Sinks s s' where
  up h := .inl ⟨hc.trans h.connected, by rw [hf, h.fd], ht.trans h.timer, hn.trans h.failures⟩
  waiting h := ⟨hc.trans h.connected, hf.trans h.fd, ht.trans h.timer, hn.trans h.failures⟩
  stranded h := ⟨hc.trans h.connected, hf.trans h.fd, ht.trans h.timer, hn ▸ h.failures⟩
  buffer := hb
  stream := hs

theorem trans (h : Sinks s s') (h' : Sinks s' s'') : Sinks s s'' where
  up hu := (h.up hu).elim h'.up fun hs => .inr (h'.stranded hs)
  waiting hw := h'.waiting (h.waiting hw)
  stranded hs := h'.stranded (h.stranded hs)
  buffer := h'.buffer.trans h.buffer
  stream := h'.stream.trans h.stream

theorem phased (h : Sinks s s') (hp : Phased s) : Phased s' where
  phase := by
    rcases hp.phase with hu | hw | hs
    · rcases h.up hu with hu | hs
      · exact .inl hu
      · exact .inr (.inr hs)
    · exact .inr (.inl (h.waiting hw))
    · exact .inr (.inr (h.stranded hs))
  buffer := by
    rw [h.buffer, h.stream]
    exact hp.buffer

end Sinks

theorem cbPduToMedium_sinks (s : VirtIOBT) (f : Frame) : Sinks s (s.cbPduToMedium f) := by
  by_cases hoff : (!s.mediumConnected || s.mediumFd.isNone) = true
  · rw [cbPduToMedium, if_pos hoff]
    exact .of_eq rfl rfl rfl rfl rfl rfl
  simp only [cbPduToMedium, if_neg hoff]
  split_ifs
  · exact .of_eq rfl rfl rfl rfl rfl rfl
  · -- the failed write takes the connection and leaves the timer as it is
    have hon : s.mediumConnected = true := by
      cases hc : s.mediumConnected with
      | true => rfl
      | false => simp [hc] at hoff
    exact
      { up := fun h => .inr ⟨rfl, rfl, h.timer, Nat.succ_pos _⟩
        waiting := fun h => absurd (hon.symm.trans h.connected) (by decide)
        stranded := fun h => absurd (hon.symm.trans h.connected) (by decide)
        buffer := rfl
        stream := rfl }

theorem call_sinks (s : VirtIOBT) (i : Input) : Sinks s (s.call i) := by
  have hll : Sinks s { s with ll := s.ll.step i } := .of_eq rfl rfl rfl rfl rfl rfl
  refine hll.trans ?_
  refine List.foldlRecOn (motive := Sinks { s with ll := s.ll.step i }) _ _
    (.of_eq rfl rfl rfl rfl rfl rfl) fun t ht f _ => ?_
  exact ht.trans (cbPduToMedium_sinks t f)

theorem takeMessage_sinks (s : VirtIOBT) (msg : ℕ) : Sinks s (s.takeMessage msg) := by
  have hrefl : Sinks s s := .of_eq rfl rfl rfl rfl rfl rfl
  simp only [takeMessage]
  split_ifs
  · exact hrefl
  · exact hrefl
  · exact hrefl
  · have hcall := call_sinks s (.pdu (hdrOfBytes fun i => (s.mediumRxbuf.drop 4).getD i 0)
      (Mem.ofList (s.mediumRxbuf.drop (4 + VBT_HDR_SIZE)) s.env.stale) (msg - VBT_HDR_SIZE))
    exact hcall.trans (.of_eq rfl rfl rfl rfl rfl rfl)

/-! ### What one event does -/

/-- The phase is a matter of the connection and the timer, not of what was received. -/
theorem Phased.setReceived {s : VirtIOBT} (h : Phased s) {buf stream : List UInt8}
    (hbuf : buf <:+ stream) : Phased { s with mediumRxbuf := buf, stream } where
  phase := by
    rcases h.phase with hu | hw | hs
    · exact .inl ⟨hu.connected, hu.fd, hu.timer, hu.failures⟩
    · exact .inr (.inl ⟨hw.connected, hw.fd, hw.timer, hw.failures⟩)
    · exact .inr (.inr ⟨hs.connected, hs.fd, hs.timer, hs.failures⟩)
  buffer := hbuf

theorem Phased.setBuffer {s : VirtIOBT} (h : Phased s) {buf : List UInt8}
    (hbuf : buf <:+ s.stream) : Phased { s with mediumRxbuf := buf } := h.setReceived hbuf

theorem Phased.readIter {s : VirtIOBT} (h : Phased s) : Phased s.readIter.1 := by
  simp only [VirtIOBT.readIter]
  split_ifs
  · exact h
  · exact h.setBuffer (List.nil_suffix)
  · exact h
  · have ht := (takeMessage_sinks s (headLen s.mediumRxbuf)).phased h
    exact ht.setBuffer ((List.drop_suffix _ _).trans ht.buffer)

theorem Phased.loop {s : VirtIOBT} (h : Phased s) (n : ℕ) :
    Phased (loopWhile VirtIOBT.readIter n s) := by
  induction n generalizing s with
  | zero => exact h
  | succ n ih =>
    have hi := h.readIter
    rw [loopWhile]
    generalize s.readIter = r at hi
    obtain ⟨t, goes⟩ := r
    cases goes with
    | true => exact ih hi
    | false => exact hi

theorem Phased.guarded {s : VirtIOBT} (h : Phased s) : Phased s.guarded := by
  unfold VirtIOBT.guarded
  split_ifs
  · exact h.setBuffer List.nil_suffix
  · exact h

theorem guarded_fd (s : VirtIOBT) : s.guarded.mediumFd = s.mediumFd := by
  unfold guarded
  split_ifs <;> rfl

/-- The loss of a connection that was there arms the timer. -/
theorem Phased.lose {s : VirtIOBT} (h : Phased s) (hfd : s.mediumFd.isSome = true) :
    Phased s.lose where
  phase := by
    rcases h.phase with hu | hw | hs
    · exact .inr (.inl ⟨rfl, rfl, rfl, hu.failures⟩)
    · rw [hw.fd] at hfd
      cases hfd
    · rw [hs.fd] at hfd
      cases hfd
  buffer := List.nil_suffix

theorem Phased.put {s : VirtIOBT} (h : Phased s) (got : List UInt8) : Phased (s.put got) := by
  obtain ⟨before, hbefore⟩ := h.buffer
  exact h.setReceived ⟨before, by rw [← hbefore, List.append_assoc]⟩

theorem mediumRead_none {s : VirtIOBT} (h : s.mediumFd = none) (r : ReadRes) :
    s.mediumRead r = s := by
  unfold mediumRead
  rw [if_pos (by rw [h]; rfl)]

theorem Phased.mediumRead {s : VirtIOBT} (h : Phased s) (r : ReadRes) :
    Phased (s.mediumRead r) := by
  cases hfd : s.mediumFd with
  | none =>
    rw [mediumRead_none hfd]
    exact h
  | some fd =>
    have hsome : s.guarded.mediumFd.isSome = true := by rw [guarded_fd, hfd]; rfl
    simp only [VirtIOBT.mediumRead, hfd, Option.isNone_some, Bool.false_eq_true, if_false]
    cases r with
    | again => exact h.guarded
    | error => exact h.guarded.lose hsome
    | data bytes =>
      dsimp only
      split_ifs
      · exact h.guarded.lose hsome
      · exact (h.guarded.put _).loop _

/-- A failed attempt changes nothing, and one that succeeds starts with an empty buffer. -/
theorem tryConnect_cases (s : VirtIOBT) (res : ConnectRes) (h : s.mediumConnected = false) :
    s.tryConnect res = (s, false) ∨ ∃ t, s.tryConnect res = (t, true) ∧
      t.mediumConnected = true ∧ t.mediumFd.isSome = true ∧ t.reconnectTimer = false ∧
      t.failures = s.failures ∧ t.mediumRxbuf = [] ∧ t.stream = [] := by
  unfold tryConnect
  split_ifs with hpath hconn
  · exact .inl rfl
  · rw [h] at hconn
    cases hconn
  · cases res with
    | noSocket => exact .inl rfl
    | refused => exact .inl rfl
    | connected fd taken => exact .inr ⟨_, rfl, rfl, rfl, rfl, rfl, rfl, rfl⟩

theorem phased_attempt {s : VirtIOBT} (res : ConnectRes) (hc : s.mediumConnected = false)
    (hf : s.mediumFd = none) (hn : s.failures = 0) (hb : s.mediumRxbuf <:+ s.stream) :
    Phased (s.attempt res) := by
  unfold attempt
  obtain heq | ⟨t, heq, htc, htf, htt, htn, htb, hts⟩ := tryConnect_cases s res hc
  · rw [heq]
    exact ⟨.inr (.inl ⟨hc, hf, rfl, hn⟩), hb⟩
  · rw [heq]
    exact ⟨.inl ⟨htc, htf, htt, htn.trans hn⟩, by rw [htb, hts]⟩

theorem phased_realize (path nodeId : List UInt8) (bdaddr : BdAddr) (res : ConnectRes) :
    Phased (realize path nodeId bdaddr res) :=
  phased_attempt res rfl rfl rfl List.suffix_rfl

theorem realize_failures (path nodeId : List UInt8) (bdaddr : BdAddr) (res : ConnectRes) :
    (realize path nodeId bdaddr res).failures = 0 := by
  unfold realize attempt
  obtain heq | ⟨t, heq, -, -, -, hn, -⟩ :=
    tryConnect_cases { mediumPath := path, nodeId, ll := vbtLlNew bdaddr } res rfl
  · rw [heq]
    rfl
  · rw [heq]
    exact hn

theorem Phased.reconnectCb {s : VirtIOBT} (h : Phased s) (ht : s.reconnectTimer = true)
    (res : ConnectRes) : Phased (s.reconnectCb res) := by
  rcases h.phase with hu | hw | hs
  · rw [hu.timer] at ht
    cases ht
  · have hoff : ¬ s.mediumConnected = true := by rw [hw.connected]; decide
    rw [VirtIOBT.reconnectCb, if_neg hoff]
    exact phased_attempt res hw.connected hw.fd hw.failures h.buffer
  · rw [hs.timer] at ht
    cases ht

theorem setEnv_sinks (s : VirtIOBT) (env : DeviceEnv) : Sinks s { s with env } :=
  .of_eq rfl rfl rfl rfl rfl rfl

/-- **Every event** leads from one phase to another. -/
theorem Phased.step {s : VirtIOBT} (h : Phased s) (x : Event × DeviceEnv) : Phased (s.step x) := by
  obtain ⟨e, env⟩ := x
  have he := (setEnv_sinks s env).phased h
  cases e with
  | guest pkt =>
    simp only [VirtIOBT.step]
    split_ifs
    · exact he
    · exact (call_sinks _ _).phased he
  | tick nowMs => exact (call_sinks _ _).phased he
  | readable r => exact he.mediumRead r
  | timer res =>
    simp only [VirtIOBT.step]
    split_ifs with ht
    · exact he.reconnectCb ht res
    · exact he

theorem Phased.run {s : VirtIOBT} (h : Phased s) (es : List (Event × DeviceEnv)) :
    Phased (s.run es) := by
  induction es generalizing s with
  | nil => exact h
  | cons x es ih => exact ih (h.step x)

/-! ### Off the air -/

theorem Stranded.step {s : VirtIOBT} (h : Stranded s) (x : Event × DeviceEnv) :
    Stranded (s.step x) := by
  obtain ⟨e, env⟩ := x
  have he := (setEnv_sinks s env).stranded h
  cases e with
  | guest pkt =>
    simp only [VirtIOBT.step]
    split_ifs
    · exact he
    · exact (call_sinks _ _).stranded he
  | tick nowMs => exact (call_sinks _ _).stranded he
  | readable r =>
    show Stranded (({ s with env } : VirtIOBT).mediumRead r)
    rw [mediumRead_none he.fd]
    exact he
  | timer res =>
    have hoff : ¬ s.reconnectTimer = true := by rw [h.timer]; decide
    show Stranded (if s.reconnectTimer then ({ s with env } : VirtIOBT).reconnectCb res
      else { s with env })
    rw [if_neg hoff]
    exact he

/-- **Nothing brings back** a device that lost its connection to a failed write. -/
theorem Stranded.run {s : VirtIOBT} (h : Stranded s) (es : List (Event × DeviceEnv)) :
    Stranded (s.run es) := by
  induction es generalizing s with
  | nil => exact h
  | cons x es ih => exact ih (h.step x)

/-! ### Writes that do not fail -/

/-- Writes none of which fails take everything. -/
theorem writeAll_healthy (len off : ℕ) {ws : List WriteRes}
    (h : ∀ w ∈ ws, w ≠ .error ∧ w ≠ .wrote 0) : (Client.writeAll len off ws).2 = true := by
  induction ws generalizing off with
  | nil =>
    unfold Client.writeAll
    split_ifs <;> rfl
  | cons w ws ih =>
    have hrest := fun off => ih off fun w hw => h w (List.mem_cons_of_mem _ hw)
    obtain ⟨herr, hzero⟩ := h w List.mem_cons_self
    unfold Client.writeAll
    split_ifs
    · rfl
    · cases w with
      | wrote n =>
        cases n with
        | zero => exact absurd rfl hzero
        | succ n => exact hrest _
      | eintr => exact hrest off
      | eagain => exact hrest off
      | error => exact absurd rfl herr

/-- Where no `write` fails, none is recorded as failed. -/
def Sound (s s' : VirtIOBT) : Prop :=
  s.env.Healthy → s'.env.Healthy ∧ s'.failures = s.failures

theorem Sound.trans {s s' s'' : VirtIOBT} (h : Sound s s') (h' : Sound s' s'') : Sound s s'' := by
  intro hs
  obtain ⟨he, hf⟩ := h hs
  obtain ⟨he', hf'⟩ := h' he
  exact ⟨he', hf'.trans hf⟩

theorem Sound.of_eq {s s' : VirtIOBT} (he : s'.env = s.env) (hf : s'.failures = s.failures) :
    Sound s s' := fun hs => ⟨he ▸ hs, hf⟩

theorem cbPduToMedium_sound (s : VirtIOBT) (f : Frame) : Sound s (s.cbPduToMedium f) := by
  intro hs
  have hhead : ∀ w ∈ s.env.writes.headD [], w ≠ .error ∧ w ≠ .wrote 0 := by
    intro w hw
    cases hws : s.env.writes with
    | nil => simp [hws] at hw
    | cons ws rest =>
      refine hs ws ?_ w (by simpa [hws] using hw)
      rw [hws]
      exact List.mem_cons_self
  have htail : DeviceEnv.Healthy { s.env with writes := s.env.writes.tail } := fun ws hws =>
    hs ws (List.mem_of_mem_tail hws)
  have hall := writeAll_healthy (wire f.payload).length 0 hhead
  simp only [cbPduToMedium, hall, if_true]
  split_ifs
  · exact ⟨hs, rfl⟩
  · exact ⟨htail, rfl⟩

theorem call_sound (s : VirtIOBT) (i : Input) : Sound s (s.call i) :=
  List.foldlRecOn (motive := Sound s) _ _ (Sound.of_eq rfl rfl) fun t ht f _ =>
    ht.trans (cbPduToMedium_sound t f)

theorem readIter_sound (s : VirtIOBT) : Sound s s.readIter.1 := by
  have hrefl : Sound s s := .of_eq rfl rfl
  have htake : ∀ msg, Sound s (s.takeMessage msg) := by
    intro msg
    simp only [takeMessage]
    split_ifs
    · exact hrefl
    · exact hrefl
    · exact hrefl
    · have hcall := call_sound s (.pdu (hdrOfBytes fun i => (s.mediumRxbuf.drop 4).getD i 0)
        (Mem.ofList (s.mediumRxbuf.drop (4 + VBT_HDR_SIZE)) s.env.stale) (msg - VBT_HDR_SIZE))
      exact hcall.trans (.of_eq rfl rfl)
  simp only [readIter]
  split_ifs
  · exact hrefl
  · exact .of_eq rfl rfl
  · exact hrefl
  · exact (htake _).trans (.of_eq rfl rfl)

theorem loop_sound (n : ℕ) (s : VirtIOBT) : Sound s (loopWhile readIter n s) := by
  induction n generalizing s with
  | zero => exact .of_eq rfl rfl
  | succ n ih =>
    have hi := readIter_sound s
    rw [loopWhile]
    generalize s.readIter = r at hi
    obtain ⟨t, goes⟩ := r
    cases goes with
    | true => exact hi.trans (ih t)
    | false => exact hi

theorem mediumRead_sound (s : VirtIOBT) (r : ReadRes) : Sound s (s.mediumRead r) := by
  have hg : Sound s s.guarded := by
    unfold guarded
    split_ifs <;> exact .of_eq rfl rfl
  have hlost : Sound s s.guarded.lose := hg.trans (.of_eq rfl rfl)
  unfold mediumRead
  split_ifs
  · exact .of_eq rfl rfl
  · cases r with
    | again => exact hg
    | error => exact hlost
    | data bytes =>
      dsimp only
      split_ifs
      · exact hlost
      · refine hg.trans (Sound.trans ?_ (loop_sound _ _))
        exact .of_eq rfl rfl

theorem step_sound (s : VirtIOBT) {x : Event × DeviceEnv} (hx : x.2.Healthy) :
    (s.step x).failures = s.failures := by
  obtain ⟨e, env⟩ := x
  have hsound : Sound { s with env } (s.step (e, env)) := by
    cases e with
    | guest pkt =>
      simp only [step]
      split_ifs
      · exact .of_eq rfl rfl
      · exact call_sound _ _
    | tick nowMs => exact call_sound _ _
    | readable r => exact mediumRead_sound _ r
    | timer res =>
      simp only [step, reconnectCb, attempt, tryConnect]
      split_ifs
      · exact .of_eq rfl rfl
      · exact .of_eq rfl rfl
      · cases res <;> exact .of_eq rfl rfl
      · exact .of_eq rfl rfl
  exact (hsound hx).2

theorem run_sound (s : VirtIOBT) {es : List (Event × DeviceEnv)} (h : ∀ x ∈ es, x.2.Healthy) :
    (s.run es).failures = s.failures := by
  induction es generalizing s with
  | nil => rfl
  | cons x es ih =>
    rw [show s.run (x :: es) = (s.step x).run es from rfl,
      ih (s.step x) fun y hy => h y (List.mem_cons_of_mem x hy),
      step_sound s (h x List.mem_cons_self)]

/-! ### Recovery -/

/-- **The connection to the medium.** In every run the device is connected exactly if it has a
socket, and its buffer holds bytes of one connection only. Whenever it is not connected the timer is
armed, exactly if no `write` has failed; so the device recovers in all runs whose writes do not
fail. -/
theorem medium_recovers {path nodeId : List UInt8} {bdaddr : BdAddr} {res : ConnectRes}
    {es : List (Event × DeviceEnv)} {s : VirtIOBT}
    (hs : s = (realize path nodeId bdaddr res).run es) :
    (s.mediumConnected = true ↔ s.mediumFd.isSome = true) ∧
      s.mediumRxbuf <:+ s.stream ∧
      ((s.mediumConnected = false → s.reconnectTimer = true) ↔ s.failures = 0) ∧
      ((∀ x ∈ es, x.2.Healthy) → s.mediumConnected = false → s.reconnectTimer = true) := by
  have hp : Phased s := by
    rw [hs]
    exact (phased_realize path nodeId bdaddr res).run es
  have hfail : (∀ x ∈ es, x.2.Healthy) → s.failures = 0 := by
    intro h
    rw [hs, run_sound _ h, realize_failures]
  rcases hp.phase with hu | hw | hst
  · refine ⟨iff_of_true hu.connected hu.fd, hp.buffer, iff_of_true (fun hc => ?_) hu.failures,
      fun _ hc => ?_⟩ <;> exact absurd (hu.connected.symm.trans hc) (by decide)
  · refine ⟨iff_of_false ?_ ?_, hp.buffer, iff_of_true (fun _ => hw.timer) hw.failures,
      fun _ _ => hw.timer⟩
    · rw [hw.connected]
      decide
    · rw [hw.fd]
      decide
  · have hpos : s.failures ≠ 0 := Nat.pos_iff_ne_zero.1 hst.failures
    refine ⟨iff_of_false ?_ ?_, hp.buffer, iff_of_false (fun h => ?_) hpos,
      fun h _ => absurd (hfail h) hpos⟩
    · rw [hst.connected]
      decide
    · rw [hst.fd]
      decide
    · exact absurd ((h hst.connected).symm.trans hst.timer) (by decide)

/-- The events of a device that advertises when the hub has gone: the guest enables advertising,
and at the next tick `write` fails. -/
def hubGone : List (Event × DeviceEnv) :=
  [(.guest [0x01, 0x0A, 0x20, 0x01, 0x01], {}), (.tick 1000, { writes := [[.error]] })]

theorem medium_recovers_refused :
    ((realize [0x2F] [] BdAddr.zero .refused).run [(.timer .refused, {})]).reconnectTimer = true := by
  obtain ⟨-, -, -, hrec⟩ :=
    @medium_recovers [0x2F] [] BdAddr.zero .refused [(.timer .refused, {})] _ rfl
  exact hrec (by simp [DeviceEnv.Healthy]) (by decide)

/-- **A failed write takes the device off the air for good.** -/
theorem stranded_by_write :
    (realize [0x2F] [] BdAddr.zero (.connected 7 16)).mediumConnected = true ∧
      ((realize [0x2F] [] BdAddr.zero (.connected 7 16)).run hubGone).mediumConnected = false ∧
      ((realize [0x2F] [] BdAddr.zero (.connected 7 16)).run hubGone).reconnectTimer = false ∧
      ∀ es, (((realize [0x2F] [] BdAddr.zero (.connected 7 16)).run hubGone).run es).mediumConnected =
        false := by
  have hs : Stranded ((realize [0x2F] [] BdAddr.zero (.connected 7 16)).run hubGone) := by
    constructor <;> decide +kernel
  exact ⟨by decide +kernel, hs.connected, hs.timer, fun es => (hs.run es).connected⟩

end VirtIOBT
end Vbt
