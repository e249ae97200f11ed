import Vbt.Lib.Stream
import Vbt.Hub.Receive

/-!
# The clients' side of the medium

Three programs attach a controller core to the hub: `vbt_controller.c`, `vbt_vhost_user.c` and the
device model `vbt_virtio.c`. Each has its own copy of the encoder `cb_pdu_to_medium` and of the loop
that reassembles what the hub sends; the copies differ in what they count, and the device model in
how it deals with a full buffer and a lost connection.

* `Client`: the medium side of the three state records;
* `pduToMedium`, `mediumReadable`: the common code; `Controller`, `VhostUser` and `Virtio` have the
  members of the two families under their names in the source;
* `Frame.Valid`, `headLen_wire`, `headLen_append`: the messages of the protocol;
* `sound`: the loop takes whole frames off the buffer and stops at a part of one.
-/

namespace Vbt

open Hub

/-- The medium side of a client. `rxbuf` holds the first `rxused` bytes of its receive buffer. The
last three fields are a record for theorems: the bytes the socket took, the calls of
`vbt_ll_pdu_from_medium` (oldest first), and how often a recovery branch was taken. -/
structure Client where
  mediumFd : Bool := true
  rxbuf : List UInt8 := []
  txPdus : ℕ := 0
  rxPdus : ℕ := 0
  sent : List UInt8 := []
  calls : List Frame := []
  recoveries : ℕ := 0
  deriving DecidableEq

namespace Client

/-! ### Sending -/

/-- The `write` loop of `cb_pdu_to_medium`: the number of the `len` bytes the socket took, and
whether all were. When the results have run out the socket takes what is left. -/
def writeAll (len : ℕ) : ℕ → List WriteRes → ℕ × Bool
  | off, ws =>
    if len ≤ off then (off, true)
    else
      match ws with
      | [] => (len, true)
      | .wrote 0 :: _ => (off, false)
      | .wrote (n + 1) :: ws => writeAll len (off + min (n + 1) (len - off)) ws
      | .eintr :: ws => writeAll len off ws
      | .eagain :: ws => writeAll len off ws
      | .error :: _ => (off, false)

/-- `cb_pdu_to_medium`; `count` is what a PDU adds to the counter of the client. -/
def pduToMedium (count : ℕ) (c : Client) (ws : List WriteRes) (hdr : VbtFrameHdr)
    (pdu : List UInt8) :
    Client :=
  if !c.mediumFd then c
  else
    let bytes := wire (Frame.payload ⟨hdr, pdu⟩)
    let (off, all) := writeAll bytes.length 0 ws
    let c := { c with sent := c.sent ++ bytes.take off }
    if all then { c with txPdus := c.txPdus + count } else { c with mediumFd := false }

/-! ### Receiving -/

/-- One whole message: a frame goes to `vbt_ll_pdu_from_medium` if its length is the one in its
header. `count` is what the message adds to the counter of the client, given whether it is. -/
def takeMessage (count : Bool → ℕ) (c : Client) (payload : List UInt8) : Client :=
  if payload.length < VBT_HDR_SIZE then c
  else
    let hdr := hdrOfBytes fun i => payload.getD i 0
    if hdr.magic ≠ VBT_MAGIC then c
    else
      let same := decide (payload.length - VBT_HDR_SIZE = hdr.pduLen.toNat)
      { c with
        calls := if same then c.calls ++ [⟨hdr, payload.drop VBT_HDR_SIZE⟩] else c.calls
        rxPdus := c.rxPdus + count same }

/-- One iteration of the reassembly loop, and whether the loop goes on. -/
def readableIter (count : Bool → ℕ) (c : Client) : Client × Bool :=
  if c.rxbuf.length < 4 then (c, false)
  else
    let plen := headLen c.rxbuf
    if VBT_MAX_MSG_SIZE < plen then ({ c with rxbuf := [], recoveries := c.recoveries + 1 }, false)
    else if c.rxbuf.length < 4 + plen then (c, false)
    else
      ({ c.takeMessage count ((c.rxbuf.drop 4).take plen) with rxbuf := c.rxbuf.drop (4 + plen) },
        true)

/-- The guard `used >= sizeof(rxbuf)` in front of the `read`. -/
def guarded (c : Client) : Client :=
  if VBT_RXBUF_SIZE ≤ c.rxbuf.length then { c with rxbuf := [], recoveries := c.recoveries + 1 } else c

/-- The room the `read` is given. -/
def room (c : Client) : ℕ := VBT_RXBUF_SIZE - c.guarded.rxbuf.length

/-- What a `read` that brings `bytes` leaves in the buffer. -/
def put (c : Client) (bytes : List UInt8) : Client :=
  { c.guarded with rxbuf := c.guarded.rxbuf ++ bytes.take c.room }

/-- The reassembly loop; every iteration that goes on takes at least four bytes off the buffer, so
its length bounds their number. -/
def drain (count : Bool → ℕ) (c : Client) : Client :=
  loopWhile (readableIter count) c.rxbuf.length c

/-- `medium_readable` of `vbt_controller.c` and `vbt_vhost_user.c`. Unless something was read, the
buffer stays as it was, even when the guard has taken it for empty. -/
def mediumReadable (count : Bool → ℕ) (c : Client) : ReadRes → Client
  | .again => { c with recoveries := c.guarded.recoveries }
  | .error => { c with recoveries := c.guarded.recoveries, mediumFd := false }
  | .data bytes =>
    if (bytes.take c.room).isEmpty then { c with recoveries := c.guarded.recoveries, mediumFd := false }
    else (c.put bytes).drain count

end Client

/-! ### The three clients -/

/-- `cb_pdu_to_medium` of `vbt_controller.c`, which counts `tx_pdus`. -/
def Controller.cbPduToMedium : Client → List WriteRes → VbtFrameHdr → List UInt8 → Client :=
  Client.pduToMedium 1

/-- `medium_readable` of `vbt_controller.c`, which counts every message with a frame header. -/
def Controller.mediumReadable : Client → ReadRes → Client := Client.mediumReadable fun _ => 1

/-- `cb_pdu_to_medium` of `vbt_vhost_user.c`, which counts nothing. -/
def VhostUser.cbPduToMedium : Client → List WriteRes → VbtFrameHdr → List UInt8 → Client :=
  Client.pduToMedium 0

/-- `medium_readable` of `vbt_vhost_user.c`. -/
def VhostUser.mediumReadable : Client → ReadRes → Client := Client.mediumReadable fun _ => 0

/-- `cb_pdu_to_medium` of `vbt_virtio.c`, which counts `pdu_tx`. -/
def Virtio.cbPduToMedium : Client → List WriteRes → VbtFrameHdr → List UInt8 → Client :=
  Client.pduToMedium 1

/-- `virtio_bt_medium_read`. It returns at once without a socket, keeps what the guard did to the
buffer, clears the buffer with a lost connection, and counts only the frames it passes on. -/
def Virtio.mediumRead (c : Client) (r : ReadRes) : Client :=
  if !c.mediumFd then c
  else
    match r with
    | .again => c.guarded
    | .error => { c.guarded with rxbuf := [], mediumFd := false }
    | .data bytes =>
      if (bytes.take c.room).isEmpty then { c.guarded with rxbuf := [], mediumFd := false }
      else (c.put bytes).drain fun same => if same then 1 else 0

/-! ### The messages of the protocol -/

/-- The encoding of a frame: the length of the message, the header and the PDU. -/
def Frame.encode (f : Frame) : List UInt8 := wire f.payload

theorem Frame.payload_length (f : Frame) : f.payload.length = VBT_HDR_SIZE + f.pdu.length := by
  rw [Frame.payload, List.length_append, hdrBytes_length]

theorem Frame.Valid.payload_le {f : Frame} (h : f.Valid) : f.payload.length ≤ VBT_MAX_MSG_SIZE := by
  have := h.short
  rw [f.payload_length, VBT_MAX_MSG_SIZE]
  omega

theorem Frame.Valid.encode_le {f : Frame} (h : f.Valid) : f.encode.length ≤ VBT_RXBUF_SIZE := by
  have := h.payload_le
  rw [Frame.encode, wire_length, VBT_RXBUF_SIZE]
  rw [VBT_MAX_MSG_SIZE] at this
  omega

/-- The length at the head of a message. -/
theorem headLen_wire {payload : List UInt8} (h : payload.length ≤ VBT_MAX_MSG_SIZE)
    (rest : List UInt8) : headLen (wire payload ++ rest) = payload.length := by
  refine be32_byteAt ?_
  have : VBT_MAX_MSG_SIZE < 2 ^ 32 := by decide
  omega

/-- The length is known from the first four bytes on. -/
theorem headLen_append {buf : List UInt8} (h : 4 ≤ buf.length) (rest : List UInt8) :
    headLen (buf ++ rest) = headLen buf := by
  have hget : ∀ i, i < 4 → (buf ++ rest).getD i 0 = buf.getD i 0 := by
    intro i hi
    rw [List.getD_eq_getElem?_getD, List.getElem?_append_left (by omega),
      ← List.getD_eq_getElem?_getD]
  unfold headLen
  rw [hget 0 (by decide), hget 1 (by decide), hget 2 (by decide), hget 3 (by decide)]

/-- A message at the head of a buffer, and what follows it. -/
theorem take_wire (payload rest : List UInt8) :
    ((wire payload ++ rest).drop 4).take payload.length = payload ∧
      (wire payload ++ rest).drop (4 + payload.length) = rest := by
  refine ⟨by simp [wire], ?_⟩
  rw [← wire_length, List.drop_left]

/-- A buffer that holds a proper part of a message: the loop has to wait, for the length or for the
rest. -/
theorem part_of_wire {payload buf rest : List UInt8} (hlen : payload.length ≤ VBT_MAX_MSG_SIZE)
    (hne : rest ≠ []) (h : wire payload = buf ++ rest) :
    buf.length < 4 ∨ headLen buf = payload.length ∧ buf.length < 4 + payload.length := by
  rcases Nat.lt_or_ge buf.length 4 with h4 | h4
  · exact Or.inl h4
  refine Or.inr ⟨?_, ?_⟩
  · rw [← headLen_append h4 rest, ← h, ← List.append_nil (wire payload)]
    exact headLen_wire hlen []
  · have hpos := List.length_pos_of_ne_nil hne
    have htotal := congrArg List.length h
    rw [wire_length, List.length_append] at htotal
    omega

namespace Client

section Loop

variable (count : Bool → ℕ) {c : Client} {f : Frame}

/-- A valid frame goes to the core as it was sent. -/
theorem takeMessage_payload (hf : f.Valid) : ∃ n, c.takeMessage count f.payload =
    { c with calls := c.calls ++ [f], rxPdus := n } := by
  have hhdr : hdrOfBytes (fun i => f.payload.getD i 0) = f.hdr := hdrOfBytes_hdrBytes f.hdr f.pdu
  have hdrop : f.payload.drop VBT_HDR_SIZE = f.pdu := List.drop_left' (hdrBytes_length f.hdr)
  have hle : ¬ f.payload.length < VBT_HDR_SIZE := by
    rw [f.payload_length]
    omega
  have hmagic : ¬ f.hdr.magic ≠ VBT_MAGIC := not_not.2 hf.magic
  have hsame : f.payload.length - VBT_HDR_SIZE = f.hdr.pduLen.toNat := by
    rw [f.payload_length, ← hf.length]
    omega
  simp only [takeMessage, hhdr, hdrop, if_neg hle, if_neg hmagic, hsame, decide_true, if_true]
  exact ⟨_, rfl⟩

theorem readableIter_whole (hf : f.Valid) {rest : List UInt8} (hbuf : c.rxbuf = f.encode ++ rest) :
    ∃ n, c.readableIter count =
      ({ c with rxbuf := rest, calls := c.calls ++ [f], rxPdus := n }, true) := by
  have hhead : headLen c.rxbuf = f.payload.length := by
    rw [hbuf]
    exact headLen_wire hf.payload_le rest
  obtain ⟨hpay, hrest⟩ := take_wire f.payload rest
  have hlen : c.rxbuf.length = 4 + f.payload.length + rest.length := by
    rw [hbuf, List.length_append, Frame.encode, wire_length]
  have h4 : ¬ c.rxbuf.length < 4 := by omega
  have hwhole : ¬ c.rxbuf.length < 4 + f.payload.length := by omega
  have hmax : ¬ VBT_MAX_MSG_SIZE < f.payload.length := Nat.not_lt.2 hf.payload_le
  obtain ⟨n, htake⟩ := takeMessage_payload count (c := c) hf
  refine ⟨n, ?_⟩
  simp only [readableIter, hhead, if_neg h4, if_neg hmax, if_neg hwhole]
  rw [hbuf, Frame.encode, hpay, hrest, htake]

theorem readableIter_part (hf : f.Valid) {rest : List UInt8} (hne : rest ≠ [])
    (hbuf : f.encode = c.rxbuf ++ rest) : c.readableIter count = (c, false) := by
  unfold readableIter
  rcases part_of_wire hf.payload_le hne hbuf with h4 | ⟨hhead, hlt⟩
  · rw [if_pos h4]
  · have hmax : ¬ VBT_MAX_MSG_SIZE < f.payload.length := Nat.not_lt.2 hf.payload_le
    simp only [hhead, if_neg hmax, if_pos hlt, ite_self]

end Loop

/-- A client as a receiver of frames that reads by the function `read`. -/
def reads (count : Bool → ℕ) (read : Client → List UInt8 → Client) :
    Reads UInt8 (List UInt8) Frame Client where
  held := Client.rxbuf
  taken := Client.calls
  body := readableIter count
  room := Client.room
  bytes := id
  read

/-- The connection is up, and a recovery branch was taken `n` times. -/
def Steady (n : ℕ) (c : Client) : Prop := c.mediumFd = true ∧ c.recoveries = n

/-- **The loop of a client** takes whole frames off the buffer and stops at a part of one, and no
recovery branch is taken. -/
theorem sound (count : Bool → ℕ) (read : Client → List UInt8 → Client) (n : ℕ) :
    (reads count read).Sound Frame.encode Frame.Valid (Steady n) where
  nonempty := by
    intro f _ h
    have := congrArg List.length h
    rw [Frame.encode, wire_length] at this
    simp at this
  whole := by
    intro c f rest hc hf hbuf
    obtain ⟨k, hiter⟩ := readableIter_whole count hf hbuf
    exact ⟨_, hiter, hc, rfl, rfl⟩
  part hc hf hne hbuf := readableIter_part count hf hne hbuf
  idle := by
    intro c _ hbuf
    have hnil : c.rxbuf = [] := hbuf
    show c.readableIter count = (c, false)
    unfold readableIter
    rw [if_pos]
    rw [hnil]
    exact Nat.zero_lt_succ 3

/-- A read that brings something, and no more than there is room for. -/
theorem take_room {c : Client} {bytes : List UInt8} (hne : bytes ≠ [])
    (hroom : bytes.length ≤ c.room) :
    (bytes.take c.room).isEmpty = false := by
  rw [List.take_of_length_le hroom]
  cases bytes with
  | nil => exact absurd rfl hne
  | cons b bytes => rfl

/-- A client that, when something was read, puts it into the buffer and runs the loop. -/
theorem loops (count : Bool → ℕ) (read : Client → List UInt8 → Client) (n : ℕ)
    (hread : ∀ c bytes, Steady n c → (bytes.take c.room).isEmpty = false →
      read c bytes = (c.put bytes).drain count) :
    (reads count read).Loops VBT_RXBUF_SIZE (fun _ => True) (Steady n) := by
  intro c bytes hc _ hlt hne hroom
  have hg : c.guarded = c := if_neg (Nat.not_le.2 hlt)
  have hput : c.put bytes = { c with rxbuf := c.rxbuf ++ bytes } := by
    have htake : bytes.take c.room = bytes := List.take_of_length_le hroom
    unfold put
    rw [hg, htake]
  refine ⟨c.put bytes, hread c bytes hc (take_room hne hroom), ?_⟩
  rw [hput]
  exact ⟨hc, rfl, rfl⟩

/-- A client takes exactly the frames that were sent, however their stream is cut into reads. -/
theorem round_trip (count : Bool → ℕ) (read : Client → List UInt8 → Client)
    (hread : ∀ c bytes, c.mediumFd = true → (bytes.take c.room).isEmpty = false →
      read c bytes = (c.put bytes).drain count)
    {fs : List Frame} (hfs : ∀ f ∈ fs, f.Valid) {c : Client} (hup : c.mediumFd = true)
    (hbuf : c.rxbuf = []) {chunks : List (List UInt8)} (hfit : (reads count read).Fit c chunks)
    (hstream : chunks.flatten = fs.flatMap Frame.encode) :
    (chunks.foldl read c).calls = c.calls ++ fs ∧ (chunks.foldl read c).rxbuf = [] ∧
      (chunks.foldl read c).recoveries = c.recoveries := by
  have hbytes : chunks.flatMap (reads count read).bytes = fs.flatMap Frame.encode := by
    rw [← hstream]
    exact List.flatMap_id
  obtain ⟨hsteady, hheld, htaken⟩ := Reads.round_trip (sound count read c.recoveries)
    (loops count read c.recoveries fun c bytes hc => hread c bytes hc.1) (by decide)
    (fun f hf => hf.encode_le) (fun _ _ => trivial) hfs ⟨hup, rfl⟩ hbuf hfit hbytes
  exact ⟨htaken, hheld, hsteady.2⟩

end Client

/-! ### The three clients as receivers -/

theorem Controller.read_eq (c : Client) (bytes : List UInt8)
    (h : (bytes.take c.room).isEmpty = false) :
    Controller.mediumReadable c (.data bytes) = (c.put bytes).drain fun _ => 1 := by
  show (if (bytes.take c.room).isEmpty then _ else (c.put bytes).drain _) = _
  rw [h, if_neg Bool.false_ne_true]

theorem VhostUser.read_eq (c : Client) (bytes : List UInt8)
    (h : (bytes.take c.room).isEmpty = false) :
    VhostUser.mediumReadable c (.data bytes) = (c.put bytes).drain fun _ => 0 := by
  show (if (bytes.take c.room).isEmpty then _ else (c.put bytes).drain _) = _
  rw [h, if_neg Bool.false_ne_true]

theorem Virtio.read_eq (c : Client) (bytes : List UInt8) (hup : c.mediumFd = true)
    (h : (bytes.take c.room).isEmpty = false) :
    Virtio.mediumRead c (.data bytes) = (c.put bytes).drain fun same => if same then 1 else 0 := by
  unfold Virtio.mediumRead
  simp only [hup, h, Bool.not_true, Bool.false_eq_true, if_false]

/-- The receiver of `vbt_controller.c`. -/
def Controller.reads : Reads UInt8 (List UInt8) Frame Client :=
  Client.reads (fun _ => 1) fun c bytes => Controller.mediumReadable c (.data bytes)

/-- The receiver of `vbt_vhost_user.c`. -/
def VhostUser.reads : Reads UInt8 (List UInt8) Frame Client :=
  Client.reads (fun _ => 0) fun c bytes => VhostUser.mediumReadable c (.data bytes)

/-- The receiver of `vbt_virtio.c`. -/
def Virtio.reads : Reads UInt8 (List UInt8) Frame Client :=
  Client.reads (fun same => if same then 1 else 0) fun c bytes => Virtio.mediumRead c (.data bytes)

/-! ### The clients as senders -/

namespace Client

theorem writeAll_true {len off n : ℕ} {ws : List WriteRes} (h : writeAll len off ws = (n, true)) :
    len ≤ n := by
  fun_induction writeAll len off ws <;> simp_all

/-- As long as the connection is up, what the socket took are the encodings of the frames. -/
theorem sent_pduToMedium {count : ℕ} {c : Client} {ws : List WriteRes} {f : Frame}
    (h : (c.pduToMedium count ws f.hdr f.pdu).mediumFd = true) :
    c.mediumFd = true ∧ (c.pduToMedium count ws f.hdr f.pdu).sent = c.sent ++ f.encode := by
  unfold pduToMedium at h ⊢
  cases hup : c.mediumFd with
  | false => simp [hup] at h
  | true =>
    simp only [hup, Bool.not_true, Bool.false_eq_true, if_false] at h ⊢
    rcases hw : writeAll (wire (Frame.payload ⟨f.hdr, f.pdu⟩)).length 0 ws with ⟨off, all⟩
    cases all with
    | false =>
      simp only [hw, Bool.false_eq_true, if_false] at h
    | true =>
      simp only [if_true]
      exact ⟨trivial, by rw [List.take_of_length_le (writeAll_true hw)]; rfl⟩

/-- Send some frames by the function `send`, the socket answering each time as told. -/
def sendAll (send : Client → List WriteRes → VbtFrameHdr → List UInt8 → Client) (c : Client)
    (fs : List (List WriteRes × Frame)) : Client :=
  fs.foldl (fun c x => send c x.1 x.2.hdr x.2.pdu) c

theorem sent_sendAll {count : ℕ} {c : Client} {fs : List (List WriteRes × Frame)}
    (h : (sendAll (pduToMedium count) c fs).mediumFd = true) :
    c.mediumFd = true ∧
      (sendAll (pduToMedium count) c fs).sent = c.sent ++
          (fs.map Prod.snd).flatMap Frame.encode := by
  induction fs generalizing c with
  | nil => exact ⟨h, by simp [sendAll]⟩
  | cons x fs ih =>
    obtain ⟨hup, hsent⟩ := ih (c := c.pduToMedium count x.1 x.2.hdr x.2.pdu) h
    obtain ⟨hup', hsent'⟩ := sent_pduToMedium hup
    refine ⟨hup', ?_⟩
    show (sendAll (pduToMedium count) (c.pduToMedium count x.1 x.2.hdr x.2.pdu) fs).sent = _
    rw [hsent, hsent', List.map_cons, List.flatMap_cons, List.append_assoc]

end Client

end Vbt
