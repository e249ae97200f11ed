import Vbt.Client.Medium
import Vbt.Hub.FanOut
import Vbt.Hub.Kept

/-!
# The receive loop of the hub as a decoder

`peer_readable` reads into the buffer of a peer and passes every whole frame in it to
`forward_frame`. While that handles the frame, the hub may write to the sender itself; as long as no
such write fails, the sender's buffer is left alone and the loop decodes the stream.

* `Kern.Sound p`: no write to peer `p` fails;
* `Spares p`: what forwarding then leaves of peer `p`;
* `nextFrame`, `decodeIter`, `decode`: the loop with a record of the frames it passes on;
* `decode_fst`: the loop is `peer_readable`;
* `decoder_sound`, `decoder_loops`: it is a receiver of frames.
-/

namespace Vbt

/-- No `write` on the socket of peer `p` fails, and memory for its backlog is there. -/
def Kern.Sound (kern : Kern) (p : ℕ) : Prop :=
  kern.malloc p = true ∧ ∀ w ∈ kern.write p, w ≠ .error ∧ w ≠ .wrote 0

namespace Hub

/-! ### The sender while its frame is handled -/

/-- As long as no write to peer `p` fails, its socket stays open and its receive buffer is left
alone. -/
def Spares (p : ℕ) (s s' : Hub) : Prop :=
  s.kern.Sound p → s'.kern.Sound p ∧ (s'.peers p).isOpen = (s.peers p).isOpen ∧
    (s'.peers p).rxbuf = (s.peers p).rxbuf

namespace Spares

variable {p : ℕ} {s s' s'' : Hub}

theorem trans (h : Spares p s s') (h' : Spares p s' s'') : Spares p s s'' := by
  intro hs
  obtain ⟨hk, ho, hb⟩ := h hs
  obtain ⟨hk', ho', hb'⟩ := h' hk
  exact ⟨hk', ho'.trans ho, hb'.trans hb⟩

theorem of_touches {q : ℕ} (hne : p ≠ q) (h : Touches q s s')
    (hk : s.kern.Sound p → s'.kern.Sound p) :
    Spares p s s' := fun hs => by
  refine ⟨hk hs, ?_, ?_⟩ <;> rw [h.peers p hne]

end Spares

theorem peerClose_kern (s : Hub) (idx : ℕ) : (s.peerClose idx).kern = s.kern := by
  unfold peerClose
  cases (s.peers idx).nodeIdx <;> split_ifs <;> rfl

theorem bufferRest_spares (p : ℕ) (s : Hub) (idx : ℕ) (data : List UInt8) :
    Spares p s (s.bufferRest idx data).1 := by
  have hkern : (s.bufferRest idx data).1.kern = s.kern := by
    simp only [bufferRest]
    split_ifs
    · exact peerClose_kern s idx
    · rfl
    · rfl
  by_cases hne : p = idx
  · subst hne
    intro hs
    refine ⟨hkern ▸ hs, ?_⟩
    simp only [bufferRest, hs.1, Bool.not_true, Bool.and_false, Bool.false_eq_true, if_false]
    split_ifs
    · simp [Hub.note, Hub.modStats, Hub.modPeer, Peer.isOpen]
    · simp [Hub.modPeer, Peer.isOpen]
  · exact .of_touches hne (bufferRest_touches s idx data) fun hs => hkern ▸ hs

theorem peerSend_spares (p : ℕ) (s : Hub) (idx : ℕ) (data : List UInt8) :
    Spares p s (s.peerSend idx data).1 := by
  simp only [peerSend]
  split_ifs
  · exact fun hs => ⟨hs, rfl, rfl⟩
  · intro hs
    have hloop := writeLoop_healthy data.length 0 (s.kern.write idx)
    generalize writeLoop data.length 0 (s.kern.write idx) = res at hloop
    obtain ⟨off, ending, ws⟩ := res
    have hw : Spares p s ((s.setWrites idx ws).note (.wrote idx (data.take off))) := by
      refine fun hs => ⟨⟨hs.1, fun w hw => ?_⟩, rfl, rfl⟩
      by_cases hne : p = idx
      · subst hne
        have hmem : w ∈ ws := by simpa [setWrites, Hub.note] using hw
        exact (hloop hs.2).2 w hmem
      · have hmem : w ∈ s.kern.write p := by simpa [setWrites, Hub.note, hne] using hw
        exact hs.2 w hmem
    cases ending with
    | finished => exact hw hs
    | blocked => exact hw.trans (bufferRest_spares p _ idx _) hs
    | failed =>
      -- only the write to another peer can fail
      have hne : p ≠ idx := by
        rintro rfl
        exact (hloop hs.2).1 rfl
      refine hw.trans (.of_touches hne (peerClose_touches _ idx) fun hk => ?_) hs
      rw [peerClose_kern]
      exact hk
  · exact bufferRest_spares p s idx data

theorem spares_kept (p : ℕ) : Kept (Spares p) :=
  .of_rest Spares.trans (fun hp hk _ hs => ⟨hk.symm ▸ hs, by rw [hp], by rw [hp]⟩)
    (fun _ _ hs => ⟨hs, rfl, rfl⟩) (fun _ _ _ hs => ⟨hs, rfl, rfl⟩) (peerSend_spares p)

/-- A frame of peer `p` is handled without a change to the buffer it came from. -/
theorem receive_spares (s : Hub) {kern : Kern} {p : ℕ} (hk : kern.Sound p) {payload : List UInt8}
    {f : Frame} (hf : frameOf payload = some f) :
    (s.receive kern p payload).kern.Sound p ∧
      ((s.receive kern p payload).peers p).isOpen = (s.peers p).isOpen ∧
      ((s.receive kern p payload).peers p).rxbuf = (s.peers p).rxbuf := by
  have hready : (s.ready kern p).kern.Sound p := hk
  have hbuf : ((s.ready kern p).peers p).rxbuf = (s.peers p).rxbuf := by
    simp [ready, Hub.modPeer]
  rw [receive_frame hf]
  obtain ⟨hk', ho, hb⟩ := (spares_kept p).forwardFrame (s.ready kern p) p f.hdr f.pdu hready
  exact ⟨hk', ho.trans (ready_isOpen s kern p p), hb.trans hbuf⟩

/-! ### The loop -/

/-- The frame that the next iteration of the receive loop of peer `p` passes to `forward_frame`. -/
def nextFrame (s : Hub) (p : ℕ) : Option Frame :=
  let buf := (s.peers p).rxbuf
  if buf.length < 4 then none
  else
    let plen := headLen buf
    if VBT_MAX_MSG_SIZE < plen then none
    else if buf.length < 4 + plen then none
    else
      let payload := (buf.drop 4).take plen
      if (parseHello payload).isSome then none else frameOf payload

/-- An iteration of the receive loop, with a record of the frames passed on so far. -/
def decodeIter (p : ℕ) (x : Hub × List Frame) : (Hub × List Frame) × Bool :=
  (((x.1.peerReadableIter p).1, x.2 ++ (x.1.nextFrame p).toList), (x.1.peerReadableIter p).2)

/-- `peer_readable` after a successful `read`, with a record of the frames passed on so far. -/
def decode (p : ℕ) (x : Hub × List Frame) (r : Kern × List UInt8) : Hub × List Frame :=
  let s := ({ x.1 with kern := r.1 } : Hub).recvBytes p (.data r.2)
  loopWhile (decodeIter p) (s.peers p).rxbuf.length (s, x.2)

theorem loopWhile_decodeIter (p n : ℕ) (x : Hub × List Frame) :
    (loopWhile (decodeIter p) n x).1 = peerReadableLoop p n x.1 := by
  induction n generalizing x with
  | zero => rfl
  | succ n ih =>
    rcases hit : x.1.peerReadableIter p with ⟨s', go⟩
    have hbody : decodeIter p x = ((s', x.2 ++ (x.1.nextFrame p).toList), go) := by
      rw [decodeIter, hit]
    cases go with
    | true =>
      rw [loopWhile_go hbody, ih, peerReadableLoop]
      simp only [hit]
    | false =>
      rw [loopWhile_stop hbody, peerReadableLoop]
      simp only [hit]

/-- The record changes nothing: the loop is `peer_readable`. -/
theorem decode_fst (p : ℕ) (x : Hub × List Frame) (r : Kern × List UInt8) :
    (decode p x r).1 = ({ x.1 with kern := r.1 } : Hub).peerReadable p (.data r.2) :=
  loopWhile_decodeIter p _ _

/-- The receive loop of peer `p` as a receiver of frames. -/
def decoder (p : ℕ) : Reads UInt8 (Kern × List UInt8) Frame (Hub × List Frame) where
  held x := (x.1.peers p).rxbuf
  taken := Prod.snd
  body := decodeIter p
  room x := VBT_RXBUF_SIZE - (x.1.peers p).rxbuf.length
  bytes := Prod.snd
  read := decode p

/-- The peer is there, and no write to it fails. -/
def Attached (p : ℕ) (x : Hub × List Frame) : Prop :=
  (x.1.peers p).isOpen = true ∧ x.1.kern.Sound p

section Loop

variable {p : ℕ} {s : Hub} {f : Frame}

theorem frameOf_valid (hf : f.Valid) : frameOf f.payload = some f :=
  frameOf_payload hf.magic hf.length hf.short

/-- None of the tests in front of a whole frame holds. -/
theorem encode_whole (hf : f.Valid) (rest : List UInt8) :
    headLen (f.encode ++ rest) = f.payload.length ∧ ¬ (f.encode ++ rest).length < 4 ∧
      ¬ VBT_MAX_MSG_SIZE < f.payload.length ∧
      ¬ (f.encode ++ rest).length < 4 + f.payload.length := by
  have hlen : (f.encode ++ rest).length = 4 + f.payload.length + rest.length := by
    rw [List.length_append, Frame.encode, wire_length]
  exact ⟨headLen_wire hf.payload_le rest, by omega, Nat.not_lt.2 hf.payload_le, by omega⟩

theorem nextFrame_whole (hf : f.Valid) {rest : List UInt8}
    (hbuf : (s.peers p).rxbuf = f.encode ++ rest) : s.nextFrame p = some f := by
  obtain ⟨hhead, h4, hmax, hwhole⟩ := encode_whole hf rest
  have hpay : ((f.encode ++ rest).drop 4).take f.payload.length = f.payload :=
    (take_wire f.payload rest).1
  simp only [nextFrame, hbuf, hhead, hpay, if_neg h4, if_neg hmax, if_neg hwhole,
    parseHello_of_frameOf (frameOf_valid hf), frameOf_valid hf]
  rfl

/-- A whole frame at the head of the buffer is handled and taken off it. -/
theorem peerReadableIter_whole (hk : s.kern.Sound p) (hf : f.Valid) {rest : List UInt8}
    (hbuf : (s.peers p).rxbuf = f.encode ++ rest) :
    ∃ s', s.peerReadableIter p = (s', true) ∧ s'.kern.Sound p ∧
      (s'.peers p).isOpen = (s.peers p).isOpen ∧ (s'.peers p).rxbuf = rest := by
  obtain ⟨hhead, h4, hmax, hwhole⟩ := encode_whole hf rest
  obtain ⟨hpay, hrest⟩ := take_wire f.payload rest
  -- the buffer holds the message still when it has been handled
  obtain ⟨hk', ho, hb⟩ := receive_spares s hk (frameOf_valid hf)
  have hmsg : s.handleMessage p f.payload = s.receive s.kern p f.payload := rfl
  rw [hbuf] at hb
  generalize s.receive s.kern p f.payload = t at hk' ho hb hmsg
  refine ⟨t.modPeer p fun q => { q with rxbuf := q.rxbuf.drop (4 + f.payload.length) }, ?_, hk', ?_,
    ?_⟩
  · rw [Frame.encode] at hbuf hb h4 hwhole hhead
    simp only [peerReadableIter, hbuf, hhead, hpay, hmsg, if_neg h4, if_neg hmax, if_neg hwhole, hb]
  · rw [← ho]
    simp [Hub.modPeer, Peer.isOpen]
  · simp only [Hub.modPeer, Slots.modify_same, hb]
    exact hrest

/-- At a proper part of a frame the loop is left. -/
theorem peerReadableIter_part (hf : f.Valid) {rest : List UInt8} (hne : rest ≠ [])
    (hbuf : f.encode = (s.peers p).rxbuf ++ rest) :
    s.peerReadableIter p = (s, false) ∧ s.nextFrame p = none := by
  unfold peerReadableIter nextFrame
  rcases part_of_wire hf.payload_le hne hbuf with h4 | ⟨hhead, hlt⟩
  · simp only [if_pos h4, and_self]
  · have hmax : ¬ VBT_MAX_MSG_SIZE < f.payload.length := Nat.not_lt.2 hf.payload_le
    simp only [hhead, if_neg hmax, if_pos hlt, ite_self, and_self]

end Loop

/-- **The receive loop of the hub** takes whole frames off the buffer and stops at a part of one. -/
theorem decoder_sound (p : ℕ) : (decoder p).Sound Frame.encode Frame.Valid (Attached p) where
  nonempty := by
    intro f _ h
    have := congrArg List.length h
    rw [Frame.encode, wire_length] at this
    simp at this
  whole := by
    intro x f rest hx hf hbuf
    obtain ⟨s', hiter, hk, ho, hrest⟩ := peerReadableIter_whole hx.2 hf hbuf
    have hnext := nextFrame_whole hf hbuf
    refine ⟨(s', x.2 ++ [f]), ?_, ⟨ho.trans hx.1, hk⟩, hrest, rfl⟩
    show decodeIter p x = _
    rw [decodeIter, hiter, hnext]
    rfl
  part := by
    intro x f rest hx hf hne hbuf
    obtain ⟨hiter, hnext⟩ := peerReadableIter_part hf hne hbuf
    show decodeIter p x = _
    rw [decodeIter, hiter, hnext, Option.toList_none, List.append_nil]
  idle := by
    intro x hx hbuf
    have hnil : (x.1.peers p).rxbuf = [] := hbuf
    have h4 : (x.1.peers p).rxbuf.length < 4 := by
      rw [hnil]
      exact Nat.zero_lt_succ 3
    show decodeIter p x = _
    simp only [decodeIter, peerReadableIter, nextFrame, if_pos h4, Option.toList_none,
      List.append_nil]

/-- A read puts what it brings into the buffer and runs the loop. -/
theorem decoder_loops (p : ℕ) :
    (decoder p).Loops VBT_RXBUF_SIZE (fun r => r.1.Sound p) (Attached p) := by
  rintro ⟨s, fs⟩ ⟨kern, bytes⟩ hx hk - hne hroom
  have htake : bytes.take (VBT_RXBUF_SIZE - (s.peers p).rxbuf.length) = bytes :=
    List.take_of_length_le hroom
  have hgot : bytes.isEmpty = false := by
    cases bytes with
    | nil => exact absurd rfl hne
    | cons b bytes => rfl
  have hrecv : ({ s with kern } : Hub).recvBytes p (.data bytes) =
      ({ s with kern } : Hub).modPeer p fun q => { q with rxbuf := q.rxbuf ++ bytes } := by
    simp only [recvBytes, htake, hgot, Bool.false_eq_true, if_false]
  refine ⟨(({ s with kern } : Hub).recvBytes p (.data bytes), fs), rfl, ?_, ?_, rfl⟩
  · rw [hrecv]
    refine ⟨?_, hk⟩
    have ho : (s.peers p).isOpen = true := hx.1
    simpa [Hub.modPeer, Peer.isOpen] using ho
  · show ((({ s with kern } : Hub).recvBytes p (.data bytes)).peers p).rxbuf = _
    rw [hrecv]
    simp only [Hub.modPeer, Slots.modify_same]
    rfl

theorem foldl_decode_fst (p : ℕ) (reads : List (Kern × List UInt8)) (x : Hub × List Frame) :
    (reads.foldl (decode p) x).1 =
      reads.foldl (fun s r => ({ s with kern := r.1 } : Hub).peerReadable p (.data r.2)) x.1 := by
  induction reads generalizing x with
  | nil => rfl
  | cons r reads ih => rw [List.foldl_cons, List.foldl_cons, ih, decode_fst]

/-- `peer_readable` passes exactly the frames that were sent to `forward_frame`, however their
stream is cut into reads, if no write to the sender fails meanwhile. -/
theorem decode_round_trip {fs : List Frame} (hfs : ∀ f ∈ fs, f.Valid) {s : Hub} {p : ℕ}
    (ho : (s.peers p).isOpen = true) (hbuf : (s.peers p).rxbuf = [])
    {reads : List (Kern × List UInt8)} (hk : ∀ r ∈ reads, r.1.Sound p)
    (hfit : (decoder p).Fit (s, []) reads)
    (hstream : (reads.map Prod.snd).flatten = fs.flatMap Frame.encode) :
    ∃ s', reads.foldl (decode p) (s, []) = (s', fs) ∧
      s' = reads.foldl (fun s r => ({ s with kern := r.1 } : Hub).peerReadable p (.data r.2)) s ∧
      (s'.peers p).isOpen = true ∧ (s'.peers p).rxbuf = [] := by
  have hbytes : reads.flatMap (decoder p).bytes = fs.flatMap Frame.encode := by
    rw [← hstream]
    exact List.flatMap_def
  cases reads with
  | nil =>
    obtain rfl : fs = [] := by
      cases fs with
      | nil => rfl
      | cons f fs =>
        exact absurd (List.append_eq_nil_iff.1 hstream.symm).1
          ((decoder_sound p).nonempty (hfs f List.mem_cons_self))
    exact ⟨s, rfl, rfl, ho, hbuf⟩
  | cons r reads =>
    -- what the environment answered before the first read does not matter
    have hI : Attached p ({ s with kern := r.1 }, []) := ⟨ho, hk r List.mem_cons_self⟩
    obtain ⟨hatt, hheld, htaken⟩ := Reads.round_trip (decoder_sound p) (decoder_loops p) (by decide)
      (fun f hf => hf.encode_le) hk hfs hI hbuf hfit hbytes
    exact ⟨_, Prod.ext rfl htaken, foldl_decode_fst p (r :: reads) (s, []), hatt.1, hheld⟩

end Hub
end Vbt
