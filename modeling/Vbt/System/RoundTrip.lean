import Vbt.Hub.Decode

/-!
# The wire format, end to end

Frames are encoded by the clients' `cb_pdu_to_medium` and the hub's `deliver_to_peer`, and decoded
by the hub's `peer_readable` and the reassembly loops of the three clients. However the stream is
cut into reads, each of the four decoders gives back the frames that were sent.

* `Sent fs stream`: the bytes that one of the encoders puts on the wire for some frames;
* `wire_round_trip`: the four decoders; for the hub, as long as no write to the sender fails while
  its frames are handled;
* `decode_broken_pipe`: what the hub does when one fails.
-/

namespace Vbt

/-- The bytes that `deliver_to_peer` gives to `peer_send`. -/
def Hub.deliveredBytes (hdr : VbtFrameHdr) (pdu : List UInt8) (rssi : ℤ) : List UInt8 :=
  wire (Frame.payload ⟨{ hdr with rssi := Int8.ofInt rssi }, pdu⟩)

/-- The stream that carries some frames: written by `cb_pdu_to_medium` of one of the three clients
over a connection that stays up, whatever pieces the socket takes it in, or delivered by the hub. -/
inductive Sent (fs : List Frame) : List UInt8 → Prop
  | client {send : Client → List WriteRes → VbtFrameHdr → List UInt8 → Client}
    (hsend : send = Controller.cbPduToMedium ∨ send = VhostUser.cbPduToMedium ∨
      send = Virtio.cbPduToMedium)
    (c : Client) (hc : c.sent = []) (xs : List (List WriteRes × Frame)) (hxs : xs.map Prod.snd = fs)
    (hup : (Client.sendAll send c xs).mediumFd = true) : Sent fs (Client.sendAll send c xs).sent
  | hub : Sent fs (fs.flatMap fun f => Hub.deliveredBytes f.hdr f.pdu f.hdr.rssi.toInt)

/-- The encoders agree. -/
theorem Sent.eq {fs : List Frame} {stream : List UInt8} (h : Sent fs stream) :
    stream = fs.flatMap Frame.encode := by
  cases h with
  | client hsend c hc xs hxs hup =>
    have hall : ∀ count, (Client.sendAll (Client.pduToMedium count) c xs).mediumFd = true →
        (Client.sendAll (Client.pduToMedium count) c xs).sent = fs.flatMap Frame.encode := by
      intro count h
      rw [(Client.sent_sendAll h).2, hc, hxs, List.nil_append]
    rcases hsend with rfl | rfl | rfl
    · exact hall 1 hup
    · exact hall 0 hup
    · exact hall 1 hup
  | hub =>
    refine List.flatMap_congr fun f _ => ?_
    rw [Hub.deliveredBytes, Hub.setRssi_self, Frame.encode]

/-- **Round trip under any chunking.** The stream of some frames, cut into reads of any size that
the buffers have room for, gives each of the three clients exactly these frames, in order, with
nothing left over and without a recovery branch taken. It gives them to the hub in any state as
well, if no write to the sender fails while its frames are handled. -/
theorem wire_round_trip {fs : List Frame} (hfs : ∀ f ∈ fs, f.Valid) {stream : List UInt8}
    (hsent : Sent fs stream) :
    (∀ R, R = Controller.reads ∨ R = VhostUser.reads ∨ R = Virtio.reads →
      ∀ (c : Client) (chunks : List (List UInt8)), c.mediumFd = true → c.rxbuf = [] →
        R.Fit c chunks → chunks.flatten = stream →
        (chunks.foldl R.read c).calls = c.calls ++ fs ∧ (chunks.foldl R.read c).rxbuf = [] ∧
          (chunks.foldl R.read c).recoveries = c.recoveries) ∧
    (∀ (s : Hub) (p : ℕ) (reads : List (Kern × List UInt8)), (s.peers p).isOpen = true →
      (s.peers p).rxbuf = [] → (∀ r ∈ reads, r.1.Sound p) →
      (Hub.decoder p).Fit (s, []) reads → (reads.map Prod.snd).flatten = stream →
      ∃ s', reads.foldl (Hub.decode p) (s, []) = (s', fs) ∧
        s' = reads.foldl (fun s r => ({ s with kern := r.1 } : Hub).peerReadable p (.data r.2)) s ∧
        (s'.peers p).isOpen = true ∧ (s'.peers p).rxbuf = []) := by
  have hstream := hsent.eq
  subst hstream
  refine ⟨?_, ?_⟩
  · rintro R (rfl | rfl | rfl) c chunks hup hbuf hfit hcut
    · exact Client.round_trip _ _ (fun c bytes _ h => Controller.read_eq c bytes h) hfs hup hbuf hfit hcut
    · exact Client.round_trip _ _ (fun c bytes _ h => VhostUser.read_eq c bytes h) hfs hup hbuf hfit hcut
    · exact Client.round_trip _ _ Virtio.read_eq hfs hup hbuf hfit hcut
  · intro s p reads ho hbuf hks hfit hcut
    exact Hub.decode_round_trip hfs ho hbuf hks hfit hcut

/-! ### Two frames -/

namespace Hub

/-- A data frame and an advertising frame. -/
def twoFrames : List Frame := [dataFrame, bystanderAdv]

/-- Their stream, cut inside the length of the first frame and inside the header of the second. -/
def pieces : List (List UInt8) :=
  [(twoFrames.flatMap Frame.encode).take 3, ((twoFrames.flatMap Frame.encode).drop 3).take 70,
    (twoFrames.flatMap Frame.encode).drop 73]

end Hub

theorem wire_round_trip_pieces :
    (Hub.pieces.foldl Controller.reads.read {}).calls = Hub.twoFrames ∧
      ∃ s', (Hub.pieces.map fun c => (Kern.quiet, c)).foldl (Hub.decode 0)
        ((Hub.init 0).run [.accept 5 false], []) = (s', Hub.twoFrames) := by
  have hfs : ∀ f ∈ Hub.twoFrames, f.Valid := by decide +kernel
  have hsent : Sent Hub.twoFrames (Client.sendAll Controller.cbPduToMedium {}
      [([.wrote 3, .eintr], Hub.dataFrame), ([], Hub.bystanderAdv)]).sent :=
    .client (Or.inl rfl) {} rfl _ rfl (by decide +kernel)
  obtain ⟨hclients, hhub⟩ := wire_round_trip hfs hsent
  have hquiet : Kern.quiet.Sound 0 := by
    refine ⟨rfl, fun w hw => ?_⟩
    obtain rfl := List.eq_of_mem_replicate hw
    decide
  refine ⟨(hclients Controller.reads (Or.inl rfl) {} Hub.pieces rfl rfl (by decide +kernel)
    (by decide +kernel)).1, ?_⟩
  obtain ⟨s', hs', -⟩ := hhub ((Hub.init 0).run [.accept 5 false]) 0
    (Hub.pieces.map fun c => (Kern.quiet, c)) (by decide +kernel) (by decide +kernel)
    (by
      intro r hr
      obtain ⟨c, -, rfl⟩ := List.mem_map.1 hr
      exact hquiet) (by decide +kernel) (by decide +kernel)
  exact ⟨s', hs'⟩

/-- A node that is connected to itself sends a data frame of that connection and another frame, and
both come in one read. The hub hands the first one back; its socket is broken, so the hub closes
it inside its own receive loop, `rxused` wraps, and the second frame is not decoded. -/
theorem decode_broken_pipe :
    Hub.Reachable ((Hub.init 0).run Hub.selfRun.dropLast) ∧
      (((Hub.init 0).run Hub.selfRun.dropLast).peers 0).isOpen = true ∧
      (((Hub.init 0).run Hub.selfRun.dropLast).peers 0).rxbuf = [] ∧
      (∀ f ∈ Hub.twoFrames, f.Valid) ∧
      (Hub.decoder 0).Fit ((Hub.init 0).run Hub.selfRun.dropLast, [])
        [(Hub.brokenPipe, Hub.twoFrames.flatMap Frame.encode)] ∧
      (Hub.decode 0 ((Hub.init 0).run Hub.selfRun.dropLast, [])
        (Hub.brokenPipe, Hub.twoFrames.flatMap Frame.encode)).2 = [Hub.dataFrame] ∧
      Act.rxWrap 0 ∈ Hub.did ((Hub.init 0).run Hub.selfRun.dropLast)
        (({ (Hub.init 0).run Hub.selfRun.dropLast with kern := Hub.brokenPipe } : Hub).peerReadable 0
          (.data (Hub.twoFrames.flatMap Frame.encode))) := by
  refine ⟨⟨0, Hub.selfRun.dropLast, rfl⟩, ?_⟩
  decide +kernel

end Vbt
