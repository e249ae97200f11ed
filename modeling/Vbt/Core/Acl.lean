import Vbt.Core.Connections

/-!
# L2CAP messages over a connection

A host splits an L2CAP message over ACL packets: the first has the packet boundary flag 00, the
others have 01. The receiving host puts it together again by the flags of the packets it gets: 10
starts a message, 01 continues it.

* `aclPacket`, `hostSends`, `readAcl`, `reassemble`: the two hosts;
* `Shares`: two cores have a connection in common; `received`: what the host of one gets of what
  the host of the other sends;
* `received_eq`: every fragment arrives, in order, and each as the start of a message;
* `reassemble_received_iff`: the message is obtained exactly if it was sent in one packet;
* `acl_payloads_conserved`: the payloads of any packets arrive, each is confirmed once, and neither
  core changes.
-/

namespace Vbt

/-! ### Hosts -/

/-- An ACL packet with packet boundary flag `pb`. -/
def aclPacket (h pb : UInt16) (data : List UInt8) : List UInt8 :=
  [HCI_ACL_PKT] ++ bytes16 (h ||| pb <<< 12) ++ bytes16 (.ofNat data.length) ++ data

/-- The packets in which a host sends a message that it has split. -/
def hostSends (h : UInt16) : List (List UInt8) → List (List UInt8)
  | [] => []
  | first :: rest => aclPacket h 0 first :: rest.map (aclPacket h 1)

/-- The packet boundary flag and the data of an ACL packet for handle `h`. -/
def readAcl (h : UInt16) (pkt : List UInt8) : Option (UInt16 × List UInt8) :=
  let b := fun i => pkt.getD i 0
  if b 0 = HCI_ACL_PKT ∧ le16 (b 1) (b 2) &&& 0x0fff = h then
    some (le16 (b 1) (b 2) >>> 12 &&& 0x3, (pkt.drop 5).take (le16 (b 3) (b 4)).toNat)
  else none

/-- Add one packet to the messages obtained so far, newest first. -/
def addPacket (msgs : List (List UInt8)) : UInt16 × List UInt8 → List (List UInt8)
  | (pb, data) =>
    if pb = 2 then data :: msgs
    else if pb = 1 then
      match msgs with
      | [] => []
      | msg :: older => (msg ++ data) :: older
    else msgs

/-- The messages that a host obtains from packets, in the order they came. -/
def reassemble (pkts : List (UInt16 × List UInt8)) : List (List UInt8) :=
  (pkts.foldl addPacket []).reverse

namespace VbtLl

/-- The packets to the host, oldest first. -/
def packets (ll : VbtLl) : List (List UInt8) :=
  ll.out.reverse.filterMap fun
    | .hci _ pkt => some pkt
    | .pdu _ _ => none

/-- The frames to the medium, oldest first. -/
def frames (ll : VbtLl) : List Frame :=
  ll.out.reverse.filterMap fun
    | .hci _ _ => none
    | .pdu _ f => some f

theorem frames_pduToMedium (ll : VbtLl) (size : ℕ) (hdr : VbtFrameHdr) (pdu : List UInt8) :
    (ll.pduToMedium size hdr pdu).frames = ll.frames ++ [⟨hdr, pdu⟩] := by
  simp [frames, pduToMedium]

theorem frames_sendHci (ll : VbtLl) (size : ℕ) (pkt : List UInt8) :
    (ll.sendHci size pkt).frames = ll.frames := by
  simp [frames, sendHci]

theorem packets_pduToMedium (ll : VbtLl) (size : ℕ) (hdr : VbtFrameHdr) (pdu : List UInt8) :
    (ll.pduToMedium size hdr pdu).packets = ll.packets := by
  simp [packets, pduToMedium]

theorem packets_sendHci (ll : VbtLl) (size : ℕ) (pkt : List UInt8) :
    (ll.sendHci size pkt).packets = ll.packets ++ [pkt] := by
  simp [packets, sendHci]

/-- A packet from the host, with whatever follows it in memory. -/
def fromHost (junk : Mem) (pkt : List UInt8) : Input := .hci (Mem.ofList pkt junk) pkt.length

/-- A frame from the medium, with whatever follows it in memory. -/
def fromMedium (junk : Mem) (f : Frame) : Input := .pdu f.hdr (Mem.ofList f.pdu junk) f.pdu.length

/-- Slot `i` of `x`, with handle `h`, and slot `j` of `y` are the two ends of a connection. -/
structure Shares (x : VbtLl) (h : UInt16) (i : ℕ) (y : VbtLl) (j : ℕ) : Prop where
  here : x.connByHandle h = some i
  there : y.connByAA (x.conns i).accessAddr = some j

/-- The frames that `x` sends for a message its host has split. -/
def sentFrames (junk : Mem) (x : VbtLl) (h : UInt16) (frags : List (List UInt8)) : List Frame :=
  (x.run ((hostSends h frags).map (fromHost junk))).frames.drop x.frames.length

/-- The flags and data of the packets that the host of `y` gets on the connection in slot `j` when
`y` is given the frames that `x` sends for the message. -/
def received (junk : Mem) (x : VbtLl) (h : UInt16) (y : VbtLl) (j : ℕ) (frags : List (List UInt8)) :
    List (UInt16 × List UInt8) :=
  ((y.run ((sentFrames junk x h frags).map (fromMedium junk))).packets.drop y.packets.length).filterMap
    (readAcl (y.conns j).handle)

/-! ### The sending core -/

/-- The data PDU of a fragment. -/
def fragPdu (data : List UInt8) : List UInt8 := [LLID_START, .ofNat data.length] ++ data

/-- The frame of a fragment. -/
def fragFrame (x : VbtLl) (i : ℕ) (data : List UInt8) : Frame :=
  ⟨{ fillHdr VBT_LL_DATA (x.conns i).accessAddr 5 (x.ownSourceAddr (x.connOwnType (x.conns i)))
      (ownSourceAddrType (x.connOwnType (x.conns i))) (fragPdu data).length with
      connHandle := (x.conns i).handle }, fragPdu data⟩

theorem aclPacket_length (h pb : UInt16) (data : List UInt8) :
    (aclPacket h pb data).length = 5 + data.length := by
  simp [aclPacket, bytes16]
  omega

theorem aclLen_aclPacket (h pb : UInt16) {data : List UInt8} (hlen : data.length ≤ LE_ACL_MTU)
    (junk : Mem) :
    aclLen (Mem.ofList (aclPacket h pb data) junk) (aclPacket h pb data).length = data.length := by
  have hd : data.length ≤ 251 := hlen
  have hle : (le16 (Mem.ofList (aclPacket h pb data) junk 3)
      (Mem.ofList (aclPacket h pb data) junk 4)).toNat = data.length := by
    show (le16 (byteAt _ 0) (byteAt _ 1)).toNat = _
    rw [le16_byteAt, UInt16.toNat_ofNat']
    omega
  unfold aclLen
  rw [hle, aclPacket_length]
  dsimp only
  rw [if_neg (Nat.lt_irrefl _), if_neg (by omega)]

/-- The handle is read without the flags. -/
theorem handle_flags {i : ℕ} (hi : i < VBT_LL_MAX_CONN) (pb : UInt16) :
    (slotHandle i ||| pb <<< 12) &&& 0x0fff = slotHandle i := by
  have hi8 : i < 8 := hi
  have hlow : (pb <<< 12).toNat &&& 0x0fff = 0 := by
    rw [show (0x0fff : ℕ) = 2 ^ 12 - 1 from rfl, Nat.and_two_pow_sub_one_eq_mod,
      UInt16.toNat_shiftLeft, show (12 : UInt16).toNat % 16 = 12 from rfl, Nat.shiftLeft_eq]
    omega
  have hslot : (slotHandle i).toNat &&& 0x0fff = (slotHandle i).toNat := by
    interval_cases i <;> rfl
  rw [← UInt16.toNat_inj, UInt16.toNat_and, UInt16.toNat_or, Nat.and_or_distrib_right]
  show (slotHandle i).toNat &&& 0x0fff ||| (pb <<< 12).toNat &&& 0x0fff = _
  rw [hlow, hslot, Nat.or_zero]

theorem handle_aclPacket {i : ℕ} (hi : i < VBT_LL_MAX_CONN) (pb : UInt16) (data : List UInt8)
    (junk : Mem) :
    le16 (Mem.ofList (aclPacket (slotHandle i) pb data) junk 1)
      (Mem.ofList (aclPacket (slotHandle i) pb data) junk 2) &&& 0x0fff = slotHandle i := by
  show le16 (byteAt _ 0) (byteAt _ 1) &&& 0x0fff = slotHandle i
  rw [le16_byteAt, handle_flags hi]

/-- A fragment goes out in one data PDU that starts a message, whatever its flag. -/
theorem step_fragment {x : VbtLl} (hx : x.Numbered) {h : UInt16} {i : ℕ}
    (hi : x.connByHandle h = some i) (pb : UInt16) {data : List UInt8}
    (hlen : data.length ≤ LE_ACL_MTU) (junk : Mem) :
    x.step (fromHost junk (aclPacket h pb data)) =
      (x.pduToMedium 261 (fragFrame x i data).hdr (fragPdu data)).evtNumCompleted h 1 := by
  obtain ⟨hlt, hl⟩ := link_of_connByHandle hi
  obtain rfl := hx i hlt _ _ hl
  have hlen5 := aclPacket_length (slotHandle i) pb data
  have htake : ((Mem.ofList (aclPacket (slotHandle i) pb data) junk).shift 5).take data.length =
      data := by
    have := Mem.shift_ofList_append ([HCI_ACL_PKT] ++ bytes16 (slotHandle i ||| pb <<< 12) ++
      bytes16 (.ofNat data.length)) data junk
    exact (congrArg (fun m => Mem.take m data.length) this).trans (Mem.take_ofList _ _)
  have htype : Mem.ofList (aclPacket (slotHandle i) pb data) junk 0 = HCI_ACL_PKT := rfl
  show x.hciFromHost _ _ = _
  unfold hciFromHost
  rw [htype, if_neg (by omega), if_neg (by decide), if_pos rfl]
  unfold handleAclFromHost
  rw [if_neg (by omega), handle_aclPacket hlt]
  dsimp only
  rw [hi]
  dsimp only
  rw [aclLen_aclPacket _ _ hlen, htake]
  rfl

/-- A Number Of Completed Packets event for one packet. -/
def numCompletedPkt (h : UInt16) : List UInt8 :=
  [HCI_EVT_PKT, EVT_NUM_COMPLETED_PACKETS, 5, 1] ++ bytes16 h ++ bytes16 1

/-- ACL packets from the host leave one frame each, in order, are each confirmed, and change nothing
else. -/
theorem run_fragments {x : VbtLl} (hx : x.Numbered) {h : UInt16} {i : ℕ}
    (hi : x.connByHandle h = some i) (junk : Mem) {pkts : List (UInt16 × List UInt8)}
    (hpkts : ∀ p ∈ pkts, p.2.length ≤ LE_ACL_MTU) :
    ∃ out, x.run (pkts.map fun p => fromHost junk (aclPacket h p.1 p.2)) = { x with out := out } ∧
      ({ x with out := out } : VbtLl).frames = x.frames ++ pkts.map (fun p => fragFrame x i p.2) ∧
      ({ x with out := out } : VbtLl).packets = x.packets ++
          pkts.map fun _ => numCompletedPkt h := by
  -- sending changes neither the connection nor the addresses, so the next frame looks the same
  induction pkts generalizing x with
  | nil => exact ⟨x.out, rfl, (List.append_nil _).symm, (List.append_nil _).symm⟩
  | cons p pkts ih =>
    have hstep := step_fragment hx hi p.1 (hpkts p List.mem_cons_self) junk
    generalize hx1 : (x.pduToMedium 261 (fragFrame x i p.2).hdr (fragPdu p.2)).evtNumCompleted h 1 =
      x1 at hstep
    have hframes : x1.frames = x.frames ++ [fragFrame x i p.2] := by
      rw [← hx1, evtNumCompleted, frames_sendHci, frames_pduToMedium]
      rfl
    have hpackets : x1.packets = x.packets ++ [numCompletedPkt h] := by
      rw [← hx1, evtNumCompleted, packets_sendHci, packets_pduToMedium]
      rfl
    have hsame : x1 = { x with out := x1.out } := by
      rw [← hx1]
      rfl
    have hfrag : fragFrame x1 i = fragFrame x i := by
      rw [hsame]
      rfl
    have hi1 : x1.connByHandle h = some i := by
      rw [hsame]
      exact hi
    have hn1 : x1.Numbered := by
      rw [hsame]
      exact hx
    obtain ⟨out, hrun, hfr, hpk⟩ := ih hn1 hi1 fun q hq => hpkts q (List.mem_cons_of_mem _ hq)
    have hout : ({ x1 with out := out } : VbtLl) = { x with out := out } := by
      rw [hsame]
    rw [hout] at hrun hfr hpk
    refine ⟨out, ?_, ?_, ?_⟩
    · simp only [List.map_cons, run, List.foldl_cons]
      rw [hstep]
      exact hrun
    · rw [hfr, hframes, hfrag, List.append_assoc]
      rfl
    · rw [hpk, hpackets, List.append_assoc]
      rfl

/-- The packets of a message leave one frame for each fragment, in order. -/
theorem frames_run {x : VbtLl} (hx : x.Numbered) {h : UInt16} {i : ℕ}
    (hi : x.connByHandle h = some i) (junk : Mem) {pkts : List (UInt16 × List UInt8)}
    (hpkts : ∀ p ∈ pkts, p.2.length ≤ LE_ACL_MTU) :
    (x.run (pkts.map fun p => fromHost junk (aclPacket h p.1 p.2))).frames =
      x.frames ++ pkts.map fun p => fragFrame x i p.2 := by
  obtain ⟨out, hrun, hframes, -⟩ := run_fragments hx hi junk hpkts
  rw [hrun, hframes]

/-- Number the packets of a split message with their flags. -/
def flagged : List (List UInt8) → List (UInt16 × List UInt8)
  | [] => []
  | first :: rest => (0, first) :: rest.map fun data => (1, data)

theorem hostSends_eq (h : UInt16) (frags : List (List UInt8)) :
    hostSends h frags = (flagged frags).map fun p => aclPacket h p.1 p.2 := by
  cases frags with
  | nil => rfl
  | cons first rest => simp [hostSends, flagged]

theorem map_snd_flagged (frags : List (List UInt8)) : (flagged frags).map Prod.snd = frags := by
  cases frags with
  | nil => rfl
  | cons first rest => simp [flagged, Function.comp_def]

theorem sentFrames_eq {x : VbtLl} (hx : x.Numbered) {h : UInt16} {i : ℕ}
    (hi : x.connByHandle h = some i) (junk : Mem) {frags : List (List UInt8)}
    (hlen : ∀ data ∈ frags, data.length ≤ LE_ACL_MTU) :
    sentFrames junk x h frags = frags.map (fragFrame x i) := by
  unfold sentFrames
  rw [hostSends_eq, List.map_map]
  have hflag : ∀ p ∈ flagged frags, p.2.length ≤ LE_ACL_MTU := by
    intro p hp
    have hmem := List.mem_map_of_mem (f := Prod.snd) hp
    rw [map_snd_flagged] at hmem
    exact hlen _ hmem
  have hrun := frames_run hx hi junk hflag
  rw [show (fromHost junk ∘ fun p : UInt16 × List UInt8 => aclPacket h p.1 p.2) =
    fun p => fromHost junk (aclPacket h p.1 p.2) from rfl, hrun, List.drop_left]
  nth_rewrite 2 [← map_snd_flagged frags]
  rw [List.map_map]
  rfl

/-! ### The receiving core -/

/-- A fragment is passed on as the start of a message. -/
theorem step_fragFrame {x y : VbtLl} {i j : ℕ} (hj : y.connByAA (x.conns i).accessAddr = some j)
    {data : List UInt8} (hpos : 1 ≤ data.length) (hlen : data.length ≤ LE_ACL_MTU) (junk : Mem) :
    y.step (fromMedium junk (fragFrame x i data)) =
      y.sendHci 271 (aclPacket (y.conns j).handle 2 data) := by
  have hn : data.length ≤ 251 := hlen
  have hplen : (fragPdu data).length = 2 + data.length := by
    simp only [fragPdu, List.length_append, List.length_cons, List.length_nil]
  have hbody : bodyLenOf (Mem.ofList (fragPdu data) junk) (2 + data.length) = data.length := by
    have hb : (Mem.ofList (fragPdu data) junk 1).toNat = data.length := by
      show (UInt8.ofNat data.length).toNat = _
      rw [UInt8.toNat_ofNat']
      omega
    unfold bodyLenOf
    rw [hb, if_neg (Nat.lt_irrefl _)]
  have htake : ((Mem.ofList (fragPdu data) junk).shift 2).take data.length = data := by
    have := Mem.shift_ofList_append [LLID_START, .ofNat data.length] data junk
    exact (congrArg (fun m => Mem.take m data.length) this).trans (Mem.take_ofList _ _)
  show y.pduFromMedium (fragFrame x i data).hdr (Mem.ofList (fragPdu data) junk)
    (fragPdu data).length = _
  have htype : (fragFrame x i data).hdr.llType = VBT_LL_DATA := rfl
  have hllid : Mem.ofList (fragPdu data) junk 0 &&& 0x03 = LLID_START := by
    show LLID_START &&& 0x03 = LLID_START
    decide
  unfold pduFromMedium
  rw [hplen, hbody, htype, if_neg (by omega), if_neg (by decide), if_pos rfl]
  unfold dataFromMedium
  rw [show (fragFrame x i data).hdr.accessAddr = (x.conns i).accessAddr from rfl, hj]
  dsimp only
  rw [hllid, htake, if_neg (by decide), if_pos (Or.inl rfl), if_pos (by omega)]
  unfold aclToHost
  rw [if_neg (by omega)]
  rfl

/-- Fragments from the medium are passed on one by one, and change nothing else. -/
theorem run_fragFrames {x y : VbtLl} {i j : ℕ} (hj : y.connByAA (x.conns i).accessAddr = some j)
    (junk : Mem) {frags : List (List UInt8)}
    (hlen : ∀ data ∈ frags, 1 ≤ data.length ∧ data.length ≤ LE_ACL_MTU) :
    ∃ out, y.run (frags.map fun data => fromMedium junk (fragFrame x i data)) =
        { y with out := out } ∧
      ({ y with out := out } : VbtLl).packets =
        y.packets ++ frags.map (aclPacket (y.conns j).handle 2) := by
  induction frags generalizing y with
  | nil => exact ⟨y.out, rfl, (List.append_nil _).symm⟩
  | cons data frags ih =>
    obtain ⟨hpos, hle⟩ := hlen data List.mem_cons_self
    have hj1 : (y.sendHci 271 (aclPacket (y.conns j).handle 2 data)).connByAA
        (x.conns i).accessAddr = some j := hj
    obtain ⟨out, hrun, hpackets⟩ := ih hj1 fun d hd => hlen d (List.mem_cons_of_mem _ hd)
    refine ⟨out, ?_, ?_⟩
    · simp only [List.map_cons, run, List.foldl_cons]
      rw [step_fragFrame hj hpos hle]
      exact hrun
    · refine hpackets.trans ?_
      rw [packets_sendHci, List.append_assoc]
      rfl

theorem packets_run {x y : VbtLl} {i j : ℕ} (hj : y.connByAA (x.conns i).accessAddr = some j)
    (junk : Mem) {frags : List (List UInt8)}
    (hlen : ∀ data ∈ frags, 1 ≤ data.length ∧ data.length ≤ LE_ACL_MTU) :
    (y.run (frags.map fun data => fromMedium junk (fragFrame x i data))).packets =
      y.packets ++ frags.map (aclPacket (y.conns j).handle 2) := by
  obtain ⟨out, hrun, hpackets⟩ := run_fragFrames hj junk hlen
  rw [hrun, hpackets]

theorem readAcl_aclPacket {j : ℕ} (hj : j < VBT_LL_MAX_CONN) {data : List UInt8}
    (hlen : data.length ≤ LE_ACL_MTU) :
    readAcl (slotHandle j) (aclPacket (slotHandle j) 2 data) = some (2, data) := by
  have hn : data.length ≤ 251 := hlen
  have hdlen : (UInt16.ofNat data.length).toNat = data.length := by
    rw [UInt16.toNat_ofNat']
    omega
  have hhf : ∀ k : UInt16, le16 (byteAt k.toNat 0) (byteAt k.toNat 1) = k := le16_byteAt
  show (if HCI_ACL_PKT = HCI_ACL_PKT ∧ le16 (byteAt _ 0) (byteAt _ 1) &&& 0x0fff = slotHandle j then
    some (le16 (byteAt _ 0) (byteAt _ 1) >>> 12 &&& 0x3,
      data.take (le16 (byteAt _ 0) (byteAt _ 1)).toNat) else none) = _
  rw [hhf, hhf, hdlen, List.take_length]
  have hj8 : j < 8 := hj
  interval_cases j <;> rfl

/-- **Every fragment arrives, in order and as the start of a message.** -/
theorem received_eq {x y : VbtLl} (hx : x.Numbered) (hy : y.Numbered) {h : UInt16} {i j : ℕ}
    (hs : Shares x h i y j) (junk : Mem) {frags : List (List UInt8)}
    (hlen : ∀ data ∈ frags, 1 ≤ data.length ∧ data.length ≤ LE_ACL_MTU) :
    received junk x h y j frags = frags.map fun data => (2, data) := by
  obtain ⟨hlt, hl⟩ := link_of_connByAA hs.there
  have hh := hy j hlt _ _ hl
  unfold received
  rw [sentFrames_eq hx hs.here junk fun d hd => (hlen d hd).2, List.map_map]
  rw [show (fromMedium junk ∘ fragFrame x i) = fun data => fromMedium junk (fragFrame x i data) from
    rfl, packets_run hs.there junk hlen, List.drop_left, hh, List.filterMap_map]
  induction frags with
  | nil => rfl
  | cons data frags ih =>
    have hd : (readAcl (slotHandle j) ∘ aclPacket (slotHandle j) 2) data = some (2, data) :=
      readAcl_aclPacket hlt (hlen data List.mem_cons_self).2
    rw [List.filterMap_cons_some hd, List.map_cons,
      ih fun d hd => hlen d (List.mem_cons_of_mem _ hd)]

theorem foldl_addPacket_starts (frags msgs : List (List UInt8)) :
    (frags.map fun data => ((2 : UInt16), data)).foldl addPacket msgs = frags.reverse ++ msgs := by
  induction frags generalizing msgs with
  | nil => rfl
  | cons data frags ih =>
    rw [List.map_cons, List.foldl_cons, ih, List.reverse_cons, List.append_assoc]
    rfl

theorem reassemble_starts (frags : List (List UInt8)) :
    reassemble (frags.map fun data => ((2 : UInt16), data)) = frags := by
  unfold reassemble
  rw [foldl_addPacket_starts, List.append_nil, List.reverse_reverse]

/-- The core was created and has been called any number of times since. -/
def Reached (ll : VbtLl) : Prop := ∃ bdaddr is, ll = (vbtLlNew bdaddr).run is

theorem Reached.numbered {ll : VbtLl} (h : Reached ll) : ll.Numbered := by
  obtain ⟨bdaddr, is, rfl⟩ := h
  exact ((synced_vbtLlNew bdaddr).run is).numbered

/-- **A message survives the connection exactly if it was sent in one packet.** -/
theorem reassemble_received_iff {x y : VbtLl} (hx : Reached x) (hy : Reached y) {h : UInt16}
    {i j : ℕ} (hs : Shares x h i y j) (junk : Mem) {frags : List (List UInt8)} (hne : frags ≠ [])
    (hlen : ∀ data ∈ frags, 1 ≤ data.length ∧ data.length ≤ LE_ACL_MTU) :
    reassemble (received junk x h y j frags) = [frags.flatten] ↔ frags.length = 1 := by
  rw [received_eq hx.numbered hy.numbered hs junk hlen, reassemble_starts]
  constructor
  · intro heq
    rw [heq]
    rfl
  · intro hone
    obtain ⟨data, rfl⟩ := List.length_eq_one_iff.1 hone
    rw [List.flatten_singleton]

/-! ### Payloads -/

/-- Slot `i` is the one active connection with the Access Address `a`. -/
structure Holds (ll : VbtLl) (a : UInt32) (i : ℕ) : Prop where
  lt : i < VBT_LL_MAX_CONN
  active : (ll.conns i).active = true
  accessAddr : (ll.conns i).accessAddr = a
  only : ∀ k < VBT_LL_MAX_CONN, (ll.conns k).active = true → (ll.conns k).accessAddr = a → k = i

theorem Holds.connByAA {ll : VbtLl} {a : UInt32} {i : ℕ} (h : ll.Holds a i) :
    ll.connByAA a = some i := by
  refine Slots.find?_eq_some_of_unique (ll.connsSize ▸ h.lt) ?_ fun k hk hp => ?_
  · simp [h.active, h.accessAddr]
  · simp only [Bool.and_eq_true, beq_iff_eq] at hp
    exact h.only k (ll.connsSize ▸ hk) hp.1 hp.2

/-- A connection is found by its handle. -/
theorem Numbered.connByHandle {ll : VbtLl} (hn : ll.Numbered) {i : ℕ} (hi : i < VBT_LL_MAX_CONN)
    (hact : (ll.conns i).active = true) : ll.connByHandle (ll.conns i).handle = some i := by
  have hh : ∀ k < VBT_LL_MAX_CONN, (ll.conns k).active = true →
      (ll.conns k).handle = slotHandle k := fun k hk hact =>
    hn k hk _ _ (LlConn.link_eq_some.2 ⟨hact, rfl, rfl⟩)
  refine Slots.find?_eq_some_of_unique (ll.connsSize ▸ hi) ?_ fun k hk hp => ?_
  · simp [hact]
  · simp only [Bool.and_eq_true, beq_iff_eq] at hp
    have hk8 : k < VBT_LL_MAX_CONN := ll.connsSize ▸ hk
    rw [hh k hk8 hp.1, hh i hi hact] at hp
    exact slotHandle_inj hk8 hi hp.2

theorem map_readAcl {j : ℕ} (hj : j < VBT_LL_MAX_CONN) {frags : List (List UInt8)}
    (hlen : ∀ data ∈ frags, data.length ≤ LE_ACL_MTU) :
    (frags.map (aclPacket (slotHandle j) 2)).map (readAcl (slotHandle j)) =
      frags.map fun data => some (2, data) := by
  rw [List.map_map]
  refine List.map_congr_left fun data hd => ?_
  exact readAcl_aclPacket hj (hlen data hd)

/-- **ACL payloads and host credits are conserved.** -/
theorem acl_payloads_conserved {x y : VbtLl} (hx : Reached x) (hy : Reached y) {a : UInt32}
    {i j : ℕ} (hi : x.Holds a i) (hj : y.Holds a j) (junk junk' : Mem)
    {pkts : List (UInt16 × List UInt8)}
    (hpkts : ∀ p ∈ pkts, 1 ≤ p.2.length ∧ p.2.length ≤ LE_ACL_MTU) :
    let x' := x.run (pkts.map fun p => fromHost junk (aclPacket (x.conns i).handle p.1 p.2))
    let y' := y.run ((x'.frames.drop x.frames.length).map (fromMedium junk'))
    (y'.packets.drop y.packets.length).map
        (fun pkt => (readAcl (y.conns j).handle pkt).map Prod.snd) =
      pkts.map (fun p => some p.2) ∧
    x'.packets.drop x.packets.length = pkts.map (fun _ => numCompletedPkt (x.conns i).handle) ∧
    x' = { x with out := x'.out } ∧ y' = { y with out := y'.out } := by
  intro x' y'
  have hh : (y.conns j).handle = slotHandle j :=
    hy.numbered j hj.lt _ _ (LlConn.link_eq_some.2 ⟨hj.active, rfl, rfl⟩)
  have hlen : ∀ data ∈ pkts.map Prod.snd, 1 ≤ data.length ∧ data.length ≤ LE_ACL_MTU := by
    intro data hd
    obtain ⟨p, hp, rfl⟩ := List.mem_map.1 hd
    exact hpkts p hp
  obtain ⟨out, hrun, hframes, hpackets⟩ := run_fragments hx.numbered
    (hx.numbered.connByHandle hi.lt hi.active) junk fun p hp => (hpkts p hp).2
  have hsent : (x'.frames.drop x.frames.length).map (fromMedium junk') =
      (pkts.map Prod.snd).map fun data => fromMedium junk' (fragFrame x i data) := by
    show ((x.run _).frames.drop _).map _ = _
    rw [hrun, hframes, List.drop_left, List.map_map, List.map_map]
    rfl
  obtain ⟨out', hrun', hpackets'⟩ :=
    run_fragFrames (x := x) (i := i) (hi.accessAddr ▸ hj.connByAA) junk' hlen
  have hx' : x' = { x with out := out } := hrun
  have hy' : y' = { y with out := out' } := by
    show y.run ((x'.frames.drop x.frames.length).map (fromMedium junk')) = _
    rw [hsent, hrun']
  refine ⟨?_, ?_, ?_, ?_⟩
  · have hread := map_readAcl hj.lt fun data hd => (hlen data hd).2
    rw [hy', hpackets', List.drop_left, hh]
    show List.map (Option.map Prod.snd ∘ readAcl (slotHandle j)) _ = _
    rw [← List.map_map, hread, List.map_map, List.map_map]
    rfl
  · rw [hx', hpackets, List.drop_left]
  · rw [hx']
  · rw [hy']

/-! ### Two cores with a connection -/

/-- Memory after the end of a packet. -/
def blank : Mem := fun _ => 0

def centralAddr : BdAddr := ⟨0xC0, 0, 0, 0, 0, 1⟩
def peripheralAddr : BdAddr := ⟨0xC0, 0, 0, 0, 0, 2⟩

/-- A peripheral that has advertised. -/
def advertiser : List Input :=
  [fromHost blank [HCI_CMD_PKT, 0x0A, 0x20, 1, 1], .tick 100]

/-- The advertisement. -/
def advertisement : Frame := ((vbtLlNew peripheralAddr).run advertiser).frames.headD default

/-- A central that has answered the advertisement. -/
def initiator : List Input :=
  [fromHost blank ([HCI_CMD_PKT, 0x0D, 0x20, 25, 0, 0, 0, 0, 0, 0] ++ peripheralAddr.bytes ++
    List.replicate 13 0), fromMedium blank advertisement]

def central : VbtLl := (vbtLlNew centralAddr).run initiator

/-- The peripheral once it has the CONNECT_IND. -/
def peripheral : VbtLl :=
  (vbtLlNew peripheralAddr).run (advertiser ++ [fromMedium blank (central.frames.headD default)])

theorem shares_central_peripheral : Shares central 0x40 0 peripheral 0 := by
  constructor <;> decide +kernel

theorem reassemble_received_single :
    reassemble (received blank central 0x40 peripheral 0 [[1, 2, 3]]) = [[1, 2, 3]] :=
  (reassemble_received_iff ⟨_, _, rfl⟩ ⟨_, _, rfl⟩ shares_central_peripheral blank (by decide)
    (by decide)).2 rfl

/-- A message in two packets arrives as two messages. -/
theorem reassemble_received_pair :
    Reached central ∧ Reached peripheral ∧ Shares central 0x40 0 peripheral 0 ∧
      reassemble (received blank central 0x40 peripheral 0 [[1, 2, 3], [4, 5]]) = [[1, 2, 3], [4, 5]] ∧
      reassemble (received blank central 0x40 peripheral 0 [[1, 2, 3], [4, 5]]) ≠ [[1, 2, 3, 4, 5]] := by
  have h : reassemble (received blank central 0x40 peripheral 0 [[1, 2, 3], [4, 5]]) =
      [[1, 2, 3], [4, 5]] := by decide +kernel
  refine ⟨⟨_, _, rfl⟩, ⟨_, _, rfl⟩, shares_central_peripheral, h, ?_⟩
  rw [h]
  decide

theorem holds_central : central.Holds (central.conns 0).accessAddr 0 := by
  constructor <;> decide +kernel

theorem holds_peripheral : peripheral.Holds (central.conns 0).accessAddr 0 := by
  constructor <;> decide +kernel

/-- Payloads that look like control PDUs, in packets with any flags. -/
theorem acl_payloads_conserved_pair :
    let pkts : List (UInt16 × List UInt8) := [(0, [0x02, 0x13]), (3, [0x03])]
    let x' := central.run (pkts.map fun p =>
      fromHost blank (aclPacket (central.conns 0).handle p.1 p.2))
    let y' := peripheral.run ((x'.frames.drop central.frames.length).map (fromMedium blank))
    (y'.packets.drop peripheral.packets.length).map
        (fun pkt => (readAcl (peripheral.conns 0).handle pkt).map Prod.snd) =
      [some [0x02, 0x13], some [0x03]] ∧
    x'.packets.drop central.packets.length =
      [numCompletedPkt (central.conns 0).handle, numCompletedPkt (central.conns 0).handle] ∧
    x' = { central with out := x'.out } ∧ y' = { peripheral with out := y'.out } :=
  acl_payloads_conserved ⟨_, _, rfl⟩ ⟨_, _, rfl⟩ holds_central holds_peripheral blank blank
    (by decide)

end VbtLl
end Vbt
