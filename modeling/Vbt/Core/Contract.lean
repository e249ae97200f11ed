import Vbt.Core.Reactions

/-!
# What the host and the medium can rely on

* `one_answer_per_command`: each command packet has one Command Complete or Command Status, before
  anything else the call tells the host, and nothing else has one;
* `WellFormed`: a frame as the hub and the peers expect it;
* `wellFormed_iff`: all frames that can be emitted in a state are so, unless a connection has the
  Access Address of advertising.
-/

namespace Vbt
namespace VbtLl

/-! ### Commands and answers -/

/-- The packet is a Command Complete or a Command Status. -/
def answering (pkt : List UInt8) : Bool := (notice pkt).answers.isSome

/-- The call is a command packet. -/
def Input.commanding (i : Input) : Bool := i.opcode.isSome

theorem answering_of_other {pkt : List UInt8} (h : notice pkt = .other) :
    answering pkt = false := by
  rw [answering, h]
  rfl

theorem notice_of_routine {ll : VbtLl} {os : List Out} (h : ∀ o ∈ os, ll.Routine o)
    {pkt : List UInt8} (hp : pkt ∈ packetsIn os) : notice pkt = .other := by
  obtain ⟨o, ho, heq⟩ := List.mem_filterMap.1 hp
  cases o with
  | hci size pkt' =>
    cases heq
    exact h _ ho
  | pdu size f => cases heq

section Call

variable {ll : VbtLl} {i : Input}

/-- The packets of a command: its answer, and then routine. -/
theorem packets_of_command (ll : VbtLl) {opcode : UInt16} (h : i.opcode = some opcode) :
    ∃ first rest, packetsIn (ll.outputs i) = first :: rest ∧ notice first = ll.replyTo i opcode ∧
      ∀ pkt ∈ rest, notice pkt = .other := by
  obtain ⟨size, first, new, hout, hfirst, hnew⟩ := (step_answered ll h).out
  have hsplit : (ll.step i).out = (new ++ [.hci size first]) ++ ll.out := by
    rw [hout, List.append_assoc]
    rfl
  refine ⟨first, packetsIn new.reverse, ?_, hfirst, fun pkt hp => ?_⟩
  · rw [outputs_eq hsplit, List.reverse_append]
    rfl
  · exact notice_of_routine (fun o ho => hnew o (List.mem_reverse.1 ho)) hp

/-- What any other call tells the host is no answer. -/
theorem packets_of_other (h : i.opcode = none) {pkt : List UInt8}
    (hp : pkt ∈ packetsIn (ll.outputs i)) : answering pkt = false := by
  cases step_reacts ll h with
  | place k txadd free ready heard does =>
    have hout : (ll.step i).out = [_, _] ++ ll.out := congrArg VbtLl.out does
    rw [outputs_eq hout] at hp
    obtain rfl := List.mem_singleton.1 hp
    rw [answering, connCompletePkt, notice_connComplete]
    rfl
  | accept k inita txadd aa free ready heard does =>
    have hout : (ll.step i).out = [_] ++ ll.out := congrArg VbtLl.out does
    rw [outputs_eq hout] at hp
    obtain rfl := List.mem_singleton.1 hp
    rw [answering, connCompletePkt, notice_connComplete]
    rfl
  | routine opens emits =>
    obtain ⟨new, hout, hnew⟩ := emits.out
    rw [outputs_eq hout] at hp
    exact answering_of_other (notice_of_routine (fun o ho => hnew o (List.mem_reverse.1 ho)) hp)

/-- What a command adds to a count of packets that leaves routine out. -/
theorem countP_command {P : Notice → Bool} (hP : P .other = false) {opcode : UInt16}
    (h : i.opcode = some opcode) :
    (ll.step i).packets.countP (fun pkt => P (notice pkt)) =
      ll.packets.countP (fun pkt => P (notice pkt)) + (P (ll.replyTo i opcode)).toNat := by
  obtain ⟨first, rest, hp, hfirst, hrest⟩ := packets_of_command ll h
  have hzero : rest.countP (fun pkt => P (notice pkt)) = 0 :=
    List.countP_eq_zero.2 fun pkt hpkt => by
      rw [hrest pkt hpkt, hP]
      decide
  rw [packets_step, List.countP_append, hp, List.countP_cons, hzero, hfirst, Nat.zero_add]
  cases P (ll.replyTo i opcode) <;> rfl

theorem countP_routine {P : Notice → Bool} (hP : P .other = false) (h : Emits ll ll (ll.step i)) :
    (ll.step i).packets.countP (fun pkt => P (notice pkt)) =
      ll.packets.countP (fun pkt => P (notice pkt)) := by
  obtain ⟨new, hout, hnew⟩ := h.out
  have hzero : (packetsIn new.reverse).countP (fun pkt => P (notice pkt)) = 0 :=
    List.countP_eq_zero.2 fun pkt hpkt => by
      rw [notice_of_routine (fun o ho => hnew o (List.mem_reverse.1 ho)) hpkt, hP]
      decide
  rw [packets_step, List.countP_append, outputs_eq hout, hzero, Nat.add_zero]

theorem numHciCmd_step (ll : VbtLl) (i : Input) : (ll.step i).numHciCmd = ll.numHciCmd := by
  cases hop : i.opcode with
  | some opcode =>
    refine (step_answered ll hop).steady.numHciCmd.trans ?_
    unfold settings
    cases Op.ofCode opcode with
    | none => rfl
    | some op => exact (sets_output ll _ _ op).2
  | none =>
    cases step_reacts ll hop with
    | place k txadd free ready heard does => rw [does]; rfl
    | accept k inita txadd aa free ready heard does => rw [does]; rfl
    | routine opens emits => exact emits.steady.numHciCmd

/-- One call adds as many answers as it is commands. -/
theorem countP_answering_step (ll : VbtLl) (i : Input) :
    (ll.step i).packets.countP answering =
      ll.packets.countP answering + [i].countP Input.commanding := by
  cases hop : i.opcode with
  | some opcode =>
    refine (countP_command (P := fun n => n.answers.isSome) rfl hop).trans ?_
    rw [replyTo_answers, List.countP_singleton, Input.commanding, hop]
    rfl
  | none =>
    have hzero : (packetsIn (ll.outputs i)).countP answering = 0 :=
      List.countP_eq_zero.2 fun pkt hpkt => by
        rw [packets_of_other hop hpkt]
        decide
    rw [packets_step, List.countP_append, hzero, List.countP_singleton, Input.commanding, hop]
    rfl

end Call

theorem countP_answering_run (ll : VbtLl) (is : List Input) :
    (ll.run is).packets.countP answering =
      ll.packets.countP answering + is.countP Input.commanding := by
  induction is generalizing ll with
  | nil => rfl
  | cons i is ih =>
    rw [show ll.run (i :: is) = (ll.step i).run is from rfl, ih, countP_answering_step,
      Nat.add_assoc, ← List.countP_append]
    rfl

theorem Reached.numHciCmd {ll : VbtLl} (h : Reached ll) : ll.numHciCmd = 1 := by
  obtain ⟨bdaddr, is, rfl⟩ := h
  suffices hrun : ∀ ll : VbtLl, (ll.run is).numHciCmd = ll.numHciCmd from hrun _
  induction is with
  | nil => exact fun _ => rfl
  | cons i is ih => exact fun ll => (ih (ll.step i)).trans (numHciCmd_step ll i)

/-- **Command/response discipline.** -/
theorem one_answer_per_command {ll : VbtLl} (h : Reached ll) :
    (∀ (pkt : Mem) (len : ℕ), 4 ≤ len → pkt 0 = HCI_CMD_PKT →
      ∃ first rest, packetsIn (ll.outputs (.hci pkt len)) = first :: rest ∧
        (notice first).answers = some (le16 (pkt 1) (pkt 2), 1) ∧
        ∀ other ∈ rest, (notice other).answers = none) ∧
    (∀ i : Input, i.opcode = none →
      ∀ other ∈ packetsIn (ll.outputs i), (notice other).answers = none) ∧
    ∀ is : List Input, (ll.run is).packets.countP answering =
      ll.packets.countP answering + is.countP Input.commanding := by
  refine ⟨fun pkt len hlen hcmd => ?_, fun i hi other ho => ?_, countP_answering_run ll⟩
  · have hop : (Input.hci pkt len).opcode = some (le16 (pkt 1) (pkt 2)) := if_pos ⟨hlen, hcmd⟩
    obtain ⟨first, rest, hp, hfirst, hrest⟩ := packets_of_command ll hop
    refine ⟨first, rest, hp, ?_, fun other ho => ?_⟩
    · have hcredits : ll.credits = 1 := by
        rw [VbtLl.credits, h.numHciCmd]
        rfl
      rw [hfirst, replyTo_answers, hcredits]
    · rw [hrest other ho]
      rfl
  · exact Option.not_isSome_iff_eq_none.1 (Bool.eq_false_iff.1 (packets_of_other hi ho))

/-- A reset of a new core. -/
theorem one_answer_per_command_reset :
    ∃ first rest, packetsIn ((vbtLlNew centralAddr).outputs
        (.hci (Mem.ofList [HCI_CMD_PKT, 0x03, 0x0C, 0] blank) 4)) = first :: rest ∧
      (notice first).answers = some (0x0C03, 1) ∧
      ∀ other ∈ rest, (notice other).answers = none :=
  (one_answer_per_command ⟨centralAddr, [], rfl⟩).1 _ 4 le_rfl rfl

/-! ### Frames -/

/-- A frame that was assembled in an array of the given size, as the hub and the peers expect it of
a core in the given state. -/
structure WellFormed (ll : VbtLl) (size : ℕ) (f : Frame) : Prop where
  magic : f.hdr.magic = VBT_MAGIC
  version : f.hdr.version = VBT_VERSION
  pduLen : f.hdr.pduLen.toNat = f.pdu.length
  body : f.pdu.length = 2 + (f.pdu.getD 1 0).toNat
  short : f.pdu.length ≤ 253
  fits : f.pdu.length ≤ size
  accessAddr : f.hdr.accessAddr = VBT_ADV_ACCESS_ADDR ↔ f.hdr.llType = VBT_LL_ADV
  origin : f.hdr.llType = VBT_LL_DATA → ∃ k < VBT_LL_MAX_CONN, (ll.conns k).active = true ∧
    (ll.conns k).accessAddr = f.hdr.accessAddr ∧ (ll.conns k).handle = f.hdr.connHandle

theorem sound_connectIndFrame (ll : VbtLl) (adva : BdAddr) (advaType : UInt8) (aa : UInt32) :
    Sound 36 (ll.connectIndFrame adva advaType aa) :=
  sound_sendConnectInd _ _ _ _ _ _ _

/-- Every frame a call emits is sound and belongs to the advertising channel or to a connection that
was active when the call began. -/
theorem frame_of_call {ll : VbtLl} {i : Input} {size : ℕ} {f : Frame}
    (h : Out.pdu size f ∈ ll.outputs i) : Sound size f ∧
      (f.hdr.llType = VBT_LL_ADV ∧ f.hdr.accessAddr = VBT_ADV_ACCESS_ADDR ∨
        ∃ k < VBT_LL_MAX_CONN, ∃ x aa, ll.link k = some (x, aa) ∧ Carries x aa f) := by
  have hroutine : ll.Routine (.pdu size f) → Sound size f ∧
      (f.hdr.llType = VBT_LL_ADV ∧ f.hdr.accessAddr = VBT_ADV_ACCESS_ADDR ∨
        ∃ k < VBT_LL_MAX_CONN, ∃ x aa, ll.link k = some (x, aa) ∧ Carries x aa f) := by
    rintro ⟨hs, hb | hc⟩
    · exact ⟨hs, Or.inl ⟨hb.llType, hb.accessAddr⟩⟩
    · exact ⟨hs, Or.inr hc⟩
  cases hop : i.opcode with
  | some opcode =>
    obtain ⟨size', first, new, hout, -, hnew⟩ := (step_answered ll hop).out
    have hsplit : (ll.step i).out = (new ++ [.hci size' first]) ++ ll.out := by
      rw [hout, List.append_assoc]
      rfl
    rw [outputs_eq hsplit, List.mem_reverse, List.mem_append] at h
    rcases h with h | h
    · exact hroutine (hnew _ h)
    · cases List.mem_singleton.1 h
  | none =>
    cases step_reacts ll hop with
    | place k txadd free ready heard does =>
      have hout : (ll.step i).out = [_, _] ++ ll.out := congrArg VbtLl.out does
      rw [outputs_eq hout, List.mem_reverse] at h
      rcases List.mem_cons.1 h with h | h
      · cases h
      · cases List.mem_singleton.1 h
        exact ⟨sound_connectIndFrame ll _ _ _, Or.inl ⟨rfl, rfl⟩⟩
    | accept k inita txadd aa free ready heard does =>
      have hout : (ll.step i).out = [_] ++ ll.out := congrArg VbtLl.out does
      rw [outputs_eq hout, List.mem_reverse] at h
      cases List.mem_singleton.1 h
    | routine opens emits =>
      obtain ⟨new, hout, hnew⟩ := emits.out
      rw [outputs_eq hout, List.mem_reverse] at h
      exact hroutine (hnew _ h)

/-- The connections of the core have Access Addresses of their own. -/
def Addressed (ll : VbtLl) : Prop :=
  ∀ k < VBT_LL_MAX_CONN, (ll.conns k).active = true → (ll.conns k).accessAddr ≠ VBT_ADV_ACCESS_ADDR

theorem Addressed.wellFormed {ll : VbtLl} (h : ll.Addressed) {i : Input} {size : ℕ} {f : Frame}
    (hf : Out.pdu size f ∈ ll.outputs i) : ll.WellFormed size f := by
  obtain ⟨hs, hcase⟩ := frame_of_call hf
  refine ⟨hs.magic, hs.version, hs.pduLen, hs.body, hs.short, hs.fits, ?_, ?_⟩
  · rcases hcase with ⟨hll, haa⟩ | ⟨k, hk, x, aa, hl, hc⟩
    · exact ⟨fun _ => hll, fun _ => haa⟩
    · obtain ⟨hact, -, rfl⟩ := LlConn.link_eq_some.1 hl
      constructor
      · intro heq
        exact absurd (hc.accessAddr.symm.trans heq) (h k hk hact)
      · intro heq
        rw [hc.llType] at heq
        cases heq
  · intro hdata
    rcases hcase with ⟨hll, -⟩ | ⟨k, hk, x, aa, hl, hc⟩
    · rw [hll] at hdata
      cases hdata
    · obtain ⟨hact, rfl, rfl⟩ := LlConn.link_eq_some.1 hl
      exact ⟨k, hk, hact, hc.accessAddr.symm, hc.connHandle.symm⟩

/-- The host can make the core send a data PDU on any of its connections. -/
theorem fragFrame_mem_outputs {ll : VbtLl} (hn : ll.Numbered) {k : ℕ} (hk : k < VBT_LL_MAX_CONN)
    (hact : (ll.conns k).active = true) {data : List UInt8} (hlen : data.length ≤ LE_ACL_MTU) :
    Out.pdu 261 (fragFrame ll k data) ∈
      ll.outputs (fromHost blank (aclPacket (ll.conns k).handle 0 data)) := by
  have hstep := step_fragment hn (hn.connByHandle hk hact) 0 hlen blank
  have hout : (ll.step (fromHost blank (aclPacket (ll.conns k).handle 0 data))).out =
      [_, .pdu 261 (fragFrame ll k data)] ++ ll.out := congrArg VbtLl.out hstep
  rw [outputs_eq hout]
  exact List.mem_cons_self

/-- **Every frame is well formed, exactly while no connection has the Access Address of
advertising.** -/
theorem wellFormed_iff {ll : VbtLl} (h : Reached ll) :
    (∀ (i : Input) (size : ℕ) (f : Frame), Out.pdu size f ∈ ll.outputs i → ll.WellFormed size f) ↔
      ∀ k < VBT_LL_MAX_CONN, (ll.conns k).active = true →
        (ll.conns k).accessAddr ≠ VBT_ADV_ACCESS_ADDR := by
  constructor
  · intro hall k hk hact haa
    have hlen : ([] : List UInt8).length ≤ LE_ACL_MTU := Nat.zero_le _
    have hmem := fragFrame_mem_outputs h.numbered hk hact hlen
    have hadv := (hall _ _ _ hmem).accessAddr.1 haa
    cases hadv
  · intro haddr i size f hf
    exact Addressed.wellFormed haddr hf

theorem wellFormed_iff_peripheral :
    (peripheral.conns 0).active = true ∧
      Out.pdu 261 (fragFrame peripheral 0 [1, 2, 3]) ∈
        peripheral.outputs (fromHost blank (aclPacket 0x40 0 [1, 2, 3])) ∧
      ∀ (i : Input) (size : ℕ) (f : Frame), Out.pdu size f ∈ peripheral.outputs i →
        peripheral.WellFormed size f :=
  ⟨by decide +kernel, by decide +kernel, (wellFormed_iff ⟨_, _, rfl⟩).2 (by decide +kernel)⟩

/-- A peripheral that was given a CONNECT_IND with the Access Address of advertising. -/
def misaddressed : VbtLl :=
  (vbtLlNew peripheralAddr).run (advertiser ++ [fromMedium blank
    ⟨fillHdr VBT_LL_ADV VBT_ADV_ACCESS_ADDR VBT_CHAN_ADV_37 centralAddr 0 36,
      connectIndPdu 0 0 centralAddr peripheralAddr VBT_ADV_ACCESS_ADDR⟩])

/-- It sends data PDUs with the Access Address of advertising. -/
theorem misaddressed_data :
    Reached misaddressed ∧
      Out.pdu 261 (fragFrame misaddressed 0 [1, 2, 3]) ∈
        misaddressed.outputs (fromHost blank (aclPacket 0x40 0 [1, 2, 3])) ∧
      (fragFrame misaddressed 0 [1, 2, 3]).hdr.llType = VBT_LL_DATA ∧
      (fragFrame misaddressed 0 [1, 2, 3]).hdr.accessAddr = VBT_ADV_ACCESS_ADDR := by
  refine ⟨⟨_, _, rfl⟩, ?_, rfl, ?_⟩ <;> decide +kernel

end VbtLl
end Vbt
