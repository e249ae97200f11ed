import Vbt.Core.Packets

/-!
# Advertising types

The host chooses an Advertising_Type, the core advertises with a PDU type, and a scanning core
reports an event type: three numberings. Of the types `0x00` (connectable and scannable), `0x02`
(scannable) and `0x03` (neither), only `0x00` is what it should be: `emit_advertisement` takes
`0x02` for the PDU type of that number, and whether a CONNECT_IND or a SCAN_REQ is accepted does not
depend on the type at all.

* `Advertises`: what the Advertising_Type of a core promises;
* `advertises_iff`: the promise is kept exactly for `0x00`;
* `undirected_misread`: what happens for the other two.
-/

namespace Vbt
namespace VbtLl

/-- What the Advertising_Type of a core that advertises promises: a scanning core reports its
advertisements with this type as event type, it lets itself be connected to only under `0x00`, and
it answers no SCAN_REQ under `0x03`. -/
structure Advertises (p : VbtLl) : Prop where
  reported : ∀ (now : UInt64) (f : Frame) (s : VbtLl) (junk : Mem),
    f ∈ framesIn (p.outputs (.tick now)) → s.scanEnabled = true → s.state ≠ .initiating →
      ∃ pkt r, packetsIn (s.outputs (fromMedium junk f)) = [pkt] ∧ readReport pkt = some r ∧
        r.eventType = p.advType
  connects : ∀ (hdr : VbtFrameHdr) (pdu : Mem) (len : ℕ), hdr.llType = VBT_LL_ADV →
    typeAt pdu = VBT_CONNECT_IND → p.advType ≠ 0x00 → (p.step (.pdu hdr pdu len)).conns = p.conns
  answers : ∀ (hdr : VbtFrameHdr) (pdu : Mem) (len : ℕ), hdr.llType = VBT_LL_ADV →
    typeAt pdu = VBT_SCAN_REQ → p.advType = 0x03 → framesIn (p.outputs (.pdu hdr pdu len)) = []

section Types

variable {p : VbtLl}

theorem advFrame_of_tick {now : UInt64} {f : Frame} (h : f ∈ framesIn (p.outputs (.tick now))) :
    ∃ channel, f = p.advFrame channel := by
  rcases tick_cases p now with hnone | ⟨hthree, -⟩
  · rw [hnone] at h
    cases h
  · rw [hthree] at h
    simp only [List.mem_cons, List.not_mem_nil, or_false] at h
    rcases h with rfl | rfl | rfl
    · exact ⟨_, rfl⟩
    · exact ⟨_, rfl⟩
    · exact ⟨_, rfl⟩

/-- A core that advertises does so at the first tick after its interval. -/
theorem exists_advFrame_tick (hadv : p.advEnabled = true) :
    p.advFrame VBT_CHAN_ADV_37 ∈
      framesIn (p.outputs (.tick (p.advIntervalMs.toUInt64 + p.lastAdvMs))) := by
  have hdue : p.advIntervalMs.toUInt64 ≤
      p.advIntervalMs.toUInt64 + p.lastAdvMs - p.lastAdvMs := by
    rw [UInt64.add_sub_cancel]
    exact UInt64.le_refl _
  have htick : p.step (.tick (p.advIntervalMs.toUInt64 + p.lastAdvMs)) =
      { p.emitAdvertisement with lastAdvMs := p.advIntervalMs.toUInt64 + p.lastAdvMs } := by
    show p.tick _ = _
    unfold tick
    rw [if_pos hadv, if_pos (Or.inr hdue)]
  have hout : (p.step (.tick (p.advIntervalMs.toUInt64 + p.lastAdvMs))).out = [_, _, _] ++ p.out :=
    congrArg VbtLl.out htick
  rw [outputs_eq hout]
  exact List.mem_cons_self

/-- The report of an advertisement has the event type of its PDU type. -/
theorem reported_type {s : VbtLl} (hscan : s.scanEnabled = true) (hinit : s.state ≠ .initiating)
    (junk : Mem) (channel : UInt8) :
    ∃ pkt r, packetsIn (s.outputs (fromMedium junk (p.advFrame channel))) = [pkt] ∧
      readReport pkt = some r ∧ r.eventType = reportType p.advPduType := by
  have hdata := p.advData.property
  have hstep := step_adv (f := p.advFrame channel) junk hscan hinit p.advPduType_three rfl rfl
  split_ifs at hstep
  · obtain ⟨⟨pkt, hpkts, hread⟩, -⟩ := outputs_report_request (r := ⟨_, _, _, _, _⟩) hdata hstep
    exact ⟨pkt, _, hpkts, hread, rfl⟩
  · obtain ⟨pkt, hpkts, hread⟩ := packets_report (r := ⟨_, _, _, _, _⟩) hdata hstep
    exact ⟨pkt, _, hpkts, hread, rfl⟩

/-- A SCAN_REQ to the address a core advertises with. -/
def scanReqTo (p : VbtLl) : Frame :=
  ⟨fillHdr VBT_LL_ADV VBT_ADV_ACCESS_ADDR VBT_CHAN_ADV_37 BdAddr.zero 0 14,
    [VBT_SCAN_REQ ||| txAddBit 0 ||| rxAddBit 0, 12] ++ BdAddr.zero.bytes ++
      (p.ownSourceAddr p.advOwnAddrType).bytes⟩

/-- **An Advertising_Type means what it says exactly if it is `0x00`.** -/
theorem advertises_iff (hadv : p.advEnabled = true)
    (ht : p.advType = 0x00 ∨ p.advType = 0x02 ∨ p.advType = 0x03) :
    p.Advertises ↔ p.advType = 0x00 := by
  constructor
  · intro h
    rcases ht with ht | ht | ht
    · exact ht
    · -- what is advertised is an ADV_NONCONN_IND, which is reported as 0x03
      exfalso
      have hscan : scanner.scanEnabled = true := by decide +kernel
      have hinit : scanner.state ≠ .initiating := by decide +kernel
      obtain ⟨pkt, r, hpkts, hread, htype⟩ :=
        h.reported _ _ scanner blank (exists_advFrame_tick hadv) hscan hinit
      obtain ⟨pkt', r', hpkts', hread', htype'⟩ :=
        reported_type (p := p) hscan hinit blank VBT_CHAN_ADV_37
      rw [hpkts, List.cons.injEq] at hpkts'
      rw [← hpkts'.1, hread, Option.some.injEq] at hread'
      rw [← hread', htype, advPduType, if_pos ht, ht] at htype'
      exact absurd htype' (by decide)
    · -- a SCAN_REQ is answered whatever the type
      exfalso
      obtain ⟨rsp, hrsp, -⟩ := frames_scanRsp
        (step_scanReq (f := p.scanReqTo) (t := 0) blank hadv rfl rfl)
      have hnone := h.answers p.scanReqTo.hdr (Mem.ofList p.scanReqTo.pdu blank) 14 rfl
        (scanReqType 0 0) ht
      rw [show framesIn (p.outputs (.pdu p.scanReqTo.hdr (Mem.ofList p.scanReqTo.pdu blank) 14)) =
        [rsp] from hrsp] at hnone
      cases hnone
  · intro ht
    refine ⟨fun now f s junk hf hscan hinit => ?_, fun _ _ _ _ _ hne => absurd ht hne,
      fun _ _ _ _ _ h3 => ?_⟩
    · obtain ⟨channel, rfl⟩ := advFrame_of_tick hf
      obtain ⟨pkt, r, hpkts, hread, htype⟩ := reported_type (p := p) hscan hinit junk channel
      refine ⟨pkt, r, hpkts, hread, ?_⟩
      rw [htype, ht, advPduType, ht]
      rfl
    · rw [ht] at h3
      cases h3

end Types

/-- A core that advertises with the given Advertising_Type. -/
def advertising (t : UInt8) : VbtLl :=
  (vbtLlNew peripheralAddr).run
    [fromHost blank ([HCI_CMD_PKT, 0x06, 0x20, 15, 0, 8, 0, 8, t, 0, 0] ++ List.replicate 6 0 ++
      [7, 0]),
      fromHost blank [HCI_CMD_PKT, 0x0A, 0x20, 1, 1]]

theorem advertises_connectable :
    (advertising 0x00).Advertises ↔ (advertising 0x00).advType = 0x00 :=
  advertises_iff (by decide +kernel) (by decide +kernel)

/-- A CONNECT_IND to the core of `advertising`. -/
def connectIndTo : Frame :=
  ⟨fillHdr VBT_LL_ADV VBT_ADV_ACCESS_ADDR VBT_CHAN_ADV_37 centralAddr 0 36,
    connectIndPdu 0 0 centralAddr peripheralAddr 0x12345678⟩

/-- Scannable advertising is reported as non-connectable, and under non-connectable advertising the
core answers a SCAN_REQ and lets itself be connected to. -/
theorem undirected_misread :
    ((advertising 0x02).advEnabled = true ∧ (advertising 0x02).advType = 0x02 ∧
      ((framesIn ((advertising 0x02).outputs (.tick 100))).map fun f =>
        (packetsIn (scanner.outputs (fromMedium blank f))).map fun pkt =>
          (readReport pkt).map Report.eventType) = [[some 0x03], [some 0x03], [some 0x03]]) ∧
    (advertising 0x03).advEnabled = true ∧ (advertising 0x03).advType = 0x03 ∧
      (framesIn ((advertising 0x03).outputs (fromMedium blank (advertising 0x03).scanReqTo))).length = 1 ∧
      ((advertising 0x03).conns 0).active = false ∧
      (((advertising 0x03).step (fromMedium blank connectIndTo)).conns 0).active = true := by
  decide +kernel

end VbtLl
end Vbt
