import Vbt.Core.Discovery
import Vbt.Lib.Measure

/-!
# Two cores fall silent

PDUs are in flight between two cores. A delivery may bring a core to send a PDU in turn, which the
other core may answer.

* `rank`: how many rounds of answers a PDU can start;
* `Sends`, `Replies`, `step_replies`: a PDU other than an LL_VERSION_IND on a connection of the core
  is answered with at most one PDU, of a smaller rank;
* `Duo`, `deliver`, `after`: two cores and the PDUs in flight, delivered in any order;
* `Stirs`, `exists_silent`: an order in which at last no core takes an LL_VERSION_IND ends;
* `Storm.goes_on`: an LL_VERSION_IND on a connection that both cores have is answered forever;
* `quiesces_iff`: when the two cores fall silent in every order.
-/

namespace Vbt

/-- How many rounds of answers a PDU can start. -/
def Frame.rank (f : Frame) : ℕ :=
  if f.hdr.llType = VBT_LL_ADV then
    if pduType f.pdu = VBT_ADV_IND ∨ pduType f.pdu = VBT_ADV_DIRECT_IND ∨
        pduType f.pdu = VBT_ADV_NONCONN_IND ∨ pduType f.pdu = VBT_ADV_SCAN_IND then 2
    else if pduType f.pdu = VBT_SCAN_REQ then 1 else 0
  else if f.pdu.getD 2 0 ∈ [LL_FEATURE_REQ, LL_SLAVE_FEATURE_REQ, LL_ENC_REQ, LL_START_ENC_REQ] then 1
  else 0

/-- An LL_VERSION_IND. -/
structure Frame.IsVersion (f : Frame) : Prop where
  llType : f.hdr.llType = VBT_LL_DATA
  length : 3 ≤ f.pdu.length
  llid : f.pdu.getD 0 0 &&& 0x03 = LLID_CONTROL
  body : f.pdu.getD 1 0 ≠ 0
  opcode : f.pdu.getD 2 0 = LL_VERSION_IND

namespace VbtLl

/-! ### Answers -/

/-- Between two states, these frames are sent. -/
def Sends (ll ll' : VbtLl) (fs : List Frame) : Prop :=
  ∃ new, ll'.out = new ++ ll.out ∧ framesIn new.reverse = fs

theorem Sends.refl (ll : VbtLl) : Sends ll ll [] := ⟨[], rfl, rfl⟩

theorem Sends.trans {ll ll' ll'' : VbtLl} {fs : List Frame} (h : Sends ll ll' fs)
    (h' : Sends ll' ll'' []) : Sends ll ll'' fs := by
  obtain ⟨new, hout, rfl⟩ := h
  obtain ⟨new', hout', hnil⟩ := h'
  refine ⟨new' ++ new, by rw [hout', hout, List.append_assoc], ?_⟩
  have hnil' : framesIn new'.reverse = [] := hnil
  rw [List.reverse_append, framesIn, List.filterMap_append]
  show framesIn new.reverse ++ framesIn new'.reverse = _
  rw [hnil', List.append_nil]

theorem Sends.framesIn_eq {ll : VbtLl} {i : Input} {fs : List Frame} (h : Sends ll (ll.step i) fs) :
    framesIn (ll.outputs i) = fs := by
  obtain ⟨new, hout, hfs⟩ := h
  rw [outputs_eq hout, hfs]

/-- At most one frame, of a smaller rank than the one that is answered and not an LL_VERSION_IND. -/
def Replies (f : Frame) (fs : List Frame) : Prop :=
  fs = [] ∨ ∃ g, fs = [g] ∧ g.rank < f.rank ∧ ¬ g.IsVersion

/-- The frame of `send_ll_control`. -/
def controlFrame (ll : VbtLl) (c : LlConn) (opcode : UInt8) (params : List UInt8) : Frame :=
  ⟨{ fillHdr VBT_LL_DATA c.accessAddr 5 (ll.ownSourceAddr (ll.connOwnType c))
      (ownSourceAddrType (ll.connOwnType c)) (3 + params.length) with connHandle := c.handle },
    [LLID_CONTROL, .ofNat (1 + params.length), opcode] ++ params⟩

theorem out_sendLlControl (ll : VbtLl) (c : LlConn) (opcode : UInt8) (params : List UInt8) :
    (ll.sendLlControl c opcode params).out =
      .pdu 64 (ll.controlFrame c opcode params) :: ll.out := by
  have hlen : ([LLID_CONTROL, .ofNat (1 + params.length), opcode] ++ params).length =
      3 + params.length := by
    simp only [List.length_append, List.length_cons, List.length_nil]
  unfold sendLlControl sendDataPdu
  rw [hlen]
  rfl

theorem rank_controlFrame (ll : VbtLl) (c : LlConn) {opcode : UInt8} (params : List UInt8)
    (h : opcode ∉ [LL_FEATURE_REQ, LL_SLAVE_FEATURE_REQ, LL_ENC_REQ, LL_START_ENC_REQ]) :
    (ll.controlFrame c opcode params).rank = 0 := by
  have hll : (ll.controlFrame c opcode params).hdr.llType ≠ VBT_LL_ADV :=
    show VBT_LL_DATA ≠ VBT_LL_ADV by decide
  unfold Frame.rank
  rw [if_neg hll]
  exact if_neg h

/-- A request on a connection is answered with a response. -/
theorem replies_control {f : Frame} (hll : f.hdr.llType ≠ VBT_LL_ADV)
    (hreq : f.pdu.getD 2 0 ∈ [LL_FEATURE_REQ, LL_SLAVE_FEATURE_REQ, LL_ENC_REQ, LL_START_ENC_REQ])
    (ll : VbtLl) (c : LlConn) {opcode : UInt8} (params : List UInt8)
    (hopcode : opcode = LL_FEATURE_RSP ∨ opcode = LL_ENC_RSP ∨ opcode = LL_START_ENC_RSP) :
    Replies f [ll.controlFrame c opcode params] := by
  have hop : opcode ∉ [LL_FEATURE_REQ, LL_SLAVE_FEATURE_REQ, LL_ENC_REQ, LL_START_ENC_REQ] ∧
      opcode ≠ LL_VERSION_IND := by
    rcases hopcode with rfl | rfl | rfl <;> decide
  refine Or.inr ⟨_, rfl, ?_, fun h => hop.2 h.opcode⟩
  rw [rank_controlFrame ll c params hop.1]
  unfold Frame.rank
  rw [if_neg hll, if_pos hreq]
  exact Nat.one_pos

theorem sends_markEncrypted (ll : VbtLl) (i : ℕ) : Sends ll (ll.markEncrypted i) [] := by
  unfold markEncrypted
  split_ifs
  · exact Sends.refl ll
  · exact ⟨[_], rfl, rfl⟩

theorem sends_handleEncReq (ll : VbtLl) (i : ℕ) (payload : Mem) (plen : ℕ) :
    ∃ x c params, Sends ll (ll.handleEncReq i payload plen) [controlFrame x c LL_ENC_RSP params] := by
  unfold handleEncReq
  dsimp only
  generalize hx : (ll.modConn i fun c => { c with encrypting := true }) = x
  have hout : x.out = ll.out := by
    rw [← hx]
    rfl
  have hsend : Sends ll (x.sendLlControl (x.conns i) LL_ENC_RSP (List.replicate 12 0)) _ :=
    ⟨[_], by rw [out_sendLlControl, hout]; rfl, rfl⟩
  exact ⟨x, _, _, hsend.trans ⟨[_], rfl, rfl⟩⟩

/-- An LL control PDU that is not an LL_VERSION_IND. -/
theorem handleLlControl_replies (ll : VbtLl) (i : ℕ) {f : Frame} {payload : Mem} {plen : ℕ}
    (hll : f.hdr.llType ≠ VBT_LL_ADV) (hop : 1 ≤ plen → payload 0 = f.pdu.getD 2 0)
    (hver : 1 ≤ plen → payload 0 ≠ LL_VERSION_IND) :
    ∃ fs, Sends ll (ll.handleLlControl i payload plen) fs ∧ Replies f fs := by
  unfold handleLlControl
  by_cases hlen : plen < 1
  · rw [if_pos hlen]
    exact ⟨[], Sends.refl ll, Or.inl rfl⟩
  replace hop := hop (by omega)
  replace hver := hver (by omega)
  rw [if_neg hlen]
  by_cases hterm : payload 0 = LL_TERMINATE_IND
  · rw [if_pos hterm]
    exact ⟨[], ⟨[_], rfl, rfl⟩, Or.inl rfl⟩
  rw [if_neg hterm, if_neg hver]
  split_ifs with hfeat henc hstart hrsp
  · refine ⟨_, ⟨[_], out_sendLlControl ll _ _ _, rfl⟩, replies_control hll ?_ ll _ _ (Or.inl rfl)⟩
    rw [← hop]
    rcases hfeat with h | h <;> rw [h] <;> decide
  · obtain ⟨x, c, params, hsends⟩ := sends_handleEncReq ll i payload plen
    refine ⟨_, hsends, replies_control hll ?_ x c params (Or.inr (Or.inl rfl))⟩
    rw [← hop, henc]
    decide
  · refine ⟨_, Sends.trans ⟨[_], out_sendLlControl ll _ _ _, rfl⟩ (sends_markEncrypted _ i),
      replies_control hll ?_ ll _ _ (Or.inr (Or.inr rfl))⟩
    rw [← hop, hstart]
    decide
  · exact ⟨[], sends_markEncrypted ll i, Or.inl rfl⟩
  · exact ⟨[], Sends.refl ll, Or.inl rfl⟩

/-! ### Advertising PDUs -/

theorem replies_adv {f g : Frame} (hg : g.rank < f.rank) (hll : g.hdr.llType = VBT_LL_ADV) :
    Replies f [g] := by
  refine Or.inr ⟨g, rfl, hg, fun h => ?_⟩
  have hdata := h.llType
  rw [hll] at hdata
  exact absurd hdata (by decide)

theorem rank_of_type {f : Frame} (hll : f.hdr.llType = VBT_LL_ADV) {type : UInt8}
    (htype : pduType f.pdu = type) : f.rank =
      if type = VBT_ADV_IND ∨ type = VBT_ADV_DIRECT_IND ∨ type = VBT_ADV_NONCONN_IND ∨
        type = VBT_ADV_SCAN_IND then 2
      else if type = VBT_SCAN_REQ then 1 else 0 := by
  unfold Frame.rank
  rw [if_pos hll, htype]

/-- A scan request is sent after whatever was put out. -/
theorem sends_sendScanReq {ll ll' : VbtLl} (h : Sends ll ll' []) (adva : BdAddr) (txadd : UInt8) :
    ∃ g, Sends ll (ll'.sendScanReq adva txadd) [g] ∧ g.hdr.llType = VBT_LL_ADV ∧ g.rank = 1 := by
  obtain ⟨g, hll, hpdu, hout⟩ : ∃ g : Frame, g.hdr.llType = VBT_LL_ADV ∧
      g.pdu.getD 0 0 = VBT_SCAN_REQ ||| txAddBit (ownSourceAddrType ll'.scanOwnAddrType) |||
        rxAddBit txadd ∧ (ll'.sendScanReq adva txadd).out = .pdu 14 g :: ll'.out :=
    ⟨_, rfl, rfl, rfl⟩
  have htype : pduType g.pdu = VBT_SCAN_REQ := by
    show g.pdu.getD 0 0 &&& VBT_ADV_PDU_TYPE_MASK = _
    rw [hpdu, scanReqType]
  obtain ⟨new, hnew, hnil⟩ := h
  refine ⟨g, ⟨.pdu 14 g :: new, by rw [hout, hnew]; rfl, ?_⟩, hll, ?_⟩
  · rw [List.reverse_cons, framesIn, List.filterMap_append]
    exact congrArg (· ++ [g]) hnil
  · rw [rank_of_type hll htype]
    rfl

/-- An advertisement is answered with a CONNECT_IND or with a SCAN_REQ. -/
theorem advFromMedium_replies (ll : VbtLl) (hdr : VbtFrameHdr) (type txadd : UInt8) (body : Mem)
    (bodyLen : ℕ) {f : Frame} (hrank : f.rank = 2) :
    ∃ fs, Sends ll (ll.advFromMedium hdr type txadd body bodyLen) fs ∧ Replies f fs := by
  unfold advFromMedium
  dsimp only
  split_ifs with hlen hinit hscan hask
  · exact ⟨[], Sends.refl ll, Or.inl rfl⟩
  · cases hk : ll.freeSlot with
    | none =>
      rw [initiate_full hk]
      exact ⟨[], Sends.refl ll, Or.inl rfl⟩
    | some k =>
      have htype : pduType (ll.connectIndFrame (addrAt body 0) txadd ll.nextAddress).pdu =
          VBT_CONNECT_IND := connectIndType _ _
      have hzero : (ll.connectIndFrame (addrAt body 0) txadd ll.nextAddress).rank = 0 :=
        rank_of_type rfl htype
      rw [initiate_eq hk]
      refine ⟨_, ⟨[_, _], rfl, rfl⟩, replies_adv ?_ rfl⟩
      rw [hrank, hzero]
      decide
  · obtain ⟨g, hsends, hll, hone⟩ := sends_sendScanReq
      (show Sends ll (ll.reportAdv _ _ _ _ _) [] from ⟨[_], rfl, rfl⟩) (addrAt body 0) txadd
    refine ⟨[g], hsends, replies_adv ?_ hll⟩
    rw [hrank, hone]
    decide
  · exact ⟨[], ⟨[_], rfl, rfl⟩, Or.inl rfl⟩
  · exact ⟨[], Sends.refl ll, Or.inl rfl⟩

/-- A SCAN_REQ is answered with a SCAN_RSP. -/
theorem scanReqFromMedium_replies (ll : VbtLl) (body : Mem) (bodyLen : ℕ) {f : Frame}
    (hrank : f.rank = 1) :
    ∃ fs, Sends ll (ll.scanReqFromMedium body bodyLen) fs ∧ Replies f fs := by
  unfold scanReqFromMedium
  split_ifs
  · obtain ⟨g, hll, htype, hout⟩ : ∃ g : Frame, g.hdr.llType = VBT_LL_ADV ∧
        pduType g.pdu = VBT_SCAN_RSP ∧ ll.sendScanRsp.out = .pdu 39 g :: ll.out :=
      ⟨_, rfl, pduType_advPdu (by decide) _ _ _, rfl⟩
    refine ⟨[g], ⟨[_], hout, rfl⟩, replies_adv ?_ hll⟩
    rw [hrank, rank_of_type hll htype]
    decide
  · exact ⟨[], Sends.refl ll, Or.inl rfl⟩
  · exact ⟨[], Sends.refl ll, Or.inl rfl⟩

theorem scanRspFromMedium_sends (ll : VbtLl) (hdr : VbtFrameHdr) (txadd : UInt8) (body : Mem)
    (bodyLen : ℕ) : Sends ll (ll.scanRspFromMedium hdr txadd body bodyLen) [] := by
  unfold scanRspFromMedium
  split_ifs
  · exact ⟨[_], rfl, rfl⟩
  · exact Sends.refl ll

theorem connectIndFromMedium_sends (ll : VbtLl) (txadd : UInt8) (body : Mem) (bodyLen : ℕ) :
    Sends ll (ll.connectIndFromMedium txadd body bodyLen) [] := by
  unfold connectIndFromMedium
  split_ifs
  · exact Sends.refl ll
  · exact Sends.refl ll
  · rw [connAlloc_eq]
    cases ll.freeSlot with
    | none => exact Sends.refl ll
    | some k => exact ⟨[_], rfl, rfl⟩

theorem aclToHost_sends (ll : VbtLl) (handle : UInt16) (l2cap : List UInt8) :
    Sends ll (ll.aclToHost handle l2cap) [] := by
  unfold aclToHost
  split_ifs
  · exact Sends.refl ll
  · exact ⟨[_], rfl, rfl⟩

theorem bodyLenOf_pos {pdu : Mem} {len : ℕ} (hlen : 2 ≤ len) (h : 1 ≤ bodyLenOf pdu len) :
    3 ≤ len ∧ pdu 1 ≠ 0 := by
  have hbyte : pdu 1 = 0 → (pdu 1).toNat = 0 := fun h => by rw [h]; rfl
  unfold bodyLenOf at h
  split_ifs at h
  · exact ⟨by omega, fun h0 => by have := hbyte h0; omega⟩
  · exact ⟨by omega, fun h0 => by have := hbyte h0; omega⟩

/-- **A PDU is answered with at most one PDU, of a smaller rank**, unless it is an LL_VERSION_IND on
a connection of the core. -/
theorem step_replies (ll : VbtLl) (junk : Mem) {f : Frame}
    (hver : ¬ (f.IsVersion ∧ (ll.connByAA f.hdr.accessAddr).isSome = true)) :
    Replies f (framesIn (ll.outputs (fromMedium junk f))) := by
  suffices h : ∃ fs, Sends ll (ll.step (fromMedium junk f)) fs ∧ Replies f fs by
    obtain ⟨fs, hsends, hreplies⟩ := h
    rwa [hsends.framesIn_eq]
  show ∃ fs, Sends ll (ll.pduFromMedium f.hdr (Mem.ofList f.pdu junk) f.pdu.length) fs ∧ _
  unfold pduFromMedium
  by_cases hlen : f.pdu.length < 2
  · rw [if_pos hlen]
    exact ⟨[], Sends.refl ll, Or.inl rfl⟩
  have h0 : Mem.ofList f.pdu junk 0 = f.pdu.getD 0 0 := Mem.ofList_eq_getD (by omega)
  rw [if_neg hlen, h0]
  by_cases hll : f.hdr.llType = VBT_LL_ADV
  · rw [if_pos hll]
    dsimp only
    have htype : pduType f.pdu = f.pdu.getD 0 0 &&& VBT_ADV_PDU_TYPE_MASK := rfl
    rw [← htype]
    generalize (if f.pdu.getD 0 0 &&& 0x40 ≠ 0 then (1 : UInt8) else 0) = txadd
    split_ifs with hadv hreq hrsp hind
    · refine advFromMedium_replies ll _ _ _ _ _ ?_
      rw [rank_of_type hll rfl, if_pos hadv]
    · refine scanReqFromMedium_replies ll _ _ ?_
      rw [rank_of_type hll rfl, if_neg hadv, if_pos hreq]
    · exact ⟨[], scanRspFromMedium_sends ll _ _ _ _, Or.inl rfl⟩
    · exact ⟨[], connectIndFromMedium_sends ll _ _ _, Or.inl rfl⟩
    · exact ⟨[], Sends.refl ll, Or.inl rfl⟩
  rw [if_neg hll]
  split_ifs with hdata
  · unfold dataFromMedium
    cases hi : ll.connByAA f.hdr.accessAddr with
    | none => exact ⟨[], Sends.refl ll, Or.inl rfl⟩
    | some i =>
      dsimp only
      rw [h0]
      split_ifs with hctl hacl hpos
      · -- the length byte and the length of the PDU admit an opcode
        have hopcode : 1 ≤ bodyLenOf (Mem.ofList f.pdu junk) f.pdu.length → 3 ≤ f.pdu.length ∧
            f.pdu.getD 1 0 ≠ 0 ∧ (Mem.ofList f.pdu junk).shift 2 0 = f.pdu.getD 2 0 := by
          intro hbody
          obtain ⟨hthree, hbyte⟩ := bodyLenOf_pos (by omega) hbody
          exact ⟨hthree, Mem.ofList_eq_getD (l := f.pdu) (i := 1) (by omega) ▸ hbyte,
            Mem.ofList_eq_getD (by omega)⟩
        refine handleLlControl_replies ll i hll (fun h => (hopcode h).2.2) fun h hv => hver ?_
        obtain ⟨hthree, hbyte, heq⟩ := hopcode h
        exact ⟨⟨hdata, hthree, hctl, hbyte, heq ▸ hv⟩, Option.isSome_of_mem hi⟩
      · exact ⟨[], aclToHost_sends ll _ _, Or.inl rfl⟩
      · exact ⟨[], Sends.refl ll, Or.inl rfl⟩
      · exact ⟨[], Sends.refl ll, Or.inl rfl⟩
  · exact ⟨[], Sends.refl ll, Or.inl rfl⟩

/-! ### Version exchanges -/

/-- Every LL_VERSION_IND on a connection is answered with another one. -/
theorem step_version {ll : VbtLl} (junk : Mem) {f : Frame} (h : f.IsVersion) {i : ℕ}
    (hi : ll.connByAA f.hdr.accessAddr = some i) : ll.step (fromMedium junk f) =
      ll.sendLlControl (ll.conns i) LL_VERSION_IND [0x0c, 0x0f, 0x00, 0x0f, 0x00] := by
  have hlen := h.length
  have hadv : f.hdr.llType ≠ VBT_LL_ADV := by
    rw [h.llType]
    decide
  have hbody : ¬ bodyLenOf (Mem.ofList f.pdu junk) f.pdu.length < 1 := by
    have hbyte : (f.pdu.getD 1 0).toNat ≠ 0 := fun h0 => h.body (UInt8.toNat_inj.1 h0)
    unfold bodyLenOf
    rw [Mem.ofList_eq_getD (by omega)]
    split_ifs <;> omega
  show ll.pduFromMedium f.hdr (Mem.ofList f.pdu junk) f.pdu.length = _
  unfold pduFromMedium dataFromMedium
  rw [if_neg (by omega), if_neg hadv, if_pos h.llType, hi]
  dsimp only
  have hop : (Mem.ofList f.pdu junk).shift 2 0 = LL_VERSION_IND :=
    (Mem.ofList_eq_getD (by omega)).trans h.opcode
  rw [Mem.ofList_eq_getD (by omega), if_pos h.llid]
  unfold handleLlControl
  rw [if_neg hbody, hop, if_neg (by decide), if_pos rfl]

theorem isVersion_controlFrame (ll : VbtLl) (c : LlConn) :
    (ll.controlFrame c LL_VERSION_IND [0x0c, 0x0f, 0x00, 0x0f, 0x00]).IsVersion where
  llType := rfl
  length := show 3 ≤ 8 by omega
  llid := show LLID_CONTROL &&& 0x03 = LLID_CONTROL by decide
  body := show (6 : UInt8) ≠ 0 by decide
  opcode := rfl

/-- The answer is an LL_VERSION_IND on the same connection, and no connection is touched. -/
theorem version_answered {ll : VbtLl} (junk : Mem) {f : Frame} (h : f.IsVersion) {i : ℕ}
    (hi : ll.connByAA f.hdr.accessAddr = some i) :
    ∃ g, framesIn (ll.outputs (fromMedium junk f)) = [g] ∧ g.IsVersion ∧
      g.hdr.accessAddr = f.hdr.accessAddr ∧ (ll.step (fromMedium junk f)).conns = ll.conns := by
  have hstep := step_version junk h hi
  have hsends : Sends ll (ll.step (fromMedium junk f))
      [ll.controlFrame (ll.conns i) LL_VERSION_IND [0x0c, 0x0f, 0x00, 0x0f, 0x00]] := by
    rw [hstep]
    exact ⟨[_], out_sendLlControl ll _ _ _, rfl⟩
  have haa : (ll.conns i).accessAddr = f.hdr.accessAddr :=
    (LlConn.link_eq_some.1 (link_of_connByAA hi).2).2.2
  refine ⟨_, hsends.framesIn_eq, isVersion_controlFrame ll _, haa, by rw [hstep]; rfl⟩

end VbtLl

open VbtLl

/-! ### Two cores -/

/-- Two cores and the PDUs in flight between them, with the side each is for. -/
structure Duo where
  core : Bool → VbtLl
  flight : List (Bool × Frame)

namespace Duo

/-- The PDU at position `k` arrives, and what the core sends is in flight to the other one. -/
def deliver (d : Duo) (k : ℕ) (junk : Mem) : Duo :=
  match d.flight[k]? with
  | none => d
  | some (side, f) =>
    { core := Function.update d.core side ((d.core side).step (fromMedium junk f))
      flight := d.flight.eraseIdx k ++
        (framesIn ((d.core side).outputs (fromMedium junk f))).map fun g => (!side, g) }

/-- The state after `n` deliveries, in the order of a schedule. -/
def after (d : Duo) (sched : ℕ → ℕ × Mem) : ℕ → Duo
  | 0 => d
  | n + 1 => (d.after sched n).deliver (sched n).1 (sched n).2

/-- As long as something is in flight, the schedule delivers it. -/
def Orders (d : Duo) (sched : ℕ → ℕ × Mem) : Prop :=
  ∀ n, (d.after sched n).flight ≠ [] → (sched n).1 < (d.after sched n).flight.length

/-- Whatever the order, nothing is in flight in the end. -/
def Quiesces (d : Duo) : Prop :=
  ∀ sched, d.Orders sched → ∃ n, (d.after sched n).flight = []

/-- No LL_VERSION_IND is in flight. -/
def NoVersion (d : Duo) : Prop := ∀ x ∈ d.flight, ¬ x.2.IsVersion

/-- How many answers can still come. -/
def burden (d : Duo) : ℕ := weight 2 (fun x => x.2.rank) d.flight

/-- At position `k` is an LL_VERSION_IND, for a core that has its connection. -/
def Stirs (d : Duo) (k : ℕ) : Prop :=
  ∃ side f, d.flight[k]? = some (side, f) ∧ f.IsVersion ∧
    ((d.core side).connByAA f.hdr.accessAddr).isSome = true

/-- Any other delivery brings no LL_VERSION_IND up and lowers the burden. -/
theorem burden_deliver {d : Duo} {k : ℕ} (hno : ¬ d.Stirs k) (hk : k < d.flight.length)
    (junk : Mem) : (d.NoVersion → (d.deliver k junk).NoVersion) ∧
      (d.deliver k junk).burden < d.burden := by
  obtain ⟨⟨side, f⟩, hf⟩ : ∃ x, d.flight[k]? = some x := ⟨_, List.getElem?_eq_getElem hk⟩
  have hreply := step_replies (d.core side) junk fun hc => hno ⟨side, f, hf, hc⟩
  unfold deliver
  rw [hf]
  dsimp only
  generalize framesIn ((d.core side).outputs (fromMedium junk f)) = fs at hreply
  have hsmall : weight 2 (fun x : Bool × Frame => x.2.rank) (fs.map fun g => (!side, g)) <
      2 ^ f.rank := by
    refine weight_lt_pow ?_ ?_
    · rcases hreply with rfl | ⟨g, rfl, -, -⟩
      · exact Nat.two_pos
      · exact Nat.one_lt_two
    · rcases hreply with rfl | ⟨g, rfl, hrank, -⟩
      · exact fun x hx => by cases hx
      · intro x hx
        cases List.mem_singleton.1 hx
        exact hrank
  constructor
  · intro hver x hx
    rcases List.mem_append.1 hx with hx | hx
    · exact hver x (List.mem_of_mem_eraseIdx hx)
    · rcases hreply with rfl | ⟨g, rfl, -, hg⟩
      · cases hx
      · cases List.mem_singleton.1 hx
        exact hg
  · unfold burden
    rw [weight_append, weight_eraseIdx hf]
    dsimp only
    omega

theorem NoVersion.not_stirs {d : Duo} (h : d.NoVersion) (k : ℕ) : ¬ d.Stirs k := by
  rintro ⟨side, f, hf, hver, -⟩
  exact h _ (List.mem_of_getElem? hf) hver

/-- Without an LL_VERSION_IND in flight there will be none. -/
theorem NoVersion.after {d : Duo} (h : d.NoVersion) (sched : ℕ → ℕ × Mem) (n : ℕ) :
    (d.after sched n).NoVersion := by
  induction n with
  | zero => exact h
  | succ n ih =>
    by_cases hk : (sched n).1 < (d.after sched n).flight.length
    · exact (burden_deliver (ih.not_stirs _) hk _).1 ih
    · rw [Duo.after, deliver, List.getElem?_eq_none (not_lt.1 hk)]
      exact ih

/-- **An order ends in which at last no core takes an LL_VERSION_IND** on one of its connections. -/
theorem exists_silent {d : Duo} {sched : ℕ → ℕ × Mem} (hsched : d.Orders sched) {N : ℕ}
    (hN : ∀ n ≥ N, ¬ (d.after sched n).Stirs (sched n).1) : ∃ n, (d.after sched n).flight = [] := by
  obtain ⟨n, -, hn⟩ := exists_done_of_decreasing (x := fun n => d.after sched (N + n)) (f := burden)
    (I := fun _ => True) (D := fun d => d.flight = []) trivial fun n _ hne =>
      ⟨trivial, (burden_deliver (hN (N + n) (Nat.le_add_right N n)) (hsched (N + n) hne) _).2⟩
  exact ⟨N + n, hn⟩

/-- Silence lasts. -/
theorem not_stirs_of_silent {d : Duo} {sched : ℕ → ℕ × Mem} {N : ℕ}
    (h : (d.after sched N).flight = []) {n : ℕ} (hn : n ≥ N) :
    ¬ (d.after sched n).Stirs (sched n).1 := by
  have hsilent : (d.after sched n).flight = [] := by
    induction n, hn using Nat.le_induction with
    | base => exact h
    | succ n _ ih =>
      rw [after, deliver, ih]
      exact ih
  rintro ⟨side, f, hf, -⟩
  rw [hsilent] at hf
  cases hf

/-- At position `k`, an LL_VERSION_IND is in flight on a connection that both cores have. -/
def Storm (d : Duo) (k : ℕ) : Prop :=
  ∃ side f, d.flight[k]? = some (side, f) ∧ f.IsVersion ∧
    ∀ b, ((d.core b).connByAA f.hdr.accessAddr).isSome = true

/-- Its answer takes its place at the end of the list. -/
theorem Storm.deliver {d : Duo} {k : ℕ} (h : d.Storm k) (junk : Mem) :
    (d.deliver k junk).flight.length = d.flight.length ∧
      (d.deliver k junk).Storm (d.flight.length - 1) := by
  obtain ⟨side, f, hf, hver, hboth⟩ := h
  obtain ⟨hk, -⟩ := List.getElem?_eq_some_iff.1 hf
  obtain ⟨i, hi⟩ := Option.isSome_iff_exists.1 (hboth side)
  obtain ⟨g, hg, hgver, haa, hconns⟩ := version_answered junk hver hi
  have heq : d.deliver k junk =
      { core := Function.update d.core side ((d.core side).step (fromMedium junk f))
        flight := d.flight.eraseIdx k ++ [(!side, g)] } := by
    unfold Duo.deliver
    rw [hf]
    dsimp only
    rw [hg]
    rfl
  have hlen : (d.flight.eraseIdx k).length = d.flight.length - 1 := List.length_eraseIdx_of_lt hk
  rw [heq]
  refine ⟨?_, !side, g, ?_, hgver, fun b => ?_⟩
  · rw [List.length_append, hlen, List.length_singleton]
    omega
  · rw [← hlen]
    exact List.getElem?_concat_length
  · rw [haa]
    dsimp only
    by_cases hb : b = side
    · subst hb
      rw [Function.update_self, connByAA, hconns]
      exact hboth b
    · rw [Function.update_of_ne hb]
      exact hboth b

/-- **A version exchange on a connection that both cores have goes on forever.** -/
theorem Storm.goes_on {d : Duo} {k : ℕ} (h : d.Storm k) (junk : Mem) : ¬ d.Quiesces := by
  -- deliver the LL_VERSION_IND first, and from then on always the PDU that was sent last
  let sched : ℕ → ℕ × Mem := fun n => (if n = 0 then k else d.flight.length - 1, junk)
  have hstorm : ∀ n, (d.after sched n).flight.length = d.flight.length ∧
      (d.after sched n).Storm (sched n).1 := by
    intro n
    induction n with
    | zero => exact ⟨rfl, h⟩
    | succ n ih =>
      obtain ⟨hlen, hnext⟩ := ih.2.deliver junk
      rw [ih.1] at hlen hnext
      exact ⟨hlen, hnext⟩
  have hlt : ∀ n, (sched n).1 < (d.after sched n).flight.length := by
    intro n
    obtain ⟨side, f, hf, -⟩ := (hstorm n).2
    exact (List.getElem?_eq_some_iff.1 hf).1
  intro hq
  obtain ⟨n, hn⟩ := hq sched fun n _ => hlt n
  have := hlt n
  rw [hn] at this
  exact absurd this (Nat.not_lt_zero _)

/-- **Two cores fall silent in every order if and only if** in every order there is an end to the
LL_VERSION_INDs that are taken by a core that has their connection. If both cores have the
connections of those in flight, this means that there are none. -/
theorem quiesces_iff (d : Duo) :
    (d.Quiesces ↔ ∀ sched, d.Orders sched → ∃ N, ∀ n ≥ N,
      ¬ (d.after sched n).Stirs (sched n).1) ∧
    ((∀ x ∈ d.flight, x.2.IsVersion →
        ∀ b, ((d.core b).connByAA x.2.hdr.accessAddr).isSome = true) →
      (d.Quiesces ↔ ∀ x ∈ d.flight, ¬ x.2.IsVersion)) := by
  refine ⟨forall₂_congr fun sched hsched => ⟨fun ⟨N, hN⟩ => ⟨N, fun n => not_stirs_of_silent hN⟩,
    fun ⟨N, hN⟩ => exists_silent hsched hN⟩, fun hshared => ⟨fun hq x hx hver => ?_,
      fun hver sched hsched => ?_⟩⟩
  · obtain ⟨k, hk, hkx⟩ := List.getElem_of_mem hx
    have hget : d.flight[k]? = some (x.1, x.2) := by
      rw [List.getElem?_eq_getElem hk, hkx]
    have hstorm : d.Storm k := ⟨x.1, x.2, hget, hver, hshared x hx hver⟩
    exact hstorm.goes_on (fun _ => 0) hq
  · exact exists_silent hsched (N := 0) fun n _ => (NoVersion.after hver sched n).not_stirs _

/-- A control PDU of the central on its way to the peripheral. -/
def exchange (opcode : UInt8) (params : List UInt8) : Duo where
  core b := cond b peripheral central
  flight := [(true, central.controlFrame (central.conns 0) opcode params)]

/-- A feature exchange ends. -/
theorem quiesces_iff_feature : (exchange LL_FEATURE_REQ [1, 0, 0, 0, 0, 0, 0, 0]).Quiesces := by
  have hno : ∀ x ∈ (exchange LL_FEATURE_REQ [1, 0, 0, 0, 0, 0, 0, 0]).flight, ¬ x.2.IsVersion := by
    intro x hx hver
    cases List.mem_singleton.1 hx
    exact absurd hver.opcode (by decide)
  exact ((quiesces_iff _).2 fun x hx hver => absurd hver (hno x hx)).2 hno

/-- **The central and the peripheral of a connection answer one LL_VERSION_IND forever.** -/
theorem version_storm : Reached central ∧ Reached peripheral ∧
    ¬ (exchange LL_VERSION_IND [0x0c, 0x0f, 0x00, 0x0f, 0x00]).Quiesces := by
  have hstorm : (exchange LL_VERSION_IND [0x0c, 0x0f, 0x00, 0x0f, 0x00]).Storm 0 := by
    refine ⟨true, _, rfl, isVersion_controlFrame central _, fun b => ?_⟩
    cases b with
    | false => exact show (central.connByAA (central.conns 0).accessAddr).isSome = true by decide +kernel
    | true => exact Option.isSome_iff_exists.2 ⟨0, shares_central_peripheral.there⟩
  exact ⟨⟨_, _, rfl⟩, ⟨_, _, rfl⟩, hstorm.goes_on blank⟩

end Duo
end Vbt
