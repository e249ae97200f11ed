import Vbt.Core.HostView

/-!
# What a call of the core does

Every call of an entry point is a chain of moves: setting fields, telling the host
something that leaves its account of the connections alone, sending a frame, opening a connection
as central or as peripheral, closing one, and resetting. Invariants of runs are proved move by move
and need nothing else about the code.

* `link`: the handle and Access Address of the active connections;
* `Sound`, `Beacon`, `Carries`, `Invites`: the frames a core emits;
* `Intake`: what a call learns from the medium, and `intake` for a received PDU;
* `Does`, one move, and `Doing`, a chain of them, with a rule for each kind of packet and PDU.
-/

namespace Vbt

/-- The handle and Access Address of an active entry. -/
def LlConn.link (c : LlConn) : Option (UInt16 × UInt32) :=
  if c.active then some (c.handle, c.accessAddr) else none

theorem LlConn.link_eq_some {c : LlConn} {h : UInt16} {aa : UInt32} :
    c.link = some (h, aa) ↔ c.active = true ∧ c.handle = h ∧ c.accessAddr = aa := by
  unfold LlConn.link
  split_ifs with hc <;> simp [hc]

theorem LlConn.link_eq_none {c : LlConn} : c.link = none ↔ c.active = false := by
  unfold LlConn.link
  split_ifs with hc <;> simp [hc]

/-- The handle of the connection in slot `i`. -/
def slotHandle (i : ℕ) : UInt16 := .ofNat (BASE_CONN_HANDLE + i)

/-- The PDU type of an advertising PDU. -/
def pduType (pdu : List UInt8) : UInt8 := pdu.getD 0 0 &&& VBT_ADV_PDU_TYPE_MASK

/-! ### Frames -/

/-- What holds of every frame a core assembles in an array of the given size. -/
structure Sound (size : ℕ) (f : Frame) : Prop where
  magic : f.hdr.magic = VBT_MAGIC
  version : f.hdr.version = VBT_VERSION
  pduLen : f.hdr.pduLen.toNat = f.pdu.length
  body : f.pdu.length = 2 + (f.pdu.getD 1 0).toNat
  short : f.pdu.length ≤ 253
  fits : f.pdu.length ≤ size
  rssi : f.hdr.rssi = VBT_DEFAULT_RSSI

/-- An advertising PDU other than a CONNECT_IND. A connectable one advertises the address the frame
is sent from. -/
structure Beacon (f : Frame) : Prop where
  llType : f.hdr.llType = VBT_LL_ADV
  accessAddr : f.hdr.accessAddr = VBT_ADV_ACCESS_ADDR
  type : pduType f.pdu ≠ VBT_CONNECT_IND
  adva : pduType f.pdu = VBT_ADV_IND ∨ pduType f.pdu = VBT_ADV_DIRECT_IND →
    addrAt (fun i => f.pdu.getD i 0) 2 = f.hdr.txAddr

/-- A CONNECT_IND to the given advertiser with the given Access Address. -/
structure Invites (adva : BdAddr) (aa : UInt32) (f : Frame) : Prop where
  llType : f.hdr.llType = VBT_LL_ADV
  accessAddr : f.hdr.accessAddr = VBT_ADV_ACCESS_ADDR
  type : pduType f.pdu = VBT_CONNECT_IND
  length : f.pdu.length = 36
  adva : addrAt (fun i => f.pdu.getD i 0) VBT_CONNIND_ADVA_OFF = adva
  aa : le32At (fun i => f.pdu.getD i 0) VBT_CONNIND_AA_OFF = aa

/-- A data PDU of the connection with the given handle and Access Address. -/
structure Carries (h : UInt16) (aa : UInt32) (f : Frame) : Prop where
  llType : f.hdr.llType = VBT_LL_DATA
  accessAddr : f.hdr.accessAddr = aa
  connHandle : f.hdr.connHandle = h

theorem sound_fillHdr {llType channel txAddrType : UInt8} {aa : UInt32} {txAddr : BdAddr}
    {connHandle : UInt16} {size : ℕ} {pdu : List UInt8}
    (hbody : pdu.length = 2 + (pdu.getD 1 0).toNat) (hshort : pdu.length ≤ 253)
    (hfits : pdu.length ≤ size) :
    Sound size ⟨{ VbtLl.fillHdr llType aa channel txAddr txAddrType pdu.length with connHandle },
      pdu⟩ where
  magic := rfl
  version := rfl
  pduLen := by
    show (UInt16.ofNat pdu.length).toNat = pdu.length
    rw [UInt16.toNat_ofNat']
    omega
  body := hbody
  short := hshort
  fits := hfits
  rssi := rfl

namespace VbtLl

/-- The handle and Access Address of each active connection. -/
def link (ll : VbtLl) (i : ℕ) : Option (UInt16 × UInt32) := (ll.conns i).link

theorem mem_activeHandles {ll : VbtLl} {h : UInt16} :
    h ∈ ll.activeHandles ↔ ∃ i < VBT_LL_MAX_CONN, ∃ aa, ll.link i = some (h, aa) := by
  unfold activeHandles
  simp only [Finset.mem_image, Finset.mem_filter, Finset.mem_range, ll.connsSize]
  constructor
  · rintro ⟨i, ⟨hi, hact⟩, hh⟩
    exact ⟨i, hi, _, LlConn.link_eq_some.2 ⟨hact, hh, rfl⟩⟩
  · rintro ⟨i, hi, aa, hl⟩
    obtain ⟨hact, hh, -⟩ := LlConn.link_eq_some.1 hl
    exact ⟨i, ⟨hi, hact⟩, hh⟩

theorem activeHandles_congr {ll ll' : VbtLl} (h : ll'.link = ll.link) :
    ll'.activeHandles = ll.activeHandles := by
  ext x
  rw [mem_activeHandles, mem_activeHandles, h]

theorem link_modConn (ll : VbtLl) (i : ℕ) (f : LlConn → LlConn) :
    (ll.modConn i f).link = Function.update ll.link i (f (ll.conns i)).link := by
  funext j
  unfold link modConn
  rw [Slots.modify_apply, Function.update_apply]
  split_ifs <;> rfl

@[simp] theorem modConn_same (ll : VbtLl) (i : ℕ) (f : LlConn → LlConn) :
    (ll.modConn i f).conns i = f (ll.conns i) := Slots.modify_same _ _ _

theorem conns_llRand32 (ll : VbtLl) : ll.llRand32.conns = ll.conns := by
  unfold llRand32
  rfl

theorem link_llRand32 (ll : VbtLl) : ll.llRand32.link = ll.link := by
  unfold link
  rw [conns_llRand32]

theorem out_llRand32 (ll : VbtLl) : ll.llRand32.out = ll.out := by
  unfold llRand32
  rfl

theorem link_of_connByHandle {ll : VbtLl} {h : UInt16} {i : ℕ} (hi : ll.connByHandle h = some i) :
    i < VBT_LL_MAX_CONN ∧ ll.link i = some (h, (ll.conns i).accessAddr) := by
  obtain ⟨hlt, hp, -⟩ := Slots.find?_eq_some_iff.1 hi
  simp only [Bool.and_eq_true, beq_iff_eq] at hp
  exact ⟨ll.connsSize ▸ hlt, LlConn.link_eq_some.2 ⟨hp.1, hp.2, rfl⟩⟩

theorem link_of_connByAA {ll : VbtLl} {aa : UInt32} {i : ℕ} (hi : ll.connByAA aa = some i) :
    i < VBT_LL_MAX_CONN ∧ ll.link i = some ((ll.conns i).handle, aa) := by
  obtain ⟨hlt, hp, -⟩ := Slots.find?_eq_some_iff.1 hi
  simp only [Bool.and_eq_true, beq_iff_eq] at hp
  exact ⟨ll.connsSize ▸ hlt, LlConn.link_eq_some.2 ⟨hp.1, rfl, hp.2⟩⟩

theorem connAlloc_eq_some {ll ll' : VbtLl} {i : ℕ} (h : ll.connAlloc = some (i, ll')) :
    i < VBT_LL_MAX_CONN ∧ ll.link i = none ∧ ll' = ll.modConn i fun _ => newConn i := by
  unfold connAlloc at h
  obtain ⟨k, hk, heq⟩ := Option.map_eq_some_iff.1 h
  simp only [Prod.mk.injEq] at heq
  obtain ⟨rfl, rfl⟩ := heq
  obtain ⟨hlt, hp, -⟩ := Slots.find?_eq_some_iff.1 hk
  exact ⟨ll.connsSize ▸ hlt, LlConn.link_eq_none.2 (by simpa using hp), rfl⟩

/-- An active connection has the handle of its slot. -/
def Numbered (ll : VbtLl) : Prop :=
  ∀ i < VBT_LL_MAX_CONN, ∀ h aa, ll.link i = some (h, aa) → h = slotHandle i

/-! ### Moves -/

/-- What a call learns from the medium: an advertiser it heard, the Access Address of a CONNECT_IND
it was given. -/
structure Intake where
  adv : BdAddr → Prop
  ind : UInt32 → Prop

/-- A call of the host or of the timer learns nothing. -/
def Intake.nothing : Intake := ⟨fun _ => False, fun _ => False⟩

/-- What a received PDU tells. -/
def intake (hdr : VbtFrameHdr) (pdu : Mem) (pduLen : ℕ) : Intake where
  adv adva := hdr.llType = VBT_LL_ADV ∧ 8 ≤ pduLen ∧
    (pdu 0 &&& VBT_ADV_PDU_TYPE_MASK = VBT_ADV_IND ∨
      pdu 0 &&& VBT_ADV_PDU_TYPE_MASK = VBT_ADV_DIRECT_IND) ∧ addrAt pdu 2 = adva
  ind aa := hdr.llType = VBT_LL_ADV ∧ 36 ≤ pduLen ∧
    pdu 0 &&& VBT_ADV_PDU_TYPE_MASK = VBT_CONNECT_IND ∧ le32At pdu VBT_CONNIND_AA_OFF = aa

/-- The frame may be sent in this state. -/
def Airs (ll : VbtLl) (f : Frame) : Prop :=
  Beacon f ∨ ∃ i < VBT_LL_MAX_CONN, ∃ h aa, ll.link i = some (h, aa) ∧ Carries h aa f

/-- One thing that a call does. -/
inductive Does (m : Intake) : VbtLl → VbtLl → Prop
  | sets {ll ll' : VbtLl} (link : ll'.link = ll.link) (out : ll'.out = ll.out) : Does m ll ll'
  | tells {ll : VbtLl} (size : ℕ) (pkt : List UInt8) (quiet : Uneventful ll.activeHandles pkt) :
      Does m ll (ll.sendHci size pkt)
  | airs {ll : VbtLl} (size : ℕ) (f : Frame) (sound : Sound size f) (airs : ll.Airs f) :
      Does m ll (ll.pduToMedium size f.hdr f.pdu)
  | calls {ll ll' : VbtLl} (i : ℕ) (aa : UInt32) (adva : BdAddr) (size size' : ℕ) (f : Frame)
      (pkt : List UInt8) (lt : i < VBT_LL_MAX_CONN) (free : ll.link i = none)
      (heard : m.adv adva) (valid : aa ≠ 0 ∧ aa ≠ VBT_ADV_ACCESS_ADDR)
      (link : ll'.link = Function.update ll.link i (some (slotHandle i, aa)))
      (sound : Sound size' f) (invites : Invites adva aa f)
      (event : hostEvent pkt = .connComplete (slotHandle i))
      (out : ll'.out = .hci size pkt :: .pdu size' f :: ll.out) : Does m ll ll'
  | answers {ll ll' : VbtLl} (i : ℕ) (aa : UInt32) (size : ℕ) (pkt : List UInt8)
      (lt : i < VBT_LL_MAX_CONN) (free : ll.link i = none) (heard : m.ind aa)
      (link : ll'.link = Function.update ll.link i (some (slotHandle i, aa)))
      (event : hostEvent pkt = .connComplete (slotHandle i))
      (out : ll'.out = .hci size pkt :: ll.out) : Does m ll ll'
  | closes {ll ll' : VbtLl} (i : ℕ) (h : UInt16) (aa : UInt32) (size : ℕ) (pkt : List UInt8)
      (lt : i < VBT_LL_MAX_CONN) (was : ll.link i = some (h, aa))
      (link : ll'.link = Function.update ll.link i none)
      (event : hostEvent pkt = .disconnComplete h)
      (out : ll'.out = .hci size pkt :: ll.out) : Does m ll ll'
  | resets {ll ll' : VbtLl} (size : ℕ) (pkt : List UInt8) (link : ll'.link = fun _ => none)
      (event : hostEvent pkt = .resetComplete)
      (out : ll'.out = .hci size pkt :: ll.out) : Does m ll ll'

/-- A chain of moves. -/
def Doing (m : Intake) : VbtLl → VbtLl → Prop := Relation.ReflTransGen (Does m)

/-- An advertising PDU that fits the array it is assembled in. It is not a CONNECT_IND, and if it can
be answered by one, it has the address of its sender. -/
structure AdvShape (size : ℕ) (txAddr : BdAddr) (pdu : List UInt8) : Prop where
  body : pdu.length = 2 + (pdu.getD 1 0).toNat
  short : pdu.length ≤ 253
  fits : pdu.length ≤ size
  type : pduType pdu ≠ VBT_CONNECT_IND
  adva : pduType pdu = VBT_ADV_IND ∨ pduType pdu = VBT_ADV_DIRECT_IND →
    addrAt (fun i => pdu.getD i 0) 2 = txAddr

namespace Doing

variable {m : Intake} {ll ll' ll'' : VbtLl}

theorem refl (ll : VbtLl) : Doing m ll ll := Relation.ReflTransGen.refl

theorem does (h : Doing m ll ll') (hd : Does m ll' ll'') : Doing m ll ll'' :=
  Relation.ReflTransGen.tail h hd

theorem trans (h : Doing m ll ll') (h' : Doing m ll' ll'') : Doing m ll ll'' :=
  Relation.ReflTransGen.trans h h'

theorem sets (h : Doing m ll ll') (hlink : ll''.link = ll'.link) (hout : ll''.out = ll'.out) :
    Doing m ll ll'' :=
  h.does (.sets hlink hout)

/-- Changing flags of a connection does not change its link. -/
theorem flag (h : Doing m ll ll') (i : ℕ) (f : LlConn → LlConn)
    (hf : ∀ c : LlConn, (f c).link = c.link) : Doing m ll (ll'.modConn i f) := by
  refine h.sets ?_ rfl
  rw [link_modConn, hf]
  exact Function.update_eq_self i ll'.link

theorem rand (h : Doing m ll ll') : Doing m ll ll'.llRand32 :=
  h.sets (link_llRand32 ll') (out_llRand32 ll')

theorem other (h : Doing m ll ll') (size : ℕ) {pkt : List UInt8} (hpkt : hostEvent pkt = .other) :
    Doing m ll (ll'.sendHci size pkt) :=
  h.does (.tells size pkt (uneventful_of_other hpkt))

theorem complete (h : Doing m ll ll') {opcode : UInt16} (hop : opcode ≠ Op.reset.code)
    (ret : List UInt8) : Doing m ll (ll'.cmdComplete opcode ret) := by
  refine h.other 260 ?_
  rw [hostEvent_cmdComplete, if_neg hop]

theorem completeStatus (h : Doing m ll ll') {opcode : UInt16} (hop : opcode ≠ Op.reset.code)
    (status : UInt8) : Doing m ll (ll'.cmdCompleteStatus opcode status) :=
  h.complete hop [status]

theorem status (h : Doing m ll ll') (opcode : UInt16) (st : UInt8) :
    Doing m ll (ll'.cmdStatus opcode st) :=
  h.other 7 (hostEvent_cmdStatus _ _ _ _)

/-- A packet that is about one active connection and leaves the host's account alone. -/
theorem about (h : Doing m ll ll') (size : ℕ) {pkt : List UInt8} {x : UInt16}
    (hx : x ∈ ll'.activeHandles)
    (hpkt : hostEvent pkt = .acl x ∨ hostEvent pkt = .encryptChange x ∨
      hostEvent pkt = .ltkRequest x ∨ hostEvent pkt = .numCompleted [x]) :
    Doing m ll (ll'.sendHci size pkt) := by
  refine h.does (.tells size pkt ?_)
  rcases hpkt with hp | hp | hp | hp
  · exact ⟨hp ▸ hx, hp ▸ rfl⟩
  · exact ⟨hp ▸ hx, hp ▸ rfl⟩
  · exact ⟨hp ▸ hx, hp ▸ rfl⟩
  · refine ⟨?_, hp ▸ rfl⟩
    rw [hp]
    intro y hy
    rwa [List.mem_singleton.1 hy]

/-- A data PDU on an active connection. -/
theorem data (h : Doing m ll ll') {i : ℕ} (hi : i < VBT_LL_MAX_CONN)
    (hact : (ll'.conns i).active = true) {size : ℕ} {pdu : List UInt8}
    (hbody : pdu.length = 2 + (pdu.getD 1 0).toNat) (hshort : pdu.length ≤ 253)
    (hfits : pdu.length ≤ size) : Doing m ll (ll'.sendDataPdu size (ll'.conns i) pdu) := by
  refine h.does (.airs size ⟨_, pdu⟩ (sound_fillHdr hbody hshort hfits) (Or.inr ?_))
  exact ⟨i, hi, _, _, LlConn.link_eq_some.2 ⟨hact, rfl, rfl⟩, rfl, rfl, rfl⟩

theorem control (h : Doing m ll ll') {i : ℕ} (hi : i < VBT_LL_MAX_CONN)
    (hact : (ll'.conns i).active = true) (opcode : UInt8) {params : List UInt8}
    (hlen : params.length ≤ 61) :
    Doing m ll (ll'.sendLlControl (ll'.conns i) opcode params) := by
  have hn : ([LLID_CONTROL, .ofNat (1 + params.length), opcode] ++ params).length =
      3 + params.length := by
    simp only [List.length_append, List.length_cons, List.length_nil]
  refine h.data hi hact ?_ (by omega) (by omega)
  show _ = 2 + (UInt8.ofNat (1 + params.length)).toNat
  rw [hn, UInt8.toNat_ofNat']
  omega

/-- An advertising PDU that is not a CONNECT_IND. -/
theorem adv (h : Doing m ll ll') {size : ℕ} {channel txAddrType : UInt8} {txAddr : BdAddr}
    {pdu : List UInt8} (hpdu : AdvShape size txAddr pdu) :
    Doing m ll (ll'.sendAdvPdu size channel txAddr txAddrType pdu) :=
  h.does (.airs size ⟨_, pdu⟩ (sound_fillHdr hpdu.body hpdu.short hpdu.fits)
    (Or.inl ⟨rfl, rfl, hpdu.type, hpdu.adva⟩))

end Doing

/-! ### Advertising -/

theorem type_or_txAddBit {type : UInt8} (h : type &&& VBT_ADV_PDU_TYPE_MASK = type)
    (atype : UInt8) :
    (type ||| txAddBit atype) &&& VBT_ADV_PDU_TYPE_MASK = type := by
  have hbit : txAddBit atype &&& VBT_ADV_PDU_TYPE_MASK = 0 := by
    unfold txAddBit
    split_ifs <;> rfl
  rw [← UInt8.toNat_inj, UInt8.toNat_and, UInt8.toNat_or, Nat.and_or_distrib_right,
    ← UInt8.toNat_and, ← UInt8.toNat_and, h, hbit]
  exact Nat.or_zero _

theorem pduType_advPdu {type : UInt8} (h : type &&& VBT_ADV_PDU_TYPE_MASK = type) (atype : UInt8)
    (adva : BdAddr) (data : AdData) : pduType (advPdu type atype adva data) = type :=
  type_or_txAddBit h atype

theorem advPdu_length (type atype : UInt8) (adva : BdAddr) (data : AdData) :
    (advPdu type atype adva data).length = 8 + data.val.length := by
  simp only [advPdu, BdAddr.bytes, List.length_append, List.length_cons, List.length_nil]

theorem advShape_advPdu {type : UInt8} (hmask : type &&& VBT_ADV_PDU_TYPE_MASK = type)
    (htype : type ≠ VBT_CONNECT_IND) (atype : UInt8) (adva : BdAddr) (data : AdData) :
    AdvShape 39 adva (advPdu type atype adva data) := by
  have hdata := data.property
  have hlen := advPdu_length type atype adva data
  refine ⟨?_, by omega, by omega, ?_, fun _ => rfl⟩
  · show _ = 2 + (UInt8.ofNat (6 + data.val.length)).toNat
    rw [hlen, UInt8.toNat_ofNat']
    omega
  · rwa [pduType_advPdu hmask]

theorem scanReqType (st txadd : UInt8) :
    (VBT_SCAN_REQ ||| txAddBit st ||| rxAddBit txadd) &&& VBT_ADV_PDU_TYPE_MASK = VBT_SCAN_REQ := by
  unfold txAddBit rxAddBit
  split_ifs <;> rfl

/-- A SCAN_REQ is not connectable. -/
theorem advShape_scanReq (st txadd : UInt8) (sa adva : BdAddr) :
    AdvShape 14 sa
      ([VBT_SCAN_REQ ||| txAddBit st ||| rxAddBit txadd, 12] ++ sa.bytes ++ adva.bytes) := by
  generalize hpdu :
    [VBT_SCAN_REQ ||| txAddBit st ||| rxAddBit txadd, 12] ++ sa.bytes ++ adva.bytes = pdu
  have htype : pduType pdu = VBT_SCAN_REQ := hpdu ▸ scanReqType _ _
  have hlen : pdu.length = 14 := hpdu ▸ rfl
  refine ⟨hpdu ▸ rfl, by omega, by omega, ?_, ?_⟩
  · rw [htype]
    decide
  · rintro (h | h) <;> rw [htype] at h <;> cases h

theorem Doing.advertise {m : Intake} {ll ll' : VbtLl} (h : Doing m ll ll')
    {type : UInt8} (hmask : type &&& VBT_ADV_PDU_TYPE_MASK = type) (htype : type ≠ VBT_CONNECT_IND)
    (channel atype : UInt8) (adva : BdAddr) (data : AdData) :
    Doing m ll (ll'.sendAdvPdu 39 channel adva atype (advPdu type atype adva data)) :=
  h.adv (advShape_advPdu hmask htype atype adva data)

end VbtLl
end Vbt
