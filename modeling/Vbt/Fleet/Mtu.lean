import Vbt.Fleet.Att

/-!
# Simulated peripherals: the size of responses

The server answers Exchange MTU with 23, so no response should be longer. It fits a response into
one data PDU, whose length is one byte. Nothing is cut: a response to a discovery request holds all
that matches, and a response to a Read the whole value.

* `sendL2cap`: a response as a data PDU, unless it is too long for one; `sendL2cap_isSome_iff`;
* `Few`: what a list of entries holds, by their sizes; `listRsp_le_iff`;
* `Fits`: what is asked for fits into 23 bytes;
* `att_mtu_iff`: exactly then the response does.
-/

namespace Vbt.Fleet

/-! ### Data PDUs -/

def LLID_START : UInt8 := 0x02
def CID_ATT : ℤ := 0x0004

/-- `_send_l2cap`, as far as the PDU it emits. `bytes([LLID_START, len(l2)])` raises an exception if
the length is not a byte, and `struct.pack` if it has more than two bytes. -/
def sendL2cap (cid : ℤ) (payload : List UInt8) : Option (List UInt8) :=
  if 65535 < payload.length then none
  else
    let l2 := le16 payload.length ++ le16 cid ++ payload
    if 255 < l2.length then none else some ([LLID_START, .ofNat l2.length] ++ l2)

theorem sendL2cap_isSome_iff (cid : ℤ) (payload : List UInt8) :
    (sendL2cap cid payload).isSome = true ↔ payload.length ≤ 251 := by
  have hlen : (le16 payload.length ++ le16 cid ++ payload).length = 4 + payload.length := by
    rw [List.length_append, List.length_append]
    rfl
  unfold sendL2cap
  dsimp only
  rw [hlen]
  split_ifs with hlong hbyte
  · exact iff_of_false (by simp) (by omega)
  · exact iff_of_false (by simp) (by omega)
  · exact iff_of_true rfl (by omega)

/-! ### Lists of entries -/

/-- The entries that are as long as the first one are at most 21 bytes together; they are given by
their sizes. -/
def Few (sizes : List ℕ) : Prop := ∀ n ∈ sizes.head?, sizes.count n * n ≤ 21

theorem length_attError (op : UInt8) (handle : ℕ) (err : UInt8) :
    (attError op handle err).length = 5 := rfl

theorem length_listRsp_cons (op rsp : UInt8) (start : ℕ) (e : List UInt8) (es : List (List UInt8)) :
    (listRsp op rsp start (e :: es)).length =
      2 + ((e :: es).map List.length).count e.length * e.length := by
  have hkept : ∀ x ∈ (e :: es).filter (fun x => x.length = e.length), x.length = e.length :=
    fun x hx => of_decide_eq_true (List.mem_filter.1 hx).2
  have hcount : ((e :: es).filter fun x => x.length = e.length).length =
      ((e :: es).map List.length).count e.length := by
    rw [List.count, List.countP_map, List.countP_eq_length_filter]
    refine congrArg List.length (List.filter_congr fun x _ => ?_)
    exact (Bool.beq_eq_decide_eq x.length e.length).symm
  rw [listRsp_cons, List.length_append, length_flatten_eq hkept, hcount]
  rfl

/-- A list of entries fits if there are few. An error always does. -/
theorem listRsp_le_iff (op rsp : UInt8) (start : ℕ) (entries : List (List UInt8)) :
    (listRsp op rsp start entries).length ≤ 23 ↔ Few (entries.map List.length) := by
  cases entries with
  | nil =>
    rw [listRsp_nil, length_attError]
    exact iff_of_true (by decide) fun n hn => by cases hn
  | cons e es =>
    rw [length_listRsp_cons]
    constructor
    · intro h n hn
      obtain rfl : e.length = n := Option.some.inj hn
      omega
    · intro h
      have := h e.length rfl
      omega

/-! ### Requests -/

section Requests

variable (gen : Gen) (d : Device)

/-- What a request asks for fits into 23 bytes. -/
def Fits (req : List UInt8) : Prop :=
  (req.head? = some ATT_READ_BY_GROUP_REQ → 7 ≤ req.length → (u16At req 5 : ℤ) = UUID_PRIMARY_SVC →
    Few ((d.servicesIn (u16At req 1) (u16At req 3)).map fun s => 4 + s.group.uuid.length)) ∧
  (req.head? = some ATT_READ_BY_TYPE_REQ → 7 ≤ req.length →
    Few ((d.attrsIn (u16At req 1) (u16At req 3) (u16At req 5)).map
      fun a => 2 + (d.valueOf gen a).length)) ∧
  (req.head? = some ATT_FIND_INFO_REQ → 5 ≤ req.length →
    (d.db.filter fun a =>
      ¬(a.handle < u16At req 1 ∨ u16At req 3 < a.handle) ∧ a.type ≤ 0xffff).length ≤ 5) ∧
  (req.head? = some ATT_READ_REQ → 3 ≤ req.length →
    ∀ a, d.db.find? (fun a => a.handle = u16At req 1) = some a → a.secure = false →
      (d.valueOf gen a).length ≤ 22)

theorem readByGroup_le_iff (start last gtype : ℕ) : (readByGroup d start last gtype).length ≤ 23 ↔
    ((gtype : ℤ) = UUID_PRIMARY_SVC →
      Few ((d.servicesIn start last).map fun s => 4 + s.group.uuid.length)) := by
  unfold readByGroup
  split_ifs with htype
  · exact iff_of_true (by rw [length_attError]; decide) fun h => absurd h htype
  · rw [listRsp_le_iff, List.map_map, imp_iff_right (not_not.1 htype)]
    have hsize : (List.length ∘ fun s : Service =>
        le16 s.group.start ++ le16 s.group.last ++ s.group.uuid) =
        fun s => 4 + s.group.uuid.length := by
      funext s
      rw [Function.comp_apply, List.length_append]
      rfl
    rw [hsize]

theorem readByType_le_iff (start last atype : ℕ) : (readByType gen d start last atype).length ≤ 23 ↔
    Few ((d.attrsIn start last atype).map fun a => 2 + (d.valueOf gen a).length) := by
  have hsize : (List.length ∘ fun a : Attr => le16 a.handle ++ d.valueOf gen a) =
      fun a => 2 + (d.valueOf gen a).length := by
    funext a
    rw [Function.comp_apply, List.length_append]
    rfl
  rw [readByType, listRsp_le_iff, List.map_map, hsize]

theorem findInfo_le_iff (start last : ℕ) : (findInfo d start last).length ≤ 23 ↔
    (d.db.filter fun a => ¬(a.handle < start ∨ last < a.handle) ∧ a.type ≤ 0xffff).length ≤ 5 := by
  unfold findInfo
  dsimp only
  generalize (d.db.filter fun a => ¬(a.handle < start ∨ last < a.handle) ∧ a.type ≤ 0xffff) = l
  have hlen : (l.map fun a => le16 a.handle ++ le16 a.type).flatten.length = l.length * 4 := by
    rw [length_flatten_eq (n := 4), List.length_map]
    intro e he
    obtain ⟨a, -, rfl⟩ := List.mem_map.1 he
    rfl
  split_ifs with hnil
  · rw [List.map_eq_nil_iff.1 hnil]
    exact iff_of_true (by rw [length_attError]; decide) (by decide)
  · rw [List.length_append, hlen, List.length_cons, List.length_singleton]
    omega

theorem handleAtt_le_iff (req : List UInt8) :
    (handleAtt gen d req).2.length ≤ 23 ↔ Fits gen d req := by
  cases req with
  | nil =>
    refine iff_of_true (Nat.zero_le 23) ⟨?_, ?_, ?_, ?_⟩ <;> exact fun h => by cases h
  | cons op r =>
    have hop : ∀ {o : UInt8}, (op :: r).head? = some o → op = o := fun h => Option.some.inj h
    -- nothing is asked for by requests of another kind
    have hother : ∀ {o : UInt8} {P : Prop}, op ≠ o → (op :: r).head? = some o → P :=
      fun hne h => absurd (hop h) hne
    unfold handleAtt
    dsimp only
    split_ifs with hmtu hgroup htype hinfo hread hwrite
    · subst hmtu
      exact iff_of_true (show 3 ≤ 23 by decide)
        ⟨hother (by decide), hother (by decide), hother (by decide), hother (by decide)⟩
    · obtain ⟨rfl, hlen⟩ := hgroup
      rw [readByGroup_le_iff]
      exact ⟨fun h => ⟨fun _ _ => h, hother (by decide), hother (by decide), hother (by decide)⟩,
        fun h => h.1 rfl hlen⟩
    · obtain ⟨rfl, hlen⟩ := htype
      rw [readByType_le_iff]
      exact ⟨fun h => ⟨hother (by decide), fun _ _ => h, hother (by decide), hother (by decide)⟩,
        fun h => h.2.1 rfl hlen⟩
    · obtain ⟨rfl, hlen⟩ := hinfo
      rw [findInfo_le_iff]
      exact ⟨fun h => ⟨hother (by decide), hother (by decide), fun _ _ => h, hother (by decide)⟩,
        fun h => h.2.2.1 rfl hlen⟩
    · obtain ⟨rfl, hlen⟩ := hread
      have hok := readAttr_eq_ok_iff gen d (u16At (ATT_READ_REQ :: r) 1)
      generalize d.readAttr gen (u16At (ATT_READ_REQ :: r) 1) = res at hok
      cases res with
      | error err =>
        refine iff_of_true (show 5 ≤ 23 by decide)
          ⟨hother (by decide), hother (by decide), hother (by decide), fun _ _ a hf hs => ?_⟩
        cases (hok (d.valueOf gen a)).2 ⟨a, hf, hs, rfl⟩
      | ok val =>
        obtain ⟨a, hf, hs, rfl⟩ := (hok val).1 rfl
        refine ⟨fun hle => ⟨hother (by decide), hother (by decide), hother (by decide),
          fun _ _ b hb _ => ?_⟩, fun h => Nat.succ_le_succ (h.2.2.2 rfl hlen a hf hs)⟩
        rw [← Option.some.inj (hf.symm.trans hb)]
        exact Nat.le_of_succ_le_succ hle
    · have hle : (write d op (u16At (op :: r) 1) ((op :: r).drop 3)).2.length ≤ 23 := by
        unfold write
        dsimp only
        split_ifs <;> decide
      rcases hwrite.1 with rfl | rfl <;>
        exact iff_of_true hle
          ⟨hother (by decide), hother (by decide), hother (by decide), hother (by decide)⟩
    · exact iff_of_true (show 5 ≤ 23 by decide)
        ⟨fun h hlen => absurd ⟨hop h, hlen⟩ hgroup, fun h hlen => absurd ⟨hop h, hlen⟩ htype,
          fun h hlen => absurd ⟨hop h, hlen⟩ hinfo, fun h hlen => absurd ⟨hop h, hlen⟩ hread⟩

end Requests

/-- **The size of responses.** A response has at most the 23 bytes of the MTU, exactly if what is
asked for fits. It can then be sent as one data PDU. -/
theorem att_mtu_iff (gen : Gen) (d : Device) (req : List UInt8) :
    ((handleAtt gen d req).2.length ≤ 23 ↔ Fits gen d req) ∧
    ((handleAtt gen d req).2.length ≤ 23 → (sendL2cap CID_ATT (handleAtt gen d req).2).isSome = true) :=
  ⟨handleAtt_le_iff gen d req, fun h => (sendL2cap_isSome_iff _ _).2 (by omega)⟩

/-- Find Information for all handles. -/
def findAll : List UInt8 := ATT_FIND_INFO_REQ :: (le16 1 ++ le16 0xFFFF)

/-- A service with `n` characteristics. -/
def crowded (n : ℕ) : Profile where
  id := []
  gatt := [⟨⟨some 0x1815, []⟩, List.replicate n ⟨⟨some 0x2A56, []⟩, [.read]⟩⟩]
  serviceUuids := []
  minLevel := 1

/-- The descriptors of a tablet are sent in 82 bytes although the MTU is 23. Those of a service with
31 characteristics cannot be sent at all. -/
theorem descriptors_exceed_mtu :
    (handleAtt (fun _ => [0]) (device genericTablet) [ATT_MTU_REQ, 23, 0]).2 = ATT_MTU_RSP :: le16 23 ∧
    (handleAtt (fun _ => [0]) (device genericTablet) findAll).2.length = 82 ∧
    sendL2cap CID_ATT (handleAtt (fun _ => [0]) (device (crowded 31)) findAll).2 = none := by
  refine ⟨by decide +kernel, by decide +kernel, by decide +kernel⟩

end Vbt.Fleet
