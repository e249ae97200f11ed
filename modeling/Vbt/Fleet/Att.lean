import Vbt.Fleet.Gatt

/-!
# Simulated peripherals: the ATT server

* `Device`: the database with the subscriptions of the current connection;
* `gather`: the loop of Read By Group Type and Read By Type, which keeps the entries that are as
  long as the first one; `gather_eq`;
* `handleAtt`: the server. It may change the device, but that does not depend on the values of the
  characteristics (`handleAtt_fst`);
* `notifications`, `Device.period`: what `timer_loop` sends to a connected client, and how often;
* `Peripheral`, `Op`, `exec`: the peripheral, one event at a time. `exec_cases`: what an event can
  do to the device.
-/

namespace Vbt.Fleet

def ATT_ERROR : UInt8 := 0x01
def ATT_MTU_REQ : UInt8 := 0x02
def ATT_MTU_RSP : UInt8 := 0x03
def ATT_FIND_INFO_REQ : UInt8 := 0x04
def ATT_FIND_INFO_RSP : UInt8 := 0x05
def ATT_READ_BY_TYPE_REQ : UInt8 := 0x08
def ATT_READ_BY_TYPE_RSP : UInt8 := 0x09
def ATT_READ_REQ : UInt8 := 0x0A
def ATT_READ_RSP : UInt8 := 0x0B
def ATT_READ_BY_GROUP_REQ : UInt8 := 0x10
def ATT_READ_BY_GROUP_RSP : UInt8 := 0x11
def ATT_WRITE_REQ : UInt8 := 0x12
def ATT_WRITE_RSP : UInt8 := 0x13
def ATT_WRITE_CMD : UInt8 := 0x52
def ATT_HANDLE_VALUE_NTF : UInt8 := 0x1B

def ERR_INVALID_HANDLE : UInt8 := 0x01
def ERR_INSUFF_AUTH : UInt8 := 0x05
def ERR_REQ_NOT_SUPP : UInt8 := 0x06
def ERR_ATTR_NOT_FOUND : UInt8 := 0x0A

/-- A peripheral: its database, and whether and with which subscriptions it is connected. -/
structure Device where
  db : List Attr
  services : List Service
  valUuid : List (ℕ × Option ℤ)
  cccd : List (ℕ × ℕ)
  subscriptions : List ℕ := []
  connected : Bool := false

/-- The peripheral of a profile. -/
def device (p : Profile) : Device :=
  { db := (buildGatt p).db
    services := (buildGatt p).services
    valUuid := (buildGatt p).valUuid
    cccd := (buildGatt p).cccd }

/-- The values that the generators give at one moment (`gen_value`), by UUID. -/
abbrev Gen := ℤ → List UInt8

/-- `att_error`. -/
def attError (op : UInt8) (handle : ℕ) (err : UInt8) : List UInt8 :=
  [ATT_ERROR, op] ++ le16 handle ++ [err]

/-- Two bytes of a request (`struct.unpack`). -/
def u16At (req : List UInt8) (i : ℕ) : ℕ := (req.getD i 0).toNat + 256 * (req.getD (i + 1) 0).toNat

/-! ### Lists of entries -/

/-- The loop that collects the entries of a response. The first one decides on their length. -/
def gather (entries : List (List UInt8)) : Option ℕ × List (List UInt8) :=
  entries.foldl (fun x entry =>
    let each := x.1.getD entry.length
    (some each, if entry.length = each then x.2 ++ [entry] else x.2)) (none, [])

/-- A list of entries as a response, or an error if there is none. -/
def listRsp (op rsp : UInt8) (start : ℕ) (entries : List (List UInt8)) : List UInt8 :=
  match gather entries with
  | (some each, e :: es) => [rsp, .ofNat each] ++ (e :: es).flatten
  | _ => attError op start ERR_ATTR_NOT_FOUND

theorem gather_some (n : ℕ) (acc : List (List UInt8)) (entries : List (List UInt8)) :
    entries.foldl (fun x entry =>
      let each := x.1.getD entry.length
      (some each, if entry.length = each then x.2 ++ [entry] else x.2)) (some n, acc) =
    (some n, acc ++ entries.filter fun e => e.length = n) := by
  induction entries generalizing acc with
  | nil => simp
  | cons e es ih =>
    rw [List.foldl_cons]
    simp only [Option.getD_some]
    rw [ih, List.filter_cons]
    by_cases h : e.length = n
    · simp [h]
    · simp [h]

/-- The entries that are as long as the first one are kept. -/
theorem gather_eq (e : List UInt8) (es : List (List UInt8)) :
    gather (e :: es) = (some e.length, (e :: es).filter fun x => x.length = e.length) := by
  rw [gather, List.foldl_cons]
  simp only [Option.getD_none, if_true, List.nil_append]
  rw [gather_some, List.filter_cons]
  simp

theorem listRsp_nil (op rsp : UInt8) (start : ℕ) :
    listRsp op rsp start [] = attError op start ERR_ATTR_NOT_FOUND := rfl

theorem listRsp_cons (op rsp : UInt8) (start : ℕ) (e : List UInt8) (es : List (List UInt8)) :
    listRsp op rsp start (e :: es) =
      [rsp, .ofNat e.length] ++ ((e :: es).filter fun x => x.length = e.length).flatten := by
  have hfilter : (e :: es).filter (fun x => x.length = e.length) =
      e :: es.filter fun x => x.length = e.length := by
    rw [List.filter_cons]
    simp
  rw [listRsp, gather_eq, hfilter]

theorem length_flatten_eq {n : ℕ} {l : List (List UInt8)} (h : ∀ e ∈ l, e.length = n) :
    l.flatten.length = l.length * n := by
  induction l with
  | nil => simp
  | cons e l ih =>
    rw [List.flatten_cons, List.length_append, h e List.mem_cons_self,
      ih fun x hx => h x (List.mem_cons_of_mem e hx), List.length_cons, Nat.succ_mul, Nat.add_comm]

/-! ### Requests -/

section Server

variable (gen : Gen) (d : Device)

/-- The UUID that the value of a handle is generated from. There is none for a characteristic with a
UUID of 128 bits, and zero counts as none. -/
def Device.uuidOf (h : ℕ) : Option ℤ :=
  match d.valUuid.lookup h with
  | some (some u16) => if u16 = 0 then none else some u16
  | _ => none

/-- The value of a characteristic: `gen_value(dev, u16) if u16 else b'\x00'`. -/
def Device.charValue (h : ℕ) : List UInt8 :=
  match d.uuidOf h with
  | some u16 => gen u16
  | none => [0]

/-- The value of an attribute. -/
def Device.valueOf (a : Attr) : List UInt8 := a.value.getD (d.charValue gen a.handle)

/-- `read_attr`. No link is encrypted. -/
def Device.readAttr (handle : ℕ) : Except UInt8 (List UInt8) :=
  match d.db.find? fun a => a.handle = handle with
  | none => .error ERR_INVALID_HANDLE
  | some a => if a.secure then .error ERR_INSUFF_AUTH else .ok (d.valueOf gen a)

/-- What a Read returns is the value of an attribute that is not secure. -/
theorem readAttr_eq_ok_iff (h : ℕ) (val : List UInt8) : d.readAttr gen h = .ok val ↔
    ∃ a, d.db.find? (fun a => a.handle = h) = some a ∧ a.secure = false ∧
        d.valueOf gen a = val := by
  unfold Device.readAttr
  cases d.db.find? fun a => a.handle = h with
  | none => simp
  | some a => cases hs : a.secure <;> simp [hs]

/-- The services that start in a range of handles. -/
def Device.servicesIn (start last : ℕ) : List Service :=
  d.services.filter fun s => ¬(s.start < start ∨ last < s.start)

def readByGroup (start last : ℕ) (gtype : ℕ) : List UInt8 :=
  if (gtype : ℤ) ≠ UUID_PRIMARY_SVC then attError ATT_READ_BY_GROUP_REQ start ERR_REQ_NOT_SUPP
  else
    listRsp ATT_READ_BY_GROUP_REQ ATT_READ_BY_GROUP_RSP start
      ((d.servicesIn start last).map fun s =>
        le16 s.group.start ++ le16 s.group.last ++ s.group.uuid)

/-- The attributes of a type in a range of handles. -/
def Device.attrsIn (start last : ℕ) (atype : ℕ) : List Attr :=
  d.db.filter fun a => ¬(a.handle < start ∨ last < a.handle) ∧ a.type = atype

/-- The values are read whether or not they are secure. -/
def readByType (start last : ℕ) (atype : ℕ) : List UInt8 :=
  listRsp ATT_READ_BY_TYPE_REQ ATT_READ_BY_TYPE_RSP start
    ((d.attrsIn start last atype).map fun a => le16 a.handle ++ d.valueOf gen a)

def findInfo (start last : ℕ) : List UInt8 :=
  let entries := (d.db.filter fun a => ¬(a.handle < start ∨ last < a.handle) ∧ a.type ≤ 0xffff).map
    fun a => le16 a.handle ++ le16 a.type
  if entries = [] then attError ATT_FIND_INFO_REQ start ERR_ATTR_NOT_FOUND
  else [ATT_FIND_INFO_RSP, 0x01] ++ entries.flatten

/-- The subscriptions after a write to a client configuration. -/
def Device.subscribe (h : ℕ) (val : List UInt8) : List ℕ :=
  if (val.headD 0) &&& 0x03 ≠ 0 then
    if h ∈ d.subscriptions then d.subscriptions else h :: d.subscriptions
  else d.subscriptions.filter fun x => x ≠ h

/-- The database after a write to a client configuration. -/
def Device.configure (h : ℕ) (val : List UInt8) : List Attr :=
  d.db.map fun a =>
    if a.handle = h ∧ a.type = UUID_CCCD then { a with value := some ((val ++ [0, 0]).take 2) } else a

/-- A write. Only client configurations take the value; the handles are distinct, so that at most
one attribute changes. Other writes are confirmed without effect. -/
def write (op : UInt8) (h : ℕ) (val : List UInt8) : Device × List UInt8 :=
  (if d.db.any fun a => a.handle = h ∧ a.type = UUID_CCCD then
      { d with db := d.configure h val, subscriptions := d.subscribe h val }
    else d,
    if op = ATT_WRITE_CMD then [] else [ATT_WRITE_RSP])

/-- `handle_att`. -/
def handleAtt (req : List UInt8) : Device × List UInt8 :=
  match req with
  | [] => (d, [])
  | op :: _ =>
    if op = ATT_MTU_REQ then (d, ATT_MTU_RSP :: le16 23)
    else if op = ATT_READ_BY_GROUP_REQ ∧ 7 ≤ req.length then
      (d, readByGroup d (u16At req 1) (u16At req 3) (u16At req 5))
    else if op = ATT_READ_BY_TYPE_REQ ∧ 7 ≤ req.length then
      (d, readByType gen d (u16At req 1) (u16At req 3) (u16At req 5))
    else if op = ATT_FIND_INFO_REQ ∧ 5 ≤ req.length then
      (d, findInfo d (u16At req 1) (u16At req 3))
    else if op = ATT_READ_REQ ∧ 3 ≤ req.length then
      match d.readAttr gen (u16At req 1) with
      | .error err => (d, attError op (u16At req 1) err)
      | .ok val => (d, ATT_READ_RSP :: val)
    else if (op = ATT_WRITE_REQ ∨ op = ATT_WRITE_CMD) ∧ 3 ≤ req.length then
      write d op (u16At req 1) (req.drop 3)
    else (d, attError op 0 ERR_REQ_NOT_SUPP)

theorem handleAtt_readByGroup {r : List UInt8} (h : 6 ≤ r.length) :
    handleAtt gen d (ATT_READ_BY_GROUP_REQ :: r) =
      (d, readByGroup d (u16At (ATT_READ_BY_GROUP_REQ :: r) 1) (u16At (ATT_READ_BY_GROUP_REQ :: r) 3)
        (u16At (ATT_READ_BY_GROUP_REQ :: r) 5)) := by
  unfold handleAtt
  dsimp only
  rw [if_neg (by decide), if_pos ⟨rfl, Nat.succ_le_succ h⟩]

theorem handleAtt_readByType {r : List UInt8} (h : 6 ≤ r.length) :
    handleAtt gen d (ATT_READ_BY_TYPE_REQ :: r) =
      (d, readByType gen d (u16At (ATT_READ_BY_TYPE_REQ :: r) 1)
        (u16At (ATT_READ_BY_TYPE_REQ :: r) 3) (u16At (ATT_READ_BY_TYPE_REQ :: r) 5)) := by
  unfold handleAtt
  dsimp only
  rw [if_neg (by decide), if_neg fun h => absurd h.1 (by decide), if_pos ⟨rfl, Nat.succ_le_succ h⟩]

/-- What a request leaves of the device does not depend on the values of the characteristics. -/
theorem handleAtt_fst (gen' : Gen) (req : List UInt8) :
    (handleAtt gen' d req).1 = (handleAtt gen d req).1 := by
  unfold handleAtt
  split
  · rfl
  · split_ifs
    · rfl
    · rfl
    · rfl
    · rfl
    · cases d.readAttr gen' _ <;> cases d.readAttr gen _ <;> rfl
    · rfl
    · rfl

/-- The device with a client configuration written. -/
def Device.written (h : ℕ) (val : List UInt8) : Device :=
  { d with db := d.configure h val, subscriptions := d.subscribe h val }

/-- **A request leaves the device as it is, or writes a client configuration.** -/
theorem handleAtt_cases (req : List UInt8) : (handleAtt gen d req).1 = d ∨
    ∃ h val, (∃ a ∈ d.db, a.handle = h ∧ a.type = UUID_CCCD) ∧
      (handleAtt gen d req).1 = d.written h val := by
  unfold handleAtt
  split
  · exact .inl rfl
  · split_ifs
    · exact .inl rfl
    · exact .inl rfl
    · exact .inl rfl
    · exact .inl rfl
    · cases d.readAttr gen _ <;> exact .inl rfl
    · unfold write
      dsimp only
      split_ifs with hany
      · obtain ⟨a, ha, hcccd⟩ := List.any_eq_true.1 hany
        exact .inr ⟨_, _, ⟨a, ha, of_decide_eq_true hcccd⟩, rfl⟩
      · exact .inl rfl
    · exact .inl rfl

/-! ### The peripheral -/

/-- `notify_handles`: the values that the client has subscribed to. -/
def Device.notifyHandles : List ℕ :=
  d.cccd.filterMap fun x => if x.1 ∈ d.subscriptions then some x.2 else none

/-- The notifications of `timer_loop`. -/
def notifications : List (List UInt8) :=
  d.notifyHandles.map fun vh : ℕ => ATT_HANDLE_VALUE_NTF :: le16 vh ++ d.charValue gen vh

end Server

/-- The values of a moment: those of the characteristics, and the heart rate (`hr_bpm`, which is
`int(70 + 40 * x)` for an `x` from 0 to 1). -/
structure Moment where
  gen : Gen
  hrBpm : ℕ := 70
  hr_range : hrBpm ∈ Finset.Icc 70 110 := by decide

/-- The time between notifications: a heartbeat of a device that has a heart rate, else a second. -/
def Device.period (d : Device) (m : Moment) : ℚ :=
  if some 0x2A37 ∈ d.valUuid.map Prod.snd then 60 / (max m.hrBpm 1 : ℕ) else 1

/-- A peripheral in `timer_loop`, whose times count from its start. -/
structure Peripheral where
  dev : Device
  nextNotify : ℚ := 1

/-- What happens to a peripheral: a CONNECT_IND to its address, LL_TERMINATE_IND, an ATT request, or
an iteration of `timer_loop`. -/
inductive Op
  | connect
  | terminate
  | att (req : List UInt8)
  | tick (now : ℚ)
  deriving DecidableEq

/-- A response is sent unless it is empty. -/
def sent (rsp : List UInt8) : List (List UInt8) := if rsp = [] then [] else [rsp]

/-- The effect of an event, and the ATT PDUs that are sent. -/
def exec (m : Moment) (x : Peripheral) : Op → Peripheral × List (List UInt8)
  | .connect =>
    (if x.dev.connected then x
      else { x with dev := { x.dev with connected := true, subscriptions := [] } }, [])
  | .terminate =>
    (if x.dev.connected then
      { x with dev := { x.dev with connected := false, subscriptions := [] } } else x, [])
  | .att req =>
    if x.dev.connected then
      ({ x with dev := (handleAtt m.gen x.dev req).1 }, sent (handleAtt m.gen x.dev req).2)
    else (x, [])
  | .tick now =>
    if x.dev.connected ∧ x.nextNotify ≤ now then
      ({ x with nextNotify := now + x.dev.period m }, notifications m.gen x.dev)
    else (x, [])

/-- A connection is made, or ends: the subscriptions are forgotten. -/
def Clears (d : Device) : Op → Prop
  | .connect => d.connected = false
  | .terminate => d.connected = true
  | .att _ | .tick _ => False

theorem dev_tick (m : Moment) (x : Peripheral) (now : ℚ) : (exec m x (.tick now)).1.dev = x.dev := by
  simp only [exec]
  split_ifs <;> rfl

/-- **What an event can do to the device.** -/
theorem exec_cases (m : Moment) (x : Peripheral) (op : Op) :
    (¬Clears x.dev op ∧ (exec m x op).1.dev = x.dev) ∨
    (Clears x.dev op ∧
      (exec m x op).1.dev = { x.dev with connected := !x.dev.connected, subscriptions := [] }) ∨
    (¬Clears x.dev op ∧ ∃ h val, (∃ a ∈ x.dev.db, a.handle = h ∧ a.type = UUID_CCCD) ∧
      (exec m x op).1.dev = x.dev.written h val) := by
  cases op with
  | connect =>
    cases hc : x.dev.connected with
    | true => exact .inl ⟨by simp [Clears, hc], by simp [exec, hc]⟩
    | false => exact .inr (.inl ⟨hc, by simp [exec, hc]⟩)
  | terminate =>
    cases hc : x.dev.connected with
    | true => exact .inr (.inl ⟨hc, by simp [exec, hc]⟩)
    | false => exact .inl ⟨by simp [Clears, hc], by simp [exec, hc]⟩
  | att req =>
    cases hc : x.dev.connected with
    | true =>
      have heq : (exec m x (.att req)).1.dev = (handleAtt m.gen x.dev req).1 := by simp [exec, hc]
      rw [heq]
      rcases handleAtt_cases m.gen x.dev req with hsame | hwrite
      · exact .inl ⟨id, hsame⟩
      · exact .inr (.inr ⟨id, hwrite⟩)
    | false => exact .inl ⟨id, by simp [exec, hc]⟩
  | tick now => exact .inl ⟨id, dev_tick m x now⟩

end Vbt.Fleet
