import Vbt.Lib.Bytes

/-!
# Simulated peripherals: the attribute database

`ble_fleet.py` builds the attribute database of a peripheral from its profile in the catalog: the
services that the profile spells out, and then the standard services that it only lists.

* `Profile`, `specs`: the profile, and the services of the peripheral;
* `Gatt`, `addChar`, `addService`, `buildGatt`: `_build_gatt`, with its running handle;
* `Group`, `groups`: the services with the handles they ought to have, from the sizes of the
  services before them;
* `buildGatt_services`, `buildGatt_length`: the database has them.
-/

namespace Vbt.Fleet

/-! ### Profiles -/

/-- A UUID of the catalog: what `parse_uuid16` makes of it, and its text. -/
structure Uuid where
  u16 : Option ℤ
  name : List UInt8 := []
  deriving DecidableEq

/-- The properties of a characteristic. Names that the source does not know are `other`. -/
inductive CharProp
  | read
  | write
  | writeWithoutResponse
  | notify
  | indicate
  | other
  deriving DecidableEq

structure CharSpec where
  uuid : Uuid
  props : List CharProp
  deriving DecidableEq

structure SvcSpec where
  uuid : Uuid
  chars : List CharSpec
  deriving DecidableEq

/-- The part of a profile that the database is built from. -/
structure Profile where
  id : List UInt8
  gatt : List SvcSpec
  serviceUuids : List Uuid
  minLevel : ℤ

/-- `STD_SVC`. -/
def stdSvc (u16 : ℤ) : Option (List CharSpec) :=
  if u16 = 0x1800 then some [⟨⟨some 0x2A00, []⟩, [.read]⟩, ⟨⟨some 0x2A01, []⟩, [.read]⟩]
  else if u16 = 0x1801 then some [⟨⟨some 0x2A05, []⟩, [.indicate]⟩]
  else if u16 = 0x180A then
    some [⟨⟨some 0x2A29, []⟩, [.read]⟩, ⟨⟨some 0x2A24, []⟩, [.read]⟩, ⟨⟨some 0x2A25, []⟩, [.read]⟩]
  else if u16 = 0x180F then some [⟨⟨some 0x2A19, []⟩, [.read, .notify]⟩]
  else none

/-- A listed service is added if it is a standard one that is not there yet. -/
def addStd (acc : List SvcSpec × List ℤ) (u : Uuid) : List SvcSpec × List ℤ :=
  match u.u16 with
  | none => acc
  | some u16 =>
    match stdSvc u16 with
    | none => acc
    | some chars => if u16 ∈ acc.2 then acc else (acc.1 ++ [⟨u, chars⟩], u16 :: acc.2)

/-- The services of the peripheral: those spelled out, then the listed ones. -/
def specs (p : Profile) : List SvcSpec :=
  (p.serviceUuids.foldl addStd (p.gatt, p.gatt.filterMap fun s => s.uuid.u16)).1

/-! ### The database -/

def UUID_PRIMARY_SVC : ℤ := 0x2800
def UUID_CHARACTERISTIC : ℤ := 0x2803
def UUID_CCCD : ℤ := 0x2902

def PROP_READ : UInt8 := 0x02
def PROP_WRITE_NR : UInt8 := 0x04
def PROP_WRITE : UInt8 := 0x08
def PROP_NOTIFY : UInt8 := 0x10
def PROP_INDICATE : UInt8 := 0x20

/-- `le16` of the script: the two low bytes of a number. -/
def le16 (v : ℤ) : List UInt8 := [byteAt (v % 65536).toNat 0, byteAt (v % 65536).toNat 1]

/-- `_uuid128`. The hash runs on from one byte to the next. -/
def uuid128 (p : Profile) (name : List UInt8) : List UInt8 :=
  let seed := name ++ p.id
  ((List.range 16).foldl (fun (x : UInt32 × List UInt8) i =>
    let h := (seed ++ [UInt8.ofNat i]).foldl (fun h b => (h ^^^ b.toUInt32) * 0x01000193) x.1
    (h, x.2 ++ [h.toUInt8])) (0x811c9dc5, [])).2

/-- The bytes of a UUID. -/
def uuidBytes (p : Profile) (u : Uuid) : List UInt8 :=
  match u.u16 with
  | some u16 => le16 u16
  | none => uuid128 p u.name

def CharProp.bit : CharProp → UInt8
  | read => PROP_READ
  | write => PROP_WRITE
  | writeWithoutResponse => PROP_WRITE_NR
  | notify => PROP_NOTIFY
  | indicate => PROP_INDICATE
  | other => 0

/-- The properties byte of a characteristic; one without properties can be read. -/
def charProps (l : List CharProp) : UInt8 :=
  let props := l.foldl (fun props p => props ||| p.bit) 0
  if props = 0 then PROP_READ else props

/-- The characteristic has a client configuration. -/
def CharSpec.configured (c : CharSpec) : Bool :=
  charProps c.props &&& (PROP_NOTIFY ||| PROP_INDICATE) != 0

/-- `_char_secure`. -/
def charSecure (p : Profile) (su16 : Option ℤ) : Bool :=
  if p.minLevel ≤ 1 then false
  else su16 != some 0x1800 && su16 != some 0x1801 && su16 != some 0x180A

/-- An attribute. The value of a characteristic is `none`: it is made when it is read. -/
structure Attr where
  handle : ℕ
  type : ℤ
  value : Option (List UInt8)
  secure : Bool
  deriving DecidableEq

/-- An entry of `services`. -/
structure Service where
  start : ℕ
  last : ℕ
  u16 : Option ℤ
  u128 : Option (List UInt8)
  deriving DecidableEq

/-- What `_build_gatt` builds; the dictionaries are lists in the order of insertion. -/
structure Gatt where
  handle : ℕ := 1
  db : List Attr := []
  services : List Service := []
  valUuid : List (ℕ × Option ℤ) := []
  cccd : List (ℕ × ℕ) := []

/-- A characteristic: its declaration, its value, and a client configuration if it needs one. -/
def addChar (p : Profile) (su16 : Option ℤ) (g : Gatt) (c : CharSpec) : Gatt :=
  let valHandle := g.handle + 1
  let g := { g with
    db := g.db ++
      [⟨g.handle, UUID_CHARACTERISTIC,
          some (charProps c.props :: le16 valHandle ++ uuidBytes p c.uuid), false⟩,
        ⟨valHandle, c.uuid.u16.getD 0xFFFF, none, charSecure p su16⟩]
    valUuid := g.valUuid ++ [(valHandle, c.uuid.u16)]
    handle := g.handle + 2 }
  if c.configured then
    { g with
      db := g.db ++ [⟨g.handle, UUID_CCCD, some [0, 0], false⟩]
      cccd := g.cccd ++ [(g.handle, valHandle)]
      handle := g.handle + 1 }
  else g

/-- A service: its declaration and its characteristics. -/
def addService (p : Profile) (g : Gatt) (s : SvcSpec) : Gatt :=
  let start := g.handle
  let sval := uuidBytes p s.uuid
  let g := { g with
    db := g.db ++ [⟨start, UUID_PRIMARY_SVC, some sval, false⟩]
    handle := g.handle + 1 }
  let g := s.chars.foldl (addChar p s.uuid.u16) g
  { g with
    services := g.services ++
      [⟨start, g.handle - 1, s.uuid.u16, if s.uuid.u16.isSome then none else some sval⟩] }

/-- `_build_gatt`. -/
def buildGatt (p : Profile) : Gatt := (specs p).foldl (addService p) {}

/-! ### The handles of the services -/

/-- A service with its handles and its UUID. -/
structure Group where
  start : ℕ
  last : ℕ
  uuid : List UInt8
  deriving DecidableEq

/-- The number of attributes of a characteristic. -/
def CharSpec.size (c : CharSpec) : ℕ := if c.configured then 3 else 2

/-- The number of attributes of a service. -/
def SvcSpec.size (s : SvcSpec) : ℕ := 1 + (s.chars.map CharSpec.size).sum

/-- Services one behind the other from a handle on. -/
def groups (p : Profile) : ℕ → List SvcSpec → List Group
  | _, [] => []
  | h, s :: ss => ⟨h, h + s.size - 1, uuidBytes p s.uuid⟩ :: groups p (h + s.size) ss

/-- What a service is announced as: `val` of the Read By Group Type loop. -/
def Service.group (s : Service) : Group :=
  ⟨s.start, s.last, match s.u16 with
    | some u16 => le16 u16
    | none => s.u128.getD []⟩

section Build

variable (p : Profile)

theorem addChar_handle (su16 : Option ℤ) (g : Gatt) (c : CharSpec) :
    (addChar p su16 g c).handle = g.handle + c.size ∧
      (addChar p su16 g c).db.length = g.db.length + c.size ∧
      (addChar p su16 g c).services = g.services := by
  unfold addChar CharSpec.size
  cases c.configured <;> simp

theorem foldl_addChar (su16 : Option ℤ) (cs : List CharSpec) (g : Gatt) :
    (cs.foldl (addChar p su16) g).handle = g.handle + (cs.map CharSpec.size).sum ∧
      (cs.foldl (addChar p su16) g).db.length = g.db.length + (cs.map CharSpec.size).sum ∧
      (cs.foldl (addChar p su16) g).services = g.services := by
  induction cs generalizing g with
  | nil => simp
  | cons c cs ih =>
    obtain ⟨hh, hd, hs⟩ := addChar_handle p su16 g c
    obtain ⟨ihh, ihd, ihs⟩ := ih (addChar p su16 g c)
    rw [List.foldl_cons, ihh, ihd, ihs, hh, hd, hs, List.map_cons, List.sum_cons]
    exact ⟨by omega, by omega, rfl⟩

theorem addService_spec (g : Gatt) (s : SvcSpec) :
    (addService p g s).handle = g.handle + s.size ∧
      (addService p g s).db.length = g.db.length + s.size ∧
      (addService p g s).services.map Service.group =
        g.services.map Service.group ++ [⟨g.handle, g.handle + s.size - 1,
            uuidBytes p s.uuid⟩] := by
  obtain ⟨hh, hd, hs⟩ := foldl_addChar p s.uuid.u16 s.chars { g with
    db := g.db ++ [⟨g.handle, UUID_PRIMARY_SVC, some (uuidBytes p s.uuid), false⟩]
    handle := g.handle + 1 }
  simp only [addService, hh, hd, hs, SvcSpec.size, List.length_append, List.length_singleton]
  refine ⟨by omega, by omega, ?_⟩
  rw [List.map_append, List.map_singleton, Nat.add_assoc]
  congr 2
  unfold Service.group uuidBytes
  cases s.uuid.u16 <;> rfl

theorem foldl_addService (ss : List SvcSpec) (g : Gatt) :
    (ss.foldl (addService p) g).handle = g.handle + (ss.map SvcSpec.size).sum ∧
      (ss.foldl (addService p) g).db.length = g.db.length + (ss.map SvcSpec.size).sum ∧
      (ss.foldl (addService p) g).services.map Service.group =
        g.services.map Service.group ++ groups p g.handle ss := by
  induction ss generalizing g with
  | nil => simp [groups]
  | cons s ss ih =>
    obtain ⟨hh, hd, hs⟩ := addService_spec p g s
    obtain ⟨ihh, ihd, ihs⟩ := ih (addService p g s)
    rw [List.foldl_cons, ihh, ihd, ihs, hh, hd, hs, List.map_cons, List.sum_cons, groups,
      List.append_assoc]
    exact ⟨by omega, by omega, rfl⟩

/-- **The services of the database** are announced with the handles that follow from their sizes. -/
theorem buildGatt_services : (buildGatt p).services.map Service.group = groups p 1 (specs p) :=
  (foldl_addService p (specs p) {}).2.2

/-- The attributes are numbered from one. -/
theorem buildGatt_length : (buildGatt p).db.length = ((specs p).map SvcSpec.size).sum := by
  rw [buildGatt, (foldl_addService p (specs p) {}).2.1]
  exact Nat.zero_add _

end Build

/-- The profile `generic_tablet` of the catalog. -/
def genericTablet : Profile where
  id := "generic_tablet".toUTF8.toList
  gatt := [⟨⟨some 0x180F, []⟩, [⟨⟨some 0x2A19, []⟩, [.read, .notify]⟩]⟩]
  serviceUuids := [⟨some 0x1800, []⟩, ⟨some 0x1801, []⟩, ⟨some 0x180A, []⟩, ⟨some 0x180F, []⟩]
  minLevel := 2

end Vbt.Fleet
