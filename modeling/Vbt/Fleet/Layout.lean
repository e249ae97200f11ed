import Vbt.Fleet.Services
import Vbt.Lib.Located

/-!
# Simulated peripherals: the layout of the database

`_build_gatt` advances one handle through nested loops and keeps three tables beside the database.
What it builds is a list of services one behind the other, and in each a list of characteristics one
behind the other, so every handle follows from the sizes of what stands before it.

* `charAttrs`, `svcAttrs`, `sited`: what is built where;
* `buildGatt_db`, `buildGatt_valUuid`, `buildGatt_cccd`, `buildGatt_sited`: the four tables;
* `Site`, `sites`: the characteristics with their handles and those of their services;
* `map_handle_db`, `attr_unique`: the attributes are numbered;
* `gatt_layout`: the database is well laid out.
-/

namespace Vbt.Fleet

/-! ### What is built where -/

/-- The attributes of a characteristic with its declaration at handle `k`. -/
def charAttrs (p : Profile) (su16 : Option ℤ) (k : ℕ) (c : CharSpec) : List Attr :=
  [⟨k, UUID_CHARACTERISTIC,
      some (charProps c.props :: le16 (k + 1 : ℕ) ++ uuidBytes p c.uuid), false⟩,
    ⟨k + 1, c.uuid.u16.getD 0xFFFF, none, charSecure p su16⟩] ++
  if c.configured then [⟨k + 2, UUID_CCCD, some [0, 0], false⟩] else []

/-- The characteristics of a service at handle `h`, with their handles. -/
def SvcSpec.places (s : SvcSpec) (h : ℕ) :
    List (ℕ × CharSpec) := located CharSpec.size (h + 1) s.chars

/-- The attributes of a service at handle `h`. -/
def svcAttrs (p : Profile) (h : ℕ) (s : SvcSpec) : List Attr :=
  ⟨h, UUID_PRIMARY_SVC, some (uuidBytes p s.uuid), false⟩ ::
    (s.places h).flatMap fun x => charAttrs p s.uuid.u16 x.1 x.2

/-- The entry of `_val_uuid` for a characteristic at handle `k`. -/
def valEntry (k : ℕ) (c : CharSpec) : ℕ × Option ℤ := (k + 1, c.uuid.u16)

/-- The entry of `_cccd` for a characteristic at handle `k`, if it has one. -/
def cccdEntry (k : ℕ) (c : CharSpec) : List (ℕ × ℕ) := if c.configured then [(k + 2, k + 1)] else []

/-- The entries of `_val_uuid` for a service at handle `h`. -/
def SvcSpec.valEntries (s : SvcSpec) (h : ℕ) : List (ℕ × Option ℤ) :=
  (s.places h).flatMap fun y => [valEntry y.1 y.2]

/-- The entries of `_cccd` for a service at handle `h`. -/
def SvcSpec.cccdEntries (s : SvcSpec) (h : ℕ) : List (ℕ × ℕ) :=
  (s.places h).flatMap fun y => cccdEntry y.1 y.2

/-- The entry of `services` for a service at handle `h`. -/
def svcEntry (p : Profile) (h : ℕ) (s : SvcSpec) : Service :=
  ⟨h, h + s.size - 1, s.uuid.u16, if s.uuid.u16.isSome then none else some (uuidBytes p s.uuid)⟩

/-- The services of the peripheral with their handles. -/
def sited (p : Profile) : List (ℕ × SvcSpec) := located SvcSpec.size 1 (specs p)

section Build

variable (p : Profile) (su16 : Option ℤ) (g : Gatt)

theorem addChar_db (c : CharSpec) :
    (addChar p su16 g c).db = g.db ++ charAttrs p su16 g.handle c := by
  unfold addChar charAttrs
  cases c.configured <;> simp

theorem addChar_valUuid (c : CharSpec) :
    (addChar p su16 g c).valUuid = g.valUuid ++ [valEntry g.handle c] := by
  unfold addChar valEntry
  cases c.configured <;> simp

theorem addChar_cccd (c : CharSpec) :
    (addChar p su16 g c).cccd = g.cccd ++ cccdEntry g.handle c := by
  unfold addChar cccdEntry
  cases c.configured <;> simp

/-- The state of `_build_gatt` in front of the characteristics of a service. -/
def declared (s : SvcSpec) : Gatt :=
  { g with
    db := g.db ++ [⟨g.handle, UUID_PRIMARY_SVC, some (uuidBytes p s.uuid), false⟩]
    handle := g.handle + 1 }

theorem addService_db (s : SvcSpec) :
    (addService p g s).db = g.db ++ svcAttrs p g.handle s := by
  have hfold := foldl_located Gatt.handle Gatt.db (charAttrs p s.uuid.u16)
    (fun g c => (addChar_handle p s.uuid.u16 g c).1) (addChar_db p s.uuid.u16) s.chars (declared p g s)
  show (s.chars.foldl (addChar p s.uuid.u16) (declared p g s)).db = _
  rw [hfold, svcAttrs, declared, List.append_assoc]
  rfl

theorem addService_valUuid (s : SvcSpec) : (addService p g s).valUuid =
    g.valUuid ++ s.valEntries g.handle :=
  foldl_located Gatt.handle Gatt.valUuid (fun k c => [valEntry k c])
    (fun g c => (addChar_handle p s.uuid.u16 g c).1) (addChar_valUuid p s.uuid.u16) s.chars
    (declared p g s)

theorem addService_cccd (s : SvcSpec) : (addService p g s).cccd =
    g.cccd ++ s.cccdEntries g.handle :=
  foldl_located Gatt.handle Gatt.cccd cccdEntry
    (fun g c => (addChar_handle p s.uuid.u16 g c).1) (addChar_cccd p s.uuid.u16) s.chars
    (declared p g s)

theorem addService_services (s : SvcSpec) :
    (addService p g s).services = g.services ++ [svcEntry p g.handle s] := by
  obtain ⟨hh, -, hs⟩ := foldl_addChar p s.uuid.u16 s.chars (declared p g s)
  have hhandle : (declared p g s).handle = g.handle + 1 := rfl
  show (s.chars.foldl (addChar p s.uuid.u16) (declared p g s)).services ++ _ = _
  rw [hs, svcEntry, SvcSpec.size]
  show g.services ++ [⟨g.handle, (s.chars.foldl (addChar p s.uuid.u16) (declared p g s)).handle - 1,
    _, _⟩] = _
  rw [hh, hhandle, Nat.add_assoc]

/-- **The database**, in the order of the handles. -/
theorem buildGatt_db : (buildGatt p).db = (sited p).flatMap fun x => svcAttrs p x.1 x.2 := by
  rw [buildGatt, foldl_located Gatt.handle Gatt.db (svcAttrs p)
    (fun g s => (addService_spec p g s).1) (addService_db p)]
  rfl

theorem buildGatt_valUuid :
    (buildGatt p).valUuid = (sited p).flatMap fun x => x.2.valEntries x.1 := by
  rw [buildGatt, foldl_located Gatt.handle Gatt.valUuid (fun h s => SvcSpec.valEntries s h)
    (fun g s => (addService_spec p g s).1) (addService_valUuid p)]
  rfl

theorem buildGatt_cccd : (buildGatt p).cccd = (sited p).flatMap fun x => x.2.cccdEntries x.1 := by
  rw [buildGatt, foldl_located Gatt.handle Gatt.cccd (fun h s => SvcSpec.cccdEntries s h)
    (fun g s => (addService_spec p g s).1) (addService_cccd p)]
  rfl

theorem buildGatt_sited :
    (buildGatt p).services = (sited p).flatMap fun x => [svcEntry p x.1 x.2] := by
  rw [buildGatt, foldl_located Gatt.handle Gatt.services (fun h s => [svcEntry p h s])
    (fun g s => (addService_spec p g s).1) (addService_services p)]
  rfl

end Build

/-! ### Handles -/

section Handles

variable (p : Profile)

theorem map_handle_charAttrs (su16 : Option ℤ) (k : ℕ) (c : CharSpec) :
    (charAttrs p su16 k c).map Attr.handle = List.range' k c.size := by
  unfold charAttrs CharSpec.size
  cases c.configured <;> rfl

theorem map_handle_svcAttrs (h : ℕ) (s : SvcSpec) :
    (svcAttrs p h s).map Attr.handle = List.range' h s.size := by
  have hchars : ((s.places h).flatMap fun x => charAttrs p s.uuid.u16 x.1 x.2).map Attr.handle =
      List.range' (h + 1) (s.chars.map CharSpec.size).sum := by
    rw [List.map_flatMap]
    simp only [map_handle_charAttrs]
    exact flatMap_range_located (h + 1) s.chars
  rw [svcAttrs, List.map_cons, hchars, SvcSpec.size, Nat.add_comm 1, List.range'_succ]

/-- **The attributes are numbered** from 1. -/
theorem map_handle_db :
    (buildGatt p).db.map Attr.handle = List.range' 1 (buildGatt p).db.length := by
  have hsum : (buildGatt p).db.map Attr.handle = List.range' 1 ((specs p).map SvcSpec.size).sum := by
    rw [buildGatt_db, List.map_flatMap]
    simp only [map_handle_svcAttrs]
    exact flatMap_range_located 1 (specs p)
  rw [hsum, buildGatt_length]

/-- There is one attribute for each handle. -/
theorem attr_unique {a b : Attr} (ha : a ∈ (buildGatt p).db) (hb : b ∈ (buildGatt p).db)
    (h : a.handle = b.handle) : a = b := by
  have hnodup : ((buildGatt p).db.map Attr.handle).Nodup := by
    rw [map_handle_db]
    exact List.nodup_range'
  exact List.inj_on_of_nodup_map hnodup ha hb h

end Handles

/-! ### Characteristics -/

/-- A characteristic with the handle of its declaration, and the first and last handle of its
service. -/
structure Site where
  start : ℕ
  last : ℕ
  handle : ℕ
  su16 : Option ℤ
  char : CharSpec

/-- The characteristics of a peripheral, in the order of their handles. -/
def sites (p : Profile) : List Site :=
  (sited p).flatMap fun x => (x.2.places x.1).map fun y =>
    ⟨x.1, x.1 + x.2.size - 1, y.1, x.2.uuid.u16, y.2⟩

section Sites

variable {p : Profile} {x : Site}

/-- A characteristic is within its service, with all its attributes. -/
theorem site_inside (hx : x ∈ sites p) :
    x.start < x.handle ∧ x.handle + x.char.size ≤ x.last + 1 ∧
      ∃ s ∈ (buildGatt p).services, s.start = x.start ∧ s.last = x.last := by
  obtain ⟨⟨h, s⟩, hs, hx⟩ := List.mem_flatMap.1 hx
  obtain ⟨⟨k, c⟩, hc, rfl⟩ := List.mem_map.1 hx
  have hmem := mem_located hc
  have hsize : s.size = 1 + (s.chars.map CharSpec.size).sum := rfl
  dsimp only at hmem ⊢
  refine ⟨by omega, by omega, svcEntry p h s, ?_, rfl, rfl⟩
  rw [buildGatt_sited]
  exact List.mem_flatMap.2 ⟨(h, s), hs, List.mem_singleton.2 rfl⟩

/-- The attributes of a characteristic are in the database. -/
theorem site_attrs (hx : x ∈ sites p) {a : Attr} (ha : a ∈ charAttrs p x.su16 x.handle x.char) :
    a ∈ (buildGatt p).db := by
  obtain ⟨⟨h, s⟩, hs, hx⟩ := List.mem_flatMap.1 hx
  obtain ⟨⟨k, c⟩, hc, rfl⟩ := List.mem_map.1 hx
  rw [buildGatt_db]
  refine List.mem_flatMap.2 ⟨(h, s), hs, List.mem_cons_of_mem _ ?_⟩
  exact List.mem_flatMap.2 ⟨(k, c), hc, ha⟩

/-- Every attribute is the declaration of a service or belongs to a characteristic. -/
theorem attr_cases {a : Attr} (ha : a ∈ (buildGatt p).db) :
    a.type = UUID_PRIMARY_SVC ∧ a.value.isSome = true ∨
      ∃ x ∈ sites p, a ∈ charAttrs p x.su16 x.handle x.char := by
  rw [buildGatt_db] at ha
  obtain ⟨⟨h, s⟩, hs, ha⟩ := List.mem_flatMap.1 ha
  rcases List.mem_cons.1 ha with rfl | ha
  · exact .inl ⟨rfl, rfl⟩
  · obtain ⟨⟨k, c⟩, hc, ha⟩ := List.mem_flatMap.1 ha
    refine .inr ⟨⟨h, h + s.size - 1, k, s.uuid.u16, c⟩, ?_, ha⟩
    exact List.mem_flatMap.2 ⟨(h, s), hs, List.mem_map.2 ⟨(k, c), hc, rfl⟩⟩

/-- What the attributes of a characteristic are. -/
theorem mem_charAttrs {su16 : Option ℤ} {k : ℕ} {c : CharSpec} {a : Attr}
    (ha : a ∈ charAttrs p su16 k c) :
    (a.handle = k ∧ a.type = UUID_CHARACTERISTIC ∧ a.value.isSome = true) ∨
      (a.handle = k + 1 ∧ a.value = none) ∨
      (a.handle = k + 2 ∧ a.type = UUID_CCCD ∧ a.value.isSome = true ∧ c.configured = true) := by
  unfold charAttrs at ha
  cases hc : c.configured with
  | false =>
    simp only [hc, Bool.false_eq_true, if_false, List.append_nil, List.mem_cons, List.not_mem_nil,
      or_false] at ha
    rcases ha with rfl | rfl
    · exact .inl ⟨rfl, rfl, rfl⟩
    · exact .inr (.inl ⟨rfl, rfl⟩)
  | true =>
    simp only [hc, if_true, List.cons_append, List.nil_append, List.mem_cons, List.not_mem_nil,
      or_false] at ha
    rcases ha with rfl | rfl | rfl
    · exact .inl ⟨rfl, rfl, rfl⟩
    · exact .inr (.inl ⟨rfl, rfl⟩)
    · exact .inr (.inr ⟨rfl, rfl, rfl, rfl⟩)

end Sites

/-! ### Side tables -/

/-- The declaration of a characteristic. The value of a characteristic may have the same type. -/
def Attr.isDecl (a : Attr) : Bool := a.type == UUID_CHARACTERISTIC && a.value.isSome

/-- A client configuration. -/
def Attr.isCccd (a : Attr) : Bool := a.type == UUID_CCCD && a.value.isSome

section Tables

variable (p : Profile)

theorem filter_charAttrs (su16 : Option ℤ) (k : ℕ) (c : CharSpec) :
    ((charAttrs p su16 k c).filter Attr.isDecl).map Attr.handle = [k] ∧
      ((charAttrs p su16 k c).filter fun a => a.value.isNone).map Attr.handle = [k + 1] ∧
      ((charAttrs p su16 k c).filter Attr.isCccd).map Attr.handle = (cccdEntry k c).map Prod.fst := by
  have hne : (UUID_CCCD == UUID_CHARACTERISTIC) = false ∧
      (UUID_CHARACTERISTIC == UUID_CCCD) = false := by
    decide
  unfold charAttrs cccdEntry
  cases c.configured <;> simp [Attr.isDecl, Attr.isCccd, hne.1, hne.2]

/-- A property of the attributes of the characteristics, and not of the declarations of services, is
collected from the characteristics. -/
theorem filter_db {q : Attr → Bool} (hq : ∀ a, a.type = UUID_PRIMARY_SVC → a.value.isSome = true →
    q a = false) : (buildGatt p).db.filter q =
      (sites p).flatMap fun x => (charAttrs p x.su16 x.handle x.char).filter q := by
  rw [buildGatt_db, sites, List.filter_flatMap, List.flatMap_assoc]
  refine List.flatMap_congr fun x _ => ?_
  rw [svcAttrs, List.filter_cons, hq _ rfl rfl, List.filter_flatMap, List.flatMap_map]
  rfl

theorem map_filter_db {q : Attr → Bool} {out : ℕ → CharSpec → List ℕ}
    (hq : ∀ a, a.type = UUID_PRIMARY_SVC → a.value.isSome = true → q a = false)
    (hout : ∀ su16 k c, ((charAttrs p su16 k c).filter q).map Attr.handle = out k c) :
    ((buildGatt p).db.filter q).map Attr.handle = (sites p).flatMap
        fun x => out x.handle x.char := by
  rw [filter_db p hq, List.map_flatMap]
  exact List.flatMap_congr fun x _ => hout x.su16 x.handle x.char

/-- The declarations are those of the characteristics. -/
theorem map_handle_decls :
    ((buildGatt p).db.filter Attr.isDecl).map Attr.handle = (sites p).map Site.handle := by
  have hne : (UUID_PRIMARY_SVC == UUID_CHARACTERISTIC) = false := by decide
  rw [map_filter_db p (fun a ht _ => by rw [Attr.isDecl, ht, hne, Bool.false_and])
    fun su16 k c => (filter_charAttrs p su16 k c).1]
  exact List.map_eq_flatMap.symm

/-- `_val_uuid` has the handles of the values. -/
theorem map_handle_values :
    ((buildGatt p).db.filter fun a => a.value.isNone).map Attr.handle =
      (buildGatt p).valUuid.map Prod.fst := by
  rw [map_filter_db p (fun a _ hs => by cases hv : a.value <;> simp_all)
    fun su16 k c => (filter_charAttrs p su16 k c).2.1, buildGatt_valUuid, sites, List.flatMap_assoc,
    List.map_flatMap]
  refine List.flatMap_congr fun x _ => ?_
  rw [List.flatMap_map, SvcSpec.valEntries, List.map_flatMap]
  rfl

/-- `_cccd` has the handles of the client configurations. -/
theorem map_handle_cccds :
    ((buildGatt p).db.filter Attr.isCccd).map Attr.handle = (buildGatt p).cccd.map Prod.fst := by
  have hne : (UUID_PRIMARY_SVC == UUID_CCCD) = false := by decide
  rw [map_filter_db p (fun a ht _ => by rw [Attr.isCccd, ht, hne, Bool.false_and])
    fun su16 k c => (filter_charAttrs p su16 k c).2.2, buildGatt_cccd, sites, List.flatMap_assoc,
    List.map_flatMap]
  refine List.flatMap_congr fun x _ => ?_
  rw [List.flatMap_map, SvcSpec.cccdEntries, List.map_flatMap]

/-- `_val_uuid` maps the value of a characteristic to its UUID. -/
theorem mem_valUuid {e : ℕ × Option ℤ} : e ∈ (buildGatt p).valUuid ↔
    ∃ x ∈ sites p, e = (x.handle + 1, x.char.uuid.u16) := by
  rw [buildGatt_valUuid]
  simp only [sites, List.mem_flatMap, List.mem_map, List.mem_singleton, SvcSpec.valEntries,
    valEntry]
  constructor
  · rintro ⟨x, hx, y, hy, rfl⟩
    exact ⟨_, ⟨x, hx, y, hy, rfl⟩, rfl⟩
  · rintro ⟨-, ⟨x, hx, y, hy, rfl⟩, rfl⟩
    exact ⟨x, hx, y, hy, rfl⟩

/-- `_cccd` maps the client configuration of a characteristic to its value. -/
theorem mem_cccd {e : ℕ × ℕ} : e ∈ (buildGatt p).cccd ↔
    ∃ x ∈ sites p, x.char.configured = true ∧ e = (x.handle + 2, x.handle + 1) := by
  rw [buildGatt_cccd]
  simp only [sites, List.mem_flatMap, List.mem_map, SvcSpec.cccdEntries, cccdEntry]
  constructor
  · rintro ⟨x, hx, y, hy, he⟩
    split_ifs at he with hc
    · rw [List.mem_singleton] at he
      exact ⟨_, ⟨x, hx, y, hy, rfl⟩, hc, he⟩
    · cases he
  · rintro ⟨-, ⟨x, hx, y, hy, rfl⟩, hc, rfl⟩
    exact ⟨x, hx, y, hy, by rw [if_pos hc]; exact List.mem_singleton.2 rfl⟩

end Tables

/-! ### Properties -/

theorem or_and_eq_zero (a b m : UInt8) : (a ||| b) &&& m = 0 ↔ a &&& m = 0 ∧ b &&& m = 0 := by
  have hdistrib : (a ||| b) &&& m = (a &&& m) ||| (b &&& m) := by
    rw [← UInt8.toBitVec_inj]
    exact BitVec.and_or_distrib_right
  rw [hdistrib, UInt8.or_eq_zero_iff]

theorem foldl_bits (l : List CharProp) (a : UInt8) :
    (l.foldl (fun props p => props ||| p.bit) a) &&& (PROP_NOTIFY ||| PROP_INDICATE) = 0 ↔
      a &&& (PROP_NOTIFY ||| PROP_INDICATE) = 0 ∧ .notify ∉ l ∧ .indicate ∉ l := by
  induction l generalizing a with
  | nil => simp
  | cons c l ih =>
    have hbit : c.bit &&& (PROP_NOTIFY ||| PROP_INDICATE) = 0 ↔ c ≠ .notify ∧ c ≠ .indicate := by
      cases c <;> decide
    rw [List.foldl_cons, ih, or_and_eq_zero, hbit, List.mem_cons, List.mem_cons]
    tauto

/-- A characteristic has a client configuration if it can notify or indicate. -/
theorem configured_iff (c : CharSpec) :
    c.configured = true ↔ .notify ∈ c.props ∨ .indicate ∈ c.props := by
  have hbits := foldl_bits c.props 0
  have hprops : charProps c.props &&& (PROP_NOTIFY ||| PROP_INDICATE) = 0 ↔
      (c.props.foldl (fun props p => props ||| p.bit) 0) &&& (PROP_NOTIFY ||| PROP_INDICATE) = 0 := by
    unfold charProps
    dsimp only
    split_ifs with hzero
    · rw [hzero]
      decide
    · rfl
  rw [CharSpec.configured, bne_iff_ne, Ne, hprops, hbits]
  have hz : (0 : UInt8) &&& (PROP_NOTIFY ||| PROP_INDICATE) = 0 := by decide
  tauto

/-! ### Standard services -/

/-- The services that are added are standard ones, each at most once, and none that was there. -/
theorem foldl_addStd (us : List Uuid) (ss : List SvcSpec) (built : List ℤ) :
    ∃ added, (us.foldl addStd (ss, built)).1 = ss ++ added ∧
      (added.map fun s => s.uuid.u16).Nodup ∧
      ∀ s ∈ added, ∃ u, s.uuid.u16 = some u ∧ stdSvc u = some s.chars ∧ u ∉ built := by
  induction us generalizing ss built with
  | nil => exact ⟨[], by simp⟩
  | cons u us ih =>
    rw [List.foldl_cons]
    obtain ⟨same, hsame⟩ := ih ss built
    cases hu : u.u16 with
    | none =>
      rw [show addStd (ss, built) u = (ss, built) by simp only [addStd, hu]]
      exact ⟨same, hsame⟩
    | some u16 =>
    cases hstd : stdSvc u16 with
    | none =>
      rw [show addStd (ss, built) u = (ss, built) by simp only [addStd, hu, hstd]]
      exact ⟨same, hsame⟩
    | some chars =>
    by_cases hmem : u16 ∈ built
    · rw [show addStd (ss, built) u = (ss, built) by simp only [addStd, hu, hstd, if_pos hmem]]
      exact ⟨same, hsame⟩
    · rw [show addStd (ss, built) u = (ss ++ [⟨u, chars⟩], u16 :: built) by
        simp only [addStd, hu, hstd, if_neg hmem]]
      obtain ⟨added, heq, hnodup, hall⟩ := ih (ss ++ [⟨u, chars⟩]) (u16 :: built)
      refine ⟨⟨u, chars⟩ :: added, by rw [heq, List.append_assoc]; rfl, ?_, ?_⟩
      · -- what comes later is not the service that was just added
        refine List.nodup_cons.2 ⟨fun hin => ?_, hnodup⟩
        obtain ⟨s, hs, hsu⟩ := List.mem_map.1 hin
        obtain ⟨v, hv, -, hnew⟩ := hall s hs
        have hveq : v = u16 := Option.some.inj ((hv.symm.trans hsu).trans hu)
        exact hnew (hveq ▸ List.mem_cons_self)
      · intro s hs
        rcases List.mem_cons.1 hs with rfl | hs
        · exact ⟨u16, hu, hstd, hmem⟩
        · obtain ⟨v, hv, hchars, hnew⟩ := hall s hs
          exact ⟨v, hv, hchars, fun hin => hnew (List.mem_cons_of_mem _ hin)⟩

theorem specs_added (p : Profile) : ∃ added, specs p = p.gatt ++ added ∧
    (added.map fun s => s.uuid.u16).Nodup ∧
    ∀ s ∈ added, (∃ u, s.uuid.u16 = some u ∧ stdSvc u = some s.chars) ∧
      ∀ t ∈ p.gatt, t.uuid.u16 ≠ s.uuid.u16 := by
  obtain ⟨added, heq, hnodup, hall⟩ :=
    foldl_addStd p.serviceUuids p.gatt (p.gatt.filterMap fun s => s.uuid.u16)
  refine ⟨added, heq, hnodup, fun s hs => ?_⟩
  obtain ⟨u, hu, hchars, hnew⟩ := hall s hs
  refine ⟨⟨u, hu, hchars⟩, fun t ht htu => hnew ?_⟩
  exact List.mem_filterMap.2 ⟨t, ht, htu.trans hu⟩

/-! ### The layout -/

/-- The attributes of a characteristic are where they belong. -/
structure Site.Sound (g : Gatt) (x : Site) : Prop where
  /-- The characteristic is in a service, behind its declaration. -/
  inside : x.start < x.handle ∧ x.handle + 1 ≤ x.last ∧
    ∃ s ∈ g.services, s.start = x.start ∧ s.last = x.last
  /-- The declaration tells the handle of the value, which is the next one. -/
  decl : ∃ a ∈ g.db, a.handle = x.handle ∧ a.type = UUID_CHARACTERISTIC ∧
    ∃ v, a.value = some v ∧ u16At v 1 = x.handle + 1
  value : ∃ a ∈ g.db, a.handle = x.handle + 1 ∧ a.value = none
  /-- A client configuration follows if the characteristic can notify or indicate. -/
  cccd : (∃ a ∈ g.db, a.handle = x.handle + 2 ∧ a.type = UUID_CCCD) ↔
    .notify ∈ x.char.props ∨ .indicate ∈ x.char.props
  cccdInside : x.char.configured = true → x.handle + 2 ≤ x.last

/-- The database of a profile is well laid out. -/
structure LaidOut (p : Profile) (g : Gatt) : Prop where
  handles : g.db.map Attr.handle = List.range' 1 g.db.length
  /-- The ranges of the services follow each other and cover all handles. -/
  ranges : g.services.flatMap (fun s => List.range' s.start (s.last + 1 - s.start)) =
    List.range' 1 g.db.length
  starts : ∀ s ∈ g.services, s.start ≤ s.last ∧
    ∃ a ∈ g.db, a.handle = s.start ∧ a.type = UUID_PRIMARY_SVC ∧ a.value.isSome = true
  /-- The declarations are those of the characteristics of the profile. -/
  decls : (g.db.filter Attr.isDecl).map Attr.handle = (sites p).map Site.handle
  chars : ∀ x ∈ sites p, x.Sound g
  /-- `_val_uuid` has the values as its keys, and `_cccd` the client configurations. -/
  valKeys : (g.db.filter fun a => a.value.isNone).map Attr.handle = g.valUuid.map Prod.fst
  valUuid : ∀ e, e ∈ g.valUuid ↔ ∃ x ∈ sites p, e = (x.handle + 1, x.char.uuid.u16)
  cccdKeys : (g.db.filter Attr.isCccd).map Attr.handle = g.cccd.map Prod.fst
  cccd : ∀ e, e ∈ g.cccd ↔
    ∃ x ∈ sites p, x.char.configured = true ∧ e = (x.handle + 2, x.handle + 1)
  /-- Standard services are added once at most, and not beside one that the profile details. -/
  std : ∃ added, specs p = p.gatt ++ added ∧ (added.map fun s => s.uuid.u16).Nodup ∧
    ∀ s ∈ added, (∃ u, s.uuid.u16 = some u ∧ stdSvc u = some s.chars) ∧
      ∀ t ∈ p.gatt, t.uuid.u16 ≠ s.uuid.u16

section Layout

variable {p : Profile} {x : Site}

theorem site_unique {y : Site} (hx : x ∈ sites p) (hy : y ∈ sites p) (h : x.handle = y.handle) :
    x = y := by
  have hsub : ((sites p).map Site.handle).Sublist ((buildGatt p).db.map Attr.handle) := by
    rw [← map_handle_decls]
    exact List.filter_sublist.map _
  have hnodup : ((sites p).map Site.handle).Nodup := by
    refine List.Nodup.sublist hsub ?_
    rw [map_handle_db]
    exact List.nodup_range'
  exact List.inj_on_of_nodup_map hnodup hx hy h

theorem decl_mem (p : Profile) (su16 : Option ℤ) (k : ℕ) (c : CharSpec) :
    ⟨k, UUID_CHARACTERISTIC, some (charProps c.props :: le16 (k + 1 : ℕ) ++ uuidBytes p c.uuid),
      false⟩ ∈ charAttrs p su16 k c :=
  List.mem_append_left _ List.mem_cons_self

theorem value_mem (p : Profile) (su16 : Option ℤ) (k : ℕ) (c : CharSpec) :
    ⟨k + 1, c.uuid.u16.getD 0xFFFF, none, charSecure p su16⟩ ∈ charAttrs p su16 k c :=
  List.mem_append_left _ (List.mem_cons_of_mem _ List.mem_cons_self)

theorem cccd_mem (p : Profile) (su16 : Option ℤ) (k : ℕ) {c : CharSpec} (hc : c.configured = true) :
    ⟨k + 2, UUID_CCCD, some [0, 0], false⟩ ∈ charAttrs p su16 k c := by
  refine List.mem_append_right _ ?_
  rw [if_pos hc]
  exact List.mem_singleton.2 rfl

/-- What follows the value of a characteristic is a client configuration only if it is that of this
characteristic. -/
theorem configured_of_cccd (hx : x ∈ sites p) {a : Attr} (ha : a ∈ (buildGatt p).db)
    (hh : a.handle = x.handle + 2) (ht : a.type = UUID_CCCD) : x.char.configured = true := by
  rcases attr_cases ha with ⟨hsvc, -⟩ | ⟨y, hy, hay⟩
  · rw [hsvc] at ht
    exact absurd ht (by decide)
  · rcases mem_charAttrs hay with ⟨-, hdecl, -⟩ | ⟨hval, hnone⟩ | ⟨hcccd, -, -, hc⟩
    · rw [hdecl] at ht
      exact absurd ht (by decide)
    · -- the declaration of `y` would have the handle of the value of `x`
      have hd := site_attrs hy (decl_mem p y.su16 y.handle y.char)
      have hv := site_attrs hx (value_mem p x.su16 x.handle x.char)
      have heq := attr_unique p hd hv (show y.handle = x.handle + 1 by omega)
      have := congrArg Attr.value heq
      cases this
    · have hxy : x = y := site_unique hx hy (by omega)
      rw [hxy]
      exact hc

theorem site_sound (hN : (buildGatt p).db.length < 65535) (hx : x ∈ sites p) :
    x.Sound (buildGatt p) := by
  obtain ⟨hstart, hend, hsvc⟩ := site_inside hx
  have hd := site_attrs hx (decl_mem p x.su16 x.handle x.char)
  have hv := site_attrs hx (value_mem p x.su16 x.handle x.char)
  have hsize : 2 ≤ x.char.size ∧ (x.char.configured = true → x.char.size = 3) := by
    unfold CharSpec.size
    cases x.char.configured <;> simp
  -- the handles are at most the number of attributes
  have hbound : x.handle + 1 ≤ (buildGatt p).db.length := by
    have hmem : x.handle + 1 ∈ (buildGatt p).db.map Attr.handle := List.mem_map.2 ⟨_, hv, rfl⟩
    rw [map_handle_db, List.mem_range'_1] at hmem
    omega
  refine ⟨⟨hstart, by omega, hsvc⟩, ⟨_, hd, rfl, rfl, _, rfl, ?_⟩, ⟨_, hv, rfl, rfl⟩, ?_,
    fun hc => ?_⟩
  · rw [List.cons_append, u16At_cons, u16At_le16 (by omega)]
  · rw [← configured_iff]
    constructor
    · rintro ⟨a, ha, hh, ht⟩
      exact configured_of_cccd hx ha hh ht
    · intro hc
      exact ⟨_, site_attrs hx (cccd_mem p x.su16 x.handle hc), rfl, rfl⟩
  · have := hsize.2 hc
    omega

theorem services_ranges (p : Profile) :
    (buildGatt p).services.flatMap (fun s => List.range' s.start (s.last + 1 - s.start)) =
      List.range' 1 (buildGatt p).db.length := by
  rw [buildGatt_sited, List.flatMap_assoc, buildGatt_length, ← flatMap_range_located]
  refine List.flatMap_congr fun x _ => ?_
  have hpos := size_pos x.2
  have hlen : x.1 + x.2.size - 1 + 1 - x.1 = x.2.size := by omega
  rw [List.flatMap_singleton]
  show List.range' x.1 (x.1 + x.2.size - 1 + 1 - x.1) = _
  rw [hlen]

theorem services_starts {s : Service} (hs : s ∈ (buildGatt p).services) : s.start ≤ s.last ∧
    ∃ a ∈ (buildGatt p).db, a.handle = s.start ∧ a.type = UUID_PRIMARY_SVC ∧
      a.value.isSome = true := by
  rw [buildGatt_sited] at hs
  obtain ⟨x, hx, hs⟩ := List.mem_flatMap.1 hs
  rw [List.mem_singleton.1 hs]
  have hpos := size_pos x.2
  refine ⟨show x.1 ≤ x.1 + x.2.size - 1 by omega, ?_⟩
  refine ⟨⟨x.1, UUID_PRIMARY_SVC, some (uuidBytes p x.2.uuid), false⟩, ?_, rfl, rfl, rfl⟩
  rw [buildGatt_db]
  exact List.mem_flatMap.2 ⟨x, hx, List.mem_cons_self⟩

end Layout

/-- **The layout of the database.** -/
theorem gatt_layout (p : Profile) (hN : (buildGatt p).db.length < 65535) :
    LaidOut p (buildGatt p) where
  handles := map_handle_db p
  ranges := services_ranges p
  starts _ hs := services_starts hs
  decls := map_handle_decls p
  chars _ hx := site_sound hN hx
  valKeys := map_handle_values p
  valUuid _ := mem_valUuid p
  cccdKeys := map_handle_cccds p
  cccd _ := mem_cccd p
  std := specs_added p

theorem gatt_layout_tablet : LaidOut genericTablet (buildGatt genericTablet) :=
  gatt_layout genericTablet (by decide +kernel)

end Vbt.Fleet
