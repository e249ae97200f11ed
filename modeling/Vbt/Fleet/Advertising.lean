import Vbt.Fleet.Gatt

/-!
# Simulated peripherals: advertising payloads

An advertising payload is a sequence of AD structures, each a length byte, a type and data.
`pack_ads` distributes them over the advertisement and the scan response, which hold 31 bytes each;
`parse_adv_data` of `medium_dump.py` walks such a sequence.

* `AdStruct`, `ad`, `packAds`; `adLoop`, `parseAdvData`;
* `Turn`, `turns`: the structures in the order in which `pack_ads` looks at them, with the state
  before and after; `Turn.bin`: where a structure goes;
* `pack_ads_decodable`: the walk finds what was placed;
* `overflow_spilled_iff`: nothing is lost silently exactly if the primary structures fit together.
-/

namespace Vbt.Fleet

/-! ### AD structures -/

/-- An AD structure. `bytes([len(data) + 1, t])` raises an exception for more than 254 bytes. -/
structure AdStruct where
  type : UInt8
  data : List UInt8
  short : data.length ≤ 254

/-- `ad`. -/
def ad (a : AdStruct) : List UInt8 := [.ofNat (a.data.length + 1), a.type] ++ a.data

@[simp] theorem length_ad (a : AdStruct) : (ad a).length = a.data.length + 2 := rfl

/-! ### Packing -/

/-- The room of an advertisement or a scan response. -/
def AD_BUDGET : ℕ := 31

/-- The local variables of `pack_ads`. -/
structure Packing where
  adv : List UInt8 := []
  rsp : List UInt8 := []
  dropped : ℕ := 0

/-- The body of the loop of `pack_ads` over the primary structures. -/
def placePrimary (p : Packing) (a : List UInt8) : Packing :=
  if p.adv.length + a.length ≤ AD_BUDGET then { p with adv := p.adv ++ a } else p

/-- The body of the loop of `pack_ads` over the extra structures. -/
def placeExtra (scannable : Bool) (p : Packing) (a : List UInt8) : Packing :=
  if p.adv.length + a.length ≤ AD_BUDGET then { p with adv := p.adv ++ a }
  else if scannable ∧ p.rsp.length + a.length ≤ AD_BUDGET then { p with rsp := p.rsp ++ a }
  else { p with dropped := p.dropped + 1 }

/-- `pack_ads`. -/
def packAds (primary extra : List (List UInt8)) (scannable : Bool) : Packing :=
  extra.foldl (placeExtra scannable) (primary.foldl placePrimary {})

/-! ### Walking -/

/-- The loop of `parse_adv_data`: the structures found from position `i` on, and the position at
which the loop ends. -/
def adLoop (ad : List UInt8) (i : ℕ) : List (UInt8 × List UInt8) × ℕ :=
  if h : i + 1 < ad.length then
    let ln := ad[i].toNat
    if ln = 0 ∨ ad.length < i + 1 + ln then ([], i)
    else
      let r := adLoop ad (i + 1 + ln)
      ((ad[i + 1], (ad.drop (i + 2)).take (ln - 1)) :: r.1, r.2)
  else ([], i)
termination_by ad.length - i

/-- What `parse_adv_data` prints of a structure. -/
inductive AdText
  | name (short : Bool) (utf8 : List UInt8)
  | flags (b : UInt8)
  | uuids (more : Bool) (uuids : List ℕ)
  | txPower (dbm : Int8)
  | hex (type : UInt8) (val : List UInt8)

/-- The 16-bit numbers in a list of bytes. -/
def uuids16 : List UInt8 → List ℕ
  | lo :: hi :: rest => (lo.toNat + 256 * hi.toNat) :: uuids16 rest
  | _ => []

/-- The body of the loop of `parse_adv_data`. -/
def adText (t : UInt8) (val : List UInt8) : AdText :=
  if t = 0x08 ∨ t = 0x09 then .name (t = 0x08) val
  else if t = 0x01 ∧ val ≠ [] then .flags (val.headD 0)
  else if (t = 0x02 ∨ t = 0x03) ∧ 2 ≤ val.length then .uuids (t = 0x02) (uuids16 val)
  else if t = 0x0A ∧ val ≠ [] then .txPower (val.headD 0).toInt8
  else .hex t val

/-- `parse_adv_data`, up to the spaces between the texts. -/
def parseAdvData (ad : List UInt8) : List AdText := (adLoop ad 0).1.map fun s => adText s.1 s.2

/-- The type and the data of a structure. -/
def AdStruct.pair (a : AdStruct) : UInt8 × List UInt8 := (a.type, a.data)

/-- One structure is read, and the loop goes on behind it. -/
theorem adLoop_ad (pre post : List UInt8) (a : AdStruct) :
    adLoop (pre ++ (ad a ++ post)) pre.length =
      (a.pair :: (adLoop (pre ++ (ad a ++ post)) (pre.length + (ad a).length)).1,
        (adLoop (pre ++ (ad a ++ post)) (pre.length + (ad a).length)).2) := by
  have hlen : (UInt8.ofNat (a.data.length + 1)).toNat = a.data.length + 1 := by
    have := a.short
    rw [UInt8.toNat_ofNat']
    omega
  have htotal : (pre ++ (ad a ++ post)).length = pre.length + 2 + a.data.length + post.length := by
    simp only [List.length_append, length_ad]
    omega
  have hstart : pre.length + 1 < (pre ++ (ad a ++ post)).length := by omega
  have hfirst : (pre ++ (ad a ++ post))[pre.length] = .ofNat (a.data.length + 1) := by
    simp [List.getElem_append_right, ad]
  have hsecond : (pre ++ (ad a ++ post))[pre.length + 1] = a.type := by
    simp [List.getElem_append_right, ad]
  have hrest : (pre ++ (ad a ++ post)).drop (pre.length + 2) = a.data ++ post := by
    rw [List.drop_append, List.drop_eq_nil_of_le (by omega), Nat.add_sub_cancel_left]
    rfl
  have hinside : ¬ (a.data.length + 1 = 0 ∨
      (pre ++ (ad a ++ post)).length < pre.length + 1 + (a.data.length + 1)) := by omega
  conv_lhs => rw [adLoop]
  simp only [dif_pos hstart, hfirst, hsecond, hrest, hlen, if_neg hinside, Nat.add_sub_cancel,
    List.take_left, length_ad]
  rw [show pre.length + 1 + (a.data.length + 1) = pre.length + (a.data.length + 2) by omega]
  rfl

/-- A sequence of structures is read back, and every byte of it is visited. -/
theorem adLoop_flatMap (pre : List UInt8) (l : List AdStruct) :
    adLoop (pre ++ l.flatMap ad) pre.length =
      (l.map AdStruct.pair, (pre ++ l.flatMap ad).length) := by
  induction l generalizing pre with
  | nil =>
    rw [adLoop, dif_neg (by simp)]
    simp
  | cons a l ih =>
    have hnext := ih (pre ++ ad a)
    rw [List.append_assoc, List.length_append] at hnext
    rw [List.flatMap_cons, adLoop_ad, hnext]
    rfl

/-! ### Turns -/

/-- `pack_ads` looks at a structure: its variables before and after. -/
structure Turn where
  struct : AdStruct
  before : Packing
  after : Packing

/-- Where a structure goes. -/
inductive Bin
  | adv
  | rsp
  | none
  deriving DecidableEq, Repr

/-- The variable that has changed. -/
def Turn.bin (t : Turn) : Bin :=
  if t.after.adv ≠ t.before.adv then .adv else if t.after.rsp ≠ t.before.rsp then .rsp else .none

/-- The turns of a loop. -/
def turnsOf (place : Packing → List UInt8 → Packing) : Packing → List AdStruct → List Turn
  | _, [] => []
  | p, a :: l => ⟨a, p, place p (ad a)⟩ :: turnsOf place (place p (ad a)) l

/-- The turns of `pack_ads`. -/
def turns (primary extra : List AdStruct) (scannable : Bool) : List Turn :=
  turnsOf placePrimary {} primary ++
    turnsOf (placeExtra scannable) ((primary.map ad).foldl placePrimary {}) extra

/-- The structures that go to a bin, in their order. -/
def placed (b : Bin) (ts : List Turn) : List AdStruct :=
  (ts.filter fun t => t.bin = b).map Turn.struct

theorem map_struct_turnsOf (place : Packing → List UInt8 → Packing) (p : Packing)
    (l : List AdStruct) :
    (turnsOf place p l).map Turn.struct = l := by
  induction l generalizing p with
  | nil => rfl
  | cons a l ih => exact congrArg (a :: ·) (ih _)

theorem map_struct_turns (primary extra : List AdStruct) (scannable : Bool) :
    (turns primary extra scannable).map Turn.struct = primary ++ extra := by
  rw [turns, List.map_append, map_struct_turnsOf, map_struct_turnsOf]

theorem placed_append (b : Bin) (ts ts' : List Turn) :
    placed b (ts ++ ts') = placed b ts ++ placed b ts' := by
  rw [placed, List.filter_append, List.map_append]
  rfl

/-- What the body of a loop of `pack_ads` can do with a structure. -/
inductive Places (p : Packing) (a : List UInt8) : Packing → Prop
  | adv (h : p.adv.length + a.length ≤ AD_BUDGET) : Places p a { p with adv := p.adv ++ a }
  | rsp (h : p.rsp.length + a.length ≤ AD_BUDGET) : Places p a { p with rsp := p.rsp ++ a }
  | none (n : ℕ) : Places p a { p with dropped := n }

theorem placePrimary_places (p : Packing) (a : List UInt8) : Places p a (placePrimary p a) := by
  unfold placePrimary
  split_ifs with h
  · exact .adv h
  · exact .none p.dropped

theorem placeExtra_places (scannable : Bool) (p : Packing) (a : List UInt8) :
    Places p a (placeExtra scannable p a) := by
  unfold placeExtra
  split_ifs with h h'
  · exact .adv h
  · exact .rsp h'.2
  · exact .none _

/-- The bytes in a bin. -/
def Packing.get (p : Packing) : Bin → List UInt8
  | .adv => p.adv
  | .rsp => p.rsp
  | .none => []

theorem append_ad_ne (l : List UInt8) (a : AdStruct) : l ++ ad a ≠ l := by
  intro h
  have hlen := congrArg List.length h
  rw [List.length_append, length_ad] at hlen
  omega

theorem bin_adv (a : AdStruct) (p : Packing) :
    (Turn.mk a p { p with adv := p.adv ++ ad a }).bin = .adv :=
  if_pos (append_ad_ne p.adv a)

theorem bin_rsp (a : AdStruct) (p : Packing) :
    (Turn.mk a p { p with rsp := p.rsp ++ ad a }).bin = .rsp := by
  unfold Turn.bin
  rw [if_neg (not_not.2 rfl), if_pos (append_ad_ne p.rsp a)]

theorem bin_none (a : AdStruct) (p : Packing) (n : ℕ) :
    (Turn.mk a p { p with dropped := n }).bin = .none := by
  unfold Turn.bin
  rw [if_neg (not_not.2 rfl), if_neg (not_not.2 rfl)]

/-- A bin gets the structure that goes to it, and nothing else. -/
theorem Places.get {p p' : Packing} {a : AdStruct} (h : Places p (ad a) p') {b : Bin}
    (hb : b ≠ .none) :
    p'.get b = p.get b ++ if (Turn.mk a p p').bin = b then ad a else [] := by
  cases h with
  | adv =>
    rw [bin_adv]
    cases b with
    | adv => rfl
    | rsp => exact (List.append_nil _).symm
    | none => exact absurd rfl hb
  | rsp =>
    rw [bin_rsp]
    cases b with
    | adv => exact (List.append_nil _).symm
    | rsp => rfl
    | none => exact absurd rfl hb
  | none n =>
    rw [bin_none, if_neg hb.symm, List.append_nil]
    cases b <;> rfl

theorem placed_cons (b : Bin) (t : Turn) (ts : List Turn) :
    placed b (t :: ts) = (if t.bin = b then [t.struct] else []) ++ placed b ts := by
  unfold placed
  rw [List.filter_cons]
  split_ifs <;> simp_all

/-- After a loop, a bin holds the structures that went to it. -/
theorem get_foldl {place : Packing → List UInt8 → Packing} (hplace : ∀ p a, Places p a (place p a))
    (p : Packing) (l : List AdStruct) {b : Bin} (hb : b ≠ .none) :
    ((l.map ad).foldl place p).get b = p.get b ++ (placed b (turnsOf place p l)).flatMap ad := by
  induction l generalizing p with
  | nil => exact (List.append_nil _).symm
  | cons a l ih =>
    rw [List.map_cons, List.foldl_cons, ih, (hplace p (ad a)).get hb, turnsOf, placed_cons,
      List.flatMap_append, List.append_assoc]
    split_ifs
    · rw [List.flatMap_singleton]
    · rfl

theorem get_packAds (primary extra : List AdStruct) (scannable : Bool) {b : Bin} (hb : b ≠ .none) :
    (packAds (primary.map ad) (extra.map ad) scannable).get b =
      (placed b (turns primary extra scannable)).flatMap ad := by
  have hstart : ({} : Packing).get b = [] := by
    cases b <;> rfl
  rw [packAds, get_foldl (placeExtra_places scannable) _ _ hb, get_foldl placePrimary_places _ _ hb,
    hstart, turns, placed_append, List.flatMap_append]
  rfl

/-- The bins hold at most 31 bytes. -/
def Packing.Bounded (p : Packing) : Prop := p.adv.length ≤ AD_BUDGET ∧ p.rsp.length ≤ AD_BUDGET

theorem Places.bounded {p p' : Packing} {a : List UInt8} (h : Places p a p') (hp : p.Bounded) :
    p'.Bounded := by
  cases h with
  | adv h => exact ⟨by rw [List.length_append]; exact h, hp.2⟩
  | rsp h => exact ⟨hp.1, by rw [List.length_append]; exact h⟩
  | none n => exact hp

theorem packAds_bounded (primary extra : List (List UInt8)) (scannable : Bool) :
    (packAds primary extra scannable).Bounded := by
  have hprimary : (primary.foldl placePrimary {}).Bounded :=
    List.foldlRecOn (motive := Packing.Bounded) primary placePrimary ⟨by decide, by decide⟩
      fun p hp a _ => (placePrimary_places p a).bounded hp
  exact List.foldlRecOn (motive := Packing.Bounded) extra (placeExtra scannable) hprimary
    fun p hp a _ => (placeExtra_places scannable p a).bounded hp

theorem rsp_packAds_of_not_scannable (primary extra : List (List UInt8)) :
    (packAds primary extra false).rsp = [] := by
  have hprimary : (primary.foldl placePrimary {}).rsp = [] := by
    refine List.foldlRecOn (motive := fun p => p.rsp = []) primary placePrimary
      (show ({} : Packing).rsp = [] from rfl) fun p hp a _ => ?_
    unfold placePrimary
    split_ifs <;> exact hp
  refine List.foldlRecOn (motive := fun p => p.rsp = []) extra (placeExtra false) hprimary
    fun p hp a _ => ?_
  unfold placeExtra
  split_ifs with h h'
  · exact hp
  · exact absurd h'.1 (by decide)
  · exact hp

theorem placed_sublist (b : Bin) (primary extra : List AdStruct) (scannable : Bool) :
    (placed b (turns primary extra scannable)).Sublist (primary ++ extra) := by
  rw [← map_struct_turns primary extra scannable]
  exact List.filter_sublist.map Turn.struct

/-- **The walk over an advertisement or a scan response finds the structures that were placed there,
in their order, and ends at its last byte.** Every structure has one turn, so none is placed
twice. -/
theorem pack_ads_decodable (primary extra : List AdStruct) (scannable : Bool) :
    let p := packAds (primary.map ad) (extra.map ad) scannable
    let ts := turns primary extra scannable
    p.adv.length ≤ 31 ∧ p.rsp.length ≤ 31 ∧ (scannable = false → p.rsp = []) ∧
      ts.map Turn.struct = primary ++ extra ∧
      (placed .adv ts).Sublist (primary ++ extra) ∧ (placed .rsp ts).Sublist (primary ++ extra) ∧
      adLoop p.adv 0 = ((placed .adv ts).map AdStruct.pair, p.adv.length) ∧
      adLoop p.rsp 0 = ((placed .rsp ts).map AdStruct.pair, p.rsp.length) := by
  intro p ts
  have hbound := packAds_bounded (primary.map ad) (extra.map ad) scannable
  have hadv : p.adv = (placed .adv ts).flatMap ad :=
    get_packAds primary extra scannable (b := .adv) (by decide)
  have hrsp : p.rsp = (placed .rsp ts).flatMap ad :=
    get_packAds primary extra scannable (b := .rsp) (by decide)
  refine ⟨hbound.1, hbound.2, fun h => ?_, map_struct_turns primary extra scannable,
    placed_sublist .adv primary extra scannable, placed_sublist .rsp primary extra scannable, ?_,
      ?_⟩
  · subst h
    exact rsp_packAds_of_not_scannable _ _
  · rw [hadv]
    exact adLoop_flatMap [] _
  · rw [hrsp]
    exact adLoop_flatMap [] _

/-! ### Overflow -/

/-- Every structure is placed or counted as dropped, and if the device is scannable, only a
structure that fits into neither bin at its turn is placed nowhere. -/
def Spilled (primary extra : List AdStruct) (scannable : Bool) : Prop :=
  let ts := turns primary extra scannable
  (placed .adv ts).length + (placed .rsp ts).length +
      (packAds (primary.map ad) (extra.map ad) scannable).dropped = primary.length + extra.length ∧
    (scannable = true → ∀ t ∈ ts, t.bin = .none →
      AD_BUDGET < t.before.adv.length + (ad t.struct).length ∧
        AD_BUDGET < t.before.rsp.length + (ad t.struct).length)

theorem length_placed (ts : List Turn) :
    (placed .adv ts).length + (placed .rsp ts).length + (placed .none ts).length = ts.length := by
  induction ts with
  | nil => rfl
  | cons t ts ih =>
    rw [placed_cons, placed_cons, placed_cons]
    cases t.bin <;> simp <;> omega

theorem after_of_mem {place : Packing → List UInt8 → Packing} {p : Packing} {l : List AdStruct}
    {t : Turn}
    (h : t ∈ turnsOf place p l) : t.after = place t.before (ad t.struct) := by
  induction l generalizing p with
  | nil => cases h
  | cons a l ih =>
    rcases List.mem_cons.1 h with rfl | h
    · rfl
    · exact ih h

theorem dropped_foldl_placePrimary (p : Packing) (l : List (List UInt8)) :
    (l.foldl placePrimary p).dropped = p.dropped := by
  refine List.foldlRecOn (motive := fun q => q.dropped = p.dropped) l placePrimary rfl
    fun q hq a _ => ?_
  unfold placePrimary
  split_ifs <;> exact hq

/-- The loop over the extra structures counts those that are placed nowhere. -/
theorem dropped_foldl_placeExtra (scannable : Bool) (p : Packing) (l : List AdStruct) :
    ((l.map ad).foldl (placeExtra scannable) p).dropped =
      p.dropped + (placed .none (turnsOf (placeExtra scannable) p l)).length := by
  induction l generalizing p with
  | nil => rfl
  | cons a l ih =>
    have hone : (placeExtra scannable p (ad a)).dropped = p.dropped +
        (if (Turn.mk a p (placeExtra scannable p (ad a))).bin = .none then [a] else []).length := by
      by_cases hadv : p.adv.length + (ad a).length ≤ AD_BUDGET
      · rw [show placeExtra scannable p (ad a) = _ from if_pos hadv, bin_adv]
        rfl
      · by_cases hrsp : scannable ∧ p.rsp.length + (ad a).length ≤ AD_BUDGET
        · rw [show placeExtra scannable p (ad a) = _ from (if_neg hadv).trans (if_pos hrsp),
            bin_rsp]
          rfl
        · rw [show placeExtra scannable p (ad a) = _ from (if_neg hadv).trans (if_neg hrsp),
            bin_none]
          rfl
    rw [List.map_cons, List.foldl_cons, ih, hone, turnsOf, placed_cons, List.length_append,
      Nat.add_assoc]

/-- The loop over the primary structures places them all exactly if they fit together. -/
theorem placed_none_primary_iff {p : Packing} (hp : p.adv.length ≤ AD_BUDGET) (l : List AdStruct) :
    placed .none (turnsOf placePrimary p l) = [] ↔
      p.adv.length + (l.map fun a => (ad a).length).sum ≤ AD_BUDGET := by
  induction l generalizing p with
  | nil => exact iff_of_true rfl hp
  | cons a l ih =>
    rw [turnsOf, placed_cons, List.map_cons, List.sum_cons]
    by_cases hfit : p.adv.length + (ad a).length ≤ AD_BUDGET
    · have hplace : placePrimary p (ad a) = { p with adv := p.adv ++ ad a } := if_pos hfit
      have hlen : ({ p with adv := p.adv ++ ad a } : Packing).adv.length =
          p.adv.length + (ad a).length := List.length_append
      rw [hplace, bin_adv, if_neg (by decide), List.nil_append, ih (hlen ▸ hfit), hlen,
        Nat.add_assoc]
    · have hplace : placePrimary p (ad a) = p := if_neg hfit
      rw [hplace, if_pos (bin_none a p p.dropped)]
      exact iff_of_false (by simp) (by omega)

/-- A structure that the second loop places nowhere fits into neither bin. -/
theorem lost_extra {p : Packing} {l : List AdStruct} {t : Turn}
    (h : t ∈ turnsOf (placeExtra true) p l)
    (hbin : t.bin = .none) : AD_BUDGET < t.before.adv.length + (ad t.struct).length ∧
      AD_BUDGET < t.before.rsp.length + (ad t.struct).length := by
  have hafter := after_of_mem h
  obtain ⟨a, before, after⟩ := t
  unfold placeExtra at hafter
  dsimp only at hafter ⊢
  split_ifs at hafter with hadv hrsp
  · rw [hafter, bin_adv] at hbin
    cases hbin
  · rw [hafter, bin_rsp] at hbin
    cases hbin
  · rw [not_and] at hrsp
    exact ⟨Nat.not_le.1 hadv, Nat.not_le.1 (hrsp rfl)⟩

/-- **No structure is lost silently exactly if the primary structures fit into the advertisement
together.** -/
theorem overflow_spilled_iff (primary extra : List AdStruct) (scannable : Bool) :
    Spilled primary extra scannable ↔ (primary.map fun a => (ad a).length).sum ≤ 31 := by
  have hlost : placed .none (turnsOf placePrimary {} primary) = [] ↔
      (primary.map fun a => (ad a).length).sum ≤ 31 := by
    rw [placed_none_primary_iff (by decide), show ({} : Packing).adv.length = 0 from rfl,
      Nat.zero_add]
    rfl
  -- what the count misses are the primary structures that are placed nowhere
  have hcount := length_placed (turns primary extra scannable)
  have htotal : (turns primary extra scannable).length = primary.length + extra.length := by
    rw [← List.length_map Turn.struct, map_struct_turns, List.length_append]
  have hdropped : (packAds (primary.map ad) (extra.map ad) scannable).dropped +
      (placed .none (turnsOf placePrimary {} primary)).length =
      (placed .none (turns primary extra scannable)).length := by
    rw [packAds, dropped_foldl_placeExtra, dropped_foldl_placePrimary, turns, placed_append,
      List.length_append, show ({} : Packing).dropped = 0 from rfl]
    omega
  rw [← hlost, ← List.length_eq_zero_iff]
  constructor
  · rintro ⟨hall, -⟩
    omega
  · intro hnone
    refine ⟨by omega, fun hscan t ht hbin => ?_⟩
    subst hscan
    rcases List.mem_append.1 ht with ht | ht
    · have hmem : t.struct ∈ placed .none (turnsOf placePrimary {} primary) :=
        List.mem_map.2 ⟨t, List.mem_filter.2 ⟨ht, decide_eq_true hbin⟩, rfl⟩
      rw [List.length_eq_zero_iff.1 hnone] at hmem
      cases hmem
    · exact lost_extra ht hbin

/-- An iBeacon that also advertises a service: flags, manufacturer data, a list of one UUID. -/
def beacon : List AdStruct :=
  [⟨0x01, [0x04], by decide⟩, ⟨0xFF, List.replicate 25 0, by decide⟩, ⟨0x03, [0x0F, 0x18],
    by decide⟩]

/-- The list of UUIDs does not fit behind the manufacturer data. It would fit into the scan
response, which stays empty, and it is not counted. -/
theorem primary_lost : let p := packAds (beacon.map ad) [] true
    p.adv.length = 30 ∧ p.rsp = [] ∧ p.dropped = 0 ∧ ¬ Spilled beacon [] true := by
  refine ⟨by decide, by decide, by decide, fun h => ?_⟩
  have hcount := h.1
  revert hcount
  decide

end Vbt.Fleet
