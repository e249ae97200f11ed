import Vbt.Fleet.Layout
import Vbt.Fleet.Secrecy

/-!
# Simulated peripherals: subscriptions and stored configurations

A client configuration is kept twice: its value is in the database, and its handle is in
`subscriptions` if it enables notifications or indications. A write changes both. A connection that
is made or ends forgets the subscriptions, but leaves the values.

* `after`: the peripheral after some events;
* `Enabled`: a Read tells that the configuration is enabled; `Matches`: exactly those are
  subscribed;
* `Configured`: the invariant of the database;
* `exec_matches_iff`: one event; `Reset`, `subscriptions_match_iff`: any run.
-/

namespace Vbt.Fleet

/-! ### What is stored -/

/-- The peripheral after some events; `ms` are the moments of the events. -/
def after (ms : ℕ → Moment) (x : Peripheral) : List Op → Peripheral
  | [] => x
  | op :: ops => after (fun i => ms (i + 1)) (exec (ms 0) x op).1 ops

/-- A Read of the handle returns a value with bit 0 or bit 1 of its first byte set. -/
def Enabled (gen : Gen) (d : Device) (h : ℕ) : Prop :=
  ∃ v, d.readAttr gen h = .ok v ∧ v.headD 0 &&& 0x03 ≠ 0

/-- The configurations that are subscribed are those that are stored as enabled. -/
def Matches (gen : Gen) (d : Device) : Prop :=
  ∀ h ∈ d.cccd.map Prod.fst, h ∈ d.subscriptions ↔ Enabled gen d h

/-- The handles are distinct, and every client configuration has an attribute that may be read. -/
structure Configured (d : Device) : Prop where
  handles : (d.db.map Attr.handle).Nodup
  cccd : ∀ h ∈ d.cccd.map Prod.fst, ∃ a ∈ d.db, a.handle = h ∧ a.type = UUID_CCCD ∧
    a.secure = false ∧ a.value.isSome = true

section Stored

variable {d : Device} {gen : Gen}

theorem map_handle_configure (d : Device) (h : ℕ) (val : List UInt8) :
    (d.configure h val).map Attr.handle = d.db.map Attr.handle := by
  rw [Device.configure, List.map_map]
  refine List.map_congr_left fun a _ => ?_
  simp only [Function.comp_apply]
  split_ifs <;> rfl

theorem Configured.device (p : Profile) : Configured (device p) := by
  refine ⟨?_, fun h hh => ?_⟩
  · rw [show (Fleet.device p).db = (buildGatt p).db from rfl, map_handle_db]
    exact List.nodup_range'
  · obtain ⟨e, he, rfl⟩ := List.mem_map.1 hh
    obtain ⟨x, hx, hc, rfl⟩ := (mem_cccd p).1 he
    exact ⟨_, site_attrs hx (cccd_mem p x.su16 x.handle hc), rfl, rfl, rfl, rfl⟩

theorem Configured.written (hd : Configured d) (h : ℕ) (val : List UInt8) :
    Configured (d.written h val) := by
  refine ⟨?_, fun k hk => ?_⟩
  · show ((d.configure h val).map Attr.handle).Nodup
    rw [map_handle_configure]
    exact hd.handles
  · obtain ⟨a, ha, hak, ht, hs, hv⟩ := hd.cccd k hk
    refine ⟨_, List.mem_map.2 ⟨a, ha, rfl⟩, ?_⟩
    split_ifs
    · exact ⟨hak, ht, hs, rfl⟩
    · exact ⟨hak, ht, hs, hv⟩

theorem Configured.exec {x : Peripheral} (hd : Configured x.dev) (m : Moment) (op : Op) :
    Configured (exec m x op).1.dev := by
  rcases exec_cases m x op with ⟨-, heq⟩ | ⟨-, heq⟩ | ⟨-, h, val, -, heq⟩
  · rw [heq]
    exact hd
  · rw [heq]
    exact ⟨hd.handles, hd.cccd⟩
  · rw [heq]
    exact hd.written h val

/-- A Read finds the attribute of the handle. -/
theorem readAttr_of_mem (hd : Configured d) {a : Attr} (ha : a ∈ d.db) (hs : a.secure = false) :
    d.readAttr gen a.handle = .ok (d.valueOf gen a) := by
  have hfind : d.db.find? (fun b => b.handle = a.handle) = some a := by
    cases hf : d.db.find? fun b => b.handle = a.handle with
    | none => exact absurd (decide_eq_true rfl) (List.find?_eq_none.1 hf a ha)
    | some b =>
      have hb : b.handle = a.handle := by simpa using List.find?_some hf
      rw [List.inj_on_of_nodup_map hd.handles (List.mem_of_find?_eq_some hf) ha hb]
  exact (readAttr_eq_ok_iff gen d a.handle _).2 ⟨a, hfind, hs, rfl⟩

theorem enabled_iff (hd : Configured d) {a : Attr} (ha : a ∈ d.db) (hs : a.secure = false)
    {v : List UInt8} (hv : a.value = some v) :
    Enabled gen d a.handle ↔ v.headD 0 &&& 0x03 ≠ 0 := by
  have hread : d.readAttr gen a.handle = .ok v := by
    rw [readAttr_of_mem hd ha hs, Device.valueOf, hv]
    rfl
  constructor
  · rintro ⟨w, hw, hbits⟩
    rw [hread] at hw
    cases hw
    exact hbits
  · exact fun hbits => ⟨v, hread, hbits⟩

/-! ### Writes -/

theorem headD_stored (val : List UInt8) : ((val ++ [0, 0]).take 2).headD 0 = val.headD 0 := by
  cases val <;> rfl

theorem mem_subscribe_self (d : Device) (h : ℕ) (val : List UInt8) :
    h ∈ d.subscribe h val ↔ val.headD 0 &&& 0x03 ≠ 0 := by
  unfold Device.subscribe
  split_ifs with hbits hmem
  · exact iff_of_true hmem hbits
  · exact iff_of_true List.mem_cons_self hbits
  · exact iff_of_false (by simp) hbits

theorem mem_subscribe_ne {h k : ℕ} (hk : k ≠ h) (val : List UInt8) :
    k ∈ d.subscribe h val ↔ k ∈ d.subscriptions := by
  unfold Device.subscribe
  split_ifs with hbits hmem
  · rfl
  · rw [List.mem_cons, or_iff_right hk]
  · rw [List.mem_filter, decide_eq_true_eq, and_iff_left hk]

/-- A write changes the value and the subscription together. -/
theorem Matches.written (hm : Matches gen d) (hd : Configured d) (h : ℕ) (val : List UInt8) :
    Matches gen (d.written h val) := by
  intro k hk
  obtain ⟨a, ha, rfl, ht, hs, hv⟩ := hd.cccd k hk
  obtain ⟨v, hv⟩ := Option.isSome_iff_exists.1 hv
  have hold := hm a.handle hk
  rw [enabled_iff hd ha hs hv] at hold
  by_cases hah : a.handle = h
  · -- the configuration that is written
    have hmem : { a with value := some ((val ++ [0, 0]).take 2) } ∈ (d.written h val).db :=
      List.mem_map.2 ⟨a, ha, if_pos ⟨hah, ht⟩⟩
    have hnew : Enabled gen (d.written h val) a.handle ↔ val.headD 0 &&& 0x03 ≠ 0 := by
      rw [← headD_stored val]
      exact enabled_iff (hd.written h val) hmem hs rfl
    refine Iff.trans ?_ hnew.symm
    rw [hah]
    exact mem_subscribe_self d h val
  · have hmem : a ∈ (d.written h val).db :=
      List.mem_map.2 ⟨a, ha, if_neg fun hc => hah hc.1⟩
    exact ((mem_subscribe_ne hah val).trans hold).trans
      (enabled_iff (hd.written h val) hmem hs hv).symm

/-! ### One event -/

/-- **An event keeps the match, unless it forgets the subscriptions while one is stored.** -/
theorem exec_matches_iff {x : Peripheral} (hd : Configured x.dev) (hm : Matches gen x.dev)
    (m : Moment) (op : Op) : Matches gen (exec m x op).1.dev ↔
      (Clears x.dev op → ∀ h ∈ x.dev.cccd.map Prod.fst, ¬Enabled gen x.dev h) := by
  rcases exec_cases m x op with ⟨hc, heq⟩ | ⟨hc, heq⟩ | ⟨hc, h, val, -, heq⟩
  · rw [heq]
    exact iff_of_true hm fun h => absurd h hc
  · -- the values in the database stay, and nothing is subscribed
    rw [heq]
    constructor
    · intro hnew _ h hh hen
      exact List.not_mem_nil ((hnew h hh).2 hen)
    · intro hnone h hh
      exact iff_of_false List.not_mem_nil (hnone hc h hh)
  · rw [heq]
    exact iff_of_true (hm.written hd h val) fun h => absurd h hc

end Stored

/-! ### Runs -/

/-- Whenever a connection is made or ends in a run, no stored configuration is enabled. -/
def Reset (ms : ℕ → Moment) (gen : Gen) (x : Peripheral) : List Op → Prop
  | [] => True
  | op :: ops => (Clears x.dev op → ∀ h ∈ x.dev.cccd.map Prod.fst, ¬Enabled gen x.dev h) ∧
      Reset (fun i => ms (i + 1)) gen (exec (ms 0) x op).1 ops

theorem Matches.device (gen : Gen) (p : Profile) : Matches gen (device p) := by
  intro h hh
  obtain ⟨e, he, rfl⟩ := List.mem_map.1 hh
  obtain ⟨x, hx, hc, rfl⟩ := (mem_cccd p).1 he
  have hmem := site_attrs hx (cccd_mem p x.su16 x.handle hc)
  refine iff_of_false List.not_mem_nil fun hen => ?_
  exact (enabled_iff (Configured.device p) hmem rfl rfl).1 hen rfl

/-- The match along a run, by induction on the events. -/
theorem matches_run_iff {gen : Gen} {x : Peripheral} (hd : Configured x.dev)
    (hm : Matches gen x.dev) (ms : ℕ → Moment) (ops : List Op) :
    (∀ pre, pre <+: ops → Matches gen (after ms x pre).dev) ↔ Reset ms gen x ops := by
  induction ops generalizing x ms with
  | nil =>
    refine iff_of_true (fun pre hpre => ?_) trivial
    rw [List.prefix_nil.1 hpre]
    exact hm
  | cons op ops ih =>
    have hstep := exec_matches_iff hd hm (ms 0) op
    constructor
    · intro h
      have hop := h [op] (List.prefix_append [op] ops)
      refine ⟨hstep.1 hop, (ih (hd.exec (ms 0) op) hop _).1 fun pre hpre => ?_⟩
      exact h (op :: pre) ((List.prefix_cons_inj op).2 hpre)
    · rintro ⟨hop, hops⟩ pre hpre
      cases pre with
      | nil => exact hm
      | cons o pre =>
        obtain ⟨rfl, htail⟩ := List.cons_prefix_cons.1 hpre
        exact (ih (hd.exec (ms 0) o) (hstep.2 hop) _).2 hops pre htail

/-- **Subscriptions.** The subscriptions of a peripheral match the stored configurations all along a
run, exactly if no configuration is stored as enabled when a connection is made or ends. -/
theorem subscriptions_match_iff (p : Profile) (ms : ℕ → Moment) (gen : Gen) (ops : List Op) :
    (∀ pre, pre <+: ops → Matches gen (after ms ⟨device p, 1⟩ pre).dev) ↔
      Reset ms gen ⟨device p, 1⟩ ops :=
  matches_run_iff (.device p) (.device gen p) ms ops

/-- A client subscribes to the battery level, leaves and comes back. -/
def returning : List Op :=
  [.connect, .att (ATT_WRITE_REQ :: (le16 4 ++ [1, 0])), .tick 1, .terminate, .connect,
    .att (ATT_READ_REQ :: le16 4), .tick 2]

/-- The configuration is still stored as enabled for the next connection, but notifications are not
sent any more. -/
theorem subscription_forgotten :
    ¬Matches (fun _ => [50])
      (after (fun _ => { gen := fun _ => [50] }) ⟨device genericTablet, 1⟩ (returning.take 4)).dev ∧
    transcript (fun _ => { gen := fun _ => [50] }) ⟨device genericTablet, 1⟩ returning =
      [[], [[ATT_WRITE_RSP]], [[ATT_HANDLE_VALUE_NTF, 3, 0, 50]], [], [],
        [[ATT_READ_RSP, 1, 0]], []] := by
  refine ⟨fun h => ?_, by decide +kernel⟩
  have hen := (h 4 (by decide +kernel)).2 ⟨[1, 0], by rfl, by decide⟩
  exact absurd hen (by decide +kernel)

end Vbt.Fleet
