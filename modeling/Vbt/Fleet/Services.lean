import Vbt.Fleet.Att
import Vbt.Lib.Paging

/-!
# Simulated peripherals: discovery of the primary services

A client asks for the groups of type "primary service" from handle 1 on, and again from behind the
last group of each answer. An answer has entries of one length only. The server leaves out the
services with a UUID of the other width, but goes on to those behind them, and the client then skips
what was left out.

* `groupReq`, `decodeRsp`, `discover`: the client;
* `Ranged`: the handles of the services are in order;
* `discover_eq`: the client sees a sweep over the services;
* `discover_complete_iff`: it sees all of them exactly if no service stands between two with a UUID
  of the other width.
-/

namespace Vbt.Fleet

open Paging

/-! ### The client -/

/-- The last handle there can be. -/
def HANDLE_MAX : ℕ := 0xFFFF

/-- Read By Group Type for primary services, from a handle to the end. -/
def groupReq (start : ℕ) : List UInt8 :=
  ATT_READ_BY_GROUP_REQ :: (le16 start ++ le16 HANDLE_MAX ++ le16 UUID_PRIMARY_SVC)

/-- The first `k` pieces of length `n`. -/
def chunksOf (n : ℕ) : ℕ → List UInt8 → List (List UInt8)
  | 0, _ => []
  | k + 1, l => l.take n :: chunksOf n k (l.drop n)

/-- The group of an entry. -/
def decodeGroup (entry : List UInt8) : Group := ⟨u16At entry 0, u16At entry 2, entry.drop 4⟩

/-- The groups of a response. -/
def decodeRsp : List UInt8 → Option (List Group)
  | rsp :: each :: data =>
    if rsp = ATT_READ_BY_GROUP_RSP then
      some ((chunksOf each.toNat (data.length / each.toNat) data).map decodeGroup)
    else none
  | _ => none

/-- What a client learns from one answer. -/
inductive Answer
  /-- There is nothing from the handle on. -/
  | done
  | groups (gs : List Group)
  /-- Any other answer. -/
  | failed

/-- The answer to a request. -/
def ask (gen : Gen) (d : Device) (start : ℕ) : Answer :=
  let rsp := (handleAtt gen d (groupReq start)).2
  if rsp = attError ATT_READ_BY_GROUP_REQ start ERR_ATTR_NOT_FOUND then .done
  else
    match decodeRsp rsp with
    | none => .failed
    | some gs => .groups gs

/-- The client: the groups it has seen from a handle on when it is told that there are no more. It
asks at most `n` times. -/
def discover (server : ℕ → Answer) : ℕ → ℕ → Option (List Group)
  | 0, _ => none
  | n + 1, start =>
    match server start with
    | .done => some []
    | .failed => none
    | .groups gs =>
      match gs.getLast? with
      | none => none
      | some g => (discover server n (g.last + 1)).map (gs ++ ·)

/-! ### Entries on the wire -/

section Wire

theorem u16At_cons (b : UInt8) (l : List UInt8) (i : ℕ) : u16At (b :: l) (i + 1) = u16At l i := rfl

theorem u16At_le16 {v : ℕ} (h : v < 65536) (r : List UInt8) : u16At (le16 v ++ r) 0 = v := by
  have hv : ((v : ℤ) % 65536).toNat = v := by omega
  show (byteAt ((v : ℤ) % 65536).toNat 0).toNat + 256 * (byteAt ((v : ℤ) % 65536).toNat 1).toNat = v
  rw [hv, byteAt_toNat, byteAt_toNat]
  norm_num
  omega

theorem u16At_le16_append (v : ℤ) (r : List UInt8) (i : ℕ) :
    u16At (le16 v ++ r) (i + 2) = u16At r i :=
  rfl

/-- The entry of a group. -/
def Group.entry (g : Group) : List UInt8 := le16 g.start ++ le16 g.last ++ g.uuid

theorem Group.length_entry (g : Group) : g.entry.length = 4 + g.uuid.length := by
  simp only [Group.entry, le16, List.length_append, List.length_cons, List.length_nil]

theorem decodeGroup_entry {g : Group} (hs : g.start < 65536) (hl : g.last < 65536) :
    decodeGroup g.entry = g := by
  have hstart : u16At g.entry 0 = g.start := by
    rw [Group.entry, List.append_assoc, u16At_le16 hs]
  have hlast : u16At g.entry 2 = g.last := by
    rw [Group.entry, List.append_assoc, u16At_le16_append, u16At_le16 hl]
  rw [decodeGroup, hstart, hlast]
  rfl

theorem chunksOf_flatten {n : ℕ} {l : List (List UInt8)} (h : ∀ e ∈ l, e.length = n) :
    chunksOf n l.length l.flatten = l := by
  induction l with
  | nil => rfl
  | cons e l ih =>
    have he : e.length = n := h e List.mem_cons_self
    rw [List.length_cons, chunksOf, List.flatten_cons, List.take_left' he, List.drop_left' he,
      ih fun x hx => h x (List.mem_cons_of_mem e hx)]

/-- A response is read back as the groups it was made of. -/
theorem decodeRsp_entries {n : ℕ} (hn : n < 256) (hpos : 0 < n) {gs : List Group}
    (hlen : ∀ g ∈ gs, g.entry.length = n) (hh : ∀ g ∈ gs, g.start < 65536 ∧ g.last < 65536) :
    decodeRsp ([ATT_READ_BY_GROUP_RSP, .ofNat n] ++ (gs.map Group.entry).flatten) = some gs := by
  have heach : (UInt8.ofNat n).toNat = n := by
    rw [UInt8.toNat_ofNat']
    omega
  have hall : ∀ e ∈ gs.map Group.entry, e.length = n := by
    intro e he
    obtain ⟨g, hg, rfl⟩ := List.mem_map.1 he
    exact hlen g hg
  have hcount : (gs.map Group.entry).flatten.length / n = (gs.map Group.entry).length := by
    rw [length_flatten_eq hall, Nat.mul_div_cancel _ hpos]
  simp only [decodeRsp, List.cons_append, List.nil_append, if_true, heach, hcount,
    chunksOf_flatten hall, List.map_map]
  refine congrArg some ((List.map_congr_left fun g hg => ?_).trans (List.map_id gs))
  exact decodeGroup_entry (hh g hg).1 (hh g hg).2

end Wire

/-! ### Services in order -/

/-- The number of bytes of the UUID of a service. -/
def SvcSpec.width (s : SvcSpec) : ℕ := if s.uuid.u16.isSome then 2 else 16

/-- Services one behind the other, within the handles. -/
structure Ranged (gs : List Group) : Prop where
  order : gs.Pairwise fun a b => a.last < b.start
  start_le : ∀ g ∈ gs, g.start ≤ g.last
  last_lt : ∀ g ∈ gs, g.last < HANDLE_MAX
  width : ∀ g ∈ gs, g.uuid.length = 2 ∨ g.uuid.length = 16

section Groups

variable (p : Profile)

theorem length_uuid128 (name : List UInt8) : (uuid128 p name).length = 16 := by
  simp [uuid128, List.range_succ]

theorem length_uuidBytes (s : SvcSpec) : (uuidBytes p s.uuid).length = s.width := by
  unfold uuidBytes SvcSpec.width
  cases s.uuid.u16 with
  | some u16 => rfl
  | none => exact length_uuid128 p s.uuid.name

theorem groups_width (h : ℕ) (ss : List SvcSpec) :
    (groups p h ss).map (fun g => g.uuid.length) = ss.map SvcSpec.width := by
  induction ss generalizing h with
  | nil => rfl
  | cons s ss ih => rw [groups, List.map_cons, ih, List.map_cons, length_uuidBytes]

theorem size_pos (s : SvcSpec) : 0 < s.size := by
  unfold SvcSpec.size
  omega

theorem groups_bounds {h : ℕ} {ss : List SvcSpec} {g : Group} (hg : g ∈ groups p h ss) :
    h ≤ g.start ∧ g.start ≤ g.last ∧ g.last < h + (ss.map SvcSpec.size).sum := by
  induction ss generalizing h with
  | nil => cases hg
  | cons s ss ih =>
    have hpos := size_pos s
    rw [List.map_cons, List.sum_cons]
    rcases List.mem_cons.1 hg with rfl | hg
    · dsimp only
      omega
    · obtain ⟨h₁, h₂, h₃⟩ := ih hg
      omega

theorem groups_order (h : ℕ) (ss : List SvcSpec) :
    (groups p h ss).Pairwise fun a b => a.last < b.start := by
  induction ss generalizing h with
  | nil => exact List.Pairwise.nil
  | cons s ss ih =>
    refine List.Pairwise.cons (fun g hg => ?_) (ih _)
    have hpos := size_pos s
    have hstart := (groups_bounds p hg).1
    dsimp only
    omega

theorem groups_ranged {ss : List SvcSpec} (h : (ss.map SvcSpec.size).sum < HANDLE_MAX) :
    Ranged (groups p 1 ss) where
  order := groups_order p 1 ss
  start_le g hg := (groups_bounds p hg).2.1
  last_lt g hg := by
    have := (groups_bounds p hg).2.2
    omega
  width g hg := by
    have hmem : g.uuid.length ∈ (groups p 1 ss).map fun g => g.uuid.length :=
      List.mem_map.2 ⟨g, hg, rfl⟩
    rw [groups_width] at hmem
    obtain ⟨s, -, hs⟩ := List.mem_map.1 hmem
    rw [← hs, SvcSpec.width]
    split_ifs <;> simp

end Groups

/-! ### The client and the server -/

section Rounds

variable {gen : Gen} {d : Device} {start : ℕ}

theorem handle_lt {n : ℕ} (h : n ≤ HANDLE_MAX) : n < 65536 := Nat.lt_succ_of_le h

theorem u16At_groupReq (h : start ≤ HANDLE_MAX) :
    u16At (groupReq start) 1 = start ∧ u16At (groupReq start) 3 = HANDLE_MAX ∧
      (u16At (groupReq start) 5 : ℤ) = UUID_PRIMARY_SVC := by
  refine ⟨?_, ?_, ?_⟩
  · rw [groupReq, u16At_cons, List.append_assoc, u16At_le16 (handle_lt h)]
  · rw [groupReq, u16At_cons, List.append_assoc, u16At_le16_append, u16At_le16 (handle_lt le_rfl)]
  · rw [groupReq, u16At_cons, List.append_assoc, u16At_le16_append, u16At_le16_append]
    decide

/-- The groups from a handle on. -/
def Device.groupsFrom (d : Device) (start : ℕ) : List Group :=
  (d.services.map Service.group).filter fun g => start ≤ g.start

/-- The answer to a request has the groups from the handle on. -/
theorem handleAtt_groupReq (h : start ≤ HANDLE_MAX) (hr : Ranged (d.services.map Service.group)) :
    (handleAtt gen d (groupReq start)).2 =
      listRsp ATT_READ_BY_GROUP_REQ ATT_READ_BY_GROUP_RSP start
        ((d.groupsFrom start).map Group.entry) := by
  obtain ⟨h₁, h₃, h₅⟩ := u16At_groupReq h
  have hreq : (handleAtt gen d (groupReq start)).2 = readByGroup d (u16At (groupReq start) 1)
      (u16At (groupReq start) 3) (u16At (groupReq start) 5) := by
    rw [groupReq, handleAtt_readByGroup gen d (le_refl 6)]
  have hentries : (d.servicesIn start HANDLE_MAX).map (fun s => s.group.entry) =
      (d.groupsFrom start).map Group.entry := by
    rw [Device.servicesIn, Device.groupsFrom, List.filter_map, List.map_map]
    refine congrArg (List.map _) (List.filter_congr fun s hs => ?_)
    have hmem : s.group ∈ d.services.map Service.group := List.mem_map.2 ⟨s, hs, rfl⟩
    have h₁ : s.start ≤ s.last := hr.start_le _ hmem
    have h₂ : s.last < HANDLE_MAX := hr.last_lt _ hmem
    have hiff : (¬(s.start < start ∨ HANDLE_MAX < s.start)) ↔ start ≤ s.start := by omega
    exact decide_eq_decide.2 hiff
  rw [hreq, h₁, h₃, readByGroup, if_neg (not_not.2 h₅), ← hentries]
  rfl

theorem listRsp_ne_attError {op rsp : UInt8} (hrsp : rsp ≠ ATT_ERROR) (e : List UInt8)
    (es : List (List UInt8)) (err : UInt8) :
    listRsp op rsp start (e :: es) ≠ attError op start err := by
  rw [listRsp_cons]
  intro heq
  injection heq with heq
  exact hrsp heq

theorem ask_done (h : start ≤ HANDLE_MAX) (hr : Ranged (d.services.map Service.group))
    (hnil : d.groupsFrom start = []) : ask gen d start = .done := by
  have hrsp : (handleAtt gen d (groupReq start)).2 =
      attError ATT_READ_BY_GROUP_REQ start ERR_ATTR_NOT_FOUND := by
    rw [handleAtt_groupReq h hr, hnil, List.map_nil, listRsp_nil]
  unfold ask
  dsimp only
  rw [if_pos hrsp]

/-- One answer: the groups with a UUID as wide as the first one's. -/
theorem ask_groups (h : start ≤ HANDLE_MAX) (hr : Ranged (d.services.map Service.group))
    {a : Group} {l : List Group} (hcons : d.groupsFrom start = a :: l) :
    ask gen d start = .groups ((a :: l).filter fun g => g.uuid.length = a.uuid.length) := by
  generalize hgs : (a :: l).filter (fun g => g.uuid.length = a.uuid.length) = gs
  have hrsp := @handleAtt_groupReq gen d start h hr
  rw [hcons, List.map_cons] at hrsp
  have hne : listRsp ATT_READ_BY_GROUP_REQ ATT_READ_BY_GROUP_RSP start
      (a.entry :: l.map Group.entry) ≠ attError ATT_READ_BY_GROUP_REQ start ERR_ATTR_NOT_FOUND :=
    listRsp_ne_attError (by decide) _ _ _
  have hfilter : ((a.entry :: l.map Group.entry).filter fun x => x.length = a.entry.length) =
      gs.map Group.entry := by
    rw [← hgs, ← List.map_cons, List.filter_map]
    refine congrArg (List.map _) (List.filter_congr fun x _ => ?_)
    simp only [Function.comp, Group.length_entry, Nat.add_left_cancel_iff]
  have hmem : ∀ g ∈ gs, g ∈ d.services.map Service.group ∧ g.uuid.length = a.uuid.length := by
    intro g hg
    rw [← hgs, ← hcons] at hg
    obtain ⟨hg, hw⟩ := List.mem_filter.1 hg
    exact ⟨(List.mem_filter.1 hg).1, by simpa using hw⟩
  have hdec : decodeRsp (listRsp ATT_READ_BY_GROUP_REQ ATT_READ_BY_GROUP_RSP start
      (a.entry :: l.map Group.entry)) = some gs := by
    have hmema : a ∈ d.groupsFrom start := hcons ▸ List.mem_cons_self
    have hw := hr.width a (List.mem_filter.1 hmema).1
    have ha := a.length_entry
    rw [listRsp_cons, hfilter]
    refine decodeRsp_entries (by omega) (by omega) (fun g hg => ?_) fun g hg => ?_
    · rw [Group.length_entry, (hmem g hg).2, ha]
    · have h₁ := hr.start_le g (hmem g hg).1
      have h₂ := hr.last_lt g (hmem g hg).1
      exact ⟨handle_lt (by omega), handle_lt h₂.le⟩
  rw [← hrsp] at hne hdec
  unfold ask
  dsimp only
  rw [if_neg hne, hdec]

end Rounds

/-! ### All rounds -/

section Discover

variable {server : ℕ → Answer} {start n : ℕ}

theorem discover_done (h : server start = .done) : discover server (n + 1) start = some [] := by
  rw [discover, h]

theorem discover_groups {gs : List Group} {g : Group} (h : server start = .groups gs)
    (hg : gs.getLast? = some g) :
    discover server (n + 1) start = (discover server n (g.last + 1)).map (gs ++ ·) := by
  rw [discover, h]
  dsimp only
  rw [hg]

/-- More patience does not change what the client has seen. -/
theorem discover_succ {gs : List Group} (h : discover server n start = some gs) :
    discover server (n + 1) start = some gs := by
  induction n generalizing start gs with
  | zero => cases h
  | succ n ih =>
    cases hask : server start with
    | done =>
      rw [discover_done hask] at h ⊢
      exact h
    | failed =>
      rw [discover, hask] at h
      cases h
    | groups gs' =>
      cases hlast : gs'.getLast? with
      | none =>
        rw [discover, hask] at h
        dsimp only at h
        rw [hlast] at h
        cases h
      | some g =>
        rw [discover_groups hask hlast] at h ⊢
        obtain ⟨rest, hrest, hgs⟩ := Option.map_eq_some_iff.1 h
        rw [ih hrest, Option.map_some, hgs]

theorem discover_le {m : ℕ} (hle : n ≤ m) {gs : List Group}
    (h : discover server n start = some gs) :
    discover server m start = some gs := by
  induction m, hle using Nat.le_induction with
  | base => exact h
  | succ m _ ih => exact discover_succ ih

/-- The last group of the answer is the last one with a UUID of its width. -/
theorem getLast_answer {a : Group} {l : List Group} :
    ∃ g, ((a :: l).filter fun g => g.uuid.length = a.uuid.length).getLast? = some g ∧
      (upTo (fun g : Group => g.uuid.length) a.uuid.length (a :: l)).getLast? = some g := by
  have hne := upTo_ne_nil (fun g : Group => g.uuid.length) (a := a) (l := l)
  have hlast := kind_getLast_upTo hne
  refine ⟨_, ?_, List.getLast?_eq_some_getLast hne⟩
  rw [filter_eq_filter_upTo fun g : Group => g.uuid.length]
  conv_lhs => rw [← List.dropLast_append_getLast hne]
  rw [List.filter_append, List.filter_singleton, decide_eq_true hlast, cond_true]
  exact List.getLast?_concat

end Discover

section Sweep

variable {gen : Gen} {d : Device}

theorem groupsFrom_eq {start : ℕ} {pre post : List Group}
    (hall : d.services.map Service.group = pre ++ post) (hpre : ∀ g ∈ pre, g.start < start)
    (hpost : ∀ g ∈ post, start ≤ g.start) : d.groupsFrom start = post := by
  have h₁ : pre.filter (fun g => start ≤ g.start) = [] :=
    List.filter_eq_nil_iff.2 fun g hg => by simpa using hpre g hg
  have h₂ : post.filter (fun g => start ≤ g.start) = post :=
    List.filter_eq_self.2 fun g hg => by simpa using hpost g hg
  rw [Device.groupsFrom, hall, List.filter_append, h₁, h₂, List.nil_append]

/-- **The client sees a sweep** over the services from the handle on. -/
theorem discover_eq (hr : Ranged (d.services.map Service.group)) {n start : ℕ}
    {pre post : List Group} (hstart : start ≤ HANDLE_MAX)
    (hall : d.services.map Service.group = pre ++ post) (hpre : ∀ g ∈ pre, g.start < start)
    (hpost : ∀ g ∈ post, start ≤ g.start) (hn : post.length ≤ n) :
    discover (ask gen d) (n + 1) start = some (sweep (fun g => g.uuid.length) n post) := by
  induction n generalizing start pre post with
  | zero =>
    obtain rfl := List.eq_nil_of_length_eq_zero (Nat.le_zero.1 hn)
    exact discover_done (ask_done hstart hr (groupsFrom_eq hall hpre hpost))
  | succ n ih =>
    have hfrom := groupsFrom_eq hall hpre hpost
    cases post with
    | nil => exact discover_done (ask_done hstart hr hfrom)
    | cons a l =>
      obtain ⟨g, hlast, hup⟩ := getLast_answer (a := a) (l := l)
      have hsplit := upTo_append_beyond (fun g : Group => g.uuid.length) a.uuid.length
        (a :: l)
      have hshort := length_beyond_lt (fun g : Group => g.uuid.length) (a := a) (l := l)
      generalize hfr : upTo (fun g : Group => g.uuid.length) a.uuid.length (a :: l) = front at hup hsplit
      generalize hbe : beyond (fun g : Group => g.uuid.length) a.uuid.length (a :: l) = rest
        at hsplit hshort
      obtain ⟨init, rfl⟩ : ∃ init, front = init ++ [g] := List.getLast?_eq_some_iff.1 hup
      -- the next request starts behind `g`, and the services in front of it are done with
      have hall' : d.services.map Service.group = (pre ++ (init ++ [g])) ++ rest := by
        rw [hall, ← hsplit]
        simp only [List.append_assoc]
      have horder := hr.order
      rw [hall', List.pairwise_append, List.pairwise_append] at horder
      obtain ⟨⟨-, hfront, -⟩, -, hrest⟩ := horder
      have hmem : ∀ x, x ∈ pre ++ (init ++ [g]) → x ∈ d.services.map Service.group := fun x hx => by
        rw [hall']
        exact List.mem_append_left _ hx
      have hg : g ∈ pre ++ (init ++ [g]) := by simp
      have hgl := hr.last_lt g (hmem g hg)
      have hgs := hr.start_le g (hmem g hg)
      have hgstart : start ≤ g.start := hpost g (by rw [← hsplit]; simp)
      rw [discover_groups (ask_groups hstart hr hfrom) hlast, ih hgl hall' ?_ ?_ (by omega), sweep,
        hbe]
      · rfl
      · intro x hx
        rcases List.mem_append.1 hx with hx' | hx'
        · have := hpre x hx'
          omega
        · rcases List.mem_append.1 hx' with hx' | hx'
          · have h₁ := (List.pairwise_append.1 hfront).2.2 x hx' g (List.mem_singleton_self g)
            have h₂ := hr.start_le x (hmem x hx)
            omega
          · rw [List.mem_singleton.1 hx']
            omega
      · exact fun x hx => hrest g hg x hx

/-- The client is told at last that there are no more services. -/
theorem discover_device {p : Profile} (h : (buildGatt p).db.length < HANDLE_MAX) :
    discover (ask gen (device p)) ((specs p).length + 1) 1 =
      some (sweep (fun g => g.uuid.length) (specs p).length (groups p 1 (specs p))) := by
  have hall : (device p).services.map Service.group = [] ++ groups p 1 (specs p) :=
    buildGatt_services p
  rw [buildGatt_length] at h
  have hr := groups_ranged p h
  refine discover_eq (by rwa [hall, List.nil_append]) (by decide) hall (fun g hg => ?_)
    (fun g hg => (groups_bounds p hg).1) ?_
  · cases hg
  · have hlen := congrArg List.length (groups_width p 1 (specs p))
    rw [List.length_map, List.length_map] at hlen
    exact hlen.le

end Sweep

/-- **Discovery of the primary services.** The client always comes to an end, and it has seen every
service once, in order, with its handles and its UUID, exactly if no service stands between two with
a UUID of the other width. -/
theorem discover_complete_iff (gen : Gen) (p : Profile) (h : (buildGatt p).db.length < 65535) :
    (∃ n gs, discover (ask gen (device p)) n 1 = some gs) ∧
      ((∃ n, discover (ask gen (device p)) n 1 = some (groups p 1 (specs p))) ↔
        Clustered ((specs p).map SvcSpec.width)) := by
  have hdev := @discover_device gen p h
  have hlen := congrArg List.length (groups_width p 1 (specs p))
  rw [List.length_map, List.length_map] at hlen
  have hiff := sweep_eq_self_iff (fun g : Group => g.uuid.length) hlen.le
  rw [groups_width] at hiff
  refine ⟨⟨_, _, hdev⟩, ?_⟩
  rw [← hiff]
  constructor
  · rintro ⟨n, hn⟩
    have h₁ := discover_le (Nat.le_max_left n ((specs p).length + 1)) hn
    have h₂ := discover_le (Nat.le_max_right n ((specs p).length + 1)) hdev
    rw [h₁] at h₂
    exact (Option.some.inj h₂).symm
  · exact fun hs => ⟨_, hdev.trans (congrArg some hs)⟩

theorem discover_complete_tablet :
    (buildGatt genericTablet).db.length < 65535 ∧
      ∃ n, discover (ask (fun _ => [0]) (device genericTablet)) n 1 =
        some (groups genericTablet 1 (specs genericTablet)) := by
  have hlt : (buildGatt genericTablet).db.length < 65535 := by decide +kernel
  exact ⟨hlt, (discover_complete_iff (fun _ => [0]) genericTablet hlt).2.2 (by decide +kernel)⟩

/-- The profile `generic_smart_plug` of the catalog. The vendor's service, with a UUID of 128 bits,
stands between services with UUIDs of 16 bits. -/
def genericSmartPlug : Profile where
  id := "generic_smart_plug".toUTF8.toList
  gatt :=
    [⟨⟨some 0x1815, []⟩, [⟨⟨some 0x2A56, []⟩, [.read, .write, .notify]⟩]⟩,
      ⟨⟨none, "<vendor-128>".toUTF8.toList⟩,
        [⟨⟨none, "<vendor-128>".toUTF8.toList⟩, [.read, .notify]⟩]⟩]
  serviceUuids := [⟨some 0x1800, []⟩, ⟨some 0x1801, []⟩, ⟨some 0x180A, []⟩, ⟨some 0x1815, []⟩,
    ⟨none, "<vendor 128-bit>".toUTF8.toList⟩]
  minLevel := 1

/-- The service of the vendor is never seen. -/
theorem vendor_service_unseen :
    (buildGatt genericSmartPlug).db.length < 65535 ∧
      ¬∃ n, discover (ask (fun _ => [0]) (device genericSmartPlug)) n 1 =
        some (groups genericSmartPlug 1 (specs genericSmartPlug)) := by
  refine ⟨by decide +kernel, ?_⟩
  rintro ⟨n, hn⟩
  have htwo : discover (ask (fun _ => [0]) (device genericSmartPlug)) 2 1 =
      some ((groups genericSmartPlug 1 (specs genericSmartPlug)).filter
        fun g => g.uuid.length = 2) := by
    decide +kernel
  have h₁ := discover_le (Nat.le_max_left n 2) hn
  have h₂ := discover_le (Nat.le_max_right n 2) htwo
  rw [h₁] at h₂
  revert h₂
  decide +kernel

end Vbt.Fleet
