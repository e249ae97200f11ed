import Vbt.Fleet.Att

/-!
# Simulated peripherals: protected characteristics

A characteristic of a device that requires encryption is `secure`, and a Read of it is refused. Two
runs of one device differ in the generated values of secure characteristics only: what the client is
sent should be the same. Read By Type and notifications do not look at the flag, and the heart rate
decides when notifications are due.

* `Profile.Open`: a UUID that a value which may be read is generated from; `Agree`: two moments
  agree on these, and on the heart rate if its characteristic is one of them;
* `transcript`: all that is sent in a run;
* `dueAfter`: when notifications may be due, for all that is not secret;
* `Exposes`: a request by type, or a notification, for a value that is secret, or a notification
  that is due or not as a secret value says. `Guarded`: a run without any;
* `Derived`: the invariant of the database;
* `exec_agree`, `exec_exposes`: one event; `transcript_secret_iff`: any run.
-/

namespace Vbt.Fleet

/-! ### Two runs -/

/-- A value that may be read is generated from the UUID. -/
def Profile.Open (p : Profile) (u : ℤ) : Prop :=
  ∃ a ∈ (device p).db, a.secure = false ∧ a.value = none ∧ (device p).uuidOf a.handle = some u

/-- The generated values differ in secure characteristics only. -/
def Agree (p : Profile) (m m' : Moment) : Prop :=
  (∀ u, p.Open u → m'.gen u = m.gen u) ∧ (p.Open 0x2A37 → m'.hrBpm = m.hrBpm)

theorem Agree.refl (p : Profile) (m : Moment) : Agree p m m := ⟨fun _ _ => rfl, fun _ => rfl⟩

theorem Agree.euclid {p : Profile} {m m₁ m₂ : Moment} (h₁ : Agree p m m₁) (h₂ : Agree p m m₂) :
    Agree p m₁ m₂ :=
  ⟨fun u hu => (h₂.1 u hu).trans (h₁.1 u hu).symm, fun hu => (h₂.2 hu).trans (h₁.2 hu).symm⟩

/-- What is sent at each event of a run; `ms` are the moments of the events. -/
def transcript (ms : ℕ → Moment) (x : Peripheral) : List Op → List (List (List UInt8))
  | [] => []
  | op :: ops =>
    (exec (ms 0) x op).2 :: transcript (fun i => ms (i + 1)) (exec (ms 0) x op).1 ops

/-- The value of the handle is generated from a UUID that secure characteristics only have. -/
def Secret (p : Profile) (d : Device) (h : ℕ) : Prop := ∃ u, d.uuidOf h = some u ∧ ¬p.Open u

/-- The times at which notifications may be due after an event, in the runs that differ in secret
values, if they may be due at the times `due` before it. -/
def dueAfter (p : Profile) (m : Moment) (d : Device) (due : Set ℚ) (op : Op) : Set ℚ :=
  {t | ∃ t₀ ∈ due, ∃ m', Agree p m m' ∧ (exec m' ⟨d, t₀⟩ op).1.nextNotify = t}

/-- A secret value is asked for by its type, the client is notified of one, or a secret value
decides whether it is notified. -/
def Exposes (p : Profile) (d : Device) (due : Set ℚ) : Op → Prop
  | .att req => d.connected = true ∧ req.head? = some ATT_READ_BY_TYPE_REQ ∧ 7 ≤ req.length ∧
      ∃ a ∈ d.attrsIn (u16At req 1) (u16At req 3) (u16At req 5), a.value = none ∧
        Secret p d a.handle
  | .tick now => d.connected = true ∧ (∃ t ∈ due, t ≤ now) ∧ ∃ h ∈ d.notifyHandles,
      Secret p d h ∨ ∃ t ∈ due, now < t
  | .connect | .terminate => False

/-- No event of a run exposes a secret value. -/
def Guarded (p : Profile) (ms : ℕ → Moment) (d : Device) (due : Set ℚ) : List Op → Prop
  | [] => True
  | op :: ops => ¬Exposes p d due op ∧ Guarded p (fun i => ms (i + 1))
      (exec (ms 0) ⟨d, 0⟩ op).1.dev (dueAfter p (ms 0) d due op) ops

/-- What an event leaves of the device depends neither on the values nor on the time. -/
theorem exec_dev (m m' : Moment) (d : Device) (t t' : ℚ) (op : Op) :
    (exec m' ⟨d, t'⟩ op).1.dev = (exec m ⟨d, t⟩ op).1.dev := by
  cases op with
  | connect | terminate =>
    simp only [exec]
    split_ifs <;> rfl
  | att req =>
    simp only [exec]
    split_ifs
    · exact handleAtt_fst m.gen d m'.gen req
    · rfl
  | tick now => rw [dev_tick, dev_tick]

theorem exec_eq (m m' : Moment) (d : Device) (t : ℚ) (op : Op) : (exec m' ⟨d, t⟩ op).1 =
    ⟨(exec m ⟨d, 0⟩ op).1.dev, (exec m' ⟨d, t⟩ op).1.nextNotify⟩ := by
  rw [← exec_dev m m' d 0 t op]

/-! ### The database -/

/-- The values that are generated are those of the profile's database. -/
structure Derived (p : Profile) (d : Device) : Prop where
  valUuid : d.valUuid = (device p).valUuid
  db : ∀ a ∈ d.db, a.value = none → a ∈ (device p).db

section Derived

variable {p : Profile} {d : Device}

theorem Derived.device (p : Profile) : Derived p (device p) := ⟨rfl, fun _ h _ => h⟩

theorem Derived.written (h : Derived p d) (handle : ℕ) (val : List UInt8) :
    Derived p (d.written handle val) := by
  refine ⟨h.valUuid, fun a ha hv => ?_⟩
  obtain ⟨b, hb, hab⟩ := List.mem_map.1 ha
  split_ifs at hab
  · -- a value that was written is not generated any more
    rw [← hab] at hv
    cases hv
  · rw [← hab] at hv ⊢
    exact h.db b hb hv

theorem Derived.exec {x : Peripheral} (h : Derived p x.dev) (m : Moment) (op : Op) :
    Derived p (exec m x op).1.dev := by
  rcases exec_cases m x op with ⟨-, heq⟩ | ⟨-, heq⟩ | ⟨-, handle, val, -, heq⟩
  · rw [heq]
    exact h
  · rw [heq]
    exact ⟨h.valUuid, h.db⟩
  · rw [heq]
    exact h.written handle val

end Derived

/-! ### One event -/

section Event

variable {p : Profile} {d : Device} {m m' : Moment}

/-- A value that is not secret is the same. -/
theorem charValue_agree (hg : Agree p m m') {h : ℕ} (hs : ¬Secret p d h) :
    d.charValue m'.gen h = d.charValue m.gen h := by
  unfold Device.charValue
  cases hu : d.uuidOf h with
  | none => rfl
  | some u => exact hg.1 u (not_not.1 fun ho => hs ⟨u, hu, ho⟩)

theorem valueOf_agree (hg : Agree p m m') {a : Attr}
    (hs : ¬(a.value = none ∧ Secret p d a.handle)) : d.valueOf m'.gen a = d.valueOf m.gen a := by
  unfold Device.valueOf
  cases hv : a.value with
  | some v => rfl
  | none => exact charValue_agree hg fun h => hs ⟨hv, h⟩

/-- A Read is refused, or the value is not secret. -/
theorem readAttr_agree (hd : Derived p d) (hg : Agree p m m') (h : ℕ) :
    d.readAttr m'.gen h = d.readAttr m.gen h := by
  unfold Device.readAttr
  cases hf : d.db.find? fun a => a.handle = h with
  | none => rfl
  | some a =>
    dsimp only
    split_ifs with hsec
    · rfl
    · refine congrArg Except.ok (valueOf_agree hg ?_)
      rintro ⟨hv, u, hu, hopen⟩
      refine hopen ⟨a, hd.db a (List.mem_of_find?_eq_some hf) hv, by simpa using hsec, hv, ?_⟩
      rw [Device.uuidOf, ← hd.valUuid]
      exact hu

/-- **What does not expose a secret value does not depend on one.** -/
theorem exec_agree (hd : Derived p d) (hg : Agree p m m') {due : Set ℚ} {op : Op}
    (h : ¬Exposes p d due op) {t t' : ℚ} (ht : t ∈ due) (ht' : t' ∈ due) :
    (exec m' ⟨d, t'⟩ op).2 = (exec m ⟨d, t⟩ op).2 := by
  cases op with
  | connect => rfl
  | terminate => rfl
  | tick now =>
    -- if anything is subscribed, it is due in both runs or in neither
    have hdue : d.connected = true → d.notifyHandles ≠ [] → (t' ≤ now ↔ t ≤ now) := by
      intro hc hne
      obtain ⟨vh, hvh⟩ := List.exists_mem_of_ne_nil _ hne
      by_contra hiff
      rcases not_iff.1 hiff with hiff
      by_cases hle : t ≤ now
      · exact h ⟨hc, ⟨t, ht, hle⟩, vh, hvh, .inr ⟨t', ht', not_le.1 fun hle' => hiff.2 hle hle'⟩⟩
      · exact h ⟨hc, ⟨t', ht', not_not.1 fun hle' => hle (hiff.1 hle')⟩, vh, hvh,
          .inr ⟨t, ht, not_le.1 hle⟩⟩
    simp only [exec, notifications]
    by_cases hnil : d.notifyHandles = []
    · rw [hnil]
      split_ifs <;> rfl
    · by_cases hc : d.connected = true
      · simp only [hc, true_and, hdue hc hnil]
        split_ifs with hle
        · refine List.map_congr_left fun vh hvh => ?_
          rw [charValue_agree hg fun hs => h ⟨hc, ⟨t, ht, hle⟩, vh, hvh, .inl hs⟩]
        · rfl
      · rw [if_neg fun hx => hc hx.1, if_neg fun hx => hc hx.1]
  | att req =>
    simp only [exec]
    split_ifs with hc
    · have hsame : (handleAtt m'.gen d req).2 = (handleAtt m.gen d req).2 := by
        unfold handleAtt
        split
        · rfl
        · split_ifs with hmtu hgroup htype hinfo hread hwrite
          · rfl
          · rfl
          · refine congrArg (listRsp _ _ _) (List.map_congr_left fun a ha => ?_)
            rw [valueOf_agree hg fun hs => h ⟨hc, by rw [htype.1]; rfl, htype.2, a, ha, hs⟩]
          · rfl
          · rw [readAttr_agree hd hg]
          · rfl
          · rfl
      rw [hsame]
    · rfl

end Event

/-! ### Exposure -/

section Exposure

open Classical in
/-- The values of the moment, with `v` for secret ones. -/
noncomputable def tell (p : Profile) (m : Moment) (v : List UInt8) : Moment :=
  { m with gen := fun u => if p.Open u then m.gen u else v }

variable {p : Profile} {d : Device} {m : Moment} {v w : List UInt8} {h : ℕ}

theorem agree_tell (p : Profile) (m : Moment) (v : List UInt8) : Agree p m (tell p m v) :=
  ⟨fun _ hu => if_pos hu, fun _ => rfl⟩

theorem charValue_tell (hs : Secret p d h) (v : List UInt8) :
    d.charValue (tell p m v).gen h = v := by
  obtain ⟨u, hu, hopen⟩ := hs
  rw [Device.charValue, hu]
  exact if_neg hopen

/-- The value of the attribute is a secret one. -/
def SecretAttr (p : Profile) (d : Device) (a : Attr) : Prop := a.value = none ∧ Secret p d a.handle

theorem valueOf_tell {a : Attr} (hs : SecretAttr p d a) (v : List UInt8) :
    d.valueOf (tell p m v).gen a = v := by
  rw [Device.valueOf, hs.1]
  exact charValue_tell hs.2 v

/-- The entry of an attribute in a response. -/
def entryOf (gen : Gen) (d : Device) (a : Attr) : List UInt8 := le16 a.handle ++ d.valueOf gen a

theorem length_entryOf (gen : Gen) (a : Attr) :
    (entryOf gen d a).length = 2 + (d.valueOf gen a).length := by
  rw [entryOf, List.length_append]
  rfl

theorem listRsp_entries (op rsp : UInt8) (start : ℕ) (gen : Gen) {a : Attr} {l : List Attr} {n : ℕ}
    (hn : (entryOf gen d a).length = n) :
    listRsp op rsp start ((a :: l).map (entryOf gen d)) = [rsp, .ofNat n] ++
      (((a :: l).filter fun x => (entryOf gen d x).length = n).map (entryOf gen d)).flatten := by
  rw [List.map_cons, listRsp_cons, hn, ← List.map_cons, List.filter_map]
  rfl

/-- A secret value in front decides on the first entry. -/
theorem listRsp_front (op rsp : UInt8) (start : ℕ) {a : Attr} {l : List Attr}
    (ha : SecretAttr p d a) :
    listRsp op rsp start ((a :: l).map (entryOf (tell p m [0]).gen d)) ≠
      listRsp op rsp start ((a :: l).map (entryOf (tell p m [1]).gen d)) := by
  have hhead : ∀ b, (listRsp op rsp start ((a :: l).map (entryOf (tell p m [b]).gen d))).getD 4 0 = b := by
    intro b
    have hentry : entryOf (tell p m [b]).gen d a = le16 a.handle ++ [b] := by
      rw [entryOf, valueOf_tell ha]
    have hlen : (entryOf (tell p m [b]).gen d a).length = 3 := by
      rw [hentry]
      rfl
    rw [listRsp_entries op rsp start _ hlen, List.filter_cons, if_pos (by simpa using hlen),
      List.map_cons, List.flatten_cons, hentry]
    rfl
  intro heq
  have h01 := (hhead 0).symm.trans ((congrArg (fun l => l.getD 4 0) heq).trans (hhead 1))
  exact absurd h01 (by decide)

/-- A secret value further on is in the response or not, as its length is that of the first one. -/
theorem listRsp_behind (op rsp : UInt8) (start : ℕ) {a b : Attr} {l : List Attr}
    (ha : ¬SecretAttr p d a) (hb : SecretAttr p d b) (hmem : b ∈ l) :
    ∃ v w, listRsp op rsp start ((a :: l).map (entryOf (tell p m v).gen d)) ≠
      listRsp op rsp start ((a :: l).map (entryOf (tell p m w).gen d)) := by
  -- the first entry is the same, whatever the secret values are
  have hsame : ∀ v w x, ¬SecretAttr p d x →
      entryOf (tell p m v).gen d x = entryOf (tell p m w).gen d x := fun v w x hx => by
    rw [entryOf, entryOf, valueOf_agree ((agree_tell p m w).euclid (agree_tell p m v)) hx]
  generalize hn : (d.valueOf (tell p m []).gen a).length = n
  have hfirst : ∀ v, (entryOf (tell p m v).gen d a).length = 2 + n := fun v => by
    rw [hsame v [] a ha, length_entryOf, hn]
  have hsecret : ∀ v x, SecretAttr p d x → (entryOf (tell p m v).gen d x).length = 2 + v.length :=
    fun v x hx => by rw [length_entryOf, valueOf_tell hx]
  have hlen : ∀ v, (listRsp op rsp start ((a :: l).map (entryOf (tell p m v).gen d))).length =
      2 + ((a :: l).filter fun x => (entryOf (tell p m v).gen d x).length = 2 + n).length * (2 + n) := by
    intro v
    rw [listRsp_entries op rsp start _ (hfirst v), List.length_append,
      length_flatten_eq (n := 2 + n),
      List.length_map]
    · rfl
    · intro e he
      obtain ⟨x, hx, rfl⟩ := List.mem_map.1 he
      simpa using (List.mem_filter.1 hx).2
  refine ⟨List.replicate n 0, List.replicate (n + 1) 0, fun heq => ?_⟩
  have hcount := congrArg List.length heq
  rw [hlen, hlen] at hcount
  -- what is kept with the longer values is kept with the shorter ones, but the secret value is not
  have hsub : ((a :: l).filter fun x =>
        (entryOf (tell p m (List.replicate (n + 1) 0)).gen d x).length = 2 + n) =
      ((a :: l).filter fun x => (entryOf (tell p m (List.replicate n 0)).gen d x).length = 2 + n).filter
        fun x => (entryOf (tell p m (List.replicate (n + 1) 0)).gen d x).length = 2 + n := by
    rw [List.filter_filter]
    refine List.filter_congr fun x _ => ?_
    by_cases hx : SecretAttr p d x
    · have h₁ := hsecret (List.replicate (n + 1) 0) x hx
      rw [List.length_replicate] at h₁
      rw [decide_eq_false (by omega), Bool.false_and]
    · rw [hsame (List.replicate (n + 1) 0) (List.replicate n 0) x hx, Bool.and_self]
  have hshort := hsecret (List.replicate n 0) b hb
  have hlong := hsecret (List.replicate (n + 1) 0) b hb
  rw [List.length_replicate] at hshort hlong
  have hin : b ∈ (a :: l).filter fun x =>
      (entryOf (tell p m (List.replicate n 0)).gen d x).length = 2 + n :=
    List.mem_filter.2 ⟨List.mem_cons_of_mem a hmem, decide_eq_true hshort⟩
  have hout : ¬decide ((entryOf (tell p m (List.replicate (n + 1) 0)).gen d b).length = 2 + n) = true := by
    rw [decide_eq_true_eq]
    omega
  have hlt := (List.length_filter_lt_length_iff_exists
    (p := fun x => (entryOf (tell p m (List.replicate (n + 1) 0)).gen d x).length = 2 + n)).2
      ⟨b, hin, hout⟩
  rw [← hsub] at hlt
  have := Nat.mul_lt_mul_of_pos_right hlt (show 0 < 2 + n by omega)
  omega

/-- **What exposes a secret value depends on it.** -/
theorem exec_exposes (m : Moment) {due : Set ℚ} (hne : due.Nonempty) {op : Op}
    (hx : Exposes p d due op) :
    ∃ t ∈ due, ∃ t' ∈ due, ∃ m₁ m₂, Agree p m m₁ ∧ Agree p m m₂ ∧
      (exec m₁ ⟨d, t⟩ op).2 ≠ (exec m₂ ⟨d, t'⟩ op).2 := by
  cases op with
  | connect => exact hx.elim
  | terminate => exact hx.elim
  | tick now =>
    obtain ⟨hc, ⟨t, ht, hle⟩, h, hmem, hs | ⟨t', ht', hlt⟩⟩ := hx
    · refine ⟨t, ht, t, ht, tell p m [0], tell p m [1], agree_tell p m _, agree_tell p m _,
        fun heq => ?_⟩
      simp only [exec, if_pos (And.intro hc hle), notifications] at heq
      have hval := List.map_inj_left.1 heq h hmem
      rw [charValue_tell hs, charValue_tell hs] at hval
      have hne : ([0] : List UInt8) ≠ [1] := by decide
      exact hne ((List.append_right_inj (ATT_HANDLE_VALUE_NTF :: le16 h)).1 hval)
    · -- due in one run, and not in the other
      refine ⟨t, ht, t', ht', m, m, .refl p m, .refl p m, fun heq => ?_⟩
      simp only [exec, if_pos (And.intro hc hle), if_neg fun hx : _ ∧ _ => absurd hx.2 (not_le.2 hlt),
        notifications, List.map_eq_nil_iff] at heq
      rw [heq] at hmem
      cases hmem
  | att req =>
    obtain ⟨hc, hop, hlen, b, hb, hs⟩ := hx
    obtain ⟨t, ht⟩ := hne
    refine ⟨t, ht, t, ht, ?_⟩
    obtain ⟨r, rfl⟩ : ∃ r, req = ATT_READ_BY_TYPE_REQ :: r := by
      cases req with
      | nil => cases hop
      | cons o r => exact ⟨r, by rw [Option.some.inj hop]⟩
    have hexec : ∀ m', (exec m' ⟨d, t⟩ (.att (ATT_READ_BY_TYPE_REQ :: r))).2 =
        sent (listRsp ATT_READ_BY_TYPE_REQ ATT_READ_BY_TYPE_RSP (u16At (ATT_READ_BY_TYPE_REQ :: r) 1)
          ((d.attrsIn (u16At (ATT_READ_BY_TYPE_REQ :: r) 1) (u16At (ATT_READ_BY_TYPE_REQ :: r) 3)
            (u16At (ATT_READ_BY_TYPE_REQ :: r) 5)).map (entryOf m'.gen d))) := by
      intro m'
      simp only [exec, if_pos hc, handleAtt_readByType m'.gen d (Nat.le_of_succ_le_succ hlen)]
      rfl
    generalize d.attrsIn _ _ _ = l at hb hexec
    generalize u16At (ATT_READ_BY_TYPE_REQ :: r) 1 = start at hexec
    cases l with
    | nil => cases hb
    | cons a l =>
      obtain ⟨v, w, hne⟩ : ∃ v w,
          listRsp ATT_READ_BY_TYPE_REQ ATT_READ_BY_TYPE_RSP start
            ((a :: l).map (entryOf (tell p m v).gen d)) ≠
          listRsp ATT_READ_BY_TYPE_REQ ATT_READ_BY_TYPE_RSP start
            ((a :: l).map (entryOf (tell p m w).gen d)) := by
        by_cases ha : SecretAttr p d a
        · exact ⟨[0], [1], listRsp_front _ _ start ha⟩
        · refine listRsp_behind _ _ start ha hs ((List.mem_cons.1 hb).resolve_left ?_)
          rintro rfl
          exact ha hs
      refine ⟨tell p m v, tell p m w, agree_tell p m _, agree_tell p m _, fun heq => hne ?_⟩
      rw [hexec, hexec, List.map_cons, List.map_cons, listRsp_cons, listRsp_cons] at heq
      rw [List.map_cons, List.map_cons, listRsp_cons, listRsp_cons]
      exact (List.cons.inj heq).1

end Exposure

/-! ### Runs -/

section Runs

variable {p : Profile} {d : Device} {due : Set ℚ} {ms ms₁ ms₂ : ℕ → Moment} {ops : List Op}

theorem transcript_agree (hd : Derived p d) (h : Guarded p ms d due ops) {t t' : ℚ} (ht : t ∈ due)
    (ht' : t' ∈ due) (h₁ : ∀ i, Agree p (ms i) (ms₁ i)) (h₂ : ∀ i, Agree p (ms i) (ms₂ i)) :
    transcript ms₂ ⟨d, t'⟩ ops = transcript ms₁ ⟨d, t⟩ ops := by
  induction ops generalizing d due ms ms₁ ms₂ t t' with
  | nil => rfl
  | cons op ops ih =>
    obtain ⟨hop, hops⟩ := h
    rw [transcript, transcript, exec_agree hd ((h₁ 0).euclid (h₂ 0)) hop ht ht']
    rw [exec_eq (ms 0) (ms₁ 0), exec_eq (ms 0) (ms₂ 0)]
    refine congrArg _ (ih (hd.exec (x := ⟨d, 0⟩) (ms 0) op) hops ?_ ?_ (fun i => h₁ (i + 1))
      fun i => h₂ (i + 1))
    · exact ⟨t, ht, ms₁ 0, h₁ 0, rfl⟩
    · exact ⟨t', ht', ms₂ 0, h₂ 0, rfl⟩

theorem guarded_of_transcript (hne : due.Nonempty) (h : ∀ t ∈ due, ∀ t' ∈ due, ∀ ms₁ ms₂,
      (∀ i, Agree p (ms i) (ms₁ i)) → (∀ i, Agree p (ms i) (ms₂ i)) →
        transcript ms₂ ⟨d, t'⟩ ops = transcript ms₁ ⟨d, t⟩ ops) : Guarded p ms d due ops := by
  induction ops generalizing d due ms with
  | nil => trivial
  | cons op ops ih =>
    -- a run with the first moment and the others given apart
    have hcons : ∀ {m : Moment} {ms' : ℕ → Moment}, Agree p (ms 0) m →
        (∀ i, Agree p (ms (i + 1)) (ms' i)) →
          ∀ i, Agree p (ms i) (Nat.casesOn i m ms' : Moment) := fun h0 hs i => by
      cases i with
      | zero => exact h0
      | succ i => exact hs i
    refine ⟨fun hx => ?_, ih ?_ ?_⟩
    · obtain ⟨t, ht, t', ht', m₁, m₂, h₁, h₂, hdiff⟩ := exec_exposes (ms 0) hne hx
      have hall := h t' ht' t ht _ _ (hcons h₂ fun i => .refl p _) (hcons h₁ fun i => .refl p _)
      exact hdiff (List.cons.inj hall).1
    · obtain ⟨t, ht⟩ := hne
      exact ⟨_, t, ht, ms 0, .refl p _, rfl⟩
    · rintro _ ⟨t, ht, m₁, h₁, rfl⟩ _ ⟨t', ht', m₂, h₂, rfl⟩ ms₁ ms₂ hs₁ hs₂
      have hall := (List.cons.inj (h t ht t' ht' _ _ (hcons h₁ hs₁) (hcons h₂ hs₂))).2
      rw [← exec_eq (ms 0) m₁, ← exec_eq (ms 0) m₂]
      exact hall

end Runs

/-- A client asks for the battery level by its type, and then for the value of its handle. -/
def batterySpy : List Op :=
  [.connect, .att (ATT_READ_BY_TYPE_REQ :: (le16 1 ++ le16 0xFFFF ++ le16 0x2A19)),
    .att (ATT_READ_REQ :: le16 3)]

end Vbt.Fleet
