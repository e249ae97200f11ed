import Vbt.Core.Causes
import Vbt.System.Net

/-!
# The life of connections between two parties

Two parties, each with its table of connection ends, and the signals that are under way between
them. Every connection is named by the Access Address of the CONNECT_IND that opened it, and these
are assumed to be all different.

* `Dialog`, `Dialog.act`: the parties, and one of them taking a signal and doing what a cause says;
* `Takes`, `Pops`: a signal is taken out of those under way, anywhere or at the front;
* `Orderly`: what holds in any order of delivery, with loss, and `Orderly.act`.
-/

namespace Vbt

/-- The Access Addresses of the CONNECT_INDs among some signals. -/
def connects (l : List Signal) : List UInt32 :=
  l.filterMap fun
    | .connect _ aa => some aa
    | _ => none

theorem connects_append (l l' : List Signal) : connects (l ++ l') = connects l ++ connects l' :=
  List.filterMap_append

theorem mem_connects {l : List Signal} {adva : BdAddr} {aa : UInt32} (h : .connect adva aa ∈ l) :
    aa ∈ connects l :=
  List.mem_filterMap.2 ⟨_, h, rfl⟩

/-- The connection a signal is about. -/
def Signal.about : Signal → Option UInt32
  | .connect _ aa | .terminate aa | .startEncReq aa | .startEncRsp aa => some aa
  | .adv _ | .other => none

/-! ### Taking a signal -/

/-- A signal is taken, from anywhere among those under way. What is not about a connection is not
among them. -/
inductive Takes (s : Signal) (q : List Signal) : List Signal → Prop
  | passing (h : s.notable = false) : Takes s q q
  | out (l₁ l₂ : List Signal) (h : s.notable = true) (hq : q = l₁ ++ s :: l₂) :
      Takes s q (l₁ ++ l₂)

/-- A signal is taken from the front. -/
inductive Pops (s : Signal) (q : List Signal) : List Signal → Prop
  | passing (h : s.notable = false) : Pops s q q
  | front (rest : List Signal) (h : s.notable = true) (hq : q = s :: rest) : Pops s q rest

section Taking

variable {s : Signal} {q rest : List Signal}

theorem Pops.takes (h : Pops s q rest) : Takes s q rest := by
  cases h with
  | passing h => exact .passing h
  | front _ h hq => exact .out [] rest h hq

theorem Takes.sublist (h : Takes s q rest) : rest.Sublist q := by
  cases h with
  | passing => exact List.Sublist.refl q
  | out l₁ l₂ _ hq =>
    rw [hq]
    exact List.Sublist.append_left (List.sublist_cons_self s l₂) l₁

theorem Takes.mem (h : Takes s q rest) (hs : s.notable = true) : s ∈ q := by
  cases h with
  | passing hn =>
    rw [hs] at hn
    cases hn
  | out l₁ l₂ _ hq =>
    rw [hq]
    exact List.mem_append_right _ List.mem_cons_self

/-- What was there once is gone when it has been taken. -/
theorem Takes.not_mem_connects {adva : BdAddr} {aa : UInt32} (h : Takes (.connect adva aa) q rest)
    (hq : (connects q).Nodup) : aa ∉ connects rest := by
  cases h with
  | passing hn => cases hn
  | out l₁ l₂ _ heq =>
    rw [heq, connects_append] at hq
    have hmid : (connects l₁ ++ aa :: connects l₂).Nodup := hq
    rw [connects_append]
    exact (List.nodup_middle.1 hmid).notMem

end Taking

/-! ### Dialogs -/

/-- Two parties and the signals under way to each. -/
@[ext]
structure Dialog where
  table : Side → ℕ → Option LinkEnd
  sent : Side → List Signal
  air : Side → List Signal

namespace Dialog

/-- Nothing has happened. -/
def start : Dialog := ⟨fun _ _ => none, fun _ => [], fun _ => []⟩

/-- Party `x` does what the cause says; `rest` is what is then still under way to it. -/
def act (d : Dialog) (x : Side) (rest : List Signal) (c : Cause) : Dialog where
  table := Function.update d.table x (c.apply (d.table x))
  sent := Function.update d.sent x (d.sent x ++ c.sends)
  air := Function.update (Function.update d.air x rest) x.other (d.air x.other ++ c.sends)

/-- The generated Access Addresses are pairwise distinct. -/
def Distinct (d : Dialog) : Prop := (connects (d.sent .left) ++ connects (d.sent .right)).Nodup

/-- There is an end of the connection in the table. -/
def Holds (t : ℕ → Option LinkEnd) (aa : UInt32) : Prop := ∃ k e, t k = some e ∧ e.accessAddr = aa

section Act

variable {d : Dialog} {x : Side} {rest : List Signal} {c : Cause}

@[simp] theorem act_table_self : (d.act x rest c).table x = c.apply (d.table x) :=
  Function.update_self ..

@[simp] theorem act_table_other : (d.act x rest c).table x.other = d.table x.other :=
  Function.update_of_ne x.other_ne ..

@[simp] theorem act_sent_self : (d.act x rest c).sent x = d.sent x ++ c.sends :=
  Function.update_self ..

@[simp] theorem act_sent_other : (d.act x rest c).sent x.other = d.sent x.other :=
  Function.update_of_ne x.other_ne ..

@[simp] theorem act_air_self : (d.act x rest c).air x = rest :=
  (Function.update_of_ne x.other_ne.symm ..).trans (Function.update_self ..)

@[simp] theorem act_air_other : (d.act x rest c).air x.other = d.air x.other ++ c.sends :=
  Function.update_self ..

theorem connects_act_subset (y : Side) {aa : UInt32} (h : aa ∈ connects (d.sent y)) :
    aa ∈ connects ((d.act x rest c).sent y) := by
  rcases x.eq_or y with rfl | rfl
  · rw [act_sent_self, connects_append]
    exact List.mem_append_left _ h
  · rwa [act_sent_other]

end Act

theorem Distinct.sides {d : Dialog} (h : Distinct d) (x : Side) :
    (connects (d.sent x) ++ connects (d.sent x.other)).Nodup := by
  cases x with
  | left => exact h
  | right => exact List.nodup_append_comm.1 h

theorem Distinct.not_both {d : Dialog} (h : Distinct d) {x : Side} {aa : UInt32}
    (hx : aa ∈ connects (d.sent x)) : aa ∉ connects (d.sent x.other) :=
  fun hy => (List.nodup_append.1 (h.sides x)).2.2 aa hx aa hy rfl

/-- An Access Address that has just been generated is new. -/
theorem Distinct.fresh {d : Dialog} {x : Side} {rest : List Signal} {k : ℕ} {adva : BdAddr}
    {aa : UInt32} (h : Distinct (d.act x rest (.call k adva aa))) (y : Side) :
    aa ∉ connects (d.sent y) := by
  have hx := h.sides x
  rw [act_sent_self, act_sent_other, connects_append] at hx
  rcases x.eq_or y with rfl | rfl
  · intro hmem
    exact (List.nodup_append.1 (List.nodup_append.1 hx).1).2.2 aa hmem aa
      (List.mem_singleton_self aa) rfl
  · intro hmem
    exact (List.nodup_append.1 hx).2.2 aa (List.mem_append_right _ (List.mem_singleton_self aa)) aa
      hmem rfl

/-! ### Any order of delivery -/

/-- What holds in any order of delivery: entries have the Access Address of a CONNECT_IND that the
central sent, no two entries have the same one, and a CONNECT_IND that has been acted on is no
longer under way. -/
structure Orderly (d : Dialog) : Prop where
  role : ∀ x k e, d.table x k = some e →
    e.role = 0 ∧ e.accessAddr ∈ connects (d.sent x) ∨
      e.role = 1 ∧ e.accessAddr ∈ connects (d.sent x.other)
  unique : ∀ x k k' e e', d.table x k = some e → d.table x k' = some e' →
    e.accessAddr = e'.accessAddr → k = k'
  under : ∀ x, (connects (d.air x)).Sublist (connects (d.sent x.other))
  fresh : ∀ x k e, d.table x k = some e → e.accessAddr ∉ connects (d.air x)
  about : ∀ x, ∀ s ∈ d.air x, ∀ aa, s.about = some aa → ∃ y, aa ∈ connects (d.sent y)

theorem orderly_start : Orderly start where
  role x k e h := by cases h
  unique x k k' e e' h := by cases h
  under x := List.Sublist.refl []
  fresh x k e h := by cases h
  about x s h := by cases h

/-- An entry after the act is an old one, perhaps encrypted since, or has just been opened. -/
theorem old_or_new {t : ℕ → Option LinkEnd} {c : Cause} {k : ℕ} {e : LinkEnd}
    (h : c.apply t k = some e) :
    (∃ e₀, t k = some e₀ ∧ e₀.accessAddr = e.accessAddr ∧ e₀.role = e.role) ∨
      (∃ adva, c = .call k adva e.accessAddr) ∧ e.role = 0 ∨
      c = .answer k e.accessAddr ∧ e.role = 1 := by
  rcases Cause.apply_eq_some h with h | ⟨adva, aa, hc, rfl⟩ | ⟨aa, hc, rfl⟩ | ⟨e₀, aa, -, h₀, rfl⟩
  · exact Or.inl ⟨e, h, rfl, rfl⟩
  · exact Or.inr (Or.inl ⟨⟨adva, hc⟩, rfl⟩)
  · exact Or.inr (Or.inr ⟨hc, rfl⟩)
  · exact Or.inl ⟨e₀, h₀, rfl, rfl⟩

namespace Orderly

variable {d : Dialog} {x : Side} {s : Signal} {rest : List Signal} {c : Cause}

theorem connects_air_nodup (h : Orderly d) (hd : Distinct d) (y : Side) :
    (connects (d.air y)).Nodup :=
  (h.under y).nodup (List.nodup_append.1 (hd.sides y)).2.1

/-- Every entry was named. -/
theorem named (h : Orderly d) {y : Side} {k : ℕ} {e : LinkEnd} (he : d.table y k = some e) :
    ∃ z, e.accessAddr ∈ connects (d.sent z) := by
  rcases h.role y k e he with ⟨-, hm⟩ | ⟨-, hm⟩
  · exact ⟨_, hm⟩
  · exact ⟨_, hm⟩

/-- The signals that a party sends are about a connection that was named. -/
theorem about_sends (h : Orderly d) (ha : c.Apt (d.table x) s) {s' : Signal}
    (hs : s' ∈ c.sends) {aa : UInt32} (haa : s'.about = some aa) :
    ∃ y, aa ∈ connects ((d.act x rest c).sent y) := by
  -- all but a call are sent for an entry of the table
  have entry : ∀ {k : ℕ} {b : UInt32}, (∃ e, d.table x k = some e ∧ e.accessAddr = b) → aa = b →
      ∃ y, aa ∈ connects ((d.act x rest c).sent y) := by
    rintro k b ⟨e, he, rfl⟩ rfl
    obtain ⟨z, hz⟩ := h.named he
    exact ⟨z, connects_act_subset z hz⟩
  cases c with
  | disconnect k b =>
    cases List.mem_singleton.1 hs
    exact entry ha.2 (Option.some.inj haa).symm
  | reply k b =>
    cases List.mem_singleton.1 hs
    exact entry ha.2 (Option.some.inj haa).symm
  | startReq k b =>
    cases List.mem_singleton.1 hs
    exact entry ha.2 (Option.some.inj haa).symm
  | call k adva b =>
    cases List.mem_singleton.1 hs
    cases haa
    refine ⟨x, ?_⟩
    rw [act_sent_self, connects_append]
    exact List.mem_append_right _ (List.mem_singleton_self aa)
  | nothing | reset | answer k b | terminate k b | startRsp k b => cases hs

/-- The CONNECT_IND that is answered was under way. -/
theorem mem_of_answer (ht : Takes s (d.air x) rest) {k : ℕ} {aa : UInt32}
    (ha : (Cause.answer k aa).Apt (d.table x) s) : aa ∈ connects (d.air x) := by
  obtain ⟨⟨adva, rfl⟩, -⟩ := ha
  exact mem_connects (ht.mem rfl)

theorem role_act (h : Orderly d) (ht : Takes s (d.air x) rest) (ha : c.Apt (d.table x) s) (y : Side)
    (k : ℕ) (e : LinkEnd) (he : (d.act x rest c).table y k = some e) :
    e.role = 0 ∧ e.accessAddr ∈ connects ((d.act x rest c).sent y) ∨
      e.role = 1 ∧ e.accessAddr ∈ connects ((d.act x rest c).sent y.other) := by
  have old : ∀ e₀, d.table y k = some e₀ → e₀.accessAddr = e.accessAddr → e₀.role = e.role →
      e.role = 0 ∧ e.accessAddr ∈ connects ((d.act x rest c).sent y) ∨
        e.role = 1 ∧ e.accessAddr ∈ connects ((d.act x rest c).sent y.other) := by
    intro e₀ he₀ haa hrole
    rcases h.role y k e₀ he₀ with ⟨hr, hm⟩ | ⟨hr, hm⟩
    · exact Or.inl ⟨hrole ▸ hr, haa ▸ connects_act_subset y hm⟩
    · exact Or.inr ⟨hrole ▸ hr, haa ▸ connects_act_subset _ hm⟩
  rcases x.eq_or y with rfl | rfl
  · rw [act_table_self] at he
    rcases old_or_new he with ⟨e₀, he₀, haa, hrole⟩ | ⟨⟨adva, rfl⟩, hrole⟩ | ⟨rfl, hrole⟩
    · exact old e₀ he₀ haa hrole
    · refine Or.inl ⟨hrole, ?_⟩
      rw [act_sent_self, connects_append]
      exact List.mem_append_right _ (List.mem_singleton_self _)
    · exact Or.inr ⟨hrole, connects_act_subset _ ((h.under y).subset (mem_of_answer ht ha))⟩
  · rw [act_table_other] at he
    exact old e he rfl rfl

theorem unique_act (h : Orderly d) (ht : Takes s (d.air x) rest) (ha : c.Apt (d.table x) s)
    (hd : Distinct (d.act x rest c)) (y : Side) (k k' : ℕ) (e e' : LinkEnd)
    (he : (d.act x rest c).table y k = some e) (he' : (d.act x rest c).table y k' = some e')
    (heq : e.accessAddr = e'.accessAddr) : k = k' := by
  rcases x.eq_or y with rfl | rfl
  · rw [act_table_self] at he he'
    -- an entry that was just opened shares its Access Address with no older one
    have apart : ∀ j j' (f f' : LinkEnd), c.apply (d.table y) j = some f → d.table y j' = some f' →
        f.accessAddr = f'.accessAddr →
        ((∃ adva, c = .call j adva f.accessAddr) ∨ c = .answer j f.accessAddr) → False := by
      rintro j j' f f' - hf' haa (⟨adva, rfl⟩ | rfl)
      · obtain ⟨z, hz⟩ := h.named hf'
        exact hd.fresh z (haa ▸ hz)
      · exact h.fresh y j' f' hf' (haa ▸ mem_of_answer ht ha)
    rcases old_or_new he with ⟨e₀, he₀, haa, -⟩ | ⟨⟨adva, hc⟩, -⟩ | ⟨hc, -⟩
    · rcases old_or_new he' with ⟨e₁, he₁, haa', -⟩ | ⟨⟨adva', hc'⟩, -⟩ | ⟨hc', -⟩
      · exact h.unique y k k' e₀ e₁ he₀ he₁ (by rw [haa, haa', heq])
      · exact (apart k' k e' e₀ he' he₀ (by rw [haa, heq]) (Or.inl ⟨adva', hc'⟩)).elim
      · exact (apart k' k e' e₀ he' he₀ (by rw [haa, heq]) (Or.inr hc')).elim
    · rcases old_or_new he' with ⟨e₁, he₁, haa', -⟩ | ⟨⟨adva', hc'⟩, -⟩ | ⟨hc', -⟩
      · exact (apart k k' e e₁ he he₁ (by rw [haa', heq]) (Or.inl ⟨adva, hc⟩)).elim
      · rw [hc] at hc'
        exact (Cause.call.inj hc').1
      · rw [hc] at hc'
        cases hc'
    · rcases old_or_new he' with ⟨e₁, he₁, haa', -⟩ | ⟨⟨adva', hc'⟩, -⟩ | ⟨hc', -⟩
      · exact (apart k k' e e₁ he he₁ (by rw [haa', heq]) (Or.inr hc)).elim
      · rw [hc] at hc'
        cases hc'
      · rw [hc] at hc'
        exact (Cause.answer.inj hc').1
  · rw [act_table_other] at he he'
    exact h.unique _ k k' e e' he he' heq

theorem under_act (h : Orderly d) (ht : Takes s (d.air x) rest) (y : Side) :
    (connects ((d.act x rest c).air y)).Sublist (connects ((d.act x rest c).sent y.other)) := by
  rcases x.eq_or y with rfl | rfl
  · rw [act_air_self, act_sent_other]
    exact (ht.sublist.filterMap _).trans (h.under y)
  · rw [act_air_other, Side.other_other, act_sent_self, connects_append, connects_append]
    have hu := h.under x.other
    rw [Side.other_other] at hu
    exact hu.append_right _

theorem fresh_act (h : Orderly d) (ht : Takes s (d.air x) rest) (ha : c.Apt (d.table x) s)
    (hd : Distinct (d.act x rest c)) (hd₀ : Distinct d) (y : Side) (k : ℕ) (e : LinkEnd)
    (he : (d.act x rest c).table y k = some e) :
    e.accessAddr ∉ connects ((d.act x rest c).air y) := by
  rcases x.eq_or y with rfl | rfl
  · rw [act_table_self] at he
    rw [act_air_self]
    have hsub : ∀ aa ∈ connects rest, aa ∈ connects (d.air y) :=
      fun aa hm => (ht.sublist.filterMap _).subset hm
    rcases old_or_new he with ⟨e₀, he₀, haa, -⟩ | ⟨⟨adva, rfl⟩, -⟩ | ⟨rfl, -⟩
    · exact fun hm => h.fresh y k e₀ he₀ (haa ▸ hsub _ hm)
    · exact fun hm => hd.fresh y.other ((h.under y).subset (hsub _ hm))
    · obtain ⟨⟨adva, rfl⟩, -⟩ := ha
      exact ht.not_mem_connects (h.connects_air_nodup hd₀ y)
  · rw [act_table_other] at he
    rw [act_air_other, connects_append, List.mem_append]
    rintro (hm | hm)
    · exact h.fresh _ k e he hm
    · -- a CONNECT_IND that is sent now names no entry of the other party
      obtain ⟨z, hz⟩ := h.named he
      cases c with
      | call j adva aa =>
        cases List.mem_singleton.1 hm
        exact hd.fresh z hz
      | _ => cases hm

theorem about_act (h : Orderly d) (ht : Takes s (d.air x) rest) (ha : c.Apt (d.table x) s)
    (y : Side)
    (s' : Signal) (hs : s' ∈ (d.act x rest c).air y) (aa : UInt32) (haa : s'.about = some aa) :
    ∃ z, aa ∈ connects ((d.act x rest c).sent z) := by
  have old : ∀ w, s' ∈ d.air w → ∃ z, aa ∈ connects ((d.act x rest c).sent z) := by
    intro w hw
    obtain ⟨z, hz⟩ := h.about w s' hw aa haa
    exact ⟨z, connects_act_subset z hz⟩
  rcases x.eq_or y with rfl | rfl
  · rw [act_air_self] at hs
    exact old y (ht.sublist.subset hs)
  · rw [act_air_other, List.mem_append] at hs
    rcases hs with hs | hs
    · exact old _ hs
    · exact h.about_sends ha hs haa

/-- **Taking a signal, in any order, keeps the dialog orderly.** -/
theorem act (h : Orderly d) (ht : Takes s (d.air x) rest) (ha : c.Apt (d.table x) s)
    (hd : Distinct (d.act x rest c)) (hd₀ : Distinct d) : Orderly (d.act x rest c) where
  role := h.role_act ht ha
  unique := h.unique_act ht ha hd
  under := h.under_act ht
  fresh := h.fresh_act ht ha hd hd₀
  about := h.about_act ht ha

/-- Losing signals keeps the dialog orderly. -/
theorem lose (h : Orderly d) {d' : Dialog} (htable : d'.table = d.table) (hsent : d'.sent = d.sent)
    (hair : ∀ y, (d'.air y).Sublist (d.air y)) : Orderly d' where
  role := by rw [htable, hsent]; exact h.role
  unique := by rw [htable]; exact h.unique
  under y := by rw [hsent]; exact ((hair y).filterMap _).trans (h.under y)
  fresh y k e he hm := h.fresh y k e (htable ▸ he) (((hair y).filterMap _).subset hm)
  about y s hs := by rw [hsent]; exact h.about y s ((hair y).subset hs)

end Orderly

end Dialog
end Vbt
