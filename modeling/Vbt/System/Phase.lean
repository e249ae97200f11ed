import Vbt.System.Dialog

/-!
# The phases of a connection

When signals are delivered in the order they were sent, a connection goes through a few phases only:
what the two parties have in their tables and what is under way determine each other up to a short
list.

* `Life`, `lives`: the signals that open and close a given connection;
* `Phase`: the phases, and `Rules`, everything that can happen at one of the two ends;
* `Phased`, `AllPhased`: the phase of a connection in a dialog, and of all connections;
* `Seen.step`, `AllPhased.act`: a step of either party takes each connection from a phase to a
  phase.

A phase is half open if the peripheral has refused the CONNECT_IND while the central holds on to the
connection. It is admitted or not by a parameter.
-/

namespace Vbt

/-- What opens and closes a connection. -/
inductive Life
  | conn
  | term
  deriving DecidableEq, Repr

/-- A signal as part of the life of the connection `aa`. -/
def Signal.life (aa : UInt32) : Signal → Option Life
  | .connect _ b => if b = aa then some .conn else none
  | .terminate b => if b = aa then some .term else none
  | _ => none

/-- The signals that open and close the connection `aa`. -/
def lives (aa : UInt32) (l : List Signal) : List Life := l.filterMap (Signal.life aa)

theorem lives_append (aa : UInt32) (l l' : List Signal) :
    lives aa (l ++ l') = lives aa l ++ lives aa l' := List.filterMap_append

theorem Pops.lives {s : Signal} {q rest : List Signal} (h : Pops s q rest) (aa : UInt32) :
    Vbt.lives aa q = (s.life aa).toList ++ Vbt.lives aa rest := by
  cases h with
  | passing h =>
    have hs : s.life aa = none := by
      cases s with
      | adv | other => rfl
      | connect | terminate | startEncReq | startEncRsp => cases h
    rw [hs]
    rfl
  | front _ h hq =>
    rw [hq]
    unfold Vbt.lives
    cases hs : s.life aa with
    | none => rw [List.filterMap_cons_none hs]; rfl
    | some l => rw [List.filterMap_cons_some hs]; rfl

/-! ### Phases -/

/-- The phases of a connection: whether the central and the peripheral have it in their tables, what
is under way to the peripheral and what is under way to the central. -/
inductive Phase (half : Prop) : Bool → Bool → List Life → List Life → Prop
  | invited : Phase half true false [.conn] []
  | withdrawn : Phase half false false [.conn, .term] []
  | linked : Phase half true true [] []
  | centralLeft : Phase half false true [.term] []
  | peripheralLeft : Phase half true false [] [.term]
  | bothLeft : Phase half false false [.term] [.term]
  | peripheralUntold : Phase half false false [.term] []
  | centralUntold : Phase half false false [] [.term]
  | closed : Phase half false false [] []
  | halfOpen (h : half) : Phase half true false [] []

namespace Phase

variable {half : Prop} {c p : Bool} {toP toC : List Life}

/-- A peripheral has the connection only while the central has it or has said that it left. -/
theorem central_of_peripheral (h : Phase half c true toP toC) : c = true ∨ .term ∈ toP := by
  cases h
  · exact Or.inl rfl
  · exact Or.inr List.mem_cons_self

/-- With nothing under way and no half-open connections, the two parties agree. -/
theorem agree (h : Phase False c p [] []) : c = p := by
  cases h with
  | linked => rfl
  | closed => rfl
  | halfOpen h => exact h.elim

end Phase

/-- What can happen to a connection at one of its ends, as seen from there: `R` relates whether this
party and the other one have the connection, what is under way to this party and what is under way
from it. -/
structure Rules (half : Prop) (R : Bool → Bool → List Life → List Life → Prop) : Prop where
  leaves {o : Bool} {i out : List Life} : R true o i out → R false o i (out ++ [.term])
  hears {a o : Bool} {i out : List Life} : R a o (.term :: i) out → R false o i out
  accepts {a o : Bool} {i out : List Life} : R a o (.conn :: i) out → R true o i out
  refuses {a o : Bool} {i out : List Life} : half → R a o (.conn :: i) out → R a o i out

/-- The phases, seen from the central. A CONNECT_IND is never under way to it. -/
theorem rules_central (half : Prop) : Rules half fun a o i out => Phase half a o out i where
  leaves h := by cases h <;> constructor
  hears h := by cases h <;> constructor
  accepts h := by cases h
  refuses _ h := by cases h

/-- The phases, seen from the peripheral. -/
theorem rules_peripheral (half : Prop) : Rules half fun a o i out => Phase half o a i out where
  leaves h := by cases h <;> constructor
  hears h := by cases h <;> constructor
  accepts h := by cases h <;> constructor
  refuses hh h := by
    cases h with
    | invited => exact .halfOpen hh
    | withdrawn => exact .peripheralUntold

/-! ### The phase a dialog is in -/

namespace Dialog

/-- The connection `aa`, whose central is `y`, is in one of the phases. -/
def Phased (half : Prop) (d : Dialog) (y : Side) (aa : UInt32) : Prop :=
  ∃ c p, (c = true ↔ Holds (d.table y) aa) ∧ (p = true ↔ Holds (d.table y.other) aa) ∧
    Phase half c p (lives aa (d.air y.other)) (lives aa (d.air y))

/-! ### What a cause does to one connection -/

section Cause

variable {t : ℕ → Option LinkEnd} {c : Cause} {aa : UInt32}

/-- The cause is that a connection is opened or closed, and this is the connection. -/
def Concerns (aa : UInt32) : Cause → Prop
  | .disconnect _ b | .call _ _ b | .answer _ b | .terminate _ b => b = aa
  | .reset => True
  | _ => False

theorem apply_of_not_concerns {s : Signal} (ha : c.Apt t s) (hc : ¬ Concerns aa c) {k : ℕ}
    {e : LinkEnd} (he : t k = some e) (haa : e.accessAddr = aa) :
    ∃ e', c.apply t k = some e' ∧ e'.accessAddr = aa := by
  -- an entry that is overwritten belongs to another connection
  have key : ∀ (j : ℕ) (o : Option LinkEnd), (j = k → ∃ e', o = some e' ∧ e'.accessAddr = aa) →
      ∃ e', Function.update t j o k = some e' ∧ e'.accessAddr = aa := by
    intro j o ho
    rw [Function.update_apply]
    split_ifs with hkj
    · exact ho hkj.symm
    · exact ⟨e, he, haa⟩
  have closing : ∀ j b, (∃ f, t j = some f ∧ f.accessAddr = b) → b ≠ aa → j ≠ k := by
    rintro j b ⟨f, hf, rfl⟩ hb rfl
    rw [he] at hf
    cases hf
    exact hb haa
  cases c with
  | nothing => exact ⟨e, he, haa⟩
  | reply j b => exact ⟨e, he, haa⟩
  | reset => exact absurd trivial hc
  | disconnect j b => exact key j _ fun hj => absurd hj (closing j b ha.2 hc)
  | terminate j b => exact key j _ fun hj => absurd hj (closing j b ha.2 hc)
  | call j adva b =>
    refine key j _ fun hj => ?_
    rw [← hj, ha.2] at he
    cases he
  | answer j b =>
    refine key j _ fun hj => ?_
    rw [← hj, ha.2] at he
    cases he
  | startReq j b =>
    refine key j _ fun hj => ?_
    rw [hj, he]
    exact ⟨_, rfl, haa⟩
  | startRsp j b =>
    refine key j _ fun hj => ?_
    rw [hj, he]
    exact ⟨_, rfl, haa⟩

theorem holds_congr {s : Signal} (ha : c.Apt t s) (hc : ¬ Concerns aa c) :
    Holds (c.apply t) aa ↔ Holds t aa := by
  constructor
  · rintro ⟨k, e, he, rfl⟩
    rcases old_or_new he with ⟨e₀, he₀, haa, -⟩ | ⟨⟨adva, rfl⟩, -⟩ | ⟨rfl, -⟩
    · exact ⟨k, e₀, he₀, haa⟩
    · exact absurd rfl hc
    · exact absurd rfl hc
  · rintro ⟨k, e, he, haa⟩
    obtain ⟨e', he', haa'⟩ := apply_of_not_concerns ha hc he haa
    exact ⟨k, e', he', haa'⟩

theorem holds_call (t : ℕ → Option LinkEnd) (k : ℕ) (adva : BdAddr) (aa : UInt32) :
    Holds ((Cause.call k adva aa).apply t) aa :=
  ⟨k, _, Function.update_self .., rfl⟩

theorem holds_answer (t : ℕ → Option LinkEnd) (k : ℕ) (aa : UInt32) :
    Holds ((Cause.answer k aa).apply t) aa :=
  ⟨k, _, Function.update_self .., rfl⟩

/-- The only entry of a connection is taken out. -/
theorem not_holds_update (huniq : ∀ k k' e e', t k = some e → t k' = some e' →
    e.accessAddr = e'.accessAddr → k = k') {k : ℕ} (hk : ∃ e, t k = some e ∧ e.accessAddr = aa) :
    ¬ Holds (Function.update t k none) aa := by
  rintro ⟨k', e', he', haa'⟩
  obtain ⟨e, he, haa⟩ := hk
  rw [Function.update_apply] at he'
  split_ifs at he' with hne
  exact hne (huniq k' k e' e he' he (haa'.trans haa.symm))

end Cause

/-! ### Steps -/

theorem lives_sends_of_not_concerns {aa : UInt32} {c : Cause} (hc : ¬ Concerns aa c) :
    lives aa c.sends = [] := by
  cases c with
  | disconnect k b => exact List.filterMap_cons_none (if_neg hc)
  | call k adva b => exact List.filterMap_cons_none (if_neg hc)
  | nothing | reset | reply k b | answer k b | terminate k b | startReq k b | startRsp k b => rfl

section Step

variable {half : Prop} {R : Bool → Bool → List Life → List Life → Prop} {t : ℕ → Option LinkEnd}
  {aa : UInt32} {s : Signal} {q rest out : List Signal} {c : Cause} {a o : Bool}

/-- The connection after a step of a party, as it is seen from there. -/
def Seen (R : Bool → Bool → List Life → List Life → Prop) (t : ℕ → Option LinkEnd) (o : Bool)
    (aa : UInt32) (i out : List Signal) : Prop :=
  ∃ a, (a = true ↔ Holds t aa) ∧ R a o (lives aa i) (lives aa out)

/-- A step that neither opens nor closes the connection and takes no signal about it. -/
theorem Seen.same (hseen : Seen R t o aa q out) (hpop : Pops s q rest) (ha : c.Apt t s)
    (hs : s.life aa = none) (hc : ¬ Concerns aa c) :
    Seen R (c.apply t) o aa rest (out ++ c.sends) := by
  obtain ⟨a, hat, hR⟩ := hseen
  refine ⟨a, hat.trans (holds_congr ha hc).symm, ?_⟩
  rw [hpop.lives aa, hs] at hR
  rw [lives_append, lives_sends_of_not_concerns hc, List.append_nil]
  exact hR

/-- A step that takes LL_TERMINATE_IND and leaves the table without the connection. -/
theorem Seen.hears (hR : Rules half R) (hseen : Seen R t o aa q out)
    (hpop : Pops (.terminate aa) q rest) (hnot : ¬ Holds (c.apply t) aa) (hsends : c.sends = []) :
    Seen R (c.apply t) o aa rest (out ++ c.sends) := by
  obtain ⟨a, -, h⟩ := hseen
  rw [hpop.lives aa, show (Signal.terminate aa).life aa = some .term from if_pos rfl] at h
  refine ⟨false, ⟨fun hf => (Bool.false_ne_true hf).elim, fun hh => (hnot hh).elim⟩, ?_⟩
  rw [hsends, List.append_nil]
  exact hR.hears h

/-- The signal is about something else. -/
theorem life_eq_none (hconn : ∀ adva, s ≠ .connect adva aa) (hterm : s ≠ .terminate aa) :
    s.life aa = none := by
  cases s with
  | adv | other | startEncReq | startEncRsp => rfl
  | connect adva b => exact if_neg fun hb => hconn adva (by rw [hb])
  | terminate b => exact if_neg fun hb => hterm (by rw [hb])

/-- **A step of a party follows the rules**, for every connection it does not open by calling. -/
theorem Seen.step (hR : Rules half R) (hseen : Seen R t o aa q out) (hpop : Pops s q rest)
    (ha : c.Apt t s)
    (huniq : ∀ k k' e e', t k = some e → t k' = some e' → e.accessAddr = e'.accessAddr → k = k')
    (hcall : ∀ k adva, c ≠ .call k adva aa) (hreset : c = .reset → ∀ k, t k = none)
    (haccept : half ∨ ∀ adva, s = .connect adva aa → ∃ k, c = .answer k aa) :
    Seen R (c.apply t) o aa rest (out ++ c.sends) := by
  cases c with
  | nothing =>
    by_cases hterm : s = .terminate aa
    · subst hterm
      refine hseen.hears hR hpop ?_ rfl
      rintro ⟨k, e, he, haa⟩
      exact ha aa rfl k e he haa
    · by_cases hconn : ∃ adva, s = .connect adva aa
      · -- the CONNECT_IND is refused
        obtain ⟨adva, rfl⟩ := hconn
        have hhalf : half := haccept.resolve_right fun h => by
          obtain ⟨k, hk⟩ := h adva rfl
          cases hk
        obtain ⟨a, hat, h⟩ := hseen
        rw [hpop.lives aa, show (Signal.connect adva aa).life aa = some .conn from if_pos rfl] at h
        refine ⟨a, hat, ?_⟩
        show R a o _ (lives aa (out ++ []))
        rw [List.append_nil]
        exact hR.refuses hhalf h
      · exact hseen.same hpop ha (life_eq_none (fun adva h => hconn ⟨adva, h⟩) hterm) fun h => h
  | reset =>
    -- nothing was open
    obtain ⟨a, hat, h⟩ := hseen
    rw [hpop.lives aa, show s = .other from ha] at h
    refine ⟨a, hat.trans ?_, ?_⟩
    · constructor
      · rintro ⟨k, e, he, -⟩
        rw [hreset rfl k] at he
        cases he
      · rintro ⟨k, e, he, -⟩
        cases he
    · show R a o _ (lives aa (out ++ []))
      rw [List.append_nil]
      exact h
  | disconnect k b =>
    by_cases hb : b = aa
    · subst hb
      obtain ⟨a, hat, h⟩ := hseen
      obtain ⟨e, he, haa⟩ := ha.2
      rw [hpop.lives b, show s = .other from ha.1, hat.2 ⟨k, e, he, haa⟩] at h
      have hsends : lives b (Cause.disconnect k b).sends = [.term] :=
        List.filterMap_cons_some (if_pos rfl)
      refine ⟨false, ⟨fun hf => (Bool.false_ne_true hf).elim,
        fun hh => (not_holds_update huniq ha.2 hh).elim⟩, ?_⟩
      rw [lives_append, hsends]
      exact hR.leaves h
    · exact hseen.same hpop ha (by rw [show s = .other from ha.1]; rfl) hb
  | reply k b => exact hseen.same hpop ha (by rw [show s = .other from ha.1]; rfl) fun h => h
  | call k adva b =>
    refine hseen.same hpop ha (by rw [show s = .adv adva from ha.1]; rfl) fun hb => hcall k adva ?_
    rw [show b = aa from hb]
  | answer k b =>
    obtain ⟨⟨adva, rfl⟩, hfree⟩ := ha
    by_cases hb : b = aa
    · subst hb
      obtain ⟨a, -, h⟩ := hseen
      rw [hpop.lives b, show (Signal.connect adva b).life b = some .conn from if_pos rfl] at h
      refine ⟨true, ⟨fun _ => holds_answer t k b, fun _ => rfl⟩, ?_⟩
      show R true o _ (lives b (out ++ []))
      rw [List.append_nil]
      exact hR.accepts h
    · exact hseen.same hpop ⟨⟨adva, rfl⟩, hfree⟩ (if_neg hb) hb
  | terminate k b =>
    by_cases hb : b = aa
    · subst hb
      rw [show s = .terminate b from ha.1] at hpop
      exact hseen.hears hR hpop (not_holds_update huniq ha.2) rfl
    · exact hseen.same hpop ha (by rw [show s = .terminate b from ha.1]; exact if_neg hb) hb
  | startReq k b =>
    exact hseen.same hpop ha (by rw [show s = .startEncReq b from ha.1]; rfl) fun h => h
  | startRsp k b =>
    exact hseen.same hpop ha (by rw [show s = .startEncRsp b from ha.1]; rfl) fun h => h

end Step

/-! ### Every connection of a dialog -/

/-- Every connection that was named is in one of the phases. -/
def AllPhased (half : Prop) (d : Dialog) : Prop :=
  ∀ y, ∀ aa ∈ connects (d.sent y), Phased half d y aa

section Act

variable {half : Prop} {d : Dialog} {x : Side} {s : Signal} {rest : List Signal} {c : Cause}

/-- Nothing is under way about a connection that was never named. -/
theorem Orderly.lives_eq_nil (h : Orderly d) {aa : UInt32} (haa : ∀ y, aa ∉ connects (d.sent y))
    (y : Side) : lives aa (d.air y) = [] := by
  refine List.filterMap_eq_nil_iff.2 fun s hs => ?_
  refine life_eq_none (fun adva heq => ?_) fun heq => ?_
  · obtain ⟨z, hz⟩ := h.about y s hs aa (by rw [heq]; rfl)
    exact haa z hz
  · obtain ⟨z, hz⟩ := h.about y s hs aa (by rw [heq]; rfl)
    exact haa z hz

theorem Orderly.not_holds (h : Orderly d) {aa : UInt32} (haa : ∀ y, aa ∉ connects (d.sent y))
    (y : Side) : ¬ Holds (d.table y) aa := by
  rintro ⟨k, e, he, rfl⟩
  obtain ⟨z, hz⟩ := h.named he
  exact haa z hz

/-- A connection that was just named starts in the first phase. -/
theorem Phased.call (h : Orderly d) {k : ℕ} {adva : BdAddr} {aa : UInt32}
    (hpop : Pops s (d.air x) rest) (hs : s = .adv adva)
    (hd : Distinct (d.act x rest (.call k adva aa))) :
    Phased half (d.act x rest (.call k adva aa)) x aa := by
  have hfresh := hd.fresh
  have hrest : lives aa rest = [] := by
    have hl := hpop.lives aa
    rw [h.lives_eq_nil hfresh, hs] at hl
    exact hl.symm
  refine ⟨true, false, ?_, ?_, ?_⟩
  · rw [act_table_self]
    exact ⟨fun _ => holds_call _ k adva aa, fun _ => rfl⟩
  · rw [act_table_other]
    exact ⟨fun hf => (Bool.false_ne_true hf).elim, fun hh => (h.not_holds hfresh _ hh).elim⟩
  · rw [act_air_other, act_air_self, lives_append, h.lives_eq_nil hfresh, hrest]
    have hsends : lives aa (Cause.call k adva aa).sends = [.conn] :=
      List.filterMap_cons_some (if_pos rfl)
    rw [hsends]
    exact .invited

/-- **A step of either party takes every connection from a phase to a phase.** -/
theorem AllPhased.act (hall : AllPhased half d) (h : Orderly d) (hpop : Pops s (d.air x) rest)
    (ha : c.Apt (d.table x) s) (hd : Distinct (d.act x rest c))
    (hreset : c = .reset → ∀ k, d.table x k = none)
    (haccept : half ∨ ∀ adva aa, s = .connect adva aa → ∃ k, c = .answer k aa) :
    AllPhased half (d.act x rest c) := by
  -- a connection that was named before
  have old : ∀ y, ∀ aa ∈ connects (d.sent y), Phased half (d.act x rest c) y aa := by
    intro y aa haa
    have hcall : ∀ k adva, c ≠ .call k adva aa := by
      rintro k adva rfl
      exact hd.fresh y haa
    have haccept' : half ∨ ∀ adva, s = .connect adva aa → ∃ k, c = .answer k aa :=
      haccept.imp_right fun h adva => h adva aa
    obtain ⟨a, o, hat, hot, hphase⟩ := hall y aa haa
    rcases x.eq_or y with rfl | rfl
    · obtain ⟨a', hat', hphase'⟩ := Seen.step (rules_central half) ⟨a, hat, hphase⟩ hpop ha
        (h.unique y) hcall hreset haccept'
      refine ⟨a', o, ?_, ?_, ?_⟩
      · rwa [act_table_self]
      · rwa [act_table_other]
      · rwa [act_air_other, act_air_self]
    · rw [Side.other_other] at hot hphase
      obtain ⟨o', hot', hphase'⟩ := Seen.step (rules_peripheral half) ⟨o, hot, hphase⟩ hpop ha
        (h.unique x) hcall hreset haccept'
      refine ⟨a, o', ?_, ?_, ?_⟩
      · rwa [act_table_other]
      · rwa [Side.other_other, act_table_self]
      · rwa [Side.other_other, act_air_self, act_air_other]
  intro y aa haa
  rcases x.eq_or y with rfl | rfl
  · rw [act_sent_self, connects_append, List.mem_append] at haa
    rcases haa with haa | haa
    · exact old y aa haa
    · -- only a call names a connection
      cases c with
      | call k adva b =>
        cases List.mem_singleton.1 haa
        exact Phased.call h hpop ha.1 hd
      | _ => cases haa
  · rw [act_sent_other] at haa
    exact old _ aa haa

end Act

end Dialog
end Vbt
