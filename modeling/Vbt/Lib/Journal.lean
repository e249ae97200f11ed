import Mathlib.Tactic

/-!
# Journals: machines whose state is the replay of what they did

A machine that writes every action it takes to a journal, newest first, has a state that is
determined by the journal. Safety properties of such a machine are properties of journals, and
are proved by induction on the journal with one case for each kind of action.

* `Throughout P j`: every action of `j` met `P` together with the journal before it;
* `Journal σ α`: an initial state, the effect of an action, and when an action is enabled;
* `replay`, `Legal`, and the invariant rules `Legal.invariant`, `Legal.invariant_of` and, for the
  part written after a given point, `Legal.invariant_on` and `Legal.invariant_since`;
* `since j j'`: what a journal `j'` adds to a journal `j` that it continues.
-/

variable {σ α : Type}

/-- Every action of the journal met `P`, given the journal before it. -/
def Throughout (P : List α → α → Prop) : List α → Prop
  | [] => True
  | a :: t => P t a ∧ Throughout P t

namespace Throughout

variable {P Q : List α → α → Prop}

instance decidable [∀ t a, Decidable (P t a)] : (j : List α) → Decidable (Throughout P j)
  | [] => isTrue trivial
  | _ :: t => @instDecidableAnd _ _ _ (decidable t)

@[simp] theorem nil : Throughout P [] := trivial

@[simp] theorem cons_iff {a : α} {t : List α} : Throughout P (a :: t) ↔ P t a ∧ Throughout P t :=
  Iff.rfl

/-- What held throughout a journal held throughout each journal it continues. -/
theorem of_append {new old : List α} (h : Throughout P (new ++ old)) : Throughout P old := by
  induction new with
  | nil => exact h
  | cons a new ih => exact ih h.2

theorem mono {j : List α} (h : Throughout P j) (hPQ : ∀ t a, P t a → Q t a) : Throughout Q j := by
  induction j with
  | nil => trivial
  | cons a t ih => exact ⟨hPQ t a h.1, ih h.2⟩

/-- An action inside a journal met `P` with what was written before it. -/
theorem at_split {new old : List α} {a : α} (h : Throughout P (new ++ a :: old)) : P old a :=
  h.of_append.1

end Throughout

/-- Every action of `new`, which continues the journal `old`, met `P`. -/
def ThroughoutOn (P : List α → α → Prop) (old : List α) : List α → Prop
  | [] => True
  | a :: t => P (t ++ old) a ∧ ThroughoutOn P old t

/-- A machine that keeps a journal. -/
structure Journal (σ α : Type) where
  init : σ
  apply : σ → α → σ
  enabled : σ → α → Prop

namespace Journal

variable (M : Journal σ α)

/-- The state a journal leads to. -/
def replay : List α → σ
  | [] => M.init
  | a :: t => M.apply (replay t) a

@[simp] theorem replay_nil : M.replay [] = M.init := rfl

@[simp] theorem replay_cons (a : α) (t : List α) :
    M.replay (a :: t) = M.apply (M.replay t) a := rfl

/-- Every action was enabled in the state it was taken in. -/
def Legal : List α → Prop := Throughout fun t a => M.enabled (M.replay t) a

variable {M}

/-- A property of the initial state that every enabled action keeps holds after every legal
journal. -/
theorem Legal.invariant {I : σ → Prop} (h0 : I M.init)
    (hstep : ∀ r a, I r → M.enabled r a → I (M.apply r a)) {j : List α} (hj : M.Legal j) :
    I (M.replay j) := by
  induction j with
  | nil => exact h0
  | cons a t ih => exact hstep _ a (ih hj.2) hj.1

/-- The same for journals whose actions all met a side condition `P`. -/
theorem Legal.invariant_of {I : List α → σ → Prop} {P : List α → α → Prop} (h0 : I [] M.init)
    (hstep : ∀ t a, M.Legal t → Throughout P t → I t (M.replay t) → M.enabled (M.replay t) a →
      P t a → I (a :: t) (M.apply (M.replay t) a)) {j : List α} (hj : M.Legal j)
    (hP : Throughout P j) : I j (M.replay j) := by
  induction j with
  | nil => exact h0
  | cons a t ih => exact hstep t a hj.2 hP.2 (ih hj.2 hP.2) hj.1 hP.1

/-- An invariant of the part of a journal written after a given point. -/
theorem Legal.invariant_on {I : σ → Prop} {P : List α → α → Prop} {old : List α}
    (h0 : I (M.replay old))
    (hstep : ∀ t a, M.Legal t → I (M.replay t) → M.enabled (M.replay t) a → P t a →
      I (M.apply (M.replay t) a)) {new : List α} (hj : M.Legal (new ++ old))
    (hP : ThroughoutOn P old new) : I (M.replay (new ++ old)) := by
  induction new with
  | nil => exact h0
  | cons a t ih =>
    have hj' : M.Legal (a :: (t ++ old)) := hj
    exact hstep _ a hj'.2 (ih hj'.2 hP.2) hj'.1 hP.1

/-- The same with a side condition on the actions alone. -/
theorem Legal.invariant_since {I : σ → Prop} {P : α → Prop} {old : List α} (h0 : I (M.replay old))
    (hstep : ∀ t a, M.Legal t → I (M.replay t) → M.enabled (M.replay t) a → P a →
      I (M.apply (M.replay t) a)) {new : List α} (hj : M.Legal (new ++ old))
    (hP : ∀ a ∈ new, P a) : I (M.replay (new ++ old)) := by
  refine hj.invariant_on (P := fun _ => P) h0 hstep ?_
  clear hj
  induction new with
  | nil => trivial
  | cons a t ih =>
    exact ⟨hP a List.mem_cons_self, ih fun b hb => hP b (List.mem_cons_of_mem _ hb)⟩

end Journal

/-! ### Continuations -/

/-- What the journal `j'`, which continues `j`, adds to it, newest first. -/
def since (j j' : List α) : List α := j'.take (j'.length - j.length)

@[simp] theorem since_append (new j : List α) : since j (new ++ j) = new := by
  simp [since]

@[simp] theorem since_self (j : List α) : since j j = [] := by
  simp [since]

theorem since_append_self {j j' : List α} (h : j <:+ j') : since j j' ++ j = j' := by
  obtain ⟨new, rfl⟩ := h
  rw [since_append]
