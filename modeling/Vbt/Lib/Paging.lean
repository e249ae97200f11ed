import Mathlib.Tactic
import Mathlib.Data.List.DropRight

/-!
# Paging through a list one kind at a time

A server answers with all entries of the kind of the first one, and the client asks again from
behind the last entry of the answer. What it has seen in the end is the whole list exactly if no
entry of another kind stands between two of one kind.

* `upTo k l`, `beyond k l`: the list up to its last entry of kind `k`, and what is behind it;
* `sweep`: what the client sees; `sweep_sublist`;
* `Clustered`, `sweep_eq_self_iff`.
-/

namespace Paging

variable {α κ : Type} [DecidableEq κ] (kind : α → κ)

/-- The list up to its last entry of kind `k`. -/
def upTo (k : κ) (l : List α) : List α := l.rdropWhile fun x => kind x ≠ k

/-- What is behind the last entry of kind `k`. -/
def beyond (k : κ) (l : List α) : List α := l.rtakeWhile fun x => kind x ≠ k

/-- What a client sees in at most `n` answers. -/
def sweep : ℕ → List α → List α
  | 0, _ => []
  | _, [] => []
  | n + 1, a :: l =>
    (a :: l).filter (fun x => kind x = kind a) ++ sweep n (beyond kind (kind a) (a :: l))

/-- No kind stands between two of another kind. -/
def Clustered (ks : List κ) : Prop := ∀ a b, a ≠ b → ¬[a, b, a].Sublist ks

omit [DecidableEq κ] in
theorem clustered_iff {ks : List κ} :
    Clustered ks ↔ ∀ a ∈ ks, ∀ b ∈ ks, a ≠ b → ¬[a, b, a].Sublist ks :=
  ⟨fun h a _ b _ => h a b, fun h a b hab hs =>
    h a (hs.subset (by simp)) b (hs.subset (by simp)) hab hs⟩

instance (ks : List κ) : Decidable (Clustered ks) := decidable_of_iff' _ clustered_iff

variable {kind} {k : κ} {l : List α} {n : ℕ}

variable (kind) in
theorem upTo_append_beyond (k : κ) (l : List α) : upTo kind k l ++ beyond kind k l = l :=
  List.rdropWhile_append_rtakeWhile

theorem kind_of_mem_beyond {x : α} (h : x ∈ beyond kind k l) : kind x ≠ k := by
  simpa using List.mem_rtakeWhile_imp h

variable (kind) in
theorem filter_eq_filter_upTo (k : κ) (l : List α) :
    l.filter (fun x => kind x = k) = (upTo kind k l).filter fun x => kind x = k := by
  have hnil : (beyond kind k l).filter (fun x => kind x = k) = [] :=
    List.filter_eq_nil_iff.2 fun x hx => by simpa using kind_of_mem_beyond hx
  conv_lhs => rw [← upTo_append_beyond kind k l]
  rw [List.filter_append, hnil, List.append_nil]

variable (kind) in
theorem upTo_ne_nil {a : α} : upTo kind (kind a) (a :: l) ≠ [] := by
  intro h
  have hmem : a ∈ beyond kind (kind a) (a :: l) := by
    have happ := upTo_append_beyond kind (kind a) (a :: l)
    rw [h, List.nil_append] at happ
    rw [happ]
    exact List.mem_cons_self
  exact kind_of_mem_beyond hmem rfl

theorem kind_getLast_upTo (h : upTo kind k l ≠ []) : kind ((upTo kind k l).getLast h) = k := by
  have hlast := List.rdropWhile_last_not (fun x => decide (kind x ≠ k)) l h
  rwa [decide_eq_true_eq, not_not] at hlast

variable (kind) in
/-- The list begins as its front part does. -/
theorem exists_upTo_cons {a : α} : ∃ r, upTo kind (kind a) (a :: l) = a :: r := by
  have happ := upTo_append_beyond kind (kind a) (a :: l)
  cases hup : upTo kind (kind a) (a :: l) with
  | nil => exact absurd hup (upTo_ne_nil kind)
  | cons b r =>
    rw [hup, List.cons_append] at happ
    injection happ with hb
    exact ⟨r, by rw [hb]⟩

variable (kind) in
theorem length_beyond_lt {a : α} : (beyond kind (kind a) (a :: l)).length < (a :: l).length := by
  have happ := congrArg List.length (upTo_append_beyond kind (kind a) (a :: l))
  have hpos := List.length_pos_of_ne_nil (upTo_ne_nil kind (a := a) (l := l))
  rw [List.length_append] at happ
  omega

variable (kind) in
/-- Nothing is seen twice or out of order. -/
theorem sweep_sublist (n : ℕ) (l : List α) : (sweep kind n l).Sublist l := by
  induction n generalizing l with
  | zero => exact List.nil_sublist l
  | succ n ih =>
    cases l with
    | nil => exact List.nil_sublist _
    | cons a l =>
      rw [sweep, filter_eq_filter_upTo]
      conv_rhs => rw [← upTo_append_beyond kind (kind a) (a :: l)]
      exact List.filter_sublist.append (ih _)

/-- The part of a list that lies in front is all of one kind, if the list is clustered. -/
theorem Clustered.kind_upTo {a : α} (h : Clustered ((a :: l).map kind)) {x : α}
    (hx : x ∈ upTo kind (kind a) (a :: l)) : kind x = kind a := by
  obtain ⟨r, hr⟩ := exists_upTo_cons kind (a := a) (l := l)
  have hsub : (upTo kind (kind a) (a :: l)).Sublist (a :: l) := by
    conv_rhs => rw [← upTo_append_beyond kind (kind a) (a :: l)]
    exact List.sublist_append_left _ _
  have hlast := kind_getLast_upTo (upTo_ne_nil kind (a := a) (l := l))
  by_contra hne
  -- the first entry, this one and the last one
  refine h (kind a) (kind x) (fun heq => hne heq.symm) (.trans ?_ (hsub.map kind))
  rw [hr] at hx
  have hxr : x ∈ r := (List.mem_cons.1 hx).resolve_left fun heq => hne (by rw [heq])
  simp only [hr] at hlast ⊢
  obtain ⟨s, t, rfl⟩ := List.append_of_mem hxr
  have ht : t ≠ [] := by
    rintro rfl
    rw [List.getLast_cons (by simp), List.getLast_append_singleton] at hlast
    exact hne hlast
  rw [List.getLast_cons (by simp), List.getLast_append_of_ne_nil _ (List.cons_ne_nil x t),
    List.getLast_cons ht] at hlast
  have hmem : kind a ∈ t.map kind := List.mem_map.2 ⟨t.getLast ht, List.getLast_mem ht, hlast⟩
  rw [List.map_cons, List.map_append, List.map_cons]
  refine List.Sublist.cons_cons _ (.trans ?_ (List.sublist_append_right _ _))
  exact List.Sublist.cons_cons _ (List.singleton_sublist.2 hmem)

omit [DecidableEq κ] in
theorem Clustered.of_sublist {ks ks' : List κ} (h : Clustered ks) (hs : ks'.Sublist ks) :
    Clustered ks' := fun a b hab hsub => h a b hab (hsub.trans hs)

omit [DecidableEq κ] in
/-- A part of one kind and a clustered part without it. -/
theorem Clustered.append {ks ks' : List κ} (hks : ∀ x ∈ ks, x = k) (hks' : ∀ x ∈ ks', x ≠ k)
    (h : Clustered ks') : Clustered (ks ++ ks') := by
  intro a b hab hsub
  obtain ⟨l₁, l₂, heq, h₁, h₂⟩ := List.sublist_append_iff.1 hsub
  match l₁, heq with
  | [], heq =>
    rw [List.nil_append] at heq
    exact h a b hab (heq ▸ h₂)
  | [x], heq =>
    injection heq with hx heq
    have ha : a = k := hks a (h₁.subset (by simp [hx]))
    exact hks' a (h₂.subset (by rw [← show [b, a] = l₂ from heq]; simp)) ha
  | x :: y :: r, heq =>
    injection heq with hx heq
    injection heq with hy heq
    have ha : a = k := hks a (h₁.subset (by simp [hx]))
    have hb : b = k := hks b (h₁.subset (by simp [hy]))
    exact hab (ha.trans hb.symm)

variable (kind) in
/-- **All of a list is seen exactly if it is clustered.** -/
theorem sweep_eq_self_iff (h : l.length ≤ n) : sweep kind n l = l ↔ Clustered (l.map kind) := by
  induction n generalizing l with
  | zero =>
    obtain rfl := List.eq_nil_of_length_eq_zero (Nat.le_zero.1 h)
    exact iff_of_true rfl fun a b _ hs => by cases hs
  | succ n ih =>
    cases l with
    | nil => exact iff_of_true rfl fun a b _ hs => by cases hs
    | cons a l =>
      have hlt := length_beyond_lt kind (a := a) (l := l)
      have hih := ih (l := beyond kind (kind a) (a :: l)) (by omega)
      have happ := upTo_append_beyond kind (kind a) (a :: l)
      rw [sweep, filter_eq_filter_upTo]
      constructor
      · intro heq
        -- neither part has lost anything
        have hlen := congrArg List.length heq
        have hfil : (upTo kind (kind a) (a :: l)).filter (fun x => kind x = kind a) |>.Sublist
            (upTo kind (kind a) (a :: l)) := List.filter_sublist
        have hswp := sweep_sublist kind n (beyond kind (kind a) (a :: l))
        have hle := hfil.length_le
        have hle' := hswp.length_le
        have hsum := congrArg List.length happ
        rw [List.length_append] at hlen hsum
        have hfront := hfil.eq_of_length (by omega)
        have hrest := hih.1 (hswp.eq_of_length (by omega))
        rw [← happ, List.map_append]
        refine Clustered.append (k := kind a) (fun x hx => ?_) (fun x hx => ?_) hrest
        · obtain ⟨y, hy, rfl⟩ := List.mem_map.1 hx
          rw [← hfront] at hy
          simpa using (List.mem_filter.1 hy).2
        · obtain ⟨y, hy, rfl⟩ := List.mem_map.1 hx
          exact kind_of_mem_beyond hy
      · intro hc
        have hfront : (upTo kind (kind a) (a :: l)).filter (fun x => kind x = kind a) =
            upTo kind (kind a) (a :: l) :=
          List.filter_eq_self.2 fun x hx => by simpa using hc.kind_upTo hx
        have hrest : Clustered ((beyond kind (kind a) (a :: l)).map kind) :=
          hc.of_sublist ((List.rtakeWhile_suffix _ _).sublist.map kind)
        rw [hfront, hih.2 hrest, happ]

end Paging
