import Mathlib.Tactic

/-!
# Reassembly of a stream of messages

A sender writes self-delimiting messages one after the other. A receiver reads the stream in pieces
of any size into a buffer of fixed capacity and, after each read, runs a loop that takes whole
messages off the head of the buffer. However the stream is cut, the receiver takes exactly the
messages that were sent.

* `loopWhile`: a loop whose body says whether to go on, and `loopWhile_rule`;
* `Receiver`, and `Receiver.Sound`: the body takes a whole message off and stops at a part of one;
* `Receiver.Awaits`: what is held is a proper part of the next message;
* `Sound.loopWhile`: the loop takes the whole messages off and is left awaiting the next one;
* `Reads`, `Reads.Fit`, `Reads.Loops`, and the round trip `Reads.round_trip`.
-/

variable {α γ μ σ : Type}

/-- A loop that runs its body until the body says stop, at most `n` times. -/
def loopWhile (body : σ → σ × Bool) : ℕ → σ → σ
  | 0, s => s
  | n + 1, s =>
    match body s with
    | (s, true) => loopWhile body n s
    | (s, false) => s

theorem loopWhile_stop {body : σ → σ × Bool} {s s' : σ} (h : body s = (s', false)) (n : ℕ) :
    loopWhile body (n + 1) s = s' := by
  simp only [loopWhile, h]

theorem loopWhile_go {body : σ → σ × Bool} {s s' : σ} (h : body s = (s', true)) (n : ℕ) :
    loopWhile body (n + 1) s = loopWhile body n s' := by
  simp only [loopWhile, h]

/-- The rule of invariants: `I` holds whenever the body starts, and `J` when the loop is left. -/
theorem loopWhile_rule {body : σ → σ × Bool} {I J : σ → Prop} (hleave : ∀ s, I s → J s)
    (hgo : ∀ s, I s → (body s).2 = true → I (body s).1)
    (hstop : ∀ s, I s → (body s).2 = false → J (body s).1) (n : ℕ) {s : σ} (h : I s) :
    J (loopWhile body n s) := by
  induction n generalizing s with
  | zero => exact hleave s h
  | succ n ih =>
    have hgo := hgo s h
    have hstop := hstop s h
    rcases hb : body s with ⟨s', _ | _⟩ <;> rw [hb] at hgo hstop
    · rw [loopWhile_stop hb]
      exact hstop rfl
    · rw [loopWhile_go hb]
      exact ih (hgo rfl)

/-- What two streams have in common at their heads: the first message of the second one is held
whole by the first, or in part. -/
theorem whole_or_part {a b c d : List α} (h : a ++ b = c ++ d) :
    (∃ rest, a = c ++ rest ∧ rest ++ b = d) ∨ ∃ rest, rest ≠ [] ∧ c = a ++ rest := by
  rcases List.append_eq_append_iff.1 h with ⟨rest, hc, hb⟩ | ⟨rest, ha, hd⟩
  · rcases eq_or_ne rest [] with rfl | hne
    · exact Or.inl ⟨[], by simpa using hc.symm, by simpa using hb⟩
    · exact Or.inr ⟨rest, hne, hc⟩
  · exact Or.inl ⟨rest, ha, hd.symm⟩

/-- A receiver: the bytes it holds, the messages it has taken so far, and the body of its loop. -/
structure Receiver (α μ σ : Type) where
  held : σ → List α
  taken : σ → List μ
  body : σ → σ × Bool

namespace Receiver

variable {R : Receiver α μ σ} {enc : μ → List α} {V : μ → Prop} {I : σ → Prop}

/-- In the states of `I` the body takes a valid message off the buffer if it is there as a whole,
and stops at a part of one. -/
structure Sound (R : Receiver α μ σ) (enc : μ → List α) (V : μ → Prop) (I : σ → Prop) : Prop where
  nonempty : ∀ {m}, V m → enc m ≠ []
  whole : ∀ {s m rest}, I s → V m → R.held s = enc m ++ rest →
    ∃ s', R.body s = (s', true) ∧ I s' ∧ R.held s' = rest ∧ R.taken s' = R.taken s ++ [m]
  part : ∀ {s m rest}, I s → V m → rest ≠ [] → enc m = R.held s ++ rest → R.body s = (s, false)
  idle : ∀ {s}, I s → R.held s = [] → R.body s = (s, false)

/-- What is held is a proper part of the first message to come. -/
def Awaits (R : Receiver α μ σ) (enc : μ → List α) (s : σ) : List μ → Prop
  | [] => R.held s = []
  | m :: _ => ∃ rest, rest ≠ [] ∧ enc m = R.held s ++ rest

/-- A receiver that holds nothing awaits whatever is to come. -/
theorem Sound.awaits (h : R.Sound enc V I) {s : σ} (hnil : R.held s = []) {todo : List μ}
    (hV : ∀ m ∈ todo, V m) : R.Awaits enc s todo := by
  cases todo with
  | nil => exact hnil
  | cons m more => exact ⟨enc m, h.nonempty (hV m List.mem_cons_self),
      by rw [hnil, List.nil_append]⟩

/-- **The loop** takes the messages that are there as a whole, and is left awaiting the next. -/
theorem Sound.drains (h : R.Sound enc V I) {todo : List μ} (hV : ∀ m ∈ todo, V m) {later : List α}
    {n : ℕ} {s : σ} (hI : I s) (hn : (R.held s).length ≤ n)
    (hs : R.held s ++ later = todo.flatMap enc) :
    ∃ done more, todo = done ++ more ∧ I (loopWhile R.body n s) ∧
      R.taken (loopWhile R.body n s) = R.taken s ++ done ∧
      R.held (loopWhile R.body n s) ++ later = more.flatMap enc ∧
      R.Awaits enc (loopWhile R.body n s) more := by
  induction n generalizing s todo with
  | zero =>
    have hnil : R.held s = [] := List.length_eq_zero_iff.1 (Nat.le_zero.1 hn)
    exact ⟨[], todo, rfl, hI, (List.append_nil _).symm, hs, h.awaits hnil hV⟩
  | succ n ih =>
    cases todo with
    | nil =>
      have hnil : R.held s = [] := (List.append_eq_nil_iff.1 hs).1
      rw [loopWhile_stop (h.idle hI hnil)]
      exact ⟨[], [], rfl, hI, (List.append_nil _).symm, hs, hnil⟩
    | cons m todo =>
      have hm : V m := hV m List.mem_cons_self
      rw [List.flatMap_cons] at hs
      rcases whole_or_part hs with ⟨rest, hheld, hrest⟩ | ⟨rest, hne, henc⟩
      · -- a whole message: it is taken, and the loop goes on with fewer bytes
        obtain ⟨s', hbody, hI', hheld', htaken⟩ := h.whole hI hm hheld
        have hlen : (R.held s').length ≤ n := by
          have hpos := List.length_pos_of_ne_nil (h.nonempty hm)
          rw [hheld, List.length_append] at hn
          rw [hheld']
          omega
        obtain ⟨done, more, rfl, hI'', htaken', hheld'', haw⟩ :=
          ih (fun x hx => hV x (List.mem_cons_of_mem _ hx)) hI' hlen (by rw [hheld', hrest])
        rw [loopWhile_go hbody]
        refine ⟨m :: done, more, rfl, hI'', ?_, hheld'', haw⟩
        rw [htaken', htaken, List.append_assoc, List.singleton_append]
      · rw [loopWhile_stop (h.part hI hm hne henc)]
        refine ⟨[], m :: todo, rfl, hI, (List.append_nil _).symm, ?_, rest, hne, henc⟩
        rw [hs, List.flatMap_cons]

end Receiver

/-- How a receiver reads: the room it offers, and what it does with a chunk of the stream. -/
structure Reads (α γ μ σ : Type) extends Receiver α μ σ where
  room : σ → ℕ
  bytes : γ → List α
  read : σ → γ → σ

namespace Reads

variable {R : Reads α γ μ σ} {enc : μ → List α} {V : μ → Prop} {I : σ → Prop} {A : γ →
  Prop} {cap : ℕ}

/-- Every read brings something, and no more than there is room for. -/
def Fit (R : Reads α γ μ σ) : σ → List γ → Prop
  | _, [] => True
  | s, c :: cs => R.bytes c ≠ [] ∧ (R.bytes c).length ≤ R.room s ∧ Fit R (R.read s c) cs

instance decidableFit [DecidableEq α] (R : Reads α γ μ σ) : (s : σ) → (cs : List γ) →
    Decidable (R.Fit s cs)
  | _, [] => isTrue trivial
  | s, c :: cs => @instDecidableAnd _ _ _ (@instDecidableAnd _ _ _ (decidableFit R (R.read s c) cs))

/-- As long as the buffer is not full, a read puts what it brings behind what is held and runs the
loop. -/
def Loops (R : Reads α γ μ σ) (cap : ℕ) (A : γ → Prop) (I : σ → Prop) : Prop :=
  ∀ s c, I s → A c → (R.held s).length < cap → R.bytes c ≠ [] → (R.bytes c).length ≤ R.room s →
    ∃ s', R.read s c = loopWhile R.body (R.held s').length s' ∧ I s' ∧
      R.held s' = R.held s ++ R.bytes c ∧ R.taken s' = R.taken s

/-- A receiver that awaits a message no longer than its buffer has room left. -/
theorem held_lt (hcap : 0 < cap) (hlen : ∀ m, V m → (enc m).length ≤ cap) {s : σ} {todo : List μ}
    (hV : ∀ m ∈ todo, V m) (h : R.Awaits enc s todo) : (R.held s).length < cap := by
  cases todo with
  | nil =>
    have hnil : R.held s = [] := h
    rw [hnil]
    exact hcap
  | cons m more =>
    obtain ⟨rest, hne, henc⟩ := h
    have hm := hlen m (hV m List.mem_cons_self)
    have hpos := List.length_pos_of_ne_nil hne
    rw [henc, List.length_append] at hm
    omega

/-- **Round trip.** However the stream of some messages is cut into reads, the receiver takes
exactly these messages, in order, and holds nothing in the end. -/
theorem round_trip (hR : R.Sound enc V I) (hloops : R.Loops cap A I) (hcap : 0 < cap)
    (hlen : ∀ m, V m → (enc m).length ≤ cap) {cs : List γ} (hA : ∀ c ∈ cs, A c) {todo : List μ}
    (hV : ∀ m ∈ todo, V m) {s : σ} (hI : I s) (hnil : R.held s = []) (hfit : R.Fit s cs)
    (hs : cs.flatMap R.bytes = todo.flatMap enc) :
    I (cs.foldl R.read s) ∧ R.held (cs.foldl R.read s) = [] ∧
      R.taken (cs.foldl R.read s) = R.taken s ++ todo := by
  have haw := hR.awaits hnil hV
  replace hs : R.held s ++ cs.flatMap R.bytes = todo.flatMap enc := by
    rw [hnil, List.nil_append, hs]
  clear hnil
  -- between two reads a part of the next message is held
  induction cs generalizing s todo with
  | nil =>
    -- the whole stream is held, so nothing is awaited any more
    cases todo with
    | nil => exact ⟨hI, haw, (List.append_nil _).symm⟩
    | cons m more =>
      obtain ⟨rest, hne, henc⟩ := haw
      have hnil : rest ++ more.flatMap enc = [] := by
        simpa [henc] using hs
      exact absurd (List.append_eq_nil_iff.1 hnil).1 hne
  | cons c cs ih =>
    obtain ⟨hne, hroom, hfit'⟩ := hfit
    obtain ⟨s', hread, hI', hheld, htaken⟩ := hloops s c hI (hA c List.mem_cons_self)
      (held_lt hcap hlen hV haw) hne hroom
    have hs' : R.held s' ++ cs.flatMap R.bytes = todo.flatMap enc := by
      rw [hheld, List.append_assoc, ← List.flatMap_cons]
      exact hs
    obtain ⟨done, more, rfl, hI'', htaken', hheld', haw'⟩ := hR.drains hV hI' (le_refl _) hs'
    rw [← hread] at hI'' htaken' hheld' haw'
    obtain ⟨hI3, hheld3, htaken3⟩ := ih (fun x hx => hA x (List.mem_cons_of_mem _ hx))
      (fun m hm => hV m (List.mem_append_right _ hm)) hI'' hfit' haw' hheld'
    refine ⟨hI3, hheld3, htaken3.trans ?_⟩
    rw [htaken', htaken, List.append_assoc]

end Reads
