import Vbt.Lib.Bytes
import Vbt.Lib.Stream

/-!
# Framings of a byte stream

A framing looks at the head of a stream and says that a message is there as a whole, that more is
needed, or that no message begins like this. What it says of a whole message or of a bad head does
not depend on what follows. The parse of a stream is therefore the same however the stream is cut
into pieces.

* `Verdict`, `Framing`;
* `Framing.parse`: the whole messages at the head of a stream, and what is left, `none` after a bad
  head; `parse_more`, `parse_bad`, `parse_whole`;
* `feed`: the parse continued with one more piece, and `feed_parse`;
* `Follower`: a loop that takes messages off a buffer as the framing says, `Follower.loop` and
  `Follower.read`;
* `lengthPrefixed`: messages behind their length in four bytes.
-/

/-- What a framing says about the head of a stream. -/
inductive Verdict
  /-- More is needed. -/
  | more
  /-- No message begins like this. -/
  | bad
  /-- The first `n` entries are a message. -/
  | whole (n : ℕ)
  deriving DecidableEq

/-- A framing of a stream. -/
structure Framing (α : Type) where
  verdict : List α → Verdict
  nil : verdict [] = .more
  pos : ∀ {l n}, verdict l = .whole n → 0 < n
  le : ∀ {l n}, verdict l = .whole n → n ≤ l.length
  whole_append : ∀ {l n} (r : List α), verdict l = .whole n → verdict (l ++ r) = .whole n
  bad_append : ∀ {l} (r : List α), verdict l = .bad → verdict (l ++ r) = .bad

namespace Framing

variable {α β σ : Type} (F : Framing α)

/-! ### The parse of a stream -/

/-- At most `n` messages off the head of a stream, and what is left. -/
def parseN : ℕ → List α → List (List α) × Option (List α)
  | 0, l => ([], some l)
  | n + 1, l =>
    match F.verdict l with
    | .more => ([], some l)
    | .bad => ([], none)
    | .whole k => (l.take k :: (parseN n (l.drop k)).1, (parseN n (l.drop k)).2)

/-- The messages of a stream, and what is left behind the last one: `none` if it is bad. -/
def parse (l : List α) : List (List α) × Option (List α) := F.parseN (l.length + 1) l

variable {F} {l r : List α} {n k : ℕ}

/-- Every message takes something off, so the length of the stream bounds their number. -/
theorem parseN_eq (h : l.length < n) : F.parseN n l = F.parse l := by
  suffices h : ∀ n m (l : List α), l.length < n → l.length < m → F.parseN n l = F.parseN m l from
    h n _ l ‹_› (Nat.lt_succ_self _)
  intro n
  induction n with
  | zero => intro m l hn; omega
  | succ n ih =>
    intro m l hn hm
    obtain ⟨m, rfl⟩ : ∃ m', m = m' + 1 := ⟨m - 1, by omega⟩
    simp only [parseN]
    cases hv : F.verdict l with
    | more => rfl
    | bad => rfl
    | whole k =>
      have hk := F.pos hv
      have hle := F.le hv
      have hlen : (l.drop k).length = l.length - k := List.length_drop
      dsimp only
      rw [ih m (l.drop k) (by omega) (by omega)]

theorem parse_more (h : F.verdict l = .more) : F.parse l = ([], some l) := by
  simp only [parse, parseN, h]

theorem parse_bad (h : F.verdict l = .bad) : F.parse l = ([], none) := by
  simp only [parse, parseN, h]

theorem parse_whole (h : F.verdict l = .whole k) :
    F.parse l = (l.take k :: (F.parse (l.drop k)).1, (F.parse (l.drop k)).2) := by
  have hk := F.pos h
  have hle := F.le h
  have hlen : (l.drop k).length = l.length - k := List.length_drop
  rw [← parseN_eq (show (l.drop k).length < l.length by omega), parse, parseN, h]

/-- What is left needs more. -/
theorem verdict_rest (h : (F.parse l).2 = some r) : F.verdict r = .more := by
  induction hn : l.length using Nat.strong_induction_on generalizing l with
  | _ n ih =>
    cases hv : F.verdict l with
    | more =>
      rw [parse_more hv, Option.some.injEq] at h
      rw [← h, hv]
    | bad =>
      rw [parse_bad hv] at h
      cases h
    | whole k =>
      rw [parse_whole hv] at h
      have hk := F.pos hv
      have hle := F.le hv
      exact ih _ (by rw [List.length_drop]; omega) h rfl

/-! ### Pieces -/

variable (F) in
/-- The parse of what was read so far, continued with a piece. -/
def feed (x : List (List α) × Option (List α)) (c : List α) : List (List α) × Option (List α) :=
  match x.2 with
  | none => x
  | some r => (x.1 ++ (F.parse (r ++ c)).1, (F.parse (r ++ c)).2)

/-- **One piece more** gives the parse of the longer stream. -/
theorem feed_parse (l c : List α) : F.feed (F.parse l) c = F.parse (l ++ c) := by
  induction hn : l.length using Nat.strong_induction_on generalizing l with
  | _ n ih =>
    cases hv : F.verdict l with
    | more =>
      rw [parse_more hv]
      rfl
    | bad =>
      rw [parse_bad hv, parse_bad (F.bad_append c hv)]
      rfl
    | whole k =>
      -- the first message is the same, and the rest is shorter
      have hk := F.pos hv
      have hle := F.le hv
      have hrest := ih (l.drop k).length (by rw [List.length_drop]; omega) (l.drop k) rfl
      rw [parse_whole hv, parse_whole (F.whole_append c hv), List.take_append_of_le_length hle,
        List.drop_append_of_le_length hle, ← hrest]
      rcases F.parse (l.drop k) with ⟨ms, _ | r⟩
      · rfl
      · rfl

/-! ### Loops that follow a framing -/

/-- A state with a buffer and a record of the messages taken so far, and the body of a loop. As long
as a state is `live`, the body takes a whole message off, unless the state is `lost` meanwhile,
stops when more is needed, and ends in a `failed` state at a bad head. -/
structure Follower (F : Framing α) (σ β : Type) where
  held : σ → List α
  taken : σ → List β
  /-- What is recorded of a message. -/
  msg : List α → β
  body : σ → σ × Bool
  live : σ → Prop
  lost : σ → Prop
  failed : σ → Prop
  more : ∀ {s}, live s → F.verdict (held s) = .more → body s = (s, false)
  bad : ∀ {s}, live s → F.verdict (held s) = .bad →
    ∃ s', body s = (s', false) ∧ failed s' ∧ taken s' = taken s
  whole : ∀ {s n}, live s → F.verdict (held s) = .whole n →
    (∃ s', body s = (s', false) ∧ lost s') ∨
    ∃ s', body s = (s', true) ∧ live s' ∧ held s' = (held s).drop n ∧
      taken s' = taken s ++ [msg ((held s).take n)]

/-- What a loop has come to after a stream with the given parse. -/
def Follower.Reached (R : Follower F σ β) (before : List β)
    (x : List (List α) × Option (List α)) (s : σ) : Prop :=
  R.taken s = before ++ x.1.map R.msg ∧
    match x.2 with
    | some r => R.live s ∧ R.held s = r
    | none => R.failed s

/-- **The loop** takes the messages of the buffer and leaves the rest, unless the state is lost. -/
theorem Follower.loop (R : Follower F σ β) {s : σ} (h : R.live s) (hn : (R.held s).length ≤ n) :
    R.lost (loopWhile R.body n s) ∨
      R.Reached (R.taken s) (F.parse (R.held s)) (loopWhile R.body n s) := by
  induction n generalizing s with
  | zero =>
    -- nothing is left to look at
    have hnil : R.held s = [] := List.eq_nil_of_length_eq_zero (Nat.le_zero.1 hn)
    right
    rw [hnil, parse_more F.nil]
    exact ⟨(List.append_nil _).symm, h, hnil⟩
  | succ n ih =>
    cases hv : F.verdict (R.held s) with
    | more =>
      right
      rw [loopWhile_stop (R.more h hv), parse_more hv]
      exact ⟨(List.append_nil _).symm, h, rfl⟩
    | bad =>
      obtain ⟨s', hbody, hfail, htaken⟩ := R.bad h hv
      right
      rw [loopWhile_stop hbody, parse_bad hv]
      exact ⟨htaken.trans (List.append_nil _).symm, hfail⟩
    | whole k =>
      rcases R.whole h hv with ⟨s', hbody, hlost⟩ | ⟨s', hbody, hlive, hheld, htaken⟩
      · left
        rwa [loopWhile_stop hbody]
      · rw [loopWhile_go hbody, parse_whole hv, ← hheld]
        have hk := F.pos hv
        have hlen : (R.held s').length ≤ n := by
          rw [hheld, List.length_drop]
          omega
        refine (ih hlive hlen).imp_right fun hr => ⟨?_, hr.2⟩
        rw [hr.1, htaken, List.append_assoc]
        rfl

/-- **A read**: what was left of the stream so far, and a piece behind it, is handed to the loop. -/
theorem Follower.read (R : Follower F σ β) {before : List β} {c : List α} {s s' : σ}
    (h : R.Reached before (F.parse l) s) (hrest : (F.parse l).2 = some r) (hlive : R.live s')
    (hheld : R.held s' = r ++ c) (htaken : R.taken s' = R.taken s)
    (hn : (R.held s').length ≤ n) :
    R.lost (loopWhile R.body n s') ∨
      R.Reached before (F.parse (l ++ c)) (loopWhile R.body n s') := by
  have hparse : F.parse (l ++ c) =
      ((F.parse l).1 ++ (F.parse (r ++ c)).1, (F.parse (r ++ c)).2) := by
    rw [← feed_parse, feed, hrest]
  rw [hparse, ← hheld]
  refine (R.loop hlive hn).imp_right fun hr => ⟨?_, hr.2⟩
  rw [hr.1, htaken, h.1, List.map_append, List.append_assoc]

end Framing

/-! ### Length prefixes -/

/-- The verdict on messages behind their length in four bytes, the most significant first, where no
length is above `max`. -/
def lengthPrefixedVerdict (max : ℕ) : List UInt8 → Verdict
  | b0 :: b1 :: b2 :: b3 :: rest =>
    if max < be32 b0 b1 b2 b3 then .bad
    else if rest.length < be32 b0 b1 b2 b3 then .more
    else .whole (4 + be32 b0 b1 b2 b3)
  | _ => .more

/-- Messages behind their length in four bytes. -/
def lengthPrefixed (max : ℕ) : Framing UInt8 where
  verdict := lengthPrefixedVerdict max
  nil := rfl
  pos := by
    intro l n h
    unfold lengthPrefixedVerdict at h
    split at h
    · split_ifs at h
      injection h
      omega
    · cases h
  le := by
    intro l n h
    unfold lengthPrefixedVerdict at h
    split at h
    · split_ifs at h
      injection h
      simp only [List.length_cons]
      omega
    · cases h
  whole_append := by
    intro l n r h
    unfold lengthPrefixedVerdict at h
    split at h
    · rename_i b0 b1 b2 b3 rest
      split_ifs at h with hbig hmore
      rw [← h]
      simp only [lengthPrefixedVerdict, List.cons_append, if_neg hbig, List.length_append]
      rw [if_neg (by omega)]
    · cases h
  bad_append := by
    intro l r h
    unfold lengthPrefixedVerdict at h
    split at h
    · rename_i b0 b1 b2 b3 rest
      split_ifs at h with hbig
      simp only [lengthPrefixedVerdict, List.cons_append, if_pos hbig]
    · cases h

/-- The verdict by the length of the stream. -/
theorem lengthPrefixed_verdict (max : ℕ) (l : List UInt8) :
    (lengthPrefixed max).verdict l =
      if l.length < 4 then .more
      else if max < be32 (l.getD 0 0) (l.getD 1 0) (l.getD 2 0) (l.getD 3 0) then .bad
      else if l.length < 4 + be32 (l.getD 0 0) (l.getD 1 0) (l.getD 2 0) (l.getD 3 0) then .more
      else .whole (4 + be32 (l.getD 0 0) (l.getD 1 0) (l.getD 2 0) (l.getD 3 0)) := by
  show lengthPrefixedVerdict max l = _
  match l with
  | [] | [_] | [_, _] | [_, _, _] => rfl
  | b0 :: b1 :: b2 :: b3 :: rest =>
    have hlen : (b0 :: b1 :: b2 :: b3 :: rest).length = 4 + rest.length := by
      simp only [List.length_cons]
      omega
    show (if max < be32 b0 b1 b2 b3 then Verdict.bad
      else if rest.length < be32 b0 b1 b2 b3 then Verdict.more
      else Verdict.whole (4 + be32 b0 b1 b2 b3)) = _
    rw [hlen, if_neg (show ¬4 + rest.length < 4 by omega)]
    simp only [Nat.add_lt_add_iff_left]
    rfl

/-- What needs more is shorter than the longest message. -/
theorem length_lt_of_more {max : ℕ} {l : List UInt8}
    (h : (lengthPrefixed max).verdict l = .more) : l.length < 4 + max := by
  rw [lengthPrefixed_verdict] at h
  split_ifs at h <;> omega
