import Vbt.Lib.Framing

/-!
# Lines

A line ends with a separator.  The framing of a stream in lines of bounded length calls a head bad
as soon as no separator can come in time.  Its messages are the lines of the stream, up to the first
one that is too long.

* `linesVerdict`, `lines`;
* `parse_lines`: the parse is that of `List.splitOn`.
-/

variable {α : Type} [DecidableEq α]

/-- The verdict on lines of at most `max` entries before their separator. -/
def linesVerdict (sep : α) (max : ℕ) (l : List α) : Verdict :=
  if max < l.idxOf sep then .bad
  else if l.idxOf sep < l.length then .whole (l.idxOf sep + 1)
  else .more

theorem idxOf_le_idxOf_append (sep : α) (l r : List α) : l.idxOf sep ≤ (l ++ r).idxOf sep := by
  by_cases h : sep ∈ l
  · rw [List.idxOf_append_of_mem h]
  · rw [List.idxOf_append_of_notMem h, List.idxOf_eq_length h]
    omega

/-- Lines of at most `max` entries, each with a separator behind it. -/
def lines (sep : α) (max : ℕ) : Framing α where
  verdict := linesVerdict sep max
  nil := by simp [linesVerdict]
  pos := by
    intro l n h
    unfold linesVerdict at h
    split_ifs at h
    injection h
    omega
  le := by
    intro l n h
    unfold linesVerdict at h
    split_ifs at h
    injection h
    omega
  whole_append := by
    intro l n r h
    unfold linesVerdict at h
    split_ifs at h with hmax hlt
    have hmem : sep ∈ l := List.idxOf_lt_length_iff.1 hlt
    rw [linesVerdict, List.idxOf_append_of_mem hmem, if_neg hmax, if_pos, h]
    rw [List.length_append]
    omega
  bad_append := by
    intro l r h
    unfold linesVerdict at h
    split_ifs at h with hmax
    rw [linesVerdict, if_pos (hmax.trans_le (idxOf_le_idxOf_append sep l r))]

section Verdict

variable {sep : α} (max : ℕ) {l : List α}

/-- The head of a stream is its first line, if that has ended. -/
theorem verdict_line (hsep : sep ∉ l) (rest : List α) : (lines sep max).verdict (l ++ sep :: rest) =
    if max < l.length then .bad else .whole (l.length + 1) := by
  have hidx : (l ++ sep :: rest).idxOf sep = l.length := by
    rw [List.idxOf_append_of_notMem hsep, List.idxOf_cons_self, Nat.add_zero]
  show linesVerdict sep max _ = _
  rw [linesVerdict, hidx, if_pos (show l.length < (l ++ sep :: rest).length by simp)]

/-- A line that has not ended. -/
theorem verdict_part (hsep : sep ∉ l) :
    (lines sep max).verdict l = if max < l.length then .bad else .more := by
  show linesVerdict sep max l = _
  rw [linesVerdict, List.idxOf_eq_length hsep, if_neg (lt_irrefl l.length)]

/-- A stream is a line that has not ended, or has a first line. -/
theorem line_or_part (sep : α) (l : List α) :
    sep ∉ l ∨ ∃ line rest, l = line ++ sep :: rest ∧ sep ∉ line := by
  by_cases h : sep ∈ l
  · obtain ⟨line, rest, hl, hline⟩ := List.eq_append_cons_of_mem h
    exact Or.inr ⟨line, rest, hl, hline⟩
  · exact Or.inl h

/-- What needs more is short. -/
theorem length_le_of_verdict_more {max : ℕ} (h : (lines sep max).verdict l = .more) :
    sep ∉ l ∧ l.length ≤ max := by
  rcases line_or_part sep l with hsep | ⟨line, rest, rfl, hsep⟩
  · rw [verdict_part max hsep] at h
    split_ifs at h
    exact ⟨hsep, by omega⟩
  · rw [verdict_line max hsep] at h
    split_ifs at h

theorem line_of_verdict_whole {max n : ℕ} (h : (lines sep max).verdict l = .whole n) :
    ∃ line rest, l = line ++ sep :: rest ∧ sep ∉ line ∧ n = line.length + 1 := by
  rcases line_or_part sep l with hsep | ⟨line, rest, rfl, hsep⟩
  · rw [verdict_part max hsep] at h
    split_ifs at h
  · rw [verdict_line max hsep] at h
    split_ifs at h
    injection h with h
    exact ⟨line, rest, rfl, hsep, h.symm⟩

/-- A bad head that is no longer than it must be to be bad. -/
theorem notMem_of_verdict_bad {max : ℕ} (h : (lines sep max).verdict l = .bad)
    (hlen : l.length ≤ max + 1) : sep ∉ l ∧ l.length = max + 1 := by
  rcases line_or_part sep l with hsep | ⟨line, rest, rfl, hsep⟩
  · rw [verdict_part max hsep] at h
    split_ifs at h
    exact ⟨hsep, by omega⟩
  · rw [verdict_line max hsep] at h
    split_ifs at h
    rw [List.length_append, List.length_cons] at hlen
    omega

end Verdict

theorem notMem_of_mem_splitOn {sep : α} {l line : List α} (h : line ∈ l.splitOn sep) :
    sep ∉ line := by
  induction hn : l.length using Nat.strong_induction_on generalizing l with
  | _ n ih =>
    rcases line_or_part sep l with hsep | ⟨first, rest, rfl, hsep⟩
    · rw [List.splitOn_eq_singleton hsep, List.mem_singleton] at h
      rwa [h]
    · rw [List.splitOn_append_cons_self_of_not_mem hsep, List.mem_cons] at h
      rcases h with rfl | h
      · exact hsep
      · refine ih rest.length ?_ h rfl
        rw [← hn, List.length_append, List.length_cons]
        omega

/-- **The lines of a stream**: those of `splitOn` except the last one, which has not ended, up to
the first one that is too long. -/
theorem parse_lines (sep : α) (max : ℕ) (l : List α) :
    (((lines sep max).parse l).1 =
      ((l.splitOn sep).dropLast.takeWhile fun line => line.length ≤ max).map (· ++ [sep])) ∧
    (((lines sep max).parse l).2 = none ↔ ∃ line ∈ l.splitOn sep, max < line.length) := by
  induction hn : l.length using Nat.strong_induction_on generalizing l with
  | _ n ih =>
    rcases line_or_part sep l with hsep | ⟨line, rest, rfl, hsep⟩
    · rw [List.splitOn_eq_singleton hsep]
      by_cases hmax : max < l.length
      · have hv := verdict_part max hsep
        rw [if_pos hmax] at hv
        rw [Framing.parse_bad hv]
        simpa using hmax
      · have hv := verdict_part max hsep
        rw [if_neg hmax] at hv
        rw [Framing.parse_more hv]
        simpa using hmax
    · rw [List.splitOn_append_cons_self_of_not_mem hsep,
        List.dropLast_cons_of_ne_nil (List.splitOn_ne_nil _ _)]
      have hv := verdict_line max hsep rest
      by_cases hmax : max < line.length
      · rw [if_pos hmax] at hv
        rw [Framing.parse_bad hv, List.takeWhile_cons_of_neg (by simpa using hmax)]
        simp [hmax]
      · rw [if_neg hmax] at hv
        have hshort : rest.length < n := by
          rw [← hn, List.length_append, List.length_cons]
          omega
        obtain ⟨hlines, hbad⟩ := ih rest.length hshort rest rfl
        have htake : (line ++ sep :: rest).take (line.length + 1) = line ++ [sep] := by
          rw [List.append_cons]
          exact List.take_left' (by simp)
        have hdrop : (line ++ sep :: rest).drop (line.length + 1) = rest := by
          rw [List.append_cons]
          exact List.drop_left' (by simp)
        rw [Framing.parse_whole hv, htake, hdrop, hlines,
          List.takeWhile_cons_of_pos (by simpa using hmax)]
        refine ⟨rfl, hbad.trans ?_⟩
        simp [hmax]
