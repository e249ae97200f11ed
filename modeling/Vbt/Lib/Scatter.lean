import Mathlib.Data.List.SplitLengths
import Mathlib.Tactic

/-!
# Scattering data over segments

Data is copied to the first cells of a list of segments, one segment after the other, as far as the
segments go.

* `scatter`: the segments afterwards, read off their concatenation;
* `scatter_cons`, `scatter_nil`: the same, segment by segment;
* `flatten_scatter`, `map_length_scatter`: contents and sizes.
-/

variable {α : Type}

/-- The segments after `data` was copied to their first cells. -/
def scatter (segs : List (List α)) (data : List α) : List (List α) :=
  (segs.map List.length).splitLengths
    (data.take segs.flatten.length ++ segs.flatten.drop data.length)

theorem length_overwrite (old data : List α) :
    (data.take old.length ++ old.drop data.length).length = old.length := by
  simp only [List.length_append, List.length_take, List.length_drop]
  omega

theorem flatten_scatter (segs : List (List α)) (data : List α) :
    (scatter segs data).flatten =
      data.take segs.flatten.length ++ segs.flatten.drop data.length := by
  refine List.flatten_splitLengths _ _ (le_of_eq ?_)
  rw [length_overwrite, List.length_flatten]

/-- The segments keep their sizes. -/
theorem map_length_scatter (segs : List (List α)) (data : List α) :
    (scatter segs data).map List.length = segs.map List.length := by
  refine List.map_splitLengths_length _ _ (le_of_eq ?_)
  rw [length_overwrite, List.length_flatten]

/-- The first segment takes what it has room for, and the others take the rest. -/
theorem scatter_cons (seg : List α) (segs : List (List α)) (data : List α) :
    scatter (seg :: segs) data =
      (data.take seg.length ++ seg.drop data.length) :: scatter segs (data.drop seg.length) := by
  have hall : (seg :: segs).flatten = seg ++ segs.flatten := List.flatten_cons
  unfold scatter
  rw [List.map_cons, List.splitLengths_cons, hall, List.length_append]
  rcases Nat.le_total data.length seg.length with hle | hge
  · -- the data ends in the first segment
    have hdata : data.drop seg.length = [] := List.drop_eq_nil_of_le hle
    have htake : data.take (seg.length + segs.flatten.length) = data :=
      List.take_of_length_le (by omega)
    have hfirst : data.take seg.length = data := List.take_of_length_le hle
    have hdrop : (seg ++ segs.flatten).drop data.length = seg.drop data.length ++ segs.flatten :=
      List.drop_append_of_le_length hle
    have hlen : (data ++ seg.drop data.length).length = seg.length := by
      rw [List.length_append, List.length_drop]
      omega
    rw [htake, hdrop, hdata, hfirst, ← List.append_assoc, ← hlen, List.take_left, List.drop_left,
      List.take_nil, List.nil_append, List.length_nil, List.drop_zero]
  · have hseg : seg.drop data.length = [] := List.drop_eq_nil_of_le hge
    have hdrop : (seg ++ segs.flatten).drop data.length =
        segs.flatten.drop (data.length - seg.length) := by
      rw [List.drop_append, hseg, List.nil_append]
    have hsplit : data.take (seg.length + segs.flatten.length) =
        data.take seg.length ++ (data.drop seg.length).take segs.flatten.length :=
      List.take_add
    have hlen : (data.take seg.length).length = seg.length := by
      rw [List.length_take]
      omega
    rw [hsplit, hdrop, hseg, List.append_nil, List.append_assoc, List.length_drop,
      List.take_left' hlen, List.drop_left' hlen]

theorem scatter_nil (segs : List (List α)) : scatter segs [] = segs := by
  induction segs with
  | nil => rfl
  | cons seg segs ih => rw [scatter_cons, List.take_nil, List.drop_nil, ih]; rfl
