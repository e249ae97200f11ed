import Mathlib.Combinatorics.SimpleGraph.Acyclic
import Mathlib.Combinatorics.SimpleGraph.Metric

/-!
# Trees of wires

A network whose wires form no cycle, seen from one of its vertices: every other vertex has one port
that leads back, and every wire is the way back from one of its two ends.

* `Hops`: the vertices that are a number of wires away;
* `wires`: the graph of a network; `Forest`: it has no cycle, and no two wires join the same
  vertices;
* `Rooted`: the network as a tree with a root;
* `Forest.rooted`: a network without cycles that is connected is one, from each of its vertices.
-/

namespace Vbt

variable {ι : Type*} {far : ι → ℕ → Option (ι × ℕ)}

/-- `j` is `n` wires away from `i`: `far i p = some (j, q)` is a wire from port `p` of `i` to port
`q` of `j`. -/
inductive Hops (far : ι → ℕ → Option (ι × ℕ)) : ℕ → ι → ι → Prop
  | zero (i : ι) : Hops far 0 i i
  | succ {n : ℕ} {i j k : ι} {p q : ℕ} : Hops far n i j → far j p = some (k, q) →
      Hops far (n + 1) i k

/-- The graph of the wires. -/
def wires (far : ι → ℕ → Option (ι × ℕ)) : SimpleGraph ι :=
  SimpleGraph.fromRel fun v u => ∃ p q, far v p = some (u, q)

/-- Every wire has two ends at different vertices, no two wires join the same vertices, and the
wires form no cycle. -/
structure Forest (far : ι → ℕ → Option (ι × ℕ)) : Prop where
  symm : ∀ {v p u q}, far v p = some (u, q) → far u q = some (v, p)
  irrefl : ∀ {v p u q}, far v p = some (u, q) → u ≠ v
  simple : ∀ {v p p' u q q'}, far v p = some (u, q) → far v p' = some (u, q') → p = p'
  acyclic : (wires far).IsAcyclic

/-- The network as a tree with root `o`: `up v` is the port of `v` that leads back to the root. -/
structure Rooted (far : ι → ℕ → Option (ι × ℕ)) (o : ι) where
  symm : ∀ {v p u q}, far v p = some (u, q) → far u q = some (v, p)
  depth : ι → ℕ
  up : ι → ℕ
  depth_root : depth o = 0
  parent : ∀ v, v ≠ o → ∃ u q, far v (up v) = some (u, q) ∧ depth v = depth u + 1
  wire : ∀ {v p u q}, far v p = some (u, q) →
    (v ≠ o ∧ p = up v ∧ depth v = depth u + 1) ∨ (u ≠ o ∧ q = up u ∧ depth u = depth v + 1)

theorem Rooted.depth_eq {o : ι} (R : Rooted far o) {v u : ι} {q : ℕ} (hne : v ≠ o)
    (hfar : far v (R.up v) = some (u, q)) : R.depth v = R.depth u + 1 := by
  obtain ⟨u', q', hfar', hd⟩ := R.parent v hne
  rw [hfar] at hfar'
  cases hfar'
  exact hd

namespace Forest

variable (h : Forest far)
include h

theorem adj_iff {v u : ι} : (wires far).Adj v u ↔ ∃ p q, far v p = some (u, q) := by
  rw [wires, SimpleGraph.fromRel_adj]
  constructor
  · rintro ⟨-, hvu | ⟨p, q, huv⟩⟩
    · exact hvu
    · exact ⟨q, p, h.symm huv⟩
  · rintro ⟨p, q, hvu⟩
    exact ⟨(h.irrefl hvu).symm, Or.inl ⟨p, q, hvu⟩⟩

theorem walk_of_hops {n : ℕ} {v u : ι} (hops : Hops far n v u) :
    ∃ w : (wires far).Walk v u, w.length = n := by
  induction hops with
  | zero => exact ⟨.nil, rfl⟩
  | succ _ hstep ih =>
    obtain ⟨w, hw⟩ := ih
    exact ⟨w.concat (h.adj_iff.2 ⟨_, _, hstep⟩), by rw [SimpleGraph.Walk.length_concat, hw]⟩

variable {o v u u' : ι}

/-- A vertex other than the root has a neighbour that is nearer to it. -/
theorem exists_parent (hne : v ≠ o) (hr : (wires far).Reachable o v) :
    ∃ u p q, far v p = some (u, q) ∧ (wires far).dist o v = (wires far).dist o u + 1 := by
  obtain ⟨w, hw⟩ := hr.exists_walk_length_eq_dist
  have hnil : ¬ w.Nil := fun hn => hne hn.eq.symm
  have hadj : (wires far).Adj v w.penultimate := (w.adj_penultimate hnil).symm
  have hle : (wires far).dist o w.penultimate ≤ w.dropLast.length := SimpleGraph.dist_le _
  have hlen : w.dropLast.length + 1 = w.length := w.length_dropLast_add_one hnil
  obtain ⟨p, q, hfar⟩ := h.adj_iff.1 hadj
  refine ⟨w.penultimate, p, q, hfar, ?_⟩
  rcases h.acyclic.dist_eq_dist_add_one_of_adj_of_reachable o hadj hr with hd | hd
  · exact hd
  · omega

/-- It has one only: two of them would lie on a cycle. -/
theorem parent_unique (hr : (wires far).Reachable o v) (hu : (wires far).Adj v u)
    (hu' : (wires far).Adj v u') (hd : (wires far).dist o v = (wires far).dist o u + 1)
    (hd' : (wires far).dist o v = (wires far).dist o u' + 1) : u = u' := by
  have hpath : ∀ {x}, (wires far).Adj v x → (wires far).dist o v = (wires far).dist o x + 1 →
      ∃ w : (wires far).Walk o x, ∃ hx : (wires far).Adj x v, (w.concat hx).IsPath := by
    intro x hx hdx
    obtain ⟨w, hw⟩ := (hr.trans hx.reachable).exists_walk_length_eq_dist
    refine ⟨w, hx.symm, (w.concat hx.symm).isPath_of_length_eq_dist ?_⟩
    rw [SimpleGraph.Walk.length_concat, hw, hdx]
  obtain ⟨w, hx, hp⟩ := hpath hu hd
  obtain ⟨w', hx', hp'⟩ := hpath hu' hd'
  have heq : w.concat hx = w'.concat hx' :=
    congrArg Subtype.val ((h.acyclic.subsingleton_path o v).elim ⟨_, hp⟩ ⟨_, hp'⟩)
  have hpen := congrArg SimpleGraph.Walk.penultimate heq
  simpa using hpen

/-- **A connected network without cycles is a tree** from each of its vertices, and a vertex is no
deeper than it is far away. -/
theorem rooted (o : ι) (hconn : ∀ v, ∃ n, Hops far n o v) :
    ∃ R : Rooted far o, ∀ v n, Hops far n o v → R.depth v ≤ n := by
  classical
  have hr : ∀ v, (wires far).Reachable o v := fun v => by
    obtain ⟨n, hn⟩ := hconn v
    obtain ⟨w, -⟩ := h.walk_of_hops hn
    exact w.reachable
  have hup : ∀ v, ∃ p, v ≠ o → ∃ u q, far v p = some (u, q) ∧
      (wires far).dist o v = (wires far).dist o u + 1 := by
    intro v
    by_cases hv : v = o
    · exact ⟨0, fun hc => absurd hv hc⟩
    · obtain ⟨u, p, q, hfar, hd⟩ := h.exists_parent hv (hr v)
      exact ⟨p, fun _ => ⟨u, q, hfar, hd⟩⟩
  choose up hup using hup
  -- the port towards a nearer neighbour is the one that leads back
  have hback : ∀ {v p u q}, far v p = some (u, q) →
      (wires far).dist o v = (wires far).dist o u + 1 → v ≠ o ∧ p = up v := by
    intro v p u q hfar hd
    have hv : v ≠ o := by
      rintro rfl
      rw [SimpleGraph.dist_self] at hd
      omega
    obtain ⟨u', q', hfar', hd'⟩ := hup v hv
    have huu : u = u' := h.parent_unique (hr v) (h.adj_iff.2 ⟨p, q, hfar⟩)
      (h.adj_iff.2 ⟨_, q', hfar'⟩) hd hd'
    subst huu
    exact ⟨hv, h.simple hfar hfar'⟩
  refine ⟨⟨h.symm, (wires far).dist o, up, SimpleGraph.dist_self, hup, fun {v p u q} hfar => ?_⟩,
    fun v n hn => ?_⟩
  · have hadj := h.adj_iff.2 ⟨p, q, hfar⟩
    rcases h.acyclic.dist_eq_dist_add_one_of_adj_of_reachable o hadj (hr v) with hd | hd
    · obtain ⟨hv, hp⟩ := hback hfar hd
      exact Or.inl ⟨hv, hp, hd⟩
    · obtain ⟨hu, hq⟩ := hback (h.symm hfar) hd
      exact Or.inr ⟨hu, hq, hd⟩
  · obtain ⟨w, hw⟩ := h.walk_of_hops hn
    exact hw ▸ SimpleGraph.dist_le w

end Forest

end Vbt
