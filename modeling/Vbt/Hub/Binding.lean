import Vbt.Hub.Effects

/-!
# Peers and nodes

A binding is stored twice, as `node_idx` of the peer and as `peer_idx` of the node. `BindingsAgree`
says that the two tables agree. A hello of a peer that is already bound to another node
(`Rebinds`) leaves the old node's `peer_idx` behind; this is the only way the agreement is lost.

* `BindingsAgree`, `NoRebinding`;
* `bijective_suffixes_iff`: the bindings agreed all along exactly if no hello rebinds;
* `bindings_agree`: the same for the tables, in every reachable state;
* `Reachable.disciplined`: what one hello for each peer gives.
-/

namespace Vbt
namespace Hub

open Router

/-- The peer of every node is open and bound to it, and every open peer that is bound to a node is
the peer of that node, which is active. -/
structure BindingsAgree (s : Hub) : Prop where
  of_node : ∀ k p, (s.nodes k).peerIdx = some p →
    (s.peers p).isOpen = true ∧ (s.peers p).nodeIdx = some k
  of_peer : ∀ p k, (s.peers p).isOpen = true → (s.peers p).nodeIdx = some k →
    (s.nodes k).active = true ∧ (s.nodes k).peerIdx = some p

theorem bindingsAgree_iff {s : Hub} : BindingsAgree s ↔ Bijective s.router :=
  ⟨fun h => ⟨h.of_node, h.of_peer⟩, fun h => ⟨h.nodeOf_peerOf, h.peerOf_nodeOf⟩⟩

/-- No peer says hello under another node's id while it is bound to a node. -/
def NoRebinding : List Act → Prop := Throughout fun t a => ¬ (medium.replay t).Rebinds a

instance (log : List Act) : Decidable (NoRebinding log) := Throughout.decidable log

theorem bijective_of_noRebinding {log : List Act} (hlegal : medium.Legal log)
    (h : NoRebinding log) : Bijective (medium.replay log) :=
  hlegal.invariant_of (I := fun _ => Bijective) Bijective.empty
    (fun _ _ ht _ hb he hreb => hb.apply (blank_of_legal ht) he hreb) h

/-- The bindings agreed at every point of a history exactly if no hello of it rebinds a peer. -/
theorem bijective_suffixes_iff {log : List Act} (hlegal : medium.Legal log) :
    (∀ t, t <:+ log → Bijective (medium.replay t)) ↔ NoRebinding log := by
  constructor
  · intro h
    induction log with
    | nil => trivial
    | cons a t ih =>
      have ht : ∀ t', t' <:+ t → Bijective (medium.replay t') := fun t' ht' =>
        h t' (ht'.trans (List.suffix_cons a t))
      refine ⟨fun hreb => ?_, ih hlegal.2 ht⟩
      exact hreb.not_bijective (ht t List.suffix_rfl) (blank_of_legal hlegal.2)
        (h (a :: t) List.suffix_rfl)
  · rintro h t ⟨new, rfl⟩
    exact bijective_of_noRebinding (Throughout.of_append hlegal) (Throughout.of_append h)

theorem Tracked.bijective {s : Hub} (h : Tracked s) (hreb : NoRebinding s.log) :
    Bijective s.router := by
  rw [h.router]
  exact bijective_of_noRebinding h.legal hreb

/-- **Bindings agree in every state of every run in which no hello rebinds a peer.** -/
theorem bindings_agree {s : Hub} (hr : Reachable s) (hreb : NoRebinding s.log) :
    BindingsAgree s :=
  bindingsAgree_iff.2 (hr.tracked.bijective hreb)

/-- Two peers say hello under one id: the second replaces the first. -/
def replacementRun : List Event :=
  [.accept 5 false, .recv 0 (.data (wire (helloPayload [0x41] 0))), .message 0 Kern.quiet,
    .accept 6 false, .recv 1 (.data (wire (helloPayload [0x41] 0))), .message 1 Kern.quiet]

theorem bindings_agree_replacement :
    (((Hub.init 0).run replacementRun).nodes 0).peerIdx = some 1 ∧
      BindingsAgree ((Hub.init 0).run replacementRun) := by
  exact ⟨rfl, bindings_agree ⟨0, replacementRun, rfl⟩ (by decide +kernel)⟩

/-- A peer says hello twice, under two ids. -/
def rebindingRun : List Event :=
  [.accept 5 false, .recv 0 (.data (wire (helloPayload [0x41] 0))), .message 0 Kern.quiet,
    .recv 0 (.data (wire (helloPayload [0x42] 0))), .message 0 Kern.quiet]

/-- After the second hello node `0` still names the peer, which speaks for node `1` now. -/
theorem bindings_disagree_rebinding :
    Reachable ((Hub.init 0).run rebindingRun) ∧
      (((Hub.init 0).run rebindingRun).nodes 0).peerIdx = some 0 ∧
      (((Hub.init 0).run rebindingRun).peers 0).nodeIdx = some 1 ∧
      ¬ BindingsAgree ((Hub.init 0).run rebindingRun) := by
  refine ⟨⟨0, rebindingRun, rfl⟩, rfl, rfl, fun h => ?_⟩
  have hnode : (((Hub.init 0).run rebindingRun).peers 0).nodeIdx = some 0 := (h.of_node 0 0 rfl).2
  cases hnode

/-! ### One hello for each peer -/

theorem Tracked.disciplined {s : Hub} (h : Tracked s) (hone : OneHello s.log) :
    Disciplined s.log s.router := by
  rw [h.router]
  exact disciplined_of_oneHello h.legal hone

theorem Reachable.disciplined {s : Hub} (hr : Reachable s) (h : OneHello s.log) :
    Disciplined s.log s.router := hr.tracked.disciplined h

end Hub
end Vbt
