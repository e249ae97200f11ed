import Vbt.Hub.ConfigText
import Vbt.Hub.Effects

/-!
# What a saved configuration restores

The file of `save_config` is run through `load_config_file` in a fresh hub. The reader replays the
commands on a table that only they have filled: its nodes are those named so far, each once and
without an address, so that a name is found or there is room for it.

* `Settings`, `Hub.settings`, `Hub.overrideOf`: what the commands set, by id;
* `Loading`: a hub that has read a part of the file, and `Loading.setNode`, what one command does;
* `recalled`: of the lines of one id the last that can be read;
* `settings_loadConfig`: the settings after the file is read;
* `load_restores_iff`: the file restores the medium if and only if no sensitivity and no override
  was set and the lines show the settings they were written from.
-/

namespace Vbt
namespace Hub

/-! ### Settings -/

/-- What the commands set of one id. -/
@[ext] structure Settings where
  pos : Option (ℚ × ℚ × ℚ) := none
  txPower : Option ℚ := none
  rxSens : ℚ := VBT_DEFAULT_RX_SENS

def nodeSettings (nd : Node) : Settings where
  pos := if nd.posSet then some (nd.posX, nd.posY, nd.posZ) else none
  txPower := if nd.txPowerSet then some nd.txPowerDbm else none
  rxSens := nd.rxSensDbm

/-- The settings of the node of an id, those of a new node if there is none. -/
def settings (s : Hub) (n : NodeId) : Settings :=
  match s.nodeByName n with
  | some k => nodeSettings (s.nodes k)
  | none => {}

/-- The RSSI and the loss that are pinned for a pair of ids. -/
def overrideOf (s : Hub) (a b : NodeId) : Option ℤ × Option ℚ :=
  match s.findOverride a b with
  | some i =>
    (if (s.overrides i).rssiSet then some (s.overrides i).rssiDbm else none,
      if (s.overrides i).lossSet then some (s.overrides i).lossProb else none)
  | none => (none, none)

/-- The medium of `t` is set as that of `s`. -/
structure Restores (s t : Hub) : Prop where
  pathloss : t.gPathExponent = s.gPathExponent
  settings : ∀ n, t.settings n = s.settings n
  overrides : ∀ a b, t.overrideOf a b = s.overrideOf a b

/-! ### A hub that reads a file -/

/-- A hub that was fresh and has only read settings of these ids. -/
structure Loading (ids : Finset NodeId) (t : Hub) : Prop where
  active : ∀ i < t.nodes.size, (t.nodes i).active = true
  named : ∀ i < t.nodes.size, (t.nodes i).nodeId ∈ ids
  unique : ∀ i < t.nodes.size, ∀ j < t.nodes.size,
    (t.nodes i).nodeId = (t.nodes j).nodeId → i = j
  bare : ∀ i < t.nodes.size, (t.nodes i).addrs = []
  overrides : t.overrides.size = 0

theorem Loading.init (ids : Finset NodeId) (k : ℕ) : Loading ids (Hub.init k) where
  active := fun i hi => absurd hi (Nat.not_lt_zero i)
  named := fun i hi => absurd hi (Nat.not_lt_zero i)
  unique := fun i hi => absurd hi (Nat.not_lt_zero i)
  bare := fun i hi => absurd hi (Nat.not_lt_zero i)
  overrides := rfl

namespace Loading

variable {ids : Finset NodeId} {t : Hub} {n : NodeId}

theorem nodeByName_eq_some (h : Loading ids t) {k : ℕ} :
    t.nodeByName n = some k ↔ k < t.nodes.size ∧ (t.nodes k).nodeId = n := by
  constructor
  · intro hk
    obtain ⟨hlt, hp, -⟩ := Slots.find?_eq_some_iff.1 hk
    rw [Bool.and_eq_true, beq_iff_eq] at hp
    exact ⟨hlt, hp.2⟩
  · rintro ⟨hlt, rfl⟩
    refine Slots.find?_eq_some_of_unique hlt ?_ fun j hj hp => ?_
    · rw [h.active k hlt, Bool.true_and, beq_self_eq_true]
    · rw [Bool.and_eq_true, beq_iff_eq] at hp
      exact h.unique j hj k hlt hp.2

theorem nodeByName_eq_none (h : Loading ids t) :
    t.nodeByName n = none ↔ ∀ k < t.nodes.size, (t.nodes k).nodeId ≠ n := by
  rw [Option.eq_none_iff_forall_ne_some]
  exact forall_congr' fun k => by rw [Ne, h.nodeByName_eq_some, not_and]

/-- There is room for an id that has no node yet. -/
theorem size_lt (h : Loading ids t) (hids : ids.card ≤ MAX_NODES) (hn : n ∈ ids)
    (hnone : t.nodeByName n = none) : t.nodes.size < MAX_NODES := by
  have hsub : (Finset.range t.nodes.size).image (fun i => (t.nodes i).nodeId) ⊆ ids.erase n := by
    intro m hm
    obtain ⟨i, hi, rfl⟩ := Finset.mem_image.1 hm
    rw [Finset.mem_range] at hi
    exact Finset.mem_erase.2 ⟨h.nodeByName_eq_none.1 hnone i hi, h.named i hi⟩
  have hcard := Finset.card_le_card hsub
  rw [Finset.card_image_of_injOn fun i hi j hj => h.unique i (by simpa using hi) j (by simpa using hj),
    Finset.card_range, Finset.card_erase_of_mem hn] at hcard
  have hpos : 0 < ids.card := Finset.card_pos.2 ⟨n, hn⟩
  omega

/-- An id is not taken for an address. -/
theorem resolveNode (h : Loading ids t) (n : NodeId) : t.resolveNode n = t.nodeByName n := by
  unfold Hub.resolveNode
  cases t.nodeByName n with
  | some k => rfl
  | none =>
    dsimp only
    cases parseAddr n with
    | none => rfl
    | some a =>
      dsimp only [findNodeByAddr]
      split_ifs
      · rfl
      · refine Slots.find?_eq_none_iff.2 fun i hi => ?_
        rw [h.bare i hi]
        simp

theorem settings_node (h : Loading ids t) {k : ℕ} (hk : k < t.nodes.size) :
    t.settings (t.nodes k).nodeId = nodeSettings (t.nodes k) := by
  rw [Hub.settings, h.nodeByName_eq_some.2 ⟨hk, rfl⟩]

theorem settings_absent (h : Loading ids t) (hn : ∀ k < t.nodes.size, (t.nodes k).nodeId ≠ n) :
    t.settings n = {} := by
  rw [Hub.settings, h.nodeByName_eq_none.2 hn]

/-- The settings by id determine those of the table, whatever its order. -/
theorem settings_congr {t' : Hub} (h : Loading ids t) (h' : Loading ids t')
    (hnew : ∀ k < t'.nodes.size, nodeSettings (t'.nodes k) = t.settings (t'.nodes k).nodeId)
    (hold : ∀ k < t.nodes.size, ∃ j < t'.nodes.size, (t'.nodes j).nodeId = (t.nodes k).nodeId) :
    t'.settings = t.settings := by
  funext m
  by_cases hm : ∃ k < t'.nodes.size, (t'.nodes k).nodeId = m
  · obtain ⟨k, hk, rfl⟩ := hm
    rw [h'.settings_node hk, hnew k hk]
  · push Not at hm
    have habsent : ∀ k < t.nodes.size, (t.nodes k).nodeId ≠ m := by
      rintro k hk rfl
      obtain ⟨j, hj, hjk⟩ := hold k hk
      exact hm j hj hjk
    rw [h'.settings_absent hm, h.settings_absent habsent]

/-- The node a command is for is found or made. Settings are those of before. -/
theorem settingNode (h : Loading ids t) (hids : ids.card ≤ MAX_NODES) (hn : n ∈ ids)
    (hlen : n.length < NODE_ID_LEN) :
    ∃ t' k, t.settingNode n = (t', some k) ∧ Loading ids t' ∧ k < t'.nodes.size ∧
      (t'.nodes k).nodeId = n ∧ t'.settings = t.settings ∧ t'.gPathExponent = t.gPathExponent := by
  unfold Hub.settingNode
  rw [h.resolveNode]
  cases hname : t.nodeByName n with
  | some k =>
    obtain ⟨hk, hkn⟩ := h.nodeByName_eq_some.1 hname
    exact ⟨t, k, rfl, h, hk, hkn, rfl, rfl⟩
  | none =>
    have hroom := h.size_lt hids hn hname
    have hother := h.nodeByName_eq_none.1 hname
    have hfree : t.nodes.find? (fun nd => !nd.active) = none :=
      Slots.find?_eq_none_iff.2 fun i hi => by rw [h.active i hi]; rfl
    have hcut : (newNode n).nodeId = n := List.take_of_length_le (Nat.le_sub_one_of_lt hlen)
    -- the entry is appended
    let nodes : Slots Node := { t.nodes.set t.nodes.size (newNode n) with size := t.nodes.size + 1 }
    have hfind : t.findNode n true =
        (({ t with nodes } : Hub).note (.named t.nodes.size n), some t.nodes.size) := by
      rw [findNode, hname]
      dsimp only
      rw [if_pos rfl, Slots.alloc, hfree]
      dsimp only
      rw [if_pos hroom]
    have hnode : ∀ i < t.nodes.size + 1,
        (i = t.nodes.size ∧ nodes i = newNode n) ∨ (i < t.nodes.size ∧ nodes i = t.nodes i) := by
      intro i hi
      rcases Nat.lt_succ_iff_lt_or_eq.1 hi with hi | rfl
      · exact .inr ⟨hi, t.nodes.set_of_ne _ hi.ne⟩
      · exact .inl ⟨rfl, t.nodes.set_same _ _⟩
    have h' : Loading ids (({ t with nodes } : Hub).note (.named t.nodes.size n)) := by
      refine ⟨fun i hi => ?_, fun i hi => ?_, fun i hi j hj hij => ?_, fun i hi => ?_, h.overrides⟩
      · rcases hnode i hi with ⟨-, heq⟩ | ⟨hi, heq⟩
        · exact congrArg Node.active heq
        · exact (congrArg Node.active heq).trans (h.active i hi)
      · rcases hnode i hi with ⟨-, heq⟩ | ⟨hi, heq⟩
        · exact ((congrArg Node.nodeId heq).trans hcut).symm ▸ hn
        · exact (congrArg Node.nodeId heq).symm ▸ h.named i hi
      · change (nodes i).nodeId = (nodes j).nodeId at hij
        rcases hnode i hi with ⟨hi, hieq⟩ | ⟨hi, hieq⟩ <;> rcases hnode j hj with ⟨hj, hjeq⟩ | ⟨hj,
          hjeq⟩
        · exact hi.trans hj.symm
        · rw [hieq, hjeq, hcut] at hij
          exact absurd hij.symm (hother j hj)
        · rw [hieq, hjeq, hcut] at hij
          exact absurd hij (hother i hi)
        · rw [hieq, hjeq] at hij
          exact h.unique i hi j hj hij
      · rcases hnode i hi with ⟨-, heq⟩ | ⟨hi, heq⟩
        · exact congrArg Node.addrs heq
        · exact (congrArg Node.addrs heq).trans (h.bare i hi)
    have hlast : nodes t.nodes.size = newNode n := t.nodes.set_same _ _
    refine ⟨_, _, hfind, h', Nat.lt_succ_self _, (congrArg Node.nodeId hlast).trans hcut, ?_, rfl⟩
    refine settings_congr h h' (fun i hi => ?_) fun i hi => ?_
    · show nodeSettings (nodes i) = t.settings (nodes i).nodeId
      rcases hnode i hi with ⟨-, heq⟩ | ⟨hi, heq⟩
      · rw [heq, hcut, h.settings_absent hother]
        rfl
      · rw [heq, h.settings_node hi]
    · exact ⟨i, Nat.lt_succ_of_lt hi, congrArg Node.nodeId (t.nodes.set_of_ne _ hi.ne)⟩

/-- **What a setting does**: it changes the settings of its id, and no others. -/
theorem setNode (h : Loading ids t) (hids : ids.card ≤ MAX_NODES) (hn : n ∈ ids)
    (hlen : n.length < NODE_ID_LEN) {f : Node → Node} {g : Settings → Settings}
    (hname : ∀ nd, (f nd).nodeId = nd.nodeId) (hactive : ∀ nd, (f nd).active = nd.active)
    (haddrs : ∀ nd, (f nd).addrs = nd.addrs) (hg : ∀ nd, nodeSettings (f nd) = g (nodeSettings nd))
    (ok : NodeId → CtlReply) :
    Loading ids (t.setNode n f ok) ∧
      (t.setNode n f ok).settings = Function.update t.settings n (g (t.settings n)) ∧
      (t.setNode n f ok).gPathExponent = t.gPathExponent := by
  obtain ⟨t', k, hset, h', hk, rfl, hsame, hexp⟩ := h.settingNode hids hn hlen
  rw [Hub.setNode, hset]
  dsimp only
  have hkeep : ∀ {β : Type} (π : Node → β), (∀ nd, π (f nd) = π nd) → ∀ i,
      π ((t'.nodes.modify k f) i) = π (t'.nodes i) := fun π hπ i => t'.nodes.modify_attr π hπ k i
  have h'' : Loading ids ((t'.modNode k f).note (.reply (ok (t'.nodes k).nodeId))) :=
    ⟨fun i hi => (hkeep Node.active hactive i).trans (h'.active i hi),
      fun i hi => (hkeep Node.nodeId hname i).symm ▸ h'.named i hi,
      fun i hi j hj hij => h'.unique i hi j hj
        ((hkeep Node.nodeId hname i).symm.trans (hij.trans (hkeep Node.nodeId hname j))),
      fun i hi => (hkeep Node.addrs haddrs i).trans (h'.bare i hi), h'.overrides⟩
  refine ⟨h'', ?_, hexp⟩
  funext m
  rw [← hsame]
  by_cases hm : ∃ i < t'.nodes.size, (t'.nodes i).nodeId = m
  · obtain ⟨i, hi, rfl⟩ := hm
    have hafter := h''.settings_node (k := i) hi
    rw [show ((t'.modNode k f).note (.reply (ok (t'.nodes k).nodeId))).nodes i =
      (t'.nodes.modify k f) i from rfl, hkeep Node.nodeId hname i] at hafter
    rw [hafter]
    by_cases hik : i = k
    · subst hik
      rw [Function.update_self, Slots.modify_same, hg, h'.settings_node hi]
    · rw [Function.update_of_ne fun hc => hik (h'.unique i hi k hk hc),
        Slots.modify_of_ne _ _ hik, h'.settings_node hi]
  · push Not at hm
    rw [Function.update_of_ne (hm k hk).symm, h'.settings_absent hm]
    exact h''.settings_absent fun i hi => fun hc => hm i hi ((hkeep Node.nodeId hname i).symm.trans hc)

/-- What does not touch the tables changes no setting. -/
theorem note (h : Loading ids t) (a : Act) : Loading ids (t.note a) :=
  ⟨h.active, h.named, h.unique, h.bare, h.overrides⟩

end Loading

/-! ### Reading the lines of a node -/

/-- The line of the file as `load_config_file` takes it. -/
def obeyLine (t : Hub) (l : List UInt8) : Hub := t.obey (l.take (LINE_SIZE - 1))

/-- What the file tells of the position of a node. -/
def shownPos (nd : Node) : Option (ℚ × ℚ × ℚ) := if nd.active && nd.posSet then readPos nd else none

/-- What the file tells of the TX power of a node. -/
def shownTx (nd : Node) : Option ℚ := if nd.active && nd.txPowerSet then readTx nd else none

theorem numeric_coords (nd : Node) :
    Numeric (0x20 :: (Decimal.fixed 4 nd.posX ++ 0x20 :: (Decimal.fixed 4 nd.posY ++
      0x20 :: Decimal.fixed 4 nd.posZ))) :=
  numeric_space (numeric_append (numeric_fixed 4 _)
    (numeric_space (numeric_append (numeric_fixed 4 _) (numeric_space (numeric_fixed 4 _)))))

theorem obeyLine_posLine (t : Hub) {nd : Node} (h : GoodId nd.nodeId) :
    t.obeyLine (posLine nd) = t.ctlDispatch (.parse ((posLine nd).take (LINE_SIZE - 1))) :=
  obey_setting t (by decide) (by decide +kernel) h.no_nul (numeric_coords nd)

theorem obeyLine_txLine (t : Hub) {nd : Node} (h : GoodId nd.nodeId) :
    t.obeyLine (txLine nd) = t.ctlDispatch (.parse ((txLine nd).take (LINE_SIZE - 1))) :=
  obey_setting t (by decide) (by decide +kernel) h.no_nul (numeric_space (numeric_fixed 4 _))

theorem obeyLine_pathlossLine (t s : Hub) :
    t.obeyLine (pathlossLine s) = t.ctlDispatch (.parse ((pathlossLine s).take (LINE_SIZE - 1))) :=
  obey_setting (n := []) t (by decide) (by decide +kernel) (by simp) (numeric_fixed 4 _)

namespace Loading

variable {ids : Finset NodeId} {t : Hub} {nd : Node}

theorem posLine (h : Loading ids t) (hids : ids.card ≤ MAX_NODES) (hn : nd.nodeId ∈ ids)
    (hgood : GoodId nd.nodeId) :
    Loading ids (t.obeyLine (posLine nd)) ∧
      (t.obeyLine (Hub.posLine nd)).settings = Function.update t.settings nd.nodeId
        { t.settings nd.nodeId with pos := (readPos nd).or (t.settings nd.nodeId).pos } ∧
      (t.obeyLine (Hub.posLine nd)).gPathExponent = t.gPathExponent := by
  rw [obeyLine_posLine t hgood]
  obtain ⟨hparse, hread⟩ | ⟨x, y, z, hparse, hread⟩ := parse_posLine hgood
  · rw [hparse, hread]
    refine ⟨h.note _, ?_, rfl⟩
    rw [Option.none_or, Function.update_eq_self]
    rfl
  · rw [hparse, hread]
    exact h.setNode hids hn hgood.short
      (f := fun nd => { nd with posX := x, posY := y, posZ := z.getD 0, posSet := true })
      (g := fun σ => { σ with pos := some (x, y, z.getD 0) })
      (fun _ => rfl) (fun _ => rfl) (fun _ => rfl) (fun _ => rfl) fun nid => .pos nid x y (z.getD 0)

theorem txLine (h : Loading ids t) (hids : ids.card ≤ MAX_NODES) (hn : nd.nodeId ∈ ids)
    (hgood : GoodId nd.nodeId) :
    Loading ids (t.obeyLine (txLine nd)) ∧
      (t.obeyLine (Hub.txLine nd)).settings = Function.update t.settings nd.nodeId
        { t.settings nd.nodeId with txPower := (readTx nd).or (t.settings nd.nodeId).txPower } ∧
      (t.obeyLine (Hub.txLine nd)).gPathExponent = t.gPathExponent := by
  rw [obeyLine_txLine t hgood]
  obtain ⟨hparse, hread⟩ | ⟨x, hparse, hread⟩ := parse_txLine hgood
  · rw [hparse, hread]
    refine ⟨h.note _, ?_, rfl⟩
    rw [Option.none_or, Function.update_eq_self]
    rfl
  · rw [hparse, hread]
    exact h.setNode hids hn hgood.short
      (f := fun nd => { nd with txPowerDbm := x, txPowerSet := true })
      (g := fun σ => { σ with txPower := some x })
      (fun _ => rfl) (fun _ => rfl) (fun _ => rfl) (fun _ => rfl) fun nid => .txpower nid x

/-- What the lines of one node do. -/
theorem nodeLines (h : Loading ids t) (hids : ids.card ≤ MAX_NODES) (hn : nd.nodeId ∈ ids)
    (hgood : nd.active = true → GoodId nd.nodeId) :
    Loading ids ((nodeLines nd).foldl obeyLine t) ∧
      ((Hub.nodeLines nd).foldl obeyLine t).settings = Function.update t.settings nd.nodeId
        { t.settings nd.nodeId with
          pos := (shownPos nd).or (t.settings nd.nodeId).pos
          txPower := (shownTx nd).or (t.settings nd.nodeId).txPower } ∧
      ((Hub.nodeLines nd).foldl obeyLine t).gPathExponent = t.gPathExponent := by
  unfold Hub.nodeLines shownPos shownTx
  cases hact : nd.active with
  | false => exact ⟨h, (Function.update_eq_self _ _).symm, rfl⟩
  | true =>
    have hgood := hgood hact
    cases nd.posSet <;> cases nd.txPowerSet
    · exact ⟨h, (Function.update_eq_self _ _).symm, rfl⟩
    · exact h.txLine hids hn hgood
    · exact h.posLine hids hn hgood
    · obtain ⟨h₁, hset₁, hexp₁⟩ := h.posLine hids hn hgood
      obtain ⟨h₂, hset₂, hexp₂⟩ := h₁.txLine hids hn hgood
      refine ⟨h₂, hset₂.trans ?_, hexp₂.trans hexp₁⟩
      rw [hset₁, Function.update_idem, Function.update_self]
      rfl

end Loading

/-! ### Reading the file -/

section Recalled

variable {β : Type} (read : Node → Option β) (n : NodeId)

/-- What is known of an id after the lines of these nodes, of which the last that can be read
counts. -/
def recalled (acc : Option β) (nds : List Node) : Option β :=
  nds.foldl (fun acc nd => if nd.nodeId = n then (read nd).or acc else acc) acc

variable {read n}

theorem recalled_keep {v : Option β} {nds : List Node}
    (h : ∀ nd ∈ nds, nd.nodeId = n → read nd = none ∨ read nd = v) : recalled read n v nds = v := by
  induction nds with
  | nil => rfl
  | cons nd nds ih =>
    have hstep : (if nd.nodeId = n then (read nd).or v else v) = v := by
      split_ifs with hn
      · rcases h nd List.mem_cons_self hn with hr | hr
        · rw [hr, Option.none_or]
        · rw [hr, Option.or_self]
      · rfl
    rw [recalled, List.foldl_cons, hstep]
    exact ih fun x hx => h x (List.mem_cons_of_mem nd hx)

theorem recalled_mem {v acc : Option β} {nds : List Node} (hacc : acc = none ∨ acc = v)
    (h : ∀ nd ∈ nds, nd.nodeId = n → read nd = none ∨ read nd = v) :
    recalled read n acc nds = none ∨ recalled read n acc nds = v := by
  induction nds generalizing acc with
  | nil => exact hacc
  | cons nd nds ih =>
    have hstep : (if nd.nodeId = n then (read nd).or acc else acc) = none ∨
        (if nd.nodeId = n then (read nd).or acc else acc) = v := by
      split_ifs with hn
      · rcases h nd List.mem_cons_self hn with hr | hr
        · rwa [hr, Option.none_or]
        · rcases hacc with rfl | rfl
          · rw [hr, Option.or_none]
            exact .inr rfl
          · rw [hr, Option.or_self]
            exact .inr rfl
      · exact hacc
    exact ih hstep fun x hx => h x (List.mem_cons_of_mem nd hx)

/-- If one node tells of the id, and no other, it is what that one tells. -/
theorem recalled_eq {nd : Node} {nds : List Node} (hmem : nd ∈ nds) (hnd : nd.nodeId = n)
    (h : ∀ x ∈ nds, x.nodeId = n → read x = none ∨ read x = read nd) :
    recalled read n none nds = read nd := by
  obtain ⟨pre, post, rfl⟩ := List.append_of_mem hmem
  -- before the node nothing else is known, and after it nothing changes
  have hpre := recalled_mem (.inl (rfl : (none : Option β) = none))
    fun x (hx : x ∈ pre) => h x (List.mem_append_left _ hx)
  have hstep : (if nd.nodeId = n then (read nd).or (recalled read n none pre)
      else recalled read n none pre) = read nd := by
    rw [if_pos hnd]
    rcases hpre with hp | hp
    · rw [hp, Option.or_none]
    · rw [hp, Option.or_self]
  have hpost : recalled read n (read nd) post = read nd :=
    recalled_keep fun x hx => h x (List.mem_append_right _ (List.mem_cons_of_mem nd hx))
  unfold recalled at hstep hpost ⊢
  rw [List.foldl_append, List.foldl_cons, hstep, hpost]

end Recalled

/-- What the lines of several nodes do. -/
theorem Loading.nodes {ids : Finset NodeId} (hids : ids.card ≤ MAX_NODES) {nds : List Node}
    (hnds : ∀ nd ∈ nds, nd.nodeId ∈ ids ∧ (nd.active = true → GoodId nd.nodeId)) {t : Hub}
    (h : Loading ids t) :
    Loading ids ((nds.flatMap Hub.nodeLines).foldl obeyLine t) ∧
      (∀ n, ((nds.flatMap Hub.nodeLines).foldl obeyLine t).settings n =
        { t.settings n with
          pos := recalled shownPos n (t.settings n).pos nds
          txPower := recalled shownTx n (t.settings n).txPower nds }) ∧
      ((nds.flatMap Hub.nodeLines).foldl obeyLine t).gPathExponent = t.gPathExponent := by
  induction nds generalizing t with
  | nil => exact ⟨h, fun _ => rfl, rfl⟩
  | cons nd nds ih =>
    obtain ⟨hmem, hgood⟩ := hnds nd List.mem_cons_self
    obtain ⟨h₁, hset₁, hexp₁⟩ := h.nodeLines hids hmem hgood
    obtain ⟨h₂, hset₂, hexp₂⟩ := ih (fun x hx => hnds x (List.mem_cons_of_mem nd hx)) h₁
    rw [List.flatMap_cons, List.foldl_append]
    refine ⟨h₂, fun n => ?_, hexp₂.trans hexp₁⟩
    rw [hset₂, hset₁]
    unfold recalled
    rw [List.foldl_cons, List.foldl_cons]
    by_cases hn : nd.nodeId = n
    · rw [hn, Function.update_self, if_pos rfl, if_pos rfl]
    · rw [Function.update_of_ne (Ne.symm hn), if_neg hn, if_neg hn]

/-! ### The whole file -/

/-- The ids of the active nodes can stand in a file. -/
def GoodIds (s : Hub) : Prop :=
  ∀ i < s.nodes.size, (s.nodes i).active = true → GoodId (s.nodes i).nodeId

theorem GoodIds.mem {s : Hub} (h : s.GoodIds) {nd : Node} (hnd : nd ∈ s.nodeList)
    (hact : nd.active = true) : GoodId nd.nodeId := by
  obtain ⟨i, hi, rfl⟩ := List.mem_map.1 hnd
  exact h i (List.mem_range.1 hi) hact

theorem GoodIds.loneLine {s : Hub} (h : s.GoodIds) {l : List UInt8} (hl : l ∈ s.configLines) :
    LoneLine l := by
  have hline : ∀ {n : NodeId}, GoodId n → ∀ c ∈ n, c ≠ 0x0A := by
    rintro n hn c hc rfl
    exact absurd (hn.no_space _ hc) (by decide)
  rcases List.mem_cons.1 hl with rfl | hl
  · exact ⟨by decide +kernel, by decide +kernel⟩
  · rcases List.mem_cons.1 hl with rfl | hl
    · exact loneLine_setting (n := []) (by decide +kernel) (by simp) (numeric_fixed 4 _) (by decide)
    · obtain ⟨nd, hnd, hl⟩ := List.mem_flatMap.1 hl
      unfold nodeLines at hl
      cases hact : nd.active with
      | false => simp [hact] at hl
      | true =>
        have hgood := h.mem hnd hact
        have hlen : ∀ m ≤ 12, m + nd.nodeId.length ≤ LINE_SIZE - 1 := by
          intro m hm
          have hshort : nd.nodeId.length < 64 := hgood.short
          show m + nd.nodeId.length ≤ 511
          omega
        rw [hact, Bool.not_true, if_neg Bool.false_ne_true] at hl
        rcases List.mem_append.1 hl with hl | hl
        · split_ifs at hl
          · rw [List.mem_singleton.1 hl]
            exact loneLine_setting (by decide +kernel) (hline hgood) (numeric_coords nd) (hlen 8 (by omega))
          · cases hl
        · split_ifs at hl
          · rw [List.mem_singleton.1 hl]
            exact loneLine_setting (by decide +kernel) (hline hgood) (numeric_space (numeric_fixed 4 _))
              (hlen 12 le_rfl)
          · cases hl

/-- **What a fresh hub has read from a file.** -/
theorem settings_loadConfig {s : Hub} (hids : s.GoodIds) (hsize : s.nodes.size ≤ MAX_NODES)
    (k : ℕ) :
    ((Hub.init k).loadConfig s.saveConfig).gPathExponent = s.readPathloss.getD 2 ∧
      ((Hub.init k).loadConfig s.saveConfig).overrides.size = 0 ∧
      ∀ n, ((Hub.init k).loadConfig s.saveConfig).settings n =
        { pos := recalled shownPos n none s.nodeList
          txPower := recalled shownTx n none s.nodeList } := by
  let ids : Finset NodeId := (Finset.range s.nodes.size).image fun i => (s.nodes i).nodeId
  have hcard : ids.card ≤ MAX_NODES :=
    Finset.card_image_le.trans ((Finset.card_range _).le.trans hsize)
  have hnds : ∀ nd ∈ s.nodeList, nd.nodeId ∈ ids ∧ (nd.active = true → GoodId nd.nodeId) := by
    intro nd hnd
    refine ⟨?_, hids.mem hnd⟩
    obtain ⟨i, hi, rfl⟩ := List.mem_map.1 hnd
    exact Finset.mem_image_of_mem _ (Finset.mem_range.2 (List.mem_range.1 hi))
  have hfile : (Hub.init k).loadConfig s.saveConfig =
      (s.nodeList.flatMap nodeLines).foldl obeyLine ((Hub.init k).obeyLine (pathlossLine s)) := by
    rw [saveConfig, loadConfig_lines fun l hl => hids.loneLine hl]
    rfl
  -- the exponent is read first
  have hfirst : Loading ids ((Hub.init k).obeyLine (pathlossLine s)) ∧
      (∀ n, ((Hub.init k).obeyLine (pathlossLine s)).settings n = {}) ∧
      ((Hub.init k).obeyLine (pathlossLine s)).gPathExponent = s.readPathloss.getD 2 := by
    rw [obeyLine_pathlossLine]
    obtain ⟨hparse, hread⟩ | ⟨x, hparse, hread⟩ := parse_pathlossLine s
    · rw [hparse, hread]
      exact ⟨(Loading.init ids k).note _, fun _ => rfl, rfl⟩
    · rw [hparse, hread]
      have h := Loading.init ids k
      exact ⟨⟨h.active, h.named, h.unique, h.bare, h.overrides⟩, fun _ => rfl, rfl⟩
  obtain ⟨h, hset, hexp⟩ := hfirst.1.nodes hcard hnds
  rw [hfile]
  refine ⟨hexp.trans hfirst.2.2, h.overrides, fun n => ?_⟩
  rw [hset, hfirst.2.1]

/-- The numbers of the medium have at most four decimals. -/
structure FourDecimals (s : Hub) : Prop where
  pathloss : Decimals4 s.gPathExponent
  node : ∀ i < s.nodes.size, (s.nodes i).active = true → Decimals4 (s.nodes i).posX ∧
    Decimals4 (s.nodes i).posY ∧ Decimals4 (s.nodes i).posZ ∧ Decimals4 (s.nodes i).txPowerDbm ∧
    Decimals4 (s.nodes i).rxSensDbm
  loss : ∀ i < s.overrides.size, (s.overrides i).used = true → Decimals4 (s.overrides i).lossProb

/-- What `load_config_file` reads of the lines is what they were written from: of each line the
first 511 bytes, and of the lines of one id the last. -/
structure Legible (s : Hub) : Prop where
  pathloss : s.readPathloss.getD 2 = s.gPathExponent
  pos : ∀ n, recalled shownPos n none s.nodeList = (s.settings n).pos
  txPower : ∀ n, recalled shownTx n none s.nodeList = (s.settings n).txPower

/-- No two active nodes have one id. -/
def DistinctIds (s : Hub) : Prop :=
  ∀ i < s.nodes.size, ∀ j < s.nodes.size, (s.nodes i).active = true → (s.nodes j).active = true →
    (s.nodes i).nodeId = (s.nodes j).nodeId → i = j

/-- A node with an id of its own is the one that the lines of the id tell of. -/
theorem recalled_node {s : Hub} {β : Type} {read : Node → Option β} {get : Settings → Option β}
    (hdistinct : s.DistinctIds) (hidle : ∀ nd, nd.active = false → read nd = none)
    (hdefault : get {} = none)
    (hread : ∀ i < s.nodes.size, (s.nodes i).active = true →
      read (s.nodes i) = get (nodeSettings (s.nodes i))) (n : NodeId) :
    recalled read n none s.nodeList = get (s.settings n) := by
  unfold settings
  cases hname : s.nodeByName n with
  | none =>
    dsimp only
    rw [hdefault]
    refine recalled_keep fun nd hnd hn => .inl (hidle nd ?_)
    obtain ⟨i, hi, rfl⟩ := List.mem_map.1 hnd
    have hnot := Slots.find?_eq_none_iff.1 hname i (List.mem_range.1 hi)
    rwa [hn, beq_self_eq_true, Bool.and_true] at hnot
  | some k =>
    obtain ⟨hk, hp, -⟩ := Slots.find?_eq_some_iff.1 hname
    rw [Bool.and_eq_true, beq_iff_eq] at hp
    dsimp only
    rw [← hread k hk hp.1]
    refine recalled_eq (List.mem_map_of_mem (List.mem_range.2 hk)) hp.2 fun nd hnd hn => ?_
    obtain ⟨i, hi, rfl⟩ := List.mem_map.1 hnd
    cases hact : (s.nodes i).active with
    | false => exact .inl (hidle _ hact)
    | true =>
      rw [hdistinct i (List.mem_range.1 hi) k hk hact hp.1 (hn.trans hp.2.symm)]
      exact .inr rfl

/-- Lines of up to 511 bytes for distinct ids show what they were written from. -/
theorem Legible.of_short {s : Hub} (hids : s.GoodIds) (hdec : s.FourDecimals)
    (hdistinct : s.DistinctIds) (hshort : ∀ l ∈ s.configLines, l.length < LINE_SIZE) :
    s.Legible := by
  have hline : ∀ i < s.nodes.size, ∀ l ∈ nodeLines (s.nodes i), l.length < LINE_SIZE := by
    intro i hi l hl
    refine hshort l (List.mem_cons_of_mem _ (List.mem_cons_of_mem _ ?_))
    exact List.mem_flatMap.2 ⟨_, List.mem_map_of_mem (List.mem_range.2 hi), hl⟩
  constructor
  · rw [readPathloss_short hdec.pathloss
      (hshort _ (List.mem_cons_of_mem _ List.mem_cons_self))]
    rfl
  · refine recalled_node hdistinct (fun nd h => by rw [shownPos, h]; rfl) rfl fun i hi hact => ?_
    rw [shownPos, hact, Bool.true_and, nodeSettings]
    dsimp only
    split_ifs with hset
    · obtain ⟨hx, hy, hz, -⟩ := hdec.node i hi hact
      exact readPos_short (hids i hi hact) hx hy hz (hline i hi _ (by simp [nodeLines, hact, hset]))
    · rfl
  · refine recalled_node hdistinct (fun nd h => by rw [shownTx, h]; rfl) rfl fun i hi hact => ?_
    rw [shownTx, hact, Bool.true_and, nodeSettings]
    dsimp only
    split_ifs with hset
    · obtain ⟨-, -, -, hx, -⟩ := hdec.node i hi hact
      exact readTx_short (hids i hi hact) hx (hline i hi _ (by simp [nodeLines, hact, hset]))
    · rfl

theorem overrideOf_empty {t : Hub} (h : t.overrides.size = 0) (a b : NodeId) :
    t.overrideOf a b = (none, none) := by
  have hnone : t.findOverride a b = none :=
    Slots.find?_eq_none_iff.2 fun i hi => absurd hi (h ▸ Nat.not_lt_zero i)
  rw [overrideOf, hnone]

/-- **A saved configuration restores the medium exactly if no sensitivity and no override is set**
and the lines can be read, which they can if the ids are distinct and no line is too long. -/
theorem load_restores_iff {s : Hub} (h : Reachable s) (hids : s.GoodIds) (hdec : s.FourDecimals)
    (k : ℕ) :
    (Restores s ((Hub.init k).loadConfig s.saveConfig) ↔
      (∀ n, (s.settings n).rxSens = VBT_DEFAULT_RX_SENS) ∧
        (∀ a b, s.overrideOf a b = (none, none)) ∧ s.Legible) ∧
    (s.DistinctIds → (∀ l ∈ s.configLines, l.length < LINE_SIZE) → s.Legible) := by
  obtain ⟨hexp, hover, hset⟩ := settings_loadConfig hids h.tracked.tidy.nodesMax k
  refine ⟨⟨fun hr => ?_, fun hc => ?_⟩, Legible.of_short hids hdec⟩
  · have hsame : ∀ n, s.settings n = _ := fun n => (hr.settings n).symm.trans (hset n)
    refine ⟨fun n => by rw [hsame], fun a b => ?_, ?_, fun n => by rw [hsame],
      fun n => by rw [hsame]⟩
    · rw [← hr.overrides a b, overrideOf_empty hover]
    · rw [← hexp, hr.pathloss]
  · obtain ⟨hsens, hpins, hread⟩ := hc
    refine ⟨hexp.trans hread.pathloss, fun n => ?_, fun a b => ?_⟩
    · rw [hset, hread.pos, hread.txPower]
      exact Settings.ext rfl rfl (hsens n).symm
    · rw [overrideOf_empty hover, hpins]

/-- A hub with one node, placed and with a TX power, and an exponent of its own. -/
def desk : Hub := (Hub.init 0).run [.control (.setPathloss 3),
  .control (.setPos [0x61] 1 (5 / 2) none), .control (.setTxpower [0x61] 4)]

theorem desk_node {i : ℕ} (hi : i < desk.nodes.size) : i = 0 := by
  have hsize : desk.nodes.size = 1 := by decide
  omega

theorem load_restores_iff_desk :
    Restores desk ((Hub.init 0).loadConfig desk.saveConfig) := by
  have hids : desk.GoodIds := by
    intro i hi _
    rw [desk_node hi]
    exact ⟨by decide, by decide, by decide +kernel, by decide +kernel⟩
  have hdec : desk.FourDecimals := by
    refine ⟨⟨30000, by decide +kernel⟩, fun i hi _ => ?_,
      fun i hi => absurd hi (Nat.not_lt_zero i)⟩
    rw [desk_node hi]
    exact ⟨⟨10000, by decide +kernel⟩, ⟨25000, by decide +kernel⟩, ⟨0, by decide +kernel⟩,
      ⟨40000, by decide +kernel⟩, ⟨-950000, by decide +kernel⟩⟩
  have hdistinct : desk.DistinctIds := by
    intro i hi j hj _ _ _
    rw [desk_node hi, desk_node hj]
  have hshort : ∀ l ∈ desk.configLines, l.length < LINE_SIZE := by decide +kernel
  have hreach : Reachable desk := ⟨0, _, rfl⟩
  obtain ⟨hiff, hlegible⟩ := load_restores_iff hreach hids hdec 0
  refine hiff.2 ⟨fun n => ?_, overrideOf_empty rfl, hlegible hdistinct hshort⟩
  rw [settings]
  cases hname : desk.nodeByName n with
  | none => rfl
  | some i =>
    rw [desk_node (Slots.find?_eq_some_iff.1 hname).1]
    rfl

/-- A hub with two nodes, of which one is less sensitive, and a pinned link between them. -/
def lab : Hub := (Hub.init 0).run [.control (.setPos [0x61] 0 0 none),
  .control (.setPos [0x62] 3 4 none), .control (.setSens [0x61] (-70)),
  .control (.setRssi [0x61] [0x62] (-60))]

/-- **The sensitivity and the pinned RSSI are lost.** -/
theorem settings_lost :
    Reachable lab ∧ lab.GoodIds ∧ lab.FourDecimals ∧
      (lab.settings [0x61]).rxSens = -70 ∧ lab.overrideOf [0x61] [0x62] = (some (-60), none) ∧
      (((Hub.init 0).loadConfig lab.saveConfig).settings [0x61]).rxSens = -95 ∧
      ((Hub.init 0).loadConfig lab.saveConfig).overrideOf [0x61] [0x62] = (none, none) ∧
      ¬ Restores lab ((Hub.init 0).loadConfig lab.saveConfig) := by
  have hreach : Reachable lab := ⟨0, _, rfl⟩
  have hnode : ∀ i < lab.nodes.size, i = 0 ∨ i = 1 := by
    intro i hi
    have hsize : lab.nodes.size = 2 := by decide
    omega
  have hids : lab.GoodIds := by
    intro i hi _
    rcases hnode i hi with rfl | rfl
    · exact ⟨by decide, by decide, by decide +kernel, by decide +kernel⟩
    · exact ⟨by decide, by decide, by decide +kernel, by decide +kernel⟩
  have hdec : lab.FourDecimals := by
    refine ⟨⟨20000, by decide +kernel⟩, fun i hi _ => ?_, fun i hi _ => ⟨0, ?_⟩⟩
    · rcases hnode i hi with rfl | rfl
      · exact ⟨⟨0, by decide +kernel⟩, ⟨0, by decide +kernel⟩, ⟨0, by decide +kernel⟩,
          ⟨0, by decide +kernel⟩, ⟨-700000, by decide +kernel⟩⟩
      · exact ⟨⟨30000, by decide +kernel⟩, ⟨40000, by decide +kernel⟩, ⟨0, by decide +kernel⟩,
          ⟨0, by decide +kernel⟩, ⟨-950000, by decide +kernel⟩⟩
    · have hsize : lab.overrides.size = 1 := by decide
      obtain rfl : i = 0 := by omega
      decide +kernel
  obtain ⟨-, hover, hset⟩ := settings_loadConfig hids hreach.tracked.tidy.nodesMax 0
  have hpin : lab.overrideOf [0x61] [0x62] = (some (-60), none) := by decide +kernel
  refine ⟨hreach, hids, hdec, by decide +kernel, hpin, ?_, overrideOf_empty hover _ _, fun hr => ?_⟩
  · rw [hset]
    decide +kernel
  · have hsame := hr.overrides [0x61] [0x62]
    rw [overrideOf_empty hover, hpin] at hsame
    cases hsame

end Hub
end Vbt
