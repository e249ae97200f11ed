import Mathlib.Data.Sym.Sym2
import Vbt.Hub.FanOut
import Vbt.Hub.Hello
import Vbt.Hub.Identity
import Vbt.Hub.Kept
import Vbt.Lib.Keyed

/-!
# Link overrides

The override table is a map from unordered pairs of node ids to what the operator set for the link.
Only commands of the control socket change it.

* `LinkRule`, `links`: the settings of a link, and the map;
* `step_overrides`: every other event leaves the table alone;
* `nodeId_short`: the ids of nodes are stored whole in the table;
* `overrideEntry_links`, `setLink_links`, `clearLink_links`: what the commands do to the map;
* `OneEach`, `Reachable.oneEach`: in every run, a pair has one entry at most;
* `propagate_link`: what `propagate` makes of the settings, and `link_honoured_iff`.
-/

namespace Vbt

/-- The two ends of the link, in no order. -/
def LinkOverride.pair (o : LinkOverride) : Sym2 NodeId := s(o.a, o.b)

/-- What is set for a link. -/
@[ext] structure LinkRule where
  rssi : Option ℤ := none
  loss : Option ℚ := none
  deriving DecidableEq

/-- The settings of an entry. -/
def LinkOverride.rule (o : LinkOverride) : LinkRule where
  rssi := if o.rssiSet then some o.rssiDbm else none
  loss := if o.lossSet then some o.lossProb else none

namespace Hub

open Slots

/-- The settings in effect. -/
def links (s : Hub) (e : Sym2 NodeId) : Option LinkRule :=
  (s.overrides.entry LinkOverride.used LinkOverride.pair e).map LinkOverride.rule

/-- An entry is found under its two ends, whichever is given first. -/
theorem findOverride_eq_lookup (s : Hub) (a b : NodeId) :
    s.findOverride a b = s.overrides.lookup LinkOverride.used LinkOverride.pair s(a, b) := by
  refine find?_congr rfl fun i _ => ?_
  generalize s.overrides i = o
  rw [Bool.eq_iff_iff]
  simp [LinkOverride.pair]

theorem links_eq_some_iff {s : Hub} {a b : NodeId} {rule : LinkRule} :
    s.links s(a, b) = some rule ↔
      ∃ i, s.findOverride a b = some i ∧ (s.overrides i).rule = rule := by
  rw [findOverride_eq_lookup]
  simp [links, entry, Option.map_eq_some_iff]

/-! ### What leaves the table alone -/

theorem findNode_overrides (s : Hub) (nid : NodeId) (create : Bool) :
    (s.findNode nid create).1.overrides = s.overrides := by
  unfold findNode
  split
  · rfl
  · split_ifs
    · split <;> rfl
    · rfl

theorem bindPeerNode_overrides (s : Hub) (p : ℕ) (nid : NodeId) (physical : Bool) :
    (s.bindPeerNode p nid physical).overrides = s.overrides := by
  have hfind := findNode_overrides s nid true
  unfold bindPeerNode
  generalize s.findNode nid true = r at hfind
  obtain ⟨t, node⟩ := r
  cases node with
  | none => exact hfind
  | some k =>
    refine Eq.trans ?_ hfind
    simp only [bindTables]
    split
    · split_ifs <;> rfl
    · rfl

theorem takeHello_overrides (s : Hub) (p : ℕ) (hello : Hello) :
    (s.takeHello p hello).overrides = s.overrides :=
  takeHello_rule (I := fun t => t.overrides = s.overrides)
    (J := fun t _ => t.overrides = s.overrides) hello rfl rfl (fun _ _ ht => ht)
    fun t nid ht => (bindPeerNode_overrides t p nid hello.physical).trans ht

/-- Forwarding a frame leaves the overrides alone. -/
theorem overrides_kept : Kept fun s s' : Hub => s'.overrides = s.overrides where
  refl _ := rfl
  trans h h' := h'.trans h
  node _ _ _ := rfl
  conn _ _ _ _ := rfl
  stats _ _ _ := rfl
  rand _ _ := rfl
  note _ _ _ := rfl
  send s dst data := (peerSend_air s dst data).overrides
  learn s node hdr := (learnTx_rest s node hdr).2.2.2
  snooped s node pdu := (snooped_air s node pdu).overrides

theorem handleMessage_overrides (s : Hub) (p : ℕ) (payload : List UInt8) :
    (s.handleMessage p payload).overrides = s.overrides := by
  simp only [handleMessage, maybeHello]
  cases parseHello payload with
  | some hello => exact takeHello_overrides _ p hello
  | none =>
    simp only [Option.map_none]
    cases frameOf payload with
    | some f => exact overrides_kept.forwardFrame _ p f.hdr f.pdu
    | none => rfl

theorem peerFlush_overrides (s : Hub) (p : ℕ) : (s.peerFlush p).overrides = s.overrides :=
  peerFlush_rule (I := fun t => t.overrides = s.overrides) s p rfl (fun _ _ => rfl)
    (fun t ht => (peerClose_air t p).overrides.trans ht) fun _ _ _ ht => ht

theorem peerAlloc_overrides (s : Hub) (fd : ℕ) (bridge : Bool) :
    (s.peerAlloc fd bridge).1.overrides = s.overrides := by
  unfold peerAlloc
  split <;> rfl

/-- **Only the control socket changes the overrides.** -/
theorem step_overrides {s : Hub} {e : Event} (he : ∀ cmd, e ≠ .control cmd) :
    (s.step e).overrides = s.overrides := by
  refine step_rule (I := fun t => t.overrides = s.overrides) e rfl (peerAlloc_overrides s)
    (fun _ _ ht => ht) (fun p r _ => ?_) (fun p kern _ _ => ?_) (fun p kern => peerFlush_overrides _ p)
    (fun p => (peerClose_air s p).overrides) fun cmd hc => absurd hc (he cmd)
  · exact recvBytes_rule (I := fun t => t.overrides = s.overrides) r rfl
      (peerClose_air s p).overrides fun _ => rfl
  · have hmsg := handleMessage_overrides { s with kern } p
    exact peerReadableIter_rule (I := fun t => t.overrides = s.overrides) rfl
      (peerClose_air _ p).overrides hmsg fun payload _ => hmsg payload

/-! ### The ids in the table -/

/-- The id of a node fits into its array, and is stored whole. -/
theorem nodeId_short {s : Hub} (h : Tracked s) (k : ℕ) :
    (s.nodes k).nodeId.length < NODE_ID_LEN := by
  have hname : (s.nodes k).nodeId = s.router.name k := rfl
  rw [hname, h.router]
  refine h.legal.invariant (I := fun r => (r.name k).length < NODE_ID_LEN)
    (show 0 < NODE_ID_LEN by decide) ?_
  intro r a hr _
  rcases makesNone_or a with hnone | ⟨i, nid, rfl⟩
  · rwa [medium_apply, (apply_names hnone r).2]
  · simp only [medium_apply, Router.apply, Router.addNode]
    split_ifs
    · exact Nat.lt_of_le_of_lt (List.length_take_le _ _) (by decide)
    · exact hr

/-! ### The commands -/

/-- Entries in use are entries of different links. -/
def OneEach (s : Hub) : Prop := Keyed LinkOverride.used LinkOverride.pair s.overrides

/-- No link has settings beyond those of the table, which is full. -/
def NoRoom (s : Hub) : Prop :=
  MAX_OVERRIDES ≤ s.overrides.size ∧ ∀ i < s.overrides.size, (s.overrides i).used = true

/-- `find_override` with `create`: the entry of the link is there, new and empty if it was not,
unless the table is full. -/
theorem overrideEntry_links {s : Hub} (h : OneEach s) {a b : NodeId} (ha : a.length < NODE_ID_LEN)
    (hb : b.length < NODE_ID_LEN) :
    (∃ t i, s.overrideEntry a b = (t, some i) ∧ OneEach t ∧ i < t.overrides.size ∧
      (t.overrides i).used = true ∧ (t.overrides i).pair = s(a, b) ∧
      (t.overrides i).rule = (s.links s(a, b)).getD {} ∧
      ∀ e, e ≠ s(a, b) → t.links e = s.links e) ∨
    (s.overrideEntry a b = (s, none) ∧ s.links s(a, b) = none ∧ s.NoRoom) := by
  have hcuta : a.take (NODE_ID_LEN - 1) = a := List.take_of_length_le (Nat.le_sub_one_of_lt ha)
  have hcutb : b.take (NODE_ID_LEN - 1) = b := List.take_of_length_le (Nat.le_sub_one_of_lt hb)
  cases hfind : s.findOverride a b with
  | some i =>
    have hlook := hfind
    rw [findOverride_eq_lookup] at hlook
    obtain ⟨hlt, hu, hk⟩ := lookup_eq_some hlook
    refine .inl ⟨s, i, ?_, h, hlt, hu, hk, ?_, fun _ _ => rfl⟩
    · simp only [overrideEntry, hfind]
    · rw [links_eq_some_iff.2 ⟨i, hfind, rfl⟩, Option.getD_some]
  | none =>
    have hlook := hfind
    rw [findOverride_eq_lookup] at hlook
    have hnone : s.links s(a, b) = none := by
      rw [links, entry, hlook]
      rfl
    obtain ⟨new, hnew⟩ : ∃ new : LinkOverride, new = { a := a, b := b, used := true } := ⟨_, rfl⟩
    have hpair : new.pair = s(a, b) := by rw [hnew]; rfl
    rw [← hpair] at hlook
    cases halloc : s.overrides.alloc MAX_OVERRIDES (fun o => !o.used) new with
    | none =>
      obtain ⟨hcap, hfull⟩ := alloc_eq_none_iff.1 halloc
      refine .inr ⟨?_, hnone, hcap, fun i hi => ?_⟩
      · simp only [overrideEntry, hfind, hcuta, hcutb, ← hnew, halloc]
      · simpa using hfull i hi
    | some r =>
      obtain ⟨i, overrides⟩ := r
      obtain ⟨hget, hslot⟩ := alloc_eq_some halloc
      have hself : overrides i = new := by rw [hget, if_pos rfl]
      have hentry := Keyed.entry_alloc h (by rw [hnew]) hlook halloc
      refine .inl ⟨{ s with overrides }, i, ?_, Keyed.alloc h hlook halloc, ?_, ?_, ?_, ?_, ?_⟩
      · simp only [overrideEntry, hfind, hcuta, hcutb, ← hnew, halloc]
      · obtain ⟨hlt, -, hsize⟩ | ⟨rfl, -, hsize, -⟩ := hslot
        · exact hsize ▸ hlt
        · exact hsize ▸ Nat.lt_succ_self _
      · rw [hself, hnew]
      · rw [hself, hpair]
      · rw [hself, hnone, hnew]
        rfl
      · intro e he
        rw [links, hentry, hpair, Function.update_of_ne he]
        rfl

/-- The ids of the nodes that two arguments of a command name. -/
def linkOf (s : Hub) (a b : NodeId) : Option (Sym2 NodeId) :=
  match s.resolveNode a, s.resolveNode b with
  | some na, some nb => some s((s.nodes na).nodeId, (s.nodes nb).nodeId)
  | _, _ => none

/-- A setting that changes the settings of an entry, and neither its ends nor its being used. -/
structure Sets (f : LinkOverride → LinkOverride) (g : LinkRule → LinkRule) : Prop where
  used : ∀ o, (f o).used = o.used
  pair : ∀ o, (f o).pair = o.pair
  rule : ∀ o, (f o).rule = g o.rule

section Commands

variable {s : Hub} {a b : NodeId} {e : Sym2 NodeId}

theorem linkOf_eq_some (hl : s.linkOf a b = some e) :
    ∃ na nb, s.resolveNode a = some na ∧ s.resolveNode b = some nb ∧
      e = s((s.nodes na).nodeId, (s.nodes nb).nodeId) := by
  unfold linkOf at hl
  cases hna : s.resolveNode a with
  | none => simp [hna] at hl
  | some na =>
    cases hnb : s.resolveNode b with
    | none => simp [hna, hnb] at hl
    | some nb =>
      rw [hna, hnb] at hl
      exact ⟨na, nb, rfl, rfl, (Option.some.inj hl).symm⟩

theorem links_note (s : Hub) (act : Act) : (s.note act).links = s.links := rfl

/-- `SET_RSSI`, `SET_LOSS`: the settings of the link are changed, from none if there were none,
unless the table is full. -/
theorem setLink_links (ht : Tracked s) (h : OneEach s) (hl : s.linkOf a b = some e)
    {f : LinkOverride → LinkOverride} {g : LinkRule → LinkRule} (hf : Sets f g)
    (ok : NodeId → NodeId → CtlReply) :
    OneEach (s.setLink a b f ok) ∧
      ((s.setLink a b f ok).links = Function.update s.links e (some (g ((s.links e).getD {}))) ∨
        (s.setLink a b f ok).links = s.links ∧ s.links e = none ∧ s.NoRoom) := by
  obtain ⟨na, nb, hna, hnb, rfl⟩ := linkOf_eq_some hl
  simp only [setLink, hna, hnb]
  obtain ⟨t, i, heq, htk, hlt, hu, hp, hr, hother⟩ | ⟨heq, hnone, hroom⟩ :=
    overrideEntry_links h (nodeId_short ht na) (nodeId_short ht nb)
  · rw [heq]
    have hu' : (f (t.overrides i)).used = (t.overrides i).used := hf.used _
    have hp' : (f (t.overrides i)).pair = (t.overrides i).pair := hf.pair _
    refine ⟨Keyed.modify htk hu' hp', .inl ?_⟩
    have hentry := Keyed.entry_modify htk hlt hu (hu'.trans hu) hp'
    funext e
    have hlink : (({ t with overrides := t.overrides.modify i f } : Hub)).links e =
        (Function.update (t.overrides.entry LinkOverride.used LinkOverride.pair)
          (t.overrides i).pair (some (f (t.overrides i))) e).map LinkOverride.rule := by
      rw [links, hentry]
    rw [links_note, hlink, hp]
    by_cases he : e = s((s.nodes na).nodeId, (s.nodes nb).nodeId)
    · rw [he, Function.update_self, Function.update_self, Option.map_some, hf.rule, hr]
    · rw [Function.update_of_ne he, Function.update_of_ne he]
      exact hother e he
  · rw [heq]
    exact ⟨h, .inr ⟨rfl, hnone, hroom⟩⟩

/-- Settings of links that are not there are not made. -/
theorem setLink_unknown (hl : s.linkOf a b = none) (f : LinkOverride → LinkOverride)
    (ok : NodeId → NodeId → CtlReply) : s.setLink a b f ok = s.note (.reply .unknownNodes) := by
  unfold linkOf at hl
  unfold setLink
  cases hna : s.resolveNode a <;> cases hnb : s.resolveNode b <;> simp [hna, hnb] at hl ⊢

/-- `CLEAR_LINK`: the link has no settings any more. -/
theorem clearLink_links (h : OneEach s) (hl : s.linkOf a b = some e) :
    OneEach (s.ctlDispatch (.clearLink a b)) ∧
      (s.ctlDispatch (.clearLink a b)).links = Function.update s.links e none := by
  obtain ⟨na, nb, hna, hnb, rfl⟩ := linkOf_eq_some hl
  simp only [ctlDispatch, hna, hnb, links_note]
  cases hfind : s.findOverride (s.nodes na).nodeId (s.nodes nb).nodeId with
  | none =>
    refine ⟨h, ?_⟩
    have hnone : s.links s((s.nodes na).nodeId, (s.nodes nb).nodeId) = none := by
      rw [findOverride_eq_lookup] at hfind
      rw [links, entry, hfind]
      rfl
    rw [← hnone, Function.update_eq_self]
  | some i =>
    rw [findOverride_eq_lookup] at hfind
    obtain ⟨hlt, hu, hk⟩ := lookup_eq_some hfind
    have hentry := Keyed.entry_free h (f := fun o => { o with used := false }) hlt hu rfl
    refine ⟨Keyed.free h (f := fun o => { o with used := false }) rfl, ?_⟩
    funext e
    show Option.map LinkOverride.rule ((s.overrides.modify i
      fun o => { o with used := false }).entry
      LinkOverride.used LinkOverride.pair e) = _
    rw [hentry, hk]
    by_cases he : e = s((s.nodes na).nodeId, (s.nodes nb).nodeId)
    · rw [he, Function.update_self, Function.update_self, Option.map_none]
    · rw [Function.update_of_ne he, Function.update_of_ne he]
      rfl

theorem clearLink_unknown (hl : s.linkOf a b = none) :
    s.ctlDispatch (.clearLink a b) = s.note (.reply .cleared) := by
  unfold linkOf at hl
  simp only [ctlDispatch]
  cases hna : s.resolveNode a <;> cases hnb : s.resolveNode b <;> simp [hna, hnb] at hl ⊢

end Commands

theorem sets_rssi (r : ℤ) : Sets (fun o => { o with rssiSet := true, rssiDbm := r })
    fun rule => { rule with rssi := some r } :=
  ⟨fun _ => rfl, fun _ => rfl, fun _ => rfl⟩

theorem sets_loss (p : ℚ) : Sets (fun o => { o with lossSet := true, lossProb := p })
    fun rule => { rule with loss := some p } :=
  ⟨fun _ => rfl, fun _ => rfl, fun _ => rfl⟩

theorem setNode_overrides (s : Hub) (ident : NodeId) (f : Node → Node) (ok : NodeId → CtlReply) :
    (s.setNode ident f ok).overrides = s.overrides := by
  have hset : (s.settingNode ident).1.overrides = s.overrides := by
    unfold settingNode
    split
    · rfl
    · exact findNode_overrides s ident true
  unfold setNode
  generalize s.settingNode ident = r at hset
  obtain ⟨t, node⟩ := r
  cases node <;> exact hset

theorem OneEach.of_eq {s t : Hub} (h : OneEach s) (heq : t.overrides = s.overrides) :
    OneEach t := by
  unfold OneEach at h ⊢
  rwa [heq]

theorem OneEach.setLink {s : Hub} (h : OneEach s) (ht : Tracked s) (a b : NodeId)
    {f : LinkOverride → LinkOverride} {g : LinkRule → LinkRule} (hf : Sets f g)
    (ok : NodeId → NodeId → CtlReply) : OneEach (s.setLink a b f ok) := by
  cases hl : s.linkOf a b with
  | some e => exact (setLink_links ht h hl hf ok).1
  | none =>
    rw [setLink_unknown hl]
    exact h

theorem OneEach.ctlDispatch {s : Hub} (h : OneEach s) (ht : Tracked s) (cmd : CtlCmd) :
    OneEach (s.ctlDispatch cmd) := by
  cases cmd with
  | setPos ident x y z => exact h.of_eq (setNode_overrides s ident _ _)
  | setTxpower ident x => exact h.of_eq (setNode_overrides s ident _ _)
  | setSens ident x => exact h.of_eq (setNode_overrides s ident _ _)
  | setRssi a b r => exact h.setLink ht a b (sets_rssi r) _
  | setLoss a b p => exact h.setLink ht a b (sets_loss _) _
  | clearLink a b =>
    cases hl : s.linkOf a b with
    | some e => exact (clearLink_links h hl).1
    | none =>
      rw [clearLink_unknown hl]
      exact h
  | setPathloss x => exact h
  | report => exact h
  | bad => exact h

theorem OneEach.step {s : Hub} (h : OneEach s) (ht : Tracked s) (e : Event) :
    OneEach (s.step e) := by
  by_cases he : ∃ cmd, e = .control cmd
  · obtain ⟨cmd, rfl⟩ := he
    exact h.ctlDispatch ht cmd
  · exact h.of_eq (step_overrides fun cmd hcmd => he ⟨cmd, hcmd⟩)

/-- **In every run, a pair of ids has one entry at most.** -/
theorem Reachable.oneEach {s : Hub} (h : Reachable s) : OneEach s := by
  refine (h.invariant (I := fun s => Tracked s ∧ OneEach s) (fun n => ⟨Tracked.init n, ?_⟩)
    fun t e ht => ⟨(step_continues ht.1 e).tracked, ht.2.step ht.1 e⟩).2
  exact fun i hi => absurd hi (Nat.not_lt_zero i)

/-! ### Settings in the propagation model -/

/-- The draw falls below the loss probability of the link. -/
def Lost (rule : LinkRule) (draw : ℕ) : Prop := ∃ p, rule.loss = some p ∧ (draw : ℚ) / RAND_MAX < p

/-- Where nothing is lost the receiver hears the sender: by the RSSI that is set, or by the model of
the path. -/
def Audible (s : Hub) (rule : LinkRule) (tx rx : Node) (frameTxpower : Int8) : Prop :=
  match rule.rssi with
  | some r => truncInt rx.rxSensDbm ≤ r
  | none => (s.pathModel s.kern tx rx frameTxpower 0).ok = true

theorem pathModel_ok (s : Hub) (kern kern' : Kern) (tx rx : Node) (p : Int8) (out out' : ℤ)
    (hsqrt : kern'.sqrt = kern.sqrt) (hlog : kern'.log10 = kern.log10) :
    (s.pathModel kern' tx rx p out').ok = (s.pathModel kern tx rx p out).ok := by
  simp only [pathModel, hsqrt, hlog]
  split_ifs <;> rfl

/-- **What `propagate` makes of the settings of a link.** -/
theorem propagate_link {s : Hub} {tx rx : Node} {rule : LinkRule} (htx : tx.physical = false)
    (hrx : rx.physical = false) (hl : s.links s(tx.nodeId, rx.nodeId) = some rule) (p r : Int8) :
    ((s.propagate (some tx) rx p r).ok = true ↔
        ¬ Lost rule (s.kern.rand.headD 0) ∧ s.Audible rule tx rx p) ∧
      ∀ v, rule.rssi = some v → (s.propagate (some tx) rx p r).ok = true →
        (s.propagate (some tx) rx p r).rssi = v := by
  obtain ⟨i, hfind, hrule⟩ := links_eq_some_iff.1 hl
  have hphys : (tx.physical || rx.physical) = false := by rw [htx, hrx]; rfl
  have hrssi : rule.rssi = if (s.overrides i).rssiSet then some (s.overrides i).rssiDbm else none := by
    rw [← hrule]
    rfl
  have hloss : rule.loss = if (s.overrides i).lossSet then some (s.overrides i).lossProb else none := by
    rw [← hrule]
    rfl
  simp only [propagate, hphys, Bool.false_eq_true, if_false, hfind, Audible]
  have hnonneg : (0 : ℚ) ≤ ((s.kern.rand.headD 0 : ℕ) : ℚ) / RAND_MAX := by positivity
  generalize (s.kern.rand.headD 0) = draw at hnonneg ⊢
  -- a draw below the probability makes it positive, so the test for that adds nothing
  have hlost : Lost rule draw ↔
      (((s.overrides i).lossSet && decide (0 < (s.overrides i).lossProb)) &&
        decide ((draw : ℚ) / RAND_MAX < (s.overrides i).lossProb)) = true := by
    have hpos : (draw : ℚ) / RAND_MAX < (s.overrides i).lossProb → 0 < (s.overrides i).lossProb :=
      fun hlt => lt_of_le_of_lt hnonneg hlt
    cases hset : (s.overrides i).lossSet with
    | false => simp [Lost, hloss, hset]
    | true => simpa [Lost, hloss, hset] using hpos
  by_cases hd : Lost rule draw
  · rw [if_pos (hlost.1 hd)]
    simp [hd]
  · rw [if_neg (fun hc => hd (hlost.2 hc))]
    cases hset : (s.overrides i).rssiSet with
    | true => simp [hd, hrssi, hset]
    | false =>
      have hnone : rule.rssi = none := by rw [hrssi, hset]; rfl
      simp only [hd, hnone, Bool.false_eq_true, if_false, not_false_eq_true, true_and]
      refine ⟨?_, fun v hv => by cases hv⟩
      generalize hk : (if ((s.overrides i).lossSet && decide (0 < (s.overrides i).lossProb)) = true then
        { s.kern with rand := s.kern.rand.tail } else s.kern) = kern
      have hkern : kern.sqrt = s.kern.sqrt ∧ kern.log10 = s.kern.log10 := by
        rw [← hk]
        split_ifs <;> exact ⟨rfl, rfl⟩
      rw [pathModel_ok s s.kern kern tx rx p 0 _ hkern.1 hkern.2]

theorem toInt_ofInt_iff (r : ℤ) : (Int8.ofInt r).toInt = r ↔ -128 ≤ r ∧ r ≤ 127 := by
  have hsize : ((Int8.size : ℕ) : ℤ) = 256 := rfl
  rw [Int8.toInt_ofInt, Int.bmod_def, hsize]
  split_ifs <;> omega

/-- The settings of the link from node `i` to node `k` are honoured for a frame that is sent to peer
`dst` of node `k`: a loss of 1 stops it and a loss of 0 does not, and where the RSSI is set it
decides, and is what the receiver reads. -/
structure Honoured (s : Hub) (rule : LinkRule) (i k dst : ℕ) (hdr : VbtFrameHdr)
    (pdu : List UInt8) : Prop where
  full : rule.loss = some 1 →
    (s.propagate (some (s.nodes i)) (s.nodes k) hdr.txPowerDbm hdr.rssi).ok = false
  zero : rule.loss = some 0 →
    ((s.propagate (some (s.nodes i)) (s.nodes k) hdr.txPowerDbm hdr.rssi).ok = true ↔
      s.Audible rule (s.nodes i) (s.nodes k) hdr.txPowerDbm)
  pinned : ∀ r, rule.rssi = some r →
    ((s.propagate (some (s.nodes i)) (s.nodes k) hdr.txPowerDbm hdr.rssi).ok = false ↔
      r < truncInt (s.nodes k).rxSensDbm ∨ Lost rule (s.kern.rand.headD 0)) ∧
    ∀ f ∈ handsTo dst (did s (s.deliverHeard (some i) k dst hdr pdu)), f.hdr.rssi.toInt = r

theorem not_lost_zero {rule : LinkRule} (h : rule.loss = some 0) (draw : ℕ) : ¬ Lost rule draw := by
  rintro ⟨p, hp, hlt⟩
  rw [h] at hp
  cases hp
  exact absurd hlt (not_lt.2 (by positivity))

theorem lost_one_iff {rule : LinkRule} (h : rule.loss = some 1) {draw : ℕ} (hd : draw ≤ RAND_MAX) :
    Lost rule draw ↔ draw ≠ RAND_MAX := by
  have hmax : (0 : ℚ) < RAND_MAX := by
    have : 0 < RAND_MAX := by decide
    exact_mod_cast this
  have hlt : Lost rule draw ↔ (draw : ℚ) / RAND_MAX < 1 := by simp [Lost, h]
  rw [hlt, div_lt_one hmax, Nat.cast_lt]
  omega

/-- **Settings of links are honoured** for a frame exactly if no draw of `RAND_MAX` meets a loss of
1, and an RSSI that is set fits into the header. Where the receiver hears nothing anyway, neither is
needed. -/
theorem link_honoured_iff {s : Hub} (hs : Reachable s) {i k : ℕ} {rule : LinkRule}
    (hi : (s.nodes i).physical = false) (hk : (s.nodes k).physical = false)
    (hl : s.links s((s.nodes i).nodeId, (s.nodes k).nodeId) = some rule)
    (hd : s.kern.rand.headD 0 ≤ RAND_MAX) (dst : ℕ) (hdr : VbtFrameHdr) (pdu : List UInt8) :
    Honoured s rule i k dst hdr pdu ↔
      (s.Audible rule (s.nodes i) (s.nodes k) hdr.txPowerDbm → rule.loss = some 1 →
        s.kern.rand.headD 0 ≠ RAND_MAX) ∧
      (s.Audible rule (s.nodes i) (s.nodes k) hdr.txPowerDbm → ¬ Lost rule (s.kern.rand.headD 0) →
        ∀ r, rule.rssi = some r → -128 ≤ r ∧ r ≤ 127) := by
  obtain ⟨hok, hrssi⟩ := propagate_link hi hk hl hdr.txPowerDbm hdr.rssi
  have hhand := handsTo_deliverHeard hs.tracked (some i) k dst hdr pdu rfl
  simp only [Option.map_some] at hhand
  have hpinned : ∀ r, rule.rssi = some r →
      (s.Audible rule (s.nodes i) (s.nodes k) hdr.txPowerDbm ↔
          truncInt (s.nodes k).rxSensDbm ≤ r) := by
    intro r hr
    rw [Audible, hr]
  generalize hh : s.propagate (some (s.nodes i)) (s.nodes k) hdr.txPowerDbm hdr.rssi = heard
    at hok hrssi hhand
  constructor
  · intro h
    refine ⟨fun haud hone hmax => ?_, fun haud hlost r hr => ?_⟩
    · have hfull := h.full hone
      rw [hh, ← Bool.not_eq_true, hok] at hfull
      exact hfull ⟨fun hc => (lost_one_iff hone hd).1 hc hmax, haud⟩
    · have hheard := hok.2 ⟨hlost, haud⟩
      have hread := (h.pinned r hr).2
      rw [hhand, if_pos hheard, hrssi r hr hheard] at hread
      exact (toInt_ofInt_iff r).1 (hread _ List.mem_cons_self)
  · rintro ⟨hdraw, hfits⟩
    refine ⟨fun hone => ?_, fun hzero => ?_, fun r hr => ⟨?_, fun f hf => ?_⟩⟩
    · rw [hh, ← Bool.not_eq_true, hok]
      exact fun hc => hc.1 ((lost_one_iff hone hd).2 (hdraw hc.2 hone))
    · rw [hh, hok]
      exact and_iff_right (not_lost_zero hzero _)
    · rw [hh, ← Bool.not_eq_true, hok, hpinned r hr, not_and_or, not_not, not_le]
      exact or_comm
    · rw [hhand] at hf
      split_ifs at hf with hheard
      · rw [List.mem_singleton] at hf
        rw [hf]
        obtain ⟨hlost, haud⟩ := hok.1 hheard
        show (Int8.ofInt heard.rssi).toInt = r
        rw [hrssi r hr hheard]
        exact (toInt_ofInt_iff r).2 (hfits haud hlost r hr)
      · exact absurd hf List.not_mem_nil

/-- Two nodes `a` and `b` and a command about their link, with `rand` the draws to come. -/
def bench (cmd : CtlCmd) (rand : List ℕ) : Hub :=
  (Hub.init 0).run [.accept 3 false, .accept 4 false,
    .recv 0 (.data (wire (makeHello [0x61] none))), .message 0 .quiet,
    .recv 1 (.data (wire (makeHello [0x62] none))), .message 1 .quiet,
    .control cmd, .flush 0 { Kern.quiet with rand }]

theorem bench_reachable (cmd : CtlCmd) (rand : List ℕ) : Reachable (bench cmd rand) := ⟨0, _, rfl⟩

/-- The settings are honoured on the bench for a loss of 1 and a draw of 5. -/
theorem link_honoured_iff_bench :
    Honoured (bench (.setLoss [0x61] [0x62] 1) [5]) { loss := some 1 } 0 1 1 default [] := by
  refine (link_honoured_iff (bench_reachable _ _) (by decide +kernel) (by decide +kernel)
    (by decide +kernel) (by decide +kernel) 1 default []).2 ⟨fun _ _ => ?_, fun _ _ r hr => ?_⟩
  · decide +kernel
  · cases hr

/-- **A loss of 1 lets the largest draw through, and an RSSI of 200 arrives as -56.** -/
theorem settings_not_honoured :
    (∃ s : Hub, s = bench (.setLoss [0x61] [0x62] 1) [RAND_MAX] ∧
      s.links s([0x61], [0x62]) = some { loss := some 1 } ∧
      (s.propagate (some (s.nodes 0)) (s.nodes 1) 0 (-50)).ok = true) ∧
    ∃ s : Hub, s = bench (.setRssi [0x61] [0x62] 200) [] ∧
      s.links s([0x61], [0x62]) = some { rssi := some 200 } ∧
      handsTo 1 (did s (s.deliverHeard (some 0) 1 1 default [])) =
        [⟨{ (default : VbtFrameHdr) with rssi := -56 }, []⟩] := by
  refine ⟨⟨_, rfl, ?_, ?_⟩, _, rfl, ?_, ?_⟩ <;> decide +kernel

end Hub
end Vbt
