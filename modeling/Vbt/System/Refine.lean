import Vbt.System.Relay

/-!
# The hub refines the medium without a hub

* `Net.Admissible.of_le`: what is assumed of a run held all along it;
* `Sim`: the two media side by side; a move of the hub is invisible, any other move is the same
  move there;
* `corresponds_step`, `Corresponds.run`: moves and runs keep the invariant and the correspondence;
* `hub_refines_cross`: the refinement, and `zero_address_lost`: what the all-zero source address
  does.
-/

namespace Vbt

open VbtLl Router

/-! ### Assumptions of a run -/

namespace Net

variable {n n' : Net}

theorem sources_mono {x : Side} (h : (n.core x).frames <+: (n'.core x).frames) :
    n.sources x ⊆ n'.sources x := by
  intro a ha
  simp only [sources, List.mem_toFinset, List.mem_map] at ha ⊢
  obtain ⟨f, hf, rfl⟩ := ha
  exact ⟨f, h.subset hf, rfl⟩

theorem Admissible.of_le (h : n'.Admissible) (hlog : n.hub.log <:+ n'.hub.log)
    (hframes : ∀ x, (n.core x).frames <+: (n'.core x).frames) : n.Admissible where
  quiet a ha := h.quiet a (hlog.subset ha)
  few x := (Finset.card_le_card (sources_mono (hframes x))).trans (h.few x)
  disjoint := h.disjoint.mono (sources_mono (hframes .left)) (sources_mono (hframes .right))
  inds := (Nat.add_le_add ((hframes .left).sublist.countP_le)
    ((hframes .right).sublist.countP_le)).trans h.inds

theorem frames_call (hr : ∀ x, Reached (n.core x)) (x : Side) (i : Input) (y : Side) :
    (n.core y).frames <+: ((n.call x i).core y).frames := by
  by_cases hy : y = x
  · subst hy
    simp only [call, Function.update_self]
    exact (hr y).frames_step i
  · simp only [call, Function.update_of_ne hy]
    exact List.prefix_rfl

theorem reached_call (hr : ∀ x, Reached (n.core x)) (x : Side) (i : Input) (y : Side) :
    Reached ((n.call x i).core y) := by
  by_cases hy : y = x
  · subst hy
    simp only [call, Function.update_self]
    exact (hr y).step i
  · simp only [call, Function.update_of_ne hy]
    exact hr y

theorem tracked_step (ht : Hub.Tracked n.hub) (hr : ∀ x, Reached (n.core x)) (m : Move) :
    Hub.Tracked (n.step m).hub ∧ ∀ x, Reached ((n.step m).core x) := by
  have hev : ∀ e, Hub.Tracked (n.hub.step e) := fun e => (Hub.step_continues ht e).tracked
  cases m with
  | host x pkt len => exact ⟨ht, reached_call hr x _⟩
  | tick x nowMs => exact ⟨ht, reached_call hr x _⟩
  | read x k =>
    simp only [step]
    split_ifs
    · exact ⟨ht, hr⟩
    · exact ⟨hev (.recv (n.peer x) (.data (n.chunk x k))), hr⟩
  | message x kern => exact ⟨hev (.message (n.peer x) kern), hr⟩
  | flush x kern => exact ⟨hev (.flush (n.peer x) kern), hr⟩
  | deliver x junk =>
    simp only [step]
    split
    · exact ⟨ht, hr⟩
    · exact ⟨ht, reached_call hr x _⟩

/-- A move only adds to the history of the hub and to the frames of the cores. -/
theorem step_le (ht : Hub.Tracked n.hub) (hr : ∀ x, Reached (n.core x)) (m : Move) :
    n.hub.log <:+ (n.step m).hub.log ∧ ∀ x, (n.core x).frames <+: ((n.step m).core x).frames := by
  have hev : ∀ e, n.hub.log <:+ (n.hub.step e).log := fun e => (Hub.step_continues ht e).suffix
  cases m with
  | host x pkt len => exact ⟨List.suffix_rfl, frames_call hr x _⟩
  | tick x nowMs => exact ⟨List.suffix_rfl, frames_call hr x _⟩
  | read x k =>
    simp only [step]
    split_ifs
    · exact ⟨List.suffix_rfl, fun _ => List.prefix_rfl⟩
    · exact ⟨hev _, fun _ => List.prefix_rfl⟩
  | message x kern => exact ⟨hev _, fun _ => List.prefix_rfl⟩
  | flush x kern => exact ⟨hev _, fun _ => List.prefix_rfl⟩
  | deliver x junk =>
    simp only [step]
    split
    · exact ⟨List.suffix_rfl, fun _ => List.prefix_rfl⟩
    · exact ⟨List.suffix_rfl, frames_call hr x _⟩

theorem run_le (ht : Hub.Tracked n.hub) (hr : ∀ x, Reached (n.core x)) (ms : List Move) :
    n.hub.log <:+ (n.run ms).hub.log ∧ ∀ x, (n.core x).frames <+: ((n.run ms).core x).frames := by
  induction ms generalizing n with
  | nil => exact ⟨List.suffix_rfl, fun _ => List.prefix_rfl⟩
  | cons m ms ih =>
    obtain ⟨hlog, hframes⟩ := step_le ht hr m
    obtain ⟨ht', hr'⟩ := tracked_step ht hr m
    obtain ⟨hlog', hframes'⟩ := ih ht' hr'
    exact ⟨hlog.trans hlog', fun x => (hframes x).trans (hframes' x)⟩

end Net

/-! ### Side by side -/

/-- The medium without a hub is in the state that corresponds to `n`, where the frames `pending` are
on the way: the cores are the same, and the queues hold what is still to be delivered. -/
structure Sim (n : Net) (pending : Side → List Frame) (c : Cross) : Prop where
  core : c.core = n.core
  queue : ∀ x, (c.queue x).map Frame.view =
    (n.inbox x).map Frame.view ++ (pending x.other).map Frame.view

namespace Sim

variable {n : Net} {pending : Side → List Frame} {c : Cross}

/-- A call happens on both sides. -/
theorem call (h : Sim n pending c) (x : Side) (i : Input) :
    Sim (n.call x i) (Function.update pending x (pending x ++
        Net.sends (n.core x) i)) (c.call x i) where
  core := by
    simp only [Cross.call, Net.call, h.core]
  queue y := by
    show (Function.update c.queue x.other (c.queue x.other ++ Net.sends (c.core x) i) y).map _ =
      (n.inbox y).map _ ++ _
    rcases x.eq_or y with rfl | rfl
    · rw [Function.update_of_ne y.other_ne.symm, Function.update_of_ne y.other_ne]
      exact h.queue y
    · rw [Function.update_self, Side.other_other, Function.update_self, List.map_append,
        List.map_append, h.queue, Side.other_other, h.core, List.append_assoc]

/-- Taking the first frame off a queue happens on both sides. -/
theorem deliver (h : Sim n pending c) {x : Side} {f : Frame} {rest : List Frame}
    (hin : n.inbox x = f :: rest) (junk : Mem) :
    Sim { n.call x (fromMedium junk f) with inbox := Function.update n.inbox x rest }
      (Function.update pending x (pending x ++ Net.sends (n.core x) (fromMedium junk f)))
      (c.step (.deliver x junk)) := by
  have hq := h.queue x
  rw [hin, List.map_cons, List.cons_append] at hq
  obtain ⟨g, tail, hcq, hv, htail⟩ := List.map_eq_cons_iff.1 hq
  have hstep := step_of_view hv (n.core x) junk
  have hsends : Net.sends (n.core x) (fromMedium junk g) = Net.sends (n.core x) (fromMedium junk f) := by
    rw [Net.sends, Net.sends, hstep]
  simp only [Cross.step, hcq]
  refine ⟨?_, fun y => ?_⟩
  · simp only [Cross.call, Net.call, h.core, hstep]
  · show (Function.update (Function.update c.queue x tail) x.other
      (Function.update c.queue x tail x.other ++
        Net.sends (c.core x) (fromMedium junk g)) y).map _ =
      (Function.update n.inbox x rest y).map _ ++ _
    rcases x.eq_or y with rfl | rfl
    · rw [Function.update_of_ne y.other_ne.symm, Function.update_of_ne y.other_ne,
        Function.update_self, Function.update_self, htail]
    · rw [Function.update_self, Side.other_other, Function.update_self,
        Function.update_of_ne x.other_ne, Function.update_of_ne x.other_ne, List.map_append,
        List.map_append, h.queue, Side.other_other, h.core, hsends, List.append_assoc]

/-- Events that forward nothing are invisible. -/
theorem idle (h : Sim n pending c) {e : Hub.Event} (hi : Hub.Idle n.hub (n.hub.step e))
    (sock : Side → List UInt8) : Sim { n.event e with sock } pending c where
  core := h.core
  queue x := by
    show _ = (n.inbox x ++ (Hub.handsTo (n.peer x) (Hub.did n.hub (n.hub.step e))).reverse).map _ ++
      _
    rw [hi.hands, List.reverse_nil, List.append_nil]
    exact h.queue x

/-- So is the handling of a frame: it moves from the wire to the inbox of the other core. -/
theorem message (h : Sim n pending c) {e : Hub.Event} {x : Side} {f : Frame} {rest : List Frame}
    (hp : pending x = f :: rest)
    (hother : (Hub.handsTo (n.peer x.other) (Hub.did n.hub (n.hub.step e))).map Frame.view = [f.view])
    (hsender : Hub.handsTo (n.peer x) (Hub.did n.hub (n.hub.step e)) = []) :
    Sim (n.event e) (Function.update pending x rest) c where
  core := h.core
  queue y := by
    show _ = (n.inbox y ++ (Hub.handsTo (n.peer y) (Hub.did n.hub (n.hub.step e))).reverse).map _ ++
      _
    rcases x.eq_or y with rfl | rfl
    · rw [hsender, List.reverse_nil, List.append_nil, Function.update_of_ne y.other_ne]
      exact h.queue y
    · rw [Side.other_other, Function.update_self, List.map_append, List.map_reverse, hother,
        h.queue,
        Side.other_other, hp, List.append_assoc]
      rfl

end Sim

/-! ### Moves and runs -/

theorem Cross.run_append (c : Cross) (ms ms' : List Cross.Move) :
    c.run (ms ++ ms') = (c.run ms).run ms' := by
  simp [Cross.run, List.foldl_append]

@[simp] theorem Cross.run_singleton (c : Cross) (m : Cross.Move) : c.run [m] = c.step m := rfl

/-- The head of a buffer: a whole packet or a part of one. -/
theorem buffer_cases {buf sock packet rest : List UInt8} (h : buf ++ sock = packet ++ rest) :
    (∃ more, buf = packet ++ more) ∨ (buf <+: packet ∧ buf.length < packet.length) := by
  rcases List.append_eq_append_iff.1 h with ⟨mid, hpacket, -⟩ | ⟨mid, hbuf, -⟩
  · by_cases hmid : mid = []
    · subst hmid
      exact Or.inl ⟨[], by rw [hpacket, List.append_nil, List.append_nil]⟩
    · refine Or.inr ⟨⟨mid, hpacket.symm⟩, ?_⟩
      have := List.length_pos_of_ne_nil hmid
      rw [hpacket, List.length_append]
      omega
  · exact Or.inl ⟨mid, hbuf⟩

/-- The invariant holds, and the medium without a hub reaches a corresponding state from `c₀`. -/
def Corresponds (node : Side → ℕ) (c₀ : Cross) (n : Net) : Prop :=
  ∃ handled pending ms, Inv node n handled pending ∧ Sim n pending (c₀.run ms)

namespace Inv

variable {node : Side → ℕ} {n : Net} {handled pending : Side → List Frame} {c₀ : Cross}
  {ms : List Cross.Move} (h : Inv node n handled pending) (hs : Sim n pending (c₀.run ms))
include h hs

theorem corresponds_idle {e : Hub.Event} (hi : Hub.Idle n.hub (n.hub.step e))
    {sock : Side → List UInt8}
    (hrx : ∀ x, ((n.hub.step e).peers (n.peer x)).rxbuf ++ sock x =
      (n.hub.peers (n.peer x)).rxbuf ++ n.sock x) :
    Corresponds node c₀ { n.event e with sock } :=
  ⟨handled, pending, ms, h.idle hi hrx, hs.idle hi sock⟩

theorem corresponds_call {x : Side} {i : Input} {m : Cross.Move}
    (hm : ∀ c : Cross, c.step m = c.call x i)
    (hheard : ∀ a, ¬ i.intake.adv a) (hgiven : ∀ aa, ¬ i.intake.ind aa) :
    Corresponds node c₀ (n.call x i) := by
  refine ⟨handled, _, ms ++ [m], h.call (fun a ha => absurd ha (hheard a))
    fun aa ha => absurd ha (hgiven aa), ?_⟩
  rw [Cross.run_append, Cross.run_singleton, hm]
  exact hs.call x i

theorem corresponds_read (x : Side) (k : ℕ) : Corresponds node c₀ (n.step (.read x k)) := by
  simp only [Net.step]
  split_ifs with hne
  · exact ⟨handled, pending, ms, h, hs⟩
  have hlen : (n.chunk x k).length ≤ VBT_RXBUF_SIZE - (n.hub.peers (n.peer x)).rxbuf.length := by
    simp only [Net.chunk, List.length_take]
    omega
  have hpre : n.chunk x k <+: n.sock x := List.take_prefix _ _
  obtain ⟨hi, hrx, hrx'⟩ := Hub.idle_recv h.tracked (h.bound x).isOpen hne hlen
  refine h.corresponds_idle hs hi fun y => ?_
  rcases x.eq_or y with rfl | rfl
  · rw [hrx, Function.update_self, List.append_assoc, List.prefix_iff_eq_append.1 hpre]
  · rw [hrx' _ (h.peer_ne x), Function.update_of_ne x.other_ne]

theorem corresponds_message (hadm : n.Admissible) (hz : ∀ x, BdAddr.zero ∉ n.sources x) (x : Side)
    {kern : Kern} (hcalm : Hub.NoClose n.hub (n.hub.step (.message (n.peer x) kern))) :
    Corresponds node c₀ (n.event (.message (n.peer x) kern)) := by
  have hbytes := h.bytes x
  -- an incomplete message at the head of the buffer stays there
  have hpartial : ∀ payload : List UInt8, (n.hub.peers (n.peer x)).rxbuf <+: wire payload →
      (n.hub.peers (n.peer x)).rxbuf.length < (wire payload).length →
      payload.length ≤ VBT_MAX_MSG_SIZE → Corresponds node c₀ (n.event (.message (n.peer x) kern)) := by
    intro payload hpre hlt hmax
    rw [wire_length] at hlt
    obtain ⟨hi, hpeers⟩ := Hub.idle_partial h.tracked hpre hlt hmax kern
    refine h.corresponds_idle hs hi fun y => ?_
    rw [hpeers]
  cases hp : pending x with
  | nil =>
    rw [hp, List.flatMap_nil, List.append_eq_nil_iff] at hbytes
    refine hpartial [] ?_ ?_ (Nat.zero_le _)
    · rw [hbytes.1]
      exact List.nil_prefix
    · rw [hbytes.1]
      decide
  | cons f rest =>
    rw [hp, List.flatMap_cons] at hbytes
    rcases buffer_cases hbytes with ⟨more, hbuf⟩ | ⟨hpre, hlt⟩
    · obtain ⟨-, hdid, -⟩ := Hub.calm_message h.tracked (h.bound x).isOpen (h.frameOf_pending hp)
        hbuf hcalm
      refine ⟨_, _, ms, h.message hadm hz hp hbuf hcalm, hs.message hp ?_ ?_⟩
      · rw [hdid]
        exact h.handsTo_other hp kern
      · rw [hdid]
        exact h.handsTo_sender hp kern
    · exact hpartial f.payload hpre hlt (Hub.length_of_frameOf (h.frameOf_pending hp))

/-- **Every move keeps the correspondence.** -/
theorem corresponds_step (m : Net.Move) (hadm : (n.step m).Admissible)
    (hz : ∀ x, BdAddr.zero ∉ (n.step m).sources x) : Corresponds node c₀ (n.step m) := by
  obtain ⟨hlog, hframes⟩ := Net.step_le h.tracked h.reached m
  have hadm' := hadm.of_le hlog hframes
  have hz' : ∀ x, BdAddr.zero ∉ n.sources x := fun x hc => hz x (Net.sources_mono (hframes x) hc)
  have hcalm : ∀ p, Act.closed p ∉ Hub.did n.hub (n.step m).hub := fun p hc => by
    have hmem : Act.closed p ∈ (n.step m).hub.log := by
      rw [Hub.did_append hlog]
      exact List.mem_append_left _ hc
    cases hadm.quiet _ hmem
  cases m with
  | host x pkt len =>
    exact h.corresponds_call hs (m := .host x pkt len) (fun _ => rfl) (fun _ => id) fun _ => id
  | tick x nowMs =>
    exact h.corresponds_call hs (m := .tick x nowMs) (fun _ => rfl) (fun _ => id) fun _ => id
  | read x k => exact h.corresponds_read hs x k
  | message x kern => exact h.corresponds_message hs hadm' hz' x hcalm
  | flush x kern =>
    have hflush : Hub.NoClose n.hub (n.hub.step (.flush (n.peer x) kern)) := hcalm
    obtain ⟨hi, hrx⟩ := Hub.idle_flush h.tracked hflush
    refine h.corresponds_idle hs hi fun y => ?_
    rw [hrx]
  | deliver x junk =>
    cases hin : n.inbox x with
    | nil =>
      simp only [Net.step, hin]
      exact ⟨handled, pending, ms, h, hs⟩
    | cons f rest =>
      simp only [Net.step, hin]
      refine ⟨handled, _, ms ++ [.deliver x junk], h.deliver hin junk, ?_⟩
      rw [Cross.run_append, Cross.run_singleton]
      exact hs.deliver hin junk

end Inv

/-! ### Attaching -/

/-- Before the first frame the hub knows no address and no route. -/
theorem setup_tables {log : List Act} (hlegal : medium.Legal log)
    (hsetup : ∀ a ∈ log, a.isSetup = true) :
    (∀ k, (medium.replay log).addrs k = []) ∧ ∀ aa, (medium.replay log).link aa = none := by
  have hlog : medium.Legal (log ++ []) := by rwa [List.append_nil]
  have hinv := hlog.invariant_since (I := fun r => (∀ k, r.addrs k = []) ∧ ∀ aa, r.link aa = none)
    (P := fun a => a.isSetup = true) ⟨fun _ => rfl, fun _ => rfl⟩ ?_ hsetup
  · rwa [List.append_nil] at hinv
  rintro t a - ⟨haddrs, hlink⟩ - ha
  cases a with
  | opened p br => exact ⟨haddrs, hlink⟩
  | named k nid =>
    refine ⟨fun i => ?_, hlink⟩
    simp only [medium_apply, Router.apply, addNode]
    split_ifs
    · rfl
    · exact haddrs i
  | hello p nid ph mon node => cases mon <;> cases node <;> exact ⟨haddrs, hlink⟩
  | _ => cases ha

theorem handsTo_setup {log : List Act} (hsetup : ∀ a ∈ log, a.isSetup = true) (p : ℕ) :
    Hub.handsTo p log = [] :=
  Hub.handsTo_eq_nil fun _ hf => by cases hsetup _ hf

theorem corresponds_start {hub : Hub} {peer node : Side → ℕ} (ha : Attached hub peer node)
    (addr : Side → BdAddr) :
    Corresponds node (Cross.start addr) (Net.start hub peer addr) := by
  have ht := ha.reachable.tracked
  obtain ⟨haddrs, hlink⟩ := setup_tables ht.legal ha.setup
  rw [← ht.router] at haddrs hlink
  have hlinked : hub.linked = ∅ := by
    rw [Finset.eq_empty_iff_forall_notMem]
    intro aa haa
    obtain ⟨e, he⟩ := (Hub.mem_linked ht.tidy).1 haa
    rw [hlink aa] at he
    cases he
  have hhanded : ∀ x, (Net.start hub peer addr).handed x = [] := fun x => by
    show (Hub.handsTo (peer x) hub.log).reverse = []
    rw [handsTo_setup ha.setup]
    rfl
  refine ⟨fun _ => [], fun _ => [], [], ?_, ⟨rfl, fun _ => rfl⟩⟩
  exact
    { tracked := ht
      oneHello := ha.oneHello
      plain := ha.plain
      bound := fun x => (ha.live x).bound
      distinct := ha.distinct
      frames := fun _ => rfl
      bytes := fun x => by
        show (hub.peers (peer x)).rxbuf ++ [] = _
        rw [ha.rxbuf]
        rfl
      handed := fun x => by rw [hhanded]
      inbox := fun x => by
        rw [hhanded]
        exact List.suffix_rfl
      learned := fun x a => by
        show a ∈ hub.router.addrs (node x) ↔ _
        rw [haddrs]
        constructor
        · intro hc
          cases hc
        · rintro ⟨f, hf, -⟩
          cases hf
      links := fun aa e he => by
        have he' : hub.router.link aa = some e := he
        rw [hlink] at he'
        cases he'
      routed := fun x f hf => by cases hf
      room := by
        show hub.linked.card ≤ _
        rw [hlinked]
        exact Nat.zero_le _
      reached := fun x => ⟨addr x, [], rfl⟩
      disciplined := fun x => disciplined_vbtLlNew _ _ (addr x) }

/-- Whole runs keep the correspondence: what is assumed of the state a run ends in held in every
state before it. -/
theorem Corresponds.run {node : Side → ℕ} {c₀ : Cross} {n : Net} (h : Corresponds node c₀ n)
    (ms : List Net.Move) (hadm : (n.run ms).Admissible)
    (hz : ∀ x, BdAddr.zero ∉ (n.run ms).sources x) : Corresponds node c₀ (n.run ms) := by
  induction ms generalizing n with
  | nil => exact h
  | cons m ms ih =>
    obtain ⟨handled, pending, ms', hinv, hsim⟩ := h
    obtain ⟨ht, hr⟩ := Net.tracked_step hinv.tracked hinv.reached m
    obtain ⟨hlog, hframes⟩ := Net.run_le ht hr ms
    have hnow := hinv.corresponds_step hsim m (hadm.of_le hlog hframes) fun x hc =>
      hz x (Net.sources_mono (hframes x) hc)
    exact ih hnow hadm hz

theorem Inv.relays {node : Side → ℕ} {n : Net} {handled pending : Side → List Frame}
    (h : Inv node n handled pending) (x : Side) : n.Relays x := by
  refine ⟨pending x, h.bytes x, ?_⟩
  rw [h.handed, h.frames, List.map_append]

/-- **The hub refines the medium without a hub.** Two cores that are created on a hub to which their
peers are attached are handed exactly what the other one sent, in order and once each, in every run
in which no socket fails, no message is dropped, the source addresses are few, disjoint and not all
zero, and at most 512 CONNECT_INDs are sent; and the cores are in a state they also reach when each
is directly given what the other one sends. -/
theorem hub_refines_cross {hub : Hub} {peer node : Side → ℕ} (ha : Attached hub peer node)
    (addr : Side → BdAddr) (ms : List Net.Move)
    (hadm : ((Net.start hub peer addr).run ms).Admissible)
    (hz : ∀ x, BdAddr.zero ∉ ((Net.start hub peer addr).run ms).sources x) :
    (∀ x, ((Net.start hub peer addr).run ms).Relays x) ∧
      ∃ ms', ((Cross.start addr).run ms').core = ((Net.start hub peer addr).run ms).core ∧
        ∀ x, (((Net.start hub peer addr).run ms).inbox x).map Frame.view <+:
          (((Cross.start addr).run ms').queue x).map Frame.view := by
  obtain ⟨handled, pending, ms', hinv, hsim⟩ := (corresponds_start ha addr).run ms hadm hz
  refine ⟨hinv.relays, ms', hsim.core, fun x => ?_⟩
  rw [hsim.queue]
  exact List.prefix_append _ _

/-! ### Two runs -/

/-- Two peers are accepted and say hello as `A` and `B`. -/
def attachRun : List Hub.Event :=
  [.accept 5 false, .accept 6 false] ++ Hub.sends 0 (helloPayload [0x41] 0) ++
    Hub.sends 1 (helloPayload [0x42] 0)

/-- The hub with both peers. -/
def attachedHub : Hub := (Hub.init 0).run attachRun

/-- The left core has slot and node 0, the right one slot and node 1. -/
def slot : Side → ℕ
  | .left => 0
  | .right => 1

/-- The right core advertises, the left one connects to it and sends a packet of data. -/
def dialogue (adva : BdAddr) : List Net.Move :=
  [.host .right (Mem.ofList [HCI_CMD_PKT, 0x0A, 0x20, 1, 1] blank) 5, .tick .right 100,
    .host .left (Mem.ofList ([HCI_CMD_PKT, 0x0D, 0x20, 25, 0, 0, 0, 0, 0, 0] ++ adva.bytes ++
      List.replicate 13 0) blank) 29,
    .read .right 100, .message .right Kern.quiet, .read .right 500, .message .right Kern.quiet,
    .message .right Kern.quiet, .deliver .left blank, .read .left 500, .message .left Kern.quiet,
    .deliver .right blank, .host .left (Mem.ofList (aclPacket 0x40 0 [1, 2, 3]) blank) 8,
    .read .left 500, .message .left Kern.quiet]

/-- The addresses of the two cores. -/
def addrs (adva : BdAddr) : Side → BdAddr
  | .left => centralAddr
  | .right => adva

theorem attached_attachedHub : Attached attachedHub slot slot where
  reachable := ⟨0, attachRun, rfl⟩
  live x := by cases x <;> decide +kernel
  distinct := by decide
  oneHello := by decide +kernel
  setup := by decide +kernel
  plain := by
    refine Hub.Plain.run ⟨fun _ => rfl, fun _ => rfl⟩ (Hub.Tracked.init 0) ?_
    decide
  rxbuf x := by cases x <;> decide +kernel

/-- The state after the dialogue with a peripheral of the given address. -/
def afterDialogue (adva : BdAddr) : Net :=
  (Net.start attachedHub slot (addrs adva)).run (dialogue adva)

theorem hub_refines_cross_dialogue : (afterDialogue peripheralAddr).Relays .left := by
  have hadm : (afterDialogue peripheralAddr).Admissible := by
    refine ⟨by decide +kernel, fun x => ?_, by decide +kernel, by decide +kernel⟩
    cases x <;> decide +kernel
  have hz : ∀ x, BdAddr.zero ∉ (afterDialogue peripheralAddr).sources x := fun x => by
    cases x <;> decide +kernel
  exact (hub_refines_cross attached_attachedHub (addrs peripheralAddr) (dialogue peripheralAddr) hadm
    hz).1 .left

/-- **A peripheral with the all-zero address** is never learned, so the hub does not know the other
endpoint of its connections: the data that the central sends is lost. -/
theorem zero_address_lost :
    Attached attachedHub slot slot ∧ (afterDialogue BdAddr.zero).Admissible ∧
      ¬ (afterDialogue BdAddr.zero).Relays .left := by
  refine ⟨attached_attachedHub, ⟨by decide +kernel, fun x => ?_, by decide +kernel,
    by decide +kernel⟩, ?_⟩
  · cases x <;> decide +kernel
  · rintro ⟨pending, hbytes, hviews⟩
    have hempty : ((afterDialogue BdAddr.zero).hub.peers ((afterDialogue BdAddr.zero).peer .left)).rxbuf ++
        (afterDialogue BdAddr.zero).sock .left = [] := by decide +kernel
    rw [hempty] at hbytes
    cases pending with
    | nil =>
      rw [List.map_nil, List.append_nil] at hviews
      revert hviews
      decide +kernel
    | cons f rest =>
      have hlen := congrArg List.length hbytes
      rw [List.flatMap_cons, List.length_append, Frame.packet, wire_length, List.length_nil] at hlen
      omega

end Vbt
