import Vbt.System.Phase

/-!
# Do the two ends of a connection agree?

Two cores joined by reliable channels that deliver in order. Seen as a `Dialog`, every move is a
step of one of the parties.

* `Cross.dialog`, `dialog_call`: the dialog that two cores are in;
* `Regular`: what every move keeps, and `Regular.run`;
* `no_orphaned_peripheral`: a peripheral has a connection only while the central has it or has said
  that it left;
* `Ready`, `quiescent_agreement`: when nothing is under way, the two ends agree, provided that no
  CONNECT_IND is refused and no connection is reset;
* `half_open`: a run in which a CONNECT_IND is refused.
-/

namespace Vbt

open VbtLl

/-- The signals of frames, of those that are about a connection. -/
def notables (fs : List Frame) : List Signal := (fs.map Frame.signal).filter Signal.notable

theorem notables_append (fs gs : List Frame) :
    notables (fs ++ gs) = notables fs ++ notables gs := by
  simp [notables]

/-- Taking the frame at the front takes its signal. -/
theorem pops_notables (f : Frame) (fs : List Frame) :
    Pops f.signal (notables (f :: fs)) (notables fs) := by
  cases hn : f.signal.notable with
  | true =>
    refine .front _ hn ?_
    show ((f.signal :: fs.map Frame.signal).filter Signal.notable) = _
    rw [List.filter_cons_of_pos hn]
    rfl
  | false =>
    have hq : notables (f :: fs) = notables fs :=
      List.filter_cons_of_neg (by rw [hn]; exact Bool.false_ne_true)
    rw [hq]
    exact .passing hn

/-- What a call sends is what its cause says. -/
theorem notables_sends {ll : VbtLl} (hr : Reached ll) (i : Input) :
    notables (Net.sends ll i) = (ll.cause i).sends := by
  obtain ⟨new, hnew⟩ := hr.frames_step i
  have hsends : Net.sends ll i = new := by
    unfold Net.sends
    rw [← hnew, List.drop_left]
  have hsig := (step_effect ll i).signals
  have happ : (ll.step i).signals = ll.signals ++ notables new := by
    show notables (ll.step i).frames = notables ll.frames ++ notables new
    rw [← hnew, notables_append]
  rw [hsends]
  exact List.append_cancel_left (happ.symm.trans hsig)

namespace Cross

/-- The dialog that two cores are in. -/
def dialog (c : Cross) : Dialog where
  table x := (c.core x).ends
  sent x := (c.core x).signals
  air x := notables (c.queue x)

/-- The Access Addresses of the CONNECT_INDs that the cores have sent are pairwise distinct. -/
def Distinct (c : Cross) : Prop :=
  (connects (c.core .left).signals ++ connects (c.core .right).signals).Nodup

/-- What is left in the queue of a core. -/
def leaving (c : Cross) (x : Side) (rest : List Frame) : Cross :=
  { c with queue := Function.update c.queue x rest }

theorem leaving_self (c : Cross) (x : Side) : c.leaving x (c.queue x) = c := by
  unfold leaving
  rw [Function.update_eq_self]

/-- A call is a step of the dialog. -/
theorem dialog_call (c : Cross) {x : Side} (hr : Reached (c.core x)) (rest : List Frame)
    (i : Input) :
    ((c.leaving x rest).call x i).dialog =
      c.dialog.act x (notables rest) ((c.core x).cause i) := by
  have heff := step_effect (c.core x) i
  ext1
  · funext y
    rcases x.eq_or y with rfl | rfl
    · rw [Dialog.act_table_self]
      show (Function.update c.core y _ y).ends = _
      rw [Function.update_self]
      exact heff.ends
    · rw [Dialog.act_table_other]
      show (Function.update c.core x _ x.other).ends = _
      rw [Function.update_of_ne x.other_ne]
      rfl
  · funext y
    rcases x.eq_or y with rfl | rfl
    · rw [Dialog.act_sent_self]
      show (Function.update c.core y _ y).signals = _
      rw [Function.update_self]
      exact heff.signals
    · rw [Dialog.act_sent_other]
      show (Function.update c.core x _ x.other).signals = _
      rw [Function.update_of_ne x.other_ne]
      rfl
  · funext y
    rcases x.eq_or y with rfl | rfl
    · rw [Dialog.act_air_self]
      show notables (Function.update (c.leaving y rest).queue y.other _ y) = _
      rw [Function.update_of_ne y.other_ne.symm]
      show notables (Function.update c.queue y rest y) = _
      rw [Function.update_self]
    · rw [Dialog.act_air_other]
      show notables (Function.update (c.leaving x rest).queue x.other _ x.other) = _
      rw [Function.update_self, notables_append]
      show notables (Function.update c.queue x rest x.other) ++
        notables (Net.sends (c.core x) i) = _
      rw [Function.update_of_ne x.other_ne, notables_sends hr]
      rfl

theorem reached_call {c : Cross} (hr : ∀ x, Reached (c.core x)) (x : Side) (i : Input) (y : Side) :
    Reached ((c.call x i).core y) := by
  show Reached (Function.update c.core x _ y)
  rw [Function.update_apply]
  split_ifs
  · exact (hr x).step i
  · exact hr y

/-- The call that a move makes: the core, what is then left in its queue, and the input. -/
def callOf (c : Cross) : Move → Option (Side × List Frame × Input)
  | .host x pkt len => some (x, c.queue x, .hci pkt len)
  | .tick x nowMs => some (x, c.queue x, .tick nowMs)
  | .deliver x junk =>
    match c.queue x with
    | [] => none
    | f :: rest => some (x, rest, fromMedium junk f)

/-- The move does nothing. -/
theorem step_of_none {c : Cross} {m : Move} (h : c.callOf m = none) : c.step m = c := by
  cases m with
  | host x pkt len => cases h
  | tick x nowMs => cases h
  | deliver x junk =>
    unfold callOf at h
    unfold step
    cases hq : c.queue x with
    | nil => simp only [hq]
    | cons f rest =>
      simp only [hq] at h
      cases h

theorem step_of_some {c : Cross} {m : Move} {x : Side} {rest : List Frame} {i : Input}
    (h : c.callOf m = some (x, rest, i)) : c.step m = (c.leaving x rest).call x i := by
  cases m with
  | host y pkt len =>
    cases h
    rw [leaving_self]
    rfl
  | tick y nowMs =>
    cases h
    rw [leaving_self]
    rfl
  | deliver y junk =>
    unfold callOf at h
    unfold step
    cases hq : c.queue y with
    | nil =>
      simp only [hq] at h
      cases h
    | cons f rest' =>
      simp only [hq] at h
      cases h
      simp only [hq]
      rfl

/-- A delivery takes the signal at the front of the queue, any other call takes none. -/
theorem pops_callOf {c : Cross} {m : Move} {x : Side} {rest : List Frame} {i : Input}
    (h : c.callOf m = some (x, rest, i)) :
    Pops i.signal (notables (c.queue x)) (notables rest) := by
  cases m with
  | host y pkt len =>
    cases h
    exact .passing rfl
  | tick y nowMs =>
    cases h
    exact .passing rfl
  | deliver y junk =>
    unfold callOf at h
    cases hq : c.queue y with
    | nil =>
      simp only [hq] at h
      cases h
    | cons f rest' =>
      simp only [hq] at h
      cases h
      rw [hq, show (fromMedium junk f).signal = f.signal from signal_fromMedium junk f]
      exact pops_notables f rest

/-! ### Distinct Access Addresses -/

theorem signals_leaving_call {c : Cross} (x : Side) (rest : List Frame) (i : Input) (y : Side) :
    (c.core y).signals <+: (((c.leaving x rest).call x i).core y).signals := by
  show _ <+: (Function.update c.core x _ y).signals
  rw [Function.update_apply]
  split_ifs with hy
  · subst hy
    rw [show ((c.leaving y rest).core y).step i = (c.core y).step i from rfl,
      (step_effect (c.core y) i).signals]
    exact List.prefix_append _ _
  · exact List.prefix_rfl

theorem signals_step (c : Cross) (m : Move) (y : Side) :
    (c.core y).signals <+: ((c.step m).core y).signals := by
  cases hc : c.callOf m with
  | none => rw [step_of_none hc]
  | some p =>
    obtain ⟨x, rest, i⟩ := p
    rw [step_of_some hc]
    exact signals_leaving_call x rest i y

theorem signals_run (c : Cross) (ms : List Move) (y : Side) :
    (c.core y).signals <+: ((c.run ms).core y).signals := by
  induction ms generalizing c with
  | nil => exact List.prefix_rfl
  | cons m ms ih => exact (signals_step c m y).trans (ih (c.step m))

/-- If the Access Addresses are distinct in the end, they always were. -/
theorem Distinct.of_le {c c' : Cross} (h : c'.Distinct)
    (hle : ∀ y, (c.core y).signals <+: (c'.core y).signals) : c.Distinct := by
  refine List.Nodup.sublist (List.Sublist.append ?_ ?_) h
  · exact ((hle .left).sublist).filterMap _
  · exact ((hle .right).sublist).filterMap _

/-! ### What every move keeps -/

/-- The cores are in a reachable state, their dialog is orderly, and every connection is in one of
its phases. -/
structure Regular (half : Prop) (c : Cross) : Prop where
  reached : ∀ x, Reached (c.core x)
  orderly : Dialog.Orderly c.dialog
  phased : Dialog.AllPhased half c.dialog

theorem dialog_start (addr : Side → BdAddr) : (start addr).dialog = Dialog.start := by
  ext1
  · funext x k
    show (vbtLlNew (addr x)).ends k = none
    unfold ends
    split_ifs <;> rfl
  · rfl
  · rfl

theorem regular_start (half : Prop) (addr : Side → BdAddr) : Regular half (start addr) where
  reached x := ⟨addr x, [], rfl⟩
  orderly := dialog_start addr ▸ Dialog.orderly_start
  phased y aa haa := by
    rw [dialog_start] at haa
    cases haa

/-- The host resets a core only while it has no connection. -/
def SafeReset (c : Cross) : Move → Prop
  | .host x pkt len => request pkt len = .reset → ∀ k < VBT_LL_MAX_CONN, (c.core x).ends k = none
  | _ => True

/-- If the signal is a CONNECT_IND, the core is advertising under the address it names and has a
free entry in its table. -/
def Welcomes (ll : VbtLl) : Option Signal → Prop
  | some (.connect adva _) =>
    ll.advEnabled = true ∧ adva = ll.ownSourceAddr ll.advOwnAddrType ∧
      ∃ k < VBT_LL_MAX_CONN, ll.ends k = none
  | _ => True

/-- A core welcomes what it is given. -/
def Ready (c : Cross) : Move → Prop
  | .deliver x _ => Welcomes (c.core x) ((c.queue x).head?.map Frame.signal)
  | _ => True

theorem freeSlot_isSome {ll : VbtLl} {k : ℕ} (hk : k < VBT_LL_MAX_CONN) (hfree : ll.ends k = none) :
    ∃ j, ll.freeSlot = some j := by
  cases hf : ll.freeSlot with
  | some j => exact ⟨j, rfl⟩
  | none =>
    have hp := Slots.find?_eq_none_iff.1 hf k (ll.connsSize ▸ hk)
    have hact : (ll.conns k).active = true := by simpa using hp
    rw [ends_of_active hk hact] at hfree
    cases hfree

/-- A core that is ready accepts the CONNECT_IND. -/
theorem Ready.answer {c : Cross} {m : Move} (h : c.Ready m) {x : Side} {rest : List Frame}
    {i : Input} (hc : c.callOf m = some (x, rest, i)) {adva : BdAddr} {aa : UInt32}
    (hs : i.signal = .connect adva aa) : ∃ k, (c.core x).cause i = .answer k aa := by
  cases m with
  | host y pkt len =>
    cases hc
    cases hs
  | tick y nowMs =>
    cases hc
    cases hs
  | deliver y junk =>
    unfold callOf at hc
    cases hq : c.queue y with
    | nil =>
      simp only [hq] at hc
      cases hc
    | cons f rest' =>
      simp only [hq] at hc
      cases hc
      have hsig : f.signal = .connect adva aa := (signal_fromMedium junk f).symm.trans hs
      have hw : Welcomes (c.core x) ((c.queue x).head?.map Frame.signal) := h
      rw [hq, List.head?_cons, Option.map_some, hsig] at hw
      obtain ⟨hadv, haddr, k, hk, hfree⟩ := hw
      obtain ⟨j, hj⟩ := freeSlot_isSome hk hfree
      refine ⟨j, ?_⟩
      rw [cause_of_signal hs Signal.noConfusion, onSignal_connect, if_pos ⟨hadv, haddr⟩, hj]
      rfl

theorem SafeReset.ends {c : Cross} {m : Move} (h : c.SafeReset m) {x : Side} {rest : List Frame}
    {i : Input} (hc : c.callOf m = some (x, rest, i)) (hi : (c.core x).cause i = .reset) (k : ℕ) :
    (c.core x).ends k = none := by
  have hreq : i.request = .reset := by
    have hdue := cause_due (c.core x) i
    rw [hi] at hdue
    exact hdue
  cases m with
  | host y pkt len =>
    cases hc
    by_cases hk : k < VBT_LL_MAX_CONN
    · exact h hreq k hk
    · exact if_neg hk
  | tick y nowMs =>
    cases hc
    cases hreq
  | deliver y junk =>
    unfold callOf at hc
    cases hq : c.queue y with
    | nil =>
      simp only [hq] at hc
      cases hc
    | cons f rest' =>
      simp only [hq] at hc
      cases hc
      cases hreq

theorem Regular.step {half : Prop} {c : Cross} (h : Regular half c) (m : Move) (hd₀ : c.Distinct)
    (hd : (c.step m).Distinct) (hreset : c.SafeReset m) (hready : half ∨ c.Ready m) :
    Regular half (c.step m) := by
  cases hc : c.callOf m with
  | none => rwa [step_of_none hc]
  | some p =>
    obtain ⟨x, rest, i⟩ := p
    rw [step_of_some hc] at hd ⊢
    have hdial := c.dialog_call (h.reached x) rest i
    have hpop := pops_callOf hc
    have hapt := cause_apt (c.core x) i
    have hd' : Dialog.Distinct (c.dialog.act x (notables rest) ((c.core x).cause i)) := by
      rw [← hdial]
      exact hd
    refine ⟨reached_call h.reached x i, ?_, ?_⟩
    · rw [hdial]
      exact h.orderly.act hpop.takes hapt hd' hd₀
    · rw [hdial]
      refine h.phased.act h.orderly hpop hapt hd' (hreset.ends hc) ?_
      exact hready.imp_right fun hr adva aa hs => hr.answer hc hs

/-- Every move of a run satisfies `P` in the state it is made in. -/
def Along (P : Cross → Move → Prop) (c : Cross) : List Move → Prop
  | [] => True
  | m :: ms => P c m ∧ Along P (c.step m) ms

theorem Regular.run {half : Prop} {c : Cross} (h : Regular half c) (ms : List Move)
    (hd : (c.run ms).Distinct) (hreset : Along SafeReset c ms) (hready : half ∨ Along Ready c ms) :
    Regular half (c.run ms) := by
  induction ms generalizing c with
  | nil => exact h
  | cons m ms ih =>
    have hd₁ : (c.step m).Distinct := hd.of_le (signals_run (c.step m) ms)
    have hd₀ : c.Distinct := hd₁.of_le (signals_step c m)
    exact ih (h.step m hd₀ hd₁ hreset.1 (hready.imp_right And.left)) hd hreset.2
      (hready.imp_right And.right)

/-! ### Connections of the cores -/

/-- Core `x` has an active connection with the Access Address `aa`, in the given role. -/
def Active (c : Cross) (x : Side) (role : UInt8) (aa : UInt32) : Prop :=
  ∃ k e, (c.core x).ends k = some e ∧ e.role = role ∧ e.accessAddr = aa

/-- LL_TERMINATE_IND for `aa` is under way to core `x`. -/
def Terminating (c : Cross) (x : Side) (aa : UInt32) : Prop :=
  ∃ f ∈ c.queue x, f.signal = .terminate aa

section Regular

variable {half : Prop} {c : Cross} {x : Side} {aa : UInt32}

/-- The peer of a peripheral named the connection. -/
theorem Regular.named_of_peripheral (h : Regular half c) (hp : c.Active x 1 aa) :
    aa ∈ connects (c.dialog.sent x.other) := by
  obtain ⟨k, e, he, hrole, rfl⟩ := hp
  rcases h.orderly.role x k e he with ⟨hr, -⟩ | ⟨-, hm⟩
  · rw [hrole] at hr
    cases hr
  · exact hm

theorem Regular.named_of_central (h : Regular half c) (hp : c.Active x 0 aa) :
    aa ∈ connects (c.dialog.sent x) := by
  obtain ⟨k, e, he, hrole, rfl⟩ := hp
  rcases h.orderly.role x k e he with ⟨-, hm⟩ | ⟨hr, -⟩
  · exact hm
  · rw [hrole] at hr
    cases hr

/-- The party that named a connection is its central. -/
theorem Regular.central_iff (h : Regular half c) (hd : c.Distinct)
    (haa : aa ∈ connects (c.dialog.sent x)) :
    Dialog.Holds (c.dialog.table x) aa ↔ c.Active x 0 aa := by
  constructor
  · rintro ⟨k, e, he, rfl⟩
    rcases h.orderly.role x k e he with ⟨hr, -⟩ | ⟨-, hm⟩
    · exact ⟨k, e, he, hr, rfl⟩
    · exact absurd hm (Dialog.Distinct.not_both (show c.dialog.Distinct from hd) haa)
  · rintro ⟨k, e, he, -, haa'⟩
    exact ⟨k, e, he, haa'⟩

/-- The other party is its peripheral. -/
theorem Regular.peripheral_iff (h : Regular half c) (hd : c.Distinct)
    (haa : aa ∈ connects (c.dialog.sent x)) :
    Dialog.Holds (c.dialog.table x.other) aa ↔ c.Active x.other 1 aa := by
  constructor
  · rintro ⟨k, e, he, rfl⟩
    rcases h.orderly.role x.other k e he with ⟨-, hm⟩ | ⟨hr, -⟩
    · exact absurd hm (Dialog.Distinct.not_both (show c.dialog.Distinct from hd) haa)
    · exact ⟨k, e, he, hr, rfl⟩
  · rintro ⟨k, e, he, -, haa'⟩
    exact ⟨k, e, he, haa'⟩

theorem terminating_of_lives (h : .term ∈ lives aa (c.dialog.air x)) : c.Terminating x aa := by
  obtain ⟨s, hs, hlife⟩ := List.mem_filterMap.1 h
  obtain ⟨hmem, -⟩ := List.mem_filter.1 hs
  obtain ⟨f, hf, rfl⟩ := List.mem_map.1 hmem
  refine ⟨f, hf, ?_⟩
  cases hsig : f.signal with
  | terminate b =>
    rw [hsig] at hlife
    have hb : (if b = aa then some Life.term else none) = some .term := hlife
    split_ifs at hb with hba
    rw [hba]
  | connect adva b =>
    rw [hsig] at hlife
    have hb : (if b = aa then some Life.conn else none) = some .term := hlife
    split_ifs at hb
    cases hb
  | adv | other | startEncReq | startEncRsp =>
    rw [hsig] at hlife
    cases hlife

end Regular

/-! ### No orphaned peripheral -/

/-- The move is an HCI Reset. -/
def Move.isReset : Move → Prop
  | .host _ pkt len => request pkt len = .reset
  | _ => False

theorem along_safeReset {c : Cross} {ms : List Move} (h : ∀ m ∈ ms, ¬ m.isReset) :
    Along SafeReset c ms := by
  induction ms generalizing c with
  | nil => trivial
  | cons m ms ih =>
    refine ⟨?_, ih fun m' hm' => h m' (List.mem_cons_of_mem m hm')⟩
    cases m with
    | host x pkt len => exact fun hreq => absurd hreq (h _ List.mem_cons_self)
    | tick x nowMs => trivial
    | deliver x junk => trivial

/-- **No orphaned peripheral.** Without resets, a peripheral has a connection only while its central
has it too, or LL_TERMINATE_IND is under way from there. -/
theorem no_orphaned_peripheral (addr : Side → BdAddr) (ms : List Move)
    (hreset : ∀ m ∈ ms, ¬ m.isReset) (hd : ((start addr).run ms).Distinct) (x : Side) (aa : UInt32)
    (hp : ((start addr).run ms).Active x 1 aa) :
    ((start addr).run ms).Active x.other 0 aa ∨ ((start addr).run ms).Terminating x aa := by
  have h := (regular_start True addr).run ms hd (along_safeReset hreset) (Or.inl trivial)
  generalize (start addr).run ms = c at *
  have hnamed := h.named_of_peripheral hp
  obtain ⟨b, p, hb, hper, hphase⟩ := h.phased x.other aa hnamed
  rw [Side.other_other] at hper hphase
  have htrue : p = true := by
    obtain ⟨k, e, he, -, haa⟩ := hp
    exact hper.2 ⟨k, e, he, haa⟩
  rw [htrue] at hphase
  rcases hphase.central_of_peripheral with hc | hterm
  · exact Or.inl ((h.central_iff hd hnamed).1 (hb.1 hc))
  · exact Or.inr (terminating_of_lives hterm)

/-! ### Quiescent agreement -/

/-- **When nothing is under way, the two ends agree**: what one core has as central the other has as
peripheral. This holds if every CONNECT_IND found its target advertising and with room, and no core
was reset while it had a connection. -/
theorem quiescent_agreement (addr : Side → BdAddr) (ms : List Move)
    (hd : ((start addr).run ms).Distinct) (hreset : Along SafeReset (start addr) ms)
    (hready : Along Ready (start addr) ms) (hquiet : ∀ x, ((start addr).run ms).queue x = [])
    (x : Side) (aa : UInt32) :
    ((start addr).run ms).Active x 0 aa ↔ ((start addr).run ms).Active x.other 1 aa := by
  have h := (regular_start False addr).run ms hd hreset (Or.inr hready)
  generalize (start addr).run ms = c at *
  have hair : ∀ y, c.dialog.air y = [] := fun y => by
    show notables (c.queue y) = []
    rw [hquiet y]
    rfl
  have key : aa ∈ connects (c.dialog.sent x) → (c.Active x 0 aa ↔ c.Active x.other 1 aa) := by
    intro haa
    obtain ⟨b, p, hb, hp, hphase⟩ := h.phased x aa haa
    rw [hair, hair] at hphase
    rw [← h.central_iff hd haa, ← h.peripheral_iff hd haa, ← hb, ← hp, hphase.agree]
  constructor
  · intro hc
    exact (key (h.named_of_central hc)).1 hc
  · intro hp
    have hnamed := h.named_of_peripheral hp
    rw [Side.other_other] at hnamed
    exact (key hnamed).2 hp

/-! ### Runs -/

instance (c : Cross) : Decidable c.Distinct := inferInstanceAs (Decidable (List.Nodup _))

instance (m : Move) : Decidable m.isReset :=
  match m with
  | .host _ pkt len => inferInstanceAs (Decidable (request pkt len = .reset))
  | .tick _ _ | .deliver _ _ => inferInstanceAs (Decidable False)

instance (c : Cross) (m : Move) : Decidable (c.SafeReset m) :=
  match m with
  | .host x pkt len => inferInstanceAs (Decidable (request pkt len = .reset →
      ∀ k < VBT_LL_MAX_CONN, (c.core x).ends k = none))
  | .tick _ _ | .deliver _ _ => inferInstanceAs (Decidable True)

instance (ll : VbtLl) (s : Option Signal) : Decidable (Welcomes ll s) :=
  match s with
  | some (.connect adva _) => inferInstanceAs (Decidable (ll.advEnabled = true ∧
      adva = ll.ownSourceAddr ll.advOwnAddrType ∧ ∃ k < VBT_LL_MAX_CONN, ll.ends k = none))
  | none | some (.adv _) | some (.terminate _) | some (.startEncReq _) | some (.startEncRsp _)
  | some .other => inferInstanceAs (Decidable True)

instance (c : Cross) (m : Move) : Decidable (c.Ready m) :=
  match m with
  | .deliver x _ =>
    inferInstanceAs (Decidable (Welcomes (c.core x) ((c.queue x).head?.map Frame.signal)))
  | .host _ _ _ | .tick _ _ => inferInstanceAs (Decidable True)

instance decidableAlong (P : Cross → Move → Prop) [∀ c m, Decidable (P c m)] (c : Cross) :
    (ms : List Move) → Decidable (Along P c ms)
  | [] => inferInstanceAs (Decidable True)
  | m :: ms =>
    have := decidableAlong P (c.step m) ms
    inferInstanceAs (Decidable (P c m ∧ Along P (c.step m) ms))

/-- The addresses of the two cores. -/
def addrOf : Side → BdAddr
  | .left => centralAddr
  | .right => peripheralAddr

/-- A packet from the host of core `x`. -/
def hostSends (x : Side) (pkt : List UInt8) : Move := .host x (Mem.ofList pkt blank) pkt.length

/-- The right core advertises, and the left one connects to it. -/
def calling : List Move :=
  [hostSends .right [HCI_CMD_PKT, 0x0A, 0x20, 1, 1], .tick .right 100,
    hostSends .left ([HCI_CMD_PKT, 0x0D, 0x20, 25, 0, 0, 0, 0, 0, 0] ++ peripheralAddr.bytes ++
      List.replicate 13 0),
    .deliver .left blank, .deliver .left blank, .deliver .left blank]

/-- The right core takes the CONNECT_IND. -/
def meeting : List Move := calling ++ [.deliver .right blank]

/-- The Access Address of the connection. -/
def meetingAA : UInt32 := 1658157293

/-- The host of the left core disconnects. -/
def parting : List Move := meeting ++ [hostSends .left [HCI_CMD_PKT, 0x06, 0x04, 3, 0x40, 0, 0x13]]

/-- The right core stops advertising before it takes the CONNECT_IND. -/
def missing : List Move :=
  calling ++ [hostSends .right [HCI_CMD_PKT, 0x0A, 0x20, 1, 0], .deliver .right blank]

theorem no_orphaned_peripheral_parting :
    ((start addrOf).run parting).Active .right 1 meetingAA ∧
      (((start addrOf).run parting).Active .left 0 meetingAA ∨
        ((start addrOf).run parting).Terminating .right meetingAA) := by
  have hp : ((start addrOf).run parting).Active .right 1 meetingAA :=
    ⟨0, ⟨0x40, meetingAA, 1, false⟩, by decide +kernel, rfl, rfl⟩
  exact ⟨hp, no_orphaned_peripheral addrOf parting (by decide +kernel) (by decide +kernel) .right
    meetingAA hp⟩

theorem quiescent_agreement_meeting :
    ((start addrOf).run meeting).Active .left 0 meetingAA ∧
      ((start addrOf).run meeting).Active .right 1 meetingAA := by
  have hc : ((start addrOf).run meeting).Active .left 0 meetingAA :=
    ⟨0, ⟨0x40, meetingAA, 0, false⟩, by decide +kernel, rfl, rfl⟩
  refine ⟨hc, (quiescent_agreement addrOf meeting (by decide +kernel) (by decide +kernel)
    (by decide +kernel) (fun x => ?_) .left meetingAA).1 hc⟩
  cases x <;> decide +kernel

/-- **A connection that stays half open.** The right core stopped advertising before it took the
CONNECT_IND, which it then ignored; nothing is under way any more, and the left core still has the
connection. -/
theorem half_open :
    ((start addrOf).run missing).Distinct ∧ (∀ x, ((start addrOf).run missing).queue x = []) ∧
      ((start addrOf).run missing).Active .left 0 meetingAA ∧
      ¬ ((start addrOf).run missing).Active .right 1 meetingAA := by
  have hnone : ∀ k < VBT_LL_MAX_CONN, (((start addrOf).run missing).core .right).ends k = none := by
    decide +kernel
  refine ⟨by decide +kernel, fun x => ?_, ?_, ?_⟩
  · cases x <;> decide +kernel
  · exact ⟨0, ⟨0x40, meetingAA, 0, false⟩, by decide +kernel, rfl, rfl⟩
  · rintro ⟨k, e, he, -⟩
    by_cases hk : k < VBT_LL_MAX_CONN
    · rw [hnone k hk] at he
      cases he
    · rw [show (((start addrOf).run missing).core .right).ends k = none from if_neg hk] at he
      cases he

end Cross
end Vbt
