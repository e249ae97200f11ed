import Vbt.Core.Encryption
import Vbt.System.Agreement

/-!
# Encryption between two honest cores

Two cores exchange what they send, in any order and with losses, but nothing else. Encryption is
then reported only after a host has replied with a key, and at most once for each connection and
side.

* `Cross.Stray`, `Cross.strayStep`, `Cross.wander`: delivery in any order, with losses;
* `encrypts`, `Cross.encrypts`, `Cross.reported`: the connections for which encryption is reported;
* `Replied`: a host has replied with a key for the connection;
* `Honest`, `Honest.step`: what is under way of the handshake was caused by such a reply;
* `encryption_needs_key`.
-/

namespace Vbt

open VbtLl

namespace VbtLl

/-- The Access Addresses of the connections for which a call tells the host that encryption is
on. -/
def encrypts (ll : VbtLl) (i : Input) : List UInt32 :=
  (ll.told i).filterMap fun h => (ll.connByHandle h).map fun k => (ll.conns k).accessAddr

theorem connByHandle_of_ends {ll : VbtLl} (hn : ll.Numbered) {k : ℕ} {e : LinkEnd}
    (he : ll.ends k = some e) : ll.connByHandle e.handle = some k := by
  obtain ⟨hk, hact, rfl⟩ := ends_eq_some_iff.1 he
  have hlink : ∀ j < VBT_LL_MAX_CONN, (ll.conns j).active = true →
      (ll.conns j).handle = slotHandle j := fun j hj ha =>
    hn j hj _ _ (LlConn.link_eq_some.2 ⟨ha, rfl, rfl⟩)
  refine Slots.find?_eq_some_of_unique (ll.connsSize.symm ▸ hk) ?_ fun j hj hp => ?_
  · rw [hact, Bool.true_and, beq_self_eq_true]
  · rw [ll.connsSize] at hj
    rw [Bool.and_eq_true, beq_iff_eq] at hp
    refine slotHandle_inj hj hk ?_
    rw [← hlink j hj hp.1, ← hlink k hk hact]
    exact hp.2

/-- Encryption is reported for the connection of the last two PDUs of the handshake. -/
theorem encrypts_of_cause {ll : VbtLl} (hn : ll.Numbered) {i : Input} {k : ℕ} {aa : UInt32}
    {e : LinkEnd} (hc : ll.cause i = .startReq k aa ∨ ll.cause i = .startRsp k aa)
    (he : ll.ends k = some e) : ll.encrypts i = if e.encrypted then [] else [e.accessAddr] := by
  have hrep : ll.told i = if e.encrypted then [] else [e.handle] := by
    rw [told_eq]
    rcases hc with hc | hc <;> rw [hc]
    · exact Cause.reports_startReq he aa
    · exact Cause.reports_startRsp he aa
  have haa : (ll.conns k).accessAddr = e.accessAddr := by
    obtain ⟨-, -, rfl⟩ := ends_eq_some_iff.1 he
    rfl
  unfold encrypts
  rw [hrep]
  split_ifs
  · rfl
  · refine List.filterMap_cons_some ?_
    rw [connByHandle_of_ends hn he, ← haa]
    rfl

theorem encrypts_of_other {ll : VbtLl} {i : Input}
    (hc : ∀ k aa, ll.cause i ≠ .startReq k aa ∧ ll.cause i ≠ .startRsp k aa) :
    ll.encrypts i = [] := by
  have htold : ll.told i = [] := by
    rw [told_eq]
    cases h : ll.cause i with
    | startReq k aa => exact absurd h (hc k aa).1
    | startRsp k aa => exact absurd h (hc k aa).2
    | _ => rfl
  unfold encrypts
  rw [htold]
  rfl

end VbtLl

/-! ### Encryption in a dialog -/

/-- The connections for which encryption is reported. -/
def Cause.encrypts (t : ℕ → Option LinkEnd) : Cause → List UInt32
  | .startReq k _ | .startRsp k _ =>
    match t k with
    | some e => if e.encrypted then [] else [e.accessAddr]
    | none => []
  | _ => []

theorem Cause.encrypts_eq {t : ℕ → Option LinkEnd} {c : Cause} {k : ℕ} {aa : UInt32} {e : LinkEnd}
    (hc : c = .startReq k aa ∨ c = .startRsp k aa) (he : t k = some e) :
    c.encrypts t = if e.encrypted then [] else [e.accessAddr] := by
  have hmatch : c.encrypts t = match t k with
    | some e => if e.encrypted then [] else [e.accessAddr]
    | none => [] := by
    rcases hc with rfl | rfl <;> rfl
  rw [hmatch, he]

/-- Encryption is reported for one connection, which was not encrypted and is now. -/
theorem Cause.mem_encrypts {t : ℕ → Option LinkEnd} {c : Cause} {a : UInt32}
    (h : a ∈ c.encrypts t) : ∃ k aa e, (c = .startReq k aa ∨ c = .startRsp k aa) ∧ t k = some e ∧
      e.encrypted = false ∧ e.accessAddr = a := by
  have key : ∀ k aa, (c = .startReq k aa ∨ c = .startRsp k aa) → ∃ k aa e,
      (c = .startReq k aa ∨ c = .startRsp k aa) ∧ t k = some e ∧ e.encrypted = false ∧
        e.accessAddr = a := by
    intro k aa hc
    cases he : t k with
    | none =>
      have hnil : c.encrypts t = [] := by
        rcases hc with rfl | rfl <;> simp only [Cause.encrypts, he]
      rw [hnil] at h
      cases h
    | some e =>
      rw [Cause.encrypts_eq hc he] at h
      split_ifs at h with henc
      · cases h
      · exact ⟨k, aa, e, hc, he, Bool.eq_false_of_not_eq_true henc, (List.mem_singleton.1 h).symm⟩
  cases c with
  | startReq k aa => exact key k aa (Or.inl rfl)
  | startRsp k aa => exact key k aa (Or.inr rfl)
  | _ => cases h

/-- What a core reports is what its table and the cause say. -/
theorem VbtLl.encrypts_eq {ll : VbtLl} (hn : ll.Numbered) (i : Input) :
    ll.encrypts i = (ll.cause i).encrypts ll.ends := by
  have hdue := cause_due ll i
  cases hc : ll.cause i with
  | startReq k aa =>
    rw [hc] at hdue
    obtain ⟨e, he, -⟩ := ends_of_connByAA hdue.1
    rw [encrypts_of_cause hn (Or.inl hc) he, Cause.encrypts_eq (Or.inl rfl) he]
  | startRsp k aa =>
    rw [hc] at hdue
    obtain ⟨e, he, -⟩ := ends_of_connByAA hdue.1
    rw [encrypts_of_cause hn (Or.inr hc) he, Cause.encrypts_eq (Or.inr rfl) he]
  | _ =>
    refine encrypts_of_other fun k aa => ?_
    rw [hc]
    exact ⟨Cause.noConfusion, Cause.noConfusion⟩

namespace Dialog

/-- The connections in `R` are those for which encryption has been reported, on each side. Each was
reported once; its end, if it is still there, is encrypted, and the CONNECT_IND that could open it
again is not under way. -/
structure Spent (d : Dialog) (R : Side → List UInt32) : Prop where
  named : ∀ x, ∀ a ∈ R x, ∃ y, a ∈ connects (d.sent y)
  gone : ∀ x, ∀ a ∈ R x, a ∉ connects (d.air x)
  encrypted : ∀ x, ∀ a ∈ R x, ∀ k e, d.table x k = some e → e.accessAddr = a → e.encrypted = true
  nodup : ∀ x, (R x).Nodup

/-- What has been reported after a step of party `x`. -/
def reportedAfter (d : Dialog) (R : Side → List UInt32) (x : Side) (c : Cause) (y : Side) :
    List UInt32 :=
  R y ++ if x = y then c.encrypts (d.table x) else []

section Spent

variable {d : Dialog} {R : Side → List UInt32} {x : Side} {s : Signal} {rest : List Signal}
  {c : Cause}

theorem mem_reportedAfter {y : Side} {a : UInt32} (h : a ∈ d.reportedAfter R x c y) :
    a ∈ R y ∨ x = y ∧ a ∈ c.encrypts (d.table x) := by
  rcases List.mem_append.1 h with h | h
  · exact Or.inl h
  · split_ifs at h with hxy
    · exact Or.inr ⟨hxy, h⟩
    · cases h

theorem Spent.gone_act (h : Spent d R) (ho : Orderly d) (ht : Takes s (d.air x) rest)
    (hd : Distinct (d.act x rest c)) (y : Side) (a : UInt32) (ha : a ∈ d.reportedAfter R x c y) :
    a ∉ connects ((d.act x rest c).air y) := by
  rcases x.eq_or y with rfl | rfl
  · rw [act_air_self]
    intro hm
    have hm' : a ∈ connects (d.air y) := (ht.sublist.filterMap _).subset hm
    rcases mem_reportedAfter ha with ha | ⟨-, ha⟩
    · exact h.gone y a ha hm'
    · obtain ⟨k, aa, e, -, he, -, rfl⟩ := Cause.mem_encrypts ha
      exact ho.fresh y k e he hm'
  · have ha' : a ∈ R x.other :=
      (mem_reportedAfter ha).resolve_right fun hx => x.other_ne hx.1.symm
    rw [act_air_other, connects_append, List.mem_append]
    rintro (hm | hm)
    · exact h.gone _ a ha' hm
    · -- a CONNECT_IND that is sent now names a new connection
      obtain ⟨z, hz⟩ := h.named _ a ha'
      cases c with
      | call j adva b =>
        cases List.mem_singleton.1 hm
        exact hd.fresh z hz
      | _ => cases hm

theorem Spent.encrypted_act (h : Spent d R) (ho : Orderly d) (ht : Takes s (d.air x) rest)
    (hapt : c.Apt (d.table x) s) (hd : Distinct (d.act x rest c)) (y : Side) (a : UInt32)
    (ha : a ∈ d.reportedAfter R x c y) (k : ℕ) (e : LinkEnd)
    (he : (d.act x rest c).table y k = some e) (hea : e.accessAddr = a) : e.encrypted = true := by
  rcases x.eq_or y with rfl | rfl
  · rw [act_table_self] at he
    have hnamed : ∃ z, a ∈ connects (d.sent z) := by
      rcases mem_reportedAfter ha with ha | ⟨-, ha⟩
      · exact h.named y a ha
      · obtain ⟨j, aa, f, -, hf, -, rfl⟩ := Cause.mem_encrypts ha
        exact ho.named hf
    rcases Cause.apply_eq_some he with h₀ | ⟨adva, aa, rfl, rfl⟩ | ⟨aa, rfl, rfl⟩ | ⟨e₀, aa, -, -,
      rfl⟩
    · rcases mem_reportedAfter ha with ha | ⟨-, ha⟩
      · exact h.encrypted y a ha k e h₀ hea
      · -- the entry is the one that has just been encrypted
        obtain ⟨j, aa, f, hc, hf, -, hfa⟩ := Cause.mem_encrypts ha
        have hkj := ho.unique y k j e f h₀ hf (hea.trans hfa.symm)
        subst hkj
        have happ : c.apply (d.table y) k = some { f with encrypted := true } := by
          rcases hc with rfl | rfl <;>
            exact (Function.update_self ..).trans (by rw [hf]; rfl)
        rw [happ] at he
        cases he
        rfl
    · obtain ⟨z, hz⟩ := hnamed
      cases hea
      exact absurd hz (hd.fresh z)
    · have hm := Orderly.mem_of_answer ht hapt
      cases hea
      rcases mem_reportedAfter ha with ha | ⟨-, ha⟩
      · exact absurd hm (h.gone y _ ha)
      · cases ha
    · rfl
  · rw [act_table_other] at he
    have ha' : a ∈ R x.other :=
      (mem_reportedAfter ha).resolve_right fun hx => x.other_ne hx.1.symm
    exact h.encrypted _ a ha' k e he hea

theorem Spent.nodup_act (h : Spent d R) (y : Side) : (d.reportedAfter R x c y).Nodup := by
  unfold reportedAfter
  split_ifs with hxy
  · subst hxy
    refine List.nodup_append.2 ⟨h.nodup x, ?_, ?_⟩
    · cases hl : c.encrypts (d.table x) with
      | nil => exact List.nodup_nil
      | cons a l =>
        obtain ⟨k, aa, e, hc, he, henc, -⟩ :=
          Cause.mem_encrypts (show a ∈ c.encrypts (d.table x) by rw [hl]; exact List.mem_cons_self)
        rw [Cause.encrypts_eq hc he, henc] at hl
        rw [← hl]
        exact List.nodup_singleton _
    · rintro a ha b hb rfl
      obtain ⟨k, aa, e, -, he, henc, hea⟩ := Cause.mem_encrypts hb
      rw [h.encrypted x a ha k e he hea] at henc
      cases henc
  · rw [List.append_nil]
    exact h.nodup y

/-- A step reports encryption only for a connection for which it has not been reported. -/
theorem Spent.act (h : Spent d R) (ho : Orderly d) (ht : Takes s (d.air x) rest)
    (hapt : c.Apt (d.table x) s) (hd : Distinct (d.act x rest c)) :
    Spent (d.act x rest c) (d.reportedAfter R x c) where
  named y a ha := by
    rcases mem_reportedAfter ha with ha | ⟨-, ha⟩
    · obtain ⟨z, hz⟩ := h.named y a ha
      exact ⟨z, connects_act_subset z hz⟩
    · obtain ⟨k, aa, e, -, he, -, rfl⟩ := Cause.mem_encrypts ha
      obtain ⟨z, hz⟩ := ho.named he
      exact ⟨z, connects_act_subset z hz⟩
  gone := h.gone_act ho ht hd
  encrypted := h.encrypted_act ho ht hapt hd
  nodup := h.nodup_act

theorem Spent.lose (h : Spent d R) {d' : Dialog} (htable : d'.table = d.table)
    (hsent : d'.sent = d.sent) (hair : ∀ y, (d'.air y).Sublist (d.air y)) : Spent d' R where
  named := by rw [hsent]; exact h.named
  gone y a ha hm := h.gone y a ha (((hair y).filterMap _).subset hm)
  encrypted := by rw [htable]; exact h.encrypted
  nodup := h.nodup

end Spent

/-- Every PDU of the handshake that is under way is for a connection in `K`. -/
def Keyed (d : Dialog) (K : UInt32 → Prop) : Prop :=
  ∀ x, ∀ a, .startEncReq a ∈ d.air x ∨ .startEncRsp a ∈ d.air x → K a

/-- A step sends PDUs of the handshake for a connection in `K` if the key reply is for one. -/
theorem Keyed.act {d : Dialog} {K K' : UInt32 → Prop} (h : Keyed d K) (hK : ∀ a, K a → K' a)
    {x : Side} {s : Signal} {rest : List Signal} {c : Cause} (ht : Takes s (d.air x) rest)
    (hapt : c.Apt (d.table x) s) (hreply : ∀ k a, c = .reply k a → K' a) :
    Keyed (d.act x rest c) K' := by
  intro y a hy
  rcases x.eq_or y with rfl | rfl
  · rw [act_air_self] at hy
    exact hK a (h y a (hy.imp (fun hm => ht.sublist.subset hm) fun hm => ht.sublist.subset hm))
  · rw [act_air_other, List.mem_append, List.mem_append] at hy
    have hsends : .startEncReq a ∈ c.sends ∨ .startEncRsp a ∈ c.sends → K' a := by
      intro hm
      cases c with
      | reply k b =>
        rcases hm with hm | hm <;> cases List.mem_singleton.1 hm
        exact hreply k a rfl
      | startReq k b =>
        rcases hm with hm | hm <;> cases List.mem_singleton.1 hm
        -- the START_ENC_REQ that is answered was under way
        have hs : s = .startEncReq a := hapt.1
        refine hK a (h x a (Or.inl (hs ▸ ht.mem ?_)))
        rw [hs]
        rfl
      | disconnect k b => rcases hm with hm | hm <;> cases List.mem_singleton.1 hm
      | call k adva b => rcases hm with hm | hm <;> cases List.mem_singleton.1 hm
      | nothing | reset | answer k b | terminate k b | startRsp k b => rcases hm with hm | hm <;> cases hm
    rcases hy with (hm | hm) | (hm | hm)
    · exact hK a (h _ a (Or.inl hm))
    · exact hsends (Or.inl hm)
    · exact hK a (h _ a (Or.inr hm))
    · exact hsends (Or.inr hm)

end Dialog

namespace Cross

/-! ### Delivery in any order -/

/-- What can happen when PDUs overtake each other and get lost. -/
inductive Stray
  | host (x : Side) (pkt : Mem) (len : ℕ)
  | tick (x : Side) (nowMs : UInt64)
  /-- Core `x` is given frame number `n` of those under way to it. -/
  | take (x : Side) (n : ℕ) (junk : Mem)
  /-- Frame number `n` of those under way to core `x` is lost. -/
  | lose (x : Side) (n : ℕ)

/-- The call that a move makes: the core, what is then under way to it, and the input. -/
def strayCall (c : Cross) : Stray → Option (Side × List Frame × Input)
  | .host x pkt len => some (x, c.queue x, .hci pkt len)
  | .tick x nowMs => some (x, c.queue x, .tick nowMs)
  | .take x n junk => (c.queue x)[n]?.map fun f => (x, (c.queue x).eraseIdx n, fromMedium junk f)
  | .lose _ _ => none

/-- The effect of a move. -/
def strayStep (c : Cross) (m : Stray) : Cross :=
  match c.strayCall m with
  | some (x, rest, i) => (c.leaving x rest).call x i
  | none =>
    match m with
    | .lose x n => c.leaving x ((c.queue x).eraseIdx n)
    | _ => c

/-- The state after a list of moves. -/
def wander (c : Cross) (ms : List Stray) : Cross := ms.foldl strayStep c

/-- The connections for which core `x` reports encryption in a move. -/
def encrypts (c : Cross) (x : Side) (m : Stray) : List UInt32 :=
  match c.strayCall m with
  | some (y, _, i) => if y = x then (c.core y).encrypts i else []
  | none => []

/-- The connections for which core `x` reports encryption in a run. -/
def reported (c : Cross) (x : Side) : List Stray → List UInt32
  | [] => []
  | m :: ms => c.encrypts x m ++ (c.strayStep m).reported x ms

/-- The move is an LE Long Term Key Request Reply for the connection `aa`, which is active. -/
def Replies (c : Cross) (aa : UInt32) : Stray → Prop
  | .host x pkt len => ∃ k e, (c.core x).ends k = some e ∧ e.accessAddr = aa ∧
      request pkt len = .ltkReply e.handle
  | _ => False

/-- In the run with the given moves, a host has replied with a key for the connection `aa`. -/
def Replied (c : Cross) (ms : List Stray) (aa : UInt32) : Prop :=
  ∃ ms₁ m ms₂, ms = ms₁ ++ m :: ms₂ ∧ (c.wander ms₁).Replies aa m

/-! ### Moves as steps of the dialog -/

theorem takes_notables (f : Frame) (fs gs : List Frame) :
    Takes f.signal (notables (fs ++ f :: gs)) (notables (fs ++ gs)) := by
  rw [notables_append, notables_append]
  cases hn : f.signal.notable with
  | true =>
    have hq : notables (f :: gs) = f.signal :: notables gs := List.filter_cons_of_pos hn
    rw [hq]
    exact .out _ _ hn rfl
  | false =>
    have hq : notables (f :: gs) = notables gs :=
      List.filter_cons_of_neg (by rw [hn]; exact Bool.false_ne_true)
    rw [hq]
    exact .passing hn

section Step

variable {c : Cross} {m : Stray}

theorem strayStep_of_some {x : Side} {rest : List Frame} {i : Input}
    (h : c.strayCall m = some (x, rest, i)) : c.strayStep m = (c.leaving x rest).call x i := by
  unfold strayStep
  rw [h]

/-- A move that makes no call loses a frame or does nothing. -/
theorem strayStep_of_none (h : c.strayCall m = none) :
    (c.strayStep m).core = c.core ∧ ∀ y, ((c.strayStep m).queue y).Sublist (c.queue y) := by
  unfold strayStep
  rw [h]
  cases m with
  | lose x n =>
    refine ⟨rfl, fun y => ?_⟩
    show (Function.update c.queue x _ y).Sublist _
    rw [Function.update_apply]
    split_ifs with hy
    · rw [hy]
      exact List.eraseIdx_sublist _ _
    · exact List.Sublist.refl _
  | host x pkt len => exact ⟨rfl, fun y => List.Sublist.refl _⟩
  | tick x nowMs => exact ⟨rfl, fun y => List.Sublist.refl _⟩
  | take x n junk => exact ⟨rfl, fun y => List.Sublist.refl _⟩

/-- Taking a frame takes its signal. -/
theorem takes_strayCall {x : Side} {rest : List Frame} {i : Input}
    (h : c.strayCall m = some (x, rest, i)) :
    Takes i.signal (notables (c.queue x)) (notables rest) := by
  cases m with
  | host y pkt len =>
    cases h
    exact .passing rfl
  | tick y nowMs =>
    cases h
    exact .passing rfl
  | take y n junk =>
    obtain ⟨f, hf, heq⟩ := Option.map_eq_some_iff.1 h
    cases heq
    obtain ⟨hn, hfn⟩ := List.getElem?_eq_some_iff.1 hf
    have hsplit : c.queue x = (c.queue x).take n ++ f :: (c.queue x).drop (n + 1) := by
      rw [← hfn, List.getElem_cons_drop, List.take_append_drop]
    have ht := takes_notables f ((c.queue x).take n) ((c.queue x).drop (n + 1))
    rw [← hsplit, ← List.eraseIdx_eq_take_drop_succ] at ht
    rwa [show (fromMedium junk f).signal = f.signal from signal_fromMedium junk f]
  | lose y n => cases h

theorem signals_strayStep (c : Cross) (m : Stray) (y : Side) :
    (c.core y).signals <+: ((c.strayStep m).core y).signals := by
  cases hc : c.strayCall m with
  | none => rw [(strayStep_of_none hc).1]
  | some p =>
    obtain ⟨x, rest, i⟩ := p
    rw [strayStep_of_some hc]
    exact signals_leaving_call x rest i y

end Step

theorem wander_append (c : Cross) (ms ms' : List Stray) :
    c.wander (ms ++ ms') = (c.wander ms).wander ms' := by
  simp [wander, List.foldl_append]

theorem signals_wander (c : Cross) (ms : List Stray) (y : Side) :
    (c.core y).signals <+: ((c.wander ms).core y).signals := by
  induction ms generalizing c with
  | nil => exact List.prefix_rfl
  | cons m ms ih => exact (signals_strayStep c m y).trans (ih (c.strayStep m))

theorem reported_append (c : Cross) (x : Side) (ms ms' : List Stray) :
    c.reported x (ms ++ ms') = c.reported x ms ++ (c.wander ms).reported x ms' := by
  induction ms generalizing c with
  | nil => rfl
  | cons m ms ih =>
    show c.encrypts x m ++ (c.strayStep m).reported x (ms ++ ms') = _
    rw [ih, ← List.append_assoc]
    rfl

theorem Replied.snoc {c : Cross} {ms : List Stray} {aa : UInt32} (h : c.Replied ms aa) (m : Stray) :
    c.Replied (ms ++ [m]) aa := by
  obtain ⟨ms₁, m', ms₂, rfl, hr⟩ := h
  exact ⟨ms₁, m', ms₂ ++ [m], by simp, hr⟩

/-! ### Whole runs -/

/-- What holds after any run: encryption has been reported at most once for each connection, and
every PDU of the handshake that is under way is for a connection for which a host gave a key. -/
structure Honest (addr : Side → BdAddr) (ms : List Stray) : Prop where
  reached : ∀ x, Reached (((start addr).wander ms).core x)
  orderly : Dialog.Orderly ((start addr).wander ms).dialog
  keyed : Dialog.Keyed ((start addr).wander ms).dialog ((start addr).Replied ms)
  spent : Dialog.Spent ((start addr).wander ms).dialog fun x => (start addr).reported x ms

theorem honest_nil (addr : Side → BdAddr) : Honest addr [] where
  reached x := ⟨addr x, [], rfl⟩
  orderly := (dialog_start addr).symm ▸ Dialog.orderly_start
  keyed x a h := by
    rcases h with h | h
    · cases h
    · cases h
  spent := by
    constructor
    · intro x a h
      cases h
    · intro x a h
      cases h
    · intro x a h
      cases h
    · exact fun x => List.nodup_nil

/-- A move that makes no call. -/
theorem Honest.lose {addr : Side → BdAddr} {ms : List Stray} (h : Honest addr ms) {m : Stray}
    (hc : ((start addr).wander ms).strayCall m = none) : Honest addr (ms ++ [m]) := by
  obtain ⟨hcore, hqueue⟩ := strayStep_of_none hc
  have hrun : (start addr).wander (ms ++ [m]) = ((start addr).wander ms).strayStep m :=
    wander_append _ _ _
  have hrep : (fun x => (start addr).reported x (ms ++ [m])) =
      fun x => (start addr).reported x ms := by
    funext x
    rw [reported_append]
    show _ ++ (((start addr).wander ms).encrypts x m ++ []) = _
    unfold encrypts
    rw [hc]
    exact List.append_nil _
  have htable : (((start addr).wander ms).strayStep m).dialog.table =
      ((start addr).wander ms).dialog.table := by
    funext x
    show ((((start addr).wander ms).strayStep m).core x).ends = _
    rw [hcore]
    rfl
  have hsent : (((start addr).wander ms).strayStep m).dialog.sent =
      ((start addr).wander ms).dialog.sent := by
    funext x
    show ((((start addr).wander ms).strayStep m).core x).signals = _
    rw [hcore]
    rfl
  have hair : ∀ y, ((((start addr).wander ms).strayStep m).dialog.air y).Sublist
      (((start addr).wander ms).dialog.air y) := fun y =>
    ((hqueue y).map _).filter _
  constructor
  · rw [hrun, hcore]
    exact h.reached
  · rw [hrun]
    exact h.orderly.lose htable hsent hair
  · rw [hrun]
    intro y a hy
    refine (h.keyed y a ?_).snoc m
    exact hy.imp (fun hm => (hair y).subset hm) fun hm => (hair y).subset hm
  · rw [hrun, hrep]
    exact h.spent.lose htable hsent hair

/-- A move that calls a core. -/
theorem Honest.call {addr : Side → BdAddr} {ms : List Stray} (h : Honest addr ms) {m : Stray}
    (hd₀ : ((start addr).wander ms).Distinct) (hd : ((start addr).wander (ms ++ [m])).Distinct)
    {x : Side} {rest : List Frame} {i : Input}
    (hc : ((start addr).wander ms).strayCall m = some (x, rest, i)) : Honest addr (ms ++ [m]) := by
  have hrun : (start addr).wander (ms ++ [m]) = ((start addr).wander ms).strayStep m :=
    wander_append _ _ _
  have hreported : ∀ y, (start addr).reported y (ms ++ [m]) =
      (start addr).reported y ms ++ ((start addr).wander ms).encrypts y m := fun y => by
    rw [reported_append]
    exact congrArg _ (List.append_nil _)
  have hreplied : ∀ k a, (((start addr).wander ms).core x).cause i = .reply k a →
      (start addr).Replied (ms ++ [m]) a := by
    intro k a hcause
    have hdue := cause_due (((start addr).wander ms).core x) i
    rw [hcause] at hdue
    obtain ⟨e, he, hea, hreq⟩ := hdue
    refine ⟨ms, m, [], rfl, ?_⟩
    cases m with
    | host y pkt len =>
      cases hc
      exact ⟨k, e, he, hea, hreq⟩
    | tick y nowMs =>
      cases hc
      cases hreq
    | take y n junk =>
      obtain ⟨f, -, heq⟩ := Option.map_eq_some_iff.1 hc
      cases heq
      cases hreq
    | lose y n => cases hc
  have hold : ∀ a, (start addr).Replied ms a → (start addr).Replied (ms ++ [m]) a :=
    fun a ha => ha.snoc m
  rw [hrun] at hd
  have hstep := strayStep_of_some hc
  have htakes := takes_strayCall hc
  have hencrypts : ∀ y, ((start addr).wander ms).encrypts y m =
      if x = y then (((start addr).wander ms).core x).encrypts i else [] := fun y => by
    unfold encrypts
    rw [hc]
  obtain ⟨hreached, horderly, hkeyed, hspent⟩ := h
  -- from here on only the state before the move matters
  generalize (start addr).wander ms = c at *
  have hapt := cause_apt (c.core x) i
  have hdial := c.dialog_call (hreached x) rest i
  have hd' : Dialog.Distinct (c.dialog.act x (notables rest) ((c.core x).cause i)) := by
    rw [← hdial, ← hstep]
    exact hd
  constructor
  · rw [hrun, hstep]
    exact reached_call hreached x i
  · rw [hrun, hstep, hdial]
    exact horderly.act htakes hapt hd' hd₀
  · rw [hrun, hstep, hdial]
    exact hkeyed.act hold htakes hapt hreplied
  · rw [hrun, hstep, hdial]
    have hafter : (fun y => (start addr).reported y (ms ++ [m])) =
        c.dialog.reportedAfter (fun y => (start addr).reported y ms) x ((c.core x).cause i) := by
      funext y
      rw [hreported, hencrypts, encrypts_eq (hreached x).numbered]
      rfl
    rw [hafter]
    exact hspent.act horderly htakes hapt hd'

theorem honest_wander (addr : Side → BdAddr) (ms : List Stray)
    (hd : ((start addr).wander ms).Distinct) : Honest addr ms := by
  induction ms using List.reverseRecOn with
  | nil => exact honest_nil addr
  | append_singleton ms m ih =>
    have hd₀ : ((start addr).wander ms).Distinct := by
      refine hd.of_le fun y => ?_
      rw [wander_append]
      exact signals_wander _ _ y
    cases hc : ((start addr).wander ms).strayCall m with
    | none => exact (ih hd₀).lose hc
    | some p =>
      obtain ⟨x, rest, i⟩ := p
      exact (ih hd₀).call hd₀ hd hc

/-- **Between two honest cores encryption requires a key reply.** Whenever a core reports encryption
of a connection, a host has replied with a key for that connection before, and each core reports it
at most once for each connection. -/
theorem encryption_needs_key (addr : Side → BdAddr) (ms : List Stray)
    (hd : ((start addr).wander ms).Distinct) :
    (∀ ms₁ m ms₂, ms = ms₁ ++ m :: ms₂ → ∀ x, ∀ a ∈ ((start addr).wander ms₁).encrypts x m,
      (start addr).Replied ms₁ a) ∧
    ∀ x, ((start addr).reported x ms).Nodup := by
  refine ⟨?_, (honest_wander addr ms hd).spent.nodup⟩
  rintro ms₁ m ms₂ rfl x a ha
  have hd₁ : ((start addr).wander ms₁).Distinct := by
    refine hd.of_le fun y => ?_
    rw [wander_append]
    exact signals_wander _ _ y
  have h := honest_wander addr ms₁ hd₁
  unfold encrypts at ha
  cases hc : ((start addr).wander ms₁).strayCall m with
  | none =>
    rw [hc] at ha
    cases ha
  | some p =>
    obtain ⟨y, rest, i⟩ := p
    rw [hc] at ha
    dsimp only at ha
    split_ifs at ha with hyx
    · rw [encrypts_eq (h.reached y).numbered] at ha
      obtain ⟨k, aa, e, hcause, he, -, rfl⟩ := Cause.mem_encrypts ha
      have hapt := cause_apt (((start addr).wander ms₁).core y) i
      have htakes := takes_strayCall hc
      -- the PDU that was taken is for the connection of the entry
      have haa : aa = e.accessAddr := by
        rcases hcause with hcause | hcause <;> rw [hcause] at hapt <;>
          obtain ⟨-, e', he', rfl⟩ := hapt <;> rw [he] at he' <;> cases he' <;> rfl
      refine h.keyed y e.accessAddr ?_
      rcases hcause with hcause | hcause <;> rw [hcause] at hapt <;> rw [hapt.1] at htakes
      · exact Or.inl (haa ▸ htakes.mem rfl)
      · exact Or.inr (haa ▸ htakes.mem rfl)
    · cases ha

/-! ### A run -/

/-- A packet from the host of core `x`. -/
def strayHost (x : Side) (pkt : List UInt8) : Stray := .host x (Mem.ofList pkt blank) pkt.length

/-- The cores connect, the host of the left one starts encryption and that of the right one replies
with a key. The START_ENC_REQ overtakes the ENC_RSP, and the START_ENC_RSP is under way. -/
def securing : List Stray :=
  [strayHost .right [HCI_CMD_PKT, 0x0A, 0x20, 1, 1], .tick .right 100,
    strayHost .left ([HCI_CMD_PKT, 0x0D, 0x20, 25, 0, 0, 0, 0, 0, 0] ++ peripheralAddr.bytes ++
      List.replicate 13 0),
    .take .left 0 blank, .lose .left 0, .lose .left 0, .take .right 0 blank,
    strayHost .left ([HCI_CMD_PKT, 0x19, 0x20, 28, 0x40, 0] ++ List.replicate 26 0),
    .take .right 0 blank,
    strayHost .right ([HCI_CMD_PKT, 0x1A, 0x20, 18, 0x40, 0] ++ List.replicate 16 0),
    .take .left 1 blank]

/-- The right core takes the START_ENC_RSP. -/
def secured : List Stray := securing ++ [.take .right 0 blank]

theorem encryption_needs_key_secured :
    (start addrOf).reported .left secured = [meetingAA] ∧
      (start addrOf).reported .right secured = [meetingAA] ∧
      (start addrOf).Replied securing meetingAA := by
  have h := encryption_needs_key addrOf secured (by decide +kernel)
  refine ⟨by decide +kernel, by decide +kernel, h.1 securing (.take .right 0 blank) [] rfl .right
    meetingAA (by decide +kernel)⟩

end Cross
end Vbt
