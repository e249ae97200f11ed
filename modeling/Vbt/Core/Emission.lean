import Vbt.Core.Acl

/-!
# What a core puts on the air

A core sends advertising PDUs, CONNECT_INDs and data PDUs. It sends a CONNECT_IND only to an
advertiser it heard, and a data PDU only with an Access Address that a CONNECT_IND named: one it
sent before, or one it was given.

* `Named`, `Follows`: which frames may follow those sent so far;
* `Disciplined`: a core whose frames have all followed this rule;
* `Disciplined.does`, `Disciplined.step`: one move and one call keep it.
-/

namespace Vbt

/-- A CONNECT_IND with this Access Address was given, or is among the frames. -/
def Named (given : UInt32 → Prop) (sent : List Frame) (aa : UInt32) : Prop :=
  given aa ∨ ∃ f ∈ sent, ∃ adva, Invites adva aa f

theorem Named.mono {given given' : UInt32 → Prop} {sent sent' : List Frame} {aa : UInt32}
    (h : Named given sent aa) (hg : ∀ aa, given aa → given' aa) (hs : ∀ f ∈ sent, f ∈ sent') :
    Named given' sent' aa := by
  rcases h with h | ⟨f, hf, hi⟩
  · exact Or.inl (hg aa h)
  · exact Or.inr ⟨f, hs f hf, hi⟩

/-- The frame may be sent after the frames `sent` by a core that has heard the advertisers `heard`
and was given CONNECT_INDs with the Access Addresses `given`. -/
inductive Follows (heard : BdAddr → Prop) (given : UInt32 → Prop) (sent : List Frame) (f : Frame) :
    Prop
  | beacon (h : Beacon f)
  | ind (adva : BdAddr) (aa : UInt32) (h : Invites adva aa f)
      (valid : aa ≠ 0 ∧ aa ≠ VBT_ADV_ACCESS_ADDR) (known : heard adva)
  | data (x : UInt16) (aa : UInt32) (h : Carries x aa f) (named : Named given sent aa)

namespace VbtLl

/-! ### The frames of a move -/

section Frames

variable {ll ll' : VbtLl}

theorem frames_same (h : ll'.out = ll.out) : ll'.frames = ll.frames := by
  rw [frames, h, frames]

theorem frames_told {size : ℕ} {pkt : List UInt8} (h : ll'.out = .hci size pkt :: ll.out) :
    ll'.frames = ll.frames := by
  rw [frames, h, frames]
  simp

theorem frames_called {size size' : ℕ} {pkt : List UInt8} {f : Frame}
    (h : ll'.out = .hci size pkt :: .pdu size' f :: ll.out) : ll'.frames = ll.frames ++ [f] := by
  rw [frames, h, frames]
  simp

/-- A call only adds frames. -/
theorem Does.frames {m : Intake} (h : Does m ll ll') : ll.frames <+: ll'.frames := by
  cases h with
  | sets hlink hout => rw [frames_same hout]
  | tells size pkt => rw [frames_sendHci]
  | airs size f =>
    rw [frames_pduToMedium]
    exact List.prefix_append _ _
  | calls i aa adva size size' f pkt lt free heard valid hlink sound invites event hout =>
    rw [frames_called hout]
    exact List.prefix_append _ _
  | answers i aa size pkt lt free heard hlink event hout => rw [frames_told hout]
  | closes i x aa size pkt lt was hlink event hout => rw [frames_told hout]
  | resets size pkt hlink event hout => rw [frames_told hout]

theorem Doing.frames {m : Intake} (h : Doing m ll ll') : ll.frames <+: ll'.frames := by
  induction h with
  | refl => exact List.prefix_rfl
  | tail _ hd ih => exact ih.trans hd.frames

end Frames

/-! ### Discipline -/

/-- The frames of the core followed the rule, and its connections have Access Addresses that a
CONNECT_IND named. -/
structure Disciplined (heard : BdAddr → Prop) (given : UInt32 → Prop) (ll : VbtLl) : Prop where
  sound : ∀ f ∈ ll.frames, ∃ size, Sound size f
  follows : Throughout (Follows heard given) ll.frames.reverse
  named : ∀ i x aa, ll.link i = some (x, aa) → Named given ll.frames.reverse aa

section Disciplined

variable {heard heard' : BdAddr → Prop} {given given' : UInt32 → Prop} {ll ll' : VbtLl}

theorem Disciplined.mono (h : Disciplined heard given ll) (hh : ∀ a, heard a → heard' a)
    (hg : ∀ aa, given aa → given' aa) : Disciplined heard' given' ll where
  sound := h.sound
  follows := h.follows.mono fun t f hf => by
    cases hf with
    | beacon hb => exact .beacon hb
    | ind adva aa hi valid known => exact .ind adva aa hi valid (hh adva known)
    | data x aa hc named => exact .data x aa hc (named.mono hg fun _ hf => hf)
  named i x aa hl := (h.named i x aa hl).mono hg fun _ hf => hf

/-- The core sends nothing and opens no connection. -/
theorem Disciplined.keep (h : Disciplined heard given ll) (hf : ll'.frames = ll.frames)
    (hl : ∀ i x aa, ll'.link i = some (x, aa) → ll.link i = some (x, aa)) :
    Disciplined heard given ll' where
  sound := hf ▸ h.sound
  follows := hf ▸ h.follows
  named i x aa hi := hf ▸ h.named i x aa (hl i x aa hi)

/-- The core sends one frame. -/
theorem Disciplined.send (h : Disciplined heard given ll) {size : ℕ} {f : Frame}
    (hs : Sound size f) (hfol : Follows heard given ll.frames.reverse f)
    (hf : ll'.frames = ll.frames ++ [f])
    (hl : ∀ i x aa, ll'.link i = some (x, aa) →
      ll.link i = some (x, aa) ∨ ∃ adva, Invites adva aa f) : Disciplined heard given ll' where
  sound g hg := by
    rw [hf, List.mem_append, List.mem_singleton] at hg
    rcases hg with hg | rfl
    · exact h.sound g hg
    · exact ⟨size, hs⟩
  follows := by
    rw [hf, List.reverse_append]
    exact ⟨hfol, h.follows⟩
  named i x aa hi := by
    rw [hf, List.reverse_append]
    rcases hl i x aa hi with hi | hinv
    · exact (h.named i x aa hi).mono (fun _ hg => hg) fun _ hm => List.mem_append_right _ hm
    · exact Or.inr ⟨f, List.mem_append_left _ (List.mem_singleton_self f), hinv⟩

/-- One move keeps the rule. -/
theorem Disciplined.does {m : Intake} (h : Disciplined heard given ll) (hd : Does m ll ll')
    (hheard : ∀ a, m.adv a → heard a) (hgiven : ∀ aa, m.ind aa → given aa) :
    Disciplined heard given ll' := by
  cases hd with
  | sets hlink hout => exact h.keep (frames_same hout) fun i x aa hi => hlink ▸ hi
  | tells size pkt => exact h.keep (frames_sendHci ll size pkt) fun _ _ _ hi => hi
  | airs size f sound airs =>
    refine h.send sound ?_ (frames_pduToMedium ll size f.hdr f.pdu) fun _ _ _ hi => Or.inl hi
    rcases airs with hb | ⟨i, -, x, aa, hi, hc⟩
    · exact .beacon hb
    · exact .data x aa hc (h.named i x aa hi)
  | calls i aa adva size size' f pkt lt free heard valid hlink sound invites event hout =>
    refine h.send sound (.ind adva aa invites valid (hheard adva heard)) (frames_called hout) ?_
    intro j x a hj
    rw [hlink, Function.update_apply] at hj
    split_ifs at hj
    · cases hj
      exact Or.inr ⟨adva, invites⟩
    · exact Or.inl hj
  | answers i aa size pkt lt free heard hlink event hout =>
    refine ⟨frames_told hout ▸ h.sound, frames_told hout ▸ h.follows, fun j x a hj => ?_⟩
    rw [frames_told hout]
    rw [hlink, Function.update_apply] at hj
    split_ifs at hj
    · cases hj
      exact Or.inl (hgiven aa heard)
    · exact h.named j x a hj
  | closes i x aa size pkt lt was hlink event hout =>
    refine h.keep (frames_told hout) fun j y a hj => ?_
    rw [hlink, Function.update_apply] at hj
    split_ifs at hj
    exact hj
  | resets size pkt hlink event hout =>
    refine h.keep (frames_told hout) fun j y a hj => ?_
    rw [hlink] at hj
    cases hj

theorem Disciplined.doing {m : Intake} (h : Disciplined heard given ll) (hd : Doing m ll ll')
    (hheard : ∀ a, m.adv a → heard a) (hgiven : ∀ aa, m.ind aa → given aa) :
    Disciplined heard given ll' := by
  induction hd with
  | refl => exact h
  | tail _ hd ih => exact ih.does hd hheard hgiven

end Disciplined

theorem disciplined_vbtLlNew (heard : BdAddr → Prop) (given : UInt32 → Prop) (bdaddr : BdAddr) :
    Disciplined heard given (vbtLlNew bdaddr) where
  sound f hf := by cases hf
  follows := trivial
  named i x aa hi := by cases hi

/-! ### Calls -/

theorem Reached.step {ll : VbtLl} (h : Reached ll) (i : Input) : Reached (ll.step i) := by
  obtain ⟨bdaddr, is, rfl⟩ := h
  exact ⟨bdaddr, is ++ [i], by simp [run, List.foldl_append]⟩

theorem Reached.frames_step {ll : VbtLl} (h : Reached ll) (i : Input) :
    ll.frames <+: (ll.step i).frames :=
  (step_doing h.numbered i).frames

/-- **A core sends what it may.** One call keeps the rule, if what the call learns from the medium
is among what the core has heard and was given. -/
theorem Disciplined.step {heard : BdAddr → Prop} {given : UInt32 → Prop} {ll : VbtLl}
    (h : Disciplined heard given ll) (hr : Reached ll) (i : Input)
    (hheard : ∀ a, i.intake.adv a → heard a) (hgiven : ∀ aa, i.intake.ind aa → given aa) :
    Disciplined heard given (ll.step i) :=
  h.doing (step_doing hr.numbered i) hheard hgiven

end VbtLl
end Vbt
