import Vbt.Core.Calls

/-!
# The host and the controller agree on the connections

* `Synced`: active connections have the handles of their slots, every packet the host was sent made
  sense when it was sent, and the host's account is the set of active handles;
* `Synced.does`, `Synced.run`: one move and a whole run keep this;
* `hostView_run`: the account of the host after any run.
-/

namespace Vbt
namespace VbtLl

theorem slotHandle_inj {i j : ℕ} (hi : i < VBT_LL_MAX_CONN) (hj : j < VBT_LL_MAX_CONN)
    (h : slotHandle i = slotHandle j) : i = j := by
  have hi8 : i < 8 := hi
  have hj8 : j < 8 := hj
  have hn := congrArg UInt16.toNat h
  unfold slotHandle BASE_CONN_HANDLE at hn
  rw [UInt16.toNat_ofNat', UInt16.toNat_ofNat'] at hn
  omega

/-- The host's account of the connections is right. -/
structure Synced (ll : VbtLl) : Prop where
  numbered : ll.Numbered
  legal : hostView.Legal ll.hostEvents
  agrees : hostView.replay ll.hostEvents = ll.activeHandles

/-- The host is sent one packet, and its account follows the table. -/
theorem Synced.told {ll ll' : VbtLl} (h : Synced ll) {e : HostEvent}
    (hev : ll'.hostEvents = e :: ll.hostEvents) (hnum : ll'.Numbered)
    (hen : hostView.enabled ll.activeHandles e)
    (happ : hostView.apply ll.activeHandles e = ll'.activeHandles) : Synced ll' where
  numbered := hnum
  legal := by
    rw [hev]
    refine ⟨?_, h.legal⟩
    show hostView.enabled (hostView.replay ll.hostEvents) e
    rw [h.agrees]
    exact hen
  agrees := by
    rw [hev, Journal.replay_cons, h.agrees]
    exact happ

theorem Numbered.congr {ll ll' : VbtLl} (h : ll.Numbered) (hlink : ll'.link = ll.link) :
    ll'.Numbered := by
  unfold Numbered
  rw [hlink]
  exact h

/-! ### Opening and closing a slot -/

section Slot

variable {ll ll' : VbtLl} {i : ℕ}

theorem Numbered.opened (h : ll.Numbered) {aa : UInt32}
    (hlink : ll'.link = Function.update ll.link i (some (slotHandle i, aa))) : ll'.Numbered := by
  intro j hj x a hl
  rw [hlink, Function.update_apply] at hl
  split_ifs at hl with hji
  · cases hl
    rw [hji]
  · exact h j hj x a hl

theorem Numbered.closed (h : ll.Numbered) (hlink : ll'.link = Function.update ll.link i none) :
    ll'.Numbered := by
  intro j hj x a hl
  rw [hlink, Function.update_apply] at hl
  split_ifs at hl
  exact h j hj x a hl

/-- The handle of a free slot is not in use. -/
theorem Numbered.fresh (h : ll.Numbered) (hi : i < VBT_LL_MAX_CONN) (hfree : ll.link i = none) :
    slotHandle i ∉ ll.activeHandles := by
  intro hmem
  obtain ⟨j, hj, aa, hl⟩ := mem_activeHandles.1 hmem
  have hji : i = j := slotHandle_inj hi hj (h j hj _ _ hl)
  rw [← hji, hfree] at hl
  cases hl

theorem activeHandles_opened {aa : UInt32} (hi : i < VBT_LL_MAX_CONN) (hfree : ll.link i = none)
    (hlink : ll'.link = Function.update ll.link i (some (slotHandle i, aa))) :
    ll'.activeHandles = insert (slotHandle i) ll.activeHandles := by
  ext x
  rw [Finset.mem_insert, mem_activeHandles, mem_activeHandles, hlink]
  constructor
  · rintro ⟨j, hj, a, hl⟩
    rw [Function.update_apply] at hl
    split_ifs at hl
    · cases hl
      exact Or.inl rfl
    · exact Or.inr ⟨j, hj, a, hl⟩
  · rintro (rfl | ⟨j, hj, a, hl⟩)
    · exact ⟨i, hi, aa, Function.update_self _ _ _⟩
    · have hji : j ≠ i := by
        rintro rfl
        rw [hfree] at hl
        cases hl
      exact ⟨j, hj, a, by rw [Function.update_of_ne hji, hl]⟩

theorem activeHandles_closed (hn : ll.Numbered) {h : UInt16} {aa : UInt32}
    (hi : i < VBT_LL_MAX_CONN) (hl : ll.link i = some (h, aa))
    (hlink : ll'.link = Function.update ll.link i none) :
    ll'.activeHandles = ll.activeHandles.erase h := by
  ext x
  rw [Finset.mem_erase, mem_activeHandles, mem_activeHandles, hlink]
  constructor
  · rintro ⟨j, hj, a, hlj⟩
    rw [Function.update_apply] at hlj
    split_ifs at hlj with hji
    refine ⟨?_, j, hj, a, hlj⟩
    -- another slot has another handle
    rintro rfl
    exact hji (slotHandle_inj hj hi ((hn j hj _ _ hlj).symm.trans (hn i hi _ _ hl)))
  · rintro ⟨hne, j, hj, a, hlj⟩
    have hji : j ≠ i := by
      rintro rfl
      rw [hl] at hlj
      cases hlj
      exact hne rfl
    exact ⟨j, hj, a, by rw [Function.update_of_ne hji, hlj]⟩

theorem hostEvents_cons {size : ℕ} {pkt : List UInt8} {e : HostEvent} (he : hostEvent pkt = e)
    (hout : ll'.out = .hci size pkt :: ll.out) : ll'.hostEvents = e :: ll.hostEvents := by
  unfold hostEvents
  rw [hout, ← he]
  rfl

end Slot

/-! ### Moves and runs -/

theorem Synced.opened {ll ll' : VbtLl} (h : Synced ll) {i : ℕ} {aa : UInt32}
    (hi : i < VBT_LL_MAX_CONN) (hfree : ll.link i = none)
    (hlink : ll'.link = Function.update ll.link i (some (slotHandle i, aa)))
    (hev : ll'.hostEvents = .connComplete (slotHandle i) :: ll.hostEvents) : Synced ll' :=
  h.told hev (h.numbered.opened hlink) (h.numbered.fresh hi hfree)
    (activeHandles_opened hi hfree hlink).symm

/-- One move keeps the account right. -/
theorem Synced.does {m : Intake} {ll ll' : VbtLl} (h : Synced ll) (hd : Does m ll ll') :
    Synced ll' := by
  cases hd with
  | sets hlink hout =>
    have hev : ll'.hostEvents = ll.hostEvents := by
      unfold hostEvents
      rw [hout]
    exact ⟨h.numbered.congr hlink, hev ▸ h.legal, by rw [hev, h.agrees, activeHandles_congr hlink]⟩
  | tells size pkt quiet =>
    exact h.told (hostEvents_cons rfl rfl) h.numbered quiet.enabled quiet.apply
  | airs size f => exact ⟨h.numbered, h.legal, h.agrees⟩
  | calls i aa adva size size' f pkt lt free heard valid hlink sound invites event hout =>
    refine h.opened lt free hlink ?_
    unfold hostEvents
    rw [hout, ← event]
    rfl
  | answers i aa size pkt lt free heard hlink event hout =>
    exact h.opened lt free hlink (hostEvents_cons event hout)
  | closes i x aa size pkt lt was hlink event hout =>
    refine h.told (hostEvents_cons event hout) (h.numbered.closed hlink) ?_
      (activeHandles_closed h.numbered lt was hlink).symm
    exact mem_activeHandles.2 ⟨i, lt, aa, was⟩
  | resets size pkt hlink event hout =>
    refine h.told (hostEvents_cons event hout) ?_ trivial ?_
    · intro i _ x aa hl
      rw [hlink] at hl
      cases hl
    · show ∅ = ll'.activeHandles
      symm
      rw [Finset.eq_empty_iff_forall_notMem]
      intro x hx
      obtain ⟨i, -, aa, hl⟩ := mem_activeHandles.1 hx
      rw [hlink] at hl
      cases hl

theorem Synced.doing {m : Intake} {ll ll' : VbtLl} (h : Synced ll) (hd : Doing m ll ll') :
    Synced ll' := by
  induction hd with
  | refl => exact h
  | tail _ hd ih => exact ih.does hd

theorem synced_vbtLlNew (bdaddr : BdAddr) : Synced (vbtLlNew bdaddr) where
  numbered i _ h aa hl := by cases hl
  legal := trivial
  agrees := rfl

theorem Synced.run {ll : VbtLl} (h : Synced ll) (is : List Input) : Synced (ll.run is) := by
  induction is generalizing ll with
  | nil => exact h
  | cons i is ih => exact ih (h.doing (step_doing h.numbered i))

/-- **The host's view of the connections is the controller's.** After any sequence of calls, every
packet the host was sent made sense when it was sent, and the host's account is the set of the
handles of the active connections. -/
theorem hostView_run (bdaddr : BdAddr) (is : List Input) :
    hostView.Legal ((vbtLlNew bdaddr).run is).hostEvents ∧
      hostView.replay ((vbtLlNew bdaddr).run is).hostEvents =
        ((vbtLlNew bdaddr).run is).activeHandles := by
  have h := (synced_vbtLlNew bdaddr).run is
  exact ⟨h.legal, h.agrees⟩

end VbtLl
end Vbt
