import Vbt.Core.Requests

/-!
# The Access Addresses of a core

Data PDUs find their connection by its Access Address. The address is chosen by the core itself, as
central, or comes with the CONNECT_IND, as peripheral, and neither is compared with those in use.

* `Distinct`: no two active connections have the same Access Address. This is the same as every
  connection being found by its own (`distinct_iff_found`);
* `Reuses`: the calls that open a connection with an Access Address in use;
* `distinct_step_iff`, `distinct_run_iff`: these calls, and no others, make two connections alike.
-/

namespace Vbt
namespace Cause

/-- The slot and the Access Address of the connection that is opened. -/
def opened : Cause → Option (ℕ × UInt32)
  | call k _ aa | answer k aa => some (k, aa)
  | _ => none

/-- An opened connection is in its slot, and the others are as they were. -/
theorem apply_opened (t : ℕ → Option LinkEnd) {c : Cause} {k : ℕ} {aa : UInt32}
    (h : c.opened = some (k, aa)) :
    ∃ e, c.apply t k = some e ∧ e.accessAddr = aa ∧ ∀ j ≠ k, c.apply t j = t j := by
  cases c with
  | call k' adva aa' =>
    cases h
    exact ⟨_, Function.update_self _ _ _, rfl, fun j hj => Function.update_of_ne hj _ _⟩
  | answer k' aa' =>
    cases h
    exact ⟨_, Function.update_self _ _ _, rfl, fun j hj => Function.update_of_ne hj _ _⟩
  | _ => cases h

/-- An entry has the Access Address it had, or the one it was opened with. -/
theorem apply_origin {t : ℕ → Option LinkEnd} {c : Cause} {k : ℕ} {e : LinkEnd}
    (h : c.apply t k = some e) :
    (∃ e₀, t k = some e₀ ∧ e₀.accessAddr = e.accessAddr) ∨ c.opened = some (k, e.accessAddr) := by
  rcases apply_eq_some h with h | ⟨adva, aa, rfl, rfl⟩ | ⟨aa, rfl, rfl⟩ | ⟨e₀, aa, -, h₀, rfl⟩
  · exact Or.inl ⟨e, h, rfl⟩
  · exact Or.inr rfl
  · exact Or.inr rfl
  · exact Or.inl ⟨e₀, h₀, rfl⟩

end Cause

namespace VbtLl

/-- No two active connections have the same Access Address. -/
def Distinct (ll : VbtLl) : Prop :=
  ∀ j < VBT_LL_MAX_CONN, ∀ k < VBT_LL_MAX_CONN, (ll.conns j).active = true →
    (ll.conns k).active = true → (ll.conns j).accessAddr = (ll.conns k).accessAddr → j = k

/-- An active connection has this Access Address. -/
def InUse (ll : VbtLl) (aa : UInt32) : Prop :=
  ∃ k < VBT_LL_MAX_CONN, (ll.conns k).active = true ∧ (ll.conns k).accessAddr = aa

/-- The call opens a connection with an Access Address in use: a CONNECT_IND that is taken, or the
advertisement of the target when the next address the core chooses is in use. -/
def Reuses (ll : VbtLl) (i : Input) : Prop :=
  ll.freeSlot.isSome = true ∧
    ((∃ aa, i.signal = .connect (ll.ownSourceAddr ll.advOwnAddrType) aa ∧ ll.advEnabled = true ∧
        ll.InUse aa) ∨
      i.signal = .adv ll.initPeerAddr ∧ ll.state = .initiating ∧ ll.InUse ll.nextAddress)

/-- A data PDU reaches every connection exactly if no two are alike. -/
theorem distinct_iff_found {ll : VbtLl} : ll.Distinct ↔
    ∀ k < VBT_LL_MAX_CONN, (ll.conns k).active = true →
      ll.connByAA (ll.conns k).accessAddr = some k := by
  constructor
  · intro h k hk hact
    exact Holds.connByAA ⟨hk, hact, rfl, fun j hj hact' haa => h j hj k hk hact' hact haa⟩
  · intro h j hj k hk hactj hactk haa
    have hfound := h j hj hactj
    rw [haa, h k hk hactk] at hfound
    exact (Option.some.inj hfound).symm

section Ends

variable {ll : VbtLl}

theorem distinct_iff_ends : ll.Distinct ↔ ∀ j k e e', ll.ends j = some e → ll.ends k = some e' →
    e.accessAddr = e'.accessAddr → j = k := by
  constructor
  · intro h j k e e' he he' haa
    obtain ⟨hj, hactj, rfl⟩ := ends_eq_some_iff.1 he
    obtain ⟨hk, hactk, rfl⟩ := ends_eq_some_iff.1 he'
    exact h j hj k hk hactj hactk haa
  · intro h j hj k hk hactj hactk haa
    exact h j k _ _ (ends_of_active hj hactj) (ends_of_active hk hactk) haa

theorem inUse_iff_ends {aa : UInt32} :
    ll.InUse aa ↔ ∃ k e, ll.ends k = some e ∧ e.accessAddr = aa := by
  constructor
  · rintro ⟨k, hk, hact, rfl⟩
    exact ⟨k, _, ends_of_active hk hact, rfl⟩
  · rintro ⟨k, e, he, rfl⟩
    obtain ⟨hk, hact, rfl⟩ := ends_eq_some_iff.1 he
    exact ⟨k, hk, hact, rfl⟩

end Ends

/-! ### One call -/

section Step

variable {ll : VbtLl} {i : Input}

/-- Which calls open a connection, where and with which Access Address. -/
theorem cause_opened_iff {k : ℕ} {aa : UInt32} : (ll.cause i).opened = some (k, aa) ↔
    ll.freeSlot = some k ∧
      (i.signal = .connect (ll.ownSourceAddr ll.advOwnAddrType) aa ∧ ll.advEnabled = true ∨
        i.signal = .adv ll.initPeerAddr ∧ ll.state = .initiating ∧ ll.nextAddress = aa) := by
  constructor
  · intro h
    have hdue := cause_due ll i
    cases hc : ll.cause i with
    | call k' adva aa' =>
      rw [hc] at h hdue
      cases h
      have hs := hdue.2.2
      rw [cause_of_signal hs Signal.noConfusion, onSignal_adv] at hc
      split_ifs at hc with hinit
      cases hk : ll.freeSlot with
      | none =>
        rw [hk] at hc
        cases hc
      | some k' =>
        rw [hk] at hc
        cases hc
        exact ⟨rfl, Or.inr ⟨hinit.2 ▸ hs, hinit.1, rfl⟩⟩
    | answer k' aa' =>
      rw [hc] at h hdue
      cases h
      obtain ⟨adva, hs⟩ := hdue.2.2
      rw [cause_of_signal hs Signal.noConfusion, onSignal_connect] at hc
      split_ifs at hc with hadv
      cases hk : ll.freeSlot with
      | none =>
        rw [hk] at hc
        cases hc
      | some k' =>
        rw [hk] at hc
        cases hc
        exact ⟨rfl, Or.inl ⟨hadv.2 ▸ hs, hadv.1⟩⟩
    | _ =>
      rw [hc] at h
      cases h
  · rintro ⟨hk, ⟨hs, hadv⟩ | ⟨hs, hinit, rfl⟩⟩
    · rw [cause_of_signal hs Signal.noConfusion, onSignal_connect, if_pos ⟨hadv, rfl⟩, hk]
      rfl
    · rw [cause_of_signal hs Signal.noConfusion, onSignal_adv, if_pos ⟨hinit, rfl⟩, hk]
      rfl

theorem reuses_iff_opened : ll.Reuses i ↔
    ∃ k aa, (ll.cause i).opened = some (k, aa) ∧ ll.InUse aa := by
  simp only [cause_opened_iff]
  constructor
  · rintro ⟨hfree, h⟩
    obtain ⟨k, hk⟩ := Option.isSome_iff_exists.1 hfree
    rcases h with ⟨aa, hs, hadv, huse⟩ | ⟨hs, hinit, huse⟩
    · exact ⟨k, aa, ⟨hk, Or.inl ⟨hs, hadv⟩⟩, huse⟩
    · exact ⟨k, _, ⟨hk, Or.inr ⟨hs, hinit, rfl⟩⟩, huse⟩
  · rintro ⟨k, aa, ⟨hk, ⟨hs, hadv⟩ | ⟨hs, hinit, rfl⟩⟩, huse⟩
    · exact ⟨by rw [hk]; rfl, Or.inl ⟨aa, hs, hadv, huse⟩⟩
    · exact ⟨by rw [hk]; rfl, Or.inr ⟨hs, hinit, huse⟩⟩

/-- **A call makes two connections alike exactly if it reuses an Access Address.** -/
theorem distinct_step_iff (h : ll.Distinct) : (ll.step i).Distinct ↔ ¬ ll.Reuses i := by
  rw [distinct_iff_ends, (step_effect ll i).ends, reuses_iff_opened]
  constructor
  · rintro hnew ⟨k, aa, hopen, huse⟩
    obtain ⟨j, e, he, haa⟩ := inUse_iff_ends.1 huse
    obtain ⟨e', he', haa', hrest⟩ := Cause.apply_opened ll.ends hopen
    have hfree : ll.ends k = none := ends_of_freeSlot (cause_opened_iff.1 hopen).1
    have hjk : j ≠ k := by
      rintro rfl
      rw [hfree] at he
      cases he
    exact hjk (hnew j k e e' ((hrest j hjk).trans he) he' (haa.trans haa'.symm))
  · intro hno j k e e' he he' haa
    rcases Cause.apply_origin he with ⟨e₀, he₀, haa₀⟩ | hopen
    · rcases Cause.apply_origin he' with ⟨e₁, he₁, haa₁⟩ | hopen'
      · exact distinct_iff_ends.1 h j k e₀ e₁ he₀ he₁ (by rw [haa₀, haa₁, haa])
      · exact absurd ⟨k, _, hopen', inUse_iff_ends.2 ⟨j, e₀, he₀, haa₀.trans haa⟩⟩ hno
    · rcases Cause.apply_origin he' with ⟨e₁, he₁, haa₁⟩ | hopen'
      · exact absurd ⟨j, _, hopen, inUse_iff_ends.2 ⟨k, e₁, he₁, haa₁.trans haa.symm⟩⟩ hno
      · exact congrArg Prod.fst (Option.some.inj (hopen.symm.trans hopen'))

end Step

/-! ### Whole runs -/

/-- **The Access Addresses stay distinct, and every connection is found by its own, exactly as long
as no call reuses one.** -/
theorem distinct_run_iff (bdaddr : BdAddr) (is : List Input) :
    (∀ js, js <+: is → ((vbtLlNew bdaddr).run js).Distinct ∧
      ∀ k < VBT_LL_MAX_CONN, (((vbtLlNew bdaddr).run js).conns k).active = true →
        ((vbtLlNew bdaddr).run js).connByAA (((vbtLlNew bdaddr).run js).conns k).accessAddr =
          some k) ↔
      ∀ is₁ i is₂, is = is₁ ++ i :: is₂ → ¬ ((vbtLlNew bdaddr).run is₁).Reuses i := by
  constructor
  · rintro hall is₁ i is₂ rfl
    have hbefore := (hall is₁ (List.prefix_append _ _)).1
    have hafter := (hall (is₁ ++ [i]) ⟨is₂, by rw [List.append_assoc]; rfl⟩).1
    rw [run_concat] at hafter
    exact (distinct_step_iff hbefore).1 hafter
  · rintro hall js ⟨ks, rfl⟩
    suffices h : ((vbtLlNew bdaddr).run js).Distinct from ⟨h, distinct_iff_found.1 h⟩
    induction js using List.reverseRecOn generalizing ks with
    | nil =>
      intro j hj k hk hact
      cases hact
    | append_singleton js i ih =>
      rw [run_concat]
      have hsplit : js ++ [i] ++ ks = js ++ i :: ks := by
        rw [List.append_assoc]
        rfl
      refine (distinct_step_iff (ih (i :: ks) fun is₁ j is₂ h => ?_)).2 (hall js i ks hsplit)
      exact hall is₁ j is₂ (hsplit.trans h)

/-- A CONNECT_IND to the peripheral with the Access Address of its first connection. -/
def secondInd : Frame :=
  ⟨fillHdr VBT_LL_ADV VBT_ADV_ACCESS_ADDR VBT_CHAN_ADV_37 ⟨0xC0, 0, 0, 0, 0, 3⟩ 0 36,
    connectIndPdu 0 0 ⟨0xC0, 0, 0, 0, 0, 3⟩ peripheralAddr (central.conns 0).accessAddr⟩

/-- A peripheral that advertises again and takes a second connection. -/
def doubled : VbtLl := peripheral.run (advertiser ++ [fromMedium blank secondInd])

/-- It has two active connections with one Access Address, and the second is never found. -/
theorem doubled_not_distinct :
    Reached doubled ∧ (doubled.conns 0).active = true ∧ (doubled.conns 1).active = true ∧
      (doubled.conns 0).accessAddr = (doubled.conns 1).accessAddr ∧ ¬ doubled.Distinct ∧
      doubled.connByAA (doubled.conns 1).accessAddr = some 0 := by
  have h0 : (doubled.conns 0).active = true := by decide +kernel
  have h1 : (doubled.conns 1).active = true := by decide +kernel
  have haa : (doubled.conns 0).accessAddr = (doubled.conns 1).accessAddr := by decide +kernel
  refine ⟨⟨peripheralAddr, _, (run_append _ _ _).symm⟩, h0, h1, haa, fun hd => ?_,
    by decide +kernel⟩
  cases hd 0 (by decide) 1 (by decide) h0 h1 haa

end VbtLl
end Vbt
