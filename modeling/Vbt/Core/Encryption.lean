import Vbt.Core.Causes

/-!
# Encryption and the local host

A core reports that a connection is encrypted when it is given the right control PDU. Whether its
own host had asked for that is not looked at.

* `EncryptedAt`, `told`: what the core records and what it says to its host;
* `Starts`: a call that makes a connection encrypted, with `mem_told_iff` and
  `encryptedAt_step_iff`;
* `Asks`, `TookPart`: the host has taken part, since the connection was set up;
* `consenting_iff`: the runs in which every encryption had the consent of the host.
-/

namespace Vbt
namespace VbtLl

/-- The connection in slot `k` is marked encrypted. -/
def EncryptedAt (ll : VbtLl) (k : ℕ) : Prop := ∃ e, ll.ends k = some e ∧ e.encrypted = true

/-- The handles for which a call tells the host that encryption is on. -/
def told (ll : VbtLl) (i : Input) : List UInt16 := (ll.step i).changes.drop ll.changes.length

/-- The call is one of the last two PDUs of the handshake, for the connection in slot `k`, which is
not encrypted. -/
def Starts (ll : VbtLl) (i : Input) (k : ℕ) : Prop :=
  ∃ e, ll.ends k = some e ∧ e.encrypted = false ∧ ll.connByAA e.accessAddr = some k ∧
    (i.signal = .startEncReq e.accessAddr ∨ i.signal = .startEncRsp e.accessAddr)

/-! ### One call -/

section Call

variable {ll : VbtLl} {i : Input} {k : ℕ}

theorem told_eq (ll : VbtLl) (i : Input) : ll.told i = (ll.cause i).reports ll.ends := by
  unfold told
  rw [(step_effect ll i).changes, List.drop_left]

theorem Starts.cause (h : Starts ll i k) : ∃ aa, ll.cause i = .startReq k aa ∨
    ll.cause i = .startRsp k aa := by
  obtain ⟨e, -, -, hk, hs | hs⟩ := h
  · refine ⟨e.accessAddr, Or.inl ?_⟩
    rw [cause_of_signal hs Signal.noConfusion, onSignal_startEncReq, hk]
    rfl
  · refine ⟨e.accessAddr, Or.inr ?_⟩
    rw [cause_of_signal hs Signal.noConfusion, onSignal_startEncRsp, hk]
    rfl

/-- A connection is encrypted by the last two PDUs of the handshake and by nothing else. -/
theorem starts_of_cause {aa : UInt32} {e : LinkEnd} (he : ll.ends k = some e)
    (henc : e.encrypted = false)
    (hc : ll.cause i = .startReq k aa ∨ ll.cause i = .startRsp k aa) : Starts ll i k := by
  have hdue := cause_due ll i
  refine ⟨e, he, henc, ?_⟩
  rcases hc with hc | hc <;> rw [hc] at hdue <;> obtain ⟨hk, hs⟩ := hdue <;>
    obtain ⟨e', he', rfl⟩ := ends_of_connByAA hk <;> rw [he] at he' <;> cases he'
  · exact ⟨hk, Or.inl hs⟩
  · exact ⟨hk, Or.inr hs⟩

theorem mem_told_iff {h : UInt16} :
    h ∈ ll.told i ↔ ∃ k e, Starts ll i k ∧ ll.ends k = some e ∧ e.handle = h := by
  rw [told_eq]
  constructor
  · intro hmem
    -- only two causes are reported
    have key : ∀ k aa, (ll.cause i = .startReq k aa ∨ ll.cause i = .startRsp k aa) →
        ∃ k e, Starts ll i k ∧ ll.ends k = some e ∧ e.handle = h := by
      intro k aa hc
      have hk : ll.connByAA aa = some k := by
        have hdue := cause_due ll i
        rcases hc with hc | hc <;> rw [hc] at hdue <;> exact hdue.1
      obtain ⟨e, he, -⟩ := ends_of_connByAA hk
      have hrep : (ll.cause i).reports ll.ends = if e.encrypted then [] else [e.handle] := by
        rcases hc with hc | hc <;> rw [hc]
        · exact Cause.reports_startReq he aa
        · exact Cause.reports_startRsp he aa
      rw [hrep] at hmem
      split_ifs at hmem with henc
      · cases hmem
      · refine ⟨k, e, starts_of_cause he (Bool.eq_false_of_not_eq_true henc) hc, he, ?_⟩
        exact (List.mem_singleton.1 hmem).symm
    cases hc : ll.cause i with
    | startReq k aa => exact key k aa (Or.inl hc)
    | startRsp k aa => exact key k aa (Or.inr hc)
    | _ =>
      rw [hc] at hmem
      cases hmem
  · rintro ⟨k, e, hs, he, rfl⟩
    have henc : e.encrypted = false := by
      obtain ⟨e', he', henc, -⟩ := hs
      rw [he] at he'
      cases he'
      exact henc
    obtain ⟨aa, hc | hc⟩ := hs.cause <;> rw [hc]
    · rw [Cause.reports_startReq he, henc]
      exact List.mem_singleton_self _
    · rw [Cause.reports_startRsp he, henc]
      exact List.mem_singleton_self _

theorem encryptedAt_step_iff :
    (ll.step i).EncryptedAt k ∧ ¬ ll.EncryptedAt k ↔ Starts ll i k := by
  have hends := (step_effect ll i).ends
  constructor
  · rintro ⟨⟨e', he', henc'⟩, hnot⟩
    rw [hends] at he'
    -- what was not encrypted and is now has been changed, and only the handshake does that
    rcases Cause.apply_eq_some he' with he | ⟨adva, aa, -, rfl⟩ | ⟨aa, -, rfl⟩ | ⟨e, aa, hc, he, -⟩
    · exact absurd ⟨e', he, henc'⟩ hnot
    · cases henc'
    · cases henc'
    · exact starts_of_cause he (Bool.eq_false_of_not_eq_true fun henc => hnot ⟨e, he, henc⟩) hc
  · intro hs
    obtain ⟨aa, hc⟩ := hs.cause
    obtain ⟨e, he, henc, -⟩ := hs
    refine ⟨⟨{ e with encrypted := true }, ?_, rfl⟩, ?_⟩
    · have hupd : (ll.step i).ends k =
          Function.update ll.ends k ((ll.ends k).map fun e => { e with encrypted := true }) k := by
        rw [hends]
        rcases hc with hc | hc <;> rw [hc] <;> rfl
      rw [hupd, Function.update_self, he]
      rfl
    · rintro ⟨e', he', henc'⟩
      rw [he] at he'
      cases he'
      rw [henc] at henc'
      cases henc'

end Call

/-! ### Whole runs -/

/-- The call is the host's part in encrypting the connection in slot `k`: LE Start Encryption for a
central, LE Long Term Key Request Reply for a peripheral. -/
def Asks (ll : VbtLl) (i : Input) (k : ℕ) : Prop :=
  ∃ e, ll.ends k = some e ∧ (e.role = 0 ∧ i.request = .startEncryption e.handle ∨
    e.role = 1 ∧ i.request = .ltkReply e.handle)

/-- In the run with the calls `is`, the host has done its part since the connection in slot `k` was
set up. -/
def TookPart (ll : VbtLl) (is : List Input) (k : ℕ) : Prop :=
  ∃ is₁ i is₂, is = is₁ ++ i :: is₂ ∧ Asks (ll.run is₁) i k ∧
    ∀ js, js <+: is₂ → ((ll.run (is₁ ++ i :: js)).ends k).isSome = true

/-- Whenever the core reports encryption or marks a connection encrypted, its host has taken
part. -/
def Consenting (ll : VbtLl) (is : List Input) : Prop :=
  ∀ is₁ i is₂, is = is₁ ++ i :: is₂ →
    (∀ h ∈ (ll.run is₁).told i, ∃ k e, (ll.run is₁).ends k = some e ∧ e.handle = h ∧
      TookPart ll is₁ k) ∧
    ∀ k, (ll.run (is₁ ++ [i])).EncryptedAt k → ¬ (ll.run is₁).EncryptedAt k → TookPart ll is₁ k

/-- **Encryption has the consent of the host exactly if the medium waits for it.** A core reports no
encryption its host did not take part in if and only if no LL_START_ENC_REQ or LL_START_ENC_RSP
reaches a connection that is not encrypted before the host has done its part there. -/
theorem consenting_iff (bdaddr : BdAddr) (is : List Input) :
    Consenting (vbtLlNew bdaddr) is ↔
      ∀ is₁ i is₂, is = is₁ ++ i :: is₂ → ∀ k, Starts ((vbtLlNew bdaddr).run is₁) i k →
        TookPart (vbtLlNew bdaddr) is₁ k := by
  generalize vbtLlNew bdaddr = ll
  have hrun : ∀ is₁ i, ll.run (is₁ ++ [i]) = (ll.run is₁).step i := by
    intro is₁ i
    simp [run, List.foldl_append]
  constructor
  · intro h is₁ i is₂ his k hs
    obtain ⟨hnow, hbefore⟩ := encryptedAt_step_iff.2 hs
    rw [← hrun] at hnow
    exact (h is₁ i is₂ his).2 k hnow hbefore
  · intro h is₁ i is₂ his
    refine ⟨fun x hx => ?_, fun k hnow hbefore => ?_⟩
    · obtain ⟨k, e, hs, he, hh⟩ := mem_told_iff.1 hx
      exact ⟨k, e, he, hh, h is₁ i is₂ his k hs⟩
    · rw [hrun] at hnow
      exact h is₁ i is₂ his k (encryptedAt_step_iff.1 ⟨hnow, hbefore⟩)

/-! ### A peer that skips the handshake -/

/-- A START_ENC_REQ with the Access Address of the connection of `central`. -/
def unsolicited : Frame :=
  ⟨{ fillHdr VBT_LL_DATA (central.conns 0).accessAddr 5 peripheralAddr 0 3 with connHandle := 0x40 },
    [LLID_CONTROL, 1, LL_START_ENC_REQ]⟩

/-- **A central whose host never asked for encryption reports it**, when the peer sends a
START_ENC_REQ right after the connection was set up. -/
theorem not_consenting_unsolicited :
    ((vbtLlNew centralAddr).run initiator).told (fromMedium blank unsolicited) = [0x40] ∧
      ¬ Consenting (vbtLlNew centralAddr) (initiator ++ [fromMedium blank unsolicited]) := by
  have htold : ((vbtLlNew centralAddr).run initiator).told (fromMedium blank unsolicited) = [0x40] := by
    decide +kernel
  refine ⟨htold, fun hcons => ?_⟩
  obtain ⟨k, e, -, -, is₁, i, is₂, his, hasks, -⟩ :=
    (hcons initiator (fromMedium blank unsolicited) [] rfl).1 0x40 (by rw [htold]; decide)
  -- no call of the run is a request that has to do with encryption
  have hother : ∀ j ∈ initiator, j.request = .other := by
    intro j hj
    rcases List.mem_cons.1 hj with rfl | hj
    · decide +kernel
    · rcases List.mem_singleton.1 hj with rfl
      rfl
  have hi : i.request = .other := hother i (by rw [his]; simp)
  obtain ⟨e', -, ⟨-, hreq⟩ | ⟨-, hreq⟩⟩ := hasks <;> rw [hi] at hreq <;> cases hreq

end VbtLl
end Vbt
