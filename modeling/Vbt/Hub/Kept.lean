import Vbt.Hub.Air

/-!
# What forwarding keeps

Forwarding a frame is made of sends, of entries in the log, of random draws and of changes to the
node and connection tables. A relation between states that each of these respects is therefore
respected by `forward_frame`.

* `Kept R`: the relation is one of these; `Kept.of_rest`: it looks at sockets, environment and log
  only;
* `Kept.deliverToPeer`, `Kept.deliverHeard`, `Kept.sweep`, `Kept.fanOut`, `Kept.routeTo`;
* `Kept.forwardFrame`.
-/

namespace Vbt
namespace Hub

/-- A relation between the states before and after that every part of forwarding respects. -/
structure Kept (R : Hub → Hub → Prop) : Prop where
  refl : ∀ s, R s s
  trans : ∀ {s s' s''}, R s s' → R s' s'' → R s s''
  node : ∀ (s : Hub) (k : ℕ) (f : Node → Node), R s (s.modNode k f)
  conn : ∀ (s : Hub) (c : ℕ) {f : Conn → Conn}, (∀ x, (f x).active = x.active) → R s (s.modConn c f)
  stats : ∀ (s : Hub) {f : Stats → Stats},
    (∀ x, (f x).connsOpened = x.connsOpened ∧ (f x).connsClosed = x.connsClosed) → R s (s.modStats f)
  rand : ∀ (s : Hub) (rand : List ℕ), R s { s with kern := { s.kern with rand } }
  note : ∀ (s : Hub) {a : Act}, (∀ p, a ≠ .closed p) → R s (s.note a)
  send : ∀ (s : Hub) (dst : ℕ) (data : List UInt8), R s (s.peerSend dst data).1
  learn : ∀ (s : Hub) (node : Option ℕ) (hdr : VbtFrameHdr), R s (s.learnTx node hdr)
  snooped : ∀ (s : Hub) (node : Option ℕ) (pdu : List UInt8), R s (s.snooped node pdu)

/-- Writes none of which fails do not end in a failure, and those to come do not fail either. -/
theorem writeLoop_healthy (len off : ℕ) (ws : List WriteRes)
    (h : ∀ w ∈ ws, w ≠ .error ∧ w ≠ .wrote 0) :
    (writeLoop len off ws).2.1 ≠ .failed ∧
      ∀ w ∈ (writeLoop len off ws).2.2, w ≠ .error ∧ w ≠ .wrote 0 := by
  fun_induction writeLoop len off ws
  all_goals simp_all

theorem connEntry_rest (s : Hub) (aa : UInt32) :
    (s.connEntry aa).1.peers = s.peers ∧ (s.connEntry aa).1.kern = s.kern ∧
      (s.connEntry aa).1.log = s.log := by
  simp only [connEntry, connAlloc]
  cases s.findConn aa with
  | some c => exact ⟨rfl, rfl, rfl⟩
  | none =>
    generalize s.conns.alloc _ _ _ = r
    cases r <;> exact ⟨rfl, rfl, rfl⟩

theorem learnTx_kern (s : Hub) (node : Option ℕ) (hdr : VbtFrameHdr) :
    (s.learnTx node hdr).kern = s.kern := by
  cases node with
  | none => rfl
  | some k =>
    simp only [learnTx, nodeAddAddr]
    split_ifs <;> rfl

namespace Kept

variable {R : Hub → Hub → Prop}

/-- A relation that looks at sockets, environment and log only. -/
theorem of_rest (trans : ∀ {s s' s''}, R s s' → R s' s'' → R s s'')
    (rest : ∀ {s s' : Hub}, s'.peers = s.peers → s'.kern = s.kern → s'.log = s.log → R s s')
    (rand : ∀ (s : Hub) (rand : List ℕ), R s { s with kern := { s.kern with rand } })
    (note : ∀ (s : Hub) {a : Act}, (∀ p, a ≠ .closed p) → R s (s.note a))
    (send : ∀ (s : Hub) (dst : ℕ) (data : List UInt8), R s (s.peerSend dst data).1) : Kept R where
  refl _ := rest rfl rfl rfl
  trans := trans
  node _ _ _ := rest rfl rfl rfl
  conn _ _ _ _ := rest rfl rfl rfl
  stats _ _ _ := rest rfl rfl rfl
  rand := rand
  note := note
  send := send
  learn s node hdr := by
    obtain ⟨hp, -, hlog, -⟩ := learnTx_rest s node hdr
    exact rest hp (learnTx_kern s node hdr) hlog
  snooped s node pdu := by
    have hrefl : R s s := rest rfl rfl rfl
    simp only [Hub.snooped, observeConnectInd]
    split_ifs
    · exact hrefl
    · exact hrefl
    · obtain ⟨hp, hk, hlog⟩ := connEntry_rest s (indAA pdu)
      generalize s.connEntry (indAA pdu) = r at hp hk hlog
      obtain ⟨t, c⟩ := r
      have ht : R s t := rest hp hk hlog
      cases c with
      | none => exact trans ht (note t fun _ h => by cases h)
      | some c =>
        refine trans (trans ht ?_) (note _ fun _ h => by cases h)
        exact rest rfl rfl rfl
    · exact hrefl

variable (h : Kept R)
include h

theorem deliverToPeer (s : Hub) (dst : ℕ) (hdr : VbtFrameHdr) (pdu : List UInt8) (rssi : ℤ) :
    R s (s.deliverToPeer dst hdr pdu rssi) := by
  have hn : R s (s.note (.hand dst ⟨{ hdr with rssi := Int8.ofInt rssi }, pdu⟩)) :=
    h.note s fun _ h => by cases h
  exact deliverToPeer_rule (fun data => h.trans hn (h.send _ dst data))
    fun t k ht => h.trans ht (h.node t k _)

theorem deliverHeard (s : Hub) (node : Option ℕ) (k dst : ℕ) (hdr : VbtFrameHdr)
    (pdu : List UInt8) : R s (s.deliverHeard node k dst hdr pdu) := by
  obtain ⟨rand, hkern, -⟩ := propagate_kern s (node.map s.nodes) (s.nodes k) hdr.txPowerDbm hdr.rssi
  have hk := h.rand s rand
  simp only [Hub.deliverHeard]
  generalize s.propagate (node.map s.nodes) (s.nodes k) hdr.txPowerDbm hdr.rssi = heard at hkern
  rw [← hkern] at hk
  split_ifs
  · exact h.trans hk (h.deliverToPeer _ dst hdr pdu _)
  · exact h.trans hk (h.trans (h.node _ k _) (h.stats _ fun _ => ⟨rfl, rfl⟩))

theorem sweep (s : Hub) (sel : Peer → Bool) (src : ℕ) (hdr : VbtFrameHdr) (pdu : List UInt8) :
    R s (s.sweep sel src hdr pdu) := by
  refine List.foldlRecOn (motive := R s) _ _ (h.refl s) fun t ht i _ => ?_
  split_ifs
  · exact h.trans ht (h.deliverToPeer t i hdr pdu _)
  · exact ht

theorem fanOut (s : Hub) (src : ℕ) (node : Option ℕ) (hdr : VbtFrameHdr) (pdu : List UInt8) :
    R s (s.fanOut src node hdr pdu) := by
  refine List.foldlRecOn (motive := R s) _ _ (h.refl s) fun t ht i _ => h.trans ht ?_
  unfold fanOutOne
  split_ifs
  · exact h.refl t
  · exact h.deliverToPeer t i hdr pdu _
  · split
    · exact h.refl t
    · exact h.deliverHeard t node _ i hdr pdu

theorem routeTo (s : Hub) (node other : Option ℕ) (hdr : VbtFrameHdr) (pdu : List UInt8) :
    R s (s.routeTo node other hdr pdu) := by
  unfold Hub.routeTo
  split
  · exact h.refl s
  · split_ifs
    · exact h.refl s
    · split
      · exact h.refl s
      · exact h.deliverHeard s node _ _ hdr pdu

theorem routed (s : Hub) (node : Option ℕ) (hdr : VbtFrameHdr) (pdu : List UInt8) :
    R s (s.routed node hdr pdu) := by
  unfold Hub.routed
  split
  · exact h.refl s
  · rename_i c _
    have hc : R s (s.modConn c fun c => { c with pdus := c.pdus + 1 }) := h.conn s c fun _ => rfl
    exact h.trans hc (h.routeTo _ node _ hdr pdu)

theorem forwardData (s : Hub) (src : ℕ) (node : Option ℕ) (hdr : VbtFrameHdr) (pdu : List UInt8) :
    R s (s.forwardData src node hdr pdu) := by
  have hr := h.routed s node hdr pdu
  unfold Hub.routed at hr
  unfold Hub.forwardData
  cases hc : s.findConn hdr.accessAddr with
  | none => exact h.sweep s _ src hdr pdu
  | some c =>
    rw [hc] at hr
    refine h.trans (h.trans hr (h.sweep _ Peer.isBridge src hdr pdu)) (h.stats _ ?_)
    exact fun _ => ⟨rfl, rfl⟩

theorem tapped (s : Hub) (src : ℕ) (hdr : VbtFrameHdr) (pdu : List UInt8) :
    R s (s.tapped src hdr pdu) := by
  have hacc : R s (s.accounted src hdr pdu) :=
    h.trans (h.learn s _ hdr) (h.note _ fun _ h => by cases h)
  exact h.trans hacc (h.sweep _ Peer.isMonitor src hdr pdu)

/-- **What every send respects, forwarding a frame respects.** -/
theorem forwardFrame (s : Hub) (src : ℕ) (hdr : VbtFrameHdr) (pdu : List UInt8) :
    R s (s.forwardFrame src hdr pdu) := by
  cases httl : ttlStep (s.peers src).isBridge hdr with
  | none =>
    rw [forwardFrame_expired httl]
    exact h.refl s
  | some hdr' =>
    have ht := h.tapped s src hdr' pdu
    by_cases hadv : hdr'.llType = VBT_LL_ADV
    · have hs := h.trans ht (h.snooped _ (s.peers src).nodeIdx pdu)
      have hf := h.trans hs (h.fanOut _ src (s.peers src).nodeIdx hdr' pdu)
      rw [forwardFrame_adv httl hadv, forwardAdv]
      refine h.trans hf (h.stats _ ?_)
      exact fun _ => ⟨rfl, rfl⟩
    by_cases hdata : hdr'.llType = VBT_LL_DATA
    · rw [forwardFrame_data httl hdata]
      exact h.trans ht (h.forwardData _ src (s.peers src).nodeIdx hdr' pdu)
    · rw [forwardFrame_other httl hadv hdata]
      exact ht

end Kept

end Hub
end Vbt
