import Vbt.Hub.Broadcast
import Vbt.Hub.Hands

/-!
# Frames that cross bridges

A frame of a bridge is a frame of no node: nothing is learned from it and it has no link to its
sender. Every other bridge gets a copy of every advertising and data frame, whatever is known of its
Access Address.

* `handsTo_bridge`: what a bridge is handed;
* `handsTo_data_other`: who is handed nothing of a data frame.
-/

namespace Vbt
namespace Hub

open Router

section Frames

variable {s : Hub} {src q : ℕ} {payload : List UInt8} {f : Frame}

/-- The bridges' part of a data frame. -/
theorem handsTo_forwardFrame_bridge {s : Hub} (h : Tracked s) {log : List Act}
    (hd : Disciplined log s.router) (ho : (s.peers src).isOpen = true) {hdr hdr' : VbtFrameHdr}
    (httl : ttlStep (s.peers src).isBridge hdr = some hdr') (hdata : hdr'.llType = VBT_LL_DATA)
    (pdu : List UInt8) (hq : s.OpenBridge q) :
    handsTo q (did s (s.forwardFrame src hdr pdu)) = if q = src then [] else [⟨hdr', pdu⟩] := by
  obtain ⟨hfree, hmon⟩ := hd.bridge q hq.isBridge
  have hmon' : (s.peers q).isMonitor = false := hmon
  have hacc := accounted_leads h ho hdr' pdu
  have htap := tapped_leads h ho hdr' pdu
  have hpeers : (s.accounted src hdr' pdu).peers = s.peers := (learnTx_rest s _ hdr').1
  obtain ⟨addrs, hsame⟩ := tapped_sameRoutes h hd ho hdr' pdu
  have hsame' : (s.tapped src hdr' pdu).peers q = s.peers q := by
    rw [tapped, peers_sweep, hpeers]
    rw [hpeers]
    exact hmon'
  -- the monitors' sweep and the routing pass the bridge by
  have hnil : handsTo q (did (s.accounted src hdr' pdu) (s.tapped src hdr' pdu)) = [] := by
    rw [tapped, handsTo_sweep hacc.tracked, if_neg]
    rintro ⟨-, -, hm⟩
    rw [hpeers, hmon'] at hm
    cases hm
  rw [did_data h ho httl hdata rfl rfl, handsTo_append, handsTo_append, handsTo_append, hnil]
  have hroute := routed_leads htap.tracked (s.peers src).nodeIdx hdr' pdu
  have hpass : ∀ a ∈ did (s.tapped src hdr' pdu)
      ((s.tapped src hdr' pdu).routed (s.peers src).nodeIdx hdr' pdu), dest a ≠ some q := by
    intro a ha hdest
    obtain ⟨p, ⟨c, o, -, -, hp⟩, hdel⟩ := hroute.did_forall ha
    obtain rfl : p = q := Option.some.inj (hdel.dest_eq.symm.trans hdest)
    have hpo : s.router.peerOf o = some p := (congrFun hsame.peerOf o).symm.trans hp
    exact Option.some_ne_none o ((hd.bijective.nodeOf_peerOf o p hpo).2.symm.trans hfree)
  have hnil' : handsTo q (did (s.tapped src hdr' pdu)
      ((s.tapped src hdr' pdu).routed (s.peers src).nodeIdx hdr' pdu)) = [] :=
    handsTo_eq_nil fun g hg => hpass _ hg rfl
  have hst : ((s.tapped src hdr' pdu).routed (s.peers src).nodeIdx hdr' pdu).OpenBridge q := by
    refine (persists_kept.routed _ _ hdr' pdu).openBridge ⟨?_, ?_, ?_⟩ fun hc => hpass _ hc rfl
    · rw [show (s.tapped src hdr' pdu).peers.size = s.peers.size from size_kept.tapped s src hdr' pdu]
      exact hq.lt
    · rw [hsame']
      exact hq.isOpen
    · rw [hsame']
      exact hq.isBridge
  rw [hnil', handsTo_sweep hroute.tracked]
  by_cases hqs : q = src
  · rw [if_neg fun hc => hc.1 hqs, if_pos hqs]
    rfl
  · rw [if_pos ⟨hqs, hst.isOpen, hst.isBridge⟩, if_neg hqs]
    rfl

/-- **What a bridge is handed**: of every frame that has not expired one copy, and of its own
none. -/
theorem handsTo_bridge (h : Tracked s) (hd : Disciplined s.log s.router)
    (ho : (s.peers src).isOpen = true) (hf : frameOf payload = some f)
    (htype : f.hdr.llType = VBT_LL_ADV ∨ f.hdr.llType = VBT_LL_DATA)
    (httl : (s.peers src).isBridge = true → f.hdr.flags.b3 ≠ 0) (kern : Kern)
    (hq : s.OpenBridge q) :
    handsTo q (did s (s.receive kern src payload)) =
      if q = src then [] else [⟨stamped (s.peers src).isBridge f.hdr, f.pdu⟩] := by
  rcases htype with hadv | hdata
  · rw [handsTo_receive_adv h hd ho hf hadv httl kern q rfl]
    by_cases hqs : q = src
    · rw [if_pos (Or.inl hqs), if_pos hqs]
    · rw [if_neg (not_or.2 ⟨hqs, by simp [hq.isOpen]⟩), if_pos (Or.inr hq.isBridge), if_neg hqs]
  · have hrouter : (s.ready kern src).router = s.router := (ready_alike s kern src).router_eq
    have hq' : (s.ready kern src).OpenBridge q :=
      ⟨hq.lt, (ready_isOpen s kern src q).trans hq.isOpen,
        (ready_isBridge s kern src q).trans hq.isBridge⟩
    have hstep : ttlStep ((s.ready kern src).peers src).isBridge f.hdr =
        some (stamped (s.peers src).isBridge f.hdr) := by
      rw [ready_isBridge]
      exact ttlStep_stamped httl
    have hfw := handsTo_forwardFrame_bridge (ready_leads (P := fun _ => True) h kern src).tracked
      (hrouter ▸ hd) ((ready_isOpen s kern src src).trans ho) hstep hdata f.pdu hq'
    rw [← receive_frame hf] at hfw
    exact hfw

/-- A peer that is neither a monitor nor a bridge nor the peer of the other endpoint is handed
nothing of a data frame. -/
theorem handsTo_data_other (h : Tracked s) (ho : (s.peers src).isOpen = true)
    (hf : frameOf payload = some f) (hdata : f.hdr.llType = VBT_LL_DATA) (kern : Kern)
    (hm : (s.peers q).isMonitor = false) (hb : (s.peers q).isBridge = false)
    (hother : ∀ e o, s.router.link f.hdr.accessAddr = some e →
      (if e.a = (s.peers src).nodeIdx then e.b else e.a) = some o → s.router.peerOf o ≠ some q) :
    handsTo q (did s (s.receive kern src payload)) = [] := by
  refine handsTo_eq_nil fun g hg => ?_
  rcases delivery_of_data h ho hf hdata rfl hg with ⟨-, hc⟩ | ⟨-, hc⟩ | ⟨c, o, hc, hoe, hq⟩
  · rw [hm] at hc
    cases hc
  · rw [hb] at hc
    cases hc
  · rw [otherEnd_eq] at hoe
    refine hother (s.conns c).ends o ?_ hoe hq
    simp [Hub.router, hc]

end Frames

end Hub
end Vbt
