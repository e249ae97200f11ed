import Vbt.Hub.FanOut
import Vbt.Hub.Stability

/-!
# What a node is handed on a plain medium

With no position and no override set, `propagate` lets everything through and leaves the RSSI
alone, unless it is 0 (`plainRssi`). So a frame reaches the peer of another node unchanged but for
its TTL and that RSSI, and once.

* `propagate_plain`;
* `handsTo_adv_node`, `handsTo_adv`: the broadcast of an advertising frame;
* `handsTo_data_node`, `handsTo_data_plain`: the routing of a data frame.
-/

namespace Vbt
namespace Hub

open Router

/-! ### A plain medium -/

/-- The RSSI with which node `k` hears a frame of `node` that has RSSI `r`: a 0 becomes the default,
unless one of the two nodes is physical. -/
def plainRssi (s : Hub) (node : Option ℕ) (k : ℕ) (r : Int8) : Int8 :=
  if r = 0 ∧ ∀ i ∈ node, ¬ ((s.nodes i).physical = true ∨ (s.nodes k).physical = true) then
    VBT_DEFAULT_RSSI
  else r

theorem plainRssi_eq (s : Hub) (node : Option ℕ) (k : ℕ) {r : Int8} (hr : r ≠ 0) :
    s.plainRssi node k r = r := if_neg fun h => hr h.1

/-- The nodes of the hub do not matter if the sender has none. -/
theorem plainRssi_none (s s' : Hub) (k : ℕ) (r : Int8) :
    s.plainRssi none k r = s'.plainRssi none k r := by simp [plainRssi]

/-- On a plain medium every node hears every frame. -/
theorem propagate_plain {s : Hub} (h : Plain s) (node : Option ℕ) (k : ℕ) (p r : Int8) :
    (s.propagate (node.map s.nodes) (s.nodes k) p r).ok = true ∧
      (s.propagate (node.map s.nodes) (s.nodes k) p r).rssi = (s.plainRssi node k r).toInt := by
  cases node with
  | none => by_cases hr : r = 0 <;> simp [propagate, plainRssi, hr]
  | some i =>
    have hov : s.findOverride (s.nodes i).nodeId (s.nodes k).nodeId = none := by
      refine Slots.find?_eq_none_iff.2 fun j _ => ?_
      rw [h.overrides j]
      rfl
    simp only [Option.map_some, propagate, hov, pathModel, h.posSet i, Bool.not_false, Bool.true_or,
      if_true]
    by_cases hr : r = 0 <;> by_cases hi : (s.nodes i).physical = true <;>
      by_cases hk : (s.nodes k).physical = true <;> simp [plainRssi, hr, hi, hk]

/-- So the peer of a node gets the frame as it is. -/
theorem copies_plain {s : Hub} (h : Plain s) (rand : List ℕ) (node : Option ℕ) (k : ℕ)
    (hdr : VbtFrameHdr) (pdu : List UInt8) : (s.hearing rand node k hdr).copies hdr pdu =
      [⟨{ hdr with rssi := s.plainRssi node k hdr.rssi }, pdu⟩] := by
  have hp : Plain { s with kern := { s.kern with rand } } := ⟨h.overrides, h.posSet⟩
  obtain ⟨hok, hrssi⟩ := propagate_plain hp node k hdr.txPowerDbm hdr.rssi
  unfold Heard.copies hearing
  rw [hok, hrssi, if_pos rfl, Int8.ofInt_toInt]
  rfl

section Handed

variable {s : Hub} {src i q o : ℕ} {payload : List UInt8} {f : Frame}

/-- **What the peer of a node is handed of an advertising frame**, whoever sent it: the frame,
once. -/
theorem handsTo_adv_node (h : Tracked s) (hd : Disciplined s.log s.router) (hp : Plain s)
    (ho : (s.peers src).isOpen = true) (hq : Bound s.router q o) (hne : q ≠ src)
    (hf : frameOf payload = some f) (hadv : f.hdr.llType = VBT_LL_ADV)
    (httl : (s.peers src).isBridge = true → f.hdr.flags.b3 ≠ 0) (kern : Kern) :
    handsTo q (did s (s.receive kern src payload)) = [⟨{ stamped (s.peers src).isBridge f.hdr with
      rssi := s.plainRssi (s.peers src).nodeIdx o f.hdr.rssi }, f.pdu⟩] := by
  have hopen : (s.peers q).isOpen = true := hq.isOpen
  have hqn : (s.peers q).nodeIdx = some o := hq.nodeOf
  have hpk : Plain { s with kern } := ⟨hp.overrides, hp.posSet⟩
  have hskip : ¬ (q = src ∨ (s.peers q).isOpen = false) := by simp [hne, hopen]
  have hno : ¬ ((s.peers q).isMonitor = true ∨ (s.peers q).isBridge = true) := by
    simp [hq.not_monitor hd, hq.not_bridge hd]
  rw [handsTo_receive_adv h hd ho hf hadv httl kern q rfl, if_neg hskip, if_neg hno, hqn]
  exact copies_plain hpk _ _ o (stamped (s.peers src).isBridge f.hdr) f.pdu

/-- **What the other endpoint is handed of a data frame** on a plain medium, whoever sent it. -/
theorem handsTo_data_node (h : Tracked s) (hd : Disciplined s.log s.router) (hp : Plain s)
    (ho : (s.peers src).isOpen = true) {node : Option ℕ} (hnode : (s.peers src).nodeIdx = node)
    (hq : Bound s.router q o) (hf : frameOf payload = some f) (hdata : f.hdr.llType = VBT_LL_DATA)
    (httl : (s.peers src).isBridge = true → f.hdr.flags.b3 ≠ 0) {e : Ends}
    (hlink : s.router.link f.hdr.accessAddr = some e)
    (hoe : (if e.a = node then e.b else e.a) = some o) (kern : Kern) :
    handsTo q (did s (s.receive kern src payload)) = [⟨{ stamped (s.peers src).isBridge f.hdr with
      rssi := s.plainRssi node o f.hdr.rssi }, f.pdu⟩] := by
  have hpk : Plain { s with kern } := ⟨hp.overrides, hp.posSet⟩
  have hstep := ttlStep_stamped httl
  have hsr : (stamped (s.peers src).isBridge f.hdr).rssi = f.hdr.rssi := rfl
  have hdata' : (stamped (s.peers src).isBridge f.hdr).llType = VBT_LL_DATA := hdata
  have hlink' : s.router.link (stamped (s.peers src).isBridge f.hdr).accessAddr = some e := hlink
  generalize stamped (s.peers src).isBridge f.hdr = hdr at hstep hsr hdata' hlink'
  obtain ⟨hok, hrssi⟩ := propagate_plain hpk node o hdr.txPowerDbm hdr.rssi
  rw [handsTo_receive_data h hd ho hnode hq hf hstep hdata' hlink' hoe kern rfl, hok, hrssi,
    if_pos rfl, Int8.ofInt_toInt, hsr]
  rfl

/-- An advertising frame of another node that has an RSSI comes with that. -/
theorem handsTo_adv (h : Tracked s) (hd : Disciplined s.log s.router) (hp : Plain s)
    (hsrc : Bound s.router src i) (hq : Bound s.router q o) (hne : q ≠ src)
    (hf : frameOf payload = some f) (hadv : f.hdr.llType = VBT_LL_ADV) (hr : f.hdr.rssi ≠ 0)
    (kern : Kern) :
    ∃ flags, handsTo q (did s (s.receive kern src payload)) = [⟨{ f.hdr with flags }, f.pdu⟩] := by
  have hh := handsTo_adv_node h hd hp hsrc.isOpen hq hne hf hadv
    (fun hc => absurd hc (by simp [hsrc.not_bridge hd])) kern
  rw [plainRssi_eq _ _ _ hr] at hh
  exact ⟨_, hh⟩

/-- And so does a data frame. -/
theorem handsTo_data_plain (h : Tracked s) (hd : Disciplined s.log s.router) (hp : Plain s)
    (hsrc : Bound s.router src i) (hq : Bound s.router q o) (hf : frameOf payload = some f)
    (hdata : f.hdr.llType = VBT_LL_DATA) (hr : f.hdr.rssi ≠ 0) {e : Ends}
    (hlink : s.router.link f.hdr.accessAddr = some e)
    (hoe : (if e.a = some i then e.b else e.a) = some o) (kern : Kern) :
    ∃ flags, handsTo q (did s (s.receive kern src payload)) = [⟨{ f.hdr with flags }, f.pdu⟩] := by
  have hh := handsTo_data_node h hd hp hsrc.isOpen hsrc.nodeOf hq hf hdata
    (fun hc => absurd hc (by simp [hsrc.not_bridge hd])) hlink hoe kern
  rw [plainRssi_eq _ _ _ hr] at hh
  exact ⟨_, hh⟩

end Handed

end Hub
end Vbt
