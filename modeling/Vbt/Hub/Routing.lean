import Vbt.Hub.Receive

/-!
# Routing

What one frame can do to the other peers, in every reachable state.

* `data_confidential`: in runs with one hello for each peer, a data frame is handed to at most one
  peer that is neither a monitor nor a bridge, the peer of an endpoint of its connection;
* `link_of_receive`, `link_receive`: what a frame leaves of the connections it does not name;
* `no_echo`: the hub hands nothing back to the sender, unless a hello rebound a peer or a node
  connected to itself.
-/

namespace Vbt
namespace Hub

open Router

/-! ### Concrete runs -/

/-- A frame with the default header. -/
def plainFrame (llType : UInt8) (aa : UInt32) (tx : BdAddr) (pdu : List UInt8) : Frame where
  hdr := { magic := VBT_MAGIC, version := VBT_VERSION, pduLen := .ofNat pdu.length, accessAddr := aa,
           tsfLo := 0, tsfHi := 0, flags := ⟨0, 0, 0, 0⟩, txAddr := tx, txAddrType := 0, llType,
           channel := 37, phy := 1, txPowerDbm := 0, rssi := -40, connHandle := 0,
           reserved := BdAddr.zero }
  pdu

/-- The shortest CONNECT_IND the hub snoops. -/
def connectInd (initA advA : BdAddr) (aa : UInt32) : List UInt8 :=
  [VBT_CONNECT_IND, 16] ++ initA.bytes ++ advA.bytes ++ bytes32 aa

/-- Peer `p` sends one message. -/
def sends (p : ℕ) (payload : List UInt8) : List Event :=
  [.recv p (.data (wire payload)), .message p Kern.quiet]

/-- The address `n:0:0:0:0:0`. -/
def addr (n : UInt8) : BdAddr := ⟨n, 0, 0, 0, 0, 0⟩

/-- Peers `0`, `1` and `2` say hello as `A`, `B` and `C`; `B` advertises and `A` connects to it with
Access Address `0x50`. -/
def linkRun : List Event :=
  [.accept 5 false, .accept 6 false, .accept 7 false] ++ sends 0 (helloPayload [0x41] 0) ++
    sends 1 (helloPayload [0x42] 0) ++ sends 2 (helloPayload [0x43] 0) ++
    sends 1 (plainFrame VBT_LL_ADV VBT_ADV_ACCESS_ADDR (addr 2) [0, 6, 2, 0, 0, 0, 0, 0]).payload ++
    sends 0 (plainFrame VBT_LL_ADV VBT_ADV_ACCESS_ADDR (addr 1)
      (connectInd (addr 1) (addr 2) 0x50)).payload

/-- A data frame on the connection of `linkRun`. -/
def dataFrame : Frame := plainFrame VBT_LL_DATA 0x50 (addr 1) [2, 1, 0xAB]

/-! ### Confidentiality -/

/-- Peer `p`, neither a monitor nor a bridge, is handed a frame between two states. -/
def HandedTo (s s' : Hub) (p : ℕ) : Prop :=
  (s.peers p).isMonitor = false ∧ (s.peers p).isBridge = false ∧ ∃ g, Act.hand p g ∈ did s s'

/-- Node `o` is an endpoint of the connection, and the opposite one if the sender's node is an
endpoint too. -/
def Opposite (node : Option ℕ) (c : Conn) (o : ℕ) : Prop :=
  (c.nodeA = some o ∨ c.nodeB = some o) ∧ (node.isSome = true → c.nodeA = node → c.nodeB = some o) ∧
    (node.isSome = true → c.nodeB = node → c.nodeA = some o)

theorem opposite_of_otherEnd {node : Option ℕ} {c : Conn} {o : ℕ} (h : otherEnd node c = some o) :
    Opposite node c o := by
  rw [otherEnd_eq] at h
  split_ifs at h with ha
  · refine ⟨Or.inr h, fun _ _ => h, fun _ hb => ?_⟩
    rw [ha, ← hb, h]
  · exact ⟨Or.inl h, fun _ hc => absurd hc ha, fun _ _ => h⟩

theorem route_of_handedTo {s : Hub} (h : Tracked s) {src p : ℕ} (ho : (s.peers src).isOpen = true)
    {kern : Kern} {payload : List UInt8} {f : Frame} (hf : frameOf payload = some f)
    (hdata : f.hdr.llType = VBT_LL_DATA) (hp : HandedTo s (s.receive kern src payload) p) :
    ∃ c o, s.findConn f.hdr.accessAddr = some c ∧
      otherEnd (s.peers src).nodeIdx (s.conns c) = some o ∧ (s.nodes o).peerIdx = some p := by
  obtain ⟨hmon, hbr, g, hg⟩ := hp
  obtain ⟨-, hm⟩ | ⟨-, hb⟩ | hroute := delivery_of_data h ho hf hdata rfl hg
  · rw [hm] at hmon
    cases hmon
  · rw [hb] at hbr
    cases hbr
  · exact hroute

/-- **Point-to-point confidentiality.** A data frame is handed to at most one peer that is neither a
monitor nor a bridge: the live peer of an endpoint of its connection, the opposite one if the
sender is an endpoint. Without a connection of that Access Address it is handed to none. -/
theorem data_confidential {s : Hub} (hr : Reachable s) (hone : OneHello s.log) {src : ℕ}
    (ho : (s.peers src).isOpen = true) (kern : Kern) {payload : List UInt8} {f : Frame}
    (hf : frameOf payload = some f) (hdata : f.hdr.llType = VBT_LL_DATA) :
    (∀ p q, HandedTo s (s.receive kern src payload) p → HandedTo s (s.receive kern src payload) q →
      p = q) ∧
    (∀ p, HandedTo s (s.receive kern src payload) p →
      ∃ c o, s.findConn f.hdr.accessAddr = some c ∧ Opposite (s.peers src).nodeIdx (s.conns c) o ∧
        (s.nodes o).peerIdx = some p ∧ (s.peers p).isOpen = true ∧ (s.peers p).nodeIdx = some o) ∧
    (s.findConn f.hdr.accessAddr = none → ∀ p, ¬ HandedTo s (s.receive kern src payload) p) := by
  have hbij := (hr.disciplined hone).bijective
  refine ⟨fun p q hp hq => ?_, fun p hp => ?_, fun hnone p hp => ?_⟩
  · obtain ⟨c, o, hc, hoe, hpo⟩ := route_of_handedTo hr.tracked ho hf hdata hp
    obtain ⟨c', o', hc', hoe', hqo⟩ := route_of_handedTo hr.tracked ho hf hdata hq
    -- connection, endpoint and peer are all read from `s`
    obtain rfl : c = c' := Option.some.inj (hc.symm.trans hc')
    obtain rfl : o = o' := Option.some.inj (hoe.symm.trans hoe')
    exact Option.some.inj (hpo.symm.trans hqo)
  · obtain ⟨c, o, hc, hoe, hpo⟩ := route_of_handedTo hr.tracked ho hf hdata hp
    obtain ⟨hopen, hbound⟩ := hbij.nodeOf_peerOf o p hpo
    exact ⟨c, o, hc, opposite_of_otherEnd hoe, hpo, hopen, hbound⟩
  · obtain ⟨c, o, hc, -, -⟩ := route_of_handedTo hr.tracked ho hf hdata hp
    rw [hnone] at hc
    cases hc

theorem data_confidential_link :
    HandedTo ((Hub.init 0).run linkRun)
        (((Hub.init 0).run linkRun).receive Kern.quiet 0 dataFrame.payload) 1 ∧
      ∀ q, HandedTo ((Hub.init 0).run linkRun)
        (((Hub.init 0).run linkRun).receive Kern.quiet 0 dataFrame.payload) q → q = 1 := by
  have h1 : HandedTo ((Hub.init 0).run linkRun)
      (((Hub.init 0).run linkRun).receive Kern.quiet 0 dataFrame.payload) 1 :=
    ⟨by decide +kernel, by decide +kernel, { dataFrame with hdr := { dataFrame.hdr with flags := ⟨0, 0, 0, 8⟩ } },
      by decide +kernel⟩
  refine ⟨h1, fun q hq => ?_⟩
  exact (data_confidential ⟨0, linkRun, rfl⟩ (by decide +kernel) (by decide +kernel) Kern.quiet
    (f := dataFrame) (by decide +kernel) rfl).1 q 1 hq h1

/-! ### Third parties -/

/-- The frames that are handed on have the header of the frame, but for TTL and RSSI, and its
PDU. -/
theorem hand_of_receive {s : Hub} (h : Tracked s) {src p : ℕ} (ho : (s.peers src).isOpen = true)
    {kern : Kern} {payload : List UInt8} {f g : Frame} (hf : frameOf payload = some f)
    (hg : Act.hand p g ∈ did s (s.receive kern src payload)) :
    ∃ flags rssi, g = ⟨{ f.hdr with flags, rssi }, f.pdu⟩ := by
  obtain ⟨hdr', httl, hfw⟩ := (receive_forwards h ho hf kern).did_forall hg
  obtain ⟨flags, rfl⟩ := ttlStep_eq_some httl
  cases hfw with
  | delivery hd =>
    cases hd with
    | hand rssi => exact ⟨flags, rssi, rfl⟩

theorem nodeOf_of_forwarding {r : Router} {src : ℕ} {node : Option ℕ} {hdr : VbtFrameHdr}
    {pdu : List UInt8} {a : Act} (ha : Forwarding src node hdr pdu a) {p k : ℕ}
    (hk : (r.apply a).nodeOf p = some k) : r.nodeOf p = some k := by
  cases ha with
  | frame =>
    obtain ⟨addrs, hr⟩ := r.apply_frame src hdr pdu
    rw [hr] at hk
    exact hk
  | snooped b slot => cases slot <;> exact hk
  | delivery hd => exact (Shrinks.apply r hd.ofSocket).nodeOf p k hk

section ThirdParty

variable {s : Hub} {src : ℕ} {kern : Kern} {payload : List UInt8} {f : Frame} {aa : UInt32}

/-- The route that a frame makes, if it makes one. -/
theorem snooped_of_receive (h : Tracked s) (ho : (s.peers src).isOpen = true)
    (hf : frameOf payload = some f) {a b slot : Option ℕ}
    (hs : Act.snooped aa a b slot ∈ did s (s.receive kern src payload)) :
    f.hdr.llType = VBT_LL_ADV ∧ Snoops f.pdu ∧ aa = indAA f.pdu ∧ a = (s.peers src).nodeIdx := by
  obtain ⟨hdr', httl, hfw⟩ := (receive_forwards h ho hf kern).did_forall hs
  obtain ⟨flags, rfl⟩ := ttlStep_eq_some httl
  cases hfw with
  | snooped b slot hadv hind => exact ⟨hadv, hind, rfl, rfl⟩
  | delivery hd => cases hd

variable (h : Tracked s) (ho : (s.peers src).isOpen = true) (hf : frameOf payload = some f)
  (hsnoop : ¬ (f.hdr.llType = VBT_LL_ADV ∧ Snoops f.pdu ∧ indAA f.pdu = aa))
include h ho hf hsnoop

/-- A frame that makes no route for `aa` does not give it other endpoints. -/
theorem link_of_receive {e : Ends} (he : (s.receive kern src payload).router.link aa = some e) :
    s.router.link aa = some e := by
  have hl := receive_forwards h ho hf kern
  have hlegal := hl.tracked.legal
  rw [hl.tracked.router, did_append hl.suffix] at he
  rw [did_append hl.suffix] at hlegal
  rw [h.router]
  refine hlegal.invariant_since (I := fun r => ∀ e, r.link aa = some e →
    (medium.replay s.log).link aa = some e) (P := fun act => ∀ a b slot, act ≠ .snooped aa a b slot)
    (fun _ he => he) (fun _ a _ ih _ ha e he => ih e ((link_apply_iff ha).1 he).1) ?_ e he
  rintro act hact a b slot rfl
  obtain ⟨hadv, hind, haa, -⟩ := snooped_of_receive h ho hf hact
  exact hsnoop ⟨hadv, hind, haa.symm⟩

/-- It leaves the endpoints alone, unless one of their peers is closed on the way. -/
theorem link_receive {e : Ends} (he : s.router.link aa = some e)
    (hclosed : ∀ p, Act.closed p ∈ did s (s.receive kern src payload) →
      e.has (s.peers p).nodeIdx = false) :
    (s.receive kern src payload).router.link aa = some e := by
  have hl := receive_forwards h ho hf kern
  have hlegal := hl.tracked.legal
  rw [hl.tracked.router, did_append hl.suffix]
  rw [did_append hl.suffix] at hlegal
  have hnode : ∀ p, (medium.replay s.log).nodeOf p = (s.peers p).nodeIdx := fun p => by
    rw [← h.router]
    rfl
  refine (hlegal.invariant_since
    (I := fun r => (∀ p k, r.nodeOf p = some k → (s.peers p).nodeIdx = some k) ∧ r.link aa = some e)
    (P := fun act => act ∈ did s (s.receive kern src payload)) ?_ ?_ fun _ ha => ha).2
  · exact ⟨fun p k hk => hnode p ▸ hk, h.router ▸ he⟩
  · rintro t act - ⟨ihn, ihl⟩ - hact
    obtain ⟨hdr', -, hfw⟩ := hl.did_forall hact
    refine ⟨fun p k hk => ihn p k (nodeOf_of_forwarding hfw hk), (link_apply_iff ?_).2 ⟨ihl, ?_⟩⟩
    · rintro a b slot rfl
      obtain ⟨hadv, hind, haa, -⟩ := snooped_of_receive h ho hf hact
      exact hsnoop ⟨hadv, hind, haa.symm⟩
    · rintro p rfl
      cases hn : (medium.replay t).nodeOf p with
      | none => rfl
      | some k => exact ihn p k hn ▸ hclosed p hact

/-- While no peer is closed, the links that the frame does not make stay as they are. -/
theorem link_receive_calm (hcalm : ∀ p, Act.closed p ∉ did s (s.receive kern src payload)) :
    (s.receive kern src payload).router.link aa = s.router.link aa := by
  refine Option.ext fun e => ⟨fun he => link_of_receive h ho hf hsnoop he, fun he => ?_⟩
  exact link_receive h ho hf hsnoop he fun p hp => absurd hp (hcalm p)

end ThirdParty

/-- `C` advertises. -/
def bystanderAdv : Frame :=
  plainFrame VBT_LL_ADV VBT_ADV_ACCESS_ADDR (addr 3) [0, 6, 3, 0, 0, 0, 0, 0]

/-! ### Echoes -/

/-- A CONNECT_IND whose advertiser's address resolves to the initiator's own node. -/
def SelfLink : Act → Prop
  | .snooped _ (some k) (some k') _ => k = k'
  | _ => False

instance : (a : Act) → Decidable (SelfLink a)
  | .snooped _ (some _) (some _) _ => inferInstanceAs (Decidable (_ = _))
  | .snooped _ none _ _ | .snooped _ (some _) none _ | .opened .. | .closed _ | .named ..
    | .hello .. | .frame .. | .hand .. | .wrote .. | .dropped _ | .rxWrap _ | .reply _ => isFalse id

/-- No node connects to itself. -/
def NoSelfLink : List Act → Prop := Throughout fun _ a => ¬ SelfLink a

instance (log : List Act) : Decidable (NoSelfLink log) := Throughout.decidable log

/-- Then no link has one node at both ends. -/
theorem link_ne_of_noSelfLink {log : List Act} (hlegal : medium.Legal log) (h : NoSelfLink log)
    {aa : UInt32} {k : ℕ} : (medium.replay log).link aa ≠ some ⟨some k, some k⟩ := by
  refine hlegal.invariant_of (I := fun _ r => ∀ aa k, r.link aa ≠ some ⟨some k, some k⟩)
    (fun aa k hl => by cases hl) (fun t act _ _ ih _ hself aa k hl => ?_) h aa k
  by_cases hs : ∀ a b slot, act ≠ .snooped aa a b slot
  · exact ih aa k ((link_apply_iff hs).1 hl).1
  · push Not at hs
    obtain ⟨a, b, slot, rfl⟩ := hs
    cases slot with
    | none => exact ih aa k hl
    | some c =>
      simp only [medium_apply, Router.apply, record, if_true, Option.some.injEq,
        Ends.mk.injEq] at hl
      obtain ⟨rfl, rfl⟩ := hl
      exact hself rfl

section Echo

variable {s : Hub} {src : ℕ} (h : Tracked s) (hbij : Bijective s.router)
  (hself : ∀ aa k, s.router.link aa ≠ some ⟨some k, some k⟩) (ho : (s.peers src).isOpen = true)
include h hbij hself ho

/-- Nothing is delivered to the sender: the only frame that could come back is a data frame on a
link of the sender's node to itself. -/
theorem dest_ne_src (kern : Kern) (payload : List UInt8) {a : Act}
    (ha : a ∈ did s (s.receive kern src payload)) : dest a ≠ some src := by
  intro hd
  cases hhello : parseHello payload with
  | some hello =>
    have hrt : Tracked (s.ready kern src) := (ready_leads (P := fun _ => True) h kern src).tracked
    rw [receive_hello hhello] at ha
    have hg := (takeHello_leads hrt ((ready_isOpen s kern src src).trans ho) hello).did_forall ha
    cases hg <;> cases hd
  | none =>
    cases hf : frameOf payload with
    | none =>
      rw [receive_other hhello hf] at ha
      simp [did, ready, modPeer] at ha
    | some f =>
      by_cases hdata : f.hdr.llType = VBT_LL_DATA
      · obtain ⟨hne, -⟩ | ⟨hne, -⟩ | ⟨c, o, hc, hoe, hpo⟩ := delivery_of_data h ho hf hdata hd ha
        · exact hne rfl
        · exact hne rfl
        · -- the sender is the peer of the other endpoint, so both endpoints are its own node
          have hnode : (s.peers src).nodeIdx = some o := (hbij.nodeOf_peerOf o src hpo).2
          rw [otherEnd_eq, hnode] at hoe
          refine hself f.hdr.accessAddr o ?_
          split_ifs at hoe with hA
          · simp [Hub.router, hc, Conn.ends, hA, hoe]
          · exact absurd hoe hA
      · exact delivery_ne_src h ho hf hdata hd ha rfl

/-- The receive buffer of the sender is what it was. -/
theorem rxbuf_receive (kern : Kern) (payload : List UInt8) :
    ((s.receive kern src payload).peers src).rxbuf = (s.peers src).rxbuf :=
  (receive_leads h ho kern payload).rxbuf fun hc => dest_ne_src h hbij hself ho kern payload hc rfl

/-- So the receive loop never takes more off the buffer than there is. -/
theorem not_rxWrap (kern : Kern) : Act.rxWrap src ∉ did s (s.step (.message src kern)) := by
  intro hw
  simp only [step, if_pos ho, peerReadableIter] at hw
  split_ifs at hw with h4 hbig hpart hwrap
  · simp [did] at hw
  · have hclose := (peerClose_leads (h.setKern kern) src).did_forall hw
    cases hclose
  · simp [did] at hw
  · -- the buffer was long enough, and it has not changed
    have hkept := rxbuf_receive h hbij hself ho kern
      (((s.peers src).rxbuf.drop 4).take (headLen (s.peers src).rxbuf))
    rw [receive] at hkept
    rw [hkept] at hwrap
    exact hpart hwrap
  · have hh : Handling src (.rxWrap src) := (receive_leads h ho kern _).did_forall hw
    cases hh with
    | greeting hg => cases hg
    | forwarding hfw =>
      cases hfw with
      | delivery hd => cases hd

end Echo

/-- **No echo.** In runs in which no hello rebinds a peer and no node connects to itself, no message
makes the hub deliver anything to its sender. So the sender is not closed from inside its own
receive loop, the buffer still holds the message on return, and `rxused` does not wrap. -/
theorem no_echo {s : Hub} (hr : Reachable s) (hreb : NoRebinding s.log) (hself : NoSelfLink s.log)
    {src : ℕ} (ho : (s.peers src).isOpen = true) (kern : Kern) (payload : List UInt8) :
    (∀ g, Act.hand src g ∉ did s (s.receive kern src payload)) ∧
      Act.closed src ∉ did s (s.receive kern src payload) ∧
      ((s.receive kern src payload).peers src).rxbuf = (s.peers src).rxbuf ∧
      Act.rxWrap src ∉ did s (s.step (.message src kern)) := by
  have h := hr.tracked
  have hbij := h.bijective hreb
  have hlink : ∀ aa k, s.router.link aa ≠ some ⟨some k, some k⟩ := by
    intro aa k
    rw [h.router]
    exact link_ne_of_noSelfLink h.legal hself
  exact ⟨fun g hg => dest_ne_src h hbij hlink ho kern payload hg rfl,
    fun hc => dest_ne_src h hbij hlink ho kern payload hc rfl,
    rxbuf_receive h hbij hlink ho kern payload, not_rxWrap h hbij hlink ho kern⟩

theorem no_echo_link :
    (∀ g, Act.hand 0 g ∉ did ((Hub.init 0).run linkRun)
      (((Hub.init 0).run linkRun).receive Kern.quiet 0 dataFrame.payload)) ∧
    Act.closed 0 ∉ did ((Hub.init 0).run linkRun)
      (((Hub.init 0).run linkRun).receive Kern.quiet 0 dataFrame.payload) := by
  have ho : (((Hub.init 0).run linkRun).peers 0).isOpen = true := by decide +kernel
  obtain ⟨hhand, hclosed, -, -⟩ := no_echo ⟨0, linkRun,
    rfl⟩ (by decide +kernel) (by decide +kernel) ho
    Kern.quiet dataFrame.payload
  exact ⟨hhand, hclosed⟩

/-- `A` advertises, connects to its own address, and sends a data frame. -/
def selfRun : List Event :=
  [.accept 5 false] ++ sends 0 (helloPayload [0x41] 0) ++
    sends 0 (plainFrame VBT_LL_ADV VBT_ADV_ACCESS_ADDR (addr 1) [0, 6, 1, 0, 0, 0, 0, 0]).payload ++
    sends 0 (plainFrame VBT_LL_ADV VBT_ADV_ACCESS_ADDR (addr 1)
      (connectInd (addr 1) (addr 1) 0x50)).payload ++
    [.recv 0 (.data (wire dataFrame.payload))]

/-- Every `write` fails. -/
def brokenPipe : Kern := { Kern.quiet with write := fun _ => [.error] }

/-- The hub hands the data frame of `selfRun` back; with a broken socket it closes the sender inside
its own receive loop, and `rxused` wraps. -/
theorem echo_selfLink :
    Reachable ((Hub.init 0).run selfRun) ∧
      (handsTo 0 (did ((Hub.init 0).run selfRun)
        (((Hub.init 0).run selfRun).receive Kern.quiet 0 dataFrame.payload))).map Frame.pdu =
          [dataFrame.pdu] ∧
      Act.closed 0 ∈ did ((Hub.init 0).run selfRun)
        (((Hub.init 0).run selfRun).receive brokenPipe 0 dataFrame.payload) ∧
      Act.rxWrap 0 ∈ did ((Hub.init 0).run selfRun)
        (((Hub.init 0).run selfRun).step (.message 0 brokenPipe)) := by
  refine ⟨⟨0, selfRun, rfl⟩, ?_⟩
  decide +kernel

end Hub
end Vbt
