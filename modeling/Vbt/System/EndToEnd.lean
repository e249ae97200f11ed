import Vbt.System.Handshake
import Vbt.System.Mapping

/-!
# From host to host

Two hosts, their cores and the hub between them, in any order of steps.

* `Cross.Regular.owned`, `no_orphan_over_hub`: a peripheral over the hub has a connection only while
  its central has it or has said that it left;
* `Cross.Regular.agree`, `hosts_agree_over_hub`: when nothing is under way, the two hosts have been
  told of as many connections;
* `Cross.replied_of_encrypted`, `encryption_over_hub`: a connection is encrypted only if a host gave
  a key for it.
-/

namespace Vbt

open VbtLl

/-! ### Connections -/

namespace VbtLl

/-- The Access Addresses of the active connections. -/
def activeAddrs (ll : VbtLl) : Finset UInt32 :=
  ((Finset.range ll.conns.size).filter fun k => (ll.conns k).active).image fun k =>
    (ll.conns k).accessAddr

theorem mem_activeAddrs {ll : VbtLl} {aa : UInt32} :
    aa ∈ ll.activeAddrs ↔ ∃ k e, ll.ends k = some e ∧ e.accessAddr = aa := by
  simp only [activeAddrs, Finset.mem_image, Finset.mem_filter, Finset.mem_range, ll.connsSize]
  constructor
  · rintro ⟨k, ⟨hk, hact⟩, rfl⟩
    exact ⟨k, _, ends_of_active hk hact, rfl⟩
  · rintro ⟨k, e, he, rfl⟩
    obtain ⟨hk, hact, rfl⟩ := ends_eq_some_iff.1 he
    exact ⟨k, ⟨hk, hact⟩, rfl⟩

/-- A core has one handle for each Access Address. -/
theorem card_activeHandles {ll : VbtLl} (hn : ll.Numbered)
    (hu : ∀ k k' e e', ll.ends k = some e → ll.ends k' = some e' → e.accessAddr = e'.accessAddr →
      k = k') : ll.activeHandles.card = ll.activeAddrs.card := by
  have hslot : ∀ k ∈ (Finset.range ll.conns.size).filter fun k => (ll.conns k).active,
      k < VBT_LL_MAX_CONN ∧ (ll.conns k).active = true := fun k hk => by
    obtain ⟨hlt, hact⟩ := Finset.mem_filter.1 hk
    exact ⟨ll.connsSize ▸ Finset.mem_range.1 hlt, hact⟩
  have hh : ∀ k, k < VBT_LL_MAX_CONN → (ll.conns k).active = true →
      (ll.conns k).handle = slotHandle k := fun k hk hact =>
    hn k hk _ _ (LlConn.link_eq_some.2 ⟨hact, rfl, rfl⟩)
  rw [activeHandles, activeAddrs, Finset.card_image_of_injOn, Finset.card_image_of_injOn]
  · intro k hk k' hk' haa
    obtain ⟨hlt, hact⟩ := hslot k hk
    obtain ⟨hlt', hact'⟩ := hslot k' hk'
    exact hu k k' _ _ (ends_of_active hlt hact) (ends_of_active hlt' hact') haa
  · intro k hk k' hk' hhandle
    obtain ⟨hlt, hact⟩ := hslot k hk
    obtain ⟨hlt', hact'⟩ := hslot k' hk'
    have heq : (ll.conns k).handle = (ll.conns k').handle := hhandle
    rw [hh k hlt hact, hh k' hlt' hact'] at heq
    exact slotHandle_inj hlt hlt' heq

theorem Reached.synced {ll : VbtLl} (h : Reached ll) : Synced ll := by
  obtain ⟨bdaddr, is, rfl⟩ := h
  exact (synced_vbtLlNew bdaddr).run is

end VbtLl

namespace Cross

variable {half : Prop} {c : Cross} {x : Side} {aa : UInt32}

theorem Regular.owned (h : Regular half c) (hd : c.Distinct) (hp : c.Active x 1 aa) :
    c.Active x.other 0 aa ∨ c.Terminating x aa := by
  have hnamed := h.named_of_peripheral hp
  obtain ⟨b, p, hb, hper, hphase⟩ := h.phased x.other aa hnamed
  rw [Side.other_other] at hper hphase
  obtain ⟨k, e, he, -, haa⟩ := hp
  have htrue : p = true := hper.2 ⟨k, e, he, haa⟩
  rw [htrue] at hphase
  rcases hphase.central_of_peripheral with hc | hterm
  · exact Or.inl ((h.central_iff hd hnamed).1 (hb.1 hc))
  · exact Or.inr (terminating_of_lives hterm)

/-- When nothing is under way, the two cores have the same connections. -/
theorem Regular.agree (h : Regular False c) (hquiet : ∀ y, c.queue y = []) :
    (c.core .left).activeAddrs = (c.core .right).activeAddrs := by
  have hair : ∀ y, c.dialog.air y = [] := fun y => by
    show notables (c.queue y) = []
    rw [hquiet y]
    rfl
  -- a connection that one side named is held by both or by none
  have key : ∀ y a, a ∈ connects (c.dialog.sent y) →
      (Dialog.Holds (c.dialog.table y) a ↔ Dialog.Holds (c.dialog.table y.other) a) := by
    intro y a ha
    obtain ⟨b, p, hb, hp, hphase⟩ := h.phased y a ha
    rw [hair, hair] at hphase
    rw [← hb, ← hp, hphase.agree]
  have hsub : ∀ y a, Dialog.Holds (c.dialog.table y) a → Dialog.Holds (c.dialog.table y.other) a := by
    rintro y a ⟨k, e, he, rfl⟩
    rcases h.orderly.role y k e he with ⟨-, hm⟩ | ⟨-, hm⟩
    · exact (key y _ hm).1 ⟨k, e, he, rfl⟩
    · have := key y.other _ hm
      rw [Side.other_other] at this
      exact this.2 ⟨k, e, he, rfl⟩
  ext a
  rw [mem_activeAddrs, mem_activeAddrs]
  exact ⟨hsub .left a, hsub .right a⟩

end Cross

/-! ### Connections over the hub -/

/-- Nothing is on its way between the cores. -/
def Net.Idle (n : Net) : Prop :=
  ∀ x, n.sock x = [] ∧ (n.hub.peers (n.peer x)).rxbuf = [] ∧ n.inbox x = []

theorem Inv.underway_of_idle {node : Side → ℕ} {n : Net} {handled pending : Side → List Frame}
    (h : Inv node n handled pending) (hidle : n.Idle) (x : Side) : n.underway x = [] := by
  obtain ⟨-, -, hin⟩ := hidle x
  obtain ⟨hsock, hrx, -⟩ := hidle x.other
  have hpending : pending x.other = [] := by
    have hbytes := h.bytes x.other
    rw [hsock, hrx] at hbytes
    cases hp : pending x.other with
    | nil => rfl
    | cons f rest =>
      have hlen := congrArg List.length hbytes
      simp only [hp, List.flatMap_cons, List.length_append, Frame.packet, wire_length,
        List.length_nil] at hlen
      omega
  have hview := h.view_underway x
  rw [hin, hpending] at hview
  exact List.map_eq_nil_iff.1 hview

/-- A run of two cores that are created on a hub to which their peers are attached. -/
structure HubRun (addr : Side → BdAddr) where
  hub : Hub
  peer : Side → ℕ
  node : Side → ℕ
  moves : List Net.Move
  attached : Attached hub peer node
  admissible : ((Net.start hub peer addr).run moves).Admissible
  sources : ∀ x, BdAddr.zero ∉ ((Net.start hub peer addr).run moves).sources x

namespace HubRun

variable {addr : Side → BdAddr} (r : HubRun addr)

/-- The state the run ends in. -/
def final : Net := (Net.start r.hub r.peer addr).run r.moves

/-- What the cores see of the run. -/
def trace : List Cross.Move := (Net.start r.hub r.peer addr).trace r.moves

theorem corresponds : Corresponds r.node (Cross.start addr) r.final :=
  (corresponds_start r.attached addr).run r.moves r.admissible r.sources

theorem cross_final : r.final.cross = (Cross.start addr).run r.trace := by
  rw [final, (corresponds_start r.attached addr).cross_run r.moves r.admissible r.sources,
    Net.cross_start, trace]

/-- **No orphaned peripheral over the hub.** If hosts reset their cores only while they have no
connection, a peripheral has a connection only while its central has it too, or LL_TERMINATE_IND is
under way from there: in a socket, in the hub or in the inbox of the core. -/
theorem no_orphan_over_hub (hd : r.final.cross.Distinct)
    (hreset : Cross.Along Cross.SafeReset (Cross.start addr) r.trace) {x : Side} {aa : UInt32}
    (hp : r.final.cross.Active x 1 aa) :
    r.final.cross.Active x.other 0 aa ∨ r.final.cross.Terminating x aa := by
  rw [r.cross_final] at hd hp ⊢
  exact ((Cross.regular_start True addr).run _ hd hreset (Or.inl trivial)).owned hd hp

/-- **The hosts agree over the hub.** When nothing is on its way, the two hosts have been told of
equally many connections, and the two cores have the same ones. This holds if every CONNECT_IND
found its target advertising and with room, and no core was reset while it had a connection. -/
theorem hosts_agree_over_hub (hd : r.final.cross.Distinct)
    (hreset : Cross.Along Cross.SafeReset (Cross.start addr) r.trace)
    (hready : Cross.Along Cross.Ready (Cross.start addr) r.trace) (hidle : r.final.Idle) :
    (hostView.replay (r.final.core .left).hostEvents).card =
        (hostView.replay (r.final.core .right).hostEvents).card ∧
      (r.final.core .left).activeAddrs = (r.final.core .right).activeAddrs := by
  obtain ⟨handled, pending, -, hinv, -⟩ := r.corresponds
  have hreg : Cross.Regular False r.final.cross := by
    rw [r.cross_final] at hd ⊢
    exact (Cross.regular_start False addr).run _ hd hreset (Or.inr hready)
  have hsame : (r.final.core .left).activeAddrs = (r.final.core .right).activeAddrs :=
    hreg.agree (hinv.underway_of_idle hidle)
  have hcard : ∀ x, (hostView.replay (r.final.core x).hostEvents).card =
      (r.final.core x).activeAddrs.card := fun x => by
    rw [(hinv.reached x).synced.agrees]
    exact card_activeHandles (hinv.reached x).numbered (hreg.orderly.unique x)
  refine ⟨?_, hsame⟩
  rw [hcard, hcard, hsame]

end HubRun

/-- The right core advertises, the left one connects to it and takes what was still on its way. -/
def rendezvous : HubRun (addrs peripheralAddr) where
  hub := attachedHub
  peer := slot
  node := slot
  moves := (dialogue peripheralAddr).take 12 ++ [.deliver .left blank, .deliver .left blank]
  attached := attached_attachedHub
  admissible := by
    refine ⟨by decide +kernel, fun x => ?_, by decide +kernel, by decide +kernel⟩
    cases x <;> decide +kernel
  sources x := by cases x <;> decide +kernel

theorem hosts_agree_rendezvous :
    (rendezvous.final.core .left).activeAddrs = {Cross.meetingAA} ∧
      (rendezvous.final.core .right).activeAddrs = {Cross.meetingAA} := by
  have hidle : rendezvous.final.Idle := fun x => by cases x <;> decide +kernel
  have hagree := (rendezvous.hosts_agree_over_hub (by decide +kernel) (by decide +kernel)
    (by decide +kernel) hidle).2
  have hleft : (rendezvous.final.core .left).activeAddrs = {Cross.meetingAA} := by decide +kernel
  exact ⟨hleft, hagree.symm.trans hleft⟩

theorem no_orphan_rendezvous :
    rendezvous.final.cross.Active .right 1 Cross.meetingAA ∧
      (rendezvous.final.cross.Active .left 0 Cross.meetingAA ∨
        rendezvous.final.cross.Terminating .right Cross.meetingAA) := by
  have hp : rendezvous.final.cross.Active .right 1 Cross.meetingAA :=
    ⟨0, ⟨0x40, Cross.meetingAA, 1, false⟩, by decide +kernel, rfl, rfl⟩
  have howned := rendezvous.no_orphan_over_hub (by decide +kernel) (by decide +kernel) hp
  exact ⟨hp, howned⟩

/-! ### Encryption -/

namespace Cross

/-- To be given the first frame is one way to be given a frame. -/
def Move.stray : Move → Stray
  | .host x pkt len => .host x pkt len
  | .tick x nowMs => .tick x nowMs
  | .deliver x junk => .take x 0 junk

theorem step_eq_strayStep (c : Cross) (m : Move) : c.step m = c.strayStep m.stray := by
  cases m with
  | host x pkt len => exact congrArg (fun c : Cross => c.call x _) (c.leaving_self x).symm
  | tick x nowMs => exact congrArg (fun c : Cross => c.call x _) (c.leaving_self x).symm
  | deliver x junk =>
    cases hq : c.queue x with
    | nil => simp only [step, strayStep, strayCall, Move.stray, hq, List.getElem?_nil, Option.map_none]
    | cons f rest =>
      simp only [step, strayStep, strayCall, Move.stray, hq, List.getElem?_cons_zero, Option.map_some]
      rfl

theorem run_eq_wander (c : Cross) (ms : List Move) : c.run ms = c.wander (ms.map Move.stray) := by
  induction ms generalizing c with
  | nil => rfl
  | cons m ms ih =>
    show (c.step m).run ms = (c.strayStep m.stray).wander (ms.map Move.stray)
    rw [← step_eq_strayStep, ih]

/-- An encrypted connection is one for which a host has replied with a key. -/
theorem replied_of_encrypted {addr : Side → BdAddr} {ms : List Stray}
    (hd : ((start addr).wander ms).Distinct) {x : Side} {k : ℕ} {e : LinkEnd}
    (he : (((start addr).wander ms).core x).ends k = some e) (henc : e.encrypted = true) :
    (start addr).Replied ms e.accessAddr := by
  induction ms using List.reverseRecOn generalizing x k e with
  | nil =>
    have hnone := congrFun (congrFun (congrArg Dialog.table (dialog_start addr)) x) k
    cases hnone.symm.trans he
  | append_singleton ms m ih =>
    have hd₀ : ((start addr).wander ms).Distinct := by
      refine hd.of_le fun y => ?_
      rw [wander_append]
      exact signals_wander _ _ y
    have hrun : (start addr).wander (ms ++ [m]) = ((start addr).wander ms).strayStep m :=
      wander_append _ _ _
    rw [hrun] at he
    cases hc : ((start addr).wander ms).strayCall m with
    | none =>
      rw [(strayStep_of_none hc).1] at he
      exact (ih hd₀ he henc).snoc m
    | some p =>
      obtain ⟨y, rest, i⟩ := p
      have h := honest_wander addr ms hd₀
      have hdial := ((start addr).wander ms).dialog_call (h.reached y) rest i
      rw [strayStep_of_some hc] at he
      have he' : (Function.update ((start addr).wander ms).dialog.table y _ x) k = some e :=
        (congrFun (congrFun (congrArg Dialog.table hdial) x) k).symm.trans he
      rcases y.eq_or x with rfl | rfl
      · rw [Function.update_self] at he'
        rcases Cause.apply_eq_some he' with hold | ⟨_, _, -, rfl⟩ | ⟨_, -, rfl⟩ |
          ⟨e₀, aa, hcause, h₀, rfl⟩
        · exact (ih hd₀ hold henc).snoc m
        · cases henc
        · cases henc
        · -- the entry was marked, on a PDU of the handshake that was under way
          have hapt := cause_apt (((start addr).wander ms).core x) i
          have htakes := takes_strayCall hc
          refine (h.keyed x e₀.accessAddr ?_).snoc m
          rcases hcause with hcause | hcause <;> rw [hcause] at hapt <;>
            obtain ⟨hs, e', h', rfl⟩ := hapt <;> cases h₀.symm.trans h' <;> rw [hs] at htakes
          · exact Or.inl (htakes.mem rfl)
          · exact Or.inr (htakes.mem rfl)
      · rw [Function.update_of_ne y.other_ne] at he'
        exact (ih hd₀ he' henc).snoc m

end Cross

/-- **Encryption over the hub requires a key.** A connection is only marked as encrypted, at either
end, if a host has replied with a key for it, and each host is told of it at most once. -/
theorem HubRun.encryption_over_hub {addr : Side → BdAddr} (r : HubRun addr)
    (hd : r.final.cross.Distinct) :
    (∀ x k e, (r.final.core x).ends k = some e → e.encrypted = true →
      (Cross.start addr).Replied (r.trace.map Cross.Move.stray) e.accessAddr) ∧
    ∀ x, ((Cross.start addr).reported x (r.trace.map Cross.Move.stray)).Nodup := by
  have hcross := r.cross_final.trans (Cross.run_eq_wander _ _)
  rw [hcross] at hd
  refine ⟨fun x k e he henc => ?_, (Cross.honest_wander addr _ hd).spent.nodup⟩
  have he' : (r.final.cross.core x).ends k = some e := he
  rw [hcross] at he'
  exact Cross.replied_of_encrypted hd he' henc

/-- A packet from a host. -/
def hostMove (x : Side) (pkt : List UInt8) : Net.Move := .host x (Mem.ofList pkt blank) pkt.length

/-- Then the left host starts encryption, and the right one replies with a key. -/
def secured : HubRun (addrs peripheralAddr) where
  hub := attachedHub
  peer := slot
  node := slot
  moves := rendezvous.moves ++
    [hostMove .left ([HCI_CMD_PKT, 0x19, 0x20, 28, 0x40, 0] ++ List.replicate 26 0), .read .left 500,
      .message .left Kern.quiet, .deliver .right blank,
      hostMove .right ([HCI_CMD_PKT, 0x1A, 0x20, 18, 0x40, 0] ++ List.replicate 16 0),
      .read .right 500, .message .right Kern.quiet, .message .right Kern.quiet,
      .deliver .left blank, .deliver .left blank]
  attached := attached_attachedHub
  admissible := by
    refine ⟨by decide +kernel, fun x => ?_, by decide +kernel, by decide +kernel⟩
    cases x <;> decide +kernel
  sources x := by cases x <;> decide +kernel

theorem encryption_over_hub_secured :
    (Cross.start (addrs peripheralAddr)).Replied (secured.trace.map Cross.Move.stray)
      Cross.meetingAA := by
  have he : (secured.final.core .left).ends 0 = some ⟨0x40, Cross.meetingAA, 0, true⟩ := by
    decide +kernel
  exact (secured.encryption_over_hub (by decide +kernel)).1 .left 0 _ he rfl

end Vbt
