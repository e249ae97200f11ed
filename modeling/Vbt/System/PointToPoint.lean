import Vbt.Hub.Snoop
import Vbt.System.Flooding

/-!
# Data between two nodes of a network of hubs

A CONNECT_IND floods the network, and every hub records what it knows of the two ends: the initiator
where the frame came from a node, the advertiser where its address was learned. A data frame of the
connection follows the same bridges and overtakes the CONNECT_IND nowhere, so each hub that gets it
knows what to do with it.

* `Seat`: a peer of a hub and its node; `ends`: what a hub records of a connection;
* `Carries`: what the connection asks of each move;
* `Joint`: the CONNECT_IND is under way, and where it has been the connection is recorded;
* `Following`: a data frame is under way behind it;
* `data_point_to_point`: the other end is handed the data frame, once, and nobody else is.
-/

namespace Vbt

open Hub Router

/-- Peer `slot` of hub `hub`, which speaks for node `node` there. -/
structure Seat (ι : Type*) where
  hub : ι
  slot : ℕ
  node : ℕ

/-! ### What a hub records -/

section Ends

variable {ι : Type*} [DecidableEq ι] {x y s r : Seat ι}

/-- The node for which hub `j` takes the sender of a frame of `s`: a frame from another hub has
none. -/
def Seat.nodeAt (s : Seat ι) (j : ι) : Option ℕ := if j = s.hub then some s.node else none

/-- What hub `j` can know of a connection that `x` starts with `y`. -/
def ends (x y : Seat ι) (j : ι) : Ends := ⟨x.nodeAt j, y.nodeAt j⟩

/-- **The other endpoint**, as each hub computes it: it is `r`, at its own hub, and nobody
elsewhere. -/
theorem otherEnd_ends (hsr : (s = x ∧ r = y) ∨ (s = y ∧ r = x)) (j : ι) :
    (if (ends x y j).a = s.nodeAt j then (ends x y j).b else (ends x y j).a) = r.nodeAt j := by
  rcases hsr with ⟨rfl, rfl⟩ | ⟨rfl, rfl⟩
  · exact if_pos rfl
  · split_ifs with h
    · exact h.symm
    · rfl

theorem Seat.nodeAt_eq_some {j : ι} {k : ℕ} : s.nodeAt j = some k ↔ j = s.hub ∧ k = s.node := by
  unfold Seat.nodeAt
  split_ifs with h
  · simp [h, eq_comm]
  · simp [h]

/-- The peer of the seat is there. -/
def Seat.Taken (s : Seat ι) (m : Mesh ι) : Prop := Bound (m.hub s.hub).router s.slot s.node

/-- It keeps its socket and its node in a move. -/
def Seat.Kept (s : Seat ι) (m : Mesh ι) (mv : Mesh.Move ι) : Prop :=
  Mesh.Stays s.hub s.slot s.node m mv

end Ends

/-! ### One hub -/

section Hub

variable {s s' : Hub} {src : ℕ} {f : Frame} {t : UInt8} {kern : Kern}

/-- **What a hub records of a CONNECT_IND**, if there is room. -/
theorem Hub.Relaying.link (h : Relaying s src f t) (hs : s.Sound) (hadv : f.hdr.llType = VBT_LL_ADV)
    (hind : Snoops f.pdu) (hroom : ∃ c < MAX_CONNS, (s.conns c).active = false)
    (hs' : s.receive kern src (f.withTtl t).payload = s') {b : Option ℕ}
    (hb : s'.findNodeByAddr (indAdvA f.pdu) = b)
    (hheld : Held s.router (did s s') ⟨(s.peers src).nodeIdx, b⟩) :
    s'.router.link (indAA f.pdu) = some ⟨(s.peers src).nodeIdx, b⟩ := by
  have hf := h.floods.frameOf_withTtl t
  have httl : ttlStep (s.peers src).isBridge (f.withTtl t).hdr ≠ none := by
    rw [ttlStep_stamped h.alive]
    exact Option.some_ne_none _
  have hroom' : s.linked.card < MAX_CONNS := (card_linked_lt_iff hs.tracked.tidy).2 hroom
  obtain ⟨b', c, hmem, hb'⟩ := snooped_receive hs.tracked h.isOpen hf hadv hind httl kern (Or.inl hroom')
  have haddrs := addrs_receive hs.tracked h.isOpen hf httl kern
  have ht := (receive_leads hs.tracked h.isOpen kern (f.withTtl t).payload).tracked
  rw [hs'] at hmem haddrs ht
  -- the advertiser is looked up after the sender's address is learned
  have hbb : b' = b := by
    refine Option.ext fun k => ?_
    rw [hb' k, ← haddrs, ← hb]
    exact (findNodeByAddr_iff ht).symm
  subst hbb
  have hlink := link_receive_snooped hs.tracked h.isOpen hf hadv hind httl kern (hs' ▸ hmem)
      fun q hq =>
    hheld.has_nodeOf hs.tracked.blank hs.disciplined.bijective (hs' ▸ hq)
  rw [hs'] at hlink
  exact hlink

end Hub

namespace Mesh

variable {ι : Type*}

/-! ### One visit of a data frame -/

section Visits

variable [DecidableEq ι] {s r : Seat ι} {f : Frame} {v : Visit ι}

theorem Handled.nodeIdx (h : Handled s.hub s.slot f v)
    (hs : v.hub = s.hub → Bound v.before.router s.slot s.node) : ∃ src t kern,
      Relaying v.before src f t ∧ v.after = v.before.receive kern src (f.withTtl t).payload ∧
      (v.before.peers src).nodeIdx = s.nodeAt v.hub := by
  obtain ⟨src, t, kern, hrel, hafter, ⟨hhub, rfl⟩ | ⟨hhub, hbridge⟩⟩ := h.relayed
  · exact ⟨_, t, kern, hrel, hafter, (hs hhub).nodeOf.trans (if_pos hhub).symm⟩
  · exact ⟨src, t, kern, hrel, hafter, (h.sound.disciplined.bridge src hbridge).1.trans (if_neg hhub).symm⟩

/-- **What a visit of a data frame hands over**, if the hub has `r` for the other endpoint. -/
theorem Handled.data (h : Handled s.hub s.slot f v) (hdata : f.hdr.llType = VBT_LL_DATA)
    (hs : v.hub = s.hub → Bound v.before.router s.slot s.node)
    (hr : v.hub = r.hub → Bound v.before.router r.slot r.node) {e : Ends}
    (hlink : v.before.router.link f.hdr.accessAddr = some e)
    (hother : (if e.a = s.nodeAt v.hub then e.b else e.a) = r.nodeAt v.hub) :
    (v.hub = r.hub → ∃ t, handsTo r.slot (did v.before v.after) = [⟨{ (f.withTtl t).hdr with
        rssi := v.before.plainRssi (s.nodeAt v.hub) r.node f.hdr.rssi }, f.pdu⟩]) ∧
      ∀ q, (v.before.peers q).isMonitor = false → (v.before.peers q).isBridge = false →
        ¬ (v.hub = r.hub ∧ q = r.slot) → handsTo q (did v.before v.after) = [] := by
  obtain ⟨src, t, kern, hrel, hafter, hnode⟩ := h.nodeIdx hs
  have hf := hrel.floods.frameOf_withTtl t
  rw [hafter]
  constructor
  · intro hhub
    exact ⟨nextTtl (v.before.peers src).isBridge t, handsTo_data_node h.sound.tracked
      h.sound.disciplined h.sound.plain hrel.isOpen hnode (hr hhub) hf hdata hrel.alive hlink
      (hother.trans (if_pos hhub)) kern⟩
  · intro q hm hb hne
    refine handsTo_data_other h.sound.tracked hrel.isOpen hf hdata kern hm hb
      fun e' k hlink' hk hq => ?_
    obtain rfl : e = e' := Option.some.inj (hlink.symm.trans hlink')
    rw [hnode, hother, Seat.nodeAt_eq_some] at hk
    obtain ⟨hhub, rfl⟩ := hk
    exact hne ⟨hhub, Option.some.inj (hq.symm.trans (hr hhub).peerOf)⟩

end Visits

/-! ### The CONNECT_IND -/

section Connection

variable [DecidableEq ι]

/-- What the connection that message `c`, CONNECT_IND `ind`, sets up between `x` and `y` asks of a
move: no other CONNECT_IND carries its Access Address, and where this one comes the table has room
and the address of the advertiser is known only where `y` is, as that of `y`. -/
structure Carries (x y : Seat ι) (c : ℕ) (ind : Frame) (m : Mesh ι) (mv : Move ι) : Prop where
  spares : m.about mv ≠ some c → ∀ e ∈ m.turn mv, ∀ a ∈ did (m.hub e.1) e.2,
    Router.Spares (indAA ind.pdu) a
  room : m.about mv = some c → ∀ e ∈ m.turn mv, ∃ i < MAX_CONNS,
    ((m.hub e.1).conns i).active = false
  learned : m.about mv = some c → ∀ e ∈ m.turn mv,
    e.2.findNodeByAddr (indAdvA ind.pdu) = y.nodeAt e.1

/-- A move on reliable FIFO bridges in which both ends keep their peers. -/
structure Undisturbed (x y : Seat ι) (c : ℕ) (ind : Frame) (m : Mesh ι) (mv : Move ι) : Prop where
  orderly : m.Orderly mv
  initiator : x.Kept m mv
  advertiser : y.Kept m mv
  carries : Carries x y c ind m mv

/-- The CONNECT_IND of `x` is under way, and where it has been the connection is recorded. -/
structure Joint {far : ι → ℕ → Option (ι × ℕ)} {x : Seat ι} (R : Rooted far x.hub) (y : Seat ι)
    (c : ℕ)
    (ind : Frame) (m : Mesh ι) : Prop where
  afloat : Afloat R x.slot ind c m
  link : ∀ {j}, (c, j) ∈ m.flood.visits →
    (m.hub j).router.link (indAA ind.pdu) = some (ends x y j)
  initiator : x.Taken m
  advertiser : y.Taken m

variable {x y : Seat ι} {c : ℕ} {ind : Frame} {m : Mesh ι} {mv : Move ι}

/-- No hub loses an end that it knows. -/
theorem Undisturbed.held (h : Undisturbed x y c ind m mv) (hx : x.Taken m) (hy : y.Taken m) {j : ι}
    {s : Hub} (hturn : m.turn mv = some (j, s)) :
    Held (m.hub j).router (did (m.hub j) s) (ends x y j) := by
  intro k hk
  rcases Ends.has_some.1 hk with hk | hk <;> obtain ⟨rfl, rfl⟩ := Seat.nodeAt_eq_some.1 hk
  · exact ⟨x.slot, hx, h.initiator _ hturn rfl⟩
  · exact ⟨y.slot, hy, h.advertiser _ hturn rfl⟩

/-- **A hub records the CONNECT_IND** when it gets it. -/
theorem Undisturbed.link (h : Undisturbed x y c ind m mv) (hn : m.Network) (hx : x.Taken m)
    (hy : y.Taken m) (habout : m.about mv = some c) (hadv : ind.hdr.llType = VBT_LL_ADV)
    (hind : Snoops ind.pdu) {j : ι} {src : ℕ} {t : UInt8} {kern : Kern}
    (hrel : Relaying (m.hub j) src ind t) (hnode : ((m.hub j).peers src).nodeIdx = x.nodeAt j)
    {s : Hub} (hs : (m.hub j).receive kern src (ind.withTtl t).payload = s)
    (hturn : m.turn mv = some (j, s)) : s.router.link (indAA ind.pdu) = some (ends x y j) := by
  have hlearned := h.carries.learned habout _ hturn
  have hheld := h.held hx hy hturn
  rw [ends, ← hnode] at hheld ⊢
  exact hrel.link (hn.sound j) hadv hind (h.carries.room habout _ hturn) hs hlearned hheld

namespace Joint

variable {far : ι → ℕ → Option (ι × ℕ)} {R : Rooted far x.hub}

/-- `x` sends the CONNECT_IND. -/
theorem send {kern : Kern} (R : Rooted m.far x.hub) (hn : m.Network) (hind : ind.Valid)
    (hadv : ind.hdr.llType = VBT_LL_ADV) (hsnoop : Snoops ind.pdu) (hx : x.Taken m) (hy : y.Taken m)
    (h : Undisturbed x y m.next ind m (.send x.hub x.slot ind.payload kern)) :
    Joint R y m.next ind (m.step (.send x.hub x.slot ind.payload kern)) := by
  have hfloods : ind.Floods := ⟨hind, Or.inl hadv⟩
  have hloc := hx.not_bridge (hn.sound x.hub).disciplined
  obtain ⟨hturn, -, ht⟩ := h.orderly.turns_send hn.joined hx.isOpen
  refine ⟨Afloat.send R hn hfloods hx.isOpen hloc h.orderly, fun {j} hj => ?_,
    h.orderly.bound hn h.initiator hx, h.orderly.bound hn h.advertiser hy⟩
  obtain ⟨v, hv, hid, rfl⟩ := mem_flood_visits.1 hj
  rw [ht.visits] at hv
  rcases List.mem_append.1 hv with hold | hlast
  · exact absurd hid (hn.joined.visits_lt v hold).ne
  · rw [List.mem_singleton.1 hlast]
    show ((m.step _).hub x.hub).router.link _ = some (ends x y x.hub)
    rw [h.orderly.hub_turn hn.joined hturn]
    have hrel : Relaying (m.hub x.hub) x.slot ind ind.hdr.flags.b3 :=
      ⟨hfloods, hx.isOpen, fun hc => by simp [hloc] at hc⟩
    exact h.link hn hx hy rfl hadv hsnoop hrel (hx.nodeOf.trans (if_pos rfl).symm)
      (by rw [ind.withTtl_self]) hturn

theorem step (hj : Joint R y c ind m) (hn : m.Network) (hind : ind.Floods)
    (hdepth : ∀ v, R.depth v ≤ 8)
    (hadv : ind.hdr.llType = VBT_LL_ADV) (hsnoop : Snoops ind.pdu) (hc : c < m.next)
    (h : Undisturbed x y c ind m mv) : Joint R y c ind (m.step mv) := by
  refine ⟨hj.afloat.step hn hind hdepth hc h.orderly, fun {j} hmem => ?_,
    h.orderly.bound hn h.initiator hj.initiator, h.orderly.bound hn h.advertiser hj.advertiser⟩
  obtain ⟨v, hv, hid, rfl⟩ := mem_flood_visits.1 hmem
  rcases h.orderly.mem_visits hn.joined hc hv hid with hold | ⟨z, hz, hzid, habout, kern, hturn,
    rfl⟩
  · -- the hub has the connection on record, and what it does now is not about the CONNECT_IND
    have hlink := hj.link (mem_flood_visits.2 ⟨v, hold, hid, rfl⟩)
    rcases h.orderly.hub_cases hn.joined v.hub with hsame | hturn
    · rw [hsame]
      exact hlink
    · have hother : m.about mv ≠ some c := fun habout => by
        obtain ⟨z, hz, hzid, hdst⟩ := mem_flight_of_about hc habout hturn
        obtain ⟨hnot, -⟩ := hj.afloat.covers.of_mem (List.mem_map_of_mem (f := token) hz) hzid
        exact hnot (mem_flood_visits.2 ⟨v, hold, hid, hdst.symm⟩)
      exact (hn.continues hturn).route (hn.sound v.hub).tracked (h.orderly.reliable hturn).hello
        (h.held hj.initiator hj.advertiser hturn) (h.carries.spares hother _ hturn) hlink
  · obtain ⟨t, ht, hpay, hne⟩ := hj.afloat.alive hind hdepth hz hzid
    have hopen := hn.joined.packet z hz
    have hrel : Relaying (m.hub z.dst) z.slot ind t := ⟨hind, hopen.isOpen, fun _ => ht⟩
    have hnode := ((hn.sound z.dst).disciplined.bridge z.slot hopen.isBridge).1
    show ((m.step mv).hub z.dst).router.link _ = some (ends x y z.dst)
    rw [h.orderly.hub_turn hn.joined hturn]
    exact h.link hn hj.initiator hj.advertiser habout hadv hsnoop hrel
      (hnode.trans (if_neg hne).symm) (congrArg ((m.hub z.dst).receive kern z.slot) hpay.symm) hturn

end Joint

/-- Behind the CONNECT_IND, message `c`, a data frame of `s`, message `d`, is under way; the hubs
where it has been had the connection on record. -/
structure Following {far : ι → ℕ → Option (ι × ℕ)} {x s : Seat ι} (R : Rooted far x.hub)
    (R' : Rooted far s.hub) (y : Seat ι) (c d : ℕ) (ind f : Frame) (m : Mesh ι) : Prop where
  joint : Joint R y c ind m
  afloat : Afloat R' s.slot f d m
  trails : Flood.Trails c d m.flood
  wired : ∀ v ∈ m.visits, v.id = d → v.before.router.link (indAA ind.pdu) = some (ends x y v.hub)

namespace Following

variable {far : ι → ℕ → Option (ι × ℕ)} {s : Seat ι} {R : Rooted far x.hub} {R' : Rooted far s.hub}
  {d : ℕ} {f : Frame}

/-- One end sends a data frame, after the CONNECT_IND came to its hub. -/
theorem send {kern : Kern} (hj : Joint R y c ind m) (R' : Rooted far s.hub) (hn : m.Network)
    (hf : f.Floods) (hs : s.Taken m) (hseen : (c, s.hub) ∈ m.flood.visits)
    (hnext : Joint R y c ind (m.step (.send s.hub s.slot f.payload kern)))
    (h : m.Orderly (.send s.hub s.slot f.payload kern)) :
    Following R R' y c m.next ind f (m.step (.send s.hub s.slot f.payload kern)) := by
  obtain rfl := hj.afloat.far
  have hloc := hs.not_bridge (hn.sound s.hub).disciplined
  obtain ⟨-, -, ht⟩ := h.turns_send hn.joined hs.isOpen
  refine ⟨hnext, Afloat.send R' hn hf hs.isOpen hloc h, ?_, fun v hv hid => ?_⟩
  · obtain ⟨out, hout, hflood⟩ := flood_send hn hf hs.isOpen hloc h
    rw [hflood]
    refine .start hj.afloat.covers hseen (fun z hz => ?_) (fun z hz => ?_) hout
    · obtain ⟨x, hx, rfl⟩ := List.mem_map.1 hz
      exact (hn.joined.flight_lt x hx).ne
    · obtain ⟨v, hv, rfl⟩ := List.mem_map.1 hz
      exact (hn.joined.visits_lt v hv).ne
  · rw [ht.visits] at hv
    rcases List.mem_append.1 hv with hold | hlast
    · exact absurd hid (hn.joined.visits_lt v hold).ne
    · rw [List.mem_singleton.1 hlast]
      exact hj.link hseen

theorem step (hj : Following R R' y c d ind f m) (hn : m.Network) (hind : ind.Floods)
    (hf : f.Floods)
    (hdepth : ∀ v, R.depth v ≤ 8) (hdepth' : ∀ v, R'.depth v ≤ 8)
    (hadv : ind.hdr.llType = VBT_LL_ADV)
    (hsnoop : Snoops ind.pdu) (hcd : c < d) (hd : d < m.next) (h : Undisturbed x y c ind m mv) :
    Following R R' y c d ind f (m.step mv) := by
  obtain rfl := hj.joint.afloat.far
  have hc : c < m.next := hcd.trans hd
  have hflooded : m.Flooded fun j => decide (j = c ∨ j = d) := by
    intro z hz hid
    rcases of_decide_eq_true hid with hid | hid
    · exact hj.joint.afloat.flooded hind hdepth z hz (by simpa using hid)
    · exact hj.afloat.flooded hf hdepth' z hz (by simpa using hid)
  have htrails : Flood.Trails c d (m.step mv).flood :=
    hj.trails.step hj.joint.afloat.covers hj.afloat.covers hcd.ne
      (T := fun j => decide (j = c ∨ j = d)) (by simp) (by simp)
      (flood_step hn h.orderly (by simp; omega) hflooded)
  refine ⟨hj.joint.step hn hind hdepth hadv hsnoop hc h, hj.afloat.step hn hf hdepth' hd h.orderly,
    htrails, fun v hv hid => ?_⟩
  rcases h.orderly.mem_visits hn.joined hd hv hid with hold | ⟨z, hz, hzid, habout, kern, hturn,
    rfl⟩
  · exact hj.wired v hold hid
  · -- the CONNECT_IND has been here, and before this move
    obtain ⟨v', hv', hid', hhub⟩ := mem_flood_visits.1 (htrails.seen (mem_flood_visits.2 ⟨_, hv, hid, rfl⟩))
    refine hj.joint.link (mem_flood_visits.2 ⟨v', ?_, hid', hhub⟩)
    rcases h.orderly.mem_visits hn.joined hc hv' hid' with hold | ⟨-, -, -, habout', -⟩
    · exact hold
    · exact absurd (Option.some.inj (habout'.symm.trans habout)) hcd.ne

end Following

/-! ### The connection -/

theorem Joint.run {kern : Kern} {mvs : List (Move ι)} (R : Rooted m.far x.hub) (hn : m.Network)
    (hind : ind.Valid) (hdepth : ∀ v, R.depth v ≤ 8) (hadv : ind.hdr.llType = VBT_LL_ADV)
    (hsnoop : Snoops ind.pdu) (hx : x.Taken m) (hy : y.Taken m)
    (h : Each (Undisturbed x y m.next ind) m (.send x.hub x.slot ind.payload kern :: mvs))
    {m' : Mesh ι}
    (hm' : m.run (.send x.hub x.slot ind.payload kern :: mvs) = m') :
    m'.Network ∧ m.next < m'.next ∧ Joint R y m.next ind m' := by
  subst hm'
  have hrun := Each.run (I := fun m' => m'.Network ∧ m.next < m'.next ∧ Joint R y m.next ind m')
    (fun {m' mv} hi hmv => ⟨hi.1.step hmv.orderly, hi.2.1.trans_le (next_le_step m' mv),
      hi.2.2.step hi.1 ⟨hind, Or.inl hadv⟩ hdepth hadv hsnoop hi.2.1 hmv⟩) h.2
    ⟨hn.step h.1.orderly, next_lt_send m _ _ _ kern, Joint.send R hn hind hadv hsnoop hx hy h.1⟩
  exact hrun

theorem Following.run {far : ι → ℕ → Option (ι × ℕ)} {R : Rooted far x.hub} {s : Seat ι}
    (R' : Rooted far s.hub) {f : Frame} {kern : Kern} {mvs : List (Move ι)} (hj : Joint R y c ind m)
    (hn : m.Network) (hind : ind.Floods) (hf : f.Floods) (hdepth : ∀ v, R.depth v ≤ 8)
    (hdepth' : ∀ v, R'.depth v ≤ 8) (hadv : ind.hdr.llType = VBT_LL_ADV) (hsnoop : Snoops ind.pdu)
    (hc : c < m.next) (hs : s.Taken m) (hseen : (c, s.hub) ∈ m.flood.visits)
    (h : Each (Undisturbed x y c ind) m (.send s.hub s.slot f.payload kern :: mvs)) {m' : Mesh ι}
    (hm' : m.run (.send s.hub s.slot f.payload kern :: mvs) = m') :
    m'.Network ∧ Following R R' y c m.next ind f m' := by
  subst hm'
  have hnext := hj.step hn hind hdepth hadv hsnoop hc h.1
  have hrun := Each.run
    (I := fun m' => m'.Network ∧ m.next < m'.next ∧ Following R R' y c m.next ind f m')
    (fun {m' mv} hi hmv => ⟨hi.1.step hmv.orderly, hi.2.1.trans_le (next_le_step m' mv),
      hi.2.2.step hi.1 hind hf hdepth hdepth' hadv hsnoop hc hi.2.1 hmv⟩) h.2
    ⟨hn.step h.1.orderly, next_lt_send m _ _ _ kern,
      Following.send hj R' hn hf hs hseen hnext h.1.orderly⟩
  exact ⟨hrun.1, hrun.2.2⟩

instance (x y : Seat ι) (c : ℕ) (ind : Frame) (m : Mesh ι) (mv : Move ι) :
    Decidable (Carries x y c ind m mv) :=
  decidable_of_iff
    ((m.about mv ≠ some c → ∀ e ∈ m.turn mv, ∀ a ∈ did (m.hub e.1) e.2,
        Router.Spares (indAA ind.pdu) a) ∧
      (m.about mv = some c → ∀ e ∈ m.turn mv, ∃ i < MAX_CONNS,
        ((m.hub e.1).conns i).active = false) ∧
      (m.about mv = some c → ∀ e ∈ m.turn mv,
        e.2.findNodeByAddr (indAdvA ind.pdu) = y.nodeAt e.1))
    ⟨fun h => ⟨h.1, h.2.1, h.2.2⟩, fun h => ⟨h.spares, h.room, h.learned⟩⟩

instance (s : Seat ι) (m : Mesh ι) (mv : Move ι) : Decidable (s.Kept m mv) :=
  inferInstanceAs (Decidable (Stays _ _ _ m mv))

/-- A hub that has heard its node. -/
def heardHub : Hub :=
  ringHub.run (sends 2 (plainFrame VBT_LL_ADV VBT_ADV_ACCESS_ADDR (addr 2) [0, 6, 2, 0, 0, 0, 0, 0]).payload)

/-- The line, in which the hub in the east has heard its node. -/
def paired : Mesh Site := { line with hub := fun i => if i = .east then heardHub else ringHub }

/-- The nodes at the two ends of the line. -/
def firstSeat : Seat Site := ⟨.west, 2, 0⟩

@[inherit_doc firstSeat]
def lastSeat : Seat Site := ⟨.east, 2, 0⟩

/-- The CONNECT_IND travels down the line. -/
def calling : List (Move Site) :=
  [.send .west 2 linkInd.payload Kern.quiet, .deliver 0 Kern.quiet, .deliver 0 Kern.quiet]

/-- An answer travels back. -/
def answering : List (Move Site) :=
  [.send .east 2 dataFrame.payload Kern.quiet, .deliver 0 Kern.quiet, .deliver 0 Kern.quiet]

theorem paired_network : paired.Network := by
  have hheard : heardHub.Sound := ringHub_sound.run (by decide) (by decide +kernel)
  refine line_network_of (fun i => ?_) fun i => ?_
  · show (if i = .east then heardHub else ringHub).Sound
    split_ifs
    · exact hheard
    · exact ringHub_sound
  · show (if i = .east then heardHub else ringHub).OpenBridge 0 ∧
      (if i = .east then heardHub else ringHub).OpenBridge 1
    split_ifs
    all_goals exact ⟨⟨by decide +kernel, by decide +kernel, by decide +kernel⟩,
      ⟨by decide +kernel, by decide +kernel, by decide +kernel⟩⟩

end Connection

end Mesh
end Vbt
