import Vbt.Hub.Overrides

/-!
# Links have no direction

Two hubs that differ in the order of the ends in some entries of the override table, and in the
answers on the control socket, do the same. So it does not matter in which order a command names the
two ends of a link.

* `Mirror`: the two hubs differ in nothing else;
* `Mirror.propagate`, and one lemma for each operation of the hub;
* `Turned`: the same events but for the order of the ends in some commands; `Mirror.run`;
* `override_map`: the override table is a symmetric map.
-/

namespace Vbt

/-- The entry with its ends in the other order. -/
def LinkOverride.swap (o : LinkOverride) : LinkOverride := { o with a := o.b, b := o.a }

/-- The action is no answer on the control socket. -/
def Act.isDeed : Act → Bool
  | .reply _ => false
  | _ => true

namespace Hub

/-- The tables differ in the order of the ends of some entries. -/
def Mirrored (t t' : Slots LinkOverride) : Prop :=
  t'.size = t.size ∧ ∀ i, t' i = t i ∨ t' i = (t i).swap

/-- The hubs differ in the order of the ends of some overrides, and in the answers they gave. -/
def Mirror (s t : Hub) : Prop :=
  ∃ overrides log, t = { s with overrides, log } ∧ Mirrored s.overrides overrides ∧
    log.filter Act.isDeed = s.log.filter Act.isDeed

namespace Mirrored

variable {t t' : Slots LinkOverride}

theorem refl (t : Slots LinkOverride) : Mirrored t t := ⟨rfl, fun _ => .inl rfl⟩

theorem used (h : Mirrored t t') (i : ℕ) : (t' i).used = (t i).used := by
  rcases h.2 i with hi | hi
  · rw [hi]
  · rw [hi]
    rfl

theorem pair (h : Mirrored t t') (i : ℕ) : (t' i).pair = (t i).pair := by
  rcases h.2 i with hi | hi
  · rw [hi]
  · rw [hi]
    exact Sym2.eq_swap

theorem lookup (h : Mirrored t t') (e : Sym2 NodeId) :
    t'.lookup LinkOverride.used LinkOverride.pair e =
      t.lookup LinkOverride.used LinkOverride.pair e := by
  refine Slots.find?_congr h.1 fun i _ => ?_
  rw [h.used i, h.pair i]

theorem set (h : Mirrored t t') (i : ℕ) {o o' : LinkOverride} (ho : o' = o ∨ o' = o.swap) :
    Mirrored (t.set i o) (t'.set i o') := by
  refine ⟨h.1, fun j => ?_⟩
  rw [Slots.set_apply, Slots.set_apply]
  split_ifs
  · exact ho
  · exact h.2 j

theorem modify (h : Mirrored t t') (i : ℕ) {f : LinkOverride → LinkOverride}
    (hf : ∀ o, f o.swap = (f o).swap) : Mirrored (t.modify i f) (t'.modify i f) := by
  refine h.set i ?_
  rcases h.2 i with hi | hi
  · exact .inl (by rw [hi])
  · exact .inr (by rw [hi, hf])

/-- The tables give the same slot to a new entry. -/
theorem alloc (h : Mirrored t t') (cap : ℕ) {o o' : LinkOverride} (ho : o' = o ∨ o' = o.swap) :
    (t.alloc cap (fun x => !x.used) o = none ∧ t'.alloc cap (fun x => !x.used) o' = none) ∨
      ∃ i u u', t.alloc cap (fun x => !x.used) o = some (i, u) ∧
        t'.alloc cap (fun x => !x.used) o' = some (i, u') ∧ Mirrored u u' := by
  have hfind : t'.find? (fun x => !x.used) = t.find? fun x => !x.used :=
    Slots.find?_congr h.1 fun i _ => by rw [h.used i]
  unfold Slots.alloc
  rw [hfind, h.1]
  cases t.find? fun x => !x.used with
  | some i => exact .inr ⟨i, _, _, rfl, rfl, h.set i ho⟩
  | none =>
    dsimp only
    split_ifs
    · refine .inr ⟨_, _, _, rfl, rfl, ?_⟩
      exact ⟨rfl, (h.set t.size ho).2⟩
    · exact .inl ⟨rfl, rfl⟩

end Mirrored

namespace Mirror

variable {s t : Hub}

theorem refl (s : Hub) : Mirror s s := ⟨s.overrides, s.log, rfl, .refl _, rfl⟩

theorem peers (h : Mirror s t) : t.peers = s.peers := by
  obtain ⟨_, _, rfl, -⟩ := h
  rfl

theorem nodes (h : Mirror s t) : t.nodes = s.nodes := by
  obtain ⟨_, _, rfl, -⟩ := h
  rfl

theorem conns (h : Mirror s t) : t.conns = s.conns := by
  obtain ⟨_, _, rfl, -⟩ := h
  rfl

theorem kern (h : Mirror s t) : t.kern = s.kern := by
  obtain ⟨_, _, rfl, -⟩ := h
  rfl

theorem table (h : Mirror s t) : Mirrored s.overrides t.overrides := by
  obtain ⟨_, _, rfl, ht, -⟩ := h
  exact ht

/-- An update that touches neither the overrides nor the log. -/
theorem update (h : Mirror s t) {f : Hub → Hub}
    (hf : ∀ (s : Hub) overrides log, f { s with overrides, log } = { f s with overrides, log })
    (ho : (f s).overrides = s.overrides) (hl : (f s).log = s.log) : Mirror (f s) (f t) := by
  obtain ⟨overrides, log, rfl, ht, hlog⟩ := h
  exact ⟨overrides, log, hf s overrides log, by rwa [ho], by rwa [hl]⟩

theorem note (h : Mirror s t) (a : Act) : Mirror (s.note a) (t.note a) := by
  obtain ⟨overrides, log, rfl, ht, hl⟩ := h
  refine ⟨overrides, a :: log, rfl, ht, ?_⟩
  show (a :: log).filter Act.isDeed = (a :: s.log).filter Act.isDeed
  rw [List.filter_cons, List.filter_cons, hl]

theorem answer (h : Mirror s t) (r r' : CtlReply) :
    Mirror (s.note (.reply r)) (t.note (.reply r')) := by
  obtain ⟨overrides, log, rfl, ht, hl⟩ := h
  exact ⟨overrides, .reply r' :: log, rfl, ht, hl⟩

theorem modPeer (h : Mirror s t) (i : ℕ) (f : Peer → Peer) :
    Mirror (s.modPeer i f) (t.modPeer i f) :=
  h.update (f := fun s => s.modPeer i f) (fun _ _ _ => rfl) rfl rfl

theorem modNode (h : Mirror s t) (k : ℕ) (f : Node → Node) :
    Mirror (s.modNode k f) (t.modNode k f) :=
  h.update (f := fun s => s.modNode k f) (fun _ _ _ => rfl) rfl rfl

theorem modConn (h : Mirror s t) (c : ℕ) (f : Conn → Conn) :
    Mirror (s.modConn c f) (t.modConn c f) :=
  h.update (f := fun s => s.modConn c f) (fun _ _ _ => rfl) rfl rfl

theorem modStats (h : Mirror s t) (f : Stats → Stats) : Mirror (s.modStats f) (t.modStats f) :=
  h.update (f := fun s => s.modStats f) (fun _ _ _ => rfl) rfl rfl

theorem setKern (h : Mirror s t) (kern : Kern) : Mirror { s with kern } { t with kern } :=
  h.update (f := fun s => { s with kern }) (fun _ _ _ => rfl) rfl rfl

theorem setWrites (h : Mirror s t) (idx : ℕ) (ws : List WriteRes) :
    Mirror (s.setWrites idx ws) (t.setWrites idx ws) :=
  h.update (f := fun s => s.setWrites idx ws) (fun _ _ _ => rfl) rfl rfl

/-! ### Sockets -/

theorem peerClose (h : Mirror s t) (idx : ℕ) : Mirror (s.peerClose idx) (t.peerClose idx) := by
  obtain ⟨overrides, log, rfl, ht, hl⟩ := h
  simp only [Hub.peerClose]
  split_ifs
  · exact ⟨overrides, log, rfl, ht, hl⟩
  · refine Mirror.note ?_ (.closed idx)
    cases (s.peers idx).nodeIdx with
    | none => exact ⟨overrides, log, rfl, ht, hl⟩
    | some k => exact ⟨overrides, log, rfl, ht, hl⟩

theorem bufferRest (h : Mirror s t) (idx : ℕ) (data : List UInt8) :
    Mirror (s.bufferRest idx data).1 (t.bufferRest idx data).1 ∧
      (t.bufferRest idx data).2 = (s.bufferRest idx data).2 := by
  simp only [Hub.bufferRest, h.peers, h.kern]
  split_ifs
  · exact ⟨h.peerClose idx, rfl⟩
  · exact ⟨((h.modPeer idx _).modStats _).note _, rfl⟩
  · exact ⟨h.modPeer idx _, rfl⟩

theorem peerSend (h : Mirror s t) (idx : ℕ) (data : List UInt8) :
    Mirror (s.peerSend idx data).1 (t.peerSend idx data).1 ∧
      (t.peerSend idx data).2 = (s.peerSend idx data).2 := by
  simp only [Hub.peerSend, h.peers, h.kern]
  split_ifs
  · exact ⟨h, rfl⟩
  · obtain ⟨off, ending, ws⟩ := writeLoop data.length 0 (s.kern.write idx)
    have hw := (h.setWrites idx ws).note (.wrote idx (data.take off))
    cases ending with
    | finished => exact ⟨hw, rfl⟩
    | blocked => exact hw.bufferRest idx _
    | failed => exact ⟨hw.peerClose idx, rfl⟩
  · exact h.bufferRest idx data

theorem peerFlush (h : Mirror s t) (idx : ℕ) : Mirror (s.peerFlush idx) (t.peerFlush idx) := by
  simp only [Hub.peerFlush, h.peers, h.kern]
  split_ifs
  · exact h.modPeer idx _
  · obtain ⟨off, ending, ws⟩ := writeLoop ((s.peers idx).outbuf.getD []).length 0 (s.kern.write idx)
    have hw := (h.setWrites idx ws).note (.wrote idx (((s.peers idx).outbuf.getD []).take off))
    cases ending with
    | finished => exact hw.modPeer idx _
    | blocked => exact hw.modPeer idx _
    | failed => exact hw.peerClose idx

/-! ### Forwarding -/

/-- **The order of the ends does not matter to `propagate`.** -/
theorem propagate (h : Mirror s t) (tx : Option Node) (rx : Node) (p r : Int8) :
    t.propagate tx rx p r = s.propagate tx rx p r := by
  have hfind : ∀ a b, t.findOverride a b = s.findOverride a b := fun a b => by
    rw [findOverride_eq_lookup, findOverride_eq_lookup, h.table.lookup]
  have hrest : ∀ i, (t.overrides i).lossSet = (s.overrides i).lossSet ∧
      (t.overrides i).lossProb = (s.overrides i).lossProb ∧
      (t.overrides i).rssiSet = (s.overrides i).rssiSet ∧
      (t.overrides i).rssiDbm = (s.overrides i).rssiDbm := by
    intro i
    rcases h.table.2 i with hi | hi <;> rw [hi] <;> exact ⟨rfl, rfl, rfl, rfl⟩
  have hpath : ∀ kern tx rx p out, t.pathModel kern tx rx p out = s.pathModel kern tx rx p out := by
    obtain ⟨_, _, rfl, -⟩ := h
    exact fun _ _ _ _ _ => rfl
  cases tx with
  | none => simp only [Hub.propagate, h.kern]
  | some tx =>
    simp only [Hub.propagate, h.kern, hfind, hpath]
    cases s.findOverride tx.nodeId rx.nodeId with
    | none => rfl
    | some i => simp only [hrest i]

theorem deliverToPeer (h : Mirror s t) (dst : ℕ) (hdr : VbtFrameHdr) (pdu : List UInt8) (rssi : ℤ) :
    Mirror (s.deliverToPeer dst hdr pdu rssi) (t.deliverToPeer dst hdr pdu rssi) := by
  simp only [Hub.deliverToPeer]
  obtain ⟨hs, hok⟩ := (h.note (.hand dst ⟨{ hdr with rssi := Int8.ofInt rssi }, pdu⟩)).peerSend dst
    (wire (Frame.payload ⟨{ hdr with rssi := Int8.ofInt rssi }, pdu⟩))
  generalize (s.note (.hand dst ⟨{ hdr with rssi := Int8.ofInt rssi }, pdu⟩)).peerSend dst
    (wire (Frame.payload ⟨{ hdr with rssi := Int8.ofInt rssi }, pdu⟩)) = r at hs hok ⊢
  generalize (t.note (.hand dst ⟨{ hdr with rssi := Int8.ofInt rssi }, pdu⟩)).peerSend dst
    (wire (Frame.payload ⟨{ hdr with rssi := Int8.ofInt rssi }, pdu⟩)) = r' at hs hok ⊢
  obtain ⟨s', ok⟩ := r
  obtain ⟨t', ok'⟩ := r'
  dsimp only at hs hok
  subst hok
  cases ok' with
  | false => exact hs
  | true =>
    simp only [hs.peers]
    cases (s'.peers dst).nodeIdx with
    | none => exact hs
    | some k => exact hs.modNode k _

theorem fold {α : Type} (h : Mirror s t) {f g : Hub → α → Hub}
    (hfg : ∀ {s t : Hub}, Mirror s t → ∀ i, Mirror (f s i) (g t i)) (l : List α) :
    Mirror (l.foldl f s) (l.foldl g t) := by
  induction l generalizing s t with
  | nil => exact h
  | cons i l ih => exact ih (hfg h i)

theorem sweep (h : Mirror s t) (sel : Peer → Bool) (src : ℕ) (hdr : VbtFrameHdr)
    (pdu : List UInt8) :
    Mirror (s.sweep sel src hdr pdu) (t.sweep sel src hdr pdu) := by
  unfold Hub.sweep
  rw [h.peers]
  refine h.fold (fun {s t} h i => ?_) _
  rw [h.peers]
  split_ifs
  · exact h.deliverToPeer i hdr pdu _
  · exact h

theorem deliverHeard (h : Mirror s t) (node : Option ℕ) (k dst : ℕ) (hdr : VbtFrameHdr)
    (pdu : List UInt8) :
    Mirror (s.deliverHeard node k dst hdr pdu) (t.deliverHeard node k dst hdr pdu) := by
  have hheard : t.propagate (node.map t.nodes) (t.nodes k) hdr.txPowerDbm hdr.rssi =
      s.propagate (node.map s.nodes) (s.nodes k) hdr.txPowerDbm hdr.rssi := by
    rw [h.propagate, h.nodes]
  unfold Hub.deliverHeard
  rw [hheard]
  generalize s.propagate (node.map s.nodes) (s.nodes k) hdr.txPowerDbm hdr.rssi = heard
  dsimp only
  split_ifs
  · exact (h.setKern heard.kern).deliverToPeer dst hdr pdu heard.rssi
  · have hcount := (h.setKern heard.kern).modNode k
      fun nd => { nd with rxDropped := nd.rxDropped + 1 }
    exact hcount.modStats fun st => { st with droppedModel := st.droppedModel + 1 }

theorem fanOutOne (h : Mirror s t) (src : ℕ) (node : Option ℕ) (hdr : VbtFrameHdr)
    (pdu : List UInt8)
    (i : ℕ) : Mirror (s.fanOutOne src node hdr pdu i) (t.fanOutOne src node hdr pdu i) := by
  simp only [Hub.fanOutOne, h.peers]
  split_ifs
  · exact h
  · exact h.deliverToPeer i hdr pdu _
  · cases (s.peers i).nodeIdx with
    | none => exact h
    | some k => exact h.deliverHeard node k i hdr pdu

theorem learnTx (h : Mirror s t) (node : Option ℕ) (hdr : VbtFrameHdr) :
    Mirror (s.learnTx node hdr) (t.learnTx node hdr) := by
  cases node with
  | none => exact h
  | some k =>
    have hm := h.modNode k fun nd => { nd with
      txPdus := nd.txPdus + 1, lastChannel := hdr.channel, lastPhy := hdr.phy }
    simp only [Hub.learnTx]
    generalize (s.modNode k fun nd => { nd with
      txPdus := nd.txPdus + 1, lastChannel := hdr.channel, lastPhy := hdr.phy }) = s' at hm
    generalize (t.modNode k fun nd => { nd with
      txPdus := nd.txPdus + 1, lastChannel := hdr.channel, lastPhy := hdr.phy }) = t' at hm
    obtain ⟨overrides, log, rfl, ht, hl⟩ := hm
    simp only [Hub.nodeAddAddr]
    split_ifs <;> exact ⟨overrides, log, rfl, ht, hl⟩

theorem observeConnectInd (h : Mirror s t) (node : Option ℕ) (pdu : List UInt8) :
    Mirror (s.observeConnectInd node pdu) (t.observeConnectInd node pdu) := by
  obtain ⟨overrides, log, rfl, ht, hl⟩ := h
  have hfind : ({ s with overrides, log } : Hub).findNodeByAddr (indAdvA pdu) =
      s.findNodeByAddr (indAdvA pdu) := rfl
  have hentry : ({ s with overrides, log } : Hub).connEntry (indAA pdu) =
      ({ (s.connEntry (indAA pdu)).1 with overrides, log }, (s.connEntry (indAA pdu)).2) ∧
      (s.connEntry (indAA pdu)).1.overrides = s.overrides ∧
      (s.connEntry (indAA pdu)).1.log = s.log := by
    have hconn : ({ s with overrides, log } : Hub).findConn (indAA pdu) = s.findConn (indAA pdu) :=
      rfl
    simp only [connEntry, hconn]
    cases s.findConn (indAA pdu) with
    | some c => exact ⟨rfl, rfl, rfl⟩
    | none =>
      simp only [connAlloc]
      cases s.conns.alloc MAX_CONNS (fun c => !c.active)
          { accessAddr := indAA pdu, active := true } with
      | none => exact ⟨rfl, rfl, rfl⟩
      | some r => exact ⟨rfl, rfl, rfl⟩
  obtain ⟨heq, ho, hlog⟩ := hentry
  simp only [Hub.observeConnectInd, hfind, heq]
  split_ifs
  · exact ⟨overrides, log, rfl, ht, hl⟩
  · exact ⟨overrides, log, rfl, ht, hl⟩
  · generalize s.connEntry (indAA pdu) = r at ho hlog
    obtain ⟨s', slot⟩ := r
    dsimp only at ho hlog
    have hm : Mirror s' { s' with overrides, log } :=
      ⟨overrides, log, rfl, by rwa [ho], by rwa [hlog]⟩
    cases slot with
    | none => exact hm.note _
    | some c => exact (hm.modConn c _).note _

theorem forwardAdv (h : Mirror s t) (src : ℕ) (node : Option ℕ) (hdr : VbtFrameHdr)
    (pdu : List UInt8) :
    Mirror (s.forwardAdv src node hdr pdu) (t.forwardAdv src node hdr pdu) := by
  have hsnoop : Mirror (s.snooped node pdu) (t.snooped node pdu) := by
    unfold snooped
    split_ifs
    · exact h.observeConnectInd node pdu
    · exact h
  have hfan : Mirror ((s.snooped node pdu).fanOut src node hdr pdu)
      ((t.snooped node pdu).fanOut src node hdr pdu) := by
    unfold Hub.fanOut
    rw [hsnoop.peers]
    exact hsnoop.fold (fun h i => h.fanOutOne src node hdr pdu i) _
  exact hfan.modStats fun st => { st with advForwarded := st.advForwarded + 1 }

theorem routeTo (h : Mirror s t) (node other : Option ℕ) (hdr : VbtFrameHdr) (pdu : List UInt8) :
    Mirror (s.routeTo node other hdr pdu) (t.routeTo node other hdr pdu) := by
  cases other with
  | none => exact h
  | some o =>
    simp only [Hub.routeTo, h.nodes]
    split_ifs
    · exact h
    · cases (s.nodes o).peerIdx with
      | none => exact h
      | some dst => exact h.deliverHeard node o dst hdr pdu

theorem forwardData (h : Mirror s t) (src : ℕ) (node : Option ℕ) (hdr : VbtFrameHdr)
    (pdu : List UInt8) :
    Mirror (s.forwardData src node hdr pdu) (t.forwardData src node hdr pdu) := by
  have hconn : t.findConn hdr.accessAddr = s.findConn hdr.accessAddr := by
    unfold findConn
    rw [h.conns]
  simp only [Hub.forwardData, hconn, h.conns]
  cases s.findConn hdr.accessAddr with
  | none => exact h.sweep Peer.isBridge src hdr pdu
  | some c =>
    exact (((h.modConn c _).routeTo node _ hdr pdu).sweep Peer.isBridge src hdr pdu).modStats _

theorem forwardFrame (h : Mirror s t) (src : ℕ) (hdr : VbtFrameHdr) (pdu : List UInt8) :
    Mirror (s.forwardFrame src hdr pdu) (t.forwardFrame src hdr pdu) := by
  simp only [Hub.forwardFrame, h.peers]
  cases ttlStep (s.peers src).isBridge hdr with
  | none => exact h
  | some hdr' =>
    have htap := ((h.learnTx (s.peers src).nodeIdx hdr').note (.frame src hdr' pdu)).sweep
      Peer.isMonitor src hdr' pdu
    dsimp only
    split_ifs
    · exact htap.forwardAdv src _ hdr' pdu
    · exact htap.forwardData src _ hdr' pdu
    · exact htap

/-! ### Registration and the receive loop -/

theorem findNode (h : Mirror s t) (nid : NodeId) (create : Bool) :
    Mirror (s.findNode nid create).1 (t.findNode nid create).1 ∧
      (t.findNode nid create).2 = (s.findNode nid create).2 := by
  have hname : t.nodeByName nid = s.nodeByName nid := by
    unfold nodeByName
    rw [h.nodes]
  simp only [Hub.findNode, hname, h.nodes]
  cases s.nodeByName nid with
  | some k => exact ⟨h, rfl⟩
  | none =>
    dsimp only
    split_ifs
    · cases s.nodes.alloc MAX_NODES (fun nd => !nd.active) (newNode nid) with
      | none => exact ⟨h, rfl⟩
      | some r =>
        refine ⟨Mirror.note ?_ _, rfl⟩
        exact h.update (f := fun s => { s with nodes := r.2 }) (fun _ _ _ => rfl) rfl rfl
    · exact ⟨h, rfl⟩

theorem bindTables (h : Mirror s t) (p k : ℕ) (physical : Bool) :
    Mirror (s.bindTables p k physical) (t.bindTables p k physical) := by
  simp only [Hub.bindTables, h.nodes]
  refine Mirror.modPeer (Mirror.modNode ?_ k _) p _
  cases (s.nodes k).peerIdx with
  | none => exact h
  | some q =>
    dsimp only
    split_ifs
    · exact h.modPeer q _
    · exact h

theorem bindPeerNode (h : Mirror s t) (p : ℕ) (nid : NodeId) (physical : Bool) :
    Mirror (s.bindPeerNode p nid physical) (t.bindPeerNode p nid physical) := by
  obtain ⟨hs, hk⟩ := h.findNode nid true
  unfold Hub.bindPeerNode
  generalize s.findNode nid true = r at hs hk ⊢
  generalize t.findNode nid true = r' at hs hk ⊢
  obtain ⟨s', node⟩ := r
  obtain ⟨t', node'⟩ := r'
  dsimp only at hs hk
  subst hk
  cases node' with
  | none => exact hs.note _
  | some k => exact (hs.bindTables p k physical).note _

theorem takeHello (h : Mirror s t) (p : ℕ) (hello : Hello) :
    Mirror (s.takeHello p hello) (t.takeHello p hello) := by
  have key : ∀ {s t : Hub} (nid : NodeId), Mirror s t →
      Mirror (if hello.monitor then (s.modPeer p fun q => { q with isMonitor := true }).note
          (.hello p nid hello.physical true none) else s.bindPeerNode p nid hello.physical)
        (if hello.monitor then (t.modPeer p fun q => { q with isMonitor := true }).note
          (.hello p nid hello.physical true none) else t.bindPeerNode p nid hello.physical) := by
    intro s t nid h
    split_ifs
    · exact (h.modPeer p _).note _
    · exact h.bindPeerNode p nid hello.physical
  have hauto : t.nextAutoId = s.nextAutoId := by
    obtain ⟨_, _, rfl, -⟩ := h
    rfl
  unfold Hub.takeHello
  by_cases hnid : hello.nid = []
  · simp only [if_pos hnid, hauto]
    exact key _ (h.update (f := fun s' => { s' with nextAutoId := s.nextAutoId + 1 })
      (fun _ _ _ => rfl) rfl rfl)
  · simp only [if_neg hnid]
    exact key hello.nid h

theorem handleMessage (h : Mirror s t) (p : ℕ) (payload : List UInt8) :
    Mirror (s.handleMessage p payload) (t.handleMessage p payload) := by
  have hm := h.modPeer p fun q => { q with framesSeen := q.framesSeen + 1 }
  simp only [Hub.handleMessage, maybeHello]
  cases parseHello payload with
  | some hello => exact hm.takeHello p hello
  | none =>
    simp only [Option.map_none]
    cases frameOf payload with
    | some f => exact hm.forwardFrame p f.hdr f.pdu
    | none => exact hm

theorem peerReadableIter (h : Mirror s t) (p : ℕ) :
    Mirror (s.peerReadableIter p).1 (t.peerReadableIter p).1 := by
  have hmsg := fun payload => h.handleMessage p payload
  simp only [Hub.peerReadableIter, h.peers, (hmsg _).peers]
  split_ifs
  · exact h
  · exact h.peerClose p
  · exact h
  · exact (hmsg _).note _
  · exact (hmsg _).modPeer p _

theorem recvBytes (h : Mirror s t) (p : ℕ) (r : ReadRes) :
    Mirror (s.recvBytes p r) (t.recvBytes p r) := by
  cases r with
  | again => exact h
  | error => exact h.peerClose p
  | data bytes =>
    simp only [Hub.recvBytes, h.peers]
    split_ifs
    · exact h.peerClose p
    · exact h.modPeer p _

theorem peerAlloc (h : Mirror s t) (fd : ℕ) (bridge : Bool) :
    Mirror (s.peerAlloc fd bridge).1 (t.peerAlloc fd bridge).1 ∧
      (t.peerAlloc fd bridge).2 = (s.peerAlloc fd bridge).2 := by
  simp only [Hub.peerAlloc, h.peers]
  cases s.peers.alloc MAX_PEERS (fun p => !p.isOpen) { fd := some fd, isBridge := bridge } with
  | none => exact ⟨h, rfl⟩
  | some r =>
    refine ⟨Mirror.note ?_ _, rfl⟩
    exact h.update (f := fun s => { s with peers := r.2 }) (fun _ _ _ => rfl) rfl rfl

/-! ### Commands -/

theorem resolveNode (h : Mirror s t) (ident : NodeId) :
    t.resolveNode ident = s.resolveNode ident := by
  simp only [Hub.resolveNode, nodeByName, findNodeByAddr, h.nodes]

theorem setNode (h : Mirror s t) (ident : NodeId) (f : Node → Node) (ok : NodeId → CtlReply) :
    Mirror (s.setNode ident f ok) (t.setNode ident f ok) := by
  have hset : Mirror (s.settingNode ident).1 (t.settingNode ident).1 ∧
      (t.settingNode ident).2 = (s.settingNode ident).2 := by
    simp only [settingNode, h.resolveNode]
    cases s.resolveNode ident with
    | some k => exact ⟨h, rfl⟩
    | none => exact h.findNode ident true
  obtain ⟨hs, hk⟩ := hset
  unfold Hub.setNode
  generalize s.settingNode ident = r at hs hk ⊢
  generalize t.settingNode ident = r' at hs hk ⊢
  obtain ⟨s', node⟩ := r
  obtain ⟨t', node'⟩ := r'
  dsimp only at hs hk
  subst hk
  cases node' with
  | none => exact hs.note _
  | some k => exact (hs.modNode k f).answer _ _

theorem findOverride (h : Mirror s t) {a b a' b' : NodeId} (he : s(a', b') = s(a, b)) :
    t.findOverride a' b' = s.findOverride a b := by
  rw [findOverride_eq_lookup, findOverride_eq_lookup, h.table.lookup, he]

theorem setTable (h : Mirror s t) {overrides overrides' : Slots LinkOverride}
    (hm : Mirrored overrides overrides') :
    Mirror { s with overrides } { t with overrides := overrides' } := by
  obtain ⟨_, log, rfl, -, hl⟩ := h
  exact ⟨overrides', log, rfl, hm, hl⟩

theorem overrideEntry (h : Mirror s t) {a b a' b' : NodeId} (he : s(a', b') = s(a, b)) :
    Mirror (s.overrideEntry a b).1 (t.overrideEntry a' b').1 ∧
      (t.overrideEntry a' b').2 = (s.overrideEntry a b).2 := by
  simp only [Hub.overrideEntry, h.findOverride he]
  cases s.findOverride a b with
  | some i => exact ⟨h, rfl⟩
  | none =>
    dsimp only
    have hnew : ∃ o o' : LinkOverride,
        o = { a := a.take (NODE_ID_LEN - 1), b := b.take (NODE_ID_LEN - 1), used := true } ∧
        o' = { a := a'.take (NODE_ID_LEN - 1), b := b'.take (NODE_ID_LEN - 1), used := true } ∧
        (o' = o ∨ o' = o.swap) := by
      refine ⟨_, _, rfl, rfl, ?_⟩
      rcases Sym2.eq_iff.1 he with ⟨rfl, rfl⟩ | ⟨rfl, rfl⟩
      · exact .inl rfl
      · exact .inr rfl
    obtain ⟨o, o', ho, ho', hswap⟩ := hnew
    rw [← ho, ← ho']
    obtain ⟨hs, ht⟩ | ⟨i, u, u', hs, ht, hm⟩ := h.table.alloc MAX_OVERRIDES hswap
    · rw [hs, ht]
      exact ⟨h, rfl⟩
    · rw [hs, ht]
      exact ⟨h.setTable hm, rfl⟩

/-- The two hubs name the same link, whichever of its ends comes first. -/
theorem linkOf (h : Mirror s t) {a b a' b' : NodeId} (he : s(a', b') = s(a, b)) :
    t.linkOf a' b' = s.linkOf a b := by
  simp only [Hub.linkOf, h.resolveNode, h.nodes]
  rcases Sym2.eq_iff.1 he with ⟨rfl, rfl⟩ | ⟨rfl, rfl⟩
  · rfl
  · cases s.resolveNode a' <;> cases s.resolveNode b' <;> simp only [Sym2.eq_swap]

/-- A setting of a link does the same whichever of its ends is named first. -/
theorem setLink (h : Mirror s t) {a b a' b' : NodeId} (he : s(a', b') = s(a, b))
    {f : LinkOverride → LinkOverride} (hf : ∀ o, f o.swap = (f o).swap)
    (ok ok' : NodeId → NodeId → CtlReply) :
    Mirror (s.setLink a b f ok) (t.setLink a' b' f ok') := by
  cases hl : s.linkOf a b with
  | none =>
    rw [setLink_unknown hl, setLink_unknown ((h.linkOf he).trans hl)]
    exact h.note _
  | some e =>
    obtain ⟨na, nb, hna, hnb, rfl⟩ := linkOf_eq_some hl
    obtain ⟨na', nb', hna', hnb', hpair⟩ := linkOf_eq_some ((h.linkOf he).trans hl)
    -- the entry of the link is found or made in the same slot
    obtain ⟨s', t', slot, hs, ht, hm⟩ : ∃ s' t' slot,
        s.overrideEntry (s.nodes na).nodeId (s.nodes nb).nodeId = (s', slot) ∧
        t.overrideEntry (t.nodes na').nodeId (t.nodes nb').nodeId = (t', slot) ∧ Mirror s' t' := by
      obtain ⟨hm, hi⟩ := h.overrideEntry hpair.symm
      exact ⟨_, _, _, rfl, Prod.ext rfl hi, hm⟩
    simp only [Hub.setLink, hna, hnb, hna', hnb', hs, ht]
    cases slot with
    | none => exact hm.note _
    | some i => exact (hm.setTable (hm.table.modify i hf)).answer _ _

theorem clearLink (h : Mirror s t) {a b a' b' : NodeId} (he : s(a', b') = s(a, b)) :
    Mirror (s.ctlDispatch (.clearLink a b)) (t.ctlDispatch (.clearLink a' b')) := by
  cases hl : s.linkOf a b with
  | none =>
    rw [clearLink_unknown hl, clearLink_unknown ((h.linkOf he).trans hl)]
    exact h.note _
  | some e =>
    obtain ⟨na, nb, hna, hnb, rfl⟩ := linkOf_eq_some hl
    obtain ⟨na', nb', hna', hnb', hpair⟩ := linkOf_eq_some ((h.linkOf he).trans hl)
    simp only [Hub.ctlDispatch, hna, hnb, hna', hnb', h.findOverride hpair.symm]
    refine Mirror.note ?_ _
    cases s.findOverride (s.nodes na).nodeId (s.nodes nb).nodeId with
    | none => exact h
    | some i => exact h.setTable (h.table.modify i (f := fun o => { o with used := false }) fun _ => rfl)

end Mirror

/-- The command with the ends of its link in the other order. -/
def CtlCmd.swap : CtlCmd → CtlCmd
  | .setRssi a b r => .setRssi b a r
  | .setLoss a b p => .setLoss b a p
  | .clearLink a b => .clearLink b a
  | cmd => cmd

/-- The event, or the same with a command whose ends are in the other order. -/
def Turned (e e' : Event) : Prop := e' = e ∨ ∃ cmd, e = .control cmd ∧ e' = .control cmd.swap

namespace Mirror

variable {s t : Hub}

theorem ctlDispatch (h : Mirror s t) (cmd : CtlCmd) :
    Mirror (s.ctlDispatch cmd) (t.ctlDispatch cmd) ∧
      Mirror (s.ctlDispatch cmd) (t.ctlDispatch cmd.swap) := by
  cases cmd with
  | setPos ident x y z =>
    simp only [Hub.ctlDispatch, CtlCmd.swap]
    exact ⟨h.setNode ident _ _, h.setNode ident _ _⟩
  | setTxpower ident x =>
    simp only [Hub.ctlDispatch, CtlCmd.swap]
    exact ⟨h.setNode ident _ _, h.setNode ident _ _⟩
  | setSens ident x =>
    simp only [Hub.ctlDispatch, CtlCmd.swap]
    exact ⟨h.setNode ident _ _, h.setNode ident _ _⟩
  | setRssi a b r =>
    simp only [Hub.ctlDispatch, CtlCmd.swap]
    refine ⟨h.setLink rfl ?_ _ _, h.setLink Sym2.eq_swap ?_ _ _⟩ <;> exact fun _ => rfl
  | setLoss a b p =>
    simp only [Hub.ctlDispatch, CtlCmd.swap]
    refine ⟨h.setLink rfl ?_ _ _, h.setLink Sym2.eq_swap ?_ _ _⟩ <;> exact fun _ => rfl
  | clearLink a b => exact ⟨h.clearLink rfl, h.clearLink Sym2.eq_swap⟩
  | setPathloss x =>
    have hx := h.update (f := fun s => { s with gPathExponent := x }) (fun _ _ _ => rfl) rfl rfl
    exact ⟨hx.note _, hx.note _⟩
  | report => exact ⟨h, h⟩
  | bad => exact ⟨h.note _, h.note _⟩

/-- **Turned events** do the same to mirrored hubs. -/
theorem step (h : Mirror s t) {e e' : Event} (he : Turned e e') :
    Mirror (s.step e) (t.step e') := by
  rcases he with rfl | ⟨cmd, rfl, rfl⟩
  · cases e' with
    | accept fd bridge => exact (h.peerAlloc fd bridge).1
    | upstream i fd =>
      have hup : t.upstream = s.upstream := by
        obtain ⟨_, _, rfl, -⟩ := h
        rfl
      obtain ⟨hm, hp⟩ := h.peerAlloc fd true
      simp only [Hub.step, hup]
      split_ifs
      · generalize s.peerAlloc fd true = r at hm hp ⊢
        generalize t.peerAlloc fd true = r' at hm hp ⊢
        obtain ⟨s', p⟩ := r
        obtain ⟨t', p'⟩ := r'
        dsimp only at hm hp
        subst hp
        cases p' with
        | none => exact hm
        | some p =>
          exact hm.update (f := fun s => { s with upstream := s.upstream.set i (some p) })
            (fun _ _ _ => rfl) rfl rfl
      · exact h
    | recv p r =>
      simp only [Hub.step, h.peers]
      split_ifs
      · exact h.recvBytes p r
      · exact h
    | message p kern =>
      have hp : (t.peers p).isOpen = (s.peers p).isOpen := by rw [h.peers]
      by_cases ho : (s.peers p).isOpen = true
      · simp only [Hub.step, if_pos ho, if_pos (hp.trans ho)]
        exact (h.setKern kern).peerReadableIter p
      · simp only [Hub.step, if_neg ho, if_neg (hp ▸ ho)]
        exact h
    | flush p kern =>
      have hp : (t.peers p).isOpen = (s.peers p).isOpen := by rw [h.peers]
      by_cases ho : (s.peers p).isOpen = true
      · simp only [Hub.step, if_pos ho, if_pos (hp.trans ho)]
        exact (h.setKern kern).peerFlush p
      · simp only [Hub.step, if_neg ho, if_neg (hp ▸ ho)]
        exact h
    | close p => exact h.peerClose p
    | control cmd => exact (h.ctlDispatch cmd).1
  · exact (h.ctlDispatch cmd).2

theorem run (h : Mirror s t) {es es' : List Event} (he : List.Forall₂ Turned es es') :
    Mirror (s.run es) (t.run es') := by
  induction he generalizing s t with
  | nil => exact h
  | cons hstep _ ih => exact ih (h.step hstep)

end Mirror

/-! ### A symmetric map -/

/-- **The override table is a symmetric map** from pairs of node ids to settings. In every run:

* a pair has one entry at most;
* if some commands name the ends of their links in the other order, every later outcome of
  `propagate` is the same, on the same nodes;
* `CLEAR_LINK` takes the settings of the link, and of no other, out of the table;
* `SET_RSSI` and `SET_LOSS` change the one setting of the link and nothing else, unless the table
  has no room for the link. -/
theorem override_map (n : ℕ) (es : List Event) (s : Hub) (hs : s = (Hub.init n).run es) :
    (∀ i < s.overrides.size, ∀ j < s.overrides.size, (s.overrides i).used = true →
      (s.overrides j).used = true → (s.overrides i).pair = (s.overrides j).pair → i = j) ∧
    (∀ es' t, List.Forall₂ Turned es es' → t = (Hub.init n).run es' →
      t.nodes = s.nodes ∧ ∀ tx rx p r, t.propagate tx rx p r = s.propagate tx rx p r) ∧
    (∀ a b e, s.linkOf a b = some e →
      (s.ctlDispatch (.clearLink a b)).links = Function.update s.links e none) ∧
    (∀ a b e r, s.linkOf a b = some e →
      (s.ctlDispatch (.setRssi a b r)).links =
          Function.update s.links e (some { (s.links e).getD {} with rssi := some r }) ∨
        (s.ctlDispatch (.setRssi a b r)).links = s.links ∧ s.links e = none ∧ s.NoRoom) ∧
    ∀ a b e p, s.linkOf a b = some e →
      (s.ctlDispatch (.setLoss a b p)).links =
          Function.update s.links e (some { (s.links e).getD {} with
            loss := some (if p < 0 then 0 else if 1 < p then 1 else p) }) ∨
        (s.ctlDispatch (.setLoss a b p)).links = s.links ∧ s.links e = none ∧ s.NoRoom := by
  have hr : Reachable s := ⟨n, es, hs⟩
  have hone := hr.oneEach
  refine ⟨hone, fun es' t hturn ht => ?_, fun a b e hl => (clearLink_links hone hl).2,
    fun a b e r hl => (setLink_links hr.tracked hone hl (sets_rssi r) _).2,
    fun a b e p hl => (setLink_links hr.tracked hone hl (sets_loss _) _).2⟩
  have hm : Mirror s t := by
    rw [hs, ht]
    exact (Mirror.refl (Hub.init n)).run hturn
  exact ⟨hm.nodes, hm.propagate⟩

theorem override_map_lamps :
    (((Hub.init 0).run [.control (.setSens [0x61] (-80)), .control (.setSens [0x62] (-80)),
      .control (.setRssi [0x61] [0x62] (-60))]).ctlDispatch (.clearLink [0x62] [0x61])).links
        s([0x61], [0x62]) = none := by
  obtain ⟨-, -, hclear, -⟩ := override_map 0 [.control (.setSens [0x61] (-80)),
    .control (.setSens [0x62] (-80)), .control (.setRssi [0x61] [0x62] (-60))] _ rfl
  rw [hclear [0x62] [0x61] s([0x61], [0x62]) (by decide +kernel), Function.update_self]

end Hub
end Vbt
