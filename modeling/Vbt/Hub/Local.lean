import Vbt.Hub.Air

/-!
# What is done at one socket

When the hub sends to a peer or closes it, it reads the entry of the peer and the answers of its
socket. What it changes is that entry, the node of the peer and, if the peer is closed, the
connections of the node and the upstream table. So it does not matter in which order it turns to
different peers.

* `Effect`, `Effect.apply`: a change at one socket, with the frames that are handed to the peer;
* `Akin`: the states differ in the counters and the history, but not in what was handed to whom;
* `peerClose_does`, `peerSend_does`, `deliverToPeer_does`, `deliverHeard_does`, `peerFlush_does`;
* `Effect.apply_comm`, `foldl_apply_perm`: effects at different sockets commute;
* `Loop`, `Loop.effects`: a loop over the peers has the effects that its iterations would have had
  at the start of the loop.
-/

namespace Slots

variable {α : Type}

theorem eq_of_apply {t t' : Slots α} (hsize : t'.size = t.size) (h : ∀ i, t' i = t i) : t' = t := by
  obtain ⟨n, f⟩ := t
  obtain ⟨n', f'⟩ := t'
  obtain rfl : n' = n := hsize
  exact congrArg (Slots.mk n') (funext h)

theorem modify_id (t : Slots α) (i : ℕ) : t.modify i id = t := by
  refine eq_of_apply rfl fun j => ?_
  rw [modify_apply]
  split_ifs with h
  · rw [h]
    rfl
  · rfl

theorem modify_comm (t : Slots α) {i j : ℕ} {f g : α → α} (h : i = j → ∀ a, g (f a) = f (g a)) :
    (t.modify i f).modify j g = (t.modify j g).modify i f := by
  by_cases hij : i = j
  · subst hij
    rw [modify_modify, modify_modify]
    exact congrArg (t.modify i) (funext (h rfl))
  · refine eq_of_apply rfl fun k => ?_
    simp only [modify_apply, if_neg hij, if_neg (Ne.symm hij)]
    split_ifs with h₁ h₂
    · exact absurd (h₂.symm.trans h₁) hij
    · rfl
    · rfl
    · rfl

theorem mapBelow_comm (t : Slots α) {f g : ℕ → α → α} (h : ∀ i a, g i (f i a) = f i (g i a)) :
    (t.mapBelow f).mapBelow g = (t.mapBelow g).mapBelow f := by
  refine eq_of_apply rfl fun i => ?_
  simp only [mapBelow_apply, mapBelow_size]
  split_ifs
  · exact h i (t i)
  · rfl

end Slots

namespace Vbt

/-- A change at one socket: to the entry of its peer, to the results of the `write` calls to come,
and to the counters of a node. If the peer is `gone`, the node loses it and its connections, and it
is no upstream hub any more. -/
structure Effect where
  slot : ℕ
  peer : Peer → Peer := id
  writes : List WriteRes → List WriteRes := id
  node : Option ℕ := none
  rx : ℕ := 0
  missed : ℕ := 0
  gone : Bool := false
  hands : List Frame := []

namespace Effect

/-- A peer that stays keeps its socket and what was received from it: its backlog changes alone. -/
def onPeer (e : Effect) (p : Peer) : Peer :=
  if e.gone then Peer.closed
  else { p with outbuf := (e.peer p).outbuf, wantWrite := (e.peer p).wantWrite,
                txDropped := (e.peer p).txDropped }

def onNode (e : Effect) (nd : Node) : Node :=
  { nd with
    peerIdx := if e.gone ∧ nd.peerIdx = some e.slot then none else nd.peerIdx
    active := nd.active && !(e.gone && (nd.autoNamed && nd.addrs.isEmpty))
    rxPdus := nd.rxPdus + e.rx
    rxDropped := nd.rxDropped + e.missed }

def onNodes (e : Effect) (nodes : Slots Node) : Slots Node :=
  match e.node with
  | none => nodes
  | some k => nodes.modify k e.onNode

/-- The connections without those of a node. -/
def drop (k : ℕ) (c : Conn) : Conn := if Hub.mentions k c then { c with active := false } else c

def onConns (e : Effect) (conns : Slots Conn) : Slots Conn :=
  match e.gone, e.node with
  | true, some k => conns.mapBelow fun _ => drop k
  | _, _ => conns

def onUpstream (e : Effect) (upstream : Slots (Option ℕ)) : Slots (Option ℕ) :=
  if e.gone then upstream.mapBelow fun _ u => if u = some e.slot then none else u else upstream

def onKern (e : Effect) (kern : Kern) : Kern :=
  { kern with write := fun i => if i = e.slot then e.writes (kern.write i) else kern.write i }

/-- The state after the change. -/
def apply (s : Hub) (e : Effect) : Hub :=
  { s with
    peers := s.peers.modify e.slot e.onPeer
    nodes := e.onNodes s.nodes
    conns := e.onConns s.conns
    upstream := e.onUpstream s.upstream
    kern := e.onKern s.kern
    log := e.hands.map (.hand e.slot) ++ s.log }

/-- Nothing changes. -/
def idle (i : ℕ) : Effect := { slot := i }

/-- The same at another slot. -/
def atSlot (e : Effect) (j : ℕ) : Effect := { e with slot := j }

/-- The peer is closed. -/
def close (i : ℕ) (p : Peer) : Effect := { slot := i, node := p.nodeIdx, gone := true }

end Effect

namespace Hub

open Effect

/-! ### States that differ in the history only -/

/-- The state without the counters and the history. -/
def tables (s : Hub) : Hub := { s with stats := {}, log := [] }

/-- The states differ in the counters and in the history, but not in what was handed to whom. -/
structure Akin (s s' : Hub) : Prop where
  tables : s'.tables = s.tables
  hands : ∀ q, handsTo q s'.log = handsTo q s.log

namespace Akin

variable {s s' s'' : Hub}

theorem refl (s : Hub) : Akin s s := ⟨rfl, fun _ => rfl⟩

theorem symm (h : Akin s s') : Akin s' s := ⟨h.tables.symm, fun q => (h.hands q).symm⟩

theorem trans (h : Akin s s') (h' : Akin s' s'') : Akin s s'' :=
  ⟨h'.tables.trans h.tables, fun q => (h'.hands q).trans (h.hands q)⟩

theorem peers (h : Akin s s') : s'.peers = s.peers := (congrArg Hub.peers h.tables :)

theorem nodes (h : Akin s s') : s'.nodes = s.nodes := (congrArg Hub.nodes h.tables :)

theorem overrides (h : Akin s s') :
    s'.overrides = s.overrides := (congrArg Hub.overrides h.tables :)

theorem kern (h : Akin s s') : s'.kern = s.kern := (congrArg Hub.kern h.tables :)

theorem modStats (s : Hub) (f : Stats → Stats) : Akin s (s.modStats f) := ⟨rfl, fun _ => rfl⟩

/-- Something else than a hand is written to the history. -/
theorem note {a : Act} (ha : ∀ q f, a ≠ .hand q f) (s : Hub) : Akin s (s.note a) where
  tables := rfl
  hands q := by
    show handsTo q ([a] ++ s.log) = handsTo q s.log
    rw [handsTo_append, handsTo_eq_nil, List.nil_append]
    intro f hf
    exact ha q f (List.mem_singleton.1 hf).symm

theorem apply (h : Akin s s') (e : Effect) : Akin (e.apply s) (e.apply s') where
  tables := (congrArg (fun u : Hub => (e.apply u).tables) h.tables :)
  hands q := by
    show handsTo q (_ ++ s'.log) = handsTo q (_ ++ s.log)
    rw [handsTo_append, handsTo_append, h.hands]

theorem foldl_apply (h : Akin s s') (es : List Effect) :
    Akin (es.foldl Effect.apply s) (es.foldl Effect.apply s') := by
  induction es generalizing s s' with
  | nil => exact h
  | cons e es ih => exact ih (h.apply e)

end Akin

theorem onKern_of_id {e : Effect} (h : e.writes = id) (kern : Kern) : e.onKern kern = kern := by
  unfold onKern
  rw [h]
  simp only [id, ite_self]

theorem apply_idle (s : Hub) (i : ℕ) : (idle i).apply s = s := by
  unfold Effect.apply
  have hp : s.peers.modify i (idle i).onPeer = s.peers := s.peers.modify_id i
  rw [onKern_of_id rfl, show (idle i).slot = i from rfl, hp]
  rfl

theorem idle_does (s : Hub) (i : ℕ) : Akin ((idle i).apply s) s := by
  rw [apply_idle]
  exact .refl s

/-! ### Closing -/

theorem onNode_close (i : ℕ) (p : Peer) :
    (close i p).onNode = fun nd => { nd with
      peerIdx := if nd.peerIdx = some i then none else nd.peerIdx
      active := nd.active && !(nd.autoNamed && nd.addrs.isEmpty) } := by
  funext nd
  simp only [onNode, close, true_and, Bool.true_and, Nat.add_zero]

theorem peerClose_does {s : Hub} {i : ℕ} (ho : (s.peers i).isOpen = true) :
    Akin ((close i (s.peers i)).apply s) (s.peerClose i) where
  tables := by
    unfold Effect.apply
    rw [onKern_of_id rfl]
    unfold peerClose onNodes onConns onUpstream
    rw [if_neg (by rw [ho]; decide), onNode_close]
    cases hk : (s.peers i).nodeIdx with
    | none =>
      simp only [close, hk]
      rfl
    | some k =>
      simp only [close, hk, modNode, connsDropNode, modStats, note, Slots.modify_modify]
      rfl
  hands q := by
    rw [peerClose_log ho]
    exact (Akin.note (fun _ _ => by simp) s).hands q

/-! ### Sending -/

/-- What becomes of a peer: `none` if it is closed. -/
abbrev Fate := Option ((Peer → Peer) × Bool)

/-- What `bufferRest` makes of a peer, and whether the data is taken. -/
def bufferFate (p : Peer) (malloc : Bool) (data : List UInt8) : Fate :=
  let used := p.outbuf.getD []
  if p.outbuf = none && !malloc then none
  else if SEND_BUF_SIZE < used.length + data.length then
    some (fun p => { p with outbuf := some used, txDropped := p.txDropped + 1 }, false)
  else some (fun p => { p with outbuf := some (used ++ data), wantWrite := true }, true)

/-- What `peerSend` makes of a peer, and the `write` results that are left. -/
def sendFate (p : Peer) (malloc : Bool) (ws : List WriteRes) (data : List UInt8) :
    Fate × List WriteRes :=
  if !p.isOpen then (some (id, false), ws)
  else if (p.outbuf.getD []).isEmpty then
    match writeLoop data.length 0 ws with
    | (_, .failed, ws) => (none, ws)
    | (_, .finished, ws) => (some (id, true), ws)
    | (off, .blocked, ws) => (bufferFate p malloc (data.drop off), ws)
  else (bufferFate p malloc data, ws)

/-- The effect of that. -/
def Fate.effect (fate : Fate) (i : ℕ) (p : Peer) : Effect :=
  match fate with
  | none => close i p
  | some (f, _) => { slot := i, peer := f }

/-- The data was taken. -/
def Fate.ok (fate : Fate) : Bool := (fate.map Prod.snd).getD false

theorem Fate.slot_effect (fate : Fate) (i : ℕ) (p : Peer) : (fate.effect i p).slot = i := by
  rcases fate with _ | ⟨f, ok⟩ <;> rfl

theorem Fate.writes_effect (fate : Fate) (i : ℕ) (p : Peer) : (fate.effect i p).writes = id := by
  rcases fate with _ | ⟨f, ok⟩ <;> rfl

/-- Results of `write` are used up, then there is an effect. -/
theorem after_wrote {e : Effect} {i : ℕ} (s : Hub) (ws : List WriteRes) (bytes : List UInt8)
    (hi : e.slot = i) (hw : e.writes = id) :
    Akin (({ e with writes := fun _ => ws } : Effect).apply s)
      (e.apply ((s.setWrites i ws).note (.wrote i bytes))) where
  tables := by
    have hkern : e.onKern (s.setWrites i ws).kern =
        ({ e with writes := fun _ => ws } : Effect).onKern s.kern := by
      rw [onKern_of_id hw]
      unfold onKern
      rw [hi]
      rfl
    unfold Effect.apply tables
    simp only [← hkern]
    rfl
  hands q := by
    show handsTo q (_ ++ (.wrote i bytes :: s.log)) = handsTo q (_ ++ s.log)
    rw [handsTo_append, handsTo_append]
    exact congrArg _ ((Akin.note (fun _ _ => by simp) s).hands q)

/-- No result of `write` is used up. -/
theorem apply_keep {e : Effect} {i : ℕ} (s : Hub) (hi : e.slot = i) (hw : e.writes = id) :
    ({ e with writes := fun _ => s.kern.write i } : Effect).apply s = e.apply s := by
  have hwrite : (fun j => if j = e.slot then s.kern.write i else s.kern.write j) = s.kern.write := by
    funext j
    split_ifs with hj
    · rw [hj, hi]
    · rfl
  unfold Effect.apply
  rw [onKern_of_id hw]
  unfold onKern
  simp only [hwrite]
  rfl

theorem bufferRest_does {s : Hub} {i : ℕ} (ho : (s.peers i).isOpen = true) (data : List UInt8) :
    Akin (((bufferFate (s.peers i) (s.kern.malloc i) data).effect i (s.peers i)).apply s)
        (s.bufferRest i data).1 ∧
      (s.bufferRest i data).2 = (bufferFate (s.peers i) (s.kern.malloc i) data).ok := by
  unfold bufferRest bufferFate
  dsimp only
  split_ifs
  · exact ⟨peerClose_does ho, rfl⟩
  · refine ⟨⟨?_, fun q => ?_⟩, rfl⟩
    · unfold Effect.apply
      rw [onKern_of_id rfl]
      rfl
    · exact (Akin.note (fun _ _ => by simp) s).hands q
  · refine ⟨⟨?_, fun q => rfl⟩, rfl⟩
    unfold Effect.apply
    rw [onKern_of_id rfl]
    rfl

/-- The effect of `peerSend`. -/
def sentEffect (i : ℕ) (p : Peer) (malloc : Bool) (ws : List WriteRes) (data : List UInt8) :
    Effect :=
  { (sendFate p malloc ws data).1.effect i p with writes := fun _ => (sendFate p malloc ws data).2 }

theorem peerSend_does (s : Hub) (i : ℕ) (data : List UInt8) :
    Akin ((sentEffect i (s.peers i) (s.kern.malloc i) (s.kern.write i) data).apply s)
        (s.peerSend i data).1 ∧
      (s.peerSend i data).2 = (sendFate (s.peers i) (s.kern.malloc i) (s.kern.write i) data).1.ok := by
  unfold sentEffect sendFate peerSend
  dsimp only
  cases ho : (s.peers i).isOpen with
  | false =>
    simp only [Bool.not_false, if_true]
    rw [apply_keep s (Fate.slot_effect _ _ _) (Fate.writes_effect _ _ _)]
    exact ⟨idle_does s i, rfl⟩
  | true =>
    simp only [Bool.not_true, Bool.false_eq_true, if_false]
    cases ((s.peers i).outbuf.getD []).isEmpty with
    | true =>
      simp only [if_true]
      obtain ⟨off, ending, ws⟩ := writeLoop data.length 0 (s.kern.write i)
      cases ending with
      | finished => exact ⟨(after_wrote s ws _ rfl rfl).trans (idle_does _ i), rfl⟩
      | blocked =>
        obtain ⟨hd, hok⟩ := bufferRest_does (s := (s.setWrites i ws).note (.wrote i (data.take off)))
          (i := i) ho (data.drop off)
        exact ⟨(after_wrote s ws _ (Fate.slot_effect _ _ _) (Fate.writes_effect _ _ _)).trans hd,
          hok⟩
      | failed =>
        have hd := peerClose_does (s := (s.setWrites i ws).note (.wrote i (data.take off))) (i := i) ho
        exact ⟨(after_wrote s ws _ rfl rfl).trans hd, rfl⟩
    | false =>
      simp only [Bool.false_eq_true, if_false]
      rw [apply_keep s (Fate.slot_effect _ _ _) (Fate.writes_effect _ _ _)]
      exact bufferRest_does ho data

/-! ### Delivering -/

theorem Akin.modNode {s s' : Hub} (h : Akin s s') (k : ℕ) (f : Node → Node) :
    Akin (s.modNode k f) (s'.modNode k f) where
  tables := (congrArg (fun u : Hub => (u.modNode k f).tables) h.tables :)
  hands := h.hands

/-- A frame is handed over, then there is an effect. -/
theorem after_hand {e : Effect} {i : ℕ} (s : Hub) (f : Frame) (hi : e.slot = i)
    (hh : e.hands = []) :
    Akin (({ e with hands := [f] } : Effect).apply s) (e.apply (s.note (.hand i f))) where
  tables := rfl
  hands q := by
    show handsTo q (e.hands.map (.hand e.slot) ++ (.hand i f :: s.log)) =
      handsTo q (.hand e.slot f :: s.log)
    rw [hh, hi]
    rfl

/-- There is an effect on the peer alone, then the frame is counted at its node. -/
theorem then_counted {e : Effect} (s : Hub) (k : ℕ) (hn : e.node = none) (hg : e.gone = false)
    (hm : e.missed = 0) :
    ({ e with node := some k, rx := 1 } : Effect).apply s =
      (e.apply s).modNode k fun nd => { nd with rxPdus := nd.rxPdus + 1 } := by
  obtain ⟨slot, peer, writes, node, rx, missed, gone, hands⟩ := e
  obtain rfl : node = none := hn
  obtain rfl : gone = false := hg
  obtain rfl : missed = 0 := hm
  have hnode : ({ slot, peer, writes, node := some k, rx := 1, hands } : Effect).onNode =
      fun nd => { nd with rxPdus := nd.rxPdus + 1 } := by
    funext nd
    simp [onNode]
  unfold Effect.apply onNodes modNode
  simp only [hnode]
  rfl

theorem bufferFate_ok {p : Peer} {malloc : Bool} {data : List UInt8}
    (h : (bufferFate p malloc data).ok = true) :
    ∃ f, bufferFate p malloc data = some (f, true) := by
  unfold bufferFate at h ⊢
  dsimp only at h ⊢
  split_ifs at h ⊢
  · cases h
  · cases h
  · exact ⟨_, rfl⟩

theorem sendFate_ok {p : Peer} {malloc : Bool} {ws : List WriteRes} {data : List UInt8}
    (h : (sendFate p malloc ws data).1.ok = true) :
    ∃ f, (sendFate p malloc ws data).1 = some (f, true) := by
  unfold sendFate at h ⊢
  split_ifs at h ⊢
  · cases h
  · generalize writeLoop data.length 0 ws = r at h ⊢
    obtain ⟨off, ending, ws⟩ := r
    cases ending with
    | finished => exact ⟨id, rfl⟩
    | blocked => exact bufferFate_ok h
    | failed => cases h
  · exact bufferFate_ok h

theorem slot_sentEffect (i : ℕ) (p : Peer) (malloc : Bool) (ws : List WriteRes)
    (data : List UInt8) :
    (sentEffect i p malloc ws data).slot = i := Fate.slot_effect _ _ _

theorem hands_sentEffect (i : ℕ) (p : Peer) (malloc : Bool) (ws : List WriteRes)
    (data : List UInt8) :
    (sentEffect i p malloc ws data).hands = [] := by
  unfold sentEffect
  rcases (sendFate p malloc ws data).1 with _ | ⟨f, ok⟩ <;> rfl

theorem sentEffect_ok {p : Peer} {malloc : Bool} {ws : List WriteRes} {data : List UInt8} (i : ℕ)
    (h : (sendFate p malloc ws data).1.ok = true) :
    ∃ f ws', sentEffect i p malloc ws data = { slot := i, peer := f, writes := ws' } := by
  obtain ⟨f, hf⟩ := sendFate_ok h
  refine ⟨f, fun _ => (sendFate p malloc ws data).2, ?_⟩
  unfold sentEffect
  rw [hf]
  rfl

/-- The effect of `deliverToPeer`. -/
def deliverEffect (i : ℕ) (p : Peer) (malloc : Bool) (ws : List WriteRes) (hdr : VbtFrameHdr)
    (pdu : List UInt8) (rssi : ℤ) : Effect :=
  let f : Frame := ⟨{ hdr with rssi := Int8.ofInt rssi }, pdu⟩
  let e : Effect := { sentEffect i p malloc ws (wire f.payload) with hands := [f] }
  if (sendFate p malloc ws (wire f.payload)).1.ok then
    match p.nodeIdx with
    | some k => { e with node := some k, rx := 1 }
    | none => e
  else e

theorem deliverToPeer_does (s : Hub) (i : ℕ) (hdr : VbtFrameHdr) (pdu : List UInt8) (rssi : ℤ) :
    Akin ((deliverEffect i (s.peers i) (s.kern.malloc i) (s.kern.write i) hdr pdu rssi).apply s)
      (s.deliverToPeer i hdr pdu rssi) := by
  unfold deliverEffect deliverToPeer
  dsimp only
  generalize (⟨{ hdr with rssi := Int8.ofInt rssi }, pdu⟩ : Frame) = f
  obtain ⟨hd, hok⟩ : Akin ((sentEffect i (s.peers i) (s.kern.malloc i) (s.kern.write i)
        (wire f.payload)).apply (s.note (.hand i f))) ((s.note (.hand i f)).peerSend i (wire f.payload)).1 ∧
      ((s.note (.hand i f)).peerSend i (wire f.payload)).2 =
        (sendFate (s.peers i) (s.kern.malloc i) (s.kern.write i) (wire f.payload)).1.ok :=
    peerSend_does (s.note (.hand i f)) i (wire f.payload)
  have hall := (after_hand s f (slot_sentEffect ..) (hands_sentEffect ..)).trans hd
  generalize (s.note (.hand i f)).peerSend i (wire f.payload) = r at hok hall ⊢
  obtain ⟨u, ok⟩ := r
  obtain rfl : ok = (sendFate (s.peers i) (s.kern.malloc i) (s.kern.write i) (wire f.payload)).1.ok := hok
  cases hok : (sendFate (s.peers i) (s.kern.malloc i) (s.kern.write i) (wire f.payload)).1.ok with
  | false => exact hall
  | true =>
    obtain ⟨g, ws, he⟩ := sentEffect_ok i hok
    have hpeer : (u.peers i).nodeIdx = (s.peers i).nodeIdx := by
      rw [hall.peers]
      show (s.peers.modify _ _ _).nodeIdx = _
      rw [slot_sentEffect, Slots.modify_same, he]
      rfl
    simp only [if_true, hpeer]
    cases (s.peers i).nodeIdx with
    | none => exact hall
    | some k =>
      have hcount := hall.modNode k fun nd => { nd with rxPdus := nd.rxPdus + 1 }
      rw [he] at hcount ⊢
      rw [← then_counted s k rfl rfl rfl] at hcount
      exact hcount

/-! ### What is heard -/

/-- No override in use loses anything. -/
def NoLoss (s : Hub) : Prop :=
  ∀ i < s.overrides.size, (s.overrides i).used = true → (s.overrides i).lossSet = true →
    (s.overrides i).lossProb ≤ 0

/-- Without losses nothing is drawn. -/
theorem NoLoss.kern {s : Hub} (h : NoLoss s) (tx : Option Node) (rx : Node) (p r : Int8) :
    (s.propagate tx rx p r).kern = s.kern := by
  unfold propagate
  generalize (if r ≠ 0 then r.toInt else VBT_DEFAULT_RSSI.toInt) = out
  cases tx with
  | none => rfl
  | some tx =>
    dsimp only
    split_ifs
    · rfl
    cases hf : s.findOverride tx.nodeId rx.nodeId with
    | none => exact pathModel_kern ..
    | some i =>
      obtain ⟨hi, hused, -⟩ := Slots.find?_eq_some_iff.1 hf
      have hdraws : ((s.overrides i).lossSet && decide (0 < (s.overrides i).lossProb)) = false := by
        rw [Bool.and_eq_false_iff, decide_eq_false_iff_not, not_lt]
        cases hset : (s.overrides i).lossSet with
        | false => exact Or.inl rfl
        | true => exact Or.inr (h i hi (Bool.and_eq_true_iff.1 hused).1 hset)
      simp only [hdraws, Bool.false_and, Bool.false_eq_true, if_false]
      split_ifs
      · rfl
      · exact pathModel_kern ..

/-- The effect of `deliverHeard`. -/
def heardEffect (i : ℕ) (p : Peer) (malloc : Bool) (ws : List WriteRes) (k : ℕ) (ok : Bool)
    (rssi : ℤ)
    (hdr : VbtFrameHdr) (pdu : List UInt8) : Effect :=
  if ok then deliverEffect i p malloc ws hdr pdu rssi else { slot := i, node := some k, missed := 1 }

/-- What the node hears of a frame. -/
def heardBy (s : Hub) (srcNode : Option ℕ) (k : ℕ) (hdr : VbtFrameHdr) : Heard :=
  s.propagate (srcNode.map s.nodes) (s.nodes k) hdr.txPowerDbm hdr.rssi

theorem deliverHeard_does {s : Hub} (h : NoLoss s) (srcNode : Option ℕ) (k i : ℕ)
    (hdr : VbtFrameHdr)
    (pdu : List UInt8) :
    Akin ((heardEffect i (s.peers i) (s.kern.malloc i) (s.kern.write i) k (s.heardBy srcNode k hdr).ok
        (s.heardBy srcNode k hdr).rssi hdr pdu).apply s) (s.deliverHeard srcNode k i hdr pdu) := by
  have hkern : ({ s with kern := (s.heardBy srcNode k hdr).kern } : Hub) = s := by
    rw [show (s.heardBy srcNode k hdr).kern = s.kern from h.kern ..]
  unfold heardEffect deliverHeard
  dsimp only
  change Akin _ (if (s.heardBy srcNode k hdr).ok then
    ({ s with kern := (s.heardBy srcNode k hdr).kern } : Hub).deliverToPeer _ _ _ _ else
      (({ s with kern := (s.heardBy srcNode k hdr).kern } : Hub).modNode k _).modStats _)
  rw [hkern]
  split_ifs
  · exact deliverToPeer_does s i hdr pdu _
  · refine ⟨?_, fun _ => rfl⟩
    have hnode : ({ slot := i, node := some k, missed := 1 } : Effect).onNode =
        fun nd => { nd with rxDropped := nd.rxDropped + 1 } := by
      funext nd
      simp [onNode]
    have hp : s.peers.modify i ({ slot := i, node := some k, missed := 1 } : Effect).onPeer = s.peers :=
      s.peers.modify_id i
    unfold Effect.apply onNodes
    rw [onKern_of_id rfl]
    simp only [hnode, hp]
    rfl

/-- The effect of `peerFlush`. -/
def flushEffect (i : ℕ) (p : Peer) (ws : List WriteRes) : Effect :=
  let used := p.outbuf.getD []
  if !p.isOpen || used.isEmpty then { slot := i, peer := fun p => { p with wantWrite := false } }
  else
    let (off, ending, ws) := writeLoop used.length 0 ws
    match ending with
    | .failed => { close i p with writes := fun _ => ws }
    | _ =>
      { slot := i, writes := fun _ => ws, peer := fun p =>
        { p with outbuf := some (used.drop off), wantWrite := !(used.drop off).isEmpty } }

theorem peerFlush_does (s : Hub) (i : ℕ) :
    Akin ((flushEffect i (s.peers i) (s.kern.write i)).apply s) (s.peerFlush i) := by
  have hmod : ∀ (u : Hub) (f : Peer → Peer), ({ slot := i, peer := f } : Effect).onPeer = f →
      Akin (({ slot := i, peer := f } : Effect).apply u) (u.modPeer i f) := by
    intro u f hon
    refine ⟨?_, fun _ => rfl⟩
    unfold Effect.apply
    rw [onKern_of_id rfl, hon]
    rfl
  unfold flushEffect peerFlush
  dsimp only
  cases hc : (!(s.peers i).isOpen || ((s.peers i).outbuf.getD []).isEmpty) with
  | true =>
    simp only [if_true]
    exact hmod s _ rfl
  | false =>
    simp only [Bool.false_eq_true, if_false]
    have ho : (s.peers i).isOpen = true := by
      cases h : (s.peers i).isOpen with
      | true => rfl
      | false =>
        rw [h] at hc
        cases hc
    generalize (s.peers i).outbuf.getD [] = used
    have hkept := fun off ws => hmod ((s.setWrites i ws).note (.wrote i (used.take off)))
      (fun p => { p with outbuf := some (used.drop off), wantWrite := !(used.drop off).isEmpty }) rfl
    obtain ⟨off, ending, ws⟩ := writeLoop used.length 0 (s.kern.write i)
    cases ending with
    | failed =>
      have hd := peerClose_does (s := (s.setWrites i ws).note (.wrote i (used.take off))) (i := i) ho
      exact (after_wrote s ws _ rfl rfl).trans hd
    | finished => exact (after_wrote s ws _ rfl rfl).trans (hkept off ws)
    | blocked => exact (after_wrote s ws _ rfl rfl).trans (hkept off ws)

/-! ### Effects at different sockets -/

theorem onNode_comm {e e' : Effect} (nd : Node) :
    e'.onNode (e.onNode nd) = e.onNode (e'.onNode nd) := by
  have hpeer : (e'.onNode (e.onNode nd)).peerIdx = (e.onNode (e'.onNode nd)).peerIdx := by
    simp only [onNode]
    split_ifs <;> simp_all
  have hactive : (e'.onNode (e.onNode nd)).active = (e.onNode (e'.onNode nd)).active := by
    simp only [onNode, Bool.and_assoc]
    rw [Bool.and_comm (!(e.gone && _))]
  unfold onNode at hpeer hactive ⊢
  simp only [Node.mk.injEq, true_and]
  exact ⟨hpeer, hactive, Nat.add_right_comm .., Nat.add_right_comm ..⟩

theorem onNodes_comm (e e' : Effect) (nodes : Slots Node) :
    e'.onNodes (e.onNodes nodes) = e.onNodes (e'.onNodes nodes) := by
  unfold onNodes
  cases e.node with
  | none => rfl
  | some k =>
    cases e'.node with
    | none => rfl
    | some k' => exact nodes.modify_comm fun _ => onNode_comm

theorem drop_comm (k k' : ℕ) (c : Conn) : drop k' (drop k c) = drop k (drop k' c) := by
  have hdrop : ∀ (k : ℕ) (c : Conn), drop k c =
      { c with active := c.active && !(c.nodeA == some k || c.nodeB == some k) } := by
    rintro k ⟨aa, a, b, active, pdus, inita, adva⟩
    unfold drop mentions
    cases active <;> cases (a == some k || b == some k) <;> simp
  simp only [hdrop, Bool.and_right_comm]

theorem onConns_comm (e e' : Effect) (conns : Slots Conn) :
    e'.onConns (e.onConns conns) = e.onConns (e'.onConns conns) := by
  unfold onConns
  cases e.gone <;> cases e.node <;> cases e'.gone <;> cases e'.node <;> try rfl
  exact conns.mapBelow_comm fun _ => drop_comm _ _

theorem onUpstream_comm (e e' : Effect) (upstream : Slots (Option ℕ)) :
    e'.onUpstream (e.onUpstream upstream) = e.onUpstream (e'.onUpstream upstream) := by
  unfold onUpstream
  split_ifs
  · refine upstream.mapBelow_comm fun _ u => ?_
    split_ifs <;> simp_all
  · rfl
  · rfl
  · rfl

theorem onKern_comm {e e' : Effect} (h : e.slot ≠ e'.slot) (kern : Kern) :
    e'.onKern (e.onKern kern) = e.onKern (e'.onKern kern) := by
  unfold onKern
  refine congrArg (fun w => ({ kern with write := w } : Kern)) (funext fun i => ?_)
  dsimp only
  split_ifs with h₁ h₂
  · exact absurd (h₂.symm.trans h₁) h
  · rfl
  · rfl
  · rfl

/-- Effects at different sockets commute. -/
theorem apply_comm {e e' : Effect} (h : e.slot ≠ e'.slot) (s : Hub) :
    Akin (e'.apply (e.apply s)) (e.apply (e'.apply s)) where
  tables := by
    unfold Effect.apply tables
    dsimp only
    rw [onNodes_comm, onConns_comm, onUpstream_comm, onKern_comm h,
      s.peers.modify_comm fun hs => absurd hs h]
  hands q := by
    show handsTo q (_ ++ (_ ++ s.log)) = handsTo q (_ ++ (_ ++ s.log))
    simp only [handsTo_append]
    by_cases hq : q = e.slot
    · have hnil : handsTo q (e'.hands.map (.hand e'.slot)) = [] := by
        refine handsTo_eq_nil fun f hf => ?_
        obtain ⟨g, -, hg⟩ := List.mem_map.1 hf
        injection hg with hslot
        exact h (hq.symm.trans hslot.symm)
      rw [hnil, List.nil_append, List.nil_append]
    · have hnil : handsTo q (e.hands.map (.hand e.slot)) = [] := by
        refine handsTo_eq_nil fun f hf => ?_
        obtain ⟨g, -, hg⟩ := List.mem_map.1 hf
        injection hg with hslot
        exact hq hslot.symm
      rw [hnil, List.nil_append, List.nil_append]

/-- Effects at different sockets can be taken in any order. -/
theorem foldl_apply_perm {es es' : List Effect} (hp : es.Perm es') (hn : (es.map slot).Nodup)
    (s : Hub) :
    Akin (es.foldl Effect.apply s) (es'.foldl Effect.apply s) := by
  induction hp generalizing s with
  | nil => exact .refl s
  | cons e _ ih => exact ih (List.nodup_cons.1 hn).2 _
  | swap e e' es =>
    have hne : e'.slot ≠ e.slot := fun h => (List.nodup_cons.1 hn).1 (List.mem_cons.2 (Or.inl h))
    exact (apply_comm hne s).foldl_apply es
  | trans hp _ ih ih' => exact (ih hn s).trans (ih' ((hp.map slot).nodup_iff.1 hn) s)

/-! ### What an effect depends on -/

/-- Slot `j` of `t` is as slot `i` of `s`, and the air is the same. -/
structure Near (i j : ℕ) (s t : Hub) : Prop where
  peer : t.peers j = s.peers i
  write : t.kern.write j = s.kern.write i
  malloc : t.kern.malloc j = s.kern.malloc i
  air : SameAir s t

theorem Fate.effect_atSlot (fate : Fate) (i j : ℕ) (p : Peer) :
    fate.effect j p = (fate.effect i p).atSlot j := by
  rcases fate with _ | ⟨f, ok⟩ <;> rfl

theorem deliverEffect_atSlot (i j : ℕ) (p : Peer) (malloc : Bool) (ws : List WriteRes)
    (hdr : VbtFrameHdr) (pdu : List UInt8) (rssi : ℤ) :
    deliverEffect j p malloc ws hdr pdu rssi = (deliverEffect i p malloc ws hdr pdu rssi).atSlot j := by
  unfold deliverEffect sentEffect
  dsimp only
  rw [Fate.effect_atSlot _ i j]
  split_ifs
  · cases p.nodeIdx <;> rfl
  · rfl

theorem heardEffect_atSlot (i j : ℕ) (p : Peer) (malloc : Bool) (ws : List WriteRes) (k : ℕ)
    (ok : Bool)
    (rssi : ℤ) (hdr : VbtFrameHdr) (pdu : List UInt8) :
    heardEffect j p malloc ws k ok rssi hdr pdu =
      (heardEffect i p malloc ws k ok rssi hdr pdu).atSlot j := by
  unfold heardEffect
  split_ifs
  · exact deliverEffect_atSlot ..
  · rfl

theorem flushEffect_atSlot (i j : ℕ) (p : Peer) (ws : List WriteRes) :
    flushEffect j p ws = (flushEffect i p ws).atSlot j := by
  unfold flushEffect
  dsimp only
  split_ifs
  · rfl
  · rcases writeLoop (p.outbuf.getD []).length 0 ws with ⟨off, ending, ws'⟩
    cases ending <;> rfl

theorem heardBy_congr {s t : Hub} (h : SameAir s t) (srcNode : Option ℕ) (k : ℕ)
    (hdr : VbtFrameHdr) :
    (t.heardBy srcNode k hdr).ok = (s.heardBy srcNode k hdr).ok ∧
      (t.heardBy srcNode k hdr).rssi = (s.heardBy srcNode k hdr).rssi := by
  unfold heardBy
  cases srcNode with
  | none => exact ⟨rfl, rfl⟩
  | some n => exact propagate_congr h (h.radio n) (h.radio k) _ _

theorem radio_onNode (e : Effect) (nd : Node) : (e.onNode nd).radio = nd.radio := rfl

theorem apply_air (s : Hub) (e : Effect) : SameAir s (e.apply s) where
  overrides := rfl
  exponent := rfl
  rand := rfl
  sqrt := rfl
  log10 := rfl
  radio k := by
    show ((e.onNodes s.nodes) k).radio = _
    unfold onNodes
    cases e.node with
    | none => rfl
    | some n => exact s.nodes.modify_attr Node.radio (radio_onNode e) n k

/-- An effect at another socket is not seen. -/
theorem near_apply {e : Effect} {i : ℕ} (h : e.slot ≠ i) (s : Hub) : Near i i s (e.apply s) where
  peer := s.peers.modify_of_ne _ h.symm
  write := if_neg h.symm
  malloc := rfl
  air := apply_air s e

theorem Near.akin {i j : ℕ} {s t t' : Hub} (h : Near i j s t) (ha : Akin t t') : Near i j s t' where
  peer := by
    rw [ha.peers]
    exact h.peer
  write := by
    rw [ha.kern]
    exact h.write
  malloc := by
    rw [ha.kern]
    exact h.malloc
  air := by
    refine h.air.trans ⟨ha.overrides, ?_, ?_, ?_, ?_, fun k => ?_⟩
    · exact (congrArg Hub.gPathExponent ha.tables :)
    · rw [ha.kern]
    · rw [ha.kern]
    · rw [ha.kern]
    · rw [ha.nodes]

/-! ### Loops -/

/-- A loop over the peers of which each iteration has an effect at its own socket, and depends on
nothing that an effect at another one changes. -/
structure Loop (g : Hub → ℕ → Hub) (E : Hub → ℕ → Effect) : Prop where
  slot : ∀ s i, (E s i).slot = i
  does : ∀ s i, NoLoss s → Akin ((E s i).apply s) (g s i)
  near : ∀ s s' i, Near i i s s' → E s' i = E s i

theorem NoLoss.akin {s s' : Hub} (h : NoLoss s) (ha : Akin s s') : NoLoss s' := by
  unfold NoLoss
  rw [ha.overrides]
  exact h

/-- A loop has the effects that its iterations have at its start. -/
theorem Loop.effects {g : Hub → ℕ → Hub} {E : Hub → ℕ → Effect} (h : Loop g E) {l : List ℕ}
    (hl : l.Nodup) {s : Hub} (hs : NoLoss s) :
    Akin ((l.map (E s)).foldl Effect.apply s) (l.foldl g s) := by
  induction l generalizing s with
  | nil => exact .refl s
  | cons i l ih =>
    have hd := h.does s i hs
    have hlater : l.map (E (g s i)) = l.map (E s) := by
      refine List.map_congr_left fun j hj => h.near s (g s i) j ((near_apply ?_ s).akin hd)
      rw [h.slot]
      exact fun hij => (List.nodup_cons.1 hl).1 (hij ▸ hj)
    have hrest := ih (List.nodup_cons.1 hl).2 (NoLoss.akin (s := (E s i).apply s) hs hd)
    rw [hlater] at hrest
    exact (hd.foldl_apply (l.map (E s))).trans hrest

/-- The effect of an iteration of `sweep`. -/
def sweepEffect (sel : Peer → Bool) (src : ℕ) (hdr : VbtFrameHdr) (pdu : List UInt8) (s : Hub)
    (i : ℕ) :
    Effect :=
  if i ≠ src && (s.peers i).isOpen && sel (s.peers i) then
    deliverEffect i (s.peers i) (s.kern.malloc i) (s.kern.write i) hdr pdu hdr.rssi.toInt
  else idle i

/-- The effect of an iteration of `fanOut`. -/
def fanOutEffect (src : ℕ) (srcNode : Option ℕ) (hdr : VbtFrameHdr) (pdu : List UInt8) (s : Hub)
    (i : ℕ) : Effect :=
  if i = src || !(s.peers i).isOpen then idle i
  else if (s.peers i).isBridge then
    deliverEffect i (s.peers i) (s.kern.malloc i) (s.kern.write i) hdr pdu hdr.rssi.toInt
  else
    match (s.peers i).nodeIdx with
    | none => idle i
    | some k =>
      heardEffect i (s.peers i) (s.kern.malloc i) (s.kern.write i) k (s.heardBy srcNode k hdr).ok
        (s.heardBy srcNode k hdr).rssi hdr pdu

theorem sweepEffect_near {s t : Hub} {i j src src' : ℕ} (h : Near i j s t)
    (hsrc : j = src' ↔ i = src)
    (sel : Peer → Bool) (hdr : VbtFrameHdr) (pdu : List UInt8) :
    sweepEffect sel src' hdr pdu t j = (sweepEffect sel src hdr pdu s i).atSlot j := by
  unfold sweepEffect
  simp only [h.peer, h.write, h.malloc, ne_eq, hsrc, deliverEffect_atSlot i j]
  split_ifs <;> rfl

theorem fanOutEffect_near {s t : Hub} {i j src src' : ℕ} (h : Near i j s t)
    (hsrc : j = src' ↔ i = src)
    (srcNode : Option ℕ) (hdr : VbtFrameHdr) (pdu : List UInt8) :
    fanOutEffect src' srcNode hdr pdu t j = (fanOutEffect src srcNode hdr pdu s i).atSlot j := by
  unfold fanOutEffect
  simp only [h.peer, h.write, h.malloc, hsrc, deliverEffect_atSlot i j, heardEffect_atSlot i j,
    (heardBy_congr h.air srcNode _ hdr).1, (heardBy_congr h.air srcNode _ hdr).2]
  split_ifs
  · rfl
  · rfl
  · cases (s.peers i).nodeIdx <;> rfl

theorem Near.refl (i : ℕ) (s : Hub) : Near i i s s := ⟨rfl, rfl, rfl, .refl s⟩

theorem atSlot_of_slot {e : Effect} {i : ℕ} (h : e.slot = i) : e.atSlot i = e := by
  rw [← h]
  rfl

theorem slot_sweepEffect (sel : Peer → Bool) (src : ℕ) (hdr : VbtFrameHdr) (pdu : List UInt8)
    (s : Hub)
    (i : ℕ) : (sweepEffect sel src hdr pdu s i).slot = i := by
  rw [sweepEffect_near (Near.refl i s) Iff.rfl]
  rfl

theorem slot_fanOutEffect (src : ℕ) (srcNode : Option ℕ) (hdr : VbtFrameHdr) (pdu : List UInt8)
    (s : Hub) (i : ℕ) : (fanOutEffect src srcNode hdr pdu s i).slot = i := by
  rw [fanOutEffect_near (Near.refl i s) Iff.rfl]
  rfl

theorem sweep_loop (sel : Peer → Bool) (src : ℕ) (hdr : VbtFrameHdr) (pdu : List UInt8) :
    Loop (fun s i => if i ≠ src && (s.peers i).isOpen && sel (s.peers i) then
        s.deliverToPeer i hdr pdu hdr.rssi.toInt else s) (sweepEffect sel src hdr pdu) where
  slot := slot_sweepEffect sel src hdr pdu
  does s i _ := by
    unfold sweepEffect
    split_ifs
    · exact deliverToPeer_does ..
    · exact idle_does s i
  near s s' i h := by
    rw [sweepEffect_near h Iff.rfl, atSlot_of_slot (slot_sweepEffect ..)]

theorem fanOut_loop (src : ℕ) (srcNode : Option ℕ) (hdr : VbtFrameHdr) (pdu : List UInt8) :
    Loop (fun s i => s.fanOutOne src srcNode hdr pdu i) (fanOutEffect src srcNode hdr pdu) where
  slot := slot_fanOutEffect src srcNode hdr pdu
  does s i h := by
    unfold fanOutEffect fanOutOne
    split_ifs
    · exact idle_does s i
    · exact deliverToPeer_does ..
    · cases (s.peers i).nodeIdx with
      | none => exact idle_does s i
      | some k => exact deliverHeard_does h ..
  near s s' i h := by
    rw [fanOutEffect_near h Iff.rfl, atSlot_of_slot (slot_fanOutEffect ..)]

end Hub
end Vbt
