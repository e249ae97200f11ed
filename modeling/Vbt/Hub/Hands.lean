import Vbt.Hub.FanOut
import Vbt.Hub.Kept

/-!
# The frames a message makes the hub hand over, in any state

The bounds of this module need nothing of the tables: whatever they hold, a message makes the hub
hand over a frame at most twice for each entry of the peer table and once more, and each copy of a
bridge's frame has a TTL that is one less.

* `hands`: the frames handed over, with their destinations; `taken`: those that the sockets took;
* `Relays n P`: at most `n` frames are handed over, all of them in `P`;
* `Persists`: sockets stay unless their closing is on record; `Quiet`: all of them do, and nothing
  is handed over;
* `receive_persists`, `receive_relays`, `receive_silent`;
* `step_persists`: the same for every event.
-/

namespace Vbt
namespace Hub

/-- The frames handed over by some actions, with the slots of the peers, oldest first. -/
def hands (l : List Act) : List (ℕ × Frame) :=
  (l.filterMap fun a => match a with
    | .hand q f => some (q, f)
    | _ => none).reverse

@[simp] theorem hands_nil : hands [] = [] := rfl

@[simp] theorem hands_append (l l' : List Act) : hands (l ++ l') = hands l' ++ hands l := by
  simp [hands]

theorem mem_hands {q : ℕ} {f : Frame} {l : List Act} : (q, f) ∈ hands l ↔ Act.hand q f ∈ l := by
  simp only [hands, List.mem_reverse, List.mem_filterMap]
  constructor
  · rintro ⟨a, ha, hf⟩
    cases a <;> simp at hf
    obtain ⟨rfl, rfl⟩ := hf
    exact ha
  · intro h
    exact ⟨_, h, rfl⟩

/-- The frames of them that the sockets or their backlogs took, newest first: a send that ends in a
drop or in the closing of the socket is undone. -/
def taken : List Act → List (ℕ × Frame)
  | [] => []
  | .hand q f :: l => (q, f) :: taken l
  | .dropped q :: l => (taken l).eraseP fun x => x.1 == q
  | .closed q :: l => (taken l).eraseP fun x => x.1 == q
  | .opened _ _ :: l | .named _ _ :: l | .hello _ _ _ _ _ :: l | .frame _ _ _ :: l
  | .snooped _ _ _ _ :: l | .wrote _ _ :: l | .rxWrap _ :: l | .reply _ :: l => taken l

/-- What is taken was handed over. -/
theorem taken_sublist (l : List Act) : (taken l).Sublist (hands l).reverse := by
  induction l with
  | nil => exact List.Sublist.slnil
  | cons a l ih =>
    have hcons : (hands (a :: l)).reverse = (hands [a]).reverse ++ (hands l).reverse := by
      rw [← List.reverse_append, ← hands_append, List.singleton_append]
    rw [hcons]
    cases a with
    | hand q f => exact ih.cons_cons _
    | dropped q => exact List.eraseP_sublist.trans ih
    | closed q => exact List.eraseP_sublist.trans ih
    | _ => exact ih

theorem filter_eraseP {α : Type*} {p r : α → Bool} (h : ∀ x, p x = true → r x = false)
    (l : List α) :
    (l.eraseP p).filter r = l.filter r := by
  induction l with
  | nil => rfl
  | cons x l ih =>
    cases hx : p x with
    | true => rw [List.eraseP_cons_of_pos hx, List.filter_cons_of_neg (by simp [h x hx])]
    | false => rw [List.eraseP_cons_of_neg (by simp [hx]), List.filter_cons, List.filter_cons, ih]

/-- A socket that neither drops a message nor closes takes what it is handed. -/
theorem taken_filter {q : ℕ} {l : List Act} (hc : Act.closed q ∉ l) (hd : Act.dropped q ∉ l) :
    ((taken l).filter fun x => x.1 == q).map Prod.snd = handsTo q l := by
  induction l with
  | nil => rfl
  | cons a l ih =>
    rw [List.mem_cons, not_or] at hc hd
    have ih := ih hc.2 hd.2
    -- the last message to another slot is not looked at
    have hne : ∀ p, p ≠ q → ∀ x : ℕ × Frame, (x.1 == p) = true → (x.1 == q) = false := by
      intro p hp x hx
      rw [beq_iff_eq] at hx
      rw [beq_eq_false_iff_ne, hx]
      exact hp
    cases a with
    | hand p f =>
      by_cases hp : p = q
      · subst hp
        rw [taken, List.filter_cons_of_pos (by simp), List.map_cons, ih]
        simp [handsTo]
      · rw [taken, List.filter_cons_of_neg (by simpa using hp), ih]
        simp [handsTo, hp]
    | dropped p =>
      rw [taken, filter_eraseP (hne p fun he => hd.1 (he ▸ rfl)), ih]
      rfl
    | closed p =>
      rw [taken, filter_eraseP (hne p fun he => hc.1 (he ▸ rfl)), ih]
      rfl
    | _ =>
      rw [taken, ih]
      rfl

/-- From `s` to `s'` the hub hands over at most `n` frames, and all of them are in `P`. -/
def Relays (n : ℕ) (P : Frame → Prop) (s s' : Hub) : Prop :=
  ∃ new, s'.log = new ++ s.log ∧ (hands new).length ≤ n ∧ ∀ x ∈ hands new, P x.2

namespace Relays

variable {n m : ℕ} {P : Frame → Prop} {s s' s'' : Hub}

theorem of_log (h : s'.log = s.log) : Relays 0 P s s' := ⟨[], by simp [h]⟩

theorem of_note {a : Act} (h : s'.log = a :: s.log) (ha : ∀ q f, a ≠ .hand q f) :
    Relays 0 P s s' := by
  refine ⟨[a], h, ?_⟩
  cases a with
  | hand q f => exact absurd rfl (ha q f)
  | _ => simp [hands]

theorem note (s : Hub) {a : Act} (ha : ∀ q f, a ≠ .hand q f) :
    Relays 0 P s (s.note a) := of_note rfl ha

theorem trans (h : Relays n P s s') (h' : Relays m P s' s'') : Relays (n + m) P s s'' := by
  obtain ⟨new, hlog, hlen, hP⟩ := h
  obtain ⟨new', hlog', hlen', hP'⟩ := h'
  refine ⟨new' ++ new, by rw [hlog', hlog, List.append_assoc], ?_, ?_⟩
  · rw [hands_append, List.length_append]
    omega
  · intro x hx
    rw [hands_append] at hx
    rcases List.mem_append.1 hx with hx | hx
    · exact hP x hx
    · exact hP' x hx

theorem then_note (h : Relays n P s s') {a : Act} (ha : ∀ q f, a ≠ .hand q f) :
    Relays n P s (s'.note a) :=
  h.trans (note s' ha)

theorem mono (h : Relays n P s s') (hnm : n ≤ m) : Relays m P s s' := by
  obtain ⟨new, hlog, hlen, hP⟩ := h
  exact ⟨new, hlog, hlen.trans hnm, hP⟩

theorem did (h : Relays n P s s') :
    (hands (did s s')).length ≤ n ∧ ∀ x ∈ hands (did s s'), P x.2 := by
  obtain ⟨new, hlog, hlen, hP⟩ := h
  rw [did_eq new hlog]
  exact ⟨hlen, hP⟩

/-- A loop each iteration of which hands over one frame at most. -/
theorem foldl {f : Hub → ℕ → Hub} (hf : ∀ t i, Relays 1 P t (f t i)) (l : List ℕ) (s : Hub) :
    Relays l.length P s (l.foldl f s) := by
  induction l generalizing s with
  | nil => exact of_log rfl
  | cons i l ih =>
    rw [List.length_cons, Nat.add_comm]
    exact (hf s i).trans (ih (f s i))

end Relays

/-! ### Sends -/

section Sends

variable {P : Frame → Prop}

theorem peerClose_silent (s : Hub) (idx : ℕ) : Relays 0 P s (s.peerClose idx) := by
  cases ho : (s.peers idx).isOpen with
  | false =>
    rw [peerClose_of_closed ho]
    exact .of_log rfl
  | true => exact .of_note (peerClose_log ho) fun _ _ h => by cases h

theorem bufferRest_silent (s : Hub) (idx : ℕ) (data : List UInt8) :
    Relays 0 P s (s.bufferRest idx data).1 := by
  simp only [bufferRest]
  split_ifs
  · exact peerClose_silent s idx
  · exact .of_note rfl fun _ _ h => by cases h
  · exact .of_log rfl

theorem peerSend_silent (s : Hub) (idx : ℕ) (data : List UInt8) :
    Relays 0 P s (s.peerSend idx data).1 :=
  peerSend_rule s idx data (.of_log rfl) (fun _ _ => .of_note rfl fun _ _ h => by cases h)
    (fun t ht => ht.trans (peerClose_silent t idx))
    fun t rest ht => ht.trans (bufferRest_silent t idx rest)

theorem deliverToPeer_relays (s : Hub) (dst : ℕ) {hdr : VbtFrameHdr} {pdu : List UInt8} (rssi : ℤ)
    (hP : ∀ rssi, P ⟨{ hdr with rssi }, pdu⟩) :
    Relays 1 P s (s.deliverToPeer dst hdr pdu rssi) := by
  have hn : Relays 1 P s (s.note (.hand dst ⟨{ hdr with rssi := Int8.ofInt rssi }, pdu⟩)) :=
    ⟨[.hand dst ⟨{ hdr with rssi := Int8.ofInt rssi }, pdu⟩], rfl, le_refl 1, by
      intro x hx
      rw [List.mem_singleton.1 hx]
      exact hP _⟩
  exact deliverToPeer_rule (fun data => hn.trans (peerSend_silent _ dst data))
    fun _ _ ht => ht.trans (.of_log rfl)

theorem deliverHeard_relays (s : Hub) (node : Option ℕ) (k dst : ℕ) {hdr : VbtFrameHdr}
    {pdu : List UInt8} (hP : ∀ rssi, P ⟨{ hdr with rssi }, pdu⟩) :
    Relays 1 P s (s.deliverHeard node k dst hdr pdu) := by
  simp only [deliverHeard]
  generalize s.propagate (node.map s.nodes) (s.nodes k) hdr.txPowerDbm hdr.rssi = heard
  have hk : Relays 0 P s { s with kern := heard.kern } := .of_log rfl
  split_ifs
  · exact (hk.trans (deliverToPeer_relays _ dst _ hP)).mono (by omega)
  · exact (Relays.of_log rfl).mono (by omega)

/-! ### Forwarding -/

variable {hdr : VbtFrameHdr} {pdu : List UInt8} (hP : ∀ rssi, P ⟨{ hdr with rssi }, pdu⟩)
include hP

theorem sweep_relays (s : Hub) (sel : Peer → Bool) (src : ℕ) :
    Relays s.peers.size P s (s.sweep sel src hdr pdu) := by
  have h := Relays.foldl (P := P) (f := fun s i => s.sweepOne sel src hdr pdu i) ?_
    (List.range s.peers.size) s
  · rw [List.length_range] at h
    exact h
  · intro t i
    unfold sweepOne
    split_ifs
    · exact deliverToPeer_relays t i _ hP
    · exact (Relays.of_log rfl).mono (by omega)

theorem fanOut_relays (s : Hub) (src : ℕ) (node : Option ℕ) :
    Relays s.peers.size P s (s.fanOut src node hdr pdu) := by
  have h := Relays.foldl (P := P) (f := fun s i => s.fanOutOne src node hdr pdu i) ?_
    (List.range s.peers.size) s
  · rw [List.length_range] at h
    exact h
  · intro t i
    have hrefl : Relays 1 P t t := (Relays.of_log rfl).mono (by omega)
    unfold fanOutOne
    split_ifs
    · exact hrefl
    · exact deliverToPeer_relays t i _ hP
    · split
      · exact hrefl
      · exact deliverHeard_relays t node _ i hP

theorem routed_relays (s : Hub) (node : Option ℕ) : Relays 1 P s (s.routed node hdr pdu) := by
  have hrefl : ∀ t : Hub, Relays 1 P t t := fun t => (Relays.of_log rfl).mono (by omega)
  unfold routed
  split
  · exact hrefl s
  · rename_i c _
    have hc : Relays 0 P s (s.modConn c fun c => { c with pdus := c.pdus + 1 }) := .of_log rfl
    refine (hc.trans (m := 1) ?_).mono (by omega)
    unfold routeTo
    split
    · exact hrefl _
    · split_ifs
      · exact hrefl _
      · split
        · exact hrefl _
        · exact deliverHeard_relays _ node _ _ hP

end Sends

/-! ### Sockets -/

/-- The log and the peer table grow, and a socket is there, a bridge or not as before, unless its
closing is on record. -/
structure Persists (s s' : Hub) : Prop where
  suffix : s.log <:+ s'.log
  size_le : s.peers.size ≤ s'.peers.size
  peer : ∀ p < s.peers.size, (s.peers p).isOpen = true → Act.closed p ∉ did s s' →
    (s'.peers p).isOpen = true ∧ (s'.peers p).isBridge = (s.peers p).isBridge

namespace Persists

variable {s s' s'' : Hub}

theorem of_peers (h : s'.peers = s.peers) (hlog : s.log <:+ s'.log) : Persists s s' :=
  ⟨hlog, by rw [h], fun p _ hp _ => by rw [h]; exact ⟨hp, rfl⟩⟩

theorem of_log (h : s'.peers = s.peers) (hlog : s'.log = s.log) : Persists s s' :=
  of_peers h (hlog ▸ List.suffix_rfl)

theorem refl (s : Hub) : Persists s s := of_log rfl rfl

theorem trans (h : Persists s s') (h' : Persists s' s'') : Persists s s'' := by
  refine ⟨h.suffix.trans h'.suffix, h.size_le.trans h'.size_le, fun p hlt hp hc => ?_⟩
  rw [did_trans h.suffix h'.suffix, List.mem_append, not_or] at hc
  obtain ⟨hp', hb⟩ := h.peer p hlt hp hc.2
  obtain ⟨hp'', hb'⟩ := h'.peer p (hlt.trans_le h.size_le) hp' hc.1
  exact ⟨hp'', hb'.trans hb⟩

theorem note (s : Hub) (a : Act) : Persists s (s.note a) := of_peers rfl (List.suffix_cons _ _)

theorem modPeer (s : Hub) (i : ℕ) {f : Peer → Peer} (ho : ∀ p, (f p).isOpen = p.isOpen)
    (hb : ∀ p, (f p).isBridge = p.isBridge) : Persists s (s.modPeer i f) := by
  refine ⟨List.suffix_rfl, le_refl _, fun p _ hp _ => ?_⟩
  have hopen := s.peers.modify_attr Peer.isOpen ho i p
  exact ⟨hopen.trans hp, s.peers.modify_attr Peer.isBridge hb i p⟩

end Persists

/-- Slot `p` is an open bridge. -/
structure OpenBridge (s : Hub) (p : ℕ) : Prop where
  lt : p < s.peers.size
  isOpen : (s.peers p).isOpen = true
  isBridge : (s.peers p).isBridge = true

theorem Persists.openBridge {s s' : Hub} (h : Persists s s') {p : ℕ} (hp : s.OpenBridge p)
    (hc : Act.closed p ∉ did s s') : s'.OpenBridge p := by
  obtain ⟨ho, hb⟩ := h.peer p hp.lt hp.isOpen hc
  exact ⟨hp.lt.trans_le h.size_le, ho, hb.trans hp.isBridge⟩

theorem peerClose_persists (s : Hub) (idx : ℕ) : Persists s (s.peerClose idx) := by
  cases ho : (s.peers idx).isOpen with
  | false =>
    rw [peerClose_of_closed ho]
    exact .refl s
  | true =>
    have hlog := peerClose_log ho
    refine ⟨hlog ▸ List.suffix_cons _ _, (peerClose_touches s idx).size.ge, fun p _ hp hc => ?_⟩
    rw [did_eq [.closed idx] hlog] at hc
    have hne : p ≠ idx := by
      rintro rfl
      exact hc (List.mem_singleton_self _)
    rw [peerClose_peers ho, Slots.set_of_ne _ _ hne]
    exact ⟨hp, rfl⟩

theorem bufferRest_persists (s : Hub) (idx : ℕ) (data : List UInt8) :
    Persists s (s.bufferRest idx data).1 := by
  simp only [bufferRest]
  split_ifs
  · exact peerClose_persists s idx
  · have hd := Persists.modPeer s idx (f := fun p => { p with
      outbuf := some ((s.peers idx).outbuf.getD []), txDropped := p.txDropped + 1 })
      (fun _ => rfl) fun _ => rfl
    exact hd.trans (.of_peers rfl (List.suffix_cons _ _))
  · exact .modPeer s idx (fun _ => rfl) fun _ => rfl

theorem wrote_persists (s : Hub) (idx : ℕ) (ws : List WriteRes) (bytes : List UInt8) :
    Persists s ((s.setWrites idx ws).note (.wrote idx bytes)) :=
  .of_peers rfl (List.suffix_cons _ _)

theorem peerSend_persists (s : Hub) (idx : ℕ) (data : List UInt8) :
    Persists s (s.peerSend idx data).1 :=
  peerSend_rule s idx data (.refl s) (wrote_persists s idx)
    (fun t ht => ht.trans (peerClose_persists t idx))
    fun t rest ht => ht.trans (bufferRest_persists t idx rest)

theorem persists_kept : Kept Persists :=
  .of_rest Persists.trans (fun hp _ hlog => .of_log hp hlog) (fun _ _ => .of_log rfl rfl)
    (fun s _ _ => .note s _) peerSend_persists

theorem size_kept : Kept fun s s' : Hub => s'.peers.size = s.peers.size :=
  .of_rest (fun h h' => h'.trans h) (fun hp _ _ => by rw [hp]) (fun _ _ => rfl) (fun _ _ _ => rfl)
    fun s dst data => (peerSend_touches s dst data).size

/-! ### Messages -/

/-- Nothing is handed over, and every socket stays. -/
structure Quiet (s s' : Hub) : Prop where
  silent : ∀ P, Relays 0 P s s'
  persists : Persists s s'
  size : s'.peers.size = s.peers.size

namespace Quiet

variable {s s' s'' : Hub}

theorem of_peers (h : s'.peers = s.peers) (hlog : s'.log = s.log) : Quiet s s' :=
  ⟨fun _ => .of_log hlog, .of_log h hlog, by rw [h]⟩

theorem trans (h : Quiet s s') (h' : Quiet s' s'') : Quiet s s'' :=
  ⟨fun P => (h.silent P).trans (h'.silent P), h.persists.trans h'.persists, h'.size.trans h.size⟩

theorem then_note (h : Quiet s s') {a : Act} (ha : ∀ q f, a ≠ .hand q f) : Quiet s (s'.note a) :=
  ⟨fun P => (h.silent P).then_note ha, h.persists.trans (.note s' a), h.size⟩

theorem modPeer (s : Hub) (i : ℕ) {f : Peer → Peer} (ho : ∀ p, (f p).isOpen = p.isOpen)
    (hb : ∀ p, (f p).isBridge = p.isBridge) : Quiet s (s.modPeer i f) :=
  ⟨fun _ => .of_log rfl, .modPeer s i ho hb, rfl⟩

end Quiet

theorem findNode_quiet (s : Hub) (nid : NodeId) (create : Bool) :
    Quiet s (s.findNode nid create).1 := by
  unfold findNode
  cases s.nodeByName nid with
  | some k => exact .of_peers rfl rfl
  | none =>
    cases create with
    | false => exact .of_peers rfl rfl
    | true =>
      simp only [if_true]
      cases s.nodes.alloc MAX_NODES (fun nd => !nd.active) (newNode nid) with
      | none => exact .of_peers rfl rfl
      | some r =>
        refine Quiet.then_note ?_ fun _ _ h => by cases h
        exact .of_peers rfl rfl

theorem bindTables_quiet (s : Hub) (p k : ℕ) (ph : Bool) : Quiet s (s.bindTables p k ph) := by
  obtain ⟨-, -, hlog, hsize⟩ := bindTables_rest s p k ph
  refine ⟨fun _ => .of_log hlog, ⟨hlog ▸ List.suffix_rfl, hsize.ge, fun q _ hq _ => ?_⟩, hsize⟩
  rw [bindTables_peer]
  exact ⟨hq, rfl⟩

theorem bindPeerNode_quiet (s : Hub) (p : ℕ) (nid : NodeId) (ph : Bool) :
    Quiet s (s.bindPeerNode p nid ph) := by
  have hfind := findNode_quiet s nid true
  unfold bindPeerNode
  generalize s.findNode nid true = r at hfind
  obtain ⟨t, k⟩ := r
  cases k with
  | none =>
    refine hfind.then_note ?_
    exact fun _ _ h => by cases h
  | some k =>
    refine (hfind.trans (bindTables_quiet t p k ph)).then_note ?_
    exact fun _ _ h => by cases h

/-- A hello hands nothing over and leaves the sockets as they are. -/
theorem takeHello_quiet (s : Hub) (p : ℕ) (hello : Hello) : Quiet s (s.takeHello p hello) := by
  refine takeHello_rule (J := fun t _ => Quiet s t) hello (.of_peers rfl rfl) (.of_peers rfl rfl)
    (fun t nid ht => ?_) fun t nid ht => ht.trans (bindPeerNode_quiet t p nid hello.physical)
  have hmon : Quiet t (t.modPeer p fun q => { q with isMonitor := true }) :=
    .modPeer t p (fun _ => rfl) fun _ => rfl
  refine (ht.trans hmon).then_note ?_
  exact fun _ _ h => by cases h

section Message

variable {s : Hub} {kern : Kern} {p : ℕ} {payload : List UInt8}

theorem ready_quiet (s : Hub) (kern : Kern) (p : ℕ) : Quiet s (s.ready kern p) := by
  have hkern : Quiet s { s with kern } := .of_peers rfl rfl
  exact hkern.trans (.modPeer _ p (fun _ => rfl) fun _ => rfl)

/-- The two things a message can be. -/
theorem receive_cases (s : Hub) (kern : Kern) (p : ℕ) (payload : List UInt8) :
    Quiet s (s.receive kern p payload) ∨ ∃ f, frameOf payload = some f ∧
      s.receive kern p payload = (s.ready kern p).forwardFrame p f.hdr f.pdu := by
  cases hhello : parseHello payload with
  | some hello =>
    rw [receive_hello hhello]
    exact .inl ((ready_quiet s kern p).trans (takeHello_quiet _ p hello))
  | none =>
    cases hf : frameOf payload with
    | none =>
      rw [receive_other hhello hf]
      exact .inl (ready_quiet s kern p)
    | some f => exact .inr ⟨f, rfl, receive_frame hf⟩

theorem receive_persists (s : Hub) (kern : Kern) (p : ℕ) (payload : List UInt8) :
    Persists s (s.receive kern p payload) := by
  rcases receive_cases s kern p payload with h | ⟨f, -, h⟩
  · exact h.persists
  · rw [h]
    exact (ready_quiet s kern p).persists.trans (persists_kept.forwardFrame _ p f.hdr f.pdu)

theorem receive_size (s : Hub) (kern : Kern) (p : ℕ) (payload : List UInt8) :
    (s.receive kern p payload).peers.size = s.peers.size := by
  rcases receive_cases s kern p payload with h | ⟨f, -, h⟩
  · exact h.size
  · rw [h]
    exact size_kept.forwardFrame _ p f.hdr f.pdu

/-- A message that is not a frame makes the hub hand nothing over, and neither does a frame whose
TTL has run out. -/
theorem receive_silent (P : Frame → Prop)
    (h : ∀ f, frameOf payload = some f → ttlStep (s.peers p).isBridge f.hdr = none) :
    Relays 0 P s (s.receive kern p payload) := by
  rcases receive_cases s kern p payload with hq | ⟨f, hf, heq⟩
  · exact hq.silent P
  · rw [heq, forwardFrame_expired]
    · exact (ready_quiet s kern p).silent P
    · rw [ready_isBridge]
      exact h f hf

theorem snooped_silent (P : Frame → Prop) (s : Hub) (node : Option ℕ) (pdu : List UInt8) :
    Relays 0 P s (s.snooped node pdu) := by
  unfold snooped
  split_ifs
  · obtain ⟨-, heq⟩ | ⟨-, -, -, heq⟩ | ⟨s', c, -, he, heq⟩ := observeConnectInd_cases s node pdu <;>
      rw [heq]
    · exact .of_log rfl
    · exact .of_note rfl fun _ _ h => by cases h
    · have hlog : s'.log = s.log := by
        have hrest := (connEntry_rest s (indAA pdu)).2.2
        rwa [he] at hrest
      refine Relays.then_note ?_ fun _ _ h => by cases h
      exact .of_log hlog
  · exact .of_log rfl

/-- **A frame is handed over at most twice for each entry of the peer table and once more**, with
the header that the TTL step gave it but for the RSSI. -/
theorem receive_relays {f : Frame} (hf : frameOf payload = some f) {hdr : VbtFrameHdr}
    (httl : ttlStep (s.peers p).isBridge f.hdr = some hdr) {P : Frame → Prop}
    (hP : ∀ rssi, P ⟨{ hdr with rssi }, f.pdu⟩) :
    Relays (2 * s.peers.size + 1) P s (s.receive kern p payload) := by
  rw [receive_frame hf]
  have hready : Relays 0 P s (s.ready kern p) := .of_log rfl
  have hsize : (s.ready kern p).peers.size = s.peers.size := rfl
  rw [← ready_isBridge s kern p p] at httl
  refine (hready.trans (m := 2 * s.peers.size + 1) ?_).mono (by omega)
  rw [← hsize]
  generalize s.ready kern p = r at httl
  have hnode : ∀ t : Hub, t.peers.size = r.peers.size → ∀ sel src,
      Relays r.peers.size P t (t.sweep sel src hdr f.pdu) := fun t ht sel src =>
    ht ▸ sweep_relays hP t sel src
  -- the monitors
  have hacc : Relays 0 P r (r.accounted p hdr f.pdu) :=
    .of_note (accounted_log r p hdr f.pdu) fun _ _ h => by cases h
  have haccp : (r.accounted p hdr f.pdu).peers = r.peers := (learnTx_rest r _ hdr).1
  have htap : Relays r.peers.size P r (r.tapped p hdr f.pdu) :=
    (hacc.trans (hnode _ (by rw [haccp]) Peer.isMonitor p)).mono (by omega)
  have htsize : (r.tapped p hdr f.pdu).peers.size = r.peers.size := 
    size_kept.tapped r p hdr f.pdu
  by_cases hadv : hdr.llType = VBT_LL_ADV
  · obtain ⟨st, hst⟩ := forwardAdv_eq (r.tapped p hdr f.pdu) p (r.peers p).nodeIdx hdr f.pdu
    have hs := htap.trans (snooped_silent P (r.tapped p hdr f.pdu) (r.peers p).nodeIdx f.pdu)
    have hssize : ((r.tapped p hdr f.pdu).snooped (r.peers p).nodeIdx f.pdu).peers.size =
        r.peers.size := by
      rw [snooped_peers, htsize]
    have hfan := hs.trans (fanOut_relays hP _ p (r.peers p).nodeIdx)
    rw [hssize] at hfan
    rw [forwardFrame_adv httl hadv, hst]
    exact (hfan.trans (.of_log rfl)).mono (by omega)
  by_cases hdata : hdr.llType = VBT_LL_DATA
  · obtain ⟨st, hst⟩ := forwardData_eq (r.tapped p hdr f.pdu) p (r.peers p).nodeIdx hdr f.pdu
    rw [forwardFrame_data httl hdata, hst]
    have hr := htap.trans (routed_relays hP _ (r.peers p).nodeIdx)
    have hrsize := size_kept.routed (r.tapped p hdr f.pdu) (r.peers p).nodeIdx hdr f.pdu
    have hb := hr.trans (hnode _ (hrsize.trans htsize) Peer.isBridge p)
    exact (hb.trans (.of_log rfl)).mono (by omega)
  · rw [forwardFrame_other httl hadv hdata]
    exact htap.mono (by omega)

/-- The TTL of a message, 0 if it is no frame. -/
def ttlOf (payload : List UInt8) : ℕ :=
  match frameOf payload with
  | some f => f.hdr.flags.b3.toNat
  | none => 0

theorem ttlOf_payload_le (f : Frame) : ttlOf f.payload ≤ f.hdr.flags.b3.toNat := by
  unfold ttlOf
  split
  · rename_i g hg
    have hhdr : hdrOfBytes (fun i => f.payload.getD i 0) = f.hdr := hdrOfBytes_hdrBytes f.hdr f.pdu
    simp only [frameOf] at hg
    split_ifs at hg
    rw [← Option.some.inj hg, ← hhdr]
  · exact Nat.zero_le _

/-- A rule for any message: what is handed over is the frame it holds, after the TTL step. -/
theorem receive_relays_of {P : Frame → Prop} (hP : ∀ f hdr, frameOf payload = some f →
      ttlStep (s.peers p).isBridge f.hdr = some hdr → ∀ rssi, P ⟨{ hdr with rssi }, f.pdu⟩) :
    Relays (2 * s.peers.size + 1) P s (s.receive kern p payload) := by
  by_cases hexp : ∀ f, frameOf payload = some f → ttlStep (s.peers p).isBridge f.hdr = none
  · exact (receive_silent P hexp).mono (Nat.zero_le _)
  · push Not at hexp
    obtain ⟨f, hf, httl⟩ := hexp
    obtain ⟨hdr, hhdr⟩ := Option.ne_none_iff_exists'.1 httl
    exact receive_relays hf hhdr (hP f hdr hf hhdr)

/-- The frames that a bridge's message is handed over as have a smaller TTL. -/
theorem receive_bridge (hb : (s.peers p).isBridge = true) :
    Relays (2 * s.peers.size + 1) (fun g => ttlOf g.payload < ttlOf payload) s
      (s.receive kern p payload) := by
  refine receive_relays_of fun f hdr hf httl rssi => ?_
  have hlt : hdr.flags.b3.toNat < f.hdr.flags.b3.toNat := by
    rw [hb] at httl
    simp only [ttlStep, if_true] at httl
    split_ifs at httl with h0
    rw [← Option.some.inj httl]
    have hpos : f.hdr.flags.b3.toNat ≠ 0 := fun hc => h0 (UInt8.toNat_inj.1 hc)
    have hone : (1 : UInt8).toNat = 1 := rfl
    have hle : (1 : UInt8) ≤ f.hdr.flags.b3 := by
      rw [UInt8.le_iff_toNat_le]
      omega
    show (f.hdr.flags.b3 - 1).toNat < f.hdr.flags.b3.toNat
    rw [UInt8.toNat_sub_of_le _ _ hle]
    omega
  calc ttlOf (Frame.payload ⟨{ hdr with rssi }, f.pdu⟩) ≤ hdr.flags.b3.toNat := ttlOf_payload_le _
    _ < f.hdr.flags.b3.toNat := hlt
    _ = ttlOf payload := by simp only [ttlOf, hf]

/-- Those of a local frame start with TTL 8. -/
theorem receive_local (hb : (s.peers p).isBridge = false) :
    Relays (2 * s.peers.size + 1) (fun g => ttlOf g.payload ≤ 8) s (s.receive kern p payload) := by
  refine receive_relays_of fun f hdr hf httl rssi => (ttlOf_payload_le _).trans ?_
  rw [hb] at httl
  simp only [ttlStep, Bool.false_eq_true, if_false] at httl
  rw [← Option.some.inj httl]
  rfl

end Message

/-! ### Events -/

theorem peerFlush_persists (s : Hub) (p : ℕ) : Persists s (s.peerFlush p) :=
  peerFlush_rule s p (.modPeer s p (fun _ => rfl) fun _ => rfl) (wrote_persists s p)
    (fun t ht => ht.trans (peerClose_persists t p))
    fun t _ _ ht => ht.trans (.modPeer t p (fun _ => rfl) fun _ => rfl)

theorem peerReadableIter_persists (s : Hub) (kern : Kern) (p : ℕ) :
    Persists s (({ s with kern } : Hub).peerReadableIter p).1 := by
  have hkern : Persists s { s with kern } := .of_log rfl rfl
  have hmsg : ∀ payload, Persists s (({ s with kern } : Hub).handleMessage p payload) :=
    receive_persists s kern p
  exact peerReadableIter_rule hkern (hkern.trans (peerClose_persists _ p))
    (fun payload => (hmsg payload).trans (.note _ _))
    fun payload _ => (hmsg payload).trans (.modPeer _ p (fun _ => rfl) fun _ => rfl)

theorem recvBytes_persists (s : Hub) (p : ℕ) (r : ReadRes) : Persists s (s.recvBytes p r) :=
  recvBytes_rule r (.refl s) (peerClose_persists s p) fun _ => .modPeer s p (fun _ => rfl) fun _ => rfl

/-- A new socket takes a slot that has none. -/
theorem peerAlloc_persists (s : Hub) (fd : ℕ) (bridge : Bool) :
    Persists s (s.peerAlloc fd bridge).1 := by
  unfold peerAlloc
  cases ha : s.peers.alloc MAX_PEERS (fun p => !p.isOpen) { fd := some fd, isBridge := bridge } with
  | none => exact .refl s
  | some r =>
    obtain ⟨i, peers⟩ := r
    obtain ⟨hget, hslot⟩ := Slots.alloc_eq_some ha
    have hsize : s.peers.size ≤ peers.size := by
      rcases hslot with ⟨-, -, h⟩ | ⟨-, -, h, -⟩ <;> omega
    refine ⟨List.suffix_cons _ _, hsize, fun p hlt hp _ => ?_⟩
    have hne : p ≠ i := by
      rintro rfl
      rcases hslot with ⟨-, hfree, -⟩ | ⟨heq, -⟩
      · simp [hp] at hfree
      · omega
    show (peers p).isOpen = true ∧ (peers p).isBridge = (s.peers p).isBridge
    rw [hget, if_neg hne]
    exact ⟨hp, rfl⟩

theorem ctlDispatch_persists (s : Hub) (cmd : CtlCmd) : Persists s (s.ctlDispatch cmd) :=
  ctlDispatch_rule cmd (.refl s) (fun ident _ => (findNode_quiet s ident true).persists)
    (fun _ _ _ _ ht => ht.trans (.of_log rfl rfl)) (fun _ _ ht => ht.trans (.of_log rfl rfl))
    (fun _ _ ht => ht.trans (.of_log rfl rfl)) fun t _ ht => ht.trans (.note t _)

/-- **A socket is there until its closing is on record**, whatever happens. -/
theorem step_persists (s : Hub) (e : Event) : Persists s (s.step e) := by
  have hkern : ∀ kern, Persists s { s with kern } := fun _ => .of_log rfl rfl
  exact step_rule e (.refl s) (peerAlloc_persists s) (fun _ _ ht => ht.trans (.of_log rfl rfl))
    (fun p r _ => recvBytes_persists s p r) (fun p kern _ _ => peerReadableIter_persists s kern p)
    (fun p kern => (hkern kern).trans (peerFlush_persists _ p)) (peerClose_persists s)
    fun cmd _ => ctlDispatch_persists s cmd

end Hub
end Vbt
