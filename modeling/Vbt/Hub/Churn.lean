import Vbt.Hub.Kept
import Vbt.Hub.Learning
import Vbt.Hub.Stability

/-!
# Connection churn

The connection table gives an entry up only when a peer of one of its nodes goes. What counts
against the capacity is therefore every Access Address whose CONNECT_IND was forwarded and whose
endpoints are attached, terminated or not.

* `receive_calm`: while no socket fails, no peer is closed;
* `current`, `live`, `attached`: the connections of a history, with and without the end that an
  LL_TERMINATE_IND puts to them;
* `entry_obtained`: with at most 511 attached connections, a CONNECT_IND gets an entry;
* `churn_exhausts`: 512 connections that were made and terminated one after the other fill the
  table.
-/

namespace Vbt

/-! ### Sockets that do not fail -/

/-- No socket fails, and memory does not run out. -/
def Kern.Healthy (kern : Kern) : Prop :=
  ∀ i, kern.malloc i = true ∧ ∀ w ∈ kern.write i, w ≠ .error ∧ w ≠ .wrote 0

theorem Kern.quiet_healthy : Kern.quiet.Healthy := by
  intro i
  refine ⟨rfl, fun w hw => ?_⟩
  obtain rfl := List.eq_of_mem_replicate hw
  decide

namespace Hub

open Router

/-- From `s` to `s'` no peer was closed, and the sockets are still healthy. -/
structure Calm (s s' : Hub) : Prop where
  healthy : s'.kern.Healthy
  steps : ∃ new, s'.log = new ++ s.log ∧ ∀ p, Act.closed p ∉ new

namespace Calm

variable {s s' s'' : Hub}

theorem refl (h : s.kern.Healthy) : Calm s s := ⟨h, [], rfl, by simp⟩

theorem trans (h : Calm s s') (h' : Calm s' s'') : Calm s s'' := by
  obtain ⟨new, hlog, hnew⟩ := h.steps
  obtain ⟨new', hlog', hnew'⟩ := h'.steps
  refine ⟨h'.healthy, new' ++ new, by rw [hlog', hlog, List.append_assoc], fun p hp => ?_⟩
  obtain hp | hp := List.mem_append.1 hp
  · exact hnew' p hp
  · exact hnew p hp

/-- Then something that is not logged. -/
theorem thenRest (h : Calm s s') (hk : s''.kern.Healthy) (hlog : s''.log = s'.log) : Calm s s'' :=
  h.trans ⟨hk, [], hlog, by simp⟩

theorem thenNote (h : Calm s s') {a : Act} (ha : ∀ p, a ≠ .closed p) : Calm s (s'.note a) :=
  h.trans ⟨h.healthy, [a], rfl, fun p hp => ha p (List.mem_singleton.1 hp).symm⟩

theorem not_mem_did (h : Calm s s') (p : ℕ) : Act.closed p ∉ did s s' := by
  obtain ⟨new, hlog, hnew⟩ := h.steps
  rw [did_eq new hlog]
  exact hnew p

end Calm

variable {s : Hub}

theorem bufferRest_calm (h : s.kern.Healthy) (idx : ℕ) (data : List UInt8) :
    Calm s (s.bufferRest idx data).1 := by
  simp only [bufferRest, (h idx).1, Bool.not_true, Bool.and_false, Bool.false_eq_true, if_false]
  split_ifs
  · refine Calm.thenNote ?_ (fun _ h => by cases h)
    exact (Calm.refl h).thenRest h rfl
  · exact (Calm.refl h).thenRest h rfl

theorem peerSend_calm (h : s.kern.Healthy) (idx : ℕ) (data : List UInt8) :
    Calm s (s.peerSend idx data).1 := by
  simp only [peerSend]
  split_ifs
  · exact .refl h
  · have hloop := writeLoop_healthy data.length 0 (s.kern.write idx) (h idx).2
    generalize writeLoop data.length 0 (s.kern.write idx) = res at hloop
    obtain ⟨off, ending, ws⟩ := res
    have hk : (s.setWrites idx ws).kern.Healthy := by
      intro i
      refine ⟨(h i).1, fun w hw => ?_⟩
      simp only [setWrites] at hw
      split_ifs at hw
      · exact hloop.2 w hw
      · exact (h i).2 w hw
    have hw : Calm s ((s.setWrites idx ws).note (.wrote idx (data.take off))) :=
      ((Calm.refl h).thenRest hk rfl).thenNote fun _ h => by cases h
    cases ending with
    | finished => exact hw
    | blocked => exact hw.trans (bufferRest_calm hw.healthy idx _)
    | failed => exact absurd rfl hloop.1
  · exact bufferRest_calm h idx data

theorem calm_kept : Kept fun s s' => s.kern.Healthy → Calm s s' :=
  .of_rest (fun h h' hs => (h hs).trans (h' (h hs).healthy))
    (fun _ hk hlog hs => (Calm.refl hs).thenRest (hk.symm ▸ hs) hlog)
    (fun _ _ hs => (Calm.refl hs).thenRest hs rfl) (fun _ _ ha hs => (Calm.refl hs).thenNote ha)
    fun _ dst data hs => peerSend_calm hs dst data

/-- **While no socket fails, forwarding a frame closes no peer.** -/
theorem receive_calm (s : Hub) {kern : Kern} (hk : kern.Healthy) (src : ℕ) {payload : List UInt8}
    {f : Frame} (hf : frameOf payload = some f) (p : ℕ) :
    Act.closed p ∉ did s (s.receive kern src payload) := by
  have hr : Calm (s.ready kern src) ((s.ready kern src).forwardFrame src f.hdr f.pdu) :=
    calm_kept.forwardFrame _ src f.hdr f.pdu hk
  rw [receive_frame hf]
  exact hr.not_mem_did p

/-! ### The connections of a history -/

/-- An LL control PDU with opcode LL_TERMINATE_IND. -/
def isTerminate (pdu : List UInt8) : Bool :=
  decide (3 ≤ pdu.length) && pdu.getD 0 0 &&& 3 == 3 && pdu.getD 2 0 == 2

/-- The endpoints of the connection of an Access Address: those of the last CONNECT_IND that carried
it, unless the peer of one of them closed since or, if `ended`, an LL_TERMINATE_IND was
forwarded on it since. -/
def current (ended : Bool) (aa : UInt32) : List Act → Option Ends
  | [] => none
  | .snooped x a b _ :: t => if x = aa then some ⟨a, b⟩ else current ended aa t
  | .closed p :: t => (current ended aa t).filter fun e => !e.has ((medium.replay t).nodeOf p)
  | .frame _ hdr pdu :: t =>
    if ended && hdr.llType == VBT_LL_DATA && hdr.accessAddr == aa && isTerminate pdu then none
    else current ended aa t
  | _ :: t => current ended aa t

/-- The Access Addresses of the CONNECT_INDs of a history. -/
def indAAs (log : List Act) : Finset UInt32 :=
  (log.filterMap fun a => match a with
    | .snooped aa _ _ _ => some aa
    | _ => none).toFinset

/-- The live connections: made, not terminated, and with both peers attached. -/
def live (log : List Act) : Finset UInt32 :=
  (indAAs log).filter fun aa => (current true aa log).isSome

/-- The connections that were made and have both peers attached, terminated or not. -/
def attached (log : List Act) : Finset UInt32 :=
  (indAAs log).filter fun aa => (current false aa log).isSome

theorem mem_indAAs {aa : UInt32} {log : List Act} :
    aa ∈ indAAs log ↔ ∃ a b slot, Act.snooped aa a b slot ∈ log := by
  simp only [indAAs, List.mem_toFinset, List.mem_filterMap]
  constructor
  · rintro ⟨act, hact, haa⟩
    cases act <;> simp only [Option.some.injEq, reduceCtorEq] at haa
    subst haa
    exact ⟨_, _, _, hact⟩
  · rintro ⟨a, b, slot, h⟩
    exact ⟨_, h, rfl⟩

theorem mem_indAAs_of_current {ended : Bool} {aa : UInt32} {log : List Act} {e : Ends}
    (h : current ended aa log = some e) : aa ∈ indAAs log := by
  rw [mem_indAAs]
  -- the CONNECT_IND is the newest action, or it is there before
  have later : ∀ {act t}, (∃ a b slot, Act.snooped aa a b slot ∈ t) →
      ∃ a b slot, Act.snooped aa a b slot ∈ act :: t := fun ⟨a, b, slot, h⟩ =>
    ⟨a, b, slot, List.mem_cons_of_mem _ h⟩
  induction log generalizing e with
  | nil => cases h
  | cons act t ih =>
    cases act with
    | snooped x a b slot =>
      simp only [current] at h
      split_ifs at h with hx
      · exact ⟨a, b, slot, hx ▸ List.mem_cons_self⟩
      · exact later (ih h)
    | closed p => exact later (ih (Option.filter_eq_some_iff.1 h).1)
    | frame src hdr pdu =>
      simp only [current] at h
      split_ifs at h
      exact later (ih h)
    | opened | named | hello | hand | wrote | dropped | rxWrap | reply => exact later (ih h)

/-- A link is the current connection of its Access Address. -/
theorem current_of_link {log : List Act} (hlegal : medium.Legal log) {aa : UInt32} {e : Ends}
    (h : (medium.replay log).link aa = some e) : current false aa log = some e := by
  induction log generalizing e with
  | nil => cases h
  | cons act t ih =>
    have hsame : (∀ a b slot, act ≠ .snooped aa a b slot) → current false aa t = some e := fun hs =>
      ih hlegal.2 ((link_apply_iff hs).1 h).1
    cases act with
    | snooped x a b slot =>
      by_cases hx : x = aa
      · subst hx
        cases slot with
        | none =>
          -- the table was full, so there was no link
          have hnone : (medium.replay t).link x = none := hlegal.1.2.2 rfl
          rw [show (medium.replay t).link x = some e from h] at hnone
          cases hnone
        | some c =>
          simp only [Journal.replay_cons, medium_apply, Router.apply, record, if_true] at h
          simp only [current, if_true, h]
      · simp only [current, if_neg hx]
        refine hsame ?_
        rintro a' b' slot' hc
        cases hc
        exact hx rfl
    | closed p =>
      obtain ⟨hl, hp⟩ := link_of_close.1 h
      simp [current, ih hlegal.2 hl, hp]
    | opened | named | hello | frame | hand | wrote | dropped | rxWrap | reply =>
      exact hsame fun _ _ _ h => by cases h

/-- What is in the table is attached. -/
theorem linked_subset_attached {s : Hub} (h : Tracked s) : s.linked ⊆ attached s.log := by
  intro aa haa
  obtain ⟨e, he⟩ := (mem_linked h.tidy).1 haa
  rw [h.router] at he
  have hc := current_of_link h.legal he
  exact Finset.mem_filter.2 ⟨mem_indAAs_of_current hc, by simp [hc]⟩

/-- **Churn is harmless while at most 511 connections are attached**, terminated or not: then every
CONNECT_IND that is forwarded obtains an entry of the connection table, which routes its data
PDUs unless a peer of an endpoint is closed meanwhile. -/
theorem entry_obtained {s : Hub} (hr : Reachable s) (hroom : (attached s.log).card ≤ 511) {src : ℕ}
    (ho : (s.peers src).isOpen = true) {payload : List UInt8} {f : Frame}
    (hf : frameOf payload = some f) (hadv : f.hdr.llType = VBT_LL_ADV) (hind : Snoops f.pdu)
    (httl : ttlStep (s.peers src).isBridge f.hdr ≠ none) (kern : Kern) :
    ∃ b c, Act.snooped (indAA f.pdu) (s.peers src).nodeIdx b (some c) ∈
        did s (s.receive kern src payload) ∧
      ((∀ q, Act.closed q ∈ did s (s.receive kern src payload) →
          Ends.has ⟨(s.peers src).nodeIdx, b⟩ (s.peers q).nodeIdx = false) →
        ∃ c', (s.receive kern src payload).findConn (indAA f.pdu) = some c' ∧
          ((s.receive kern src payload).conns c').ends = ⟨(s.peers src).nodeIdx, b⟩) := by
  have h := hr.tracked
  have hlt : s.linked.card < MAX_CONNS := by
    have hle := Finset.card_le_card (linked_subset_attached h)
    have hmax : MAX_CONNS = 512 := rfl
    omega
  obtain ⟨b, c, hs, -⟩ := snooped_receive h ho hf hadv hind httl kern (Or.inl hlt)
  refine ⟨b, c, hs, fun hclosed => ?_⟩
  exact Option.map_eq_some_iff.1 (link_receive_snooped h ho hf hadv hind httl kern hs hclosed)

/-- A second CONNECT_IND of `A` to `B`. -/
def secondInd : Frame :=
  plainFrame VBT_LL_ADV VBT_ADV_ACCESS_ADDR (addr 1) (connectInd (addr 1) (addr 2) 0x51)

theorem entry_obtained_link :
    ∃ b c, Act.snooped (indAA secondInd.pdu) (((Hub.init 0).run linkRun).peers 0).nodeIdx b (some c) ∈
      did ((Hub.init 0).run linkRun)
        (((Hub.init 0).run linkRun).receive Kern.quiet 0 secondInd.payload) := by
  have hr : Reachable ((Hub.init 0).run linkRun) := ⟨0, linkRun, rfl⟩
  have ho : (((Hub.init 0).run linkRun).peers 0).isOpen = true := by decide +kernel
  have hf : frameOf secondInd.payload = some secondInd := by decide +kernel
  obtain ⟨b, c, hs, -⟩ := entry_obtained hr (by decide +kernel) ho hf (by decide) (by decide +kernel)
    (by decide +kernel) Kern.quiet
  exact ⟨b, c, hs⟩

/-! ### A table full of terminated connections -/

section Live

variable {new old : List Act}

theorem mem_live {aa : UInt32} {log : List Act} : aa ∈ live log ↔ current true aa log ≠ none := by
  rw [live, Finset.mem_filter, Option.isSome_iff_ne_none]
  refine ⟨fun h => h.2, fun h => ⟨?_, h⟩⟩
  obtain ⟨e, he⟩ := Option.ne_none_iff_exists'.1 h
  exact mem_indAAs_of_current he

/-- A connection that is live after an action was live before, unless a CONNECT_IND made it. -/
theorem current_of_cons {act : Act} {t : List Act} {aa : UInt32}
    (hs : ∀ a b slot, act ≠ .snooped aa a b slot) (h : current true aa (act :: t) ≠ none) :
    current true aa t ≠ none := by
  cases act with
  | snooped x a b slot =>
    have hx : x ≠ aa := fun hc => hs a b slot (hc ▸ rfl)
    rwa [current, if_neg hx] at h
  | closed p =>
    intro hc
    simp [current, hc] at h
  | frame src hdr pdu =>
    simp only [current] at h
    split_ifs at h
    · exact absurd rfl h
    · exact h
  | opened | named | hello | hand | wrote | dropped | rxWrap | reply => exact h

/-- While only CONNECT_INDs for `S` are forwarded, what is live stays in `S`. -/
theorem live_subset_of_snooped {S : Finset UInt32} (hold : live old ⊆ S)
    (hnew : ∀ aa a b slot, Act.snooped aa a b slot ∈ new → aa ∈ S) : live (new ++ old) ⊆ S := by
  induction new with
  | nil => exact hold
  | cons act new ih =>
    intro aa haa
    by_cases hs : ∃ a b slot, act = .snooped aa a b slot
    · obtain ⟨a, b, slot, rfl⟩ := hs
      exact hnew aa a b slot List.mem_cons_self
    · push Not at hs
      refine ih (fun x a b slot hx => hnew x a b slot (List.mem_cons_of_mem _ hx)) (mem_live.2 ?_)
      exact current_of_cons hs (mem_live.1 haa)

/-- An LL_TERMINATE_IND ends the connection for good, unless a CONNECT_IND makes it again. -/
theorem not_mem_live_of_terminate {aa : UInt32} {src : ℕ} {hdr : VbtFrameHdr} {pdu : List UInt8}
    (hmem : Act.frame src hdr pdu ∈ new) (hdata : hdr.llType = VBT_LL_DATA)
    (haa : hdr.accessAddr = aa) (hterm : isTerminate pdu = true)
    (hnew : ∀ a b slot, Act.snooped aa a b slot ∉ new) : aa ∉ live (new ++ old) := by
  rw [mem_live, not_not]
  induction new with
  | nil => cases hmem
  | cons act new ih =>
    have hs : ∀ a b slot, act ≠ .snooped aa a b slot := fun a b slot hc =>
      hnew a b slot (hc ▸ List.mem_cons_self)
    obtain rfl | hmem := List.mem_cons.1 hmem
    · simp [current, hdata, haa, hterm]
    · by_contra hc
      exact current_of_cons hs hc
        (ih hmem fun a b slot hx => hnew a b slot (List.mem_cons_of_mem _ hx))

/-- At no point of the history were more than `n` connections live. -/
def LiveAtMost (n : ℕ) (log : List Act) : Prop := ∀ t, t <:+ log → (live t).card ≤ n

theorem LiveAtMost.append {n : ℕ} (h : LiveAtMost n old) {S : Finset UInt32} (hS : S.card ≤ n)
    (hold : live old ⊆ S) (hnew : ∀ aa a b slot, Act.snooped aa a b slot ∈ new → aa ∈ S) :
    LiveAtMost n (new ++ old) := by
  induction new with
  | nil => exact h
  | cons act new ih =>
    intro t ht
    obtain rfl | ht := List.suffix_cons_iff.1 ht
    · exact (Finset.card_le_card (live_subset_of_snooped hold hnew)).trans hS
    · exact ih (fun x a b slot hx => hnew x a b slot (List.mem_cons_of_mem _ hx)) t ht

end Live

/-- A peer with an empty buffer sends a frame while no socket fails: the hub handles it, in a state
that differs only in the buffer, and the buffer is empty again. -/
theorem run_sends {s : Hub} (h : Tracked s) {p : ℕ} (ho : (s.peers p).isOpen = true)
    (hbuf : (s.peers p).rxbuf = []) {payload : List UInt8} {f : Frame}
    (hf : frameOf payload = some f) :
    ∃ s', Tracked s' ∧ s'.router = s.router ∧ s'.log = s.log ∧
      (s.run (sends p payload)).router = (s'.receive Kern.quiet p payload).router ∧
      (s.run (sends p payload)).log = (s'.receive Kern.quiet p payload).log ∧
      ((s.run (sends p payload)).peers p).rxbuf = [] := by
  have hlen := length_of_frameOf hf
  have hgot : (wire payload).take (VBT_RXBUF_SIZE - (s.peers p).rxbuf.length) = wire payload := by
    refine List.take_of_length_le ?_
    rw [hbuf, wire_length]
    exact Nat.add_le_add_left hlen 4
  have hrecv : s.step (.recv p (.data (wire payload))) =
      s.modPeer p fun q => { q with rxbuf := q.rxbuf ++ wire payload } := by
    simp only [step, if_pos ho, recvBytes, hgot]
    rw [if_neg (by simp [wire])]
  have hal : Alike s (s.modPeer p fun q => { q with rxbuf := q.rxbuf ++ wire payload }) := by
    refine Alike.modPeer s p ?_
    exact fun _ => rfl
  have hbuf' : ((s.modPeer p fun q => { q with rxbuf := q.rxbuf ++ wire payload }).peers p).rxbuf =
      wire payload ++ [] := by
    simp [modPeer, hbuf]
  have ho' : ((s.modPeer p fun q => { q with rxbuf := q.rxbuf ++ wire payload }).peers p).isOpen =
      true := (congrArg (fun v => v.1) (hal.peer p)).trans ho
  have ht := h.alike hal rfl
  refine ⟨s.modPeer p fun q => { q with rxbuf := q.rxbuf ++ wire payload }, ht, hal.router_eq, rfl,
    ?_⟩
  rw [sends, run_cons, run_cons, run_nil, hrecv]
  generalize (s.modPeer p fun q => { q with rxbuf := q.rxbuf ++ wire payload }) = s' at hbuf' ho' ht
  -- the message is taken off the buffer, which nothing else touched
  have hkept : ((s'.receive Kern.quiet p payload).peers p).rxbuf = wire payload ++ [] :=
    ((receive_leads ht ho' Kern.quiet payload).rxbuf
      (receive_calm s' Kern.quiet_healthy p hf p)).trans hbuf'
  rw [List.append_nil] at hkept
  rw [step_message Kern.quiet ho' hbuf' hlen,
    if_neg (by rw [hkept, wire_length]; exact lt_irrefl _)]
  refine ⟨?_, rfl, ?_⟩
  · refine Alike.router_eq (Alike.modPeer _ p ?_)
    exact fun _ => rfl
  · simp only [modPeer, Slots.modify_same, hkept]
    exact List.drop_of_length_le (wire_length payload).le

/-- A data frame that is not expired is logged. -/
theorem frame_mem_did {s : Hub} (h : Tracked s) {src : ℕ} (ho : (s.peers src).isOpen = true)
    {payload : List UInt8} {f : Frame} (hf : frameOf payload = some f)
    (hdata : f.hdr.llType = VBT_LL_DATA) (httl : ttlStep (s.peers src).isBridge f.hdr ≠ none)
    (kern : Kern) :
    ∃ flags, Act.frame src { f.hdr with flags } f.pdu ∈ did s (s.receive kern src payload) := by
  have hrt : Tracked (s.ready kern src) := (ready_leads (P := fun _ => True) h kern src).tracked
  have hro : ((s.ready kern src).peers src).isOpen = true := (ready_isOpen s kern src src).trans ho
  rw [← ready_isBridge s kern src] at httl
  obtain ⟨hdr', httl'⟩ := Option.ne_none_iff_exists'.1 httl
  obtain ⟨flags, rfl⟩ := ttlStep_eq_some httl'
  have hdid : Act.frame src { f.hdr with flags } f.pdu ∈
      did (s.ready kern src) ((s.ready kern src).forwardFrame src f.hdr f.pdu) := by
    rw [did_data hrt hro httl' hdata rfl rfl]
    simp
  rw [← receive_frame hf] at hdid
  exact ⟨flags, hdid⟩

/-- The Access Address of connection `k`. -/
def churnAA (k : ℕ) : UInt32 := .ofNat (k + 1)

/-- `A` connects to `B`. -/
def churnInd (k : ℕ) : Frame :=
  plainFrame VBT_LL_ADV VBT_ADV_ACCESS_ADDR (addr 1) (connectInd (addr 1) (addr 2) (churnAA k))

/-- `A` terminates the connection (remote user terminated connection). -/
def churnEnd (k : ℕ) : Frame := plainFrame VBT_LL_DATA (churnAA k) (addr 1) [3, 2, 2, 0x13]

/-- `A` and `B` say hello, `B` advertises, and `A` connects and disconnects `n` times. -/
def churnRun (n : ℕ) : List Event :=
  [.accept 5 false, .accept 6 false] ++ sends 0 (helloPayload [0x41] 0) ++
    sends 1 (helloPayload [0x42] 0) ++ sends 1 (advFrame 2).payload ++
    (List.range n).flatMap fun k => sends 0 (churnInd k).payload ++ sends 0 (churnEnd k).payload

theorem addr_one_ne_two : addr 1 ≠ addr 2 := by decide

theorem churnAA_toNat {k : ℕ} (h : k ≤ 512) : (churnAA k).toNat = k + 1 := by
  rw [churnAA, UInt32.toNat_ofNat']
  omega

theorem churnAA_inj {k l : ℕ} (hk : k ≤ 512) (hl : l ≤ 512) (h : churnAA k = churnAA l) :
    k = l := by
  have := congrArg UInt32.toNat h
  rw [churnAA_toNat hk, churnAA_toNat hl] at this
  omega

theorem indAA_churnInd (k : ℕ) : indAA (churnInd k).pdu = churnAA k :=
  le32_byteAt (churnAA k)

theorem snoops_churnInd {k : ℕ} (hk : k ≤ 512) : Snoops (churnInd k).pdu := by
  have hlen : (churnInd k).pdu.length = 18 := rfl
  refine ⟨?_, hlen.ge, ?_⟩
  · have h0 : (churnInd k).pdu.getD 0 0 = VBT_CONNECT_IND := rfl
    rw [isConnectInd, hlen, h0]
    decide
  rw [indAA_churnInd, validAA, Bool.and_eq_true, bne_iff_ne, bne_iff_ne]
  constructor <;> intro hc <;> have := congrArg UInt32.toNat hc <;> rw [churnAA_toNat hk] at this
  · simp at this
  · have h2 : VBT_ADV_ACCESS_ADDR.toNat = 0x8E89BED6 := rfl
    omega

theorem frameOf_churnInd (k : ℕ) : frameOf (churnInd k).payload = some (churnInd k) := by
  have hlen : (churnInd k).pdu.length = 18 := rfl
  exact frameOf_payload rfl rfl (by rw [hlen]; decide)

theorem frameOf_churnEnd (k : ℕ) : frameOf (churnEnd k).payload = some (churnEnd k) := by
  have hlen : (churnEnd k).pdu.length = 4 := rfl
  exact frameOf_payload rfl rfl (by rw [hlen]; decide)

theorem isTerminate_churnEnd (k : ℕ) : isTerminate (churnEnd k).pdu = true := by
  have hpdu : (churnEnd k).pdu = [3, 2, 2, 0x13] := rfl
  rw [hpdu]
  decide

/-- Peer `0` is ready to call: it speaks for node `0`, and node `1` is known as `addr 2`. -/
structure Caller (r : Router) : Prop where
  isOpen : r.isOpen 0 = true
  bridge : r.bridge 0 = false
  node : r.nodeOf 0 = some 0
  addrs : addr 2 ∈ r.addrs 1

theorem Caller.addrs_frame {r : Router} (h : Caller r) (ho : Owned r) {hdr : VbtFrameHdr}
    (htx : hdr.txAddr ≠ addr 2) (pdu : List UInt8) :
    addr 2 ∈ (r.apply (.frame 0 hdr pdu)).addrs 1 := by
  refine (mem_addrs_apply ho (a := .frame 0 hdr pdu) h.isOpen (fun _ _ _ _ hc _ => ?_) 1).2 h.addrs
  cases hc
  exact htx

theorem Caller.apply {r : Router} (h : Caller r) (ho : Owned r) {node : Option ℕ}
    {hdr : VbtFrameHdr} {pdu : List UInt8} (htx : hdr.txAddr ≠ addr 2) {a : Act}
    (he : r.enabled a) (ha : Forwarding 0 node hdr pdu a) (hc : ∀ p, a ≠ .closed p) :
    Caller (r.apply a) := by
  cases ha with
  | frame =>
    have haddrs := h.addrs_frame ho htx pdu
    obtain ⟨addrs, hr⟩ := r.apply_frame 0 hdr pdu
    rw [hr] at haddrs ⊢
    exact ⟨h.isOpen, h.bridge, h.node, haddrs⟩
  | snooped b slot => cases slot <;> exact ⟨h.isOpen, h.bridge, h.node, h.addrs⟩
  | delivery hd =>
    cases hd with
    | closed => exact absurd rfl (hc _)
    | hand | wrote | dropped => exact h

theorem Caller.receive {s : Hub} (h : Caller s.router) (ht : Tracked s) {kern : Kern}
    (hk : kern.Healthy) {payload : List UInt8} {f : Frame} (hf : frameOf payload = some f)
    (htx : f.hdr.txAddr ≠ addr 2) : Caller (s.receive kern 0 payload).router := by
  have hl := receive_forwards ht h.isOpen hf kern
  have hlegal := hl.tracked.legal
  rw [hl.tracked.router]
  rw [did_append hl.suffix] at hlegal ⊢
  refine hlegal.invariant_since (I := Caller) (P := fun a => a ∈ did s (s.receive kern 0 payload))
    (ht.router ▸ h) (fun t a htl ih he ha => ?_) fun _ ha => ha
  obtain ⟨hdr', httl, hfw⟩ := hl.did_forall ha
  obtain ⟨flags, rfl⟩ := ttlStep_eq_some httl
  have htx' : ({ f.hdr with flags } : VbtFrameHdr).txAddr ≠ addr 2 := htx
  refine ih.apply (owned_of_legal htl) htx' he hfw ?_
  rintro p rfl
  exact receive_calm s hk 0 hf p ha

/-- The hub after `n` calls, of which those in `S` may be live. -/
structure Churned (n : ℕ) (S : Finset UInt32) (s : Hub) : Prop where
  tracked : Tracked s
  buf : (s.peers 0).rxbuf = []
  caller : Caller s.router
  link : ∀ aa, s.router.link aa =
    if aa ∈ (Finset.range n).image churnAA then some ⟨some 0, some 1⟩ else none
  atMost : LiveAtMost 1 s.log
  live : live s.log ⊆ S

theorem Churned.linked {n : ℕ} {S : Finset UInt32} {s : Hub} (h : Churned n S s) :
    s.linked = (Finset.range n).image churnAA := by
  ext aa
  rw [mem_linked h.tracked.tidy, h.link]
  split_ifs with haa <;> simp [haa]

section Call

variable {n : ℕ} {s : Hub}

/-- A call makes a link and leaves the others. -/
theorem Churned.call (h : Churned n ∅ s) (hn : n < 512) :
    Churned (n + 1) {churnAA n} (s.run (sends 0 (churnInd n).payload)) := by
  have hf := frameOf_churnInd n
  have hk := Kern.quiet_healthy
  obtain ⟨s', ht, hrouter, hlog, hrouter', hlog', hbuf⟩ :=
    run_sends h.tracked h.caller.isOpen h.buf hf
  have hc : Caller s'.router := hrouter ▸ h.caller
  have hlinked : s'.linked ⊆ (Finset.range n).image churnAA := by
    rw [← h.linked]
    exact linked_subset h.tracked.tidy ht.tidy fun aa e he => hrouter ▸ he
  have hcard : s'.linked.card < MAX_CONNS := by
    have h1 := Finset.card_le_card hlinked
    have h2 := (Finset.card_image_le (s := Finset.range n) (f := churnAA))
    rw [Finset.card_range] at h2
    have h3 : MAX_CONNS = 512 := rfl
    omega
  have hcont := (receive_leads ht hc.isOpen Kern.quiet (churnInd n).payload)
  have hsnoop : ∀ aa a b slot, Act.snooped aa a b slot ∈
      did s' (s'.receive Kern.quiet 0 (churnInd n).payload) →
          aa ∈ ({churnAA n} : Finset UInt32) := by
    intro aa a b slot hs
    rw [(snooped_of_receive ht hc.isOpen hf hs).2.2.1, indAA_churnInd]
    exact Finset.mem_singleton_self _
  have hlogs : (s.run (sends 0 (churnInd n).payload)).log =
      did s' (s'.receive Kern.quiet 0 (churnInd n).payload) ++ s.log := by
    rw [hlog', did_append hcont.suffix, hlog]
  refine ⟨(run_continues h.tracked _).tracked, hbuf, ?_, fun aa => ?_, ?_, ?_⟩
  · rw [hrouter']
    exact hc.receive ht hk hf addr_one_ne_two
  · rw [hrouter', Finset.range_add_one, Finset.image_insert]
    by_cases haa : aa = churnAA n
    · subst haa
      have htx : (churnInd n).hdr.txAddr ≠ addr 2 := addr_one_ne_two
      have hj := hc.addrs_frame ht.owned htx (churnInd n).pdu
      have hnode : (s'.peers 0).nodeIdx = some 0 := hc.node
      have hl := link_receive_connectInd ht hc.isOpen hf rfl (snoops_churnInd hn.le)
        (ttlStep_local hc.bridge _) Kern.quiet hj
        (Or.inl hcard) fun q hq => absurd hq (receive_calm s' hk 0 hf q)
      rw [indAA_churnInd, hnode] at hl
      rw [hl, if_pos (Finset.mem_insert_self _ _)]
    · rw [link_receive_calm ht hc.isOpen hf (fun hc => haa (by rw [← hc.2.2, indAA_churnInd]))
        (receive_calm _ hk _ hf), hrouter, h.link]
      simp only [Finset.mem_insert, haa, false_or]
  · rw [hlogs]
    exact h.atMost.append (by simp) (h.live.trans (Finset.empty_subset _)) hsnoop
  · rw [hlogs]
    exact live_subset_of_snooped (h.live.trans (Finset.empty_subset _)) hsnoop

/-- Terminating a call leaves its link. -/
theorem Churned.hangUp (h : Churned (n + 1) {churnAA n} s) :
    Churned (n + 1) ∅ (s.run (sends 0 (churnEnd n).payload)) := by
  have hf := frameOf_churnEnd n
  have hk := Kern.quiet_healthy
  have hdata : (churnEnd n).hdr.llType = VBT_LL_DATA := rfl
  have hadv : (churnEnd n).hdr.llType ≠ VBT_LL_ADV := by
    rw [hdata]
    decide
  obtain ⟨s', ht, hrouter, hlog, hrouter', hlog', hbuf⟩ :=
    run_sends h.tracked h.caller.isOpen h.buf hf
  have hc : Caller s'.router := hrouter ▸ h.caller
  have hcont := receive_leads ht hc.isOpen Kern.quiet (churnEnd n).payload
  have hsnoop : ∀ aa a b slot, Act.snooped aa a b slot ∉
      did s' (s'.receive Kern.quiet 0 (churnEnd n).payload) := fun aa a b slot hs =>
    hadv (snooped_of_receive ht hc.isOpen hf hs).1
  have hlogs : (s.run (sends 0 (churnEnd n).payload)).log =
      did s' (s'.receive Kern.quiet 0 (churnEnd n).payload) ++ s.log := by
    rw [hlog', did_append hcont.suffix, hlog]
  refine ⟨(run_continues h.tracked _).tracked, hbuf, ?_, fun aa => ?_, ?_, ?_⟩
  · rw [hrouter']
    exact hc.receive ht hk hf addr_one_ne_two
  · rw [hrouter', link_receive_calm ht hc.isOpen hf (fun hc => hadv hc.1) (receive_calm _ hk _ hf),
      hrouter, h.link]
  · rw [hlogs]
    exact h.atMost.append (by simp) h.live fun aa a b slot hs => absurd hs (hsnoop aa a b slot)
  · -- the only call that was live has ended
    obtain ⟨flags, hmem⟩ := frame_mem_did ht hc.isOpen hf hdata
      (ttlStep_local hc.bridge _) Kern.quiet
    rw [hlogs]
    intro aa haa
    have hin := live_subset_of_snooped h.live
      (fun aa a b slot hs => absurd hs (hsnoop aa a b slot)) haa
    rw [Finset.mem_singleton.1 hin] at haa
    exact absurd haa (not_mem_live_of_terminate hmem hdata rfl (isTerminate_churnEnd n)
      (hsnoop (churnAA n)))

/-- The 513th call finds the table full. -/
theorem Churned.not_mem_linked (h : Churned 512 ∅ s) :
    indAA (churnInd 512).pdu ∉ (s.receive Kern.quiet 0 (churnInd 512).payload).linked := by
  have hf := frameOf_churnInd 512
  have hm := (receive_leads h.tracked h.caller.isOpen Kern.quiet (churnInd 512).payload).tracked
  rw [indAA_churnInd]
  intro hmem
  -- the 512 links before it are still there
  have hsub : (Finset.range 513).image churnAA ⊆
      (s.receive Kern.quiet 0 (churnInd 512).payload).linked := by
    rw [Finset.range_add_one, Finset.image_insert, Finset.insert_subset_iff]
    refine ⟨hmem, fun aa haa => ?_⟩
    have hne : churnAA 512 ≠ aa := by
      obtain ⟨k, hk, rfl⟩ := Finset.mem_image.1 haa
      intro hc
      have := churnAA_inj le_rfl (Finset.mem_range.1 hk).le hc
      simp [← this] at hk
    rw [mem_linked hm.tidy, link_receive_calm h.tracked h.caller.isOpen hf
      (fun hc => hne (by rw [← hc.2.2, indAA_churnInd])) (receive_calm _ Kern.quiet_healthy _ hf),
      h.link, if_pos haa]
    exact ⟨_, rfl⟩
  have hcard : ((Finset.range 513).image churnAA).card = 513 := by
    rw [Finset.card_image_of_injOn, Finset.card_range]
    intro k hk l hl hkl
    simp only [Finset.coe_range, Set.mem_Iio] at hk hl
    exact churnAA_inj (by omega) (by omega) hkl
  have hle := (Finset.card_le_card hsub).trans (card_linked_le hm.tidy)
  have hmax : MAX_CONNS = 512 := rfl
  omega

theorem churned_churnRun {n : ℕ} (hn : n ≤ 512) :
    Churned n ∅ ((Hub.init 0).run (churnRun n)) := by
  induction n with
  | zero =>
    have hr : Reachable ((Hub.init 0).run (churnRun 0)) := ⟨0, churnRun 0, rfl⟩
    have hlinked : ((Hub.init 0).run (churnRun 0)).linked = ∅ := by decide +kernel
    have hnone : indAAs ((Hub.init 0).run (churnRun 0)).log = ∅ := by decide +kernel
    have hsnoop : ∀ aa a b slot, Act.snooped aa a b slot ∈ ((Hub.init 0).run (churnRun 0)).log →
        aa ∈ (∅ : Finset UInt32) := fun aa a b slot hs => hnone ▸ mem_indAAs.2 ⟨a, b, slot, hs⟩
    refine ⟨hr.tracked, by decide +kernel, ?_, fun aa => ?_, ?_, ?_⟩
    · constructor <;> decide +kernel
    · rw [Finset.range_zero, Finset.image_empty, if_neg (Finset.notMem_empty _),
        Option.eq_none_iff_forall_ne_some]
      intro e he
      have hmem := (mem_linked hr.tracked.tidy).2 ⟨e, he⟩
      rw [hlinked] at hmem
      exact Finset.notMem_empty _ hmem
    · have hnil : LiveAtMost 1 [] := by
        intro t ht
        rw [List.suffix_nil.1 ht]
        decide
      have happ := hnil.append (S := ∅) (by decide) (by decide) hsnoop
      rwa [List.append_nil] at happ
    · have hnil : live [] ⊆ ∅ := by decide
      have hsub := live_subset_of_snooped hnil hsnoop
      rwa [List.append_nil] at hsub
  | succ n ih =>
    have hrun : (Hub.init 0).run (churnRun (n + 1)) =
        (((Hub.init 0).run (churnRun n)).run (sends 0 (churnInd n).payload)).run
          (sends 0 (churnEnd n).payload) := by
      rw [← run_append, ← run_append, churnRun, List.range_succ, List.flatMap_append]
      simp only [List.flatMap_singleton, churnRun, List.append_assoc]
    rw [hrun]
    exact ((ih (by omega)).call (by omega)).hangUp

theorem Churned.bound (h : Churned n ∅ s) :
    (s.peers 0).isOpen = true ∧ (s.peers 0).nodeIdx = some 0 :=
  ⟨h.caller.isOpen, h.caller.node⟩

/-- The 513th CONNECT_IND obtains no entry. -/
theorem Churned.no_entry (h : Churned 512 ∅ s) :
    (∀ a b c, Act.snooped (indAA (churnInd 512).pdu) a b (some c) ∉
        did s (s.receive Kern.quiet 0 (churnInd 512).payload)) ∧
      (s.receive Kern.quiet 0 (churnInd 512).payload).findConn (indAA (churnInd 512).pdu) = none := by
  have hf := frameOf_churnInd 512
  have ho := h.caller.isOpen
  have hm := (receive_leads h.tracked ho Kern.quiet (churnInd 512).payload).tracked
  refine ⟨fun a b c hs => h.not_mem_linked ?_, ?_⟩
  · obtain ⟨-, -, -, ha⟩ := snooped_of_receive h.tracked ho hf hs
    rw [ha] at hs
    rw [mem_linked hm.tidy]
    exact ⟨_, link_receive_snooped h.tracked ho hf rfl (snoops_churnInd (le_refl 512))
      (ttlStep_local h.caller.bridge _) Kern.quiet hs fun q hq =>
        absurd hq (receive_calm s Kern.quiet_healthy 0 hf q)⟩
  · by_contra hne
    obtain ⟨c, hc⟩ := Option.ne_none_iff_exists'.1 hne
    exact h.not_mem_linked ((mem_linked hm.tidy).2 ⟨_, by simp [Hub.router, hc]; rfl⟩)

/-- The hub after 512 calls. -/
def exhausted : Hub := (Hub.init 0).run (churnRun 512)

/-- After 512 calls, each terminated before the next, the table is full: though at most one
connection was live at any time, the next CONNECT_IND obtains no entry. -/
theorem churn_exhausts :
    Reachable exhausted ∧ LiveAtMost 1 exhausted.log ∧ (exhausted.peers 0).isOpen = true ∧
      (exhausted.peers 0).nodeIdx = some 0 ∧
      frameOf (churnInd 512).payload = some (churnInd 512) ∧
      (churnInd 512).hdr.llType = VBT_LL_ADV ∧ Snoops (churnInd 512).pdu ∧
      (∀ a b c, Act.snooped (indAA (churnInd 512).pdu) a b (some c) ∉
        did exhausted (exhausted.receive Kern.quiet 0 (churnInd 512).payload)) ∧
      (exhausted.receive Kern.quiet 0 (churnInd 512).payload).findConn
        (indAA (churnInd 512).pdu) = none := by
  have h : Churned 512 ∅ exhausted := churned_churnRun le_rfl
  exact ⟨⟨0, churnRun 512, rfl⟩, h.atMost, h.bound.1, h.bound.2, frameOf_churnInd 512, rfl,
    snoops_churnInd le_rfl, h.no_entry⟩

end Call

end Hub
end Vbt
