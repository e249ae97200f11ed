import Vbt.Core.Contract

/-!
# Connection requests

A host asks for a connection with LE Create Connection. The core then has the state `initiating`,
until the target is heard and LE Connection Complete is sent. The state is shared with advertising
and scanning, so it can be lost.

* `roleAfter`: what a command makes of the state;
* `accepted`, `completed`, `pending`: the books of a core;
* `Abandons`: the calls that make the core forget a request. One such call is one request lost
  (`forgotten_step`), and so the books are balanced exactly in the runs without one
  (`balanced_iff`);
* `Requested`: how a connection as central goes back to a request, with `central_requested` for
  every run.
-/

namespace Vbt

/-- An LE Create Connection was accepted. -/
def Notice.accepts : Notice → Bool
  | .status opcode _ st => opcode == Op.leCreateConn.code && st == HCI_SUCCESS
  | _ => false

/-- An LE Connection Complete in the role of the central. -/
def Notice.isCentral : Notice → Bool
  | .central _ => true
  | _ => false

namespace VbtLl

/-! ### Calls -/

/-- The call is the given command. -/
def Input.Is (i : Input) (op : Op) : Prop := i.opcode = some op.code

theorem Input.is_of_ofCode {i : Input} {opcode : UInt16} {op : Op} (hop : i.opcode = some opcode)
    (hcode : Op.ofCode opcode = some op) : i.Is op := by
  rw [Input.Is, hop, Op.code_of_ofCode hcode]

/-- The call is an LE Create Connection with all its parameters. -/
def Input.Dials (i : Input) : Prop := i.Is .leCreateConn ∧ 13 ≤ i.plen

/-- The peer address in an LE Create Connection. -/
def Input.target (i : Input) : BdAddr := addrAt i.params 6

/-- The call starts advertising or scanning. -/
def Input.SwitchesOn (i : Input) : Prop :=
  (i.Is .leSetAdvEnable ∨ i.Is .leSetScanEnable) ∧ enableFlag i.params i.plen = true

/-- The call is a CONNECT_IND that the core takes. -/
def Accepts (ll : VbtLl) (i : Input) : Prop :=
  ll.advEnabled = true ∧ ll.freeSlot.isSome = true ∧
    ∃ aa, i.signal = .connect (ll.ownSourceAddr ll.advOwnAddrType) aa

/-- The call makes the core forget a request. -/
def Abandons (ll : VbtLl) (i : Input) : Prop :=
  ll.state = .initiating ∧ (i.Is .leCreateConnCancel ∨ i.SwitchesOn ∨ i.Dials ∨ ll.Accepts i)

theorem Input.Is.unique {i : Input} {op op' : Op} (h : i.Is op) (h' : i.Is op') : op = op' := by
  have hcode : op.code = op'.code := Option.some.inj (h.symm.trans h')
  exact Option.some.inj (by rw [← Op.ofCode_code op, hcode, Op.ofCode_code])

theorem Input.opcode_of_signal {i : Input} {s : Signal} (h : i.signal = s) (hs : s ≠ .other) :
    i.opcode = none := by
  cases i with
  | hci pkt len => exact absurd h.symm hs
  | pdu hdr pdu len => rfl
  | tick nowMs => rfl

/-! ### The state of a core -/

/-- What the state of a core is, and whom it is to call. -/
def role (ll : VbtLl) : LlState × BdAddr := (ll.state, ll.initPeerAddr)

/-- What a command makes of it. -/
def roleAfter (r : LlState × BdAddr) (op : Op) (params : Mem) (plen : ℕ) : LlState × BdAddr :=
  match op with
  | .reset => (.idle, r.2)
  | .leSetAdvEnable =>
    (if enableFlag params plen then .advertising else if r.1 = .advertising then .idle else r.1,
      r.2)
  | .leSetScanEnable =>
    (if enableFlag params plen then .scanning else if r.1 = .scanning then .idle else r.1, r.2)
  | .leCreateConn => if plen < 13 then r else (.initiating, addrAt params 6)
  | .leCreateConnCancel => (if r.1 = .initiating then .idle else r.1, r.2)
  | _ => r

theorem role_sets (ll : VbtLl) (op : Op) (params : Mem) (plen : ℕ) :
    (ll.sets op params plen).role = roleAfter ll.role op params plen := by
  cases op with
  | leSetRandomAddress | leSetAdvParameters | leSetAdvData | leSetScanRspData
  | leSetScanParameters | leCreateConn =>
    unfold sets roleAfter
    dsimp only
    split_ifs <;> rfl
  | leSetAdvEnable | leSetScanEnable =>
    unfold sets roleAfter
    cases enableFlag params plen <;> rfl
  | _ => rfl

theorem role_steady {ll ll' : VbtLl} (h : Steady ll ll') : ll'.role = ll.role := by
  rw [role, h.state, h.initPeerAddr, role]

theorem role_step_command (ll : VbtLl) {i : Input} {op : Op} (h : i.Is op) :
    (ll.step i).role = roleAfter ll.role op i.params i.plen := by
  rw [step_command ll h, role_steady (command_answered ll i.params i.plen op).steady, role_sets]

theorem role_step_unknown (ll : VbtLl) {i : Input} {opcode : UInt16} (h : i.opcode = some opcode)
    (hop : Op.ofCode opcode = none) : (ll.step i).role = ll.role := by
  rw [step_of_opcode ll h, hop]
  rfl

/-! ### The books -/

/-- How many requests were accepted. -/
def accepted (ll : VbtLl) : ℕ := ll.packets.countP fun pkt => (notice pkt).accepts

/-- How many connections as central were completed, with or without success. -/
def completed (ll : VbtLl) : ℕ := ll.packets.countP fun pkt => (notice pkt).isCentral

/-- How many requests the core is working on. -/
def pending (ll : VbtLl) : ℕ := if ll.state = .initiating then 1 else 0

/-- The books are balanced: every request was completed or is being worked on. -/
def Balanced (ll : VbtLl) : Prop := ll.accepted = ll.completed + ll.pending

/-- How many requests were forgotten. -/
def forgotten (ll : VbtLl) : ℤ := ll.accepted - ll.completed - ll.pending

theorem balanced_iff_forgotten {ll : VbtLl} : ll.Balanced ↔ ll.forgotten = 0 := by
  unfold Balanced forgotten
  omega

section Step

variable {ll : VbtLl} {i : Input}

theorem pending_of_role {ll ll' : VbtLl} (h : ll'.role = ll.role) : ll'.pending = ll.pending := by
  have hs : ll'.state = ll.state := congrArg Prod.fst h
  rw [pending, pending, hs]

theorem reply_accepts (ll : VbtLl) (op : Op) (plen : ℕ) :
    (ll.reply op plen).accepts = decide (op = .leCreateConn ∧ 13 ≤ plen) := by
  cases op with
  | leCreateConn =>
    unfold reply Notice.accepts
    dsimp only
    by_cases hlen : plen < 13
    · rw [if_pos hlen, decide_eq_false (by omega)]
      rfl
    · rw [if_neg hlen, decide_eq_true ⟨rfl, by omega⟩]
      rfl
  | _ => rfl

theorem reply_isCentral (ll : VbtLl) (op : Op) (plen : ℕ) :
    (ll.reply op plen).isCentral = false := by
  cases op <;> rfl

/-- A command is entered as accepted if it is a complete request. -/
theorem books_command (ll : VbtLl) {op : Op} (h : i.Is op) :
    (ll.step i).accepted = ll.accepted + (decide (op = .leCreateConn ∧ 13 ≤ i.plen)).toNat ∧
      (ll.step i).completed = ll.completed := by
  have hreply : ll.replyTo i op.code = ll.reply op i.plen := by
    rw [replyTo, Op.ofCode_code]
    rfl
  constructor
  · refine (countP_command (P := Notice.accepts) rfl h).trans ?_
    rw [hreply, reply_accepts]
    rfl
  · refine (countP_command (P := Notice.isCentral) rfl h).trans ?_
    rw [hreply, reply_isCentral]
    rfl

theorem books_unknown (ll : VbtLl) {opcode : UInt16} (h : i.opcode = some opcode)
    (hop : Op.ofCode opcode = none) :
    (ll.step i).accepted = ll.accepted ∧ (ll.step i).completed = ll.completed := by
  have hreply : ll.replyTo i opcode = .complete opcode ll.credits := by
    rw [replyTo, hop]
    rfl
  constructor
  · refine (countP_command (P := Notice.accepts) rfl h).trans ?_
    rw [hreply]
    rfl
  · refine (countP_command (P := Notice.isCentral) rfl h).trans ?_
    rw [hreply]
    rfl

/-- What one more packet adds to the books. -/
theorem books_append {pkt : List UInt8} {n : Notice}
    (hp : (ll.step i).packets = ll.packets ++ [pkt]) (hn : notice pkt = n) :
    (ll.step i).accepted = ll.accepted + (if n.accepts then 1 else 0) ∧
      (ll.step i).completed = ll.completed + if n.isCentral then 1 else 0 := by
  rw [accepted, completed, hp, List.countP_append, List.countP_append, List.countP_singleton,
    List.countP_singleton, hn]
  exact ⟨rfl, rfl⟩

theorem books_place {k : ℕ} {txadd : UInt8} (h : ll.step i = ll.place k ll.initPeerAddr txadd) :
    (ll.step i).accepted = ll.accepted ∧ (ll.step i).completed = ll.completed + 1 := by
  have hout : (ll.step i).out = [_, _] ++ ll.out := congrArg VbtLl.out h
  have hp : (ll.step i).packets = ll.packets ++
      [connCompletePkt (centralConn k ll.initPeerAddr txadd ll.nextAddress)] := by
    rw [packets_step, outputs_eq hout]
    rfl
  have hn : notice (connCompletePkt (centralConn k ll.initPeerAddr txadd ll.nextAddress)) =
      .central ll.initPeerAddr := by
    rw [connCompletePkt, notice_connComplete]
    rfl
  exact books_append hp hn

theorem books_accept {k : ℕ} {inita : BdAddr} {txadd : UInt8} {aa : UInt32}
    (h : ll.step i = ll.accept k inita txadd aa) :
    (ll.step i).accepted = ll.accepted ∧ (ll.step i).completed = ll.completed := by
  have hout : (ll.step i).out = [_] ++ ll.out := congrArg VbtLl.out h
  have hp : (ll.step i).packets = ll.packets ++
      [connCompletePkt (peripheralConn k inita txadd aa)] := by
    rw [packets_step, outputs_eq hout]
    rfl
  have hn : notice (connCompletePkt (peripheralConn k inita txadd aa)) = .other := by
    rw [connCompletePkt, notice_connComplete]
    rfl
  exact books_append hp hn

theorem books_routine (h : Emits ll ll (ll.step i)) :
    (ll.step i).accepted = ll.accepted ∧ (ll.step i).completed = ll.completed :=
  ⟨countP_routine (P := Notice.accepts) rfl h, countP_routine (P := Notice.isCentral) rfl h⟩

/-! ### Requests that are forgotten -/

theorem pending_initiating (h : ll.state = .initiating) : ll.pending = 1 := if_pos h

theorem pending_other (h : ll.state ≠ .initiating) : ll.pending = 0 := if_neg h

theorem abandons_iff_of_is {op : Op} (h : i.Is op) : ll.Abandons i ↔ ll.state = .initiating ∧
    (op = .leCreateConnCancel ∨
      (op = .leSetAdvEnable ∨ op = .leSetScanEnable) ∧ enableFlag i.params i.plen = true ∨
      op = .leCreateConn ∧ 13 ≤ i.plen) := by
  have his : ∀ op', i.Is op' ↔ op = op' := fun op' => ⟨h.unique, fun heq => heq ▸ h⟩
  have hacc : ¬ ll.Accepts i := by
    rintro ⟨-, -, aa, hs⟩
    have hnone := Input.opcode_of_signal hs Signal.noConfusion
    rw [h] at hnone
    cases hnone
  unfold Abandons Input.SwitchesOn Input.Dials
  rw [his, his, his, his]
  tauto

/-- What a command other than a reset does to the number of pending requests. -/
theorem pending_command (ll : VbtLl) {op : Op} (h : i.Is op) (hreset : op ≠ .reset) :
    (ll.Abandons i → (ll.step i).pending + 1 =
      ll.pending + (decide (op = .leCreateConn ∧ 13 ≤ i.plen)).toNat) ∧
    (¬ ll.Abandons i → (ll.step i).pending =
      ll.pending + (decide (op = .leCreateConn ∧ 13 ≤ i.plen)).toNat) := by
  have hstate : (ll.step i).state = (roleAfter ll.role op i.params i.plen).1 :=
    congrArg Prod.fst (role_step_command ll h)
  rw [abandons_iff_of_is h]
  cases op with
  | reset => exact absurd rfl hreset
  | leCreateConn =>
    unfold pending
    rw [hstate]
    by_cases hlen : i.plen < 13
    · simp [roleAfter, role, hlen]
    · by_cases hs : ll.state = .initiating <;> simp [roleAfter, hlen, hs, Nat.not_lt.1 hlen]
  | leCreateConnCancel =>
    unfold pending
    rw [hstate]
    by_cases hs : ll.state = .initiating <;> simp [roleAfter, role, hs]
  | leSetAdvEnable =>
    unfold pending
    rw [hstate]
    by_cases hon : enableFlag i.params i.plen = true
    · by_cases hs : ll.state = .initiating <;> simp [roleAfter, hs, hon]
    · by_cases hs : ll.state = .advertising <;> simp [roleAfter, role, hs, hon]
  | leSetScanEnable =>
    unfold pending
    rw [hstate]
    by_cases hon : enableFlag i.params i.plen = true
    · by_cases hs : ll.state = .initiating <;> simp [roleAfter, hs, hon]
    · by_cases hs : ll.state = .scanning <;> simp [roleAfter, role, hs, hon]
  | _ =>
    refine ⟨fun hab => absurd hab.2 (by simp), fun _ => ?_⟩
    exact pending_of_role (role_step_command ll h)

/-- A call that is no command can only abandon a request by opening another connection. -/
theorem Abandons.accepts (h : ll.Abandons i) (hop : ∀ op, ¬ i.Is op) : ll.Accepts i := by
  rcases h.2 with h | ⟨h | h, -⟩ | ⟨h, -⟩ | h
  · exact absurd h (hop _)
  · exact absurd h (hop _)
  · exact absurd h (hop _)
  · exact absurd h (hop _)
  · exact h

theorem not_is_of_opcode (h : i.opcode = none) (op : Op) : ¬ i.Is op := by
  intro his
  rw [Input.Is, h] at his
  cases his

theorem not_is_of_unknown {opcode : UInt16} (h : i.opcode = some opcode)
    (hcode : Op.ofCode opcode = none) (op : Op) : ¬ i.Is op := by
  intro his
  rw [← Option.some.inj (his.symm.trans h), Op.ofCode_code] at hcode
  cases hcode

theorem Accepts.opens (h : ll.Accepts i) : (ll.onSignal i.signal).opens = true := by
  obtain ⟨hadv, hfree, aa, hs⟩ := h
  obtain ⟨k, hk⟩ := Option.isSome_iff_exists.1 hfree
  rw [hs, onSignal_connect, if_pos ⟨hadv, rfl⟩, hk]
  rfl

/-- **One call that abandons a request is one request forgotten**, and no other call forgets any. -/
theorem forgotten_step (ll : VbtLl) (hreset : ¬ i.Is .reset) :
    (ll.Abandons i → (ll.step i).forgotten = ll.forgotten + 1) ∧
      (¬ ll.Abandons i → (ll.step i).forgotten = ll.forgotten) := by
  cases hop : i.opcode with
  | some opcode =>
    cases hcode : Op.ofCode opcode with
    | some op =>
      have his : i.Is op := Input.is_of_ofCode hop hcode
      obtain ⟨ha, hc⟩ := books_command ll his
      have hne : op ≠ .reset := fun heq => hreset (heq ▸ his)
      obtain ⟨hyes, hno⟩ := pending_command ll his hne
      unfold forgotten
      rw [ha, hc]
      constructor
      · intro hab
        have := hyes hab
        push_cast
        omega
      · intro hab
        have := hno hab
        push_cast
        omega
    | none =>
      obtain ⟨ha, hc⟩ := books_unknown ll hop hcode
      have hp := pending_of_role (role_step_unknown ll hop hcode)
      refine ⟨fun hab => ?_, fun _ => by rw [forgotten, ha, hc, hp, forgotten]⟩
      obtain ⟨-, -, aa, hs⟩ := hab.accepts (not_is_of_unknown hop hcode)
      rw [Input.opcode_of_signal hs Signal.noConfusion] at hop
      cases hop
  | none =>
    cases step_reacts ll hop with
    | place k txadd free ready heard does =>
      obtain ⟨ha, hc⟩ := books_place does
      have hp : (ll.step i).pending = 0 := pending_other (by rw [does]; exact LlState.noConfusion)
      have hnot : ¬ ll.Abandons i := by
        intro hab
        obtain ⟨-, -, aa, hs⟩ := hab.accepts (not_is_of_opcode hop)
        cases heard.symm.trans hs
      refine ⟨fun hab => absurd hab hnot, fun _ => ?_⟩
      rw [forgotten, ha, hc, hp, forgotten, pending_initiating ready]
      push_cast
      omega
    | accept k inita txadd aa free ready heard does =>
      obtain ⟨ha, hc⟩ := books_accept does
      have hp : (ll.step i).pending = 0 := pending_other (by rw [does]; exact LlState.noConfusion)
      have hacc : ll.Accepts i := ⟨ready, by rw [free]; rfl, aa, heard⟩
      rw [forgotten, ha, hc, hp, forgotten]
      constructor
      · intro hab
        rw [pending_initiating hab.1]
        push_cast
        omega
      · intro hab
        rw [pending_other fun hs => hab ⟨hs, Or.inr (Or.inr (Or.inr hacc))⟩]
    | routine opens emits =>
      obtain ⟨ha, hc⟩ := books_routine emits
      have hp : (ll.step i).pending = ll.pending := by
        rw [pending, emits.steady.state, pending]
      have hnot : ¬ ll.Abandons i := by
        intro hab
        have hopens := (hab.accepts (not_is_of_opcode hop)).opens
        rw [opens] at hopens
        cases hopens
      refine ⟨fun hab => absurd hab hnot, fun _ => ?_⟩
      rw [forgotten, ha, hc, hp, forgotten]

end Step

/-! ### Balanced runs -/

theorem run_append (ll : VbtLl) (is js : List Input) : ll.run (is ++ js) = (ll.run is).run js :=
  List.foldl_append

theorem run_concat (ll : VbtLl) (is : List Input) (i : Input) :
    ll.run (is ++ [i]) = (ll.run is).step i := run_append ll is [i]

/-- Requests are never made up, and they are forgotten only where one is abandoned. -/
theorem forgotten_run (bdaddr : BdAddr) {is : List Input} (hreset : ∀ i ∈ is, ¬ i.Is .reset) :
    0 ≤ ((vbtLlNew bdaddr).run is).forgotten ∧
      (((vbtLlNew bdaddr).run is).forgotten = 0 ↔
        ∀ is₁ i is₂, is = is₁ ++ i :: is₂ → ¬ ((vbtLlNew bdaddr).run is₁).Abandons i) := by
  induction is using List.reverseRecOn with
  | nil => exact ⟨le_rfl, fun _ is₁ i is₂ h => absurd h (by simp), fun _ => rfl⟩
  | append_singleton is i ih =>
    obtain ⟨hnonneg, hiff⟩ := ih fun j hj => hreset j (List.mem_append_left _ hj)
    obtain ⟨hyes, hno⟩ := forgotten_step ((vbtLlNew bdaddr).run is)
      (hreset i (List.mem_append_right _ (List.mem_singleton_self i)))
    rw [run_concat]
    by_cases hab : ((vbtLlNew bdaddr).run is).Abandons i
    · rw [hyes hab]
      refine ⟨by omega, fun hz => by omega, fun hall => ?_⟩
      exact absurd hab (hall is i [] rfl)
    · rw [hno hab, hiff]
      refine ⟨hnonneg, fun hall is₁ j is₂ h => ?_, fun hall is₁ j is₂ h => ?_⟩
      · -- the split is at the last call or before it
        rcases List.eq_nil_or_concat is₂ with rfl | ⟨is₃, k, rfl⟩
        · obtain ⟨rfl, hij⟩ := List.append_inj' h rfl
          cases hij
          exact hab
        · rw [List.concat_eq_append, ← List.cons_append, ← List.append_assoc] at h
          exact hall is₁ j is₃ (List.append_inj' h rfl).1
      · exact hall is₁ j (is₂ ++ [i]) (by rw [h, List.append_assoc]; rfl)

/-- **The books are balanced after every call, exactly if no request is abandoned.** -/
theorem balanced_iff (bdaddr : BdAddr) {is : List Input} (hreset : ∀ i ∈ is, ¬ i.Is .reset) :
    (∀ js, js <+: is → ((vbtLlNew bdaddr).run js).Balanced) ↔
      ∀ is₁ i is₂, is = is₁ ++ i :: is₂ → ¬ ((vbtLlNew bdaddr).run is₁).Abandons i := by
  constructor
  · intro hall
    exact (forgotten_run bdaddr hreset).2.1 (balanced_iff_forgotten.1 (hall is List.prefix_rfl))
  · rintro hall js ⟨ks, rfl⟩
    have hjs := forgotten_run bdaddr fun j hj => hreset j (List.mem_append_left ks hj)
    refine balanced_iff_forgotten.2 (hjs.2.2 fun is₁ i is₂ h => ?_)
    exact hall is₁ i (is₂ ++ ks) (by rw [h, List.append_assoc]; rfl)

/-- A host that asks for a connection to the peripheral. -/
def dialing : Input :=
  fromHost blank ([HCI_CMD_PKT, 0x0D, 0x20, 25, 0, 0, 0, 0, 0, 0] ++ peripheralAddr.bytes ++
    List.replicate 13 0)

/-- LE Create Connection Cancel. -/
def cancelling : Input := fromHost blank [HCI_CMD_PKT, 0x0E, 0x20, 0]

instance (i : Input) (op : Op) : Decidable (i.Is op) := inferInstanceAs (Decidable (_ = _))

theorem balanced_iff_dialing :
    (∀ js, js <+: [dialing] → ((vbtLlNew centralAddr).run js).Balanced) ↔
      ∀ is₁ i is₂, [dialing] = is₁ ++ i :: is₂ → ¬ ((vbtLlNew centralAddr).run is₁).Abandons i :=
  balanced_iff centralAddr (by
    intro i hi
    obtain rfl := List.mem_singleton.1 hi
    decide +kernel)

/-- A request that is cancelled is never completed. -/
theorem cancelled_unbalanced :
    ¬ dialing.Is .reset ∧ ¬ cancelling.Is .reset ∧
      ((vbtLlNew centralAddr).run [dialing, cancelling]).accepted = 1 ∧
      ((vbtLlNew centralAddr).run [dialing, cancelling]).completed = 0 ∧
      ((vbtLlNew centralAddr).run [dialing, cancelling]).state = .idle ∧
      ¬ ((vbtLlNew centralAddr).run [dialing, cancelling]).Balanced := by
  have ha : ((vbtLlNew centralAddr).run [dialing, cancelling]).accepted = 1 := by decide +kernel
  have hc : ((vbtLlNew centralAddr).run [dialing, cancelling]).completed = 0 := by decide +kernel
  have hs : ((vbtLlNew centralAddr).run [dialing, cancelling]).state = .idle := by decide +kernel
  refine ⟨by decide +kernel, by decide +kernel, ha, hc, hs, fun hbal => ?_⟩
  rw [Balanced, ha, hc, pending, hs] at hbal
  cases hbal

/-! ### Connections on request -/

/-- In the run with the calls `is` there is a request for a connection to `peer` that is still open:
it was accepted, and since then no other was, nothing was cancelled or reset and no connection was
completed as central. -/
def Requested (ll : VbtLl) (is : List Input) (peer : BdAddr) : Prop :=
  ∃ is₁ c is₂, is = is₁ ++ c :: is₂ ∧ c.Is .leCreateConn ∧ c.target = peer ∧
    (∃ pkt ∈ packetsIn ((ll.run is₁).outputs c), (notice pkt).accepts = true) ∧
    (∀ j ∈ is₂, ¬ j.Is .leCreateConnCancel ∧ ¬ j.Is .reset) ∧
    ∃ since, (ll.run is).packets = (ll.run (is₁ ++ [c])).packets ++ since ∧
      ∀ pkt ∈ since, (notice pkt).accepts = false ∧ (notice pkt).isCentral = false

/-- The core is initiating after a command only if the command is a request or leaves the state
alone. -/
theorem roleAfter_initiating {r : LlState × BdAddr} {op : Op} {params : Mem} {plen : ℕ}
    (h : (roleAfter r op params plen).1 = .initiating) :
    op = .leCreateConn ∧ 13 ≤ plen ∨
      roleAfter r op params plen = r ∧ ¬ (op = .leCreateConn ∧ 13 ≤ plen) ∧
        op ≠ .leCreateConnCancel ∧ op ≠ .reset := by
  cases op with
  | reset => cases h
  | leCreateConn =>
    by_cases hlen : plen < 13
    · refine Or.inr ⟨if_pos hlen, fun hc => by omega, Op.noConfusion, Op.noConfusion⟩
    · exact Or.inl ⟨rfl, by omega⟩
  | leCreateConnCancel =>
    unfold roleAfter at h
    dsimp only at h
    split_ifs at h with hs
    exact absurd h hs
  | leSetAdvEnable =>
    unfold roleAfter at h ⊢
    dsimp only at h ⊢
    split_ifs at h ⊢ with hon hs
    exact Or.inr (by simp)
  | leSetScanEnable =>
    unfold roleAfter at h ⊢
    dsimp only at h ⊢
    split_ifs at h ⊢ with hon hs
    exact Or.inr (by simp)
  | _ => exact Or.inr ⟨rfl, fun hc => Op.noConfusion hc.1, Op.noConfusion, Op.noConfusion⟩

section Requested

variable {start : VbtLl} {is : List Input} {i : Input} {peer : BdAddr}

/-- A request is open right after it was accepted. -/
theorem requested_of_dials (his : i.Is .leCreateConn) (hlen : 13 ≤ i.plen) :
    Requested start (is ++ [i]) i.target := by
  refine ⟨is, i, [], rfl, his, rfl, ?_, by simp, [], (List.append_nil _).symm, by simp⟩
  obtain ⟨first, rest, hp, hfirst, -⟩ := packets_of_command (start.run is) his
  refine ⟨first, by rw [hp]; exact List.mem_cons_self, ?_⟩
  rw [hfirst, replyTo, Op.ofCode_code, Option.elim_some, reply_accepts]
  exact decide_eq_true ⟨rfl, hlen⟩

/-- It stays open through a call that does not touch it. -/
theorem Requested.concat (h : Requested start is peer)
    (hi : ¬ i.Is .leCreateConnCancel ∧ ¬ i.Is .reset)
    (hpkts : ∀ pkt ∈ packetsIn ((start.run is).outputs i),
      (notice pkt).accepts = false ∧ (notice pkt).isCentral = false) :
    Requested start (is ++ [i]) peer := by
  obtain ⟨is₁, c, is₂, rfl, hc, htarget, hacc, hquiet, since, hsince, hs⟩ := h
  refine ⟨is₁, c, is₂ ++ [i], by rw [List.append_assoc]; rfl, hc, htarget, hacc, ?_,
    since ++ packetsIn ((start.run (is₁ ++ c :: is₂)).outputs i), ?_, ?_⟩
  · intro j hj
    rcases List.mem_append.1 hj with hj | hj
    · exact hquiet j hj
    · rwa [List.mem_singleton.1 hj]
  · rw [run_concat, packets_step, hsince, List.append_assoc]
  · intro pkt hp
    rcases List.mem_append.1 hp with hp | hp
    · exact hs pkt hp
    · exact hpkts pkt hp

/-- A command that is no complete request neither accepts nor completes one. -/
theorem packets_of_no_request {ll : VbtLl} {opcode : UInt16} (hop : i.opcode = some opcode)
    (hreply : (ll.replyTo i opcode).accepts = false ∧ (ll.replyTo i opcode).isCentral = false) :
    ∀ pkt ∈ packetsIn (ll.outputs i),
      (notice pkt).accepts = false ∧ (notice pkt).isCentral = false := by
  obtain ⟨first, rest, hp, hfirst, hrest⟩ := packets_of_command ll hop
  intro pkt hpkt
  rw [hp] at hpkt
  rcases List.mem_cons.1 hpkt with rfl | hpkt
  · rw [hfirst]
    exact hreply
  · rw [hrest pkt hpkt]
    exact ⟨rfl, rfl⟩

/-- **An initiating core has an open request for its target.** -/
theorem requested_of_initiating (start : VbtLl) (hstart : start.state ≠ .initiating)
    (is : List Input) (h : (start.run is).state = .initiating) :
    Requested start is (start.run is).initPeerAddr := by
  induction is using List.reverseRecOn with
  | nil => exact absurd h hstart
  | append_singleton is i ih =>
    rw [run_concat] at h ⊢
    generalize hll : start.run is = ll at h ih ⊢
    -- the request was open before, and the call leaves it so
    have key : (ll.step i).role = ll.role → ¬ i.Is .leCreateConnCancel ∧ ¬ i.Is .reset →
        (∀ pkt ∈ packetsIn (ll.outputs i),
          (notice pkt).accepts = false ∧ (notice pkt).isCentral = false) →
        Requested start (is ++ [i]) (ll.step i).initPeerAddr := by
      intro hrole hi hpkts
      have hstate : (ll.step i).state = ll.state := congrArg Prod.fst hrole
      have hpeer : (ll.step i).initPeerAddr = ll.initPeerAddr := congrArg Prod.snd hrole
      rw [hpeer]
      exact (ih (hstate ▸ h)).concat hi (hll ▸ hpkts)
    cases hop : i.opcode with
    | some opcode =>
      cases hcode : Op.ofCode opcode with
      | some op =>
        have his : i.Is op := Input.is_of_ofCode hop hcode
        have hrole := role_step_command ll his
        have hinit : (roleAfter ll.role op i.params i.plen).1 = .initiating := by
          rw [← hrole]
          exact h
        rcases roleAfter_initiating hinit with ⟨rfl, hlen⟩ | ⟨hsame, hno, hcancel, hreset⟩
        · have hpeer : (ll.step i).initPeerAddr = i.target := by
            have := congrArg Prod.snd hrole
            rw [roleAfter, if_neg (by omega)] at this
            exact this
          rw [hpeer]
          exact requested_of_dials his hlen
        · refine key (hrole.trans hsame) ⟨fun hc => hcancel (his.unique hc), fun hr =>
            hreset (his.unique hr)⟩ (packets_of_no_request hop ?_)
          rw [replyTo, hcode, Option.elim_some, reply_accepts, reply_isCentral]
          exact ⟨decide_eq_false hno, rfl⟩
      | none =>
        refine key (role_step_unknown ll hop hcode) ⟨not_is_of_unknown hop hcode _,
          not_is_of_unknown hop hcode _⟩ (packets_of_no_request hop ?_)
        rw [replyTo, hcode]
        exact ⟨rfl, rfl⟩
    | none =>
      cases step_reacts ll hop with
      | place k txadd free ready heard does =>
        rw [does] at h
        cases h
      | accept k inita txadd aa free ready heard does =>
        rw [does] at h
        cases h
      | routine opens emits =>
        refine key (role_steady emits.steady) ⟨not_is_of_opcode hop _, not_is_of_opcode hop _⟩
          fun pkt hpkt => ?_
        obtain ⟨new, hout, hnew⟩ := emits.out
        rw [outputs_eq hout] at hpkt
        rw [notice_of_routine (fun o ho => hnew o (List.mem_reverse.1 ho)) hpkt]
        exact ⟨rfl, rfl⟩

end Requested

/-- Only the call that opens a connection as central tells the host of one. -/
theorem placed_of_central {ll : VbtLl} {i : Input} {pkt : List UInt8} {peer : BdAddr}
    (hp : pkt ∈ packetsIn (ll.outputs i)) (hn : notice pkt = .central peer) :
    ll.state = .initiating ∧ peer = ll.initPeerAddr ∧
      ∃ k txadd, ll.step i = ll.place k ll.initPeerAddr txadd := by
  cases hop : i.opcode with
  | some opcode =>
    obtain ⟨first, rest, hpk, hfirst, hrest⟩ := packets_of_command ll hop
    rw [hpk] at hp
    rcases List.mem_cons.1 hp with rfl | hp
    · have hans := replyTo_answers ll i opcode
      rw [← hfirst, hn] at hans
      cases hans
    · rw [hrest pkt hp] at hn
      cases hn
  | none =>
    cases step_reacts ll hop with
    | place k txadd free ready heard does =>
      have hout : (ll.step i).out = [_, _] ++ ll.out := congrArg VbtLl.out does
      rw [outputs_eq hout] at hp
      obtain rfl := List.mem_singleton.1 hp
      rw [connCompletePkt, notice_connComplete] at hn
      cases hn
      exact ⟨ready, rfl, k, txadd, does⟩
    | accept k inita txadd aa free ready heard does =>
      have hout : (ll.step i).out = [_] ++ ll.out := congrArg VbtLl.out does
      rw [outputs_eq hout] at hp
      obtain rfl := List.mem_singleton.1 hp
      rw [connCompletePkt, notice_connComplete] at hn
      cases hn
    | routine opens emits =>
      obtain ⟨new, hout, hnew⟩ := emits.out
      rw [outputs_eq hout] at hp
      rw [notice_of_routine (fun o ho => hnew o (List.mem_reverse.1 ho)) hp] at hn
      cases hn

/-- **A connection is opened as central only on request.** -/
theorem central_requested (bdaddr : BdAddr) (is : List Input) (i : Input) {pkt : List UInt8}
    {peer : BdAddr} (hp : pkt ∈ packetsIn (((vbtLlNew bdaddr).run is).outputs i))
    (hn : notice pkt = .central peer) :
    packetsIn (((vbtLlNew bdaddr).run is).outputs i) = [pkt] ∧
      (∃ f aa, framesIn (((vbtLlNew bdaddr).run is).outputs i) = [f] ∧ Invites peer aa f) ∧
      Requested (vbtLlNew bdaddr) is peer := by
  generalize hll : (vbtLlNew bdaddr).run is = ll at hp ⊢
  obtain ⟨hready, rfl, k, txadd, hplace⟩ := placed_of_central hp hn
  have hout : (ll.step i).out = [_, _] ++ ll.out := congrArg VbtLl.out hplace
  rw [outputs_eq hout] at hp ⊢
  refine ⟨?_, ⟨_, ll.nextAddress, rfl, invites_sendConnectInd _ _ _ _ _ _ _ _⟩, ?_⟩
  · obtain rfl := List.mem_singleton.1 hp
    rfl
  · rw [← hll] at hready ⊢
    exact requested_of_initiating _ LlState.noConfusion is hready

/-- The connection of `central`. -/
theorem central_requested_peripheral :
    Requested (vbtLlNew centralAddr) [dialing] peripheralAddr :=
  (central_requested centralAddr [dialing] (fromMedium blank advertisement)
    (show connCompletePkt (central.conns 0) ∈ _ by decide +kernel) (by decide +kernel)).2.2

end VbtLl
end Vbt
