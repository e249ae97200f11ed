import Vbt.Core.Requests

/-!
# Access Addresses of different nodes

A core draws the Access Address of a connection from a congruential generator that it shares with
LE Rand and that it seeds with a hash of its address.  Two nodes whose addresses differ in the last
two octets only are to have different Access Addresses.

* `lcg`, `SameLow`: the generator keeps words apart that differ in their low 22 bits, and the mask
  of a central leaves these bits alone;
* `toNat_seed`, `tail`: what the last two octets add to the seed;
* `nextAa_step`, `nextAa_run`: how often a run draws before its first CONNECT_IND depends on its
  commands only;
* `first_calls_differ_iff`: the first CONNECT_INDs of two nodes.
-/

namespace Vbt

/-! ### The generator -/

/-- One draw of `ll_rand32`. -/
def lcg (r : UInt32) : UInt32 := r * 1664525 + 1013904223

/-- The words agree in their low 22 bits. -/
def SameLow (r r' : UInt32) : Prop := r.toNat ≡ r'.toNat [MOD 2 ^ 22]

theorem modEq_of_mod_32 (n : ℕ) : n % 2 ^ 32 ≡ n [MOD 2 ^ 22] :=
  (Nat.mod_modEq n (2 ^ 32)).of_dvd (pow_dvd_pow 2 (by decide))

/-- An affine step of words is one of their low bits. -/
theorem toNat_affine (a c r : UInt32) :
    (r * a + c).toNat ≡ r.toNat * a.toNat + c.toNat [MOD 2 ^ 22] := by
  rw [UInt32.toNat_add, UInt32.toNat_mul]
  exact (modEq_of_mod_32 _).trans ((modEq_of_mod_32 _).add_right _)

theorem sameLow_affine_iff {a : UInt32} (ha : a.toNat.Coprime (2 ^ 22)) (c : UInt32)
    {r r' : UInt32} : SameLow (r * a + c) (r' * a + c) ↔ SameLow r r' := by
  have hcop : Nat.gcd (2 ^ 22) a.toNat = 1 := ha.symm
  constructor
  · intro h
    have h1 : r.toNat * a.toNat + c.toNat ≡ r'.toNat * a.toNat + c.toNat [MOD 2 ^ 22] :=
      (toNat_affine a c r).symm.trans (h.trans (toNat_affine a c r'))
    exact (h1.add_right_cancel' _).cancel_right_of_coprime hcop
  · intro h
    exact (toNat_affine a c r).trans
      (((h.mul_right _).add_right _).trans (toNat_affine a c r').symm)

theorem sameLow_lcg_iff {r r' : UInt32} : SameLow (lcg r) (lcg r') ↔ SameLow r r' :=
  sameLow_affine_iff (by decide) 1013904223

/-- Any number of draws keeps the words apart. -/
theorem sameLow_iterate_iff (n : ℕ) {r r' : UInt32} :
    SameLow (lcg^[n] r) (lcg^[n] r') ↔ SameLow r r' := by
  induction n with
  | zero => exact Iff.rfl
  | succ n ih =>
    rw [Function.iterate_succ_apply', Function.iterate_succ_apply', sameLow_lcg_iff, ih]

/-- The Access Address of the CONNECT_IND that a cause has sent. -/
def Cause.dials : Cause → Option UInt32
  | .call _ _ aa => some aa
  | _ => none

namespace VbtLl

/-- The mask of a central leaves the low bits alone. -/
theorem sameLow_chosenAA (r : UInt32) : SameLow (chosenAA r) r := by
  rw [chosenAA_eq]
  show ((r &&& 0x7fffffff) ||| 0x00400000).toNat % 2 ^ 22 = r.toNat % 2 ^ 22
  rw [UInt32.toNat_or, UInt32.toNat_and, show (0x7fffffff : UInt32).toNat = 2 ^ 31 - 1 from rfl,
    show (0x00400000 : UInt32).toNat = 2 ^ 22 from rfl]
  refine Nat.eq_of_testBit_eq fun i => ?_
  rw [Nat.testBit_mod_two_pow, Nat.testBit_mod_two_pow]
  by_cases hi : i < 22
  · rw [Nat.testBit_or, Nat.testBit_and, Nat.testBit_two_pow_sub_one, Nat.testBit_two_pow,
      decide_eq_true (show i < 31 by omega), decide_eq_false (show ¬ 22 = i by omega),
      Bool.and_true, Bool.or_false]
  · rw [decide_eq_false hi, Bool.false_and, Bool.false_and]

/-- Two chosen addresses are the same only if the draws agree in their low bits. -/
theorem sameLow_of_chosenAA_eq {r r' : UInt32} (h : chosenAA r = chosenAA r') : SameLow r r' :=
  (sameLow_chosenAA r).symm.trans (h ▸ sameLow_chosenAA r')

/-! ### The seeds -/

/-- The seed of `vbt_ll_new`. -/
def seed (bdaddr : BdAddr) : UInt32 := (vbtLlNew bdaddr).nextAa

/-- The addresses agree in their first four octets. -/
def SameFleet (a a' : BdAddr) : Prop :=
  a.b0 = a'.b0 ∧ a.b1 = a'.b1 ∧ a.b2 = a'.b2 ∧ a.b3 = a'.b3

/-- What the last two octets add to the hash. -/
def tail (a : BdAddr) : ℕ := 33 * a.b4.toNat + a.b5.toNat

theorem tail_lt (a : BdAddr) : tail a < 2 ^ 22 := by
  have h4 := a.b4.toNat_lt
  have h5 := a.b5.toNat_lt
  unfold tail
  omega

/-- The hash of the first four octets. -/
def trunk (a : BdAddr) : UInt32 :=
  [a.b0, a.b1, a.b2, a.b3].foldl (fun aa b => aa * 33 + b.toUInt32) 0x811c9dc5

theorem trunk_eq {a a' : BdAddr} (h : SameFleet a a') : trunk a = trunk a' := by
  obtain ⟨h0, h1, h2, h3⟩ := h
  rw [trunk, trunk, h0, h1, h2, h3]

theorem toNat_seed (a : BdAddr) :
    (seed a).toNat = ((trunk a).toNat * 1089 + tail a) % 2 ^ 32 := by
  show ((trunk a * 33 + a.b4.toUInt32) * 33 + a.b5.toUInt32).toNat = _
  rw [UInt32.toNat_add, UInt32.toNat_mul, UInt32.toNat_add, UInt32.toNat_mul,
    UInt8.toNat_toUInt32, UInt8.toNat_toUInt32, show (33 : UInt32).toNat = 33 from rfl, tail]
  omega

/-- In a fleet the seeds are the same only if the tails are. -/
theorem tail_eq_of_sameLow {a a' : BdAddr} (hf : SameFleet a a') (h : SameLow (seed a) (seed a')) :
    tail a = tail a' := by
  have hsum : (trunk a).toNat * 1089 + tail a ≡ (trunk a).toNat * 1089 + tail a' [MOD 2 ^ 22] := by
    refine (modEq_of_mod_32 _).symm.trans ?_
    rw [← toNat_seed]
    refine h.trans ?_
    rw [toNat_seed, trunk_eq hf]
    exact modEq_of_mod_32 _
  exact (hsum.add_left_cancel' _).eq_of_lt_of_lt (tail_lt a) (tail_lt a')

theorem seed_eq_of_tail {a a' : BdAddr} (hf : SameFleet a a') (h : tail a = tail a') :
    seed a = seed a' := by
  rw [← UInt32.toNat_inj, toNat_seed, toNat_seed, trunk_eq hf, h]

/-! ### How often a core draws -/

/-- The Access Addresses of the CONNECT_INDs that a core has sent, oldest first. -/
def called (ll : VbtLl) : List UInt32 :=
  ll.signals.filterMap fun
    | .connect _ aa => some aa
    | _ => none

/-- How often a call draws, apart from what it does as a central. -/
def Input.draws (i : Input) : ℕ := if i.opcode = some Op.leRand.code then 2 else 0

section Draws

variable (ll : VbtLl)

theorem nextAa_ite {p : Prop} [Decidable p] {x y : VbtLl} {r : UInt32} (hx : x.nextAa = r)
    (hy : y.nextAa = r) : (if p then x else y).nextAa = r := by
  split_ifs
  · exact hx
  · exact hy

/-- LE Rand is the only command that draws. -/
theorem nextAa_command (op : Op) (params : Mem) (plen : ℕ) :
    (ll.command op params plen).nextAa = lcg^[if op = .leRand then 2 else 0] ll.nextAa := by
  cases op
  case leRand => rfl
  case disconnect =>
    refine nextAa_ite (p := 3 ≤ plen) ?_ rfl
    split <;> rfl
  case leConnUpdate =>
    refine nextAa_ite (p := 2 ≤ plen) ?_ rfl
    split <;> rfl
  case leStartEncryption =>
    refine nextAa_ite (p := 2 ≤ plen) ?_ rfl
    split <;> rfl
  case leLtkReqReply =>
    show (ll.leLtkReqReply params plen).nextAa = ll.nextAa
    unfold leLtkReqReply
    dsimp only
    split <;> rfl
  all_goals first | rfl | exact nextAa_ite rfl rfl

theorem nextAa_hciFromHost (pkt : Mem) (len : ℕ) :
    (ll.hciFromHost pkt len).nextAa = lcg^[(Input.hci pkt len).draws] ll.nextAa := by
  cases hi : (Input.hci pkt len).opcode with
  | some opcode =>
    have hstep := step_of_opcode ll hi
    rw [Input.draws, hi, show ll.hciFromHost pkt len = _ from hstep]
    cases hop : Op.ofCode opcode with
    | none =>
      -- an opcode that no case of the switch has is not that of LE Rand
      rw [if_neg fun h => ?_]
      · rfl
      · rw [Option.some.inj h, Op.ofCode_code] at hop
        cases hop
    | some op =>
      have hcode : (some opcode = some Op.leRand.code) ↔ op = .leRand := by
        refine ⟨fun h => ?_, fun h => ?_⟩
        · rw [Option.some.inj h, Op.ofCode_code] at hop
          exact (Option.some.inj hop).symm
        · rw [← Op.code_of_ofCode hop, h]
      simp only [hcode]
      exact nextAa_command ll op _ _
  | none =>
    rw [Input.draws, hi, if_neg (by simp)]
    show (ll.hciFromHost pkt len).nextAa = ll.nextAa
    unfold hciFromHost
    refine nextAa_ite rfl ?_
    by_cases hcmd : pkt 0 = HCI_CMD_PKT
    · -- the packet is too short for an opcode
      have hlen : len < 4 := by
        by_contra hlen
        rw [Input.opcode, if_pos ⟨by omega, hcmd⟩] at hi
        cases hi
      rw [if_pos hcmd, dispatchCommand, if_pos hlen]
    · rw [if_neg hcmd]
      refine nextAa_ite (nextAa_ite rfl ?_) rfl
      dsimp only
      split <;> rfl

theorem nextAa_markEncrypted (i : ℕ) : (ll.markEncrypted i).nextAa = ll.nextAa :=
  nextAa_ite rfl rfl

theorem nextAa_handleLlControl (i : ℕ) (payload : Mem) (plen : ℕ) :
    (ll.handleLlControl i payload plen).nextAa = ll.nextAa := by
  unfold handleLlControl
  refine nextAa_ite rfl (nextAa_ite rfl (nextAa_ite rfl (nextAa_ite rfl (nextAa_ite rfl ?_))))
  exact nextAa_ite (nextAa_markEncrypted _ i) (nextAa_ite (nextAa_markEncrypted ll i) rfl)

theorem nextAa_dataFromMedium (hdr : VbtFrameHdr) (pdu : Mem) (bodyLen : ℕ) :
    (ll.dataFromMedium hdr pdu bodyLen).nextAa = ll.nextAa := by
  unfold dataFromMedium
  split
  · rfl
  · refine nextAa_ite (nextAa_handleLlControl ll _ _ _) (nextAa_ite (nextAa_ite ?_ rfl) rfl)
    exact nextAa_ite rfl rfl

theorem nextAa_connectIndFromMedium (txadd : UInt8) (body : Mem) (bodyLen : ℕ) :
    (ll.connectIndFromMedium txadd body bodyLen).nextAa = ll.nextAa := by
  unfold connectIndFromMedium
  refine nextAa_ite rfl (nextAa_ite rfl ?_)
  rw [connAlloc_eq]
  cases ll.freeSlot <;> rfl

/-- A core that does not call its target draws nothing. -/
theorem nextAa_advFromMedium (hdr : VbtFrameHdr) {type : UInt8} (txadd : UInt8) (body : Mem)
    (bodyLen : ℕ) (h : (ll.onSignal (advSignal type body bodyLen)).dials = none) :
    (ll.advFromMedium hdr type txadd body bodyLen).nextAa = ll.nextAa := by
  unfold advFromMedium
  by_cases hlen : bodyLen < 6
  · rw [if_pos hlen]
  rw [if_neg hlen]
  dsimp only
  by_cases hinit : ll.state = .initiating ∧ (type = VBT_ADV_IND ∨ type = VBT_ADV_DIRECT_IND) ∧
      addrAt body 0 = ll.initPeerAddr
  · rw [if_pos hinit]
    cases hk : ll.freeSlot with
    | none => rw [initiate_full hk]
    | some k =>
      rw [advSignal, if_pos ⟨hinit.2.1, by omega⟩, onSignal_adv, if_pos ⟨hinit.1, hinit.2.2⟩,
        hk] at h
      cases h
  · rw [if_neg hinit]
    exact nextAa_ite (nextAa_ite rfl rfl) rfl

theorem nextAa_pduFromMedium (hdr : VbtFrameHdr) (pdu : Mem) (len : ℕ)
    (h : (ll.onSignal (signal hdr pdu len)).dials = none) :
    (ll.pduFromMedium hdr pdu len).nextAa = ll.nextAa := by
  unfold pduFromMedium
  by_cases hlen : len < 2
  · rw [if_pos hlen]
  rw [if_neg hlen]
  by_cases hll : hdr.llType = VBT_LL_ADV
  · rw [if_pos hll]
    rw [signal, if_neg hlen, if_pos hll] at h
    refine nextAa_ite (nextAa_advFromMedium ll hdr _ _ _ h) ?_
    refine nextAa_ite (nextAa_ite (nextAa_ite rfl rfl) rfl) (nextAa_ite (nextAa_ite rfl rfl) ?_)
    exact nextAa_ite (nextAa_connectIndFromMedium ll _ _ _) rfl
  · rw [if_neg hll]
    exact nextAa_ite (nextAa_dataFromMedium ll hdr pdu _) rfl

theorem nextAa_tick (nowMs : UInt64) : (ll.tick nowMs).nextAa = ll.nextAa :=
  nextAa_ite (nextAa_ite rfl rfl) rfl

/-- **What one call draws**, if it sends no CONNECT_IND. -/
theorem nextAa_step (i : Input) (h : (ll.cause i).dials = none) :
    (ll.step i).nextAa = lcg^[i.draws] ll.nextAa := by
  cases i with
  | hci pkt len => exact nextAa_hciFromHost ll pkt len
  | pdu hdr pdu len => exact nextAa_pduFromMedium ll hdr pdu len h
  | tick nowMs => exact nextAa_tick ll nowMs

/-- The CONNECT_INDs of one call. -/
theorem called_step (i : Input) :
    (ll.step i).called = ll.called ++ (ll.cause i).dials.toList := by
  unfold called
  rw [(step_effect ll i).signals, List.filterMap_append]
  congr 1
  cases ll.cause i <;> rfl

/-- A CONNECT_IND has the Access Address that is drawn next. -/
theorem dials_cause {i : Input} {aa : UInt32} (h : (ll.cause i).dials = some aa) :
    aa = chosenAA (lcg ll.nextAa) := by
  cases hc : ll.cause i with
  | call k adva aa' =>
    have hdue := cause_due ll i
    rw [hc] at h hdue
    obtain ⟨-, -, hs⟩ := hdue
    cases h
    rw [cause_of_signal hs Signal.noConfusion, onSignal_adv] at hc
    split_ifs at hc
    cases hk : ll.freeSlot with
    | none =>
      rw [hk] at hc
      cases hc
    | some j =>
      rw [hk] at hc
      exact (Cause.call.inj hc).2.2.symm
  | _ =>
    rw [hc] at h
    cases h

end Draws

/-- How often a run draws before its first CONNECT_IND. -/
def draws (is : List Input) : ℕ := (is.map Input.draws).sum

/-- The commands say how often. -/
theorem draws_eq_count (is : List Input) :
    draws is = 2 * (is.filterMap Input.opcode).count Op.leRand.code := by
  induction is with
  | nil => rfl
  | cons i is ih =>
    rw [draws, List.map_cons, List.sum_cons, ← draws, ih, Input.draws, List.filterMap_cons]
    cases i.opcode with
    | none => simp
    | some opcode =>
      by_cases h : opcode = Op.leRand.code
      · rw [h, if_pos rfl]
        simp only [List.count_cons_self]
        omega
      · rw [if_neg fun hs => h (Option.some.inj hs)]
        simp only [List.count_cons_of_ne h]
        omega

/-- A run that has sent no CONNECT_IND has drawn for LE Rand only. -/
theorem nextAa_run {bdaddr : BdAddr} {is : List Input}
    (h : ((vbtLlNew bdaddr).run is).called = []) :
    ((vbtLlNew bdaddr).run is).nextAa = lcg^[draws is] (seed bdaddr) := by
  induction is using List.reverseRecOn with
  | nil => rfl
  | append_singleton is i ih =>
    rw [run_concat, called_step] at h
    obtain ⟨hbefore, hnow⟩ := List.append_eq_nil_iff.1 h
    have hdials : (((vbtLlNew bdaddr).run is).cause i).dials = none := by
      simpa using hnow
    rw [run_concat, nextAa_step _ i hdials, ih hbefore, ← Function.iterate_add_apply]
    congr 1
    simp only [draws, List.map_append, List.map_singleton, List.sum_append, List.sum_singleton]
    omega

/-! ### Two nodes -/

/-- The core, after the calls `is`, sends its first CONNECT_IND in the call `j`, with the Access
Address `aa`. -/
structure FirstCall (bdaddr : BdAddr) (is : List Input) (j : Input) (aa : UInt32) : Prop where
  before : ((vbtLlNew bdaddr).run is).called = []
  now : ((vbtLlNew bdaddr).run (is ++ [j])).called = [aa]

/-- What the first CONNECT_IND says, from the address and the commands. -/
theorem FirstCall.accessAddr {bdaddr : BdAddr} {is : List Input} {j : Input} {aa : UInt32}
    (h : FirstCall bdaddr is j aa) :
    aa = chosenAA
      (lcg^[2 * (is.filterMap Input.opcode).count Op.leRand.code + 1] (seed bdaddr)) := by
  have hnow := h.now
  rw [run_concat, called_step, h.before, List.nil_append, Option.toList_eq_singleton_iff] at hnow
  rw [dials_cause _ hnow, nextAa_run h.before, draws_eq_count, Function.iterate_succ_apply']

/-- **First Access Addresses of a fleet**: two nodes that were given the same commands choose
different ones exactly if the last two octets of their addresses differ in `33 * b4 + b5`. -/
theorem first_calls_differ_iff {a a' : BdAddr} (hfleet : SameFleet a a') {is is' : List Input}
    (hcmds : is.filterMap Input.opcode = is'.filterMap Input.opcode) {j j' : Input}
    {aa aa' : UInt32} (h : FirstCall a is j aa) (h' : FirstCall a' is' j' aa') :
    aa ≠ aa' ↔ tail a ≠ tail a' := by
  refine not_congr ?_
  rw [h.accessAddr, h'.accessAddr, ← hcmds]
  constructor
  · intro heq
    exact tail_eq_of_sameLow hfleet ((sameLow_iterate_iff _).1 (sameLow_of_chosenAA_eq heq))
  · intro htail
    rw [seed_eq_of_tail hfleet htail]

/-- A node of the fleet of `centralAddr`. -/
def fleetAddr (b4 b5 : UInt8) : BdAddr := ⟨0xC0, 0, 0, 0, b4, b5⟩

/-- The node asks for a connection, and then hears its target. -/
def CallsTarget (bdaddr : BdAddr) (aa : UInt32) : Prop :=
  FirstCall bdaddr (initiator.take 1) (fromMedium blank advertisement) aa

theorem first_calls_of_neighbours : ∃ aa aa', CallsTarget (fleetAddr 0 1) aa ∧
    CallsTarget (fleetAddr 0 3) aa' ∧ aa ≠ aa' := by
  have h : CallsTarget (fleetAddr 0 1) (chosenAA (lcg (seed (fleetAddr 0 1)))) :=
    ⟨by decide +kernel, by decide +kernel⟩
  have h' : CallsTarget (fleetAddr 0 3) (chosenAA (lcg (seed (fleetAddr 0 3)))) :=
    ⟨by decide +kernel, by decide +kernel⟩
  have hfleet : SameFleet (fleetAddr 0 1) (fleetAddr 0 3) := ⟨rfl, rfl, rfl, rfl⟩
  exact ⟨_, _, h, h', (first_calls_differ_iff hfleet rfl h h').2 (by decide)⟩

/-- The nodes with the tails 00 21 and 01 00 choose the same Access Address. -/
theorem first_calls_collide :
    fleetAddr 0x00 0x21 ≠ fleetAddr 0x01 0x00 ∧
      SameFleet (fleetAddr 0x00 0x21) (fleetAddr 0x01 0x00) ∧
      ∃ aa, CallsTarget (fleetAddr 0x00 0x21) aa ∧ CallsTarget (fleetAddr 0x01 0x00) aa := by
  refine ⟨by decide, ⟨rfl, rfl, rfl, rfl⟩, chosenAA (lcg (seed (fleetAddr 0x00 0x21))), ?_, ?_⟩
  · exact ⟨by decide +kernel, by decide +kernel⟩
  · exact ⟨by decide +kernel, by decide +kernel⟩

end VbtLl
end Vbt
