import Vbt.Core.Discovery
import Vbt.Hub.Refine

/-!
# One connection at three places

A CONNECT_IND is written by the initiator and read twice, by the hub and by the advertiser.

* `readConnComplete`: an LE Connection Complete as a host reads it;
* `findConn_observeConnectInd`: what the hub enters;
* `step_connectInd`: what the advertiser enters;
* `placed_of_connectInd`: a core sends a CONNECT_IND only when it opens a connection;
* `connection_agreed`: the three entries are the same connection.
-/

namespace Vbt

/-! ### The hub -/

namespace Hub

variable {s : Hub} {aa : UInt32}

/-- The connection table can take one more entry. -/
def HasRoom (s : Hub) : Prop :=
  s.conns.size < MAX_CONNS ∨ ∃ c < s.conns.size, (s.conns c).active = false

theorem findConn_connEntry (hroom : s.HasRoom) (hv : validAA aa = true) :
    ∃ s' c, s.connEntry aa = (s', some c) ∧ s'.findConn aa = some c := by
  obtain ⟨c, hf, hd⟩ | ⟨c, conns, hf, hA, hd⟩ | ⟨-, hA, -⟩ := connEntry_cases s aa
  · exact ⟨s, c, hd, hf⟩
  · -- no entry had the address, so the new one is the only one
    refine ⟨_, c, hd, ?_⟩
    obtain ⟨hget, hslot⟩ := Slots.alloc_eq_some hA
    unfold findConn at hf ⊢
    rw [if_pos hv] at hf ⊢
    refine Slots.find?_eq_some_of_unique ?_ ?_ fun d hd hp => ?_
    · show c < conns.size
      obtain ⟨hlt, -, hsize⟩ | ⟨rfl, -, hsize, -⟩ := hslot <;> omega
    · show (conns c).active && (conns c).accessAddr == aa
      rw [hget, if_pos rfl]
      simp
    · by_contra hne
      replace hd : d < conns.size := hd
      replace hp : ((conns d).active && (conns d).accessAddr == aa) = true := hp
      rw [hget, if_neg hne] at hp
      have hlt : d < s.conns.size := by
        obtain ⟨-, -, hsize⟩ | ⟨rfl, -, hsize, -⟩ := hslot <;> omega
      rw [Slots.find?_eq_none_iff.1 hf d hlt] at hp
      cases hp
  · obtain ⟨hfull, hall⟩ := Slots.alloc_eq_none_iff.1 hA
    rcases hroom with hlt | ⟨c, hc, hfree⟩
    · omega
    · have hused := hall c hc
      rw [hfree] at hused
      cases hused

/-- **What the hub enters for a CONNECT_IND.** -/
theorem findConn_observeConnectInd (hroom : s.HasRoom) (i : Option ℕ) {pdu : List UInt8}
    (hlen : VBT_CONNIND_AA_OFF + 4 ≤ pdu.length) (hv : validAA (indAA pdu) = true) :
    ∃ c, (s.observeConnectInd i pdu).findConn (indAA pdu) = some c ∧
      ((s.observeConnectInd i pdu).conns c).inita = indInitA pdu ∧
      ((s.observeConnectInd i pdu).conns c).adva = indAdvA pdu := by
  obtain ⟨s', c, hentry, hfind⟩ := findConn_connEntry hroom hv
  have heq : s.observeConnectInd i pdu = (s'.modConn c fun c => { c with
      nodeA := i, nodeB := s.findNodeByAddr (indAdvA pdu), inita := indInitA pdu,
      adva := indAdvA pdu }).note
        (.snooped (indAA pdu) i (s.findNodeByAddr (indAdvA pdu)) (some c)) := by
    unfold observeConnectInd
    rw [if_neg (by omega), if_neg (by rw [hv]; decide), hentry]
  generalize hg : (fun c : Conn => { c with
    nodeA := i, nodeB := s.findNodeByAddr (indAdvA pdu), inita := indInitA pdu,
    adva := indAdvA pdu }) = g at heq
  have hconns : (s.observeConnectInd i pdu).conns = s'.conns.modify c g := congrArg Hub.conns heq
  refine ⟨c, ?_, ?_, ?_⟩
  · -- neither the address nor the flag of the entry is touched
    refine Eq.trans ?_ hfind
    unfold findConn
    rw [if_pos hv, if_pos hv, hconns]
    refine Slots.find?_congr rfl fun d _ => ?_
    refine Slots.modify_attr s'.conns (fun c => c.active && c.accessAddr == indAA pdu) ?_ c d
    rw [← hg]
    exact fun _ => rfl
  · rw [hconns, Slots.modify_same, ← hg]
  · rw [hconns, Slots.modify_same, ← hg]

end Hub

/-! ### The hosts -/

/-- An LE Connection Complete. -/
structure ConnComplete where
  status : UInt8
  handle : UInt16
  role : UInt8
  peerAddrType : UInt8
  peerAddr : BdAddr
  deriving DecidableEq

/-- Read an LE Connection Complete. -/
def readConnComplete (pkt : List UInt8) : Option ConnComplete :=
  let b := fun i => pkt.getD i 0
  if b 0 = HCI_EVT_PKT ∧ b 1 = EVT_LE_META ∧ b 3 = SUB_LE_CONN_COMPLETE then
    some ⟨b 4, le16 (b 5) (b 6), b 7, b 8, addrAt b 9⟩
  else none

namespace VbtLl

theorem readConnComplete_connCompletePkt (c : LlConn) :
    readConnComplete (connCompletePkt c) =
      some ⟨HCI_SUCCESS, c.handle, c.role, c.peerAddrType, c.peerAddr⟩ := by
  rw [← le16_byteAt c.handle]
  exact congrArg readConnComplete (patchLen_cons _ _ _ _)

/-! ### The two cores -/

/-- The TxAdd bit of a CONNECT_IND is read back. -/
theorem txadd_connectInd (t advaType : UInt8) :
    (if (VBT_CONNECT_IND ||| txAddBit (ownSourceAddrType t) ||| rxAddBit advaType) &&& 0x40 ≠ 0
      then (1 : UInt8) else 0) = ownSourceAddrType t := by
  have hbits : ∀ i : UInt8, i = 0 ∨ i = 1 →
      (if (VBT_CONNECT_IND ||| txAddBit i ||| rxAddBit advaType) &&& 0x40 ≠ 0
        then (1 : UInt8) else 0) = i := by
    unfold rxAddBit
    rintro i (rfl | rfl) <;> split_ifs <;> first | rfl | contradiction
  apply hbits
  unfold ownSourceAddrType
  split_ifs
  · exact Or.inr rfl
  · exact Or.inl rfl

/-- **What the advertiser enters for a CONNECT_IND.** -/
theorem step_connectInd {y : VbtLl} {j : ℕ} (hfree : y.freeSlot = some j)
    (hadv : y.advEnabled = true) {f : Frame} {t advaType : UInt8} {inita : BdAddr} {aa : UInt32}
    (hll : f.hdr.llType = VBT_LL_ADV)
    (hpdu : f.pdu = connectIndPdu (ownSourceAddrType t) advaType inita
      (y.ownSourceAddr y.advOwnAddrType) aa) (junk : Mem) :
    y.step (fromMedium junk f) = y.accept j inita (ownSourceAddrType t) aa := by
  generalize hadva : y.ownSourceAddr y.advOwnAddrType = a at hpdu
  generalize hpkt : connectIndPdu (ownSourceAddrType t) advaType inita a aa = pkt at hpdu
  have hm : Mem.ofList pkt junk 0 =
      VBT_CONNECT_IND ||| txAddBit (ownSourceAddrType t) ||| rxAddBit advaType := by
    rw [← hpkt]
    rfl
  have hlen : pkt.length = 36 := by
    rw [← hpkt]
    rfl
  have hbody : bodyLenOf (Mem.ofList pkt junk) 36 = 34 := by
    rw [← hpkt]
    rfl
  have hadv6 : addrAt ((Mem.ofList pkt junk).shift 2) 6 = a := by
    rw [← hpkt]
    rfl
  have hinit : addrAt ((Mem.ofList pkt junk).shift 2) 0 = inita := by
    rw [← hpkt]
    rfl
  have haa : le32 ((Mem.ofList pkt junk).shift 2 12) ((Mem.ofList pkt junk).shift 2 13)
      ((Mem.ofList pkt junk).shift 2 14) ((Mem.ofList pkt junk).shift 2 15) = aa := by
    rw [← hpkt]
    exact le32_byteAt aa
  show y.pduFromMedium f.hdr (Mem.ofList f.pdu junk) f.pdu.length = _
  rw [hpdu, hlen]
  unfold pduFromMedium
  rw [if_neg (by omega), if_pos hll, hm, connectIndType, txadd_connectInd, hbody]
  dsimp only
  rw [if_neg (by decide), if_neg (by decide), if_neg (by decide), if_pos rfl,
    connectIndFromMedium_eq hfree hadv le_rfl (hadv6.trans hadva.symm), hinit, haa]

theorem eq_addrAt_of_signal {hdr : VbtFrameHdr} {pdu : Mem} {len : ℕ} {a : BdAddr}
    (h : signal hdr pdu len = .adv a) : a = addrAt (pdu.shift 2) 0 := by
  unfold signal advSignal controlSignal at h
  split_ifs at h
  cases h
  rfl

/-- A core sends a CONNECT_IND only when it opens a connection to the advertiser it hears. -/
theorem placed_of_connectInd {x : VbtLl} {hdr : VbtFrameHdr} {pdu : Mem} {len : ℕ} {f : Frame}
    (hf : f ∈ framesIn (x.outputs (.pdu hdr pdu len))) (hll : f.hdr.llType = VBT_LL_ADV)
    (htype : pduType f.pdu = VBT_CONNECT_IND) :
    ∃ k txadd, x.freeSlot = some k ∧
      x.step (.pdu hdr pdu len) = x.place k (addrAt (pdu.shift 2) 0) txadd ∧
      f = x.connectIndFrame (addrAt (pdu.shift 2) 0) txadd x.nextAddress := by
  obtain ⟨o, ho, hof⟩ := List.mem_filterMap.1 hf
  cases step_reacts x (i := .pdu hdr pdu len) rfl with
  | place k txadd free ready heard does =>
    rw [eq_addrAt_of_signal heard] at does
    refine ⟨k, txadd, free, does, ?_⟩
    have hout : (x.step (.pdu hdr pdu len)).out = [_, .pdu 36 (x.connectIndFrame _ _ _)] ++ x.out :=
      congrArg VbtLl.out does
    rw [outputs_eq hout, List.mem_reverse] at ho
    rcases List.mem_cons.1 ho with rfl | ho
    · cases hof
    · cases List.mem_singleton.1 ho
      cases hof
      rfl
  | accept k inita txadd aa free ready heard does =>
    have hout : (x.step (.pdu hdr pdu len)).out = [_] ++ x.out := congrArg VbtLl.out does
    rw [outputs_eq hout, List.mem_reverse] at ho
    cases List.mem_singleton.1 ho
    cases hof
  | routine opens emits =>
    obtain ⟨new, hout, hnew⟩ := emits.out
    rw [outputs_eq hout, List.mem_reverse] at ho
    have hair := hnew o ho
    cases o with
    | hci size pkt => cases hof
    | pdu size g =>
      cases hof
      rcases hair.2 with hb | ⟨_, _, _, _, _, hc⟩
      · exact absurd htype hb.type
      · rw [hc.llType] at hll
        exact absurd hll (by decide)

/-! ### Agreement -/

/-- Slot `k` of `x`, entry `c` of the hub and slot `j` of `y` are one connection, with this Access
Address, from the initiator's address and address type to the advertiser's address. -/
structure Agreed (aa : UInt32) (inita : BdAddr) (itype : UInt8) (adva : BdAddr) (x : VbtLl) (k : ℕ)
    (s : Hub) (c : ℕ) (y : VbtLl) (j : ℕ) : Prop where
  valid : aa ≠ 0 ∧ aa ≠ VBT_ADV_ACCESS_ADDR
  central : (x.conns k).active = true ∧ (x.conns k).accessAddr = aa ∧ (x.conns k).peerAddr = adva
  hub : s.findConn aa = some c ∧ (s.conns c).accessAddr = aa ∧ (s.conns c).inita = inita ∧
    (s.conns c).adva = adva
  peripheral : (y.conns j).active = true ∧ (y.conns j).accessAddr = aa ∧
    (y.conns j).peerAddr = inita ∧ (y.conns j).peerAddrType = itype

theorem Agreed.of_connectInd {x : VbtLl} {k : ℕ} {adva : BdAddr} {txadd : UInt8} {s : Hub}
    (hroom : s.HasRoom) (ini : Option ℕ) (y : VbtLl) (j : ℕ) :
    ∃ c, Agreed x.nextAddress (x.ownSourceAddr x.initOwnAddrType)
      (ownSourceAddrType x.initOwnAddrType) adva (x.place k adva txadd) k
      (s.observeConnectInd ini (x.connectIndFrame adva txadd x.nextAddress).pdu) c
      (y.accept j (x.ownSourceAddr x.initOwnAddrType) (ownSourceAddrType x.initOwnAddrType)
        x.nextAddress) j := by
  have hvalid : x.nextAddress ≠ 0 ∧ x.nextAddress ≠ VBT_ADV_ACCESS_ADDR := chosenAA_valid _
  have haa : Hub.indAA (x.connectIndFrame adva txadd x.nextAddress).pdu = x.nextAddress :=
    le32_byteAt x.nextAddress
  have hv : Hub.validAA x.nextAddress = true := by
    unfold Hub.validAA
    simp [hvalid.1, hvalid.2]
  have hcentral : (x.place k adva txadd).conns k = centralConn k adva txadd x.nextAddress :=
    Slots.modify_same x.conns k fun _ => centralConn _ _ _ _
  have hperipheral : (y.accept j (x.ownSourceAddr x.initOwnAddrType)
      (ownSourceAddrType x.initOwnAddrType) x.nextAddress).conns j = peripheralConn j
        (x.ownSourceAddr x.initOwnAddrType) (ownSourceAddrType x.initOwnAddrType) x.nextAddress :=
    Slots.modify_same y.conns j fun _ => peripheralConn _ _ _ _
  have hlen : VBT_CONNIND_AA_OFF + 4 ≤ (x.connectIndFrame adva txadd x.nextAddress).pdu.length :=
    show 18 ≤ 36 by omega
  obtain ⟨c, hfind, hinita, hadva⟩ :=
    Hub.findConn_observeConnectInd hroom ini hlen (haa.symm ▸ hv)
  rw [haa] at hfind
  refine ⟨c, hvalid, ?_, ⟨hfind, ?_, hinita, hadva⟩, ?_⟩
  · rw [hcentral]
    exact ⟨rfl, rfl, rfl⟩
  · unfold Hub.findConn at hfind
    rw [if_pos hv] at hfind
    have hkey := (Slots.find?_eq_some_iff.1 hfind).2.1
    rw [Bool.and_eq_true, beq_iff_eq] at hkey
    exact hkey.2
  · rw [hperipheral]
    exact ⟨rfl, rfl, rfl, rfl⟩

/-- **Initiator, hub and advertiser agree on every connection**, and the hosts are told the two
roles. -/
theorem connection_agreed {x : VbtLl} {hdr : VbtFrameHdr} {pdu : Mem} {len : ℕ} {f f' : Frame}
    (hf : f ∈ framesIn (x.outputs (.pdu hdr pdu len))) (hll : f.hdr.llType = VBT_LL_ADV)
    (htype : pduType f.pdu = VBT_CONNECT_IND) {s : Hub} (hroom : s.HasRoom) (ini : Option ℕ)
    {y : VbtLl} {j : ℕ} (hadv : y.advEnabled = true)
    (hadva : y.ownSourceAddr y.advOwnAddrType = addrAt (pdu.shift 2) 0)
    (hfree : y.freeSlot = some j) (hair : Aired f f') (junk : Mem) :
    ∃ aa k c, Agreed aa (x.ownSourceAddr x.initOwnAddrType) (ownSourceAddrType x.initOwnAddrType)
        (y.ownSourceAddr y.advOwnAddrType) (x.step (.pdu hdr pdu len)) k
        (s.observeConnectInd ini f.pdu) c (y.step (fromMedium junk f')) j ∧
      (∃ pkt e, packetsIn (x.outputs (.pdu hdr pdu len)) = [pkt] ∧
        readConnComplete pkt = some e ∧ e.role = 0) ∧
      ∃ pkt e, packetsIn (y.outputs (fromMedium junk f')) = [pkt] ∧
        readConnComplete pkt = some e ∧ e.role = 1 := by
  obtain ⟨k, txadd, hk, hx, rfl⟩ := placed_of_connectInd hf hll htype
  have hpdu := hair.pdu
  rw [← hadva] at hx hpdu
  have hy := step_connectInd hfree hadv (hair.llType.trans hll) hpdu junk
  obtain ⟨c, hc⟩ := Agreed.of_connectInd (x := x) (k := k) hroom ini y j
  refine ⟨x.nextAddress, k, c, ?_, ?_, ?_⟩
  · rw [hx, hy, ← hadva]
    exact hc
  · have hout : (x.step (.pdu hdr pdu len)).out = [.hci 24 (connCompletePkt _), _] ++ x.out :=
      congrArg VbtLl.out hx
    rw [outputs_eq hout]
    exact ⟨_, _, rfl, readConnComplete_connCompletePkt _, rfl⟩
  · have hout : (y.step (fromMedium junk f')).out = [.hci 24 (connCompletePkt _)] ++ y.out :=
      congrArg VbtLl.out hy
    rw [outputs_eq hout]
    exact ⟨_, _, rfl, readConnComplete_connCompletePkt _, rfl⟩

/-- The initiator before it hears the advertisement. -/
def dialer : VbtLl := (vbtLlNew centralAddr).run (initiator.take 1)

theorem connection_agreed_dialer :
    ∃ aa k c, Agreed aa centralAddr 0 peripheralAddr
      (dialer.step (fromMedium blank advertisement)) k
      ((Hub.init 4).observeConnectInd none (central.frames.headD default).pdu) c
      (((vbtLlNew peripheralAddr).run advertiser).step
        (fromMedium blank (central.frames.headD default))) 0 := by
  have hf : central.frames.headD default ∈
      framesIn (dialer.outputs (fromMedium blank advertisement)) := by decide +kernel
  have hroom : (Hub.init 4).HasRoom := Or.inl (by decide)
  obtain ⟨aa, k, c, hagreed, -⟩ := connection_agreed hf (by decide +kernel) (by decide +kernel)
    hroom none (y := (vbtLlNew peripheralAddr).run advertiser) (j := 0) (by decide +kernel)
    (by decide +kernel) (by decide +kernel) ⟨rfl, rfl⟩ blank
  exact ⟨aa, k, c, hagreed⟩

end VbtLl
end Vbt
