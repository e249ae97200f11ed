import Vbt.Core.Discovery

/-!
# Reading no further than the length

The entry points of the core get a pointer and a length. The PDUs of the medium and the packets of
the host are only read up to their length, with two exceptions: `LE Set Advertising Data` and `LE
Set Scan Response Data` copy as many bytes as their first parameter says, at most 31, whether or not
the packet has them. What they copy is kept and advertised later.

* `pduFromMedium_congr`: a PDU from the medium;
* `command_congr`, `hciFromHost_congr`: a packet from the host;
* `Overreads`: the two commands, with fewer bytes than they say;
* `reads_only_given_iff`: the core depends on the given bytes only, exactly without them;
* `adv_data_leak`: a byte behind the packet is advertised.
-/

namespace Vbt

theorem addrAt_congr {n off : ℕ} {m m' : Mem} (h : Mem.Agree n m m') (hoff : off + 6 ≤ n) :
    addrAt m' off = addrAt m off := by
  unfold addrAt
  rw [h off (by omega), h (off + 1) (by omega), h (off + 2) (by omega), h (off + 3) (by omega),
    h (off + 4) (by omega), h (off + 5) (by omega)]

namespace VbtLl

variable (ll : VbtLl)

/-! ### PDUs from the medium -/

section Medium

variable {n : ℕ} {m m' : Mem} (h : Mem.Agree n m m')

include h

theorem handleLlControl_congr (i : ℕ) :
    ll.handleLlControl i m' n = ll.handleLlControl i m n := by
  unfold handleLlControl
  by_cases hn : n < 1
  · rw [if_pos hn, if_pos hn]
  · have hreason : (if 2 ≤ n then m' 1 else HCI_REMOTE_USER_TERM) =
        if 2 ≤ n then m 1 else HCI_REMOTE_USER_TERM := by
      split_ifs
      · exact h 1 (by omega)
      · rfl
    have henc : ll.handleEncReq i m' n = ll.handleEncReq i m n := by
      unfold handleEncReq
      dsimp only
      by_cases hlen : 23 ≤ n
      · simp only [if_pos hlen, (h.shift (show 1 ≤ n by omega)).take (show 8 ≤ n - 1 by omega),
          (h.shift (show 9 ≤ n by omega)).take (show 2 ≤ n - 9 by omega)]
      · simp only [if_neg hlen]
    rw [hreason, henc, h 0 (by omega)]

theorem advFromMedium_congr (hdr : VbtFrameHdr) (type txadd : UInt8) :
    ll.advFromMedium hdr type txadd m' n = ll.advFromMedium hdr type txadd m n := by
  unfold advFromMedium
  by_cases hn : n < 6
  · rw [if_pos hn, if_pos hn]
  · rw [if_neg hn, if_neg hn, addrAt_congr h (by omega),
      (h.shift (show 6 ≤ n by omega)).take le_rfl]

theorem scanReqFromMedium_congr : ll.scanReqFromMedium m' n = ll.scanReqFromMedium m n := by
  unfold scanReqFromMedium
  split_ifs with hcond h1 h2 h2
  · rfl
  · rw [addrAt_congr h (by omega)] at h1
    exact absurd h1 h2
  · rw [addrAt_congr h (by omega)] at h1
    exact absurd h2 h1
  · rfl
  · rfl

theorem scanRspFromMedium_congr (hdr : VbtFrameHdr) (txadd : UInt8) :
    ll.scanRspFromMedium hdr txadd m' n = ll.scanRspFromMedium hdr txadd m n := by
  unfold scanRspFromMedium
  split_ifs with hcond
  · rw [addrAt_congr h (by omega), (h.shift (show 6 ≤ n by omega)).take le_rfl]
  · rfl

theorem connectIndFromMedium_congr (txadd : UInt8) :
    ll.connectIndFromMedium txadd m' n = ll.connectIndFromMedium txadd m n := by
  unfold connectIndFromMedium
  by_cases hcond : ll.advEnabled = false ∨ n < 34
  · rw [if_pos hcond, if_pos hcond]
  · have hn : 34 ≤ n := by
      by_contra hc
      exact hcond (Or.inr (by omega))
    rw [addrAt_congr h (show 6 + 6 ≤ n by omega), addrAt_congr h (show 0 + 6 ≤ n by omega),
      h 12 (by omega), h 13 (by omega), h 14 (by omega), h 15 (by omega)]

end Medium

/-- **A PDU is read up to its length.** -/
theorem pduFromMedium_congr (hdr : VbtFrameHdr) {len : ℕ} {pdu pdu' : Mem}
    (h : Mem.Agree len pdu pdu') :
    ll.pduFromMedium hdr pdu' len = ll.pduFromMedium hdr pdu len := by
  unfold pduFromMedium
  by_cases hlen : len < 2
  · rw [if_pos hlen, if_pos hlen]
  rw [if_neg hlen, if_neg hlen]
  have hbody : bodyLenOf pdu' len = bodyLenOf pdu len := by
    unfold bodyLenOf
    rw [h 1 (by omega)]
  have hle : bodyLenOf pdu len ≤ len - 2 := by
    unfold bodyLenOf
    split_ifs <;> omega
  have hagree : Mem.Agree (bodyLenOf pdu len) (pdu.shift 2) (pdu'.shift 2) :=
    (h.shift (show 2 ≤ len by omega)).mono hle
  have hdata : ll.dataFromMedium hdr pdu' (bodyLenOf pdu len) =
      ll.dataFromMedium hdr pdu (bodyLenOf pdu len) := by
    unfold dataFromMedium
    rw [h 0 (by omega)]
    simp only [handleLlControl_congr ll hagree, hagree.take le_rfl]
  rw [hbody, h 0 (by omega), hdata]
  dsimp only
  rw [advFromMedium_congr ll hagree, scanReqFromMedium_congr ll hagree,
    scanRspFromMedium_congr ll hagree, connectIndFromMedium_congr ll hagree]

/-! ### Packets from the host -/

section Command

variable {n plen : ℕ} {params params' : Mem} (h : Mem.Agree n params params') (hn : plen ≤ n)

include h hn

theorem handleOf_congr (hlen : 2 ≤ plen) : handleOf params' = handleOf params := by
  unfold handleOf
  rw [h 0 (by omega), h 1 (by omega)]

theorem enableFlag_congr : enableFlag params' plen = enableFlag params plen := by
  unfold enableFlag
  by_cases hlen : 1 ≤ plen
  · rw [h 0 (by omega)]
  · rw [decide_eq_false hlen]
    rfl

/-- A command is read up to its length, but for the two that set data. -/
theorem command_congr {op : Op} (hadv : op ≠ .leSetAdvData) (hrsp : op ≠ .leSetScanRspData) :
    ll.command op params' plen = ll.command op params plen := by
  cases op with
  | leSetAdvData => exact absurd rfl hadv
  | leSetScanRspData => exact absurd rfl hrsp
  | reset | setEventMask | setEventMaskPage2 | leSetEventMask | leSetHostChanClass
  | leClearWhiteList | leAddWhiteList | leRemoveWhiteList | readLocalVersion | readLocalCommands
  | readLocalFeatures | leReadLocalFeatures | readBufferSize | leReadBufferSize | readBdAddr
  | leReadAdvTxPower | leReadWhiteListSize | leReadSupportedStates | leCreateConnCancel
  | leRand => rfl
  | leSetRandomAddress =>
    show ll.leSetRandomAddress params' plen = ll.leSetRandomAddress params plen
    unfold leSetRandomAddress
    by_cases hlen : 6 ≤ plen
    · rw [if_pos hlen, if_pos hlen, addrAt_congr h (by omega)]
    · rw [if_neg hlen, if_neg hlen]
  | leSetAdvParameters =>
    show ll.leSetAdvParameters params' plen = ll.leSetAdvParameters params plen
    unfold leSetAdvParameters
    by_cases hlen : 15 ≤ plen
    · rw [if_pos hlen, if_pos hlen, addrAt_congr h (by omega), h 4 (by omega), h 5 (by omega),
        h 6 (by omega)]
    · rw [if_neg hlen, if_neg hlen]
  | leSetAdvEnable =>
    show ll.leSetAdvEnable params' plen = ll.leSetAdvEnable params plen
    unfold leSetAdvEnable
    rw [enableFlag_congr h hn]
  | leSetScanParameters =>
    show ll.leSetScanParameters params' plen = ll.leSetScanParameters params plen
    unfold leSetScanParameters
    by_cases hlen : 1 ≤ plen
    · have hown : (if 6 ≤ plen then params' 5 else ll.scanOwnAddrType) =
          if 6 ≤ plen then params 5 else ll.scanOwnAddrType := by
        split_ifs
        · exact h 5 (by omega)
        · rfl
      rw [if_pos hlen, if_pos hlen, hown, h 0 (by omega)]
    · rw [if_neg hlen, if_neg hlen]
  | leSetScanEnable =>
    show ll.leSetScanEnable params' plen = ll.leSetScanEnable params plen
    unfold leSetScanEnable
    rw [enableFlag_congr h hn]
  | leCreateConn =>
    show ll.handleLeCreateConn params' plen = ll.handleLeCreateConn params plen
    unfold handleLeCreateConn
    by_cases hlen : plen < 13
    · rw [if_pos hlen, if_pos hlen]
    · rw [if_neg hlen, if_neg hlen, addrAt_congr h (by omega), h 5 (by omega), h 12 (by omega)]
  | leConnUpdate =>
    show ll.leConnUpdate params' plen = ll.leConnUpdate params plen
    unfold leConnUpdate
    by_cases hlen : 2 ≤ plen
    · simp only [if_pos hlen, handleOf_congr h hn hlen]
    · simp only [if_neg hlen]
  | leReadRemoteFeatures =>
    show ll.leReadRemoteFeatures params' plen = ll.leReadRemoteFeatures params plen
    unfold leReadRemoteFeatures
    by_cases hlen : 2 ≤ plen
    · simp only [if_pos hlen, handleOf_congr h hn hlen]
    · simp only [if_neg hlen]
  | leEncrypt =>
    show ll.leEncrypt params' plen = ll.leEncrypt params plen
    unfold leEncrypt
    by_cases hlen : 32 ≤ plen
    · rw [if_pos hlen, if_pos hlen,
        (h.shift (show 16 ≤ n by omega)).take (show 16 ≤ n - 16 by omega)]
    · rw [if_neg hlen, if_neg hlen]
  | leStartEncryption =>
    show ll.leStartEncryption params' plen = ll.leStartEncryption params plen
    unfold leStartEncryption
    by_cases hlen : 2 ≤ plen
    · have hrand : (if 28 ≤ plen then (params'.shift 2).take 10 else List.replicate 10 0) =
          if 28 ≤ plen then (params.shift 2).take 10 else List.replicate 10 0 := by
        split_ifs
        · exact (h.shift (show 2 ≤ n by omega)).take (show 10 ≤ n - 2 by omega)
        · rfl
      simp only [if_pos hlen, handleOf_congr h hn hlen, hrand]
    · simp only [if_neg hlen]
  | leLtkReqReply | leLtkReqNegReply =>
    have hltk : ltkHandle params' plen = ltkHandle params plen := by
      unfold ltkHandle
      split_ifs with hlen
      · exact handleOf_congr h hn hlen
      · rfl
    simp only [command, leLtkReqReply, leLtkReqNegReply, hltk]
  | disconnect =>
    show ll.disconnect params' plen = ll.disconnect params plen
    unfold disconnect
    by_cases hlen : 3 ≤ plen
    · simp only [if_pos hlen, handleOf_congr h hn (by omega), h 2 (by omega)]
    · simp only [if_neg hlen]
  | readRemoteVersion =>
    show ll.readRemoteVersion params' plen = ll.readRemoteVersion params plen
    unfold readRemoteVersion
    by_cases hlen : 2 ≤ plen
    · simp only [if_pos hlen, handleOf_congr h hn hlen]
    · simp only [if_neg hlen]

end Command

theorem handleAclFromHost_congr {len : ℕ} {pkt pkt' : Mem} (h : Mem.Agree len pkt pkt') :
    ll.handleAclFromHost pkt' len = ll.handleAclFromHost pkt len := by
  unfold handleAclFromHost
  by_cases hlen : len < 5
  · rw [if_pos hlen, if_pos hlen]
  · have hacl : aclLen pkt' len = aclLen pkt len := by
      unfold aclLen
      rw [h 3 (by omega), h 4 (by omega)]
    have hle : aclLen pkt len ≤ len - 5 := by
      unfold aclLen
      dsimp only
      split_ifs <;> omega
    rw [if_neg hlen, if_neg hlen, h 1 (by omega), h 2 (by omega), hacl]
    simp only [(h.shift (show 5 ≤ len by omega)).take hle]

/-- A command that sets data, with fewer bytes than it says. -/
structure Overreads (pkt : Mem) (len : ℕ) : Prop where
  command : pkt 0 = HCI_CMD_PKT
  opcode : le16 (pkt 1) (pkt 2) = Op.leSetAdvData.code ∨
    le16 (pkt 1) (pkt 2) = Op.leSetScanRspData.code
  params : 5 ≤ len ∧ pkt 3 ≠ 0
  short : len < 5 + min (pkt 4).toNat 31

instance (pkt : Mem) (len : ℕ) : Decidable (Overreads pkt len) :=
  decidable_of_iff (pkt 0 = HCI_CMD_PKT ∧ (le16 (pkt 1) (pkt 2) = Op.leSetAdvData.code ∨
      le16 (pkt 1) (pkt 2) = Op.leSetScanRspData.code) ∧ (5 ≤ len ∧ pkt 3 ≠ 0) ∧
      len < 5 + min (pkt 4).toNat 31)
    ⟨fun ⟨h1, h2, h3, h4⟩ => ⟨h1, h2, h3, h4⟩, fun ⟨h1, h2, h3, h4⟩ => ⟨h1, h2, h3, h4⟩⟩

section Data

variable {len : ℕ} {pkt pkt' : Mem}

theorem adDataOf_congr (h : Mem.Agree len pkt pkt') (hshort : 5 + min (pkt 4).toNat 31 ≤ len) :
    adDataOf (pkt'.shift 4) = adDataOf (pkt.shift 4) := by
  refine Subtype.ext ?_
  show ((pkt'.shift 4).shift 1).take (min (pkt' 4).toNat 31) =
    ((pkt.shift 4).shift 1).take (min (pkt 4).toNat 31)
  rw [h 4 (by omega), Mem.shift_shift, Mem.shift_shift]
  exact (h.shift (show 5 ≤ len by omega)).take (by omega)

/-- The first byte behind the packet is one of the data. -/
theorem adDataOf_update (hlen : 5 ≤ len) (hshort : len < 5 + min (pkt 4).toNat 31) :
    adDataOf ((pkt.update len (pkt len + 1)).shift 4) ≠ adDataOf (pkt.shift 4) := by
  intro hdata
  have h4 : pkt.update len (pkt len + 1) 4 = pkt 4 := pkt.agree_update len _ 4 (by omega)
  have hlast : pkt.update len (pkt len + 1) len = pkt len + 1 := Function.update_self ..
  have hval : (((pkt.update len (pkt len + 1)).shift 4).shift 1).take
        (min (pkt.update len (pkt len + 1) 4).toNat 31) =
      ((pkt.shift 4).shift 1).take (min (pkt 4).toNat 31) := congrArg Subtype.val hdata
  rw [h4] at hval
  have hget := congrArg (fun l => l[len - 5]?) hval
  have hidx : 4 + (1 + (len - 5)) = len := by omega
  simp only [Mem.take, List.getElem?_map, List.getElem?_range (show len - 5 < min (pkt 4).toNat 31 by omega),
    Option.map_some, Mem.shift_apply, hidx, hlast, Option.some.injEq] at hget
  have := congrArg UInt8.toNat hget
  have hlt := (pkt len).toNat_lt
  simp only [UInt8.toNat_add, UInt8.toNat_one] at this
  omega

end Data

/-- **A packet from the host is read up to its length**, unless it is one of the two commands. -/
theorem hciFromHost_congr {len : ℕ} {pkt pkt' : Mem} (h : Mem.Agree len pkt pkt')
    (hover : ¬ Overreads pkt len) : ll.hciFromHost pkt' len = ll.hciFromHost pkt len := by
  unfold hciFromHost
  by_cases hlen : len < 1
  · rw [if_pos hlen, if_pos hlen]
  rw [if_neg hlen, if_neg hlen, h 0 (by omega), handleAclFromHost_congr ll h]
  by_cases hcmd : pkt 0 = HCI_CMD_PKT
  · rw [if_pos hcmd, if_pos hcmd]
    unfold dispatchCommand
    by_cases hlen4 : len < 4
    · rw [if_pos hlen4, if_pos hlen4]
    rw [if_neg hlen4, if_neg hlen4, h 1 (by omega), h 2 (by omega), h 3 (by omega)]
    dsimp only
    generalize hplen : (if len < 4 + (pkt 3).toNat then len - 4 else (pkt 3).toNat) = plen
    have hle : plen ≤ len - 4 := by
      rw [← hplen]
      split_ifs <;> omega
    cases hop : Op.ofCode (le16 (pkt 1) (pkt 2)) with
    | none => rfl
    | some op =>
      dsimp only
      have hcode := Op.code_of_ofCode hop
      -- the data of the two commands is in the packet, or they do not look at it
      have hdata : (le16 (pkt 1) (pkt 2) = Op.leSetAdvData.code ∨
          le16 (pkt 1) (pkt 2) = Op.leSetScanRspData.code) → 1 ≤ plen →
          adDataOf (pkt'.shift 4) = adDataOf (pkt.shift 4) := by
        intro hopc hpos
        have hp : 5 ≤ len ∧ pkt 3 ≠ 0 := by
          refine ⟨by omega, fun h0 => ?_⟩
          rw [h0] at hplen
          simp only [UInt8.toNat_zero] at hplen
          split_ifs at hplen <;> omega
        exact adDataOf_congr h (Nat.not_lt.1 fun hc => hover ⟨hcmd, hopc, hp, hc⟩)
      by_cases hadv : op = .leSetAdvData
      · subst hadv
        show ll.leSetAdvData (pkt'.shift 4) plen = ll.leSetAdvData (pkt.shift 4) plen
        unfold leSetAdvData
        split_ifs with hpos
        · rw [hdata (Or.inl hcode.symm) hpos]
        · rfl
      by_cases hrsp : op = .leSetScanRspData
      · subst hrsp
        show ll.leSetScanRspData (pkt'.shift 4) plen = ll.leSetScanRspData (pkt.shift 4) plen
        unfold leSetScanRspData
        split_ifs with hpos
        · rw [hdata (Or.inr hcode.symm) hpos]
        · rfl
      exact command_congr ll (h.shift (show 4 ≤ len by omega)) hle hadv hrsp
  · rw [if_neg hcmd, if_neg hcmd]

/-- A command that overreads keeps what lies behind the packet. -/
theorem ads_overread {pkt : Mem} {len : ℕ} (h : Overreads pkt len) :
    (ll.step (.hci (pkt.update len (pkt len + 1)) len)).ads ≠
      (ll.step (.hci pkt len)).ads := by
  have hagree := pkt.agree_update len (pkt len + 1)
  have hne := adDataOf_update h.params.1 h.short
  generalize pkt.update len (pkt len + 1) = pkt' at hagree hne
  have hlen := h.params.1
  have h0 := hagree 0 (by omega)
  have h1 := hagree 1 (by omega)
  have h2 := hagree 2 (by omega)
  have h3 := hagree 3 (by omega)
  have hplen : ∀ m : Mem, m 3 = pkt 3 → 1 ≤ (Input.hci m len).plen := by
    intro m hm
    have hpos : 0 < (pkt 3).toNat := Nat.pos_of_ne_zero fun hc => h.params.2 (UInt8.toNat_inj.1 hc)
    show 1 ≤ if len < 4 + (m 3).toNat then len - 4 else (m 3).toNat
    rw [hm]
    split_ifs <;> omega
  have his : ∀ m : Mem, m 0 = pkt 0 → m 1 = pkt 1 → m 2 = pkt 2 → ∀ op : Op,
      le16 (pkt 1) (pkt 2) = op.code → (Input.hci m len).Is op := by
    intro m hm0 hm1 hm2 op hop
    show (if 4 ≤ len ∧ m 0 = HCI_CMD_PKT then some (le16 (m 1) (m 2)) else none) = _
    rw [hm0, hm1, hm2, if_pos ⟨by omega, h.command⟩, hop]
  intro heq
  rcases h.opcode with hop | hop
  · rw [ads_command ll (his pkt' h0 h1 h2 _ hop), ads_command ll (his pkt rfl rfl rfl _ hop)] at heq
    simp only [adsAfter, if_pos (hplen pkt' h3), if_pos (hplen pkt rfl), Prod.mk.injEq,
      and_true] at heq
    exact hne heq
  · rw [ads_command ll (his pkt' h0 h1 h2 _ hop), ads_command ll (his pkt rfl rfl rfl _ hop)] at heq
    simp only [adsAfter, if_pos (hplen pkt' h3), if_pos (hplen pkt rfl), Prod.mk.injEq,
      true_and] at heq
    exact hne heq

/-- **The core depends only on the bytes it was given**, now and in whatever follows: for a PDU
always, for a packet from the host exactly if it is not a command that sets more data than it
has. -/
theorem reads_only_given_iff (pkt : Mem) (len : ℕ) :
    ((∀ pkt', Mem.Agree len pkt pkt' → ∀ later : List Input,
        ll.run (.hci pkt' len :: later) = ll.run (.hci pkt len :: later)) ↔ ¬ Overreads pkt len) ∧
      ∀ (hdr : VbtFrameHdr) (n : ℕ) (pdu pdu' : Mem), Mem.Agree n pdu pdu' → ∀ later : List Input,
        ll.run (.pdu hdr pdu' n :: later) = ll.run (.pdu hdr pdu n :: later) := by
  refine ⟨⟨fun hall hover => ?_, fun hover pkt' h later => ?_⟩, fun hdr n pdu pdu' h later => ?_⟩
  · exact ads_overread ll hover
      (congrArg ads (hall _ (pkt.agree_update len (pkt len + 1)) []))
  · exact congrArg (fun l => run l later) (hciFromHost_congr ll h hover)
  · exact congrArg (fun l => run l later) (pduFromMedium_congr ll hdr h)

/-- An LE Set Advertising Data that says 31 bytes and has none, with `b` behind it in memory. -/
def shortAdvData (b : UInt8) : Input := fromHost (fun _ => b) [HCI_CMD_PKT, 0x08, 0x20, 1, 31]

/-- The core advertises what lies behind the packet. -/
theorem adv_data_leak :
    Overreads (Mem.ofList [HCI_CMD_PKT, 0x08, 0x20, 1, 31] fun _ => 0xAA) 5 ∧
      ((vbtLlNew peripheralAddr).run
          [shortAdvData 0xAA, fromHost blank [HCI_CMD_PKT, 0x0A, 0x20, 1, 1], .tick 100]).frames ≠
        ((vbtLlNew peripheralAddr).run
          [shortAdvData 0xBB, fromHost blank [HCI_CMD_PKT, 0x0A, 0x20, 1, 1], .tick 100]).frames := by
  decide +kernel

end VbtLl
end Vbt
