import Mathlib.Data.List.TakeWhile
import Vbt.Hub.Run
import Vbt.Lib.Decimal

/-!
# The configuration file of the hub

`save_config` writes control commands to a file, and `load_config_file` gives the lines of a file to
`ctl_dispatch`. A line is read into an array of 512 bytes: of a longer one the first 511 bytes are a
line of their own.

* `CtlCmd.parse`: a line of text as a command;
* `configLines`, `saveConfig`: the file;
* `fgetsAll`, `obey`, `loadConfig`: how it is read;
* `foldl_obey_line`: a line counts as its first 511 bytes if no command begins in the rest;
* `parse_posLine`, `parse_txLine`, `parse_pathlossLine`: what the lines of the file are read as, and
  that they are read back if they are short enough.
-/

namespace Vbt
namespace Hub

open Decimal

/-! ### Commands as text -/

def ascii (l : List Char) : List UInt8 := l.map fun c => .ofNat c.toNat

def SET_POS : List UInt8 := ascii ['S', 'E', 'T', '_', 'P', 'O', 'S', ' ']
def SET_TXPOWER : List UInt8 := ascii ['S', 'E', 'T', '_', 'T', 'X', 'P', 'O', 'W', 'E', 'R', ' ']
def SET_SENS : List UInt8 := ascii ['S', 'E', 'T', '_', 'S', 'E', 'N', 'S', ' ']
def SET_RSSI : List UInt8 := ascii ['S', 'E', 'T', '_', 'R', 'S', 'S', 'I', ' ']
def SET_LOSS : List UInt8 := ascii ['S', 'E', 'T', '_', 'L', 'O', 'S', 'S', ' ']
def CLEAR_LINK : List UInt8 := ascii ['C', 'L', 'E', 'A', 'R', '_', 'L', 'I', 'N', 'K', ' ']
def SET_PATHLOSS : List UInt8 :=
  ascii ['S', 'E', 'T', '_', 'P', 'A', 'T', 'H', 'L', 'O', 'S', 'S', ' ']

def isSpace (c : UInt8) : Bool := c == 0x20 || (0x09 ≤ c && c ≤ 0x0D)

def toLower (c : UInt8) : UInt8 := if 0x41 ≤ c ∧ c ≤ 0x5A then c + 0x20 else c

/-- `strncasecmp` of a line with the name of a command. -/
def isCmd (name line : List UInt8) : Bool := (line.take name.length).map toLower == name.map toLower

/-- The conversion `%79s`. -/
def scanWord (l : List UInt8) : Option (NodeId × List UInt8) :=
  let l := l.dropWhile isSpace
  let w := (l.takeWhile fun c => !isSpace c).take 79
  if w = [] then none else some (w, l.drop w.length)

/-- The conversion `%lf`. -/
def scanNumber (l : List UInt8) : Option (ℚ × List UInt8) := scan (l.dropWhile isSpace)

/-- The conversion `%d`. -/
def scanInt (l : List UInt8) : Option ℤ :=
  let (neg, l) : Bool × List UInt8 := match l.dropWhile isSpace with
    | 0x2D :: l => (true, l)
    | 0x2B :: l => (false, l)
    | l => (false, l)
  let digits := l.takeWhile isDigit
  if digits = [] then none else some (if neg then -(value digits : ℤ) else value digits)

/-- The numbers of `SET_POS`, of which the third may be missing. -/
def scanCoords (ident : NodeId) (l : List UInt8) : CtlCmd :=
  match scanNumber l with
  | none => .bad
  | some (x, l) =>
    match scanNumber l with
    | none => .bad
    | some (y, l) => .setPos ident x y ((scanNumber l).map Prod.fst)

/-- A command with one node and one number. -/
def scanSetting (cmd : NodeId → ℚ → CtlCmd) (l : List UInt8) : CtlCmd :=
  match scanWord l with
  | none => .bad
  | some (ident, l) =>
    match scanNumber l with
    | none => .bad
    | some (x, _) => cmd ident x

/-- A command with two nodes. -/
def scanLink (cmd : NodeId → NodeId → List UInt8 → CtlCmd) (l : List UInt8) : CtlCmd :=
  match scanWord l with
  | none => .bad
  | some (a, l) =>
    match scanWord l with
    | none => .bad
    | some (b, l) => cmd a b l

/-- The command of a line. A line that begins with none of these names only reports, or is
unknown. -/
def CtlCmd.parse (line : List UInt8) : CtlCmd :=
  if isCmd SET_POS line then
    match scanWord (line.drop SET_POS.length) with
    | none => .bad
    | some (ident, l) => scanCoords ident l
  else if isCmd SET_TXPOWER line then scanSetting .setTxpower (line.drop SET_TXPOWER.length)
  else if isCmd SET_SENS line then scanSetting .setSens (line.drop SET_SENS.length)
  else if isCmd SET_RSSI line then
    scanLink (fun a b l => match scanInt l with
      | none => .bad
      | some r => .setRssi a b r) (line.drop SET_RSSI.length)
  else if isCmd SET_LOSS line then
    scanLink (fun a b l => match scanNumber l with
      | none => .bad
      | some (p, _) => .setLoss a b p) (line.drop SET_LOSS.length)
  else if isCmd CLEAR_LINK line then
    scanLink (fun a b _ => .clearLink a b) (line.drop CLEAR_LINK.length)
  else if isCmd SET_PATHLOSS line then
    match scanNumber (line.drop SET_PATHLOSS.length) with
    | none => .bad
    | some (x, _) => .setPathloss x
  else .report

/-! ### Writing -/

/-- The line that sets the position of a node. -/
def posLine (nd : Node) : List UInt8 :=
  SET_POS ++ (nd.nodeId ++ 0x20 :: (fixed 4 nd.posX ++ 0x20 :: (fixed 4 nd.posY ++
    0x20 :: fixed 4 nd.posZ)))

/-- The line that sets the TX power of a node. -/
def txLine (nd : Node) : List UInt8 :=
  SET_TXPOWER ++ (nd.nodeId ++ 0x20 :: fixed 4 nd.txPowerDbm)

def pathlossLine (s : Hub) : List UInt8 := SET_PATHLOSS ++ fixed 4 s.gPathExponent

/-- The lines of a node. Its sensitivity is not among them. -/
def nodeLines (nd : Node) : List (List UInt8) :=
  if !nd.active then []
  else (if nd.posSet then [posLine nd] else []) ++ if nd.txPowerSet then [txLine nd] else []

/-- The comment at the head of the file. -/
def configHead : List UInt8 :=
  ascii ['#', ' ', 'v', 'b', 't', '-', 'm', 'e', 'd', 'i', 'u', 'm', ' ', 'c', 'o', 'n', 'f', 'i', 'g',
    ' ', 's', 'n', 'a', 'p', 's', 'h', 'o', 't']

/-- The nodes in the order of the table. -/
def nodeList (s : Hub) : List Node := (List.range s.nodes.size).map s.nodes

/-- The lines of the file. Overrides are not among them. -/
def configLines (s : Hub) : List (List UInt8) :=
  configHead :: pathlossLine s :: s.nodeList.flatMap nodeLines

/-- `save_config`. -/
def saveConfig (s : Hub) : List UInt8 := s.configLines.flatMap fun l => l ++ [0x0A]

/-! ### Reading -/

/-- The size of `line` in `load_config_file`. -/
def LINE_SIZE : ℕ := 512

/-- The strings that the calls of `fgets` put into `line`, without the newline. -/
def fgetsAll (acc : List UInt8) : List UInt8 → List (List UInt8)
  | [] => if acc = [] then [] else [acc]
  | c :: l =>
    if c = 0x0A then acc :: fgetsAll [] l
    else if acc.length + 1 = LINE_SIZE - 1 then (acc ++ [c]) :: fgetsAll [] l
    else fgetsAll (acc ++ [c]) l

/-- The body of the loop of `load_config_file`. -/
def obey (t : Hub) (line : List UInt8) : Hub :=
  match line.takeWhile (· ≠ 0) with
  | [] => t
  | c :: l => if c = 0x23 then t else t.ctlDispatch (.parse (c :: l))

/-- `load_config_file`. -/
def loadConfig (t : Hub) (file : List UInt8) : Hub := (fgetsAll [] file).foldl obey t

/-! ### Lines of any length -/

section Lines

variable {l r acc : List UInt8}

theorem fgetsAll_short (hl : ∀ c ∈ l, c ≠ 0x0A) (hlen : acc.length + l.length < LINE_SIZE - 1) :
    fgetsAll acc (l ++ r) = fgetsAll (acc ++ l) r := by
  induction l generalizing acc with
  | nil => simp
  | cons c l ih =>
    rw [List.length_cons] at hlen
    rw [List.cons_append, fgetsAll, if_neg (hl c List.mem_cons_self), if_neg (by omega),
      ih (fun x hx => hl x (List.mem_cons_of_mem c hx)) (by
        rw [List.length_append, List.length_singleton]
        omega), List.append_assoc]
    rfl

theorem fgetsAll_full (hl : ∀ c ∈ l, c ≠ 0x0A) (hlen : l.length = LINE_SIZE - 1) :
    fgetsAll [] (l ++ r) = l :: fgetsAll [] r := by
  -- the last byte fills the array
  obtain ⟨m, c, rfl⟩ : ∃ m c, l = m ++ [c] := by
    rcases List.eq_nil_or_concat l with rfl | ⟨m, c, h⟩
    · cases hlen
    · exact ⟨m, c, h.trans List.concat_eq_append⟩
  rw [List.length_append, List.length_singleton] at hlen
  rw [List.append_assoc, fgetsAll_short (fun x hx => hl x (List.mem_append_left _ hx)) (by
      rw [List.length_nil]
      omega), List.nil_append, List.cons_append, fgetsAll,
    if_neg (hl c (List.mem_append_right _ List.mem_cons_self)), if_pos hlen]
  rfl

/-- A name of a command begins with a letter. -/
theorem not_isCmd {n c : UInt8} {name l : List UInt8} (hn : (0x61 : UInt8) ≤ toLower n)
    (hc : c < 0x41) : isCmd (n :: name) (c :: l) = false := by
  have hlow : toLower c = c := if_neg fun h => absurd h.1 (UInt8.not_le.2 hc)
  rw [isCmd, beq_eq_false_iff_ne, Ne, List.length_cons, List.take_succ_cons, List.map_cons,
    List.map_cons, List.cons.injEq, not_and_or]
  left
  rw [hlow]
  intro heq
  rw [heq] at hc
  exact absurd (UInt8.lt_of_le_of_lt hn hc) (by decide)

/-- A line that does not begin with a letter changes nothing. -/
theorem obey_inert {t : Hub} (h : ∀ c ∈ l, c < 0x41) : t.obey l = t := by
  unfold obey
  split
  · rfl
  · rename_i c m heq
    split_ifs with hhash
    · rfl
    · have hc : c < 0x41 := h c ((List.takeWhile_prefix _).subset (heq ▸ List.mem_cons_self))
      have hnot : ∀ n name, (0x61 : UInt8) ≤ toLower n → isCmd (n :: name) (c :: m) = false :=
        fun n name hn => not_isCmd hn hc
      have hreport : CtlCmd.parse (c :: m) = .report := by
        unfold CtlCmd.parse
        rw [SET_POS, SET_TXPOWER, SET_SENS, SET_RSSI, SET_LOSS, CLEAR_LINK, SET_PATHLOSS]
        simp only [ascii, List.map_cons, hnot _ _ (show (0x61 : UInt8) ≤ toLower (.ofNat ('S').toNat)
          by decide), hnot _ _ (show (0x61 : UInt8) ≤ toLower (.ofNat ('C').toNat) by decide),
          Bool.false_eq_true, if_false]
      rw [hreport]
      rfl

/-- **A line counts as its first 511 bytes**, if no command begins in the rest. -/
theorem foldl_obey_line (t : Hub) (hl : ∀ c ∈ l, c ≠ 0x0A)
    (hrest : ∀ c ∈ l.drop (LINE_SIZE - 1), c < 0x41) :
    (fgetsAll [] (l ++ 0x0A :: r)).foldl obey t =
      (fgetsAll [] r).foldl obey (t.obey (l.take (LINE_SIZE - 1))) := by
  have hshort : ∀ m : List UInt8, (∀ c ∈ m, c ≠ 0x0A) → m.length < LINE_SIZE - 1 → ∀ t : Hub,
      (fgetsAll [] (m ++ 0x0A :: r)).foldl obey t = (fgetsAll [] r).foldl obey (t.obey m) := by
    intro m hm hlen t
    rw [fgetsAll_short hm (by simpa using hlen), List.nil_append, fgetsAll, if_pos rfl,
      List.foldl_cons]
  -- what is left of a long line is taken off in pieces
  have htail : ∀ m : List UInt8, (∀ c ∈ m, c ≠ 0x0A) → (∀ c ∈ m, c < 0x41) → ∀ t : Hub,
      (fgetsAll [] (m ++ 0x0A :: r)).foldl obey t = (fgetsAll [] r).foldl obey t := by
    intro m
    induction hn : m.length using Nat.strong_induction_on generalizing m with
    | _ n ih =>
      intro hm hin t
      rcases Nat.lt_or_ge m.length (LINE_SIZE - 1) with hlen | hlen
      · rw [hshort m hm hlen, obey_inert hin]
      · have hsplit := List.take_append_drop (LINE_SIZE - 1) m
        rw [← hsplit, List.append_assoc, fgetsAll_full (fun c hc => hm c (List.mem_of_mem_take hc))
          (List.length_take_of_le hlen), List.foldl_cons,
          obey_inert fun c hc => hin c (List.mem_of_mem_take hc)]
        refine ih _ ?_ _ rfl (fun c hc => hm c (List.mem_of_mem_drop hc))
          (fun c hc => hin c (List.mem_of_mem_drop hc)) t
        rw [List.length_drop]
        have : 0 < LINE_SIZE - 1 := by decide
        omega
  rcases Nat.lt_or_ge l.length (LINE_SIZE - 1) with hlen | hlen
  · rw [hshort l hl hlen, List.take_of_length_le hlen.le]
  · have hsplit := List.take_append_drop (LINE_SIZE - 1) l
    conv_lhs => rw [← hsplit]
    rw [List.append_assoc, fgetsAll_full (fun c hc => hl c (List.mem_of_mem_take hc))
      (List.length_take_of_le hlen), List.foldl_cons,
      htail _ (fun c hc => hl c (List.mem_of_mem_drop hc)) hrest]

/-- A line that can be taken on its own. -/
def LoneLine (l : List UInt8) : Prop :=
  (∀ c ∈ l, c ≠ 0x0A) ∧ ∀ c ∈ l.drop (LINE_SIZE - 1), c < 0x41

/-- **A file of such lines is read line by line.** -/
theorem loadConfig_lines {ls : List (List UInt8)} (h : ∀ l ∈ ls, LoneLine l) (t : Hub) :
    t.loadConfig (ls.flatMap fun l => l ++ [0x0A]) =
      ls.foldl (fun t l => t.obey (l.take (LINE_SIZE - 1))) t := by
  unfold loadConfig
  induction ls generalizing t with
  | nil => rfl
  | cons l ls ih =>
    obtain ⟨hl, hrest⟩ := h l List.mem_cons_self
    rw [List.flatMap_cons, List.append_assoc, List.singleton_append, foldl_obey_line t hl hrest,
      ih fun m hm => h m (List.mem_cons_of_mem l hm), List.foldl_cons]

theorem obey_command {t : Hub} {c : UInt8} (hc : c ≠ 0x23) (h : ∀ x ∈ c :: l, x ≠ 0) :
    t.obey (c :: l) = t.ctlDispatch (.parse (c :: l)) := by
  have htake : (c :: l).takeWhile (· ≠ 0) = c :: l :=
    List.takeWhile_eq_self_iff.2 fun x hx => decide_eq_true (h x hx)
  unfold obey
  rw [htake]
  exact if_neg hc

end Lines

/-! ### The lines of the file -/

/-- An id that can stand in a line: a string without white space that an entry can hold. -/
structure GoodId (n : NodeId) : Prop where
  ne_nil : n ≠ []
  short : n.length < NODE_ID_LEN
  no_nul : ∀ c ∈ n, c ≠ 0
  no_space : ∀ c ∈ n, isSpace c = false

/-- The bytes of the numbers of a line and the spaces before them. -/
def Numeric (l : List UInt8) : Prop := ∀ c ∈ l, 0x20 ≤ c ∧ c < 0x41

theorem numeric_fixed (n : ℕ) (x : ℚ) : Numeric (fixed n x) := by
  intro c hc
  obtain ⟨hlo, hhi⟩ := fixed_range hc
  exact ⟨UInt8.le_trans (by decide) hlo, UInt8.lt_of_le_of_lt hhi (by decide)⟩

theorem numeric_space {l : List UInt8} (h : Numeric l) : Numeric (0x20 :: l) := by
  intro c hc
  rcases List.mem_cons.1 hc with rfl | hc
  · decide
  · exact h c hc

theorem numeric_append {l r : List UInt8} (hl : Numeric l) (hr : Numeric r) :
    Numeric (l ++ r) := fun c hc => (List.mem_append.1 hc).elim (hl c) (hr c)

section Setting

variable {name n rest : List UInt8}

/-- The first bytes of a line show the command and the id whole. -/
theorem take_line (hlen : name.length + n.length < LINE_SIZE - 1) :
    (name ++ (n ++ 0x20 :: rest)).take (LINE_SIZE - 1) =
      name ++ (n ++ 0x20 :: rest.take (LINE_SIZE - 2 - name.length - n.length)) := by
  obtain ⟨k, hk⟩ : ∃ k, LINE_SIZE - 1 = name.length + (n.length + (k + 1)) :=
    ⟨LINE_SIZE - 2 - name.length - n.length, by omega⟩
  have hcut : LINE_SIZE - 2 - name.length - n.length = k := by omega
  rw [hcut, hk, List.take_length_add_append, List.take_length_add_append, List.take_succ_cons]

theorem loneLine_setting (hname : ∀ c ∈ name, c ≠ 0x0A) (hn : ∀ c ∈ n, c ≠ 0x0A)
    (hrest : Numeric rest) (hlen : name.length + n.length ≤ LINE_SIZE - 1) :
    LoneLine (name ++ (n ++ rest)) := by
  constructor
  · intro c hc
    rcases List.mem_append.1 hc with hc | hc
    · exact hname c hc
    · rcases List.mem_append.1 hc with hc | hc
      · exact hn c hc
      · rintro rfl
        exact absurd (hrest _ hc).1 (by decide)
  · intro c hc
    rw [← List.append_assoc, List.drop_append, List.drop_of_length_le (by
      rw [List.length_append]
      exact hlen), List.nil_append] at hc
    exact (hrest c (List.mem_of_mem_drop hc)).2

theorem obey_setting (t : Hub) {c : UInt8} (hc : c ≠ 0x23) (hname : ∀ x ∈ c :: name, x ≠ 0)
    (hn : ∀ x ∈ n, x ≠ 0) (hrest : Numeric rest) :
    t.obey ((c :: name ++ (n ++ rest)).take (LINE_SIZE - 1)) =
      t.ctlDispatch (.parse ((c :: name ++ (n ++ rest)).take (LINE_SIZE - 1))) := by
  have hnul : ∀ x ∈ c :: name ++ (n ++ rest), x ≠ 0 := by
    intro x hx
    rcases List.mem_append.1 hx with hx | hx
    · exact hname x hx
    · rcases List.mem_append.1 hx with hx | hx
      · exact hn x hx
      · rintro rfl
        exact absurd (hrest _ hx).1 (by decide)
  exact obey_command hc fun x hx => hnul x (List.mem_of_mem_take (i := LINE_SIZE - 1) hx)

theorem isCmd_self (name l : List UInt8) : isCmd name (name ++ l) = true := by
  rw [isCmd, List.take_left, beq_self_eq_true]

theorem isCmd_other {name other l : List UInt8} (hlen : name.length ≤ other.length)
    (h : isCmd name other = false) : isCmd name (other ++ l) = false := by
  rw [isCmd, List.take_append_of_le_length hlen]
  exact h

theorem scanWord_goodId (h : GoodId n) : scanWord (n ++ 0x20 :: rest) = some (n, 0x20 :: rest) := by
  have hword : ∀ c ∈ n, (!isSpace c) = true := fun c hc => by rw [h.no_space c hc]; rfl
  have hdrop : (n ++ 0x20 :: rest).dropWhile isSpace = n ++ 0x20 :: rest := by
    obtain ⟨c, m, rfl⟩ := List.exists_cons_of_ne_nil h.ne_nil
    rw [List.cons_append, List.dropWhile_cons_of_neg]
    rw [h.no_space c List.mem_cons_self]
    exact Bool.false_ne_true
  have htake : (n ++ 0x20 :: rest).takeWhile (fun c => !isSpace c) = n := by
    rw [List.takeWhile_append_of_pos hword, List.takeWhile_cons_of_neg (by decide),
      List.append_nil]
  have hcut : n.take 79 = n :=
    List.take_of_length_le (h.short.le.trans (by decide))
  unfold scanWord
  simp only [hdrop, htake, hcut]
  rw [if_neg h.ne_nil, List.drop_left]

theorem parse_setPos (h : GoodId n) :
    CtlCmd.parse (SET_POS ++ (n ++ 0x20 :: rest)) = scanCoords n (0x20 :: rest) := by
  rw [CtlCmd.parse, if_pos (isCmd_self _ _), List.drop_left, scanWord_goodId h]

theorem parse_setTxpower (h : GoodId n) :
    CtlCmd.parse (SET_TXPOWER ++ (n ++ 0x20 :: rest)) =
      match scanNumber (0x20 :: rest) with
      | none => .bad
      | some (x, _) => .setTxpower n x := by
  rw [CtlCmd.parse, isCmd_other (by decide) (by decide), if_neg Bool.false_ne_true,
    if_pos (isCmd_self _ _), List.drop_left, scanSetting, scanWord_goodId h]

theorem parse_setPathloss :
    CtlCmd.parse (SET_PATHLOSS ++ rest) =
      match scanNumber rest with
      | none => .bad
      | some (x, _) => .setPathloss x := by
  rw [CtlCmd.parse, isCmd_other (by decide) (by decide), if_neg Bool.false_ne_true,
    isCmd_other (by decide) (by decide), if_neg Bool.false_ne_true,
    isCmd_other (by decide) (by decide), if_neg Bool.false_ne_true,
    isCmd_other (by decide) (by decide), if_neg Bool.false_ne_true,
    isCmd_other (by decide) (by decide), if_neg Bool.false_ne_true,
    isCmd_other (by decide) (by decide), if_neg Bool.false_ne_true,
    if_pos (isCmd_self _ _), List.drop_left]

end Setting

/-! ### What the lines show -/

/-- The position that is read from the line of a node. -/
def readPos (nd : Node) : Option (ℚ × ℚ × ℚ) :=
  match CtlCmd.parse ((posLine nd).take (LINE_SIZE - 1)) with
  | .setPos _ x y z => some (x, y, z.getD 0)
  | _ => none

/-- The TX power that is read from the line of a node. -/
def readTx (nd : Node) : Option ℚ :=
  match CtlCmd.parse ((txLine nd).take (LINE_SIZE - 1)) with
  | .setTxpower _ x => some x
  | _ => none

/-- The exponent that is read from the line of the hub. -/
def readPathloss (s : Hub) : Option ℚ :=
  match CtlCmd.parse ((pathlossLine s).take (LINE_SIZE - 1)) with
  | .setPathloss x => some x
  | _ => none

theorem parse_posLine {nd : Node} (h : GoodId nd.nodeId) :
    CtlCmd.parse ((posLine nd).take (LINE_SIZE - 1)) = .bad ∧ readPos nd = none ∨
      ∃ x y z, CtlCmd.parse ((posLine nd).take (LINE_SIZE - 1)) = .setPos nd.nodeId x y z ∧
        readPos nd = some (x, y, z.getD 0) := by
  have hlen : SET_POS.length + nd.nodeId.length < LINE_SIZE - 1 :=
    Nat.lt_of_lt_of_le (Nat.add_lt_add_left h.short _) (by decide)
  unfold readPos
  rw [posLine, take_line hlen, parse_setPos h, scanCoords]
  split
  · exact .inl ⟨rfl, rfl⟩
  · split
    · exact .inl ⟨rfl, rfl⟩
    · exact .inr ⟨_, _, _, rfl, rfl⟩

theorem parse_txLine {nd : Node} (h : GoodId nd.nodeId) :
    CtlCmd.parse ((txLine nd).take (LINE_SIZE - 1)) = .bad ∧ readTx nd = none ∨
      ∃ x, CtlCmd.parse ((txLine nd).take (LINE_SIZE - 1)) = .setTxpower nd.nodeId x ∧
        readTx nd = some x := by
  have hlen : SET_TXPOWER.length + nd.nodeId.length < LINE_SIZE - 1 :=
    Nat.lt_of_lt_of_le (Nat.add_lt_add_left h.short _) (by decide)
  unfold readTx
  rw [txLine, take_line hlen, parse_setTxpower h]
  split
  · exact .inl ⟨rfl, rfl⟩
  · exact .inr ⟨_, rfl, rfl⟩

theorem parse_pathlossLine (s : Hub) :
    CtlCmd.parse ((pathlossLine s).take (LINE_SIZE - 1)) = .bad ∧ s.readPathloss = none ∨
      ∃ x, CtlCmd.parse ((pathlossLine s).take (LINE_SIZE - 1)) = .setPathloss x ∧
        s.readPathloss = some x := by
  have hcut : (pathlossLine s).take (LINE_SIZE - 1) =
      SET_PATHLOSS ++ (fixed 4 s.gPathExponent).take (LINE_SIZE - 1 - SET_PATHLOSS.length) := by
    rw [pathlossLine, List.take_append, List.take_of_length_le (by decide)]
  unfold readPathloss
  rw [hcut, parse_setPathloss]
  split
  · exact .inl ⟨rfl, rfl⟩
  · exact .inr ⟨_, rfl, rfl⟩

/-! ### Lines that are short enough -/

/-- A number with at most four decimals. -/
def Decimals4 (x : ℚ) : Prop := ∃ z : ℤ, x * 10 ^ 4 = z

theorem scanNumber_fixed {x : ℚ} (hx : Decimals4 x) {r : List UInt8}
    (hr : ∀ c ∈ r.head?, isDigit c = false) : scanNumber (fixed 4 x ++ r) = some (x, r) := by
  obtain ⟨z, hz⟩ := hx
  -- a number does not begin with white space
  have hdrop : (fixed 4 x ++ r).dropWhile isSpace = fixed 4 x ++ r := by
    obtain ⟨c, m, hc⟩ := List.exists_cons_of_ne_nil (fixed_ne_nil 4 x)
    have hlo : 0x2D ≤ c := (fixed_range (hc ▸ List.mem_cons_self : c ∈ fixed 4 x)).1
    rw [hc, List.cons_append, List.dropWhile_cons_of_neg]
    rw [isSpace, Bool.or_eq_true, beq_iff_eq, Bool.and_eq_true, decide_eq_true_eq,
      decide_eq_true_eq]
    rintro (rfl | ⟨-, hhi⟩)
    · exact absurd hlo (by decide)
    · exact absurd (UInt8.le_trans hlo hhi) (by decide)
  rw [scanNumber, hdrop, scan_fixed hz hr]

theorem scanNumber_last {x : ℚ} (hx : Decimals4 x) : scanNumber (fixed 4 x) = some (x, []) := by
  rw [← List.append_nil (fixed 4 x)]
  exact scanNumber_fixed hx (by simp)

theorem scanNumber_space (l : List UInt8) : scanNumber (0x20 :: l) = scanNumber l := rfl

theorem space_not_digit {r : List UInt8} : ∀ c ∈ (0x20 :: r).head?, isDigit c = false := by
  intro c hc
  cases hc
  rfl

theorem readPos_short {nd : Node} (h : GoodId nd.nodeId) (hx : Decimals4 nd.posX)
    (hy : Decimals4 nd.posY) (hz : Decimals4 nd.posZ) (hlen : (posLine nd).length < LINE_SIZE) :
    readPos nd = some (nd.posX, nd.posY, nd.posZ) := by
  unfold readPos
  rw [List.take_of_length_le (Nat.le_sub_one_of_lt hlen), posLine, parse_setPos h, scanCoords,
    scanNumber_space, scanNumber_fixed hx space_not_digit]
  dsimp only
  rw [scanNumber_space, scanNumber_fixed hy space_not_digit]
  dsimp only
  rw [scanNumber_space, scanNumber_last hz]
  rfl

theorem readTx_short {nd : Node} (h : GoodId nd.nodeId) (hx : Decimals4 nd.txPowerDbm)
    (hlen : (txLine nd).length < LINE_SIZE) : readTx nd = some nd.txPowerDbm := by
  unfold readTx
  rw [List.take_of_length_le (Nat.le_sub_one_of_lt hlen), txLine, parse_setTxpower h,
    scanNumber_space, scanNumber_last hx]

theorem readPathloss_short {s : Hub} (hx : Decimals4 s.gPathExponent)
    (hlen : (pathlossLine s).length < LINE_SIZE) : s.readPathloss = some s.gPathExponent := by
  unfold readPathloss
  rw [List.take_of_length_le (Nat.le_sub_one_of_lt hlen), pathlossLine, parse_setPathloss,
    scanNumber_last hx]

end Hub
end Vbt
