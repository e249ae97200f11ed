import Vbt.Hub.ConfigText
import Vbt.Lib.CString
import Vbt.Lib.Lines

/-!
# Control clients

A control client sends commands, one on a line.  `ctl_readable` reads a piece of the stream behind
what it holds, and takes lines off the head of its buffer of 1024 bytes.  A newline is looked for
among the bytes held, a carriage return in the string before it.  When the buffer is full there is
nothing to ask for, and the read of nothing is taken for the end of the stream.

* `CtlClient`, `ctlIter`, `ctlReadable`;
* `ctlIter_line`, `follower`: the loop follows the framing of the stream in lines;
* `reference`, `Overlong`: the commands of a stream, up to the first line that is too long;
* `deliver`: a stream is read in pieces of any size;
* `ctl_reference`: whatever the pieces, the commands are those of the reference.
-/

namespace Vbt
namespace Hub

def CTL_BUF_SIZE : ℕ := 1024

def LF : UInt8 := 0x0A
def CR : UInt8 := 0x0D

def QUIT : List UInt8 := ascii ['Q', 'U', 'I', 'T']

/-! ### The client -/

/-- The field `active`: 0, 1 and 2. -/
inductive CtlActive
  | free
  | active
  | closing
  deriving DecidableEq, Repr

/-- A control client. -/
structure CtlClient where
  buf : Mem
  bufUsed : ℕ
  active : CtlActive
  /-- The strings that were given to `ctl_dispatch`, oldest first. -/
  dispatched : List (List UInt8)

namespace CtlClient

/-- The client that `accept_ctl` makes. -/
def accepted : CtlClient := ⟨fun _ => 0, 0, .active, []⟩

/-- `ctl_dispatch`, as far as it concerns the client: only QUIT does. -/
def dispatch (c : CtlClient) (cmd : List UInt8) : CtlClient :=
  { c with
    dispatched := c.dispatched ++ [cmd]
    active := if isCmd QUIT cmd then .closing else c.active }

/-- The string at the head of the buffer is dispatched, unless it is empty. -/
def say (c : CtlClient) : CtlClient :=
  if c.buf 0 ≠ 0 then c.dispatch (c.buf.cString CTL_BUF_SIZE) else c

/-- The bytes behind the first `consumed` ones are moved to the head of the buffer. -/
def compact (c : CtlClient) (consumed : ℕ) : CtlClient :=
  let used := c.bufUsed - consumed
  { c with
    bufUsed := used
    buf := (c.buf.write 0 ((c.buf.shift consumed).take used)).update used 0 }

/-- The body of the loop for a newline at `line`. -/
def takeLine (c : CtlClient) (line : ℕ) : CtlClient :=
  let buf := (c.buf.update line 0).terminate CR CTL_BUF_SIZE
  ({ c with buf } : CtlClient).say.compact (line + 1)

/-- One iteration of the loop of `ctl_readable`, and whether it goes on. -/
def ctlIter (c : CtlClient) : CtlClient × Bool :=
  match c.buf.memchr LF c.bufUsed with
  | none => (c, false)
  | some line => (c.takeLine line, (c.takeLine line).active ≠ .closing)

/-- What `ctl_readable` asks for. -/
def request (c : CtlClient) : ℕ := CTL_BUF_SIZE - 1 - c.bufUsed

/-- The bytes that were read are put behind those held, with a NUL after them. -/
def append (c : CtlClient) (bytes : List UInt8) : CtlClient :=
  { c with
    buf := (c.buf.write c.bufUsed bytes).update (c.bufUsed + bytes.length) 0
    bufUsed := c.bufUsed + bytes.length }

/-- `ctl_readable`. Every iteration that goes on takes a newline off the buffer, so the bytes held
bound their number. -/
def ctlReadable (c : CtlClient) (r : ReadRes) : CtlClient :=
  match r with
  | .again => c
  | .error => { c with active := .free }
  | .data bytes =>
    let bytes := bytes.take c.request
    if bytes = [] then { c with active := .free }
    else loopWhile ctlIter (c.append bytes).bufUsed (c.append bytes)

/-! ### One line -/

/-- The bytes held. -/
def held (c : CtlClient) : List UInt8 := c.buf.take c.bufUsed

theorem length_held (c : CtlClient) : c.held.length = c.bufUsed := Mem.take_length _ _

theorem held_append (c : CtlClient) (bytes : List UInt8) :
    (c.append bytes).held = c.held ++ bytes := by
  show ((c.buf.write c.bufUsed bytes).update (c.bufUsed + bytes.length) 0).take
    (c.bufUsed + bytes.length) = _
  rw [Mem.take_update _ le_rfl, Mem.take_write]
  rfl

end CtlClient

/-- The command of a line: what comes before the first carriage return or NUL. -/
def commandOf (line : List UInt8) : List UInt8 := line.takeWhile fun b => b ≠ CR ∧ b ≠ 0

namespace CtlClient

section Line

variable {line n : ℕ}

/-- The string that is left of the bytes before a newline. -/
theorem cString_line (m : Mem) (h : line < n) :
    ((m.update line 0).terminate CR n).cString n = commandOf (m.take line) := by
  rw [(Mem.terminate_spec (Mem.update_apply_self m line 0) h).1, Mem.cString_update m h,
    List.takeWhile_takeWhile]
  simp [commandOf]

/-- The bytes behind the newline are as they were. -/
theorem shift_line (m : Mem) (h : line < n) :
    ((m.update line 0).terminate CR n).shift (line + 1) = m.shift (line + 1) := by
  rw [← Mem.shift_update m (Nat.lt_succ_self line) 0]
  funext i
  exact (Mem.terminate_spec (Mem.update_apply_self m line 0) h).2 (line + 1 + i) (by omega)

end Line

theorem held_compact (c : CtlClient) (consumed : ℕ) :
    (c.compact consumed).held = (c.buf.shift consumed).take (c.bufUsed - consumed) := by
  show ((c.buf.write 0 ((c.buf.shift consumed).take (c.bufUsed - consumed))).update
    (c.bufUsed - consumed) 0).take (c.bufUsed - consumed) = _
  have hwrite := Mem.take_write c.buf 0 ((c.buf.shift consumed).take (c.bufUsed - consumed))
  rw [Mem.take_length, Nat.zero_add] at hwrite
  rw [Mem.take_update _ le_rfl, hwrite]
  rfl

/-- What becomes of a client that is given a command, or an empty line. -/
structure Gives (c : CtlClient) (cmd : List UInt8) (c' : CtlClient) : Prop where
  active : c'.active = if isCmd QUIT cmd then .closing else c.active
  dispatched : c'.dispatched = c.dispatched ++ [cmd].filter (· ≠ [])

theorem dispatch_gives (c : CtlClient) {cmd : List UInt8} (h : cmd ≠ []) :
    Gives c cmd (c.dispatch cmd) := by
  refine ⟨rfl, ?_⟩
  rw [List.filter_singleton, decide_eq_true h]
  rfl

theorem say_gives (c : CtlClient) {cmd : List UInt8} (h : c.buf.cString CTL_BUF_SIZE = cmd) :
    Gives c cmd c.say ∧ c.say.buf = c.buf ∧ c.say.bufUsed = c.bufUsed := by
  have hempty : cmd = [] ↔ c.buf 0 = 0 := by
    rw [← h]
    exact Mem.cString_eq_nil_iff (by decide)
  unfold say
  rw [h]
  by_cases h0 : c.buf 0 = 0
  · rw [if_neg (not_not.2 h0), hempty.2 h0]
    exact ⟨⟨rfl, (List.append_nil _).symm⟩, rfl, rfl⟩
  · rw [if_pos h0]
    exact ⟨dispatch_gives c fun hnil => h0 (hempty.1 hnil), rfl, rfl⟩

/-- The loop takes a line off the buffer, and gives its command away. -/
theorem takeLine_spec (c : CtlClient) {line : ℕ} (h : line < CTL_BUF_SIZE) :
    Gives c (commandOf (c.buf.take line)) (c.takeLine line) ∧
      (c.takeLine line).held = (c.buf.shift (line + 1)).take (c.bufUsed - (line + 1)) := by
  have hstring := cString_line c.buf h
  have hshift := shift_line c.buf h
  unfold takeLine
  -- only these two facts about the cut buffer matter
  generalize (c.buf.update line 0).terminate CR CTL_BUF_SIZE = m at hstring hshift
  obtain ⟨⟨hactive, hdispatched⟩, hbuf, hused⟩ := say_gives { c with buf := m } hstring
  refine ⟨⟨hactive, hdispatched⟩, ?_⟩
  dsimp only at hbuf hused
  rw [held_compact, hbuf, hused, hshift]

/-- **One iteration**, when a line has ended. -/
theorem ctlIter_line (c : CtlClient) (hfit : c.bufUsed < CTL_BUF_SIZE) {line rest : List UInt8}
    (hheld : c.held = line ++ LF :: rest) (hline : LF ∉ line) :
    ∃ c', c.ctlIter = (c', decide (c'.active ≠ .closing)) ∧ Gives c (commandOf line) c' ∧
        c'.held = rest := by
  unfold ctlIter
  cases hfind : c.buf.memchr LF c.bufUsed with
  | none =>
    have hmem : LF ∈ c.held := by
      rw [hheld]
      exact List.mem_append_right _ List.mem_cons_self
    exact absurd hmem (Mem.memchr_eq_none hfind)
  | some k =>
    obtain ⟨hk, hbefore, hsplit⟩ := Mem.memchr_eq_some hfind
    have hspec := takeLine_spec c (show k < CTL_BUF_SIZE by omega)
    -- both are the first newline
    have hlen : line.length = k := by
      have h1 : c.held.idxOf LF = line.length := by
        rw [hheld, List.idxOf_append_of_notMem hline, List.idxOf_cons_self, Nat.add_zero]
      have h2 : c.held.idxOf LF = k := by
        rw [held, hsplit, List.idxOf_append_of_notMem hbefore, List.idxOf_cons_self,
          Mem.take_length,
          Nat.add_zero]
      rw [← h1, h2]
    obtain ⟨hhead, htail⟩ := List.append_inj (hheld.symm.trans hsplit) (by simp [hlen])
    refine ⟨_, rfl, hhead ▸ hspec.1, hspec.2.trans (List.cons.inj htail).2.symm⟩

/-- One iteration, when no line has ended. -/
theorem ctlIter_part (c : CtlClient) (h : LF ∉ c.held) : c.ctlIter = (c, false) := by
  unfold ctlIter
  cases hfind : c.buf.memchr LF c.bufUsed with
  | none => rfl
  | some k =>
    obtain ⟨-, -, hsplit⟩ := Mem.memchr_eq_some hfind
    refine absurd ?_ h
    rw [held, hsplit]
    exact List.mem_append_right _ List.mem_cons_self

/-! ### The loop follows the lines -/

/-- The longest line, without its newline, that the buffer holds. -/
def CTL_MAX_LINE : ℕ := CTL_BUF_SIZE - 2

/-- The framing of the stream of a client. -/
def ctlLines : Framing UInt8 := lines LF CTL_MAX_LINE

/-- What comes before the first newline. -/
def lineOf (l : List UInt8) : List UInt8 := l.takeWhile (· ≠ LF)

theorem lineOf_append {line : List UInt8} (h : LF ∉ line) (rest : List UInt8) :
    lineOf (line ++ LF :: rest) = line := by
  have hline : ∀ b ∈ line, decide (b ≠ LF) = true := fun b hb =>
    decide_eq_true fun heq => h (heq ▸ hb)
  rw [lineOf, List.takeWhile_append_of_pos hline, List.takeWhile_cons_of_neg (by simp),
    List.append_nil]

/-- A client, and the strings of all lines it has taken, with the empty ones. -/
structure Watch where
  client : CtlClient
  seen : List (List UInt8)

namespace Watch

/-- The body of the loop, watched. -/
def iter (x : Watch) : Watch × Bool :=
  (⟨x.client.ctlIter.1,
    if LF ∈ x.client.held then x.seen ++ [commandOf (lineOf x.client.held)] else x.seen⟩,
    x.client.ctlIter.2)

theorem loopWhile_iter_client (n : ℕ) (x : Watch) :
    (loopWhile iter n x).client = loopWhile ctlIter n x.client := by
  induction n generalizing x with
  | zero => rfl
  | succ n ih =>
    cases hgo : x.client.ctlIter.2 with
    | true =>
      have hx : x.iter = (x.iter.1, true) := Prod.ext rfl hgo
      have hc : x.client.ctlIter = (x.client.ctlIter.1, true) := Prod.ext rfl hgo
      rw [loopWhile_go hx, loopWhile_go hc, ih]
      rfl
    | false =>
      have hx : x.iter = (x.iter.1, false) := Prod.ext rfl hgo
      have hc : x.client.ctlIter = (x.client.ctlIter.1, false) := Prod.ext rfl hgo
      rw [loopWhile_stop hx, loopWhile_stop hc]
      rfl

/-- The client is connected, its buffer has room for the NUL, and it was given the strings of its
lines that are not empty. -/
structure Sound (x : Watch) : Prop where
  active : x.client.active = .active
  fits : x.client.bufUsed < CTL_BUF_SIZE
  given : x.client.dispatched = x.seen.filter (· ≠ [])

/-- No line that is held quits. -/
def Stays (x : Watch) : Prop :=
  ∀ m ∈ (ctlLines.parse x.client.held).1, isCmd QUIT (commandOf (lineOf m)) = false

variable {x : Watch}

theorem iter_part (h : LF ∉ x.client.held) : x.iter = (x, false) := by
  unfold iter
  rw [ctlIter_part x.client h, if_neg h]

/-- The first line that is held is taken. -/
theorem iter_whole (hs : x.Sound) (hq : x.Stays) {n : ℕ}
    (hv : ctlLines.verdict x.client.held = .whole n) :
    ∃ x', x.iter = (x', true) ∧ (x'.Sound ∧ x'.Stays) ∧ x'.client.held = x.client.held.drop n ∧
      x'.seen = x.seen ++ [commandOf (lineOf (x.client.held.take n))] := by
  obtain ⟨line, rest, hheld, hline, rfl⟩ := line_of_verdict_whole hv
  obtain ⟨c', hiter, hgives, hrest⟩ := ctlIter_line x.client hs.fits hheld hline
  have hdrop : x.client.held.drop (line.length + 1) = rest := by
    rw [hheld, List.append_cons]
    exact List.drop_left' (by simp)
  have htake : x.client.held.take (line.length + 1) = line ++ [LF] := by
    rw [hheld, List.append_cons]
    exact List.take_left' (by simp)
  have hparse := Framing.parse_whole hv
  rw [hdrop, htake] at hparse
  -- the line does not quit, so the client stays
  have hquit : isCmd QUIT (commandOf line) = false := by
    have hq' := hq (line ++ [LF]) (by rw [hparse]; exact List.mem_cons_self)
    rwa [lineOf_append hline] at hq'
  have hactive : c'.active = .active := by
    rw [hgives.active, hquit, hs.active]
    rfl
  have hmem : LF ∈ x.client.held := by
    rw [hheld]
    exact List.mem_append_right _ List.mem_cons_self
  have hseen : lineOf x.client.held = line := by rw [hheld, lineOf_append hline]
  have hseen' : lineOf (line ++ [LF]) = line := lineOf_append hline []
  refine ⟨⟨c', x.seen ++ [commandOf line]⟩, ?_, ⟨⟨hactive, ?_, ?_⟩, ?_⟩, hrest.trans hdrop.symm, ?_⟩
  · unfold iter
    rw [hiter, if_pos hmem, hseen, hactive]
    rfl
  · show c'.bufUsed < CTL_BUF_SIZE
    have hlen := congrArg List.length hheld
    rw [length_held, List.length_append, List.length_cons] at hlen
    rw [← length_held, hrest]
    have := hs.fits
    omega
  · show c'.dispatched = (x.seen ++ [commandOf line]).filter (· ≠ [])
    rw [hgives.dispatched, hs.given, List.filter_append]
  · intro m hm
    refine hq m ?_
    rw [hparse]
    exact List.mem_cons_of_mem _ (hrest ▸ hm)
  · rw [htake, hseen']

/-- **The loop follows the lines**: it takes those that have ended, and stops at a full buffer. -/
def follower : ctlLines.Follower Watch (List UInt8) where
  held x := x.client.held
  taken := seen
  msg m := commandOf (lineOf m)
  body := iter
  live x := x.Sound ∧ x.Stays
  lost _ := False
  failed x := x.Sound ∧ x.client.request = 0
  more _ hv := iter_part (length_le_of_verdict_more hv).1
  bad := by
    intro x hlive hv
    have hfits := hlive.1.fits
    have hlen : x.client.held.length ≤ CTL_MAX_LINE + 1 := by
      rw [length_held]
      unfold CTL_MAX_LINE CTL_BUF_SIZE at *
      omega
    obtain ⟨hmem, hfull⟩ := notMem_of_verdict_bad hv hlen
    refine ⟨x, iter_part hmem, ⟨hlive.1, ?_⟩, rfl⟩
    rw [length_held] at hfull
    unfold request CTL_MAX_LINE CTL_BUF_SIZE at *
    omega
  whole hlive hv := Or.inr (iter_whole hlive.1 hlive.2 hv)

end Watch

/-! ### The reference -/

/-- The commands of a stream: its lines that have ended, up to the first one that is too long, cut
at the first carriage return or NUL, without the empty ones. -/
def reference (stream : List UInt8) : List (List UInt8) :=
  (((stream.splitOn LF).dropLast.takeWhile fun line => line.length ≤ CTL_MAX_LINE).map
    commandOf).filter (· ≠ [])

/-- Some line is too long for the buffer. -/
def Overlong (stream : List UInt8) : Prop := ∃ line ∈ stream.splitOn LF, CTL_MAX_LINE < line.length

instance (stream : List UInt8) : Decidable (Overlong stream) :=
  inferInstanceAs (Decidable (∃ line ∈ stream.splitOn LF, CTL_MAX_LINE < line.length))

theorem overlong_iff {stream : List UInt8} :
    Overlong stream ↔ (ctlLines.parse stream).2 = none :=
      (parse_lines LF CTL_MAX_LINE stream).2.symm

/-- The reference reads the strings off the parse. -/
theorem reference_eq (stream : List UInt8) : reference stream =
    ((ctlLines.parse stream).1.map fun m => commandOf (lineOf m)).filter (· ≠ []) := by
  unfold reference
  rw [show (ctlLines.parse stream).1 = _ from (parse_lines LF CTL_MAX_LINE stream).1, List.map_map]
  congr 1
  refine List.map_congr_left fun line hline => ?_
  have hmem := List.dropLast_subset _ (List.takeWhile_subset _ hline)
  exact congrArg commandOf (lineOf_append (notMem_of_mem_splitOn hmem) []).symm

/-- Behind a line that is too long nothing counts. -/
theorem reference_append {done : List UInt8} (h : (ctlLines.parse done).2 = none)
    (rest : List UInt8) : ctlLines.parse (done ++ rest) = ctlLines.parse done := by
  rw [← Framing.feed_parse, Framing.feed, h]

/-- What a part of a stream says is the beginning of what the stream says. -/
theorem parse_begins (done rest : List UInt8) :
    (ctlLines.parse done).1 <+: (ctlLines.parse (done ++ rest)).1 := by
  rw [← Framing.feed_parse, Framing.feed]
  split
  · exact List.prefix_rfl
  · exact List.prefix_append _ _

/-! ### Reading in pieces -/

/-- A client, and what it has not read of a stream. -/
structure Feed where
  client : CtlClient
  rest : List UInt8

namespace Feed

/-- The client was closed, or has read everything. -/
def Ended (w : Feed) : Prop := w.client.active = .free ∨ w.rest = []

instance (w : Feed) : Decidable w.Ended :=
  inferInstanceAs (Decidable (w.client.active = .free ∨ w.rest = []))

/-- The client is readable, and `read` returns `k` bytes, or fewer if it is asked for fewer or has
no more; with `k = 0` it returns nothing for now. -/
def deliver (w : Feed) (k : ℕ) : Feed :=
  if w.Ended then w
  else if k = 0 then { w with client := w.client.ctlReadable .again }
  else
    { client := w.client.ctlReadable (.data (w.rest.take (min k w.client.request)))
      rest := w.rest.drop (min k w.client.request) }

/-- A client that was just accepted is given a stream by deliveries of the given sizes. -/
def after (ks : List ℕ) (stream : List UInt8) : Feed := ks.foldl deliver ⟨accepted, stream⟩

theorem after_concat (ks : List ℕ) (k : ℕ) (stream : List UInt8) :
    after (ks ++ [k]) stream = (after ks stream).deliver k := List.foldl_append

/-- A delivery that is not put off takes something off the stream, or closes the client. -/
theorem deliver_progress (w : Feed) {k : ℕ} (hk : 0 < k) :
    (w.deliver k).Ended ∨ (w.deliver k).rest.length < w.rest.length := by
  unfold deliver
  by_cases hended : w.Ended
  · rw [if_pos hended]
    exact Or.inl hended
  rw [if_neg hended, if_neg (by omega)]
  obtain ⟨-, hrest⟩ := not_or.1 hended
  have hpos := List.length_pos_of_ne_nil hrest
  by_cases hreq : w.client.request = 0
  · left
    left
    show (if (w.rest.take (min k w.client.request)).take w.client.request = [] then
      { w.client with active := .free } else _ : CtlClient).active = .free
    rw [hreq, List.take_zero, if_pos rfl]
  · right
    rw [List.length_drop]
    omega

theorem deliver_rest_le (w : Feed) (k : ℕ) : (w.deliver k).rest.length ≤ w.rest.length := by
  unfold deliver
  split_ifs
  · exact le_rfl
  · exact le_rfl
  · rw [List.length_drop]
    omega

theorem ended_deliver {w : Feed} (h : w.Ended) (k : ℕ) : w.deliver k = w := if_pos h

/-- As many deliveries as the stream has bytes, and one more, come to an end. -/
theorem ended_or_short (ks : List ℕ) (stream : List UInt8) :
    (after ks stream).Ended ∨ (after ks stream).rest.length + ks.countP (0 < ·) ≤ stream.length := by
  induction ks using List.reverseRecOn with
  | nil => exact Or.inr le_rfl
  | append_singleton ks k ih =>
    rw [after_concat]
    rcases ih with hended | hshort
    · rw [ended_deliver hended]
      exact Or.inl hended
    by_cases hk : 0 < k
    · refine (deliver_progress (after ks stream) hk).imp_right fun hless => ?_
      rw [List.countP_append, List.countP_singleton, if_pos (by simpa using hk)]
      omega
    · right
      have hle := deliver_rest_le (after ks stream) k
      rw [List.countP_append, List.countP_singleton, if_neg (by simpa using hk)]
      omega

end Feed

/-- The client has read `done`, and is where its parse is; or it was closed at a line that is too
long. -/
inductive Abreast (done : List UInt8) (c : CtlClient) : Prop
  | reading (seen : List (List UInt8))
      (reached : Watch.follower.Reached [] (ctlLines.parse done) ⟨c, seen⟩) : Abreast done c
  | closed (free : c.active = .free) (fits : c.bufUsed < CTL_BUF_SIZE)
      (bad : (ctlLines.parse done).2 = none) (given : c.dispatched = reference done) :
      Abreast done c

theorem sound_of_reached {done : List UInt8} {x : Watch}
    (h : Watch.follower.Reached [] (ctlLines.parse done) x) : x.Sound := by
  have hstate := h.2
  cases hrest : (ctlLines.parse done).2 with
  | some r =>
    rw [hrest] at hstate
    exact hstate.1.1
  | none =>
    rw [hrest] at hstate
    exact hstate.1

/-- A client asks for nothing only if it holds the beginning of a line that is too long. -/
theorem request_eq_zero_iff {done : List UInt8} {x : Watch}
    (h : Watch.follower.Reached [] (ctlLines.parse done) x) :
    x.client.request = 0 ↔ (ctlLines.parse done).2 = none := by
  have hstate := h.2
  cases hrest : (ctlLines.parse done).2 with
  | none =>
    rw [hrest] at hstate
    exact ⟨fun _ => rfl, fun _ => hstate.2⟩
  | some r =>
    rw [hrest] at hstate
    have hheld : x.client.held = r := hstate.2
    have hshort := (length_le_of_verdict_more (Framing.verdict_rest hrest)).2
    rw [← hheld, length_held] at hshort
    refine ⟨fun h0 => ?_, fun h0 => by cases h0⟩
    unfold request CTL_MAX_LINE CTL_BUF_SIZE at *
    omega

section Abreast

variable {done : List UInt8} {c : CtlClient}

theorem Abreast.fits (h : Abreast done c) : c.bufUsed < CTL_BUF_SIZE := by
  cases h with
  | reading seen reached => exact (sound_of_reached reached).fits
  | closed free fits bad given => exact fits

theorem Abreast.given (h : Abreast done c) : c.dispatched = reference done := by
  cases h with
  | reading seen reached =>
    have hseen : seen = [] ++ _ := reached.1
    rw [(sound_of_reached reached).given, hseen, reference_eq]
    rfl
  | closed free fits bad given => exact given

theorem Abreast.bad_of_free (h : Abreast done c) :
    c.active = .free → (ctlLines.parse done).2 = none := by
  intro hfree
  cases h with
  | reading seen reached =>
    rw [show c.active = _ from (sound_of_reached reached).active] at hfree
    cases hfree
  | closed free fits bad given => exact bad

/-- **A read**: the client is abreast of the stream with one more piece. -/
theorem abreast_read {seen : List (List UInt8)} {piece : List UInt8}
    (h : Watch.follower.Reached [] (ctlLines.parse done) ⟨c, seen⟩) (hne : piece ≠ [])
    (hlen : piece.length ≤ c.request)
    (hquit : ∀ m ∈ (ctlLines.parse (done ++ piece)).1, isCmd QUIT (commandOf (lineOf m)) = false) :
    Abreast (done ++ piece) (c.ctlReadable (.data piece)) := by
  have hpos : 0 < piece.length := List.length_pos_of_ne_nil hne
  obtain ⟨r, hrest⟩ : ∃ r, (ctlLines.parse done).2 = some r := by
    refine Option.ne_none_iff_exists'.1 fun hnone => ?_
    have h0 : c.request = 0 := (request_eq_zero_iff h).2 hnone
    omega
  have hsound := sound_of_reached h
  have hheld : c.held = r := by
    have hstate := h.2
    rw [hrest] at hstate
    exact hstate.2
  have hparse : (ctlLines.parse (done ++ piece)).1 =
      (ctlLines.parse done).1 ++ (ctlLines.parse (r ++ piece)).1 := by
    rw [← Framing.feed_parse, Framing.feed, hrest]
  have hnew : (c.append piece).held = r ++ piece := by rw [held_append, hheld]
  have hfits : (c.append piece).bufUsed < CTL_BUF_SIZE := by
    show c.bufUsed + piece.length < CTL_BUF_SIZE
    have := hsound.fits
    unfold request CTL_BUF_SIZE at *
    dsimp only at this
    omega
  have hlive : Watch.follower.live ⟨c.append piece, seen⟩ := by
    refine ⟨⟨hsound.active, hfits, hsound.given⟩, fun m hm => hquit m ?_⟩
    rw [hparse]
    exact List.mem_append_right _ (hnew ▸ hm)
  have hloop := Watch.follower.read h hrest hlive hnew rfl (length_held (c.append piece)).le
  have hreached := hloop.resolve_left id
  have hread : c.ctlReadable (.data piece) =
      (loopWhile Watch.iter (c.append piece).bufUsed ⟨c.append piece, seen⟩).client := by
    rw [Watch.loopWhile_iter_client]
    show (if piece.take c.request = [] then _ else _) = _
    rw [List.take_of_length_le hlen, if_neg hne]
  rw [hread]
  exact .reading _ hreached

/-- A client that asks for nothing is closed by the next read. -/
theorem ctlReadable_full (h : c.request = 0) (bytes : List UInt8) :
    c.ctlReadable (.data bytes) = { c with active := .free } := by
  show (if bytes.take c.request = [] then _ else _) = _
  rw [h, List.take_zero, if_pos rfl]

variable {stream : List UInt8} {w : Feed}

/-- **One delivery** keeps the client abreast. -/
theorem Abreast.deliver (h : Abreast done w.client) (hsplit : done ++ w.rest = stream)
    (hquit : ∀ m ∈ (ctlLines.parse stream).1, isCmd QUIT (commandOf (lineOf m)) = false) (k : ℕ) :
    ∃ done', done' ++ (w.deliver k).rest = stream ∧ Abreast done' (w.deliver k).client := by
  unfold Feed.deliver
  by_cases hidle : w.Ended
  · rw [if_pos hidle]
    exact ⟨done, hsplit, h⟩
  rw [if_neg hidle]
  by_cases hk : k = 0
  · rw [if_pos hk]
    exact ⟨done, hsplit, h⟩
  rw [if_neg hk]
  obtain ⟨hactive, hrest⟩ := not_or.1 hidle
  cases h with
  | closed free fits bad given => exact absurd free hactive
  | reading seen reached =>
    by_cases hreq : w.client.request = 0
    · -- the buffer is full, and nothing is asked for
      have hgiven := (Abreast.reading seen reached).given
      rw [ctlReadable_full hreq, hreq, Nat.min_zero, List.drop_zero]
      exact ⟨done, hsplit,
        .closed rfl (sound_of_reached reached).fits ((request_eq_zero_iff reached).1 hreq) hgiven⟩
    · generalize hn : min k w.client.request = n
      have hn0 : 0 < n := by omega
      have hne : w.rest.take n ≠ [] := fun hnil => by
        rcases List.take_eq_nil_iff.1 hnil with h0 | h0
        · omega
        · exact hrest h0
      have hall : (done ++ w.rest.take n) ++ w.rest.drop n = stream := by
        rw [List.append_assoc, List.take_append_drop, hsplit]
      refine ⟨done ++ w.rest.take n, hall, abreast_read reached hne ?_ fun m hm => hquit m ?_⟩
      · exact (List.length_take_le _ _).trans (by omega)
      · rw [← hall]
        exact (parse_begins _ _).subset hm

theorem abreast_accepted : Abreast [] accepted := by
  have hparse : ctlLines.parse [] = ([], some []) := Framing.parse_more ctlLines.nil
  refine .reading [] ?_
  rw [hparse]
  refine ⟨rfl, ⟨⟨rfl, by decide, rfl⟩, fun m hm => ?_⟩, rfl⟩
  rw [show (⟨accepted, []⟩ : Watch).client.held = [] from rfl, hparse] at hm
  cases hm

/-- **Any deliveries** keep the client abreast. -/
theorem abreast_after
    (hquit : ∀ m ∈ (ctlLines.parse stream).1, isCmd QUIT (commandOf (lineOf m)) = false)
    (ks : List ℕ) : ∃ done, done ++ (Feed.after ks stream).rest = stream ∧
      Abreast done (Feed.after ks stream).client := by
  induction ks using List.reverseRecOn with
  | nil => exact ⟨[], rfl, abreast_accepted⟩
  | append_singleton ks k ih =>
    obtain ⟨done, hsplit, habreast⟩ := ih
    rw [Feed.after_concat]
    exact habreast.deliver hsplit hquit k

end Abreast

/-! ### The commands of a client -/

/-- **Commands do not depend on the cutting**: whatever pieces a stream without QUIT is read in, the
commands are those of the reference, the client is closed only at a line of more than 1022 bytes,
and at most 1023 bytes are held. -/
theorem ctl_reference (stream : List UInt8)
    (hquit : ∀ cmd ∈ reference stream, isCmd QUIT cmd = false) (ks : List ℕ) {w : Feed}
    (hw : w = Feed.after ks stream) :
    w.client.bufUsed ≤ 1023 ∧
      (∃ done, done ++ w.rest = stream ∧ w.client.dispatched = reference done) ∧
      (w.rest = [] → w.client.dispatched = reference stream) ∧
      (w.client.active = .free → Overlong stream ∧ w.client.dispatched = reference stream) ∧
      (stream.length < ks.countP (0 < ·) →
        (¬ Overlong stream → w.client.active = .active ∧ w.rest = []) ∧
        (Overlong stream → w.client.active = .free ∨ w.rest = [] ∧
          ∀ bytes, (w.client.ctlReadable (.data bytes)).active = .free)) := by
  have hquit' : ∀ m ∈ (ctlLines.parse stream).1, isCmd QUIT (commandOf (lineOf m)) = false := by
    intro m hm
    by_cases hnil : commandOf (lineOf m) = []
    · rw [hnil]
      rfl
    · refine hquit _ ?_
      rw [reference_eq]
      exact List.mem_filter.2 ⟨List.mem_map_of_mem hm, by simpa using hnil⟩
  obtain ⟨done, hsplit, habreast⟩ := abreast_after hquit' ks
  have hend := Feed.ended_or_short ks stream
  rw [← hw] at hsplit habreast hend
  have hfull : w.client.active = .free → Overlong stream ∧
      w.client.dispatched = reference stream := by
    intro hfree
    have hbad := habreast.bad_of_free hfree
    have hparse := reference_append hbad w.rest
    rw [hsplit] at hparse
    refine ⟨overlong_iff.2 (hparse ▸ hbad), ?_⟩
    rw [habreast.given, reference_eq, reference_eq, hparse]
  have hall : w.rest = [] → done = stream := fun hnil => by rw [← hsplit, hnil, List.append_nil]
  refine ⟨Nat.le_of_lt_succ habreast.fits, ⟨done, hsplit, habreast.given⟩,
    fun hnil => hall hnil ▸ habreast.given, hfull, fun hmany => ?_⟩
  have hended : w.Ended := hend.resolve_right (by omega)
  refine ⟨fun hshort => ?_, fun hlong => ?_⟩
  · have hactive : w.client.active ≠ .free := fun hfree => hshort (hfull hfree).1
    have hrest := hended.resolve_left hactive
    refine ⟨?_, hrest⟩
    cases habreast with
    | reading seen reached => exact (sound_of_reached reached).active
    | closed free fits bad given => exact absurd free hactive
  · by_cases hfree : w.client.active = .free
    · exact Or.inl hfree
    have hrest := hended.resolve_left hfree
    refine Or.inr ⟨hrest, fun bytes => ?_⟩
    cases habreast with
    | reading seen reached =>
      have hbad : (ctlLines.parse done).2 = none := hall hrest ▸ overlong_iff.1 hlong
      rw [ctlReadable_full ((request_eq_zero_iff reached).2 hbad)]
    | closed free fits bad given => exact absurd free hfree

/-- Two commands and an empty line, with a carriage return and a NUL. -/
def dialogue :
    List UInt8 := ascii ['S', 'T', 'A', 'T', 'S', '\r', '\n', '\n', 'H', '\x00', 'I', '\n', 'S']

theorem ctl_reference_dialogue :
    (Feed.after (List.replicate 14 1) dialogue).client.dispatched =
        [ascii ['S', 'T', 'A', 'T', 'S'], ascii ['H']] ∧
      (Feed.after (List.replicate 14 1) dialogue).client.bufUsed ≤ 1023 ∧
      (Feed.after (List.replicate 14 1) dialogue).client.active = .active := by
  have href : reference dialogue = [ascii ['S', 'T', 'A', 'T', 'S'], ascii ['H']] :=
    by decide +kernel
  have hquit : ∀ cmd ∈ reference dialogue, isCmd QUIT cmd = false := by
    rw [href]
    decide
  obtain ⟨hfits, -, hall, -, hmany⟩ := ctl_reference dialogue hquit (List.replicate 14 1) rfl
  obtain ⟨hactive, hrest⟩ := (hmany (by decide)).1 (by decide +kernel)
  exact ⟨(hall hrest).trans href, hfits, hactive⟩

end CtlClient

end Hub
end Vbt
