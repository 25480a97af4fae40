/-
**The shell: `parse` and `handle_command` of `drivers/command/command.c`, and `kmain`.**

`kmain` reads a line with `input_poll` and hands the same array to `handle_command`, which cuts it
into a name and an argument in place and looks the name up in a table.  The commands get a pointer
into that array; reading behind the end of the array is a fault.

Main definitions:

* `Anaga.cmds`, `Anaga.parse`, `Anaga.handleCommand` — the table, and what is done with a line;
* `Anaga.dispatch` — what the line asks for: nothing, an entry of the table with an argument, or
  a name that is not found;
* `Anaga.Shell`, `Anaga.Shell.step` — the loop of `kmain`, character by character;
* `Anaga.lines` — the lines that a sequence of characters ends.

Main results:

* `Anaga.handleCommand_eq` — **a line is dispatched by its first word, and nothing behind its NUL
  is read**;
* `Anaga.Shell.run_lines` — **every line that is typed is dispatched, in order, and nothing is
  written behind the array**.
-/

import Anaga.Input

set_option relaxedAutoImplicit false
set_option autoImplicit false

namespace Anaga

open Transition

/-! ### The commands -/

/-- The functions of the table. -/
inductive CmdFn
  | help
  | ls
  | pwd
  | cd
  | cat
  | mkdir
  | touch
  | echo
  | clear
  | uname
  | version
  | run
  | poweroff
  | reboot
deriving DecidableEq, Repr

/-- `cmds`, without the descriptions. -/
def cmds : List (List UInt8 × CmdFn) :=
  [(utf8 "help", .help),
   (utf8 "ls", .ls),
   (utf8 "pwd", .pwd),
   (utf8 "cd", .cd),
   (utf8 "cat", .cat),
   (utf8 "mkdir", .mkdir),
   (utf8 "touch", .touch),
   (utf8 "echo", .echo),
   (utf8 "clear", .clear),
   (utf8 "uname", .uname),
   (utf8 "version", .version),
   (utf8 "run", .run),
   (utf8 "poweroff", .poweroff),
   (utf8 "reboot", .reboot)]

/-- `s[i]`. -/
def readByte (s : List UInt8) (i : ℕ) : Except Fault UInt8 :=
  match s[i]? with
  | some c => .ok c
  | none => .error .string

/-- The first loop of `parse`, `while (*s && *s != ' ') s++`: how far it moves `s`. -/
def nameLoop : List UInt8 → Except Fault ℕ
  | [] => .error .string
  | c :: s => if c ≠ 0 ∧ c ≠ ascii ' ' then (· + 1) <$> nameLoop s else .ok 0

/-- The second loop of `parse`, `while (*s == ' ') s++`. -/
def spaceLoop : List UInt8 → Except Fault ℕ
  | [] => .error .string
  | c :: s => if c = ascii ' ' then (· + 1) <$> spaceLoop s else .ok 0

/-- `parse`: the array afterwards, in which `*name` is at the start, and the place of `*args`. -/
def parse (s : List UInt8) : Except Fault (List UInt8 × Option ℕ) :=
  nameLoop s >>= fun i =>
  readByte s i >>= fun c =>
  if c = ascii ' ' then
    -- the name ends here, in place
    let s := s.set i 0
    spaceLoop (s.drop (i + 1)) >>= fun j =>
    readByte s (i + 1 + j) >>= fun c =>
    .ok (s, if c ≠ 0 then some (i + 1 + j) else none)
  else .ok (s, none)

/-- The loop over `cmds`. -/
def commandLoop (name : List UInt8) : List (List UInt8 × CmdFn) → Except Fault (Option CmdFn)
  | [] => .ok none
  | cmd :: cmds =>
      strcmp name (cmd.1 ++ [0]) >>= fun r =>
      if r = 0 then .ok (some cmd.2) else commandLoop name cmds

/-- What `handle_command` does with a line: nothing, a call with the argument `args`, which points
into the array, or a message. -/
inductive Dispatch
  | nothing
  | call (fn : CmdFn) (args : Option (List UInt8))
  | notFound (printed : List UInt8)
deriving DecidableEq, Repr

/-- `handle_command`: what it does, and the array it leaves. -/
def handleCommand (cmd : List UInt8) : Except Fault (Dispatch × List UInt8) :=
  readByte cmd 0 >>= fun c =>
  if c = 0 then .ok (.nothing, cmd)
  else
    parse cmd >>= fun p =>
    commandLoop p.1 cmds >>= fun found =>
    match found with
    | some fn => .ok (.call fn (p.2.map p.1.drop), p.1)
    | none => kprint p.1 >>= fun name => .ok (.notFound (name ++ utf8 ": not found\n"), p.1)

/-! ### What a line asks for -/

/-- The longest prefix of the line without a space. -/
def firstWord (line : List UInt8) : List UInt8 := line.takeWhile (· ≠ ascii ' ')

/-- What follows the first word and the spaces behind it, if anything does. -/
def argument (line : List UInt8) : Option (List UInt8) :=
  let rest := (line.dropWhile (· ≠ ascii ' ')).dropWhile (· = ascii ' ')
  if rest = [] then none else some rest

/-- What the line asks for. -/
def dispatch (line : List UInt8) : Dispatch :=
  if line = [] then .nothing
  else
    match cmds.lookup (firstWord line) with
    | some fn => .call fn (argument line)
    | none => .notFound (firstWord line ++ utf8 ": not found\n")

/-- The same, where the argument is a pointer to a string with `rest` behind it. -/
def Dispatch.before (rest : List UInt8) : Dispatch → Dispatch
  | .nothing => .nothing
  | .call fn args => .call fn (args.map (· ++ rest))
  | .notFound printed => .notFound printed

/-! ### Cutting a line -/

section Parse

variable {line w t : List UInt8}

theorem readByte_append (s : List UInt8) (c : UInt8) (rest : List UInt8) :
    readByte (s ++ c :: rest) s.length = .ok c := by
  rw [readByte, List.getElem?_append_right le_rfl, Nat.sub_self]
  rfl

theorem nameLoop_append (hw : 0 ∉ w) (hspace : ascii ' ' ∉ w) {c : UInt8}
    (hc : ¬ (c ≠ 0 ∧ c ≠ ascii ' ')) (rest : List UInt8) :
    nameLoop (w ++ c :: rest) = .ok w.length := by
  induction w with
  | nil => rw [List.nil_append, nameLoop, if_neg hc, List.length_nil]
  | cons a w ih =>
      rw [List.mem_cons, not_or] at hw hspace
      rw [List.cons_append, nameLoop, if_pos ⟨Ne.symm hw.1, Ne.symm hspace.1⟩, ih hw.2 hspace.2,
        map_ok, List.length_cons]

/-- The spaces in front of the argument. -/
theorem spaceLoop_append (t rest : List UInt8) :
    ∃ j, spaceLoop (t ++ 0 :: rest) = .ok j ∧ j ≤ t.length ∧
      t.drop j = t.dropWhile (· = ascii ' ') := by
  -- the loop stops at the NUL at the latest
  induction t with
  | nil => exact ⟨0, rfl, le_rfl, rfl⟩
  | cons c t ih =>
      by_cases hc : c = ascii ' '
      · obtain ⟨j, hj, hle, hdrop⟩ := ih
        refine ⟨j + 1, ?_, Nat.succ_le_succ hle, ?_⟩
        · rw [List.cons_append, spaceLoop, if_pos hc, hj, map_ok]
        · rw [List.drop_succ_cons, hdrop, List.dropWhile_cons_of_pos (by simpa using hc)]
      · refine ⟨0, ?_, Nat.zero_le _, ?_⟩
        · rw [List.cons_append, spaceLoop, if_neg hc]
        · rw [List.dropWhile_cons_of_neg (by simpa using hc), List.drop_zero]

/-- A line without a space is a name. -/
theorem parse_word (hw : 0 ∉ w) (hspace : ascii ' ' ∉ w) (rest : List UInt8) :
    parse (w ++ 0 :: rest) = .ok (w ++ 0 :: rest, none) := by
  rw [parse, nameLoop_append hw hspace (by decide), ok_bind, readByte_append, ok_bind,
    if_neg (by decide)]

/-- A line with a space is cut there. -/
theorem parse_space (hw : 0 ∉ w) (hspace : ascii ' ' ∉ w) (ht : 0 ∉ t) (rest : List UInt8) :
    ∃ args, parse (w ++ ascii ' ' :: (t ++ 0 :: rest)) = .ok (w ++ 0 :: (t ++ 0 :: rest), args) ∧
      args.map (w ++ 0 :: (t ++ 0 :: rest)).drop =
        (if t.dropWhile (· = ascii ' ') = [] then none
          else some (t.dropWhile (· = ascii ' '))).map (· ++ 0 :: rest) := by
  obtain ⟨j, hj, hle, hdrop⟩ := spaceLoop_append t rest
  have hnext : ∀ i, (w ++ 0 :: (t ++ 0 :: rest)).drop (w.length + 1 + i) =
      (t ++ 0 :: rest).drop i := by
    intro i
    rw [List.drop_append, List.drop_of_length_le (by omega), List.nil_append, Nat.add_assoc,
      Nat.add_sub_cancel_left, Nat.add_comm 1 i, List.drop_succ_cons]
  have hcut : (w ++ 0 :: (t ++ 0 :: rest)).drop (w.length + 1 + j) =
      t.dropWhile (· = ascii ' ') ++ 0 :: rest := by
    rw [hnext, List.drop_append_of_le_length hle, hdrop]
  have hread : readByte (w ++ 0 :: (t ++ 0 :: rest)) (w.length + 1 + j) =
      readByte (t.dropWhile (· = ascii ' ') ++ 0 :: rest) 0 := by
    rw [← hcut, readByte, readByte, List.getElem?_drop]
    rfl
  have hstart : (w ++ 0 :: (t ++ 0 :: rest)).drop (w.length + 1) = t ++ 0 :: rest := hnext 0
  have hparse : parse (w ++ ascii ' ' :: (t ++ 0 :: rest)) =
      readByte (t.dropWhile (· = ascii ' ') ++ 0 :: rest) 0 >>= fun c =>
      .ok (w ++ 0 :: (t ++ 0 :: rest), if c ≠ 0 then some (w.length + 1 + j) else none) := by
    rw [parse, nameLoop_append hw hspace (by decide), ok_bind, readByte_append, ok_bind, if_pos rfl]
    dsimp only
    rw [set_length_append, hstart, hj, ok_bind, hread]
  -- what the last test reads is the NUL, or the first character of the argument
  cases harg : t.dropWhile (· = ascii ' ') with
  | nil =>
      refine ⟨none, ?_, rfl⟩
      rw [hparse, harg]
      rfl
  | cons c arg =>
      have hmem : c ∈ t := (List.dropWhile_suffix _).subset (harg ▸ List.mem_cons_self)
      have hc : c ≠ 0 := fun h => ht (h ▸ hmem)
      refine ⟨some (w.length + 1 + j), ?_, ?_⟩
      · rw [hparse, harg]
        change Except.ok (_, if c ≠ 0 then _ else _) = _
        rw [if_pos hc]
      · rw [Option.map_some, hcut, harg, if_neg (List.cons_ne_nil c arg), Option.map_some]

/-- A line is one word, or a word, a space and the rest. -/
theorem firstWord_cases (line : List UInt8) :
    (ascii ' ' ∉ line ∧ firstWord line = line ∧ line.dropWhile (· ≠ ascii ' ') = []) ∨
      ∃ t, line = firstWord line ++ ascii ' ' :: t ∧
        line.dropWhile (· ≠ ascii ' ') = ascii ' ' :: t := by
  induction line with
  | nil => exact Or.inl ⟨List.not_mem_nil, rfl, rfl⟩
  | cons c line ih =>
      by_cases hc : c = ascii ' '
      · have hstop : ¬ (decide (c ≠ ascii ' ') = true) := by simpa using hc
        have hword : firstWord (c :: line) = [] := List.takeWhile_cons_of_neg hstop
        have hdrop : (c :: line).dropWhile (· ≠ ascii ' ') = c :: line :=
          List.dropWhile_cons_of_neg hstop
        rw [hword, hdrop, ← hc]
        exact Or.inr ⟨line, rfl, rfl⟩
      · have hgo : decide (c ≠ ascii ' ') = true := by simpa using hc
        have hword : firstWord (c :: line) = c :: firstWord line :=
          List.takeWhile_cons_of_pos hgo
        have hdrop : (c :: line).dropWhile (· ≠ ascii ' ') = line.dropWhile (· ≠ ascii ' ') :=
          List.dropWhile_cons_of_pos hgo
        rw [hword, hdrop]
        rcases ih with ⟨hspace, hall, hnil⟩ | ⟨t, ht, hrest⟩
        · refine Or.inl ⟨?_, by rw [hall], hnil⟩
          rw [List.mem_cons, not_or]
          exact ⟨Ne.symm hc, hspace⟩
        · refine Or.inr ⟨t, ?_, hrest⟩
          rw [List.cons_append, ← ht]

theorem space_not_mem_firstWord (line : List UInt8) : ascii ' ' ∉ firstWord line := by
  intro h
  simpa using List.mem_takeWhile_imp h

theorem noNul_firstWord (h : 0 ∉ line) : 0 ∉ firstWord line :=
  fun hm => h ((List.takeWhile_prefix _).subset hm)

/-- The line with a NUL in the place of its first space. -/
def cut (line : List UInt8) : List UInt8 := line.set (firstWord line).length 0

@[simp] theorem length_cut (line : List UInt8) : (cut line).length = line.length :=
  List.length_set

theorem cut_of_space (h : line = firstWord line ++ ascii ' ' :: t) :
    cut line = firstWord line ++ 0 :: t := by
  have hset := set_length_append (firstWord line) t (ascii ' ') 0
  rwa [← h] at hset

theorem cut_of_word (h : firstWord line = line) : cut line = line := by
  rw [cut, h, List.set_eq_of_length_le le_rfl]

/-- The name that is left at the start of the array. -/
theorem cstr_cut (h : 0 ∉ line) (rest : List UInt8) :
    cstr (cut line ++ 0 :: rest) = firstWord line := by
  rcases firstWord_cases line with ⟨-, hword, -⟩ | ⟨t, ht, -⟩
  · rw [cut_of_word hword, hword, cstr_append_zero h]
  · rw [cut_of_space ht, List.append_assoc, List.cons_append, cstr_append_zero (noNul_firstWord h)]

/-- **Cutting a line** into its first word and its argument. -/
theorem parse_eq (h : 0 ∉ line) (rest : List UInt8) :
    ∃ args, parse (line ++ 0 :: rest) = .ok (cut line ++ 0 :: rest, args) ∧
      args.map (cut line ++ 0 :: rest).drop = (argument line).map (· ++ 0 :: rest) := by
  rcases firstWord_cases line with ⟨hspace, hword, hnil⟩ | ⟨t, ht, hrest⟩
  · refine ⟨none, ?_, ?_⟩
    · rw [cut_of_word hword, parse_word h hspace]
    · rw [argument, hnil]
      rfl
  · have hzero : 0 ∉ t := by
      rw [ht, List.mem_append, List.mem_cons] at h
      exact fun hm => h (Or.inr (Or.inr hm))
    obtain ⟨args, hparse, hargs⟩ :=
      parse_space (noNul_firstWord h) (space_not_mem_firstWord line) hzero rest
    have hline : firstWord line ++ ascii ' ' :: (t ++ 0 :: rest) = line ++ 0 :: rest := by
      rw [← List.cons_append, ← List.append_assoc, ← ht]
    have hcut : firstWord line ++ 0 :: (t ++ 0 :: rest) = cut line ++ 0 :: rest := by
      rw [cut_of_space ht, List.append_assoc, List.cons_append]
    rw [hline, hcut] at hparse
    rw [hcut] at hargs
    refine ⟨args, hparse, ?_⟩
    rw [hargs, argument, hrest, List.dropWhile_cons_of_pos (by decide)]

end Parse

/-! ### Looking a name up -/

/-- **The loop over the table** finds the entry with the name at the start of the array. -/
theorem commandLoop_eq {s : List UInt8} (hs : 0 ∈ s) {table : List (List UInt8 × CmdFn)}
    (htable : ∀ cmd ∈ table, 0 ∉ cmd.1) :
    commandLoop s table = .ok (table.lookup (cstr s)) := by
  induction table with
  | nil => rfl
  | cons cmd table ih =>
      obtain ⟨name, fn⟩ := cmd
      have hname : 0 ∉ name := htable (name, fn) List.mem_cons_self
      obtain ⟨r, hr, hr0⟩ := strcmp_of_not_overruns hname (not_overruns_of_zero_mem hs name)
      rw [commandLoop, hr, ok_bind, List.lookup_cons]
      by_cases heq : cstr s = name
      · rw [if_pos (hr0.2 heq), heq, BEq.rfl]
      · have hne : (cstr s == name) = false := by simpa using heq
        rw [if_neg (hr0.not.2 heq), ih fun cmd hcmd => htable cmd (List.mem_cons_of_mem _ hcmd), hne]

theorem noNul_cmds : ∀ cmd ∈ cmds, 0 ∉ cmd.1 := by decide +kernel

/-- **A line is dispatched by its first word.**  What stands behind the NUL of the line, even if
nothing does, is neither read nor changed. -/
theorem handleCommand_eq {line : List UInt8} (h : 0 ∉ line) (rest : List UInt8) :
    handleCommand (line ++ 0 :: rest) =
      .ok ((dispatch line).before (0 :: rest), cut line ++ 0 :: rest) := by
  cases hline : line with
  | nil => rfl
  | cons c line' =>
      rw [← hline]
      have hne : line ≠ [] := hline ▸ List.cons_ne_nil c line'
      have hc : c ≠ 0 := fun hc => h (hline ▸ hc ▸ List.mem_cons_self)
      have hread : readByte (line ++ 0 :: rest) 0 = .ok c := by
        rw [hline]
        rfl
      have hzero : (0 : UInt8) ∈ cut line ++ 0 :: rest :=
        List.mem_append_right _ List.mem_cons_self
      obtain ⟨args, hparse, hargs⟩ := parse_eq h rest
      rw [handleCommand, hread, ok_bind, if_neg hc, hparse, ok_bind]
      dsimp only
      rw [commandLoop_eq hzero noNul_cmds, ok_bind, cstr_cut h, dispatch, if_neg hne]
      cases cmds.lookup (firstWord line) with
      | none =>
          dsimp only
          rw [kprint_of_zero_mem hzero, cstr_cut h]
          rfl
      | some fn =>
          dsimp only
          rw [hargs]
          rfl

/-! ### The loop of `kmain` -/

/-- A line that was handed to `handle_command`: the array at that time, and what was done. -/
structure Executed where
  buffer : List UInt8
  dispatch : Dispatch

/-- The array `cmd` with the static `idx`, and the lines that were handed over. -/
structure Shell where
  line : LineState
  done : List Executed

/-- A round of the loop of `kmain`, in which `getchar` returns `c`. -/
def Shell.step (bufferSize : UInt32) (s : Shell) (c : UInt8) : Except Fault Shell :=
  inputPoll c bufferSize s.line >>= fun r =>
  if r.ret then
    handleCommand r.line.buffer >>= fun d =>
    .ok ⟨{ r.line with buffer := d.2 }, s.done ++ [⟨r.line.buffer, d.1⟩]⟩
  else .ok ⟨r.line, s.done⟩

/-- The lines that the characters end, if `line` was typed before: each of them is edited by the
characters since the newline before it, in an array of `n` bytes. -/
def lines (n : ℕ) : List UInt8 → List UInt8 → List (List UInt8)
  | _, [] => []
  | line, c :: cs =>
      if IsNewline c then line :: lines n [] cs else lines n (editLine n line c) cs

/-- The line was handed over with its NUL and dispatched, and what `handle_command` does with it
is the same whatever stands behind the NUL, even if the array ends there. -/
structure Executed.Of (line : List UInt8) (e : Executed) : Prop where
  buffer : ∃ rest, e.buffer = line ++ 0 :: rest ∧
    e.dispatch = (Anaga.dispatch line).before (0 :: rest)
  behind : ∀ rest, handleCommand (line ++ 0 :: rest) =
    .ok ((Anaga.dispatch line).before (0 :: rest), cut line ++ 0 :: rest)

section Shell

variable {bufferSize : UInt32} {s : Shell} {line : List UInt8} {c : UInt8}

/-- The array `buffer` afterwards: nothing behind its first `n` bytes has changed. -/
structure Framed (n : ℕ) (buffer buffer' : List UInt8) : Prop where
  length : buffer'.length = buffer.length
  drop : buffer'.drop n = buffer.drop n

theorem Framed.trans {n : ℕ} {b₁ b₂ b₃ : List UInt8} (h : Framed n b₁ b₂) (h' : Framed n b₂ b₃) :
    Framed n b₁ b₃ := ⟨h'.length.trans h.length, h'.drop.trans h.drop⟩

/-- Cutting a line changes nothing behind it. -/
theorem framed_cut {n : ℕ} (hn : line.length < n) (rest : List UInt8) :
    Framed n (line ++ 0 :: rest) (cut line ++ 0 :: rest) := by
  have hcut : (cut line).length ≤ n := by rw [length_cut]; exact hn.le
  refine ⟨?_, ?_⟩
  · rw [List.length_append, List.length_append, length_cut]
  · rw [List.drop_append, List.drop_append, List.drop_of_length_le hcut,
      List.drop_of_length_le hn.le, length_cut]

/-- A character that does not end the line. -/
theorem Shell.step_edit (h : s.line.Holds bufferSize.toNat line) (hc : ¬ IsNewline c) :
    ∃ s', s.step bufferSize c = .ok s' ∧
      s'.line.Holds bufferSize.toNat (editLine bufferSize.toNat line c) ∧
      Framed bufferSize.toNat s.line.buffer s'.line.buffer ∧ s'.done = s.done := by
  obtain ⟨r, hr, hspec⟩ := inputPoll_spec h c
  refine ⟨⟨r.line, s.done⟩, ?_, hspec.holds, ⟨hspec.length, hspec.drop⟩, rfl⟩
  rw [Shell.step, hr, ok_bind, if_neg (hspec.ret.not.2 hc)]

/-- **A newline** hands the line over, and the next one is empty. -/
theorem Shell.step_newline (h : s.line.Holds bufferSize.toNat line) (hc : IsNewline c) :
    ∃ s' e, s.step bufferSize c = .ok s' ∧ s'.line.Holds bufferSize.toNat [] ∧
      Framed bufferSize.toNat s.line.buffer s'.line.buffer ∧ s'.done = s.done ++ [e] ∧
      e.Of line := by
  obtain ⟨r, hr, hspec⟩ := inputPoll_spec h c
  obtain ⟨rest, hrest⟩ := hspec.done hc
  have hcommand := handleCommand_eq h.noNul rest
  have hframe := framed_cut h.length_lt rest
  have hsize : bufferSize.toNat ≤ (cut line ++ 0 :: rest).length := by
    rw [hframe.length, ← hrest, hspec.length]
    exact h.le_length
  -- the editor has started the next line before the array is cut
  have hempty : r.line.idx = 0 := by
    have h0 : c ≠ 0 := by
      rintro rfl
      exact absurd hc (by decide)
    have hedit : editLine bufferSize.toNat line c = [] := by rw [editLine, if_neg h0, if_pos hc]
    have hidx := hspec.holds.idx
    rw [hedit] at hidx
    exact hidx
  have hstep : s.step bufferSize c =
      .ok ⟨⟨cut line ++ 0 :: rest, r.line.idx⟩,
        s.done ++ [⟨line ++ 0 :: rest, (dispatch line).before (0 :: rest)⟩]⟩ := by
    rw [Shell.step, hr, ok_bind, if_pos (hspec.ret.2 hc), hrest, hcommand]
    rfl
  rw [hempty] at hstep
  refine ⟨_, _, hstep, holds_nil (Nat.zero_lt_of_lt h.length_lt) hsize, ?_, rfl,
    ⟨rest, rfl, rfl⟩, handleCommand_eq h.noNul⟩
  have hpoll : Framed bufferSize.toNat s.line.buffer (line ++ 0 :: rest) :=
    hrest ▸ ⟨hspec.length, hspec.drop⟩
  exact hpoll.trans hframe

/-- What a sequence of characters does, if `line` was typed before. -/
theorem Shell.run_spec (h : s.line.Holds bufferSize.toNat line) (cs : List UInt8) :
    ∃ s' es, run (Shell.step bufferSize) s cs = .ok s' ∧
      Framed bufferSize.toNat s.line.buffer s'.line.buffer ∧ s'.done = s.done ++ es ∧
      List.Forall₂ Executed.Of (lines bufferSize.toNat line cs) es := by
  induction cs generalizing s line with
  | nil => exact ⟨s, [], rfl, ⟨rfl, rfl⟩, (List.append_nil _).symm, .nil⟩
  | cons c cs ih =>
      by_cases hc : IsNewline c
      · obtain ⟨s', e, hstep, hholds, hframe, hdone, hof⟩ := step_newline h hc
        obtain ⟨s'', es, hrun, hframe', hdone', hall⟩ := ih hholds
        refine ⟨s'', e :: es, run_cons_eq_ok.2 ⟨s', hstep, hrun⟩, hframe.trans hframe', ?_, ?_⟩
        · rw [hdone', hdone, List.append_assoc]
          rfl
        · rw [lines, if_pos hc]
          exact .cons hof hall
      · obtain ⟨s', hstep, hholds, hframe, hdone⟩ := step_edit h hc
        obtain ⟨s'', es, hrun, hframe', hdone', hall⟩ := ih hholds
        refine ⟨s'', es, run_cons_eq_ok.2 ⟨s', hstep, hrun⟩, hframe.trans hframe', ?_, ?_⟩
        · rw [hdone', hdone]
        · rw [lines, if_neg hc]
          exact hall

/-- **Every line that is typed is handed over with its NUL and dispatched by its first word**, and
no byte behind the first `bufferSize` of the array is written. -/
theorem Shell.run_lines (bufferSize : UInt32) (hpos : 0 < bufferSize.toNat) (buffer : List UInt8)
    (hbuffer : bufferSize.toNat ≤ buffer.length) (cs : List UInt8) :
    ∃ s, run (Shell.step bufferSize) ⟨⟨buffer, 0⟩, []⟩ cs = .ok s ∧
      Framed bufferSize.toNat buffer s.line.buffer ∧
      List.Forall₂ Executed.Of (lines bufferSize.toNat [] cs) s.done := by
  obtain ⟨s, es, hrun, hframe, hdone, hall⟩ :=
    Shell.run_spec (s := ⟨⟨buffer, 0⟩, []⟩) (holds_nil hpos hbuffer) cs
  obtain rfl : s.done = es := hdone.trans (List.nil_append es)
  exact ⟨s, hrun, hframe, hall⟩

/-- Two lines, of which the first is edited and too long for an array of eight bytes. -/
theorem Shell.run_lines_two :
    lines 8 [] (utf8 "lp\x08s   /hello\rpwd\n") = [utf8 "ls   /h", utf8 "pwd"] ∧
      ∃ s, run (Shell.step 8) ⟨⟨List.replicate 8 255, 0⟩, []⟩
          (utf8 "lp\x08s   /hello\rpwd\n") = .ok s ∧
        List.Forall₂ Executed.Of (lines 8 [] (utf8 "lp\x08s   /hello\rpwd\n")) s.done := by
  refine ⟨by decide +kernel, ?_⟩
  obtain ⟨s, hrun, -, hall⟩ :=
    Shell.run_lines 8 (by decide) (List.replicate 8 255) (by decide)
      (utf8 "lp\x08s   /hello\rpwd\n")
  exact ⟨s, hrun, hall⟩

end Shell

end Anaga
