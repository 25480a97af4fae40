/-
**The keyboard and the line editor: `drivers/keyboard/keyboard.c`, `io/kinput.c`.**

`getchar` looks a scancode up in one of two tables, and `input_poll` edits the line in `buffer`
with the character it gets.  The characters that `input_poll` passes to `kputc` are returned with
the line, as those of `kprint` are, and a store behind the end of the array is a fault.

Main definitions:

* `Anaga.getchar`, `Anaga.typed` — the character of a scancode, and of a sequence of them;
* `Anaga.LineState`, `Anaga.inputPoll` — the line that is typed, and the editor;
* `Anaga.editLine`, `Anaga.echo` — the line that a character leaves, and what is printed for it.

Main results:

* `Anaga.typed_key` — the characters that the keyboard delivers;
* `Anaga.inputPoll_spec` — **the editor never leaves its array, and keeps the edited line in it**.
-/

import Anaga.Display

set_option relaxedAutoImplicit false
set_option autoImplicit false

namespace Anaga

open Transition

/-! ### The keyboard -/

/-- `scancode_ascii`. -/
def scancodeAscii : List UInt8 :=
  [0, 27] ++ utf8 "1234567890-=" ++ [8] ++
  [9] ++ utf8 "qwertyuiop[]\n" ++
  [0] ++ utf8 "asdfghjkl;'`" ++ [0] ++
  utf8 "\\zxcvbnm,./" ++ [0] ++
  utf8 "*" ++ [0] ++ utf8 " " ++ [0]

/-- `scancode_ascii_shift`. -/
def scancodeAsciiShift : List UInt8 :=
  [0, 27] ++ utf8 "!@#$%^/*()_+" ++ [8] ++
  [9] ++ utf8 "QWERTYUIOP\x7b\x7d\n" ++
  [0] ++ utf8 "ASDFGHJKL:\"~" ++ [0] ++
  utf8 "|ZXCVBNM<>?" ++ [0] ++
  utf8 "*" ++ [0] ++ utf8 " " ++ [0]

/-- `KEYBOARD_SCANCODE_RELEASE`. -/
def keyboardScancodeRelease : UInt8 := 0x80

/-- `SC_SHIFT_LEFT`. -/
def scShiftLeft : UInt8 := 0x2A

/-- `SC_SHIFT_RIGHT`. -/
def scShiftRight : UInt8 := 0x36

/-- `getchar`: the character that it returns for the scancode, and `shift_state`. -/
def getchar (shiftState : Bool) (scancode : UInt8) : UInt8 × Bool :=
  let press : Bool := scancode &&& keyboardScancodeRelease = 0
  let code := scancode &&& ~~~keyboardScancodeRelease
  if code = scShiftLeft ∨ code = scShiftRight then (0, press)
  else if press = false then (0, shiftState)
  else if scancodeAscii.length ≤ code.toNat then (0, shiftState)
  else ((if shiftState then scancodeAsciiShift else scancodeAscii).getD code.toNat 0, shiftState)

/-- The characters that `getchar` returns, one scancode after the other. -/
def typed : Bool → List UInt8 → List UInt8
  | _, [] => []
  | shiftState, scancode :: scancodes =>
      (getchar shiftState scancode).1 :: typed (getchar shiftState scancode).2 scancodes

/-- A character of the tables: none, a backspace, a tab, a newline, an escape, or a character that
is printed. -/
def Key (c : UInt8) : Prop :=
  c = 0 ∨ c = 8 ∨ c = 9 ∨ c = ascii '\n' ∨ c = 27 ∨ (32 ≤ c.toNat ∧ c.toNat < 127)

instance (c : UInt8) : Decidable (Key c) := inferInstanceAs (Decidable (_ ∨ _))

theorem key_table (shiftState : Bool) :
    ∀ c ∈ (if shiftState then scancodeAsciiShift else scancodeAscii), Key c := by
  cases shiftState with
  | false => decide +kernel
  | true => decide +kernel

theorem key_lookup (shiftState : Bool) (n : ℕ) :
    Key ((if shiftState then scancodeAsciiShift else scancodeAscii).getD n 0) := by
  rw [List.getD_eq_getElem?_getD]
  cases hget : (if shiftState then scancodeAsciiShift else scancodeAscii)[n]? with
  | none => exact Or.inl rfl
  | some c => exact key_table shiftState c (List.mem_of_getElem? hget)

theorem key_getchar (shiftState : Bool) (scancode : UInt8) :
    Key (getchar shiftState scancode).1 := by
  have hnone : Key 0 := Or.inl rfl
  have hkey := key_lookup shiftState
  unfold getchar
  generalize (if shiftState then scancodeAsciiShift else scancodeAscii) = table at hkey ⊢
  dsimp only
  split_ifs
  · exact hnone
  · exact hnone
  · exact hnone
  · exact hkey _

/-- **What the keyboard delivers.** -/
theorem typed_key (shiftState : Bool) (scancodes : List UInt8) :
    ∀ c ∈ typed shiftState scancodes, Key c := by
  induction scancodes generalizing shiftState with
  | nil => exact fun c hc => absurd hc List.not_mem_nil
  | cons scancode scancodes ih =>
      intro c hc
      rcases List.mem_cons.1 hc with rfl | hc
      · exact key_getchar shiftState scancode
      · exact ih _ c hc

/-! ### The editor -/

/-- The array `buffer`, with what follows it in memory, and the static `idx`. -/
structure LineState where
  buffer : List UInt8
  idx : ℕ

/-- What `input_poll` returns, the characters it passes to `kputc`, and the line it leaves. -/
structure PollResult where
  ret : Bool
  printed : List UInt8
  line : LineState

/-- `buffer[i] = c`. -/
def setByte (buffer : List UInt8) (i : ℕ) (c : UInt8) : Except Fault (List UInt8) :=
  if i < buffer.length then .ok (buffer.set i c) else .error .string

/-- The three calls of `kputc` that take a character off the screen. -/
def erase : List UInt8 := [8, ascii ' ', 8]

/-- The loop of `input_poll` that erases the line: the characters it passes to `kputc`. -/
def eraseLoop : ℕ → List UInt8
  | 0 => []
  | idx + 1 => erase ++ eraseLoop idx

/-- `input_poll`, with the character that `getchar` returns. -/
def inputPoll (c : UInt8) (bufferSize : UInt32) (l : LineState) : Except Fault PollResult :=
  if c = 0 then .ok ⟨false, [], l⟩
  else
    -- a carriage return counts as a newline
    let c := if c = ascii '\r' then ascii '\n' else c
    if c = ascii '\n' then
      (fun buffer => ⟨true, [ascii '\n'], ⟨buffer, 0⟩⟩) <$> setByte l.buffer l.idx 0
    else if c = 8 ∨ c = 127 then
      if 0 < l.idx then .ok ⟨false, erase, { l with idx := l.idx - 1 }⟩ else .ok ⟨false, [], l⟩
    else if c = 0x15 then .ok ⟨false, eraseLoop l.idx, { l with idx := 0 }⟩
    -- the last byte is kept for the NUL
    else if UInt32.ofNat l.idx < bufferSize - 1 then
      (fun buffer => ⟨false, [c], ⟨buffer, l.idx + 1⟩⟩) <$> setByte l.buffer l.idx c
    else .ok ⟨false, [], l⟩

/-! ### What the editor does -/

/-- A newline, or a carriage return, which counts as one. -/
def IsNewline (c : UInt8) : Prop := c = ascii '\n' ∨ c = ascii '\r'

instance (c : UInt8) : Decidable (IsNewline c) := inferInstanceAs (Decidable (_ ∨ _))

/-- The line after a character, in an array of `n` bytes. -/
def editLine (n : ℕ) (line : List UInt8) (c : UInt8) : List UInt8 :=
  if c = 0 then line
  else if IsNewline c then []
  else if c = 8 ∨ c = 127 then line.dropLast
  else if c = 0x15 then []
  else if line.length < n - 1 then line ++ [c]
  else line

/-- What is printed for the character. -/
def echo (n : ℕ) (line : List UInt8) (c : UInt8) : List UInt8 :=
  if c = 0 then []
  else if IsNewline c then [ascii '\n']
  else if c = 8 ∨ c = 127 then if line = [] then [] else erase
  else if c = 0x15 then eraseLoop line.length
  else if line.length < n - 1 then [c]
  else []

/-- A character that is stored if there is room. -/
structure IsPlain (c : UInt8) : Prop where
  ne_zero : c ≠ 0
  not_newline : ¬ IsNewline c
  not_backspace : ¬ (c = 8 ∨ c = 127)
  not_kill : c ≠ 0x15

theorem IsPlain.editLine_eq {c : UInt8} (hc : IsPlain c) (n : ℕ) (line : List UInt8) :
    editLine n line c = if line.length < n - 1 then line ++ [c] else line := by
  rw [editLine, if_neg hc.ne_zero, if_neg hc.not_newline, if_neg hc.not_backspace,
    if_neg hc.not_kill]

theorem IsPlain.echo_eq {c : UInt8} (hc : IsPlain c) (n : ℕ) (line : List UInt8) :
    echo n line c = if line.length < n - 1 then [c] else [] := by
  rw [echo, if_neg hc.ne_zero, if_neg hc.not_newline, if_neg hc.not_backspace, if_neg hc.not_kill]

/-- The array of `n` bytes holds the line, which leaves room for its NUL. -/
structure LineState.Holds (n : ℕ) (l : LineState) (line : List UInt8) : Prop where
  idx : l.idx = line.length
  starts : line <+: l.buffer
  noNul : 0 ∉ line
  length_lt : line.length < n
  le_length : n ≤ l.buffer.length

section Holds

variable {n : ℕ} {l : LineState} {line : List UInt8} {c : UInt8}

/-- The line, as it stands in the array. -/
theorem LineState.Holds.take_eq (h : l.Holds n line) : l.buffer.take l.idx = line := by
  rw [h.idx]
  exact (List.prefix_iff_eq_take.1 h.starts).symm

/-- At the start of a line nothing is typed. -/
theorem holds_nil (hn : 0 < n) {buffer : List UInt8} (h : n ≤ buffer.length) :
    LineState.Holds n ⟨buffer, 0⟩ [] :=
  ⟨rfl, List.nil_prefix, List.not_mem_nil, hn, h⟩

/-- Dropping characters at the end of the line. -/
theorem LineState.Holds.shorten (h : l.Holds n line) {line' : List UInt8} (hp : line' <+: line) :
    LineState.Holds n { l with idx := line'.length } line' :=
  ⟨rfl, hp.trans h.starts, fun hm => h.noNul (hp.subset hm), hp.length_le.trans_lt h.length_lt,
    h.le_length⟩

/-- A store behind the line leaves the line, and what it writes. -/
theorem set_length_append (line rest : List UInt8) (b c : UInt8) :
    (line ++ b :: rest).set line.length c = line ++ c :: rest := by
  rw [List.set_append_right _ _ le_rfl, Nat.sub_self, List.set_cons_zero]

/-- Storing a byte behind the line. -/
theorem LineState.Holds.store (h : l.Holds n line) (c : UInt8) :
    ∃ rest, setByte l.buffer l.idx c = .ok (line ++ c :: rest) ∧
      (line ++ c :: rest).length = l.buffer.length ∧
      (line ++ c :: rest).drop n = l.buffer.drop n := by
  obtain ⟨rest, hrest⟩ := h.starts
  have hlt : line.length < l.buffer.length := h.length_lt.trans_le h.le_length
  have hdrop := List.drop_set_of_lt (l := l.buffer) (a := c) h.length_lt
  cases rest with
  | nil => rw [← hrest, List.append_nil] at hlt; exact absurd hlt (lt_irrefl _)
  | cons b rest =>
      have hset : l.buffer.set line.length c = line ++ c :: rest := by
        rw [← hrest, set_length_append]
      refine ⟨rest, ?_, ?_, ?_⟩
      · rw [setByte, h.idx, if_pos hlt, hset]
      · rw [← hset, List.length_set]
      · rw [← hset, hdrop]

/-- The test `(size_t)idx < buffer_size - 1`. -/
theorem LineState.Holds.idx_lt_iff {bufferSize : UInt32} (h : l.Holds bufferSize.toNat line) :
    UInt32.ofNat l.idx < bufferSize - 1 ↔ line.length < bufferSize.toNat - 1 := by
  have hlt := h.length_lt
  have hsize := bufferSize.toNat_lt
  have hone : (1 : UInt32) ≤ bufferSize := by
    rw [UInt32.le_iff_toNat_le]
    change 1 ≤ bufferSize.toNat
    omega
  have hidx : (UInt32.ofNat l.idx).toNat = line.length := by
    rw [h.idx, UInt32.toNat_ofNat', Nat.mod_eq_of_lt (hlt.trans hsize)]
  rw [UInt32.lt_iff_toNat_lt, hidx, UInt32.toNat_sub_of_le _ _ hone]
  rfl

end Holds

/-- What `input_poll` leaves for the character `c`, if `line` was typed before. -/
structure PollResult.Spec (n : ℕ) (l : LineState) (line : List UInt8) (c : UInt8)
    (r : PollResult) : Prop where
  holds : r.line.Holds n (editLine n line c)
  printed : r.printed = echo n line c
  ret : r.ret = true ↔ IsNewline c
  /-- When it returns 1, the array holds the line and its NUL. -/
  done : IsNewline c → ∃ rest, r.line.buffer = line ++ 0 :: rest
  length : r.line.buffer.length = l.buffer.length
  drop : r.line.buffer.drop n = l.buffer.drop n

/-- A character that does not end the line and stores nothing. -/
theorem PollResult.Spec.of_keep {n idx : ℕ} {l : LineState} {line line' printed : List UInt8}
    {c : UInt8} (hedit : editLine n line c = line') (hecho : echo n line c = printed)
    (hc : ¬ IsNewline c) (h : LineState.Holds n ⟨l.buffer, idx⟩ line') :
    PollResult.Spec n l line c ⟨false, printed, ⟨l.buffer, idx⟩⟩ where
  holds := hedit ▸ h
  printed := hecho.symm
  ret := iff_of_false Bool.false_ne_true hc
  done := fun hn => absurd hn hc
  length := rfl
  drop := rfl

section Poll

variable {bufferSize : UInt32} {l : LineState} {line : List UInt8} {c : UInt8}

/-- A newline. -/
theorem inputPoll_newline (h : l.Holds bufferSize.toNat line) (hc : IsNewline c) :
    ∃ r, inputPoll c bufferSize l = .ok r ∧ r.Spec bufferSize.toNat l line c := by
  have h0 : c ≠ 0 := by
    rintro rfl
    exact absurd hc (by decide)
  have hreturn : (if c = ascii '\r' then ascii '\n' else c) = ascii '\n' := by
    rcases hc with rfl | rfl
    · decide
    · exact if_pos rfl
  obtain ⟨rest, hstore, hlength, hdrop⟩ := h.store 0
  refine ⟨⟨true, [ascii '\n'], ⟨line ++ 0 :: rest, 0⟩⟩, ?_, ?_⟩
  · rw [inputPoll, if_neg h0]
    simp only [hreturn, if_true]
    rw [hstore, map_ok]
  · have hedit : editLine bufferSize.toNat line c = [] := by
      rw [editLine, if_neg h0, if_pos hc]
    have hecho : echo bufferSize.toNat line c = [ascii '\n'] := by
      rw [echo, if_neg h0, if_pos hc]
    refine ⟨?_, hecho.symm, iff_of_true rfl hc, fun _ => ⟨rest, rfl⟩, hlength, hdrop⟩
    rw [hedit]
    exact holds_nil (Nat.zero_lt_of_lt h.length_lt) (hlength ▸ h.le_length)

/-- The part of `input_poll` behind its newline. -/
theorem inputPoll_of_edit (h0 : c ≠ 0) (hn : ¬ IsNewline c) :
    inputPoll c bufferSize l =
      if c = 8 ∨ c = 127 then
        if 0 < l.idx then .ok ⟨false, erase, { l with idx := l.idx - 1 }⟩ else .ok ⟨false, [], l⟩
      else if c = 0x15 then .ok ⟨false, eraseLoop l.idx, { l with idx := 0 }⟩
      else if UInt32.ofNat l.idx < bufferSize - 1 then
        (fun buffer => ⟨false, [c], ⟨buffer, l.idx + 1⟩⟩) <$> setByte l.buffer l.idx c
      else .ok ⟨false, [], l⟩ := by
  have hreturn : (if c = ascii '\r' then ascii '\n' else c) = c := if_neg fun hr => hn (Or.inr hr)
  have hnl : c ≠ ascii '\n' := fun hc => hn (Or.inl hc)
  rw [inputPoll, if_neg h0]
  simp only [hreturn]
  rw [if_neg hnl]

/-- A backspace takes the last character off the line, if there is one. -/
theorem inputPoll_backspace (h : l.Holds bufferSize.toNat line) (h0 : c ≠ 0)
    (hn : ¬ IsNewline c) (hb : c = 8 ∨ c = 127) :
    ∃ r, inputPoll c bufferSize l = .ok r ∧ r.Spec bufferSize.toNat l line c := by
  have hidx := h.idx
  have hedit : editLine bufferSize.toNat line c = line.dropLast := by
    rw [editLine, if_neg h0, if_neg hn, if_pos hb]
  have hecho : echo bufferSize.toNat line c = if line = [] then [] else erase := by
    rw [echo, if_neg h0, if_neg hn, if_pos hb]
  rw [inputPoll_of_edit h0 hn, if_pos hb]
  by_cases hline : line = []
  · have hpos : ¬ 0 < l.idx := by rw [hidx, hline]; exact lt_irrefl 0
    rw [hline, List.dropLast_nil] at hedit
    rw [if_pos hline] at hecho
    rw [if_neg hpos]
    exact ⟨⟨false, [], l⟩, rfl, .of_keep (hline ▸ hedit) hecho hn (hline ▸ h)⟩
  · have hpos : 0 < l.idx := by rw [hidx]; exact List.length_pos_iff.2 hline
    have hshort := h.shorten line.dropLast_prefix
    rw [List.length_dropLast, ← hidx] at hshort
    rw [if_neg hline] at hecho
    rw [if_pos hpos]
    exact ⟨_, rfl, .of_keep hedit hecho hn hshort⟩

/-- Control-U empties the line. -/
theorem inputPoll_kill (h : l.Holds bufferSize.toNat line) (hc : c = 0x15) :
    ∃ r, inputPoll c bufferSize l = .ok r ∧ r.Spec bufferSize.toNat l line c := by
  have h0 : c ≠ 0 := by rw [hc]; decide
  have hn : ¬ IsNewline c := by rw [hc]; decide
  have hb : ¬ (c = 8 ∨ c = 127) := by rw [hc]; decide
  have hedit : editLine bufferSize.toNat line c = [] := by
    rw [editLine, if_neg h0, if_neg hn, if_neg hb, if_pos hc]
  have hecho : echo bufferSize.toNat line c = eraseLoop l.idx := by
    rw [echo, if_neg h0, if_neg hn, if_neg hb, if_pos hc, h.idx]
  rw [inputPoll_of_edit h0 hn, if_neg hb, if_pos hc]
  exact ⟨_, rfl, .of_keep hedit hecho hn (h.shorten List.nil_prefix)⟩

/-- The line with one more character. -/
theorem LineState.Holds.concat (h : l.Holds bufferSize.toNat line) (h0 : c ≠ 0)
    (hfit : line.length < bufferSize.toNat - 1) {rest : List UInt8}
    (hlength : (line ++ c :: rest).length = l.buffer.length) :
    LineState.Holds bufferSize.toNat ⟨line ++ c :: rest, l.idx + 1⟩ (line ++ [c]) where
  idx := by rw [h.idx, List.length_append, List.length_singleton]
  starts := ⟨rest, by rw [List.append_assoc]; rfl⟩
  noNul := by
    rw [List.mem_append, List.mem_singleton]
    rintro (hm | hc)
    · exact h.noNul hm
    · exact h0 hc.symm
  length_lt := by
    rw [List.length_append, List.length_singleton]
    omega
  le_length := by
    rw [hlength]
    exact h.le_length

/-- Any other character is stored if there is room for it and for the NUL. -/
theorem inputPoll_plain (h : l.Holds bufferSize.toNat line) (hc : IsPlain c) :
    ∃ r, inputPoll c bufferSize l = .ok r ∧ r.Spec bufferSize.toNat l line c := by
  have hn := hc.not_newline
  have hedit := hc.editLine_eq bufferSize.toNat line
  have hecho := hc.echo_eq bufferSize.toNat line
  rw [inputPoll_of_edit hc.ne_zero hn, if_neg hc.not_backspace, if_neg hc.not_kill]
  by_cases hfit : line.length < bufferSize.toNat - 1
  · obtain ⟨rest, hstore, hlength, hdrop⟩ := h.store c
    rw [if_pos hfit] at hedit hecho
    rw [if_pos (h.idx_lt_iff.2 hfit), hstore, map_ok]
    refine ⟨_, rfl, ?_, hecho.symm, iff_of_false Bool.false_ne_true hn, fun hc => absurd hc hn,
      hlength, hdrop⟩
    rw [hedit]
    exact h.concat hc.ne_zero hfit hlength
  · rw [if_neg hfit] at hedit hecho
    rw [if_neg (h.idx_lt_iff.not.2 hfit)]
    exact ⟨_, rfl, .of_keep hedit hecho hn h⟩

/-- **The editor never leaves its array, and keeps the edited line in it.** -/
theorem inputPoll_spec (h : l.Holds bufferSize.toNat line) (c : UInt8) :
    ∃ r, inputPoll c bufferSize l = .ok r ∧ r.Spec bufferSize.toNat l line c := by
  by_cases hn : IsNewline c
  · exact inputPoll_newline h hn
  by_cases h0 : c = 0
  · refine ⟨⟨false, [], l⟩, by rw [inputPoll, if_pos h0], .of_keep ?_ ?_ hn h⟩
    · rw [editLine, if_pos h0]
    · rw [echo, if_pos h0]
  by_cases hb : c = 8 ∨ c = 127
  · exact inputPoll_backspace h h0 hn hb
  by_cases hk : c = 0x15
  · exact inputPoll_kill h hk
  · exact inputPoll_plain h ⟨h0, hn, hb, hk⟩

end Poll

end Anaga
