/-
**A session at the keyboard: `kmain`.**

The loop of `kmain` with everything it works on: the flag of the keyboard, the array with the line,
the file system, and the cells of the screen.  The dialogue is what a user makes of it: a line that
is edited, commands that are looked up by the first word of a line, and a text.  The machine shows
the dialogue, scancode for scancode.

Main definitions:

* `Anaga.Session`, `Anaga.Session.step` — the loop of `kmain`;
* `Anaga.Dialogue`, `Anaga.Dialogue.step` — the dialogue;
* `Anaga.Session.Plays` — the machine shows the dialogue;
* `Anaga.execLines` — the commands of a list of lines;
* `Anaga.kinit`, `Anaga.kmain` — the start, and the loop.

Main results:

* `Anaga.Session.step_plays`, `Anaga.Session.run_plays` — **the machine follows the dialogue**;
* `Anaga.Dialogue.run_live` — which goes on if no file does harm, and leaves the files as the
  commands of its lines do;
* `Anaga.kmain_plays` — **so does the machine, from the first start on**.
-/

import Anaga.Acceptance
import Anaga.Bars
import Anaga.Builtins
import Anaga.Echo

set_option relaxedAutoImplicit false
set_option autoImplicit false

namespace Anaga

open Transition

/-! ### The machine -/

/-- `shift_state`, the array `cmd` with the static `idx`, the file system, whose console is what has
not reached the screen yet, and the screen; and why the loop has been left, if it has. -/
structure Session where
  shiftState : Bool
  line : LineState
  kernel : Kernel
  terminal : Terminal
  stopped : Option Stop

/-- The state when everything printed has reached the screen. -/
def Kernel.flushed (k : Kernel) : Kernel := { k with console := [] }

/-- The call `handle_command(cmd)`, once the line has been cut. -/
def Session.exec (m : Machine) (s : Session) (d : Dispatch) : Except Fault Session :=
  d.exec m s.kernel >>= fun r =>
  (if r.cleaned then kcleanDisplay s.terminal else run kputc s.terminal r.kernel.console) >>=
    fun terminal =>
  .ok { s with kernel := r.kernel.flushed, terminal := terminal, stopped := r.stop }

/-- The call `input_prompt()`. -/
def Session.prompt (s : Session) : Except Fault Session :=
  kprint (Anaga.prompt ++ [0]) >>= fun printed =>
  (fun terminal => { s with terminal := terminal }) <$> run kputc s.terminal printed

/-- A round of the loop of `kmain`, in which the keyboard sends the scancode. -/
def Session.step (m : Machine) (s : Session) (scancode : UInt8) : Except Fault Session :=
  if s.stopped.isSome then .ok s
  else
    let (c, shiftState) := getchar s.shiftState scancode
    inputPoll c maxCommandLen s.line >>= fun r =>
    run kputc s.terminal r.printed >>= fun terminal =>
    let s := { s with shiftState := shiftState, line := r.line, terminal := terminal }
    if r.ret then
      handleCommand r.line.buffer >>= fun (d, buffer) =>
      { s with line := { r.line with buffer := buffer } }.exec m d >>= fun s =>
      if s.stopped.isSome then .ok s else s.prompt
    else .ok s

/-! ### The dialogue -/

/-- The line that is typed, the file system, and the text since the screen was last cleaned. -/
structure Dialogue where
  shiftState : Bool
  line : List UInt8
  kernel : Kernel
  text : List UInt8
  stopped : Option Stop

/-- What is done with a line. -/
def execLine (m : Machine) (k : Kernel) (line : List UInt8) : Except Fault CmdResult :=
  ((dispatch line).before [0]).exec m k

/-- A scancode. -/
def Dialogue.step (m : Machine) (a : Dialogue) (scancode : UInt8) : Except Fault Dialogue :=
  if a.stopped.isSome then .ok a
  else
    let c := (getchar a.shiftState scancode).1
    let shiftState := (getchar a.shiftState scancode).2
    if IsNewline c then
      execLine m a.kernel a.line >>= fun r =>
      let text := if r.cleaned then [] else a.text ++ [ascii '\n'] ++ r.kernel.console
      .ok
        { shiftState := shiftState
          line := []
          kernel := r.kernel.flushed
          text := if r.stop.isSome then text else text ++ prompt
          stopped := r.stop }
    else
      .ok
        { a with
          shiftState := shiftState
          line := editLine maxCommandLen.toNat a.line c
          text := a.text ++ echo maxCommandLen.toNat a.line c }

/-! ### Lines -/

section Line

variable {line : List UInt8}

theorem pointed_append {a : List UInt8} (h0 : 0 ∉ a) (hlen : a.length < 2 ^ 31)
    (rest : List UInt8) : pointed (some (a ++ 0 :: rest)) = .ok (some ⟨a, h0, hlen⟩) := by
  have hcstr := cstr_append_zero h0 rest
  have hcond : 0 ∈ a ++ 0 :: rest ∧ (cstr (a ++ 0 :: rest)).length < 2 ^ 31 := by
    rw [hcstr]
    exact ⟨List.mem_append_right _ List.mem_cons_self, hlen⟩
  rw [pointed, dif_pos hcond]
  congr 2
  exact CString.ext hcstr

theorem argument_suffix {arg : List UInt8} (h : argument line = some arg) : arg <:+ line := by
  rw [argument] at h
  split_ifs at h
  rw [← Option.some.inj h]
  exact (List.dropWhile_suffix _).trans (List.dropWhile_suffix _)

/-- The string that a command gets. -/
theorem pointed_argument (h0 : 0 ∉ line) (hlen : line.length < 2 ^ 31) :
    ∃ a : Option CString, a.map CString.bytes = argument line ∧
      ∀ rest, pointed ((argument line).map (· ++ 0 :: rest)) = .ok a := by
  cases harg : argument line with
  | none => exact ⟨none, rfl, fun _ => rfl⟩
  | some arg =>
      have hsuffix := argument_suffix harg
      exact ⟨_, rfl,
        pointed_append (fun h => h0 (hsuffix.subset h)) (hsuffix.length_le.trans_lt hlen)⟩

theorem dispatch_cases (line : List UInt8) :
    dispatch line = .nothing ∨ (∃ fn, dispatch line = .call fn (argument line)) ∨
      ∃ printed, dispatch line = .notFound printed := by
  rw [dispatch]
  split_ifs
  · exact Or.inl rfl
  · cases cmds.lookup (firstWord line) with
    | none => exact Or.inr (Or.inr ⟨_, rfl⟩)
    | some fn => exact Or.inr (Or.inl ⟨fn, rfl⟩)

/-- What stands behind the line in the array does not matter. -/
theorem exec_before (m : Machine) (k : Kernel) (h0 : 0 ∉ line) (hlen : line.length < 2 ^ 31)
    (rest : List UInt8) :
    ((dispatch line).before (0 :: rest)).exec m k = execLine m k line := by
  rw [execLine]
  rcases dispatch_cases line with h | ⟨fn, h⟩ | ⟨printed, h⟩
  · rw [h]
    rfl
  · obtain ⟨a, -, ha⟩ := pointed_argument h0 hlen
    simp only [h, Dispatch.before, Dispatch.exec, ha]
  · rw [h]
    rfl

/-- **No line makes the kernel fail.** -/
theorem execLine_total {m : Machine} {k : Kernel} (h : Ready m.area k) (h0 : 0 ∉ line)
    (hlen : line.length < 2 ^ 31) :
    ∃ r, execLine m k line = .ok r ∧ Ready m.area r.kernel := by
  rw [execLine]
  rcases dispatch_cases line with hd | ⟨fn, hd⟩ | ⟨printed, hd⟩
  · rw [hd]
    exact ⟨_, rfl, h⟩
  · obtain ⟨a, -, ha⟩ := pointed_argument h0 hlen
    obtain ⟨r, hr, hready⟩ := CmdFn.exec_total h a fn
    refine ⟨r, ?_, hready⟩
    simp only [hd, Dispatch.before, Dispatch.exec, ha, ok_bind, hr]
  · rw [hd]
    exact ⟨_, rfl, h.puts printed⟩

end Line

/-! ### The machine follows the dialogue -/

/-- **The machine shows the dialogue**: the array holds the line, and the screen displays the
text. -/
structure Session.Plays (s : Session) (a : Dialogue) : Prop where
  shiftState : s.shiftState = a.shiftState
  line : s.line.Holds maxCommandLen.toNat a.line
  kernel : s.kernel = a.kernel
  displays : s.terminal.Displays a.text
  stopped : s.stopped = a.stopped

section Plays

variable {m : Machine} {s : Session} {a a' : Dialogue} {c : UInt8}

/-- A newline leaves an empty line, and the array cut behind its first word. -/
theorem PollResult.Spec.holds_cut {n : ℕ} {l : LineState} {line : List UInt8} {r : PollResult}
    (h : r.Spec n l line c) (hl : l.Holds n line) (hc : IsNewline c) :
    ∃ rest, r.line.buffer = line ++ 0 :: rest ∧
      LineState.Holds n ⟨cut line ++ 0 :: rest, r.line.idx⟩ [] := by
  obtain ⟨rest, hrest⟩ := h.done hc
  have h0 : c ≠ 0 := by
    rintro rfl
    exact absurd hc (by decide)
  have hidx := h.holds.idx
  rw [editLine, if_neg h0, if_pos hc, List.length_nil] at hidx
  have hlen : n ≤ (cut line ++ 0 :: rest).length := by
    rw [(framed_cut hl.length_lt rest).length, ← hrest, h.length]
    exact hl.le_length
  refine ⟨rest, hrest, ?_⟩
  rw [hidx]
  exact holds_nil (Nat.zero_lt_of_lt hl.length_lt) hlen

theorem echo_newline (n : ℕ) (line : List UInt8) (hc : IsNewline c) :
    echo n line c = [ascii '\n'] := by
  have h0 : c ≠ 0 := by
    rintro rfl
    exact absurd hc (by decide)
  rw [echo, if_neg h0, if_pos hc]

/-- A command leaves on the screen what it prints, or a clean screen. -/
theorem Session.exec_plays {line text : List UInt8} (hdisplays : s.terminal.Displays text)
    (h0 : 0 ∉ line) (hlen : line.length < 2 ^ 31) {r : CmdResult}
    (hr : execLine m s.kernel line = .ok r) (rest : List UInt8) :
    ∃ t, s.exec m ((dispatch line).before (0 :: rest)) =
        .ok { s with kernel := r.kernel.flushed, terminal := t, stopped := r.stop } ∧
      t.Displays (if r.cleaned then [] else text ++ r.kernel.console) := by
  rw [Session.exec, exec_before m s.kernel h0 hlen rest, hr, ok_bind]
  split_ifs
  · obtain ⟨t, ht, hclean⟩ := Terminal.displays_clean s.terminal
    exact ⟨t, by rw [ht, ok_bind], hclean⟩
  · obtain ⟨t, ht, hprint⟩ := hdisplays.print r.kernel.console
    exact ⟨t, by rw [ht, ok_bind], hprint⟩

theorem Session.prompt_plays {text : List UInt8} (hdisplays : s.terminal.Displays text) :
    ∃ t, s.prompt = .ok { s with terminal := t } ∧ t.Displays (text ++ Anaga.prompt) := by
  have hprint : kprint (Anaga.prompt ++ [0]) = .ok Anaga.prompt := by
    rw [kprint_of_zero_mem (by simp), cstr_append_zero (by decide)]
  obtain ⟨t, ht, htext⟩ := hdisplays.print Anaga.prompt
  exact ⟨t, by rw [Session.prompt, hprint, ok_bind, ht, map_ok], htext⟩

/-- A newline. -/
theorem Session.step_newline (h : s.Plays a) (hrun : s.stopped = none) {scancode : UInt8}
    (hc : IsNewline (getchar s.shiftState scancode).1)
    (hstep : a.step m scancode = .ok a') : ∃ s', s.step m scancode = .ok s' ∧ s'.Plays a' := by
  obtain ⟨r, hr, hspec⟩ := inputPoll_spec h.line (getchar s.shiftState scancode).1
  obtain ⟨rest, hrest, hholds⟩ := hspec.holds_cut h.line hc
  obtain ⟨t, ht, htext⟩ := h.displays.print r.printed
  rw [hspec.printed, echo_newline _ _ hc] at htext
  have hlen : a.line.length < 2 ^ 31 := h.line.length_lt.trans (by decide)
  -- what the dialogue does
  rw [Dialogue.step, ← h.stopped, hrun, ← h.shiftState] at hstep
  simp only [Option.isSome_none, Bool.false_eq_true, if_false, if_pos hc] at hstep
  obtain ⟨res, hres, hstep⟩ := bind_eq_ok.1 hstep
  obtain rfl := Except.ok.inj hstep
  -- the machine does the same with the array and the cells
  rw [Session.step, hrun]
  simp only [Option.isSome_none, Bool.false_eq_true, if_false, hr, ok_bind, ht,
    if_pos (hspec.ret.2 hc), hrest, handleCommand_eq h.line.noNul rest]
  rw [← h.kernel] at hres
  obtain ⟨t', hexec, hdisplays⟩ := Session.exec_plays (m := m)
    (s := ⟨(getchar s.shiftState scancode).2, ⟨cut a.line ++ 0 :: rest, r.line.idx⟩, s.kernel, t,
      s.stopped⟩) htext h.line.noNul hlen hres rest
  rw [hrun] at hexec
  rw [hexec, ok_bind]
  cases hstop : res.stop with
  | some why =>
      simp only [Option.isSome_some, if_true]
      exact ⟨_, rfl, rfl, hholds, rfl, hdisplays, rfl⟩
  | none =>
      obtain ⟨t'', hprompt, hdisplays'⟩ := Session.prompt_plays
        (s := ⟨(getchar s.shiftState scancode).2, ⟨cut a.line ++ 0 :: rest, r.line.idx⟩,
          res.kernel.flushed, t', none⟩) hdisplays
      simp only [Option.isSome_none, Bool.false_eq_true, if_false]
      exact ⟨_, hprompt, rfl, hholds, rfl, hdisplays', rfl⟩

/-- A scancode that ends no line. -/
theorem Session.step_edits (h : s.Plays a) (hrun : s.stopped = none) {scancode : UInt8}
    (hc : ¬ IsNewline (getchar s.shiftState scancode).1)
    (hstep : a.step m scancode = .ok a') : ∃ s', s.step m scancode = .ok s' ∧ s'.Plays a' := by
  obtain ⟨r, hr, hspec⟩ := inputPoll_spec h.line (getchar s.shiftState scancode).1
  obtain ⟨t, ht, htext⟩ := h.displays.print r.printed
  rw [hspec.printed] at htext
  rw [Dialogue.step, ← h.stopped, hrun, ← h.shiftState] at hstep
  simp only [Option.isSome_none, Bool.false_eq_true, if_false, if_neg hc] at hstep
  obtain rfl := Except.ok.inj hstep
  rw [Session.step, hrun]
  simp only [Option.isSome_none, Bool.false_eq_true, if_false, hr, ok_bind, ht,
    if_neg (hspec.ret.not.2 hc)]
  exact ⟨_, rfl, rfl, hspec.holds, h.kernel, htext, rfl⟩

/-- **The machine follows the dialogue.** -/
theorem Session.step_plays (h : s.Plays a) {scancode : UInt8} (hstep : a.step m scancode = .ok a') :
    ∃ s', s.step m scancode = .ok s' ∧ s'.Plays a' := by
  cases hrun : s.stopped with
  | some why =>
      have hsome : a.stopped.isSome = true := by rw [← h.stopped, hrun, Option.isSome_some]
      rw [Dialogue.step, if_pos hsome] at hstep
      obtain rfl := Except.ok.inj hstep
      exact ⟨s, by rw [Session.step, hrun, Option.isSome_some, if_pos rfl], h⟩
  | none =>
      by_cases hc : IsNewline (getchar s.shiftState scancode).1
      · exact Session.step_newline h hrun hc hstep
      · exact Session.step_edits h hrun hc hstep

/-- **And so it does in every run.** -/
theorem Session.run_plays (h : s.Plays a) {scancodes : List UInt8}
    (hrun : run (Dialogue.step m) a scancodes = .ok a') :
    ∃ s', run (Session.step m) s scancodes = .ok s' ∧ s'.Plays a' := by
  have hfollows : ∀ s a scancode a', Session.Plays s a → Dialogue.step m a scancode = .ok a' →
      ∃ s', Session.step m s scancode = .ok s' ∧ Session.Plays s' a' :=
    fun _ _ _ _ hR hstep => Session.step_plays hR hstep
  exact run_simulates hfollows h hrun

end Plays

/-! ### What is typed -/

/-- The commands of the lines, one after the other, up to the first one that does not return. -/
def execLines (m : Machine) : Kernel → List (List UInt8) → Except Fault (Kernel × Option Stop)
  | k, [] => .ok (k, none)
  | k, line :: lines =>
      execLine m k line >>= fun r =>
      if r.stop.isSome then .ok (r.kernel.flushed, r.stop)
      else execLines m r.kernel.flushed lines

/-- The dialogue can go on: a line is typed that fits into the array, and no file does harm. -/
structure Dialogue.Live (m : Machine) (a : Dialogue) : Prop where
  noNul : 0 ∉ a.line
  length_lt : a.line.length < maxCommandLen.toNat
  ready : Ready m.area a.kernel

section Dialogue

variable {m : Machine} {a a' : Dialogue}

theorem maxCommandLen_pos : 0 < maxCommandLen.toNat := by decide

theorem noNul_editLine {n : ℕ} {line : List UInt8} (h : 0 ∉ line) (c : UInt8) :
    0 ∉ editLine n line c := by
  rw [editLine]
  split_ifs with h0
  · exact h
  · exact List.not_mem_nil
  · exact fun hm => h (List.dropLast_subset line hm)
  · exact List.not_mem_nil
  · rw [List.mem_append, List.mem_singleton]
    exact fun hm => hm.elim h fun hc => h0 hc.symm
  · exact h

theorem length_editLine_lt {n : ℕ} {line : List UInt8} (h : line.length < n) (c : UInt8) :
    (editLine n line c).length < n := by
  rw [editLine]
  split_ifs with h0 hnewline hback hkill hroom
  · exact h
  · exact Nat.zero_lt_of_lt h
  · exact (List.dropLast_sublist line).length_le.trans_lt h
  · exact Nat.zero_lt_of_lt h
  · rw [List.length_append, List.length_singleton]
    omega
  · exact h

theorem Ready.flushed {area : Area} {k : Kernel} (h : Ready area k) : Ready area k.flushed :=
  h.quiet ⟨k.memory.byte, rfl, rfl, rfl, rfl, fun _ => rfl⟩

theorem Dialogue.step_of_stopped (h : a.stopped.isSome) (scancode : UInt8) :
    a.step m scancode = .ok a :=
  if_pos h

theorem Dialogue.step_of_newline (h : a.stopped = none) {scancode : UInt8}
    (hc : IsNewline (getchar a.shiftState scancode).1) {r : CmdResult}
    (hr : execLine m a.kernel a.line = .ok r) :
    ∃ text, a.step m scancode =
      .ok ⟨(getchar a.shiftState scancode).2, [], r.kernel.flushed, text, r.stop⟩ := by
  rw [Dialogue.step, h]
  simp only [Option.isSome_none, Bool.false_eq_true, if_false, if_pos hc, hr, ok_bind]
  exact ⟨_, rfl⟩

theorem Dialogue.step_of_not_newline (h : a.stopped = none) {scancode : UInt8}
    (hc : ¬ IsNewline (getchar a.shiftState scancode).1) :
    ∃ text, a.step m scancode =
      .ok ⟨(getchar a.shiftState scancode).2,
        editLine maxCommandLen.toNat a.line (getchar a.shiftState scancode).1, a.kernel, text,
        none⟩ := by
  rw [Dialogue.step, h]
  simp only [Option.isSome_none, Bool.false_eq_true, if_false, if_neg hc]
  exact ⟨_, rfl⟩

/-- **The dialogue goes on**, and what is done with the lines is done in their order. -/
theorem Dialogue.run_live (h : a.Live m) (hgoes : a.stopped = none) (scancodes : List UInt8) :
    ∃ a', run (Dialogue.step m) a scancodes = .ok a' ∧ a'.Live m ∧
      execLines m a.kernel (lines maxCommandLen.toNat a.line (typed a.shiftState scancodes)) =
        .ok (a'.kernel, a'.stopped) := by
  induction scancodes generalizing a with
  | nil => exact ⟨a, rfl, h, by rw [hgoes]; rfl⟩
  | cons scancode scancodes ih =>
      by_cases hc : IsNewline (getchar a.shiftState scancode).1
      · obtain ⟨r, hr, hready⟩ :=
          execLine_total h.ready h.noNul (h.length_lt.trans (by decide))
        obtain ⟨text, hstep⟩ := Dialogue.step_of_newline hgoes hc hr
        have hlive : Dialogue.Live m
            ⟨(getchar a.shiftState scancode).2, [], r.kernel.flushed, text, r.stop⟩ :=
          ⟨List.not_mem_nil, maxCommandLen_pos, hready.flushed⟩
        rw [typed, lines, if_pos hc, execLines, hr, ok_bind]
        cases hstop : r.stop with
        | none =>
            rw [hstop] at hstep hlive
            obtain ⟨a', hrun, hlive', hlines⟩ := ih hlive rfl
            exact ⟨a', run_cons_eq_ok.2 ⟨_, hstep, hrun⟩, hlive', hlines⟩
        | some why =>
            -- nothing is done with what is typed from then on
            rw [hstop] at hstep hlive
            refine ⟨_, run_cons_eq_ok.2 ⟨_, hstep, ?_⟩, hlive, rfl⟩
            exact run_of_fixed (Dialogue.step_of_stopped rfl) scancodes
      · obtain ⟨text, hstep⟩ := Dialogue.step_of_not_newline (m := m) hgoes hc
        have hlive : Dialogue.Live m ⟨(getchar a.shiftState scancode).2,
            editLine maxCommandLen.toNat a.line (getchar a.shiftState scancode).1, a.kernel, text,
            none⟩ :=
          ⟨noNul_editLine h.noNul _, length_editLine_lt h.length_lt _, h.ready⟩
        obtain ⟨a', hrun, hlive', hlines⟩ := ih hlive rfl
        refine ⟨a', run_cons_eq_ok.2 ⟨_, hstep, hrun⟩, hlive', ?_⟩
        rw [typed, lines, if_neg hc]
        exact hlines

end Dialogue

/-! ### The start -/

/-- What reaches the screen of what a handler does. -/
def Effect.text : Effect → List UInt8
  | .printed cs => cs
  | .outw _ _ => []
  | .e1000Init _ init => init.printed

/-- What reaches the screen of what the scan does. -/
def BusEvent.text : BusEvent → List UInt8
  | .printed cs => cs
  | .call _ _ _ _ effects => effects.flatMap Effect.text

/-- `drive_init`: what it prints.  The register that it writes is left out: every command of the
driver writes it again. -/
def driveInit : Except Fault (List UInt8) :=
  kprint (utf8 "ATA Drive initializing...\n" ++ [0]) >>= fun before =>
  kprint (utf8 "ATA Drive initialized (Master)\n" ++ [0]) >>= fun after =>
  .ok (before ++ after)

/-- `kinit`: what it prints, and the file system.  The tables of the processor and the registers of
the clock are left out. -/
def kinit (c : ConfigSpace) (l : Locals) (disk : Disk) (memory : Memory) :
    Except Fault (List UInt8 × Kernel) :=
  pciScan c l >>= fun trace =>
  driveInit >>= fun printed =>
  .ok (trace.flatMap BusEvent.text ++ printed, boot disk memory)

/-- What `kmain` prints after `kinit`. -/
def banner : List UInt8 := utf8 "Anaga Kernel v0.0.0.1\nSyscalls ready (int 0x80)\n"

/-- What `kmain` does in front of its loop, with whatever is in the array `cmd`. -/
def kmainStart (c : ConfigSpace) (l : Locals) (disk : Disk) (memory : Memory) (t : Terminal)
    (cmd : List UInt8) : Except Fault Session :=
  kcleanDisplay t >>= fun t =>
  kinit c l disk memory >>= fun (printed, kernel) =>
  printKernelVersion >>= fun version =>
  kprint (utf8 "Syscalls ready (int 0x80)\n" ++ [0]) >>= fun ready =>
  run kputc t (printed ++ version ++ ready) >>= fun t =>
  Session.prompt ⟨false, ⟨cmd, 0⟩, kernel, t, none⟩

/-- `kmain`, up to the round after the scancodes. -/
def kmain (m : Machine) (c : ConfigSpace) (l : Locals) (disk : Disk) (memory : Memory)
    (t : Terminal) (cmd : List UInt8) (scancodes : List UInt8) : Except Fault Session :=
  kmainStart c l disk memory t cmd >>= fun s => run (Session.step m) s scancodes

section Start

variable {c : ConfigSpace} {l : Locals}

theorem exists_kinit (disk : Disk) (memory : Memory) :
    ∃ printed, kinit c l disk memory = .ok (printed, boot disk memory) := by
  obtain ⟨trace, htrace⟩ := exists_pciScan c l
  obtain ⟨before, hbefore⟩ := exists_kprint (utf8 "ATA Drive initializing...\n")
  obtain ⟨after, hafter⟩ := exists_kprint (utf8 "ATA Drive initialized (Master)\n")
  exact ⟨_, by rw [kinit, htrace, ok_bind, driveInit, hbefore, ok_bind, hafter, ok_bind, ok_bind]⟩

/-- The loop begins with an empty line, and with a screen that displays what was printed. -/
theorem kmainStart_plays (disk : Disk) (memory : Memory) (t : Terminal) {cmd : List UInt8}
    (hcmd : maxCommandLen.toNat ≤ cmd.length) :
    ∃ s printed, kinit c l disk memory = .ok (printed, boot disk memory) ∧
      kmainStart c l disk memory t cmd = .ok s ∧
      s.Plays ⟨false, [], boot disk memory, printed ++ banner ++ prompt, none⟩ := by
  obtain ⟨t₁, hclean, hdisplays⟩ := Terminal.displays_clean t
  obtain ⟨printed, hprinted⟩ := exists_kinit (c := c) (l := l) disk memory
  have hready : kprint (utf8 "Syscalls ready (int 0x80)\n" ++ [0]) =
      .ok (utf8 "Syscalls ready (int 0x80)\n") := by decide
  have hbanner : printed ++ utf8 "Anaga Kernel v0.0.0.1\n" ++ utf8 "Syscalls ready (int 0x80)\n" =
      printed ++ banner := List.append_assoc _ _ _
  obtain ⟨t₂, ht₂, hdisplays⟩ := hdisplays.print (printed ++ banner)
  obtain ⟨t₃, hprompt, hdisplays⟩ :=
    Session.prompt_plays (s := ⟨false, ⟨cmd, 0⟩, boot disk memory, t₂, none⟩) hdisplays
  refine ⟨⟨false, ⟨cmd, 0⟩, boot disk memory, t₃, none⟩, printed, hprinted, ?_, rfl,
    holds_nil maxCommandLen_pos hcmd, rfl, hdisplays, rfl⟩
  rw [kmainStart, hclean, ok_bind, hprinted, ok_bind]
  dsimp only
  rw [printKernelVersion_eq, ok_bind, hready, ok_bind, hbanner, ht₂, ok_bind, hprompt]

/-- The files that a start finds are the ones on the disk. -/
theorem boot_file {disk : Disk} {memory : Memory} {i : Fin maxInodes}
    (hi : ((boot disk memory).inodeArray i).type = inodeFile) :
    (boot disk memory).inodeArray i = diskTable disk i := by
  by_cases hroot : (diskTable (powerOn disk memory).disk 0).type = inodeDir
  · rw [boot, vfsInit_of_dir hroot]
    rfl
  · rw [boot, vfsInit_of_not_dir hroot] at hi ⊢
    have hne : i ≠ 0 := by
      rintro rfl
      dsimp only at hi
      rw [Function.update_self] at hi
      exact inodeFile_ne_dir hi.symm
    exact Function.update_of_ne hne _ _

theorem boot_memory (disk : Disk) (memory : Memory) : (boot disk memory).memory = memory := by
  by_cases hroot : (diskTable (powerOn disk memory).disk 0).type = inodeDir
  · rw [boot, vfsInit_of_dir hroot]
    rfl
  · rw [boot, vfsInit_of_not_dir hroot]
    rfl

theorem Ready.boot {area : Area} {disk : Disk} (h : Formatted disk) (memory : Memory)
    (hbenign : ∀ i, (diskTable disk i).type = inodeFile →
      Benign area memory (diskTable disk i)) : Ready area (boot disk memory) := by
  refine ⟨Anchored.boot h memory, fun i hi => ?_⟩
  rw [boot_memory, boot_file hi]
  rw [boot_file hi] at hi
  exact hbenign i hi

/-- **The machine plays the dialogue, whatever is typed.**  From a start on a formatted disk whose
files do no harm, no sequence of scancodes makes the kernel fail: the screen, the line and the file
system are those of the dialogue, and the file system is the one that the commands of the typed
lines leave, one after the other. -/
theorem kmain_plays (m : Machine) (c : ConfigSpace) (l : Locals) {disk : Disk}
    (hdisk : Formatted disk) (memory : Memory)
    (hbenign : ∀ i, (diskTable disk i).type = inodeFile →
      Benign m.area memory (diskTable disk i))
    (t : Terminal) {cmd : List UInt8} (hcmd : maxCommandLen.toNat ≤ cmd.length)
    (scancodes : List UInt8) :
    ∃ s text a, kmain m c l disk memory t cmd scancodes = .ok s ∧
      run (Dialogue.step m) ⟨false, [], boot disk memory, text, none⟩ scancodes = .ok a ∧
      s.Plays a ∧ Ready m.area s.kernel ∧
      execLines m (boot disk memory) (lines maxCommandLen.toNat [] (typed false scancodes)) =
        .ok (s.kernel, s.stopped) := by
  obtain ⟨s₀, printed, -, hstart, hplays⟩ :=
    kmainStart_plays (c := c) (l := l) disk memory t hcmd
  have hlive : Dialogue.Live m
      ⟨false, [], boot disk memory, printed ++ banner ++ prompt, none⟩ :=
    ⟨List.not_mem_nil, maxCommandLen_pos, Ready.boot hdisk memory hbenign⟩
  obtain ⟨a, hrun, hlive', hlines⟩ := Dialogue.run_live hlive rfl scancodes
  obtain ⟨s, hs, hplays⟩ := Session.run_plays hplays hrun
  refine ⟨s, _, a, ?_, hrun, hplays, hplays.kernel ▸ hlive'.ready, ?_⟩
  · rw [kmain, hstart, ok_bind, hs]
  · rw [hlines, hplays.kernel, hplays.stopped]

/-- The installed program does no harm. -/
theorem benign_program {i : Fin maxInodes}
    (hi : (diskTable (diskWith program) i).type = inodeFile) :
    Benign (fun _ => true) ⟨0, fun _ => 0⟩ (diskTable (diskWith program) i) := by
  rw [diskTable_diskWith] at hi ⊢
  rcases eq_or_ne i 0 with rfl | h0
  · rw [installedTable_root_dir] at hi
    exact absurd hi.symm inodeFile_ne_dir
  rcases eq_or_ne i 1 with rfl | h1
  · rw [installedTable_one]
    intro _ _ i hi
    rw [ehdrAt_program.1] at hi
    obtain rfl : i = 0 := by omega
    rw [phdrAt_program]
    refine ⟨⟨by decide +kernel, fun _ => ?_⟩, fun _ => targetWritable_program⟩
    rw [phdrAt_program]
    exact ⟨by decide +kernel, by decide⟩
  · rw [installedTable_of_ne _ _ h0 h1] at hi
    exact absurd hi (show ¬ Inode.zero.type = inodeFile by decide)

/-- `run a` is typed after a start on a disk with a program. -/
theorem kmain_plays_run :
    ∃ s, kmain ⟨fun _ => true, true, fun _ => 0⟩ (cardSpace 0xFEBC0004 1) stackLocals
        (diskWith program) ⟨0, fun _ => 0⟩ ⟨fun _ => 0, 5, 7⟩ (List.replicate 128 255)
        [0x13, 0x16, 0x31, 0x39, 0x1E, 0x1C] = .ok s ∧
      execLines ⟨fun _ => true, true, fun _ => 0⟩ (bootWith program) [utf8 "run a"] =
        .ok (s.kernel, s.stopped) := by
  have hcmd : maxCommandLen.toNat ≤ (List.replicate 128 (255 : UInt8)).length := by
    rw [List.length_replicate]
    decide
  obtain ⟨s, _, _, hs, -, -, -, hlines⟩ :=
    kmain_plays ⟨fun _ => true, true, fun _ => 0⟩ (cardSpace 0xFEBC0004 1) stackLocals
      (formatted_diskWith program) ⟨0, fun _ => 0⟩ (fun _ => benign_program) ⟨fun _ => 0, 5, 7⟩
      hcmd [0x13, 0x16, 0x31, 0x39, 0x1E, 0x1C]
  have htyped : lines maxCommandLen.toNat []
      (typed false [0x13, 0x16, 0x31, 0x39, 0x1E, 0x1C]) = [utf8 "run a"] := by
    decide
  rw [htyped] at hlines
  exact ⟨s, hs, hlines⟩

end Start

end Anaga
