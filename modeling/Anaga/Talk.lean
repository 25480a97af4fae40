/-
**What a user sees.**

A talk is a session as its user knows it: a line, a volume, and the text on the screen.  What a line
does is said by the name of its command and its argument, and by the tree of files; only what a
program does once it has been loaded is left open.  The kernel talks like this from its first prompt
on, whatever is typed: the screen displays the text of the talk, and the tables hold its files.

Main definitions:

* `Anaga.Volume.command`, `Anaga.Volume.line` — what a command does, and what a line does;
* `Anaga.Talk`, `Anaga.Talk.step` — a talk, and what a scancode does to it;
* `Anaga.Session.Tells` — the machine shows the talk.

Main results:

* `Anaga.Kernel.Shows.command` — **every command does what it does to the volume**;
* `Anaga.Dialogue.step_tells` — the dialogue with the kernel goes on like the talk;
* `Anaga.kmain_tells` — **so does the machine, from the first start on**.
-/

import Anaga.Acceptance
import Anaga.Session
import Anaga.Volume

set_option relaxedAutoImplicit false
set_option autoImplicit false

namespace Anaga

open Transition

/-! ### Commands -/

/-- What is left open. -/
inductive Unsaid
  | program

/-- What a line leaves: the volume, whether the screen has been cleaned, and why the kernel does not
go on, if it does not. -/
structure Seen where
  volume : Volume
  cleaned : Bool
  stop : Option Stop

/-- A line after which the kernel goes on. -/
def Seen.of (v : Volume) : Seen := ⟨v, false, none⟩

/-- The text of `help`: the names, padded to ten columns, and what the commands are for. -/
def helpText : List UInt8 :=
  cmds.flatMap fun cmd =>
    utf8 "  " ++ cmd.1 ++ List.replicate (10 - cmd.1.length) (ascii ' ') ++ utf8 "- " ++
      utf8 cmd.2.desc ++ utf8 "\n"

namespace Volume

variable (v : Volume)

/-- A call with the argument of a command, if there is one. -/
def withName (usage : String) (call : Volume → List UInt8 → Option Reply × Volume)
    (a : Option (List UInt8)) : Volume :=
  match a.filter (· ≠ []) with
  | some name => (call v name).2
  | none => v.puts (utf8 usage)

/-- What is in the file of a name. -/
def file (name : List UInt8) : Option (List UInt8) :=
  match (v.find name).bind v.live.view with
  | some (.leaf bytes) => some bytes
  | _ => none

/-- Running a file.  What has no header, or another one, is no program. -/
def runFile (name : List UInt8) : Except Unsaid Seen :=
  match v.file name with
  | none => .ok (.of (v.puts (utf8 "ELF: Failed to read header\n")))
  | some bytes =>
      if bytes.length < sizeofEhdr.toNat then
        .ok (.of (v.puts (utf8 "ELF: Failed to read header\n")))
      else if (ehdrOf bytes).HasMagic then .error .program
      else .ok (.of (v.puts (utf8 "ELF: Invalid magic\n")))

/-- **What a command does.** -/
def command (m : Machine) (a : Option (List UInt8)) : CmdFn → Except Unsaid Seen
  | .help => .ok (.of (v.puts helpText))
  | .ls => .ok (.of v.ls.2)
  | .pwd => .ok (.of (v.pwd.2.puts (utf8 "\n")))
  | .cd => .ok (.of (v.cd ((a.filter (· ≠ [])).getD (utf8 "/"))).2)
  | .cat => .ok (.of (v.withName "Usage: cat <file>\n" cat a))
  | .mkdir => .ok (.of (v.withName "Usage: mkdir <dir>\n" mkdir a))
  | .touch => .ok (.of (v.withName "Usage: touch <file>\n" touch a))
  | .echo => .ok (.of (v.puts (a.getD [] ++ utf8 "\n")))
  | .clear => .ok ⟨v, true, none⟩
  | .uname => .ok (.of (v.puts (utf8 "Anaga x86 i686\n")))
  | .version => .ok (.of (v.puts (utf8 "Anaga Kernel v0.0.0.1\n")))
  | .run =>
      match a.filter (· ≠ []) with
      | some name => v.runFile name
      | none => .ok (.of (v.puts (utf8 "Usage: run <path>\n")))
  | .poweroff =>
      match systemShutdown m.hypervisor m.firmware with
      | .ok (printed, writes) => .ok ⟨v.puts printed, false, some (.poweroff writes)⟩
      | .error _ => .error .program
  | .reboot => .ok ⟨v.puts (utf8 "Rebooting...\n"), false, some .reboot⟩

/-- What a line does. -/
def line (m : Machine) (line : List UInt8) : Except Unsaid Seen :=
  match dispatch line with
  | .nothing => .ok (.of v)
  | .call fn a => v.command m a fn
  | .notFound printed => .ok (.of (v.puts printed))

end Volume

/-! ### The kernel does the same -/

/-- The result is what is seen. -/
structure CmdResult.Meets (r : CmdResult) (w : Seen) : Prop where
  shows : r.kernel.Shows w.volume
  cleaned : r.cleaned = w.cleaned
  stop : r.stop = w.stop

section Commands

variable {m : Machine} {k : Kernel} {v : Volume} {a : Option CString} {w : Seen}

theorem Kernel.Shows.meets (h : k.Shows v) : (CmdResult.of k).Meets (.of v) := ⟨h, rfl, rfl⟩

/-- The argument of a command, as bytes. -/
theorem map_given (a : Option CString) :
    (a.map CString.bytes).filter (· ≠ []) = (given a).map CString.bytes := by
  cases a with
  | none => rfl
  | some s =>
      rw [given, Option.map_some, Option.filter_some, Option.filter_some]
      split_ifs <;> rfl

theorem Kernel.Shows.withName (h : k.Shows v) {usage : String}
    {call : Kernel → CString → Except Fault Result}
    {spec : Volume → List UInt8 → Option Reply × Volume}
    (hcall : ∀ s, ∃ r, call k s = .ok r ∧ r.Answers (spec v s.bytes)) (a : Option CString) :
    ∃ k', withArgument usage call k a = .ok k' ∧
      k'.Shows (v.withName usage spec (a.map CString.bytes)) := by
  rw [withArgument, Volume.withName, map_given]
  cases given a with
  | none => exact ⟨_, rfl, h.puts _⟩
  | some s =>
      obtain ⟨r, hr, hanswers⟩ := hcall s
      dsimp only [Option.map_some]
      exact ⟨r.kernel, by rw [hr, map_ok], hanswers.shows⟩

/-- A command that returns shows what it leaves of the volume. -/
theorem meets_of {x : Except Fault Kernel} (h : ∃ k', x = .ok k' ∧ k'.Shows v) :
    ∃ r, CmdResult.of <$> x = .ok r ∧ r.Meets (.of v) := by
  obtain ⟨k', rfl, hk'⟩ := h
  exact ⟨_, rfl, hk', rfl, rfl⟩

theorem Kernel.Shows.invariant (h : k.Shows v) : Invariant k := by
  obtain ⟨d, hd, -⟩ := h.cwd
  exact ⟨h.live.sound, ⟨d, hd⟩, h.closed, h.saved.sound⟩

/-- What can be read is in a file of the volume. -/
theorem Kernel.Shows.file_cases (h : k.Shows v) (name : CString) :
    (v.file name.bytes = none ∧ ∀ size offset, vfsReadAt k name size offset = .ok ⟨-1, none, k⟩) ∨
      ∃ idx, v.file name.bytes = some (contents (k.inodeArray idx)) ∧ Resolves k name idx := by
  obtain ⟨d, hd, hp⟩ := h.cwd
  have hsound := h.live.sound
  rw [Volume.file]
  rcases h.find_cases hd hp name.bytes with ⟨hfind, hl⟩ | ⟨p, idx, hfind, hwalk, hl⟩
  · refine Or.inl ⟨by rw [hfind]; rfl, fun size offset => ?_⟩
    rw [vfsReadAt, hd.find hsound, hl, ok_bind]
  rw [hfind, Option.bind_some]
  rcases h.view_of_walk hwalk with ⟨hdir, names, hview⟩ | ⟨hfile, hview⟩
  · refine Or.inl ⟨by rw [hview], fun size offset => ?_⟩
    simp only [vfsReadAt, hd.find hsound, hl, ok_bind, if_pos hdir]
  · refine Or.inr ⟨idx, by rw [hview], (hd.find hsound name).trans (congrArg _ hl), hfile,
      (hsound.file idx hfile).2, findFreeFd_of_allClosed h.closed⟩

/-- Reading leaves the volume as it is. -/
theorem Volume.readAt_snd (v : Volume) (name : List UInt8) (size offset : UInt32) :
    (v.readAt name size offset).2 = v := by
  rw [Volume.readAt]
  cases v.find name with
  | none => rfl
  | some p =>
      dsimp only
      cases v.live.view p with
      | none => rfl
      | some x =>
          cases x with
          | node names => rfl
          | leaf bytes =>
              dsimp only
              split_ifs <;> rfl

/-- And so does reading an object. -/
theorem Kernel.Shows.readObject (h : k.Shows v) {path : CString} {size offset : UInt32} {r : Result}
    (hr : readObject k path size offset = .ok r) : r.kernel.Shows v := by
  obtain ⟨r', hr', hanswers⟩ := h.readAt path size offset
  have hshows := hanswers.shows
  rw [Volume.readAt_snd] at hshows
  rw [Anaga.readObject, hr', ok_bind] at hr
  cases hc : r'.copy with
  | none =>
      rw [hc] at hr
      obtain rfl := Except.ok.inj hr
      exact hshows
  | some c =>
      rw [hc] at hr
      dsimp only at hr
      split_ifs at hr
      obtain rfl := Except.ok.inj hr
      exact hshows

/-- **What is no program is not run.** -/
theorem Kernel.Shows.runFile (h : k.Shows v) (area : Area) (path : CString)
    (hw : v.runFile path.bytes = .ok w) :
    ∃ r, elfLoad area k path = .ok r ∧ r.ret ≠ 0 ∧ (CmdResult.of r.kernel).Meets w := by
  have hfail : ∀ {r : Result} {w : Seen},
      Anaga.readObject k path sizeofEhdr 0 = .ok r → UInt32.ofInt r.ret ≠ sizeofEhdr →
      Except.ok (ε := Unsaid) (.of (v.puts (utf8 "ELF: Failed to read header\n"))) = .ok w →
      ∃ r, elfLoad area k path = .ok r ∧ r.ret ≠ 0 ∧ (CmdResult.of r.kernel).Meets w := by
    intro r w hr hret hw
    obtain rfl := Except.ok.inj hw
    rw [elfLoad, hr, ok_bind]
    exact ⟨_, if_pos hret, show (-1 : ℤ) ≠ 0 by decide, ((h.readObject hr).puts _).meets⟩
  rw [Volume.runFile] at hw
  rcases h.file_cases path with ⟨hfile, hread⟩ | ⟨idx, hfile, hres⟩
  · rw [hfile] at hw
    refine hfail (r := ⟨-1, none, k⟩) ?_ (show UInt32.ofInt (-1) ≠ sizeofEhdr by decide) hw
    rw [Anaga.readObject, hread, ok_bind]
  rw [hfile] at hw
  dsimp only at hw
  rw [contents_length hres.size_le] at hw
  split_ifs at hw with hshort hmagic
  · have hlt : (k.inodeArray idx).size < sizeofEhdr := UInt32.lt_iff_toNat_lt.2 hshort
    obtain ⟨r, hr⟩ := hres.readObject_short hlt
    exact hfail hr (hres.readObject_not_ok (not_le.2 hshort) hr) hw
  · have hle : ((0 : UInt32) + sizeofEhdr).toNat ≤ (k.inodeArray idx).size.toNat := not_lt.1 hshort
    obtain rfl := Except.ok.inj hw
    obtain ⟨r, hr, hret, -, hbuf⟩ := hres.readObject_ok (by decide) hle
    have hheader : (Elf32Ehdr.ofBytes fun j => r.buffer.getD j 0) =
        ehdrOf (contents (k.inodeArray idx)) :=
      (Elf32Ehdr.ofBytes_congr hbuf).trans (ehdrAt_eq hres.size_le hle)
    rw [elfLoad, hr, ok_bind, hret, ofInt_asInt, if_neg (not_not.2 rfl), hheader]
    exact ⟨_, if_pos hmagic, show (-1 : ℤ) ≠ 0 by decide, ((h.readObject hr).puts _).meets⟩

/-- **Every command does what it does to the volume.** -/
theorem Kernel.Shows.command (h : k.Shows v) (a : Option CString) (fn : CmdFn)
    (hw : v.command m (a.map CString.bytes) fn = .ok w) :
    ∃ r, fn.exec m k a = .ok r ∧ r.Meets w := by
  cases fn with
  | help =>
      obtain rfl := Except.ok.inj hw
      exact meets_of ⟨_, rfl, h.puts _⟩
  | ls =>
      obtain rfl := Except.ok.inj hw
      obtain ⟨r, hr, hanswers⟩ := h.ls
      exact meets_of ⟨r.kernel, by rw [cmdLs, hr, map_ok], hanswers.shows⟩
  | pwd =>
      obtain rfl := Except.ok.inj hw
      obtain ⟨r, hr, hanswers⟩ := h.pwd
      exact meets_of ⟨_, by rw [cmdPwd, hr, map_ok], hanswers.shows.puts _⟩
  | cd =>
      obtain rfl := Except.ok.inj hw
      obtain ⟨r, hr, hanswers⟩ := h.cd ((given a).getD slash)
      have hpath : ((a.map CString.bytes).filter (· ≠ [])).getD (utf8 "/") =
          ((given a).getD slash).bytes := by
        rw [map_given]
        cases given a with
        | none => exact (by decide : utf8 "/" = slash.bytes)
        | some s => rfl
      rw [hpath]
      exact meets_of ⟨r.kernel, by rw [cmdCd, hr, map_ok], hanswers.shows⟩
  | cat =>
      obtain rfl := Except.ok.inj hw
      exact meets_of (h.withName h.cat a)
  | mkdir =>
      obtain rfl := Except.ok.inj hw
      exact meets_of (h.withName h.mkdir a)
  | touch =>
      obtain rfl := Except.ok.inj hw
      exact meets_of (h.withName h.touch a)
  | echo =>
      obtain rfl := Except.ok.inj hw
      cases a with
      | none => exact meets_of ⟨_, rfl, h.puts _⟩
      | some s =>
          refine meets_of ⟨k.puts (s.bytes ++ utf8 "\n"), ?_, h.puts _⟩
          rw [cmdEcho, kprint_of_zero_mem s.zero_mem_region, ok_bind, s.cstr_region]
  | clear =>
      obtain rfl := Except.ok.inj hw
      exact ⟨_, rfl, h, rfl, rfl⟩
  | uname =>
      obtain rfl := Except.ok.inj hw
      exact meets_of ⟨_, rfl, h.puts _⟩
  | version =>
      obtain rfl := Except.ok.inj hw
      exact meets_of ⟨_, by rw [cmdVersion, printKernelVersion_eq, ok_bind], h.puts _⟩
  | run =>
      rw [Volume.command, map_given] at hw
      rw [CmdFn.exec, cmdRun]
      cases hgiven : given a with
      | none =>
          rw [hgiven] at hw
          obtain rfl := Except.ok.inj hw
          exact ⟨_, rfl, (h.puts _).meets⟩
      | some path =>
          rw [hgiven] at hw
          obtain ⟨r, hr, hret, hmeets⟩ := h.runFile m.area path hw
          dsimp only
          rw [hr, ok_bind, if_neg hret]
          exact ⟨_, rfl, hmeets⟩
  | poweroff =>
      obtain ⟨⟨printed, writes⟩, hr⟩ := systemShutdown_ok m.hypervisor m.firmware
      rw [Volume.command, hr] at hw
      obtain rfl := Except.ok.inj hw
      exact ⟨_, by rw [CmdFn.exec, cmdPoweroff, hr, ok_bind], h.puts printed, rfl, rfl⟩
  | reboot =>
      obtain rfl := Except.ok.inj hw
      exact ⟨_, rfl, h.puts _, rfl, rfl⟩

/-- **And so does every line.** -/
theorem Kernel.Shows.line (h : k.Shows v) {line : List UInt8} (h0 : 0 ∉ line)
    (hlen : line.length < 2 ^ 31) (hw : v.line m line = .ok w) :
    ∃ r, execLine m k line = .ok r ∧ r.Meets w := by
  rw [Volume.line] at hw
  rw [execLine]
  rcases dispatch_cases line with hd | ⟨fn, hd⟩ | ⟨printed, hd⟩
  · rw [hd] at hw ⊢
    obtain rfl := Except.ok.inj hw
    exact ⟨_, rfl, h.meets⟩
  · obtain ⟨a, hbytes, ha⟩ := pointed_argument h0 hlen
    rw [hd] at hw ⊢
    dsimp only at hw
    rw [← hbytes] at hw
    obtain ⟨r, hr, hmeets⟩ := h.command a fn hw
    refine ⟨r, ?_, hmeets⟩
    simp only [Dispatch.before, Dispatch.exec, ha, ok_bind, hr]
  · rw [hd] at hw ⊢
    obtain rfl := Except.ok.inj hw
    exact ⟨_, rfl, (h.puts printed).meets⟩

end Commands

/-! ### Talks -/

/-- What the user has typed, the files, and the text since the screen was last cleaned. -/
structure Talk where
  shiftState : Bool
  line : List UInt8
  volume : Volume
  text : List UInt8
  stopped : Option Stop

/-- Everything printed is on the screen. -/
def Volume.flushed (v : Volume) : Volume := { v with text := [] }

/-- A scancode. -/
def Talk.step (m : Machine) (t : Talk) (scancode : UInt8) : Except Unsaid Talk :=
  if t.stopped.isSome then .ok t
  else
    let c := (getchar t.shiftState scancode).1
    let shiftState := (getchar t.shiftState scancode).2
    if IsNewline c then
      t.volume.line m t.line >>= fun w =>
      let text := if w.cleaned then [] else t.text ++ [ascii '\n'] ++ w.volume.text
      .ok
        { shiftState := shiftState
          line := []
          volume := w.volume.flushed
          text := if w.stop.isSome then text else text ++ prompt
          stopped := w.stop }
    else
      .ok
        { t with
          shiftState := shiftState
          line := editLine maxCommandLen.toNat t.line c
          text := t.text ++ echo maxCommandLen.toNat t.line c }

/-- The dialogue is what the talk is about. -/
structure Dialogue.Tells (a : Dialogue) (t : Talk) : Prop where
  shiftState : a.shiftState = t.shiftState
  line : a.line = t.line
  shows : a.kernel.Shows t.volume
  text : a.text = t.text
  stopped : a.stopped = t.stopped
  noNul : 0 ∉ t.line
  length_lt : t.line.length < maxCommandLen.toNat

/-- **The machine shows the talk**: the array holds the line, the tables hold the files, and the
screen displays the text. -/
structure Session.Tells (s : Session) (t : Talk) : Prop where
  shiftState : s.shiftState = t.shiftState
  line : s.line.Holds maxCommandLen.toNat t.line
  shows : s.kernel.Shows t.volume
  displays : s.terminal.Displays t.text
  stopped : s.stopped = t.stopped

section Talk

variable {m : Machine} {a : Dialogue} {t t' : Talk}

theorem Kernel.Shows.flushed {k : Kernel} {v : Volume} (h : k.Shows v) :
    k.flushed.Shows v.flushed := by
  obtain ⟨d, hd, hp⟩ := h.cwd
  exact ⟨h.live, h.saved, ⟨d, ⟨hd.val, hd.dir⟩, hp⟩, h.closed, rfl⟩

/-- **The dialogue with the kernel goes on like the talk.** -/
theorem Dialogue.step_tells (h : a.Tells t) {scancode : UInt8}
    (hstep : t.step m scancode = .ok t') :
    ∃ a', a.step m scancode = .ok a' ∧ a'.Tells t' := by
  rw [Talk.step] at hstep
  rw [Dialogue.step, h.stopped, h.shiftState, h.line]
  by_cases hstopped : t.stopped.isSome
  · rw [if_pos hstopped] at hstep ⊢
    obtain rfl := Except.ok.inj hstep
    exact ⟨a, rfl, h⟩
  rw [if_neg hstopped] at hstep ⊢
  dsimp only at hstep ⊢
  by_cases hc : IsNewline (getchar t.shiftState scancode).1
  · rw [if_pos hc] at hstep ⊢
    obtain ⟨w, hw, hstep⟩ := bind_eq_ok.1 hstep
    obtain rfl := Except.ok.inj hstep
    obtain ⟨r, hr, hmeets⟩ := h.shows.line h.noNul (h.length_lt.trans (by decide)) hw
    rw [hr, ok_bind]
    refine ⟨_, rfl, rfl, rfl, hmeets.shows.flushed, ?_, hmeets.stop, List.not_mem_nil,
      maxCommandLen_pos⟩
    dsimp only
    rw [hmeets.cleaned, hmeets.stop, hmeets.shows.text, h.text]
  · rw [if_neg hc] at hstep ⊢
    obtain rfl := Except.ok.inj hstep
    refine ⟨_, rfl, rfl, rfl, h.shows, ?_, rfl, noNul_editLine h.noNul _,
      length_editLine_lt h.length_lt _⟩
    dsimp only
    rw [h.text]

/-- **And so it does in every run.** -/
theorem Dialogue.run_tells (h : a.Tells t) {scancodes : List UInt8}
    (hrun : run (Talk.step m) t scancodes = .ok t') :
    ∃ a', run (Dialogue.step m) a scancodes = .ok a' ∧ a'.Tells t' := by
  have hfollows : ∀ a t scancode t', Dialogue.Tells a t → Talk.step m t scancode = .ok t' →
      ∃ a', Dialogue.step m a scancode = .ok a' ∧ Dialogue.Tells a' t' :=
    fun _ _ _ _ hR hstep => Dialogue.step_tells hR hstep
  exact run_simulates hfollows h hrun

theorem Session.Plays.tells {s : Session} (hs : s.Plays a) (ha : a.Tells t) : s.Tells t where
  shiftState := hs.shiftState.trans ha.shiftState
  line := ha.line ▸ hs.line
  shows := hs.kernel ▸ ha.shows
  displays := ha.text ▸ hs.displays
  stopped := hs.stopped.trans ha.stopped

/-- **What the user sees is the talk.**  From the first start on a formatted disk on, as long as no
program is run, whatever is typed: the loop of the kernel does not fail, its screen displays the
text of the talk, and its tables hold the files. -/
theorem kmain_tells (m : Machine) (c : ConfigSpace) (l : Locals) {disk : Disk}
    (hdisk : Formatted disk) (memory : Memory) (t : Terminal) {cmd : List UInt8}
    (hcmd : maxCommandLen.toNat ≤ cmd.length) (scancodes : List UInt8) :
    ∃ printed, kinit c l disk memory = .ok (printed, boot disk memory) ∧
      ∀ talk, run (Talk.step m)
          ⟨false, [], .start (topFiles (diskTable disk)), printed ++ banner ++ prompt, none⟩
          scancodes = .ok talk →
        ∃ s, kmain m c l disk memory t cmd scancodes = .ok s ∧ s.Tells talk := by
  obtain ⟨s₀, printed, hprinted, hstart, hplays⟩ :=
    kmainStart_plays (c := c) (l := l) disk memory t hcmd
  refine ⟨printed, hprinted, fun talk htalk => ?_⟩
  have htells : Dialogue.Tells
      ⟨false, [], boot disk memory, printed ++ banner ++ prompt, none⟩
      ⟨false, [], .start (topFiles (diskTable disk)), printed ++ banner ++ prompt, none⟩ :=
    ⟨rfl, rfl, Kernel.Shows.boot hdisk memory, rfl, rfl, List.not_mem_nil, maxCommandLen_pos⟩
  obtain ⟨a, ha, htells⟩ := Dialogue.run_tells htells htalk
  obtain ⟨s, hs, hplays⟩ := Session.run_plays hplays ha
  exact ⟨s, by rw [kmain, hstart, ok_bind, hs], hplays.tells htells⟩

/-- `ls` is typed after a start on a disk of zeros. -/
theorem kmain_tells_ls :
    ∃ printed s, kmain ⟨fun _ => true, true, fun _ => 0⟩ (cardSpace 0xFEBC0004 1) stackLocals
        (fun _ _ => 0) ⟨0, fun _ => 0⟩ ⟨fun _ => 0, 5, 7⟩ (List.replicate 128 255)
        [0x26, 0x1F, 0x1C] = .ok s ∧
      s.terminal.Displays (printed ++ banner ++ utf8 "> ls\n(empty)\n> ") := by
  have hcmd : maxCommandLen.toNat ≤ (List.replicate 128 (255 : UInt8)).length := by
    rw [List.length_replicate]
    decide
  obtain ⟨printed, -, htells⟩ :=
    kmain_tells ⟨fun _ => true, true, fun _ => 0⟩ (cardSpace 0xFEBC0004 1) stackLocals
      (Formatted.zero fun _ _ => rfl) ⟨0, fun _ => 0⟩ ⟨fun _ => 0, 5, 7⟩ hcmd [0x26, 0x1F, 0x1C]
  rw [diskTable_zero, topFiles_zero] at htells
  obtain ⟨s, hs, htells⟩ := htells _ rfl
  refine ⟨printed, s, hs, ?_⟩
  have hdisplays := htells.displays
  have htext : utf8 "> ls\n(empty)\n> " =
      prompt ++ [ascii 'l'] ++ [ascii 's'] ++ [ascii '\n'] ++ utf8 "(empty)\n" ++ prompt := by
    decide
  rw [htext]
  simp only [← List.append_assoc]
  exact hdisplays

end Talk

end Anaga
