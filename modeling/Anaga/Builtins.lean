/-
**The table of commands: `drivers/command/command.c`.**

All functions of the table, with the string that `handle_command` passes to them.  Three of them do
not return: `system_shutdown` and `system_reboot` end in a halt, and `run` leaves the kernel for the
program that `elf_load` has loaded.  A program that can be loaded may be written anywhere in memory,
so what is known of the kernel afterwards depends on the files that are there.

Main definitions:

* `Anaga.Machine` — what the commands find besides the file system;
* `Anaga.CmdResult`, `Anaga.Stop` — what a command leaves, and why it does not return;
* `Anaga.CmdFn.exec`, `Anaga.Dispatch.exec` — the functions of the table, and what is done with a
  line;
* `Anaga.Benign` — a file that does no harm when it is run.

Main results:

* `Anaga.elfLoad_quiet` — whatever `elf_load` returns, it leaves the file system alone;
* `Anaga.elfLoad_total` — **it returns, if the file does no harm**;
* `Anaga.CmdFn.exec_total` — **so no command of the table makes the kernel fail**.
-/

import Anaga.Elf
import Anaga.Path
import Anaga.Shell
import Anaga.SleepType

set_option relaxedAutoImplicit false
set_option autoImplicit false

namespace Anaga

open Transition

/-! ### The functions of the table -/

/-- What the commands find besides the file system: the memory that programs can be loaded to,
whether the processor says that there is a hypervisor, and the memory with the tables of the
firmware. -/
structure Machine where
  area : Area
  hypervisor : Bool
  firmware : Ram

/-- Why a command does not return: the machine is off or has not been turned off, after these words
were written to ports; it is about to be reset; or the processor is in a program. -/
inductive Stop
  | poweroff (writes : List (UInt16 × UInt16))
  | reboot
  | process (entry : UInt32)

/-- What a command leaves: the state, whether the screen has been cleaned, and why it does not
return, if it does not. -/
structure CmdResult where
  kernel : Kernel
  cleaned : Bool
  stop : Option Stop

/-- A command that returns, and leaves the screen to `kputc`. -/
def CmdResult.of (k : Kernel) : CmdResult := ⟨k, false, none⟩

/-- The descriptions in `cmds`. -/
def CmdFn.desc : CmdFn → String
  | .help => "Show help"
  | .ls => "List files"
  | .pwd => "Print directory"
  | .cd => "Change directory"
  | .cat => "Show file"
  | .mkdir => "Create directory"
  | .touch => "Create file"
  | .echo => "Echo text"
  | .clear => "Clear screen"
  | .uname => "System info"
  | .version => "Show version"
  | .run => "Run ELF binary"
  | .poweroff => "Shutdown"
  | .reboot => "Reboot"

/-- `cmd_help`. -/
def cmdHelp (k : Kernel) (_ : Option CString) : Except Fault Kernel :=
  .ok (k.puts (cmds.flatMap fun cmd =>
    utf8 "  " ++ cmd.1 ++ List.replicate (10 - cmd.1.length) (ascii ' ') ++ utf8 "- " ++
      utf8 cmd.2.desc ++ utf8 "\n"))

/-- `cmd_echo`. -/
def cmdEcho (k : Kernel) (a : Option CString) : Except Fault Kernel :=
  match a with
  | none => .ok (k.puts (utf8 "\n"))
  | some s => kprint s.region >>= fun printed => .ok (k.puts (printed ++ utf8 "\n"))

/-- `cmd_clear`. -/
def cmdClear (k : Kernel) (_ : Option CString) : CmdResult := ⟨k, true, none⟩

/-- `cmd_uname`. -/
def cmdUname (k : Kernel) (_ : Option CString) : Except Fault Kernel :=
  .ok (k.puts (utf8 "Anaga x86 i686\n"))

/-- `ANAGA_VERSION_FULL_HEX`. -/
def anagaVersionFullHex : UInt32 := 0x00000001

/-- `print_kernel_version`: the characters it prints. -/
def printKernelVersion : Except Fault (List UInt8) :=
  kprintNum ((anagaVersionFullHex >>> 24) &&& 0xFF) >>= fun major =>
  kprintNum ((anagaVersionFullHex >>> 16) &&& 0xFF) >>= fun minor =>
  kprintNum ((anagaVersionFullHex >>> 8) &&& 0xFF) >>= fun patch =>
  kprintNum (anagaVersionFullHex &&& 0xFF) >>= fun build =>
  .ok (utf8 "Anaga Kernel v" ++ major ++ utf8 "." ++ minor ++ utf8 "." ++ patch ++ utf8 "." ++
    build ++ utf8 "\n")

/-- `cmd_version`. -/
def cmdVersion (k : Kernel) (_ : Option CString) : Except Fault Kernel :=
  printKernelVersion >>= fun printed => .ok (k.puts printed)

/-- `cmd_run`.  `process_exec` leaves the kernel for the program. -/
def cmdRun (m : Machine) (k : Kernel) (a : Option CString) : Except Fault CmdResult :=
  match given a with
  | none => .ok (.of (k.puts (utf8 "Usage: run <path>\n")))
  | some path =>
      elfLoad m.area k path >>= fun r =>
      if r.ret = 0 then
        kprintf (utf8 "Executing ELF at 0x%x...\n" ++ [0]) [.word (r.entryPoint.getD 0)] >>=
          fun printed =>
        .ok ⟨r.kernel.puts printed, false, some (.process (r.entryPoint.getD 0))⟩
      else .ok (.of r.kernel)

/-- `cmd_poweroff`. -/
def cmdPoweroff (m : Machine) (k : Kernel) (_ : Option CString) : Except Fault CmdResult :=
  systemShutdown m.hypervisor m.firmware >>= fun (printed, writes) =>
  .ok ⟨k.puts printed, false, some (.poweroff writes)⟩

/-- `cmd_reboot`.  What `system_reboot` does with the ports of the keyboard is left out. -/
def cmdReboot (k : Kernel) (_ : Option CString) : CmdResult :=
  ⟨k.puts (utf8 "Rebooting...\n"), false, some .reboot⟩

/-- The functions of the table. -/
def CmdFn.exec (m : Machine) (k : Kernel) (a : Option CString) : CmdFn → Except Fault CmdResult
  | .help => .of <$> cmdHelp k a
  | .ls => .of <$> cmdLs k a
  | .pwd => .of <$> cmdPwd k a
  | .cd => .of <$> cmdCd k a
  | .cat => .of <$> cmdCat k a
  | .mkdir => .of <$> cmdMkdir k a
  | .touch => .of <$> cmdTouch k a
  | .echo => .of <$> cmdEcho k a
  | .clear => .ok (cmdClear k a)
  | .uname => .of <$> cmdUname k a
  | .version => .of <$> cmdVersion k a
  | .run => cmdRun m k a
  | .poweroff => cmdPoweroff m k a
  | .reboot => .ok (cmdReboot k a)

/-- The string that a pointer points to: what is in front of the first NUL, which must be in the
array. -/
def pointed : Option (List UInt8) → Except Fault (Option CString)
  | none => .ok none
  | some s =>
      if h : 0 ∈ s ∧ (cstr s).length < 2 ^ 31 then .ok (some ⟨cstr s, noNul_cstr s, h.2⟩)
      else .error .string

/-- What `handle_command` does with a line. -/
def Dispatch.exec (m : Machine) (k : Kernel) : Dispatch → Except Fault CmdResult
  | .nothing => .ok (.of k)
  | .call fn args => pointed args >>= fun a => fn.exec m k a
  | .notFound printed => .ok (.of (k.puts printed))

/-! ### What the loader leaves alone -/

/-- The file system is as it was: the state differs in the bytes of memory, what was printed, and
the positions of the descriptors. -/
def Quiet (k k' : Kernel) : Prop := ∃ mem, Leaves k mem k'

namespace Quiet

variable {k k₁ k₂ : Kernel}

theorem refl (k : Kernel) : Quiet k k := ⟨_, Leaves.withBytes k k.memory.byte⟩

theorem puts (k : Kernel) (s : List UInt8) : Quiet k (k.puts s) := ⟨_, Leaves.puts k s⟩

theorem trans (h : Quiet k k₁) (h' : Quiet k₁ k₂) : Quiet k k₂ := by
  obtain ⟨_, h⟩ := h
  obtain ⟨mem, h'⟩ := h'
  exact ⟨mem, h.trans h'⟩

theorem tableAddr (h : Quiet k k₁) : k₁.memory.tableAddr = k.memory.tableAddr := by
  obtain ⟨_, h⟩ := h
  rw [h.memory]

theorem anchored (h : Quiet k k₁) (hk : Anchored k) : Anchored k₁ := by
  obtain ⟨_, h⟩ := h
  obtain ⟨hinv, d, ns, hd, hreach⟩ := hk
  refine ⟨hinv.keeps ⟨h.inodeArray, h.disk, h.currentDir, fun hc fd => ?_⟩, d, ns, ?_, ?_⟩
  · rw [h.inUse, hc fd]
  · exact ⟨h.currentDir.trans hd.val, h.inodeArray ▸ hd.dir⟩
  · rw [h.inodeArray]
    exact hreach

end Quiet

section Quiet

variable {k k' : Kernel} {path : CString} {area : Area}

theorem vfsReadAt_quiet {size offset : UInt32} {r : Result}
    (hr : vfsReadAt k path size offset = .ok r) : Quiet k r.kernel := by
  obtain ⟨found, hfind, hfound⟩ := bind_eq_ok.1 hr
  cases found with
  | none =>
      obtain rfl := Except.ok.inj hfound
      exact Quiet.refl k
  | some idx =>
      dsimp only at hfound
      split_ifs at hfound with hdir
      · obtain rfl := Except.ok.inj hfound
        exact Quiet.refl k
      · rcases fileOpen_cases k.inodeArray idx k.fdTable with hnone | ⟨hfile, fd, hfd⟩
        · rw [hnone] at hfound
          obtain rfl := Except.ok.inj hfound
          exact Quiet.refl k
        · rw [vfsReadAt_of_find hfind hfile hfd] at hr
          obtain rfl := Except.ok.inj hr
          exact ⟨_, Leaves.usedFd hfd idx _⟩

theorem storeLoop_quiet {dest : UInt32} {byte : Kernel → ℕ → UInt8} {n : ℕ}
    (h : storeLoop area dest byte n k = .ok k') : Quiet k k' := by
  induction n generalizing k' with
  | zero =>
      obtain rfl := Except.ok.inj h
      exact Quiet.refl k
  | succ n ih =>
      obtain ⟨k₁, hk₁, hstore⟩ := bind_eq_ok.1 h
      rw [storeByte] at hstore
      split_ifs at hstore with hw
      obtain rfl := Except.ok.inj hstore
      exact (ih hk₁).trans ⟨_, Leaves.withBytes k₁ _⟩

theorem readObject_quiet {size offset : UInt32} {r : Result}
    (hr : readObject k path size offset = .ok r) : Quiet k r.kernel := by
  obtain ⟨r', hr', hcopy⟩ := bind_eq_ok.1 hr
  have hquiet := vfsReadAt_quiet hr'
  cases hc : r'.copy with
  | none =>
      rw [hc] at hcopy
      obtain rfl := Except.ok.inj hcopy
      exact hquiet
  | some c =>
      rw [hc] at hcopy
      dsimp only at hcopy
      split_ifs at hcopy
      obtain rfl := Except.ok.inj hcopy
      exact hquiet

theorem readMemory_quiet {dest size offset : UInt32} {read : ℤ}
    (hr : readMemory area k path dest size offset = .ok (read, k')) : Quiet k k' := by
  obtain ⟨r, hr, hcopy⟩ := bind_eq_ok.1 hr
  have hquiet := vfsReadAt_quiet hr
  cases hc : r.copy with
  | none =>
      rw [hc] at hcopy
      obtain rfl : r.kernel = k' := congrArg Prod.snd (Except.ok.inj hcopy)
      exact hquiet
  | some c =>
      rw [hc] at hcopy
      obtain ⟨k₁, hk₁, hcopy⟩ := bind_eq_ok.1 hcopy
      obtain rfl : k₁ = k' := congrArg Prod.snd (Except.ok.inj hcopy)
      exact hquiet.trans (storeLoop_quiet hk₁)

theorem loadSegment_quiet {phdr : Elf32Phdr} {ret : ℤ}
    (h : loadSegment area k path phdr = .ok (ret, k')) : Quiet k k' := by
  obtain ⟨printed, -, h⟩ := bind_eq_ok.1 h
  obtain ⟨⟨read, k₁⟩, hread, h⟩ := bind_eq_ok.1 h
  have hquiet := (Quiet.puts k printed).trans (readMemory_quiet hread)
  dsimp only at h
  split_ifs at h
  · obtain ⟨printed', -, h⟩ := bind_eq_ok.1 h
    obtain rfl : k₁.puts printed' = k' := congrArg Prod.snd (Except.ok.inj h)
    exact hquiet.trans (Quiet.puts k₁ printed')
  · obtain ⟨k₂, hk₂, h⟩ := bind_eq_ok.1 h
    obtain rfl : k₂ = k' := congrArg Prod.snd (Except.ok.inj h)
    exact hquiet.trans (storeLoop_quiet hk₂)
  · obtain rfl : k₁ = k' := congrArg Prod.snd (Except.ok.inj h)
    exact hquiet

theorem loadPhdr_quiet {header : Elf32Ehdr} {i : ℕ} {ret : ℤ}
    (h : loadPhdr area path header i k = .ok (ret, k')) : Quiet k k' := by
  obtain ⟨r, hr, h⟩ := bind_eq_ok.1 h
  have hquiet := readObject_quiet hr
  dsimp only at h
  split_ifs at h
  · obtain rfl : r.kernel.puts _ = k' := congrArg Prod.snd (Except.ok.inj h)
    exact hquiet.trans (Quiet.puts r.kernel _)
  · exact hquiet.trans (loadSegment_quiet h)
  · obtain rfl : r.kernel = k' := congrArg Prod.snd (Except.ok.inj h)
    exact hquiet

theorem loadLoop_quiet {header : Elf32Ehdr} {n i : ℕ} {ret : ℤ}
    (h : loadLoop area path header n i k = .ok (ret, k')) : Quiet k k' := by
  induction n generalizing i k with
  | zero =>
      obtain rfl : k = k' := congrArg Prod.snd (Except.ok.inj h)
      exact Quiet.refl k
  | succ n ih =>
      obtain ⟨⟨ret', k₁⟩, hphdr, h⟩ := bind_eq_ok.1 h
      have hquiet := loadPhdr_quiet hphdr
      dsimp only at h
      split_ifs at h
      · exact hquiet.trans (ih h)
      · obtain rfl : k₁ = k' := congrArg Prod.snd (Except.ok.inj h)
        exact hquiet

/-- **Whatever `elf_load` returns, the file system is as it was.** -/
theorem elfLoad_quiet {r : ElfResult} (h : elfLoad area k path = .ok r) : Quiet k r.kernel := by
  obtain ⟨o, ho, h⟩ := bind_eq_ok.1 h
  have hquiet := readObject_quiet ho
  dsimp only at h
  split_ifs at h
  · obtain rfl := Except.ok.inj h
    exact hquiet.trans (Quiet.puts o.kernel _)
  · obtain ⟨⟨ret, k₁⟩, hloop, h⟩ := bind_eq_ok.1 h
    obtain rfl := Except.ok.inj h
    exact hquiet.trans (loadLoop_quiet hloop)
  · obtain rfl := Except.ok.inj h
    exact hquiet.trans (Quiet.puts o.kernel _)

end Quiet

/-! ### Files that do no harm -/

/-- Running the file does no harm: if it has an ELF header, every program header is accepted, and
the memory of its segment can be written. -/
def Benign (area : Area) (m : Memory) (n : Inode) : Prop :=
  sizeofEhdr.toNat ≤ n.size.toNat → (ehdrAt n).HasMagic → ∀ i < (ehdrAt n).ePhnum.toNat,
    PhdrOk n (ehdrAt n) i ∧ ((phdrAt n (ehdrAt n) i).pType = ptLoad →
      TargetWritable area m (phdrAt n (ehdrAt n) i))

/-- The state of a shell that may be typed into: the current directory can be reached, and no file
does harm. -/
structure Ready (area : Area) (k : Kernel) : Prop where
  anchored : Anchored k
  benign : ∀ i, (k.inodeArray i).type = inodeFile → Benign area k.memory (k.inodeArray i)

section Ready

variable {area : Area} {k k' : Kernel}

theorem Benign.congr {m m' : Memory} {n : Inode} (hm : m'.tableAddr = m.tableAddr)
    (h : Benign area m n) : Benign area m' n := by
  intro hle hmagic i hi
  obtain ⟨hok, htarget⟩ := h hle hmagic i hi
  refine ⟨hok, fun htype j hj => ?_⟩
  rw [Writable, hm]
  exact htarget htype j hj

theorem Ready.quiet (h : Ready area k) (hq : Quiet k k') : Ready area k' := by
  refine ⟨hq.anchored h.anchored, fun i hi => ?_⟩
  obtain ⟨_, hleaves⟩ := id hq
  rw [hleaves.inodeArray] at hi ⊢
  exact (h.benign i hi).congr hq.tableAddr

theorem Ready.puts (h : Ready area k) (s : List UInt8) : Ready area (k.puts s) :=
  h.quiet (Quiet.puts k s)

/-- A path resolves to a file, or nothing is read. -/
theorem resolves_or_fails (hk : Invariant k) (path : CString) (size offset : UInt32) :
    vfsReadAt k path size offset = .ok ⟨-1, none, k⟩ ∨ ∃ idx, Resolves k path idx := by
  obtain ⟨d, hd⟩ := hk.cwd
  rcases find_cases hk.sound hd hk.closed path with
    hf | ⟨idx, hf, hdir⟩ | ⟨idx, hf, hfree⟩ | ⟨idx, fd, hf, hfile, hfd⟩
  · left
    rw [vfsReadAt, hf, ok_bind]
  · left
    simp only [vfsReadAt, hf, ok_bind, if_pos hdir]
  · left
    simp only [vfsReadAt, hf, ok_bind, hfree, if_neg inodeDir_ne_free.symm, fileOpen_of_free hfree]
  · exact Or.inr ⟨idx, hf, hfile, (hk.sound.file idx hfile).2, fd, hfd⟩

/-- A file that is shorter than a header is no program. -/
theorem Resolves.readObject_short {path : CString} {idx : Fin maxInodes} (h : Resolves k path idx)
    {size : UInt32} (hsize : (k.inodeArray idx).size < size) :
    ∃ r, readObject k path size 0 = .ok r := by
  obtain ⟨k', -, hread⟩ := h.readAt size 0
  have hlen : (fileCopy k.inodeArray idx 0 size).len ≤ size := by
    rw [fileCopy, UInt32.zero_add, if_pos hsize, UInt32.sub_zero]
    exact UInt32.le_of_lt hsize
  rw [readObject, hread, ok_bind]
  exact ⟨_, if_pos hlen⟩

/-- **`elf_load` returns, whatever the path is, if no file does harm.** -/
theorem elfLoad_total (hk : Invariant k)
    (hb : ∀ i, (k.inodeArray i).type = inodeFile → Benign area k.memory (k.inodeArray i))
    (path : CString) : ∃ r, elfLoad area k path = .ok r := by
  have hfail : ∀ {r : Result}, readObject k path sizeofEhdr 0 = .ok r →
      UInt32.ofInt r.ret ≠ sizeofEhdr → ∃ r, elfLoad area k path = .ok r := by
    intro r hr hret
    rw [elfLoad, hr, ok_bind]
    exact ⟨_, if_pos hret⟩
  rcases resolves_or_fails hk path sizeofEhdr 0 with hread | ⟨idx, h⟩
  · refine hfail (r := ⟨-1, none, k⟩) ?_ (show UInt32.ofInt (-1) ≠ sizeofEhdr by decide)
    rw [readObject, hread, ok_bind]
  by_cases hle : ((0 : UInt32) + sizeofEhdr).toNat ≤ (k.inodeArray idx).size.toNat
  · obtain ⟨r, hr, hret, hleaves, hbuf⟩ := h.readObject_ok (by decide) hle
    have hheader : (Elf32Ehdr.ofBytes fun j => r.buffer.getD j 0) = ehdrAt (k.inodeArray idx) :=
      Elf32Ehdr.ofBytes_congr hbuf
    rw [elfLoad, hr, ok_bind, hret, ofInt_asInt, if_neg (not_not.2 rfl), hheader]
    dsimp only
    split_ifs with hmagic
    · have hphdrs := hb idx h.file hle hmagic
      have hloop : ∃ k', loadLoop area path (ehdrAt (k.inodeArray idx))
          (ehdrAt (k.inodeArray idx)).ePhnum.toNat 0 r.kernel = .ok (0, k') := by
        refine (loadLoop_ok_iff (hleaves.undisturbed.resolves h) fun j hj _ ht a ha => ?_).2
          fun j hj => ?_
        · rw [hleaves.inodeArray, Nat.zero_add] at ht ha ⊢
          exact hleaves.undisturbed.writable.2 ((hphdrs j hj).2 ht a ha)
        · rw [hleaves.inodeArray, Nat.zero_add]
          exact (hphdrs j hj).1
      obtain ⟨k', hk'⟩ := hloop
      exact ⟨_, by rw [hk', ok_bind]⟩
    · exact ⟨_, rfl⟩
  · have hlt : (k.inodeArray idx).size < sizeofEhdr := UInt32.lt_iff_toNat_lt.2 (not_le.1 hle)
    obtain ⟨r, hr⟩ := h.readObject_short hlt
    exact hfail hr (h.readObject_not_ok hle hr)

/-! ### Commands -/

theorem vfsLs_quiet (hk : Invariant k) : ∃ r, vfsLs k = .ok r ∧ Quiet k r.kernel := by
  obtain ⟨d, hd⟩ := hk.cwd
  obtain ⟨printed, hls⟩ := vfsLs_eq hk.sound hd
  exact ⟨_, hls, Quiet.puts k printed⟩

theorem vfsPwd_quiet (hk : Invariant k) : ∃ r, vfsPwd k = .ok r ∧ Quiet k r.kernel := by
  obtain ⟨d, hd⟩ := hk.cwd
  obtain ⟨printed, hpwd⟩ := vfsPwd_eq hk.sound hd
  exact ⟨_, hpwd, Quiet.puts k printed⟩

theorem vfsCat_quiet (hk : Invariant k) (name : CString) :
    ∃ r, vfsCat k name = .ok r ∧ Quiet k r.kernel := by
  obtain ⟨d, hd⟩ := hk.cwd
  rcases find_cases hk.sound hd hk.closed name with
    hf | ⟨idx, hf, hdir⟩ | ⟨idx, hf, hfree⟩ | ⟨idx, fd, hf, hfile, hfd⟩
  · refine ⟨k.fail "File not found\n", ?_, Quiet.puts k _⟩
    rw [vfsCat, hf, ok_bind]
  · refine ⟨k.fail "Is a directory\n", ?_, Quiet.puts k _⟩
    simp only [vfsCat, hf, ok_bind, if_pos hdir]
  · refine ⟨k.fail "Cannot open\n", ?_, Quiet.puts k _⟩
    simp only [vfsCat, hf, ok_bind, hfree, if_neg inodeDir_ne_free.symm, fileOpen_of_free hfree]
  · obtain ⟨printed, hcat⟩ := vfsCat_of_find hf hfile hfd
    exact ⟨_, hcat, Quiet.trans ⟨_, Leaves.usedFd hfd idx _⟩ (Quiet.puts _ printed)⟩

/-- A new inode is no file that does harm, and the old files are as they were. -/
theorem Ready.benign_created (h : Ready area k) {d idx : Fin maxInodes} {t : InodeTable}
    {name : CString} {type : UInt32} (hd : (k.inodeArray d).type = inodeDir)
    (hc : created k.inodeArray d name type = some (idx, t)) :
    ∀ i, (t i).type = inodeFile → Benign area k.memory (t i) := by
  have hf := Fresh.of_created hd hc
  intro i hi
  by_cases hii : i = idx
  · intro hle
    rw [hii, hf.new] at hle
    exact absurd hle (show ¬ sizeofEhdr.toNat ≤ (0 : UInt32).toNat by decide)
  · have hid : i ≠ d := by
      rintro rfl
      rw [hf.dir hd] at hi
      exact inodeFile_ne_dir hi.symm
    rw [hf.table, linkInode_of_ne hid hii] at hi ⊢
    exact h.benign i hi

/-- The calls that the commands make. -/
def Op.Typed : Op → Prop
  | .mkdir _ => True
  | .touch _ => True
  | .cd _ => True
  | .ls => True
  | .pwd => True
  | .cat _ => True
  | _ => False

theorem Command.typed (c : Command) : ∀ o ∈ c.call, o.Typed := by
  intro o ho
  cases c with
  | ls a =>
      obtain rfl := Option.some.inj ho
      exact trivial
  | pwd a =>
      obtain rfl := Option.some.inj ho
      exact trivial
  | cd a =>
      obtain rfl := Option.some.inj ho
      exact trivial
  | cat a =>
      obtain ⟨name, -, rfl⟩ := Option.map_eq_some_iff.1 ho
      exact trivial
  | mkdir a =>
      obtain ⟨name, -, rfl⟩ := Option.map_eq_some_iff.1 ho
      exact trivial
  | touch a =>
      obtain ⟨name, -, rfl⟩ := Option.map_eq_some_iff.1 ho
      exact trivial

/-- No such call fails, and every one keeps the shell ready. -/
theorem Ready.exec (h : Ready area k) {o : Op} (ho : o.Typed) :
    ∃ r, o.exec k = .ok r ∧ Ready area r.kernel := by
  have hinv := h.anchored.invariant
  have hreads : (∃ r, o.exec k = .ok r ∧ Quiet k r.kernel) →
      ∃ r, o.exec k = .ok r ∧ Ready area r.kernel := by
    rintro ⟨r, hr, hq⟩
    exact ⟨r, hr, h.quiet hq⟩
  obtain ⟨r, hr, hanchored⟩ := h.anchored.exec o
  obtain ⟨d, hd⟩ := hinv.cwd
  cases outcome_of_exec hinv.sound hd hinv.closed hr with
  | fail msg hnone hwrite => exact ⟨_, hr, h.puts _⟩
  | mkdir hc => exact ⟨_, hr, hanchored, h.benign_created hd.dir hc⟩
  | touch hc => exact ⟨_, hr, hanchored, h.benign_created hd.dir hc⟩
  | write fd hc hlen => exact ho.elim
  | cut fd hc hlen => exact ho.elim
  | cd hc => exact ⟨_, hr, hanchored, h.benign⟩
  | init => exact ho.elim
  | keeps hcopies hk =>
      cases o with
      | ls => exact hreads (vfsLs_quiet hinv)
      | pwd => exact hreads (vfsPwd_quiet hinv)
      | cat name => exact hreads (vfsCat_quiet hinv name)
      | read name size => exact ho.elim
      | readAt name size offset => exact ho.elim
      | _ => exact hcopies.elim

theorem Ready.command (h : Ready area k) (c : Command) :
    ∃ k', c.step k = .ok k' ∧ Ready area k' := by
  obtain ⟨printed, hstep⟩ := c.step_eq k
  rw [hstep]
  cases hcall : c.call with
  | none => exact ⟨_, rfl, h.puts printed⟩
  | some o =>
      obtain ⟨r, hr, hr'⟩ := h.exec (c.typed o hcall)
      refine ⟨_, ?_, hr'.puts printed⟩
      rw [Option.elim_some, Op.step_of_exec hr, ok_bind]

theorem printKernelVersion_eq : printKernelVersion = .ok (utf8 "Anaga Kernel v0.0.0.1\n") := by
  simp only [printKernelVersion, kprintNum_eq, ok_bind]
  decide

theorem systemShutdown_ok (hypervisor : Bool) (m : Ram) :
    ∃ r, systemShutdown hypervisor m = .ok r := by
  rw [systemShutdown]
  split_ifs
  · exact exists_bind_eq_ok (exists_kprint _) fun _ => ⟨_, rfl⟩
  · refine exists_bind_eq_ok (exists_kprint _) fun _ => ?_
    cases acpiGetFadt m with
    | none => exact exists_bind_eq_ok (exists_kprint _) fun _ => ⟨_, rfl⟩
    | some fadt =>
        dsimp only
        split_ifs
        · exact exists_bind_eq_ok (exists_kprint _) fun _ => ⟨_, rfl⟩
        · exact ⟨_, rfl⟩

theorem kprintf_executing (entry : UInt32) :
    ∃ printed, kprintf (utf8 "Executing ELF at 0x%x...\n" ++ [0]) [.word entry] = .ok printed := by
  have hsplit : utf8 "Executing ELF at 0x%x...\n" ++ [0] =
      utf8 "Executing ELF at 0x" ++ ascii '%' :: ascii 'x' :: (utf8 "...\n" ++ [0]) := by decide
  rw [hsplit, kprintf_literal (by decide) (by decide),
    kprintf_convert (by decide) (by decide) (convert_x entry []),
    kprintf_literal (by decide) (by decide), kprintf_zero]
  exact ⟨_, rfl⟩

theorem Ready.cmdRun {m : Machine} (h : Ready m.area k) (a : Option CString) :
    ∃ r, cmdRun m k a = .ok r ∧ Ready m.area r.kernel := by
  rw [Anaga.cmdRun]
  cases given a with
  | none => exact ⟨_, rfl, h.puts _⟩
  | some path =>
      obtain ⟨r, hr⟩ := elfLoad_total h.anchored.invariant h.benign path
      have hready := h.quiet (elfLoad_quiet hr)
      dsimp only
      rw [hr, ok_bind]
      split_ifs
      · obtain ⟨printed, hprinted⟩ := kprintf_executing (r.entryPoint.getD 0)
        exact ⟨_, by rw [hprinted, ok_bind], hready.puts printed⟩
      · exact ⟨_, rfl, hready⟩

/-- **No function of the table fails.** -/
theorem CmdFn.exec_total {m : Machine} (h : Ready m.area k) (a : Option CString) (fn : CmdFn) :
    ∃ r, fn.exec m k a = .ok r ∧ Ready m.area r.kernel := by
  have hreturns : ∀ x : Except Fault Kernel, (∃ k', x = .ok k' ∧ Ready m.area k') →
      ∃ r, CmdResult.of <$> x = .ok r ∧ Ready m.area r.kernel := by
    rintro x ⟨k', rfl, hk'⟩
    exact ⟨_, rfl, hk'⟩
  cases fn with
  | help => exact hreturns _ ⟨_, rfl, h.puts _⟩
  | ls => exact hreturns _ (h.command (.ls a))
  | pwd => exact hreturns _ (h.command (.pwd a))
  | cd => exact hreturns _ (h.command (.cd a))
  | cat => exact hreturns _ (h.command (.cat a))
  | mkdir => exact hreturns _ (h.command (.mkdir a))
  | touch => exact hreturns _ (h.command (.touch a))
  | echo =>
      refine hreturns _ ?_
      cases a with
      | none => exact ⟨_, rfl, h.puts _⟩
      | some s =>
          refine ⟨k.puts (cstr s.region ++ utf8 "\n"), ?_, h.puts _⟩
          rw [cmdEcho, kprint_of_zero_mem s.zero_mem_region, ok_bind]
  | clear => exact ⟨_, rfl, h⟩
  | uname => exact hreturns _ ⟨_, rfl, h.puts _⟩
  | version =>
      exact hreturns _ ⟨_, by rw [cmdVersion, printKernelVersion_eq, ok_bind], h.puts _⟩
  | run => exact h.cmdRun a
  | poweroff =>
      obtain ⟨r, hr⟩ := systemShutdown_ok m.hypervisor m.firmware
      exact ⟨_, by rw [CmdFn.exec, cmdPoweroff, hr, ok_bind], h.puts r.1⟩
  | reboot => exact ⟨_, rfl, h.puts _⟩

end Ready

end Anaga
