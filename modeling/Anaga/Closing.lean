/-
**Every descriptor is closed again.**

The functions of `fs/vfs.c` open a descriptor for one read or write and close it before they
return, and `elf_load` reads through them, once for the header and up to twice for every program
header.  No table of inodes is assumed to be sound here: whatever the calls find on the disk, they
return with the descriptors they were called with, and the reading ones leave the file system as
it was.

Main definitions:

* `Anaga.Call`, `Anaga.Call.step` — a call of a function of `fs/vfs.h` or of `elf_load`;
* `Anaga.Call.Reads` — the calls that only read.

Main results:

* `Anaga.keeps_of_vfsCat`, `Anaga.keeps_of_vfsRead`, `Anaga.keeps_of_vfsReadAt`,
  `Anaga.keeps_of_elfLoad` — the readers keep the file system, on every path;
* `Anaga.closed_of_vfsWriteFile` — the writer closes its descriptor;
* `Anaga.run_closed` — **after every run all descriptors are closed, every file can be opened, and
  a reading call keeps the file system**.
-/

import Anaga.Elf
import Anaga.Reachable

set_option relaxedAutoImplicit false
set_option autoImplicit false

namespace Anaga

open Transition

variable {k : Kernel} {r : Result} {name : CString}

theorem Keeps.trans {k₁ k₂ : Kernel} (h : Keeps k k₁) (h' : Keeps k₁ k₂) : Keeps k k₂ where
  inodeArray := h'.inodeArray.trans h.inodeArray
  disk := h'.disk.trans h.disk
  currentDir := h'.currentDir.trans h.currentDir
  closed := fun hc => h'.closed (h.closed hc)

/-- Using a descriptor and closing it keeps the file system. -/
theorem Keeps.usedFd (k : Kernel) (fd : Fin maxOpenFiles) (idx : Fin maxInodes) (pos : UInt32) :
    Keeps k { k with fdTable := Anaga.usedFd k.fdTable fd idx pos } :=
  ⟨rfl, rfl, rfl, fun hc => hc.usedFd fd idx pos⟩

theorem Keeps.withBytes (k : Kernel) (byte : UInt32 → UInt8) : Keeps k (k.withBytes byte) :=
  ⟨rfl, rfl, rfl, id⟩

/-! ### Reading a file -/

/-- What a name was looked up to: nothing, a directory, an inode that cannot be opened, or a file
for which a descriptor is free. -/
theorem found_cases (k : Kernel) (found : Option (Fin maxInodes)) :
    found = none ∨
      ∃ idx, found = some idx ∧
        ((k.inodeArray idx).type = inodeDir ∨
          (k.inodeArray idx).type ≠ inodeDir ∧
            fileOpen idx k.inodeArray k.fdTable = (none, k.fdTable) ∨
          (k.inodeArray idx).type = inodeFile ∧ ∃ fd, findFreeFd k.fdTable = some fd) := by
  cases found with
  | none => exact Or.inl rfl
  | some idx =>
      refine Or.inr ⟨idx, rfl, ?_⟩
      by_cases hdir : (k.inodeArray idx).type = inodeDir
      · exact Or.inl hdir
      · rcases fileOpen_cases k.inodeArray idx k.fdTable with hopen | hfile
        · exact Or.inr (Or.inl ⟨hdir, hopen⟩)
        · exact Or.inr (Or.inr hfile)

/-- **`vfs_cat` keeps the file system.** -/
theorem keeps_of_vfsCat (h : vfsCat k name = .ok r) : Keeps k r.kernel := by
  obtain ⟨found, hfind, hrest⟩ := bind_eq_ok.1 h
  rcases found_cases k found with rfl | ⟨idx, rfl, hdir | ⟨hdir, hopen⟩ | ⟨hfile, fd, hfd⟩⟩
  · obtain rfl := Except.ok.inj hrest
    exact (Keeps.refl k).puts _
  · dsimp only at hrest
    rw [if_pos hdir] at hrest
    obtain rfl := Except.ok.inj hrest
    exact (Keeps.refl k).puts _
  · dsimp only at hrest
    rw [if_neg hdir, hopen] at hrest
    obtain rfl := Except.ok.inj hrest
    exact (Keeps.refl k).puts _
  · obtain ⟨printed, hcat⟩ := vfsCat_of_find hfind hfile hfd
    obtain rfl := Except.ok.inj (hcat.symm.trans h)
    exact (Keeps.usedFd k fd idx _).puts printed

/-- **So does `vfs_read_at`.** -/
theorem keeps_of_vfsReadAt {size offset : UInt32} (h : vfsReadAt k name size offset = .ok r) :
    Keeps k r.kernel := by
  obtain ⟨found, hfind, hrest⟩ := bind_eq_ok.1 h
  rcases found_cases k found with rfl | ⟨idx, rfl, hdir | ⟨hdir, hopen⟩ | ⟨hfile, fd, hfd⟩⟩
  · obtain rfl := Except.ok.inj hrest
    exact Keeps.refl k
  · dsimp only at hrest
    rw [if_pos hdir] at hrest
    obtain rfl := Except.ok.inj hrest
    exact Keeps.refl k
  · dsimp only at hrest
    rw [if_neg hdir, hopen] at hrest
    obtain rfl := Except.ok.inj hrest
    exact Keeps.refl k
  · obtain rfl := Except.ok.inj ((vfsReadAt_of_find hfind hfile hfd).symm.trans h)
    exact Keeps.usedFd k fd idx _

/-- **So does `vfs_read`.** -/
theorem keeps_of_vfsRead {size : UInt32} (h : vfsRead k name size = .ok r) : Keeps k r.kernel := by
  obtain ⟨found, hfind, hrest⟩ := bind_eq_ok.1 h
  rcases found_cases k found with rfl | ⟨idx, rfl, hdir | ⟨hdir, hopen⟩ | ⟨hfile, fd, hfd⟩⟩
  · obtain rfl := Except.ok.inj hrest
    exact Keeps.refl k
  · dsimp only at hrest
    rw [if_pos hdir] at hrest
    obtain rfl := Except.ok.inj hrest
    exact Keeps.refl k
  · dsimp only at hrest
    rw [if_neg hdir, hopen] at hrest
    obtain rfl := Except.ok.inj hrest
    exact Keeps.refl k
  · obtain rfl := Except.ok.inj ((vfsRead_of_find hfind hfile hfd).symm.trans h)
    exact Keeps.usedFd k fd idx _

/-! ### Loading a program -/

section Load

variable {area : Area} {k' : Kernel} {ret : ℤ}

/-- Storing bytes keeps the file system. -/
theorem keeps_of_storeLoop {dest : UInt32} {byte : Kernel → ℕ → UInt8} {n : ℕ}
    (h : storeLoop area dest byte n k = .ok k') : Keeps k k' := by
  induction n generalizing k' with
  | zero =>
      obtain rfl := Except.ok.inj h
      exact Keeps.refl k
  | succ n ih =>
      obtain ⟨k₁, hloop, hstore⟩ := bind_eq_ok.1 h
      rw [storeByte] at hstore
      split_ifs at hstore with hw
      obtain rfl := Except.ok.inj hstore
      exact (ih hloop).trans (Keeps.withBytes k₁ _)

theorem keeps_of_readObject {size offset : UInt32} (h : readObject k name size offset = .ok r) :
    Keeps k r.kernel := by
  obtain ⟨r₁, hread, hrest⟩ := bind_eq_ok.1 h
  cases hcopy : r₁.copy with
  | none =>
      rw [hcopy] at hrest
      obtain rfl := Except.ok.inj hrest
      exact keeps_of_vfsReadAt hread
  | some c =>
      rw [hcopy] at hrest
      dsimp only at hrest
      split_ifs at hrest with hlen
      obtain rfl := Except.ok.inj hrest
      exact keeps_of_vfsReadAt hread

theorem keeps_of_readMemory {dest size offset : UInt32}
    (h : readMemory area k name dest size offset = .ok (ret, k')) : Keeps k k' := by
  obtain ⟨r₁, hread, hrest⟩ := bind_eq_ok.1 h
  have hk := keeps_of_vfsReadAt hread
  cases hcopy : r₁.copy with
  | none =>
      rw [hcopy] at hrest
      obtain ⟨-, rfl⟩ := Prod.ext_iff.1 (Except.ok.inj hrest)
      exact hk
  | some c =>
      rw [hcopy] at hrest
      obtain ⟨k₁, hstore, hrest⟩ := bind_eq_ok.1 hrest
      obtain ⟨-, rfl⟩ := Prod.ext_iff.1 (Except.ok.inj hrest)
      exact hk.trans (keeps_of_storeLoop hstore)

theorem keeps_of_loadSegment {phdr : Elf32Phdr}
    (h : loadSegment area k name phdr = .ok (ret, k')) : Keeps k k' := by
  obtain ⟨printed, -, h⟩ := bind_eq_ok.1 h
  obtain ⟨⟨read, k₁⟩, hread, h⟩ := bind_eq_ok.1 h
  have hk : Keeps k k₁ := ((Keeps.refl k).puts printed).trans (keeps_of_readMemory hread)
  dsimp only at h
  split_ifs at h with hshort htail
  · obtain ⟨printed', -, h⟩ := bind_eq_ok.1 h
    obtain ⟨-, rfl⟩ := Prod.ext_iff.1 (Except.ok.inj h)
    exact hk.puts printed'
  · obtain ⟨k₂, hset, h⟩ := bind_eq_ok.1 h
    obtain ⟨-, rfl⟩ := Prod.ext_iff.1 (Except.ok.inj h)
    exact hk.trans (keeps_of_storeLoop hset)
  · obtain ⟨-, rfl⟩ := Prod.ext_iff.1 (Except.ok.inj h)
    exact hk

theorem keeps_of_loadPhdr {header : Elf32Ehdr} {i : ℕ}
    (h : loadPhdr area name header i k = .ok (ret, k')) : Keeps k k' := by
  obtain ⟨r₁, hread, h⟩ := bind_eq_ok.1 h
  have hk := keeps_of_readObject hread
  dsimp only at h
  split_ifs at h with hshort htype
  · obtain ⟨-, rfl⟩ := Prod.ext_iff.1 (Except.ok.inj h)
    exact hk.puts _
  · exact hk.trans (keeps_of_loadSegment h)
  · obtain ⟨-, rfl⟩ := Prod.ext_iff.1 (Except.ok.inj h)
    exact hk

/-- However many program headers there are, and at whichever the loop ends. -/
theorem keeps_of_loadLoop {header : Elf32Ehdr} {n i : ℕ}
    (h : loadLoop area name header n i k = .ok (ret, k')) : Keeps k k' := by
  induction n generalizing i k with
  | zero =>
      obtain ⟨-, rfl⟩ := Prod.ext_iff.1 (Except.ok.inj h)
      exact Keeps.refl k
  | succ n ih =>
      obtain ⟨⟨ret₁, k₁⟩, hload, h⟩ := bind_eq_ok.1 h
      have hk := keeps_of_loadPhdr hload
      dsimp only at h
      split_ifs at h with hret
      · exact hk.trans (ih h)
      · obtain ⟨-, rfl⟩ := Prod.ext_iff.1 (Except.ok.inj h)
        exact hk

/-- **`elf_load` keeps the file system.** -/
theorem keeps_of_elfLoad {res : ElfResult} (h : elfLoad area k name = .ok res) :
    Keeps k res.kernel := by
  obtain ⟨r₁, hread, h⟩ := bind_eq_ok.1 h
  have hk := keeps_of_readObject hread
  dsimp only at h
  split_ifs at h with hshort hmagic
  · obtain rfl := Except.ok.inj h
    exact hk.puts _
  · obtain ⟨⟨ret, k₁⟩, hloop, h⟩ := bind_eq_ok.1 h
    obtain rfl := Except.ok.inj h
    exact hk.trans (keeps_of_loadLoop hloop)
  · obtain rfl := Except.ok.inj h
    exact hk.puts _

end Load

/-! ### Writing and creating -/

/-- **`vfs_write_file` closes the descriptor that it opened.** -/
theorem closed_of_vfsWriteFile {content : CString} (h : vfsWriteFile k name content = .ok r)
    (hc : AllClosed k.fdTable) : AllClosed r.kernel.fdTable := by
  obtain ⟨found, -, h⟩ := bind_eq_ok.1 h
  obtain ⟨⟨target, t⟩, -, h⟩ := bind_eq_ok.1 h
  cases target with
  | none =>
      obtain rfl := Except.ok.inj h
      exact hc
  | some idx =>
      dsimp only at h
      rcases fileOpen_cases t idx k.fdTable with hopen | ⟨hfile, fd, hfd⟩
      · rw [hopen] at h
        obtain rfl := Except.ok.inj h
        exact hc
      · have hlen : strlen content.region = .ok content.bytes.length :=
          strlen_append_zero content.noNul
        simp only [fileOpen_of_file hfile hfd, hlen, ok_bind, fileWrite_update,
          fileClose_update] at h
        have hused := hc.usedFd fd idx (UInt32.ofNat (fitting content))
        split_ifs at h with hshort
        · obtain rfl := Except.ok.inj h
          exact hused
        · obtain rfl := Except.ok.inj h
          exact hused

/-- `vfs_mkdir` does not touch the descriptors. -/
theorem fdTable_of_vfsMkdir (h : vfsMkdir k name = .ok r) : r.kernel.fdTable = k.fdTable := by
  unfold vfsMkdir at h
  cases hfree : findFreeInode k.inodeArray with
  | none =>
      rw [hfree] at h
      obtain rfl := Except.ok.inj h
      rfl
  | some idx =>
      rw [hfree] at h
      obtain ⟨parent, -, h⟩ := bind_eq_ok.1 h
      split_ifs at h with hfull
      · obtain rfl := Except.ok.inj h
        rfl
      · obtain ⟨found, -, h⟩ := bind_eq_ok.1 h
        cases found with
        | some c =>
            obtain rfl := Except.ok.inj h
            rfl
        | none =>
            obtain ⟨copied, -, h⟩ := bind_eq_ok.1 h
            obtain ⟨t, -, h⟩ := bind_eq_ok.1 h
            obtain rfl := Except.ok.inj h
            rfl

/-- Nor does `vfs_touch`. -/
theorem fdTable_of_vfsTouch (h : vfsTouch k name = .ok r) : r.kernel.fdTable = k.fdTable := by
  obtain ⟨⟨idx, t⟩, -, h⟩ := bind_eq_ok.1 h
  cases idx with
  | none =>
      obtain rfl := Except.ok.inj h
      rfl
  | some idx =>
      obtain rfl := Except.ok.inj h
      rfl

/-- Nor does `vfs_cd`. -/
theorem fdTable_of_vfsCd (h : vfsCd k name = .ok r) : r.kernel.fdTable = k.fdTable := by
  obtain ⟨c, -, h⟩ := bind_eq_ok.1 h
  split_ifs at h with hdot hroot
  · obtain ⟨dir, -, h⟩ := bind_eq_ok.1 h
    obtain rfl := Except.ok.inj h
    rfl
  · obtain rfl := Except.ok.inj h
    rfl
  · obtain ⟨c', -, h⟩ := bind_eq_ok.1 h
    split_ifs at h with hslash
    · obtain rfl := Except.ok.inj h
      rfl
    · obtain ⟨found, -, h⟩ := bind_eq_ok.1 h
      cases found with
      | none =>
          obtain rfl := Except.ok.inj h
          rfl
      | some idx =>
          dsimp only at h
          split_ifs at h with hdir
          · obtain rfl := Except.ok.inj h
            rfl
          · obtain rfl := Except.ok.inj h
            rfl

theorem keeps_of_vfsLs (h : vfsLs k = .ok r) : Keeps k r.kernel := by
  obtain ⟨dir, -, h⟩ := bind_eq_ok.1 h
  split_ifs at h with hempty
  · obtain rfl := Except.ok.inj h
    exact (Keeps.refl k).puts _
  · obtain ⟨printed, -, h⟩ := bind_eq_ok.1 h
    obtain rfl := Except.ok.inj h
    exact (Keeps.refl k).puts printed

theorem keeps_of_vfsPwd (h : vfsPwd k = .ok r) : Keeps k r.kernel := by
  obtain ⟨path, -, h⟩ := bind_eq_ok.1 h
  obtain ⟨printed, -, h⟩ := bind_eq_ok.1 h
  obtain rfl := Except.ok.inj h
  exact (Keeps.refl k).puts printed

theorem fdTable_vfsInit (k : Kernel) : (vfsInit k).fdTable = k.fdTable := by
  rw [vfsInit]
  split_ifs
  · rfl
  · rfl

/-! ### Calls -/

/-- A call of a function of `fs/vfs.h`, or of `elf_load`. -/
inductive Call
  | vfs (o : Op)
  | elfLoad (path : CString)

/-- The calls that only read. -/
def Call.Reads : Call → Prop
  | .vfs o => o.Reads
  | .elfLoad _ => True

/-- The state that the call leaves. -/
def Call.step (area : Area) (k : Kernel) : Call → Except Fault Kernel
  | .vfs o => o.step k
  | .elfLoad path => ElfResult.kernel <$> Anaga.elfLoad area k path

section Calls

variable {area : Area} {k' : Kernel}

theorem Op.Reads.keeps {o : Op} (ho : o.Reads) (h : o.exec k = .ok r) : Keeps k r.kernel := by
  cases o with
  | ls => exact keeps_of_vfsLs h
  | pwd => exact keeps_of_vfsPwd h
  | cat name => exact keeps_of_vfsCat h
  | read name size => exact keeps_of_vfsRead h
  | readAt name size offset => exact keeps_of_vfsReadAt h
  | _ => exact ho.elim

/-- Every function of `fs/vfs.h` returns with all descriptors closed. -/
theorem closed_of_exec {o : Op} (h : o.exec k = .ok r) (hc : AllClosed k.fdTable) :
    AllClosed r.kernel.fdTable := by
  cases o with
  | mkdir name => rw [fdTable_of_vfsMkdir h]; exact hc
  | touch name => rw [fdTable_of_vfsTouch h]; exact hc
  | writeFile name content => exact closed_of_vfsWriteFile h hc
  | cd path => rw [fdTable_of_vfsCd h]; exact hc
  | ls => exact (keeps_of_vfsLs h).closed hc
  | pwd => exact (keeps_of_vfsPwd h).closed hc
  | cat name => exact (keeps_of_vfsCat h).closed hc
  | read name size => exact (keeps_of_vfsRead h).closed hc
  | readAt name size offset => exact (keeps_of_vfsReadAt h).closed hc
  | init =>
      obtain rfl := Except.ok.inj h
      rw [fdTable_vfsInit]
      exact hc

theorem Call.Reads.keeps {c : Call} (hr : c.Reads) (h : c.step area k = .ok k') : Keeps k k' := by
  cases c with
  | vfs o =>
      obtain ⟨r, hexec, rfl⟩ := map_eq_ok.1 h
      exact Op.Reads.keeps hr hexec
  | elfLoad path =>
      obtain ⟨res, hload, rfl⟩ := map_eq_ok.1 h
      exact keeps_of_elfLoad hload

/-- **A call that returns leaves no descriptor open.** -/
theorem closed_of_step {c : Call} (hc : AllClosed k.fdTable) (h : c.step area k = .ok k') :
    AllClosed k'.fdTable := by
  cases c with
  | vfs o =>
      obtain ⟨r, hexec, rfl⟩ := map_eq_ok.1 h
      exact closed_of_exec hexec hc
  | elfLoad path =>
      obtain ⟨res, hload, rfl⟩ := map_eq_ok.1 h
      exact (keeps_of_elfLoad hload).closed hc

/-- A file can be opened while no descriptor is in use. -/
theorem AllClosed.opens {fds : FdTable} (hc : AllClosed fds) {t : InodeTable} {idx : Fin maxInodes}
    (hfile : (t idx).type = inodeFile) : ∃ fd, (fileOpen idx t fds).1 = some fd := by
  obtain ⟨fd, hfd⟩ := findFreeFd_of_allClosed hc
  exact ⟨fd, by rw [fileOpen_of_file hfile hfd]⟩

/-- **From a table without a descriptor in use, every run returns to one**: afterwards every file
can be opened, and a call that reads leaves the inodes, the disk and the current directory as they
were. -/
theorem run_closed (area : Area) (cs : List Call) (hc : AllClosed k.fdTable)
    (hrun : run (fun k (c : Call) => c.step area k) k cs = .ok k') :
    AllClosed k'.fdTable ∧
      (∀ (t : InodeTable) (idx : Fin maxInodes), (t idx).type = inodeFile →
        ∃ fd, (fileOpen idx t k'.fdTable).1 = some fd) ∧
      ∀ (c : Call) (k'' : Kernel), c.Reads → c.step area k' = .ok k'' →
        k''.inodeArray = k'.inodeArray ∧ k''.disk = k'.disk ∧ k''.currentDir = k'.currentDir := by
  have hclosed : AllClosed k'.fdTable :=
    run_invariant (P := fun k => AllClosed k.fdTable) (fun _ _ _ hk hs => closed_of_step hk hs)
      hc hrun
  refine ⟨hclosed, fun t idx hfile => hclosed.opens hfile, fun c k'' hr hs => ?_⟩
  have hk := hr.keeps hs
  exact ⟨hk.inodeArray, hk.disk, hk.currentDir⟩

/-- On an empty disk a program is looked for, a file is created and it is printed. -/
theorem run_closed_zero :
    ∃ k', run (fun k (c : Call) => c.step (fun _ => true) k) (boot (fun _ _ => 0) ⟨0, fun _ => 0⟩)
        [.elfLoad nameA, .vfs (.touch nameA), .vfs (.cat nameA)] = .ok k' ∧
      AllClosed k'.fdTable := by
  set k := boot (fun _ _ => 0) ⟨0, fun _ => 0⟩ with hk
  have hinv : Invariant k := (Reachable.boot_zero _).invariant
  have hread : readObject k nameA sizeofEhdr 0 = .ok ⟨-1, none, k⟩ := by
    rw [readObject, vfsReadAt, hk, find_boot_zero]
    rfl
  have hload : Call.step (fun _ => true) k (.elfLoad nameA) =
      .ok (k.puts (utf8 "ELF: Failed to read header\n")) := by
    rw [Call.step, elfLoad, hread, ok_bind]
    rfl
  have hinv₁ : Invariant (k.puts (utf8 "ELF: Failed to read header\n")) :=
    hinv.keeps ((Keeps.refl k).puts _)
  obtain ⟨k₂, htouch, hinv₂⟩ := hinv₁.step (.touch nameA)
  obtain ⟨k₃, hcat, -⟩ := hinv₂.step (.cat nameA)
  have hrun : run (fun k (c : Call) => c.step (fun _ => true) k) k
      [.elfLoad nameA, .vfs (.touch nameA), .vfs (.cat nameA)] = .ok k₃ :=
    run_cons_eq_ok.2 ⟨_, hload, run_cons_eq_ok.2 ⟨k₂, htouch, run_cons_eq_ok.2 ⟨k₃, hcat, rfl⟩⟩⟩
  exact ⟨k₃, hrun, (run_closed _ _ hinv.closed hrun).1⟩

end Calls

end Anaga
