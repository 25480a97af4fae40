/-
**The states that a run can reach.**

A run starts from a formatted disk, which is one whose inode region is zero or one on which the
host tool has installed a file, and goes through calls of the file system and reboots.  No call
leaves an array on the way, and all states it goes through have a sound table in memory and on
disk, a directory as the current one, and no descriptor left open.

Main definitions:

* `Anaga.Formatted` — the disks that a run starts from;
* `Anaga.Invariant` — what holds of every state of a run;
* `Anaga.Reachable` — the states of the runs.

Main results:

* `Anaga.tree_write` — writing a file does not touch the tree;
* `Anaga.Invariant.exec` — **no call fails in a state that meets the invariant, and every call
  keeps it**;
* `Anaga.Invariant.boot` — a formatted disk boots into such a state;
* `Anaga.Reachable.invariant` — so every reachable state meets it.
-/

import Anaga.Mkfs
import Anaga.Outcome

set_option relaxedAutoImplicit false
set_option autoImplicit false

namespace Anaga

open Transition

/-! ### Writing a file keeps the tree -/

section Write

variable {t : InodeTable} {idx : Fin maxInodes}

/-- The fields of an inode that writing to it does not touch. -/
theorem write_old (t : InodeTable) (idx : Fin maxInodes) (content : CString) (i : Fin maxInodes) :
    (writeTable t idx content i).name = (t i).name ∧
      (writeTable t idx content i).type = (t i).type ∧
      (writeTable t idx content i).parentInode = (t i).parentInode ∧
      (writeTable t idx content i).numEntries = (t i).numEntries ∧
      (writeTable t idx content i).dirEntries = (t i).dirEntries := by
  rw [writeTable, Function.update_apply]
  split_ifs with hi
  · rw [hi]
    exact ⟨rfl, rfl, rfl, rfl, rfl⟩
  · exact ⟨rfl, rfl, rfl, rfl, rfl⟩

/-- **Writing a file does not touch the tree.** -/
theorem tree_write (t : InodeTable) (idx : Fin maxInodes) (content : CString) :
    tree (writeTable t idx content) = tree t := by
  have hold := write_old t idx content
  unfold tree
  congr 1
  · funext i
    rw [(hold i).2.1]
  · funext i
    rw [Inode.fileName, Inode.nameRegion, (hold i).1]
    rfl
  · funext i
    rw [(hold i).2.2.1]
  · funext i
    rw [usedSlots, (hold i).2.2.2.1, (hold i).2.2.2.2]
    rfl

/-- A write makes no file larger than fits. -/
theorem written_size_le {n : Inode} (h : n.size.toNat ≤ maxFileSize) (content : CString) :
    (written n content).size.toNat ≤ maxFileSize := by
  rw [written_size]
  exact max_le h (Nat.min_le_right _ _)

/-- Writing a file keeps the table grounded. -/
theorem GroundedTable.write (h : GroundedTable t) (hidx : (t idx).type = inodeFile)
    (content : CString) : GroundedTable (writeTable t idx content) := by
  have hold := write_old t idx content
  have hslots : ∀ i, usedSlots (writeTable t idx content i) =
      usedSlots (t i) := by
    intro i
    rw [usedSlots, (hold i).2.2.2.1, (hold i).2.2.2.2]
    rfl
  constructor
  case root_dir =>
    rw [(hold 0).2.1]
    exact h.root_dir
  case type_cases =>
    intro i
    rw [(hold i).2.1]
    exact h.type_cases i
  case terminated =>
    intro i
    rw [Inode.nameRegion, (hold i).1]
    exact h.terminated i
  case parent_lt =>
    intro i hi
    rw [(hold i).2.1] at hi
    rw [(hold i).2.2.1]
    exact h.parent_lt i hi
  case parent_dir =>
    intro i hi hroot
    rw [(hold i).2.1] at hi
    rw [tree_write, (hold _).2.1]
    exact h.parent_dir i hi hroot
  case grounded =>
    intro i hi
    rw [(hold i).2.1] at hi
    rw [tree_write]
    exact h.grounded i hi
  case numEntries_le =>
    intro i hi
    rw [(hold i).2.1] at hi
    rw [(hold i).2.2.2.1]
    exact h.numEntries_le i hi
  case slots_lt =>
    intro i hi e he
    rw [(hold i).2.1] at hi
    rw [hslots i] at he
    exact h.slots_lt i hi e he
  case size_le =>
    intro i hi
    rw [(hold i).2.1] at hi
    rw [writeTable, Function.update_apply]
    split_ifs with hii
    · exact written_size_le (h.size_le idx hidx) content
    · exact h.size_le i hi

/-- Writing a file keeps the table sound. -/
theorem SoundTable.write (h : SoundTable t) (hidx : (t idx).type = inodeFile)
    (content : CString) :
    SoundTable (writeTable t idx content) := by
  have hold := write_old t idx content
  have hgrounded := h.groundedTable.write hidx content
  refine ⟨?_, hgrounded.type_cases, hgrounded.terminated, hgrounded.parent_lt,
    hgrounded.numEntries_le, hgrounded.slots_lt, fun i hi => ⟨?_, hgrounded.size_le i hi⟩⟩
  · rw [tree_write]
    exact h.wellFormed
  · rw [(hold i).2.1] at hi
    rw [(hold i).2.2.2.1]
    exact (h.file i hi).1

/-- The table that a write finds its file in is sound, and still has the current directory. -/
theorem SoundTable.of_writeTarget {t' : InodeTable} {d : Fin maxInodes} {name : CString}
    (h : SoundTable t) (hd : (t d).type = inodeDir) (hc : writeTarget t d name = some (idx, t')) :
    SoundTable t' ∧ (t' d).type = inodeDir := by
  rcases writeTarget_eq_some_iff.1 hc with ⟨-, -, rfl⟩ | ⟨-, hcr⟩
  · exact ⟨h, hd⟩
  · have hf := Fresh.of_created hd hcr
    exact ⟨hf.sound h hd (Or.inl rfl), hf.dir hd⟩

end Write

/-! ### The invariant -/

/-- What holds of every state of a run from a formatted disk. -/
structure Invariant (k : Kernel) : Prop where
  /-- The table in memory is sound. -/
  sound : SoundTable k.inodeArray
  /-- The current directory is one. -/
  cwd : ∃ d, Cwd k d
  /-- No descriptor has been left open. -/
  closed : AllClosed k.fdTable
  /-- The table on disk is sound, though it may be older than the one in memory. -/
  stored : SoundTable (diskTable k.disk)

section Step

variable {k : Kernel}

/-- What changes nothing in the file system keeps the invariant. -/
theorem Invariant.keeps {k' : Kernel} (h : Invariant k) (hk : Keeps k k') : Invariant k' where
  sound := hk.inodeArray ▸ h.sound
  cwd := by
    obtain ⟨d, hd⟩ := h.cwd
    exact ⟨d, hk.currentDir.trans hd.val, hk.inodeArray ▸ hd.dir⟩
  closed := hk.closed h.closed
  stored := hk.disk ▸ h.stored

/-- Starting from a sound table on disk, in whatever state, establishes the invariant. -/
theorem Invariant.init (hs : SoundTable (diskTable k.disk)) (hc : AllClosed k.fdTable) :
    Invariant (vfsInit k) := by
  have hroot : (diskTable k.disk 0).type = inodeDir := by simpa using hs.wellFormed.root_dir
  rw [vfsInit_of_dir hroot]
  exact ⟨hs, ⟨0, rfl, hroot⟩, hc, hs⟩

/-- A new inode that was entered and synced keeps the invariant. -/
theorem Invariant.of_created {d idx : Fin maxInodes} {t : InodeTable} {name : CString}
    {type : UInt32} (h : Invariant k) (hd : Cwd k d)
    (htype : type = inodeFile ∨ type = inodeDir)
    (hc : created k.inodeArray d name type = some (idx, t)) :
    Invariant { k with inodeArray := t, disk := vfsSync t k.disk } := by
  have hf := Fresh.of_created hd.dir hc
  have hsound := hf.sound h.sound hd.dir htype
  refine ⟨hsound, ⟨d, hd.val, hf.dir hd.dir⟩, h.closed, ?_⟩
  rw [diskTable_vfsSync]
  exact hsound

/-- What a write leaves in memory. -/
theorem Invariant.of_written {d idx : Fin maxInodes} {t : InodeTable} {name : CString}
    (h : Invariant k) (hd : Cwd k d) (hc : writeTarget k.inodeArray d name = some (idx, t))
    (fd : Fin maxOpenFiles) (content : CString) :
    SoundTable (writeTable t idx content) ∧ Cwd (k.afterWrite t idx fd content) d ∧
      AllClosed (k.afterWrite t idx fd content).fdTable := by
  obtain ⟨hsound, hdir⟩ := h.sound.of_writeTarget hd.dir hc
  refine ⟨hsound.write (writeTarget_file hd.dir hc) content, ⟨hd.val, ?_⟩,
    h.closed.usedFd fd idx _⟩
  change (writeTable t idx content d).type = inodeDir
  rw [(write_old t idx content d).2.1]
  exact hdir

/-- **No call fails in a state that meets the invariant, and every call keeps it.** -/
theorem Invariant.exec (h : Invariant k) (o : Op) :
    ∃ r, o.exec k = .ok r ∧ Invariant r.kernel := by
  obtain ⟨d, hd⟩ := h.cwd
  obtain ⟨r, hr, hout⟩ := exec_outcome h.sound hd h.closed o
  refine ⟨r, hr, ?_⟩
  cases hout with
  | fail msg hnone hwrite => exact h.keeps ((Keeps.refl k).puts _)
  | mkdir hc => exact h.of_created hd (Or.inr rfl) hc
  | touch hc => exact h.of_created hd (Or.inl rfl) hc
  | write fd hc hlen =>
      obtain ⟨hsound, hcwd, hclosed⟩ := h.of_written hd hc fd _
      refine ⟨hsound, ⟨d, hcwd.val, hcwd.dir⟩, hclosed, ?_⟩
      rw [diskTable_vfsSync]
      exact hsound
  | cut fd hc hlen =>
      -- memory is now ahead of the disk
      obtain ⟨hsound, hcwd, hclosed⟩ := h.of_written hd hc fd _
      exact ⟨hsound, ⟨d, hcwd.val, hcwd.dir⟩, hclosed, h.stored⟩
  | cd hc => exact ⟨h.sound, ⟨_, rfl, cdTarget_dir h.sound hd.dir hc⟩, h.closed, h.stored⟩
  | keeps ho hk => exact h.keeps hk
  | init => exact Invariant.init h.stored h.closed

theorem Invariant.step (h : Invariant k) (o : Op) :
    ∃ k', o.step k = .ok k' ∧ Invariant k' := by
  obtain ⟨r, hr, hk⟩ := h.exec o
  exact ⟨r.kernel, Op.step_of_exec hr, hk⟩

end Step

/-! ### Formatted disks -/

/-- The table with nothing in it but the root directory. -/
def emptyTable : InodeTable := Function.update (fun _ => Inode.zero) 0 emptyRoot

theorem emptyTable_zero : emptyTable 0 = emptyRoot := Function.update_self ..

theorem emptyTable_of_ne {i : Fin maxInodes} (hi : i ≠ 0) : emptyTable i = Inode.zero :=
  Function.update_of_ne hi ..

theorem eq_zero_of_emptyTable {i : Fin maxInodes} (h : (emptyTable i).type ≠ inodeFree) :
    i = 0 := by
  by_contra hne
  rw [emptyTable_of_ne hne] at h
  exact h rfl

theorem emptyTable_numEntries (i : Fin maxInodes) : (emptyTable i).numEntries = 0 := by
  rcases eq_or_ne i 0 with rfl | hi
  · rw [emptyTable_zero]
    rfl
  · rw [emptyTable_of_ne hi]
    rfl

theorem usedSlots_emptyTable (i : Fin maxInodes) : usedSlots (emptyTable i) = [] := by
  rw [usedSlots, emptyTable_numEntries]
  rfl

theorem nameRegion_emptyTable (i : Fin maxInodes) :
    (emptyTable i).nameRegion = List.replicate 32 0 := by
  rcases eq_or_ne i 0 with rfl | hi
  · rw [emptyTable_zero]
    exact List.ofFn_const 32 0
  · rw [emptyTable_of_ne hi]
    exact List.ofFn_const 32 0

theorem wellFormed_emptyTable : (tree emptyTable).WellFormed 0 := by
  have hchildren : ∀ i, (tree emptyTable).children i = [] := by
    intro i
    change (usedSlots (emptyTable i)).filterMap toIndex = []
    rw [usedSlots_emptyTable]
    rfl
  have hused : ∀ c, (tree emptyTable).kind c ≠ .free → c = 0 := by
    intro c hc
    exact eq_zero_of_emptyTable (by simpa using hc)
  constructor
  case root_dir =>
    rw [tree_kind, emptyTable_zero]
    rfl
  case child =>
    intro d c _ hc
    rw [hchildren] at hc
    simp at hc
  case nodup =>
    intro d _
    rw [hchildren]
    exact List.nodup_nil
  case listed =>
    intro c hc hne
    exact absurd (hused c hc) hne
  case grounded =>
    intro c hc
    exact ⟨0, hused c hc⟩

theorem soundTable_emptyTable : SoundTable emptyTable where
  wellFormed := wellFormed_emptyTable
  type_cases := by
    intro i
    rcases eq_or_ne i 0 with rfl | hi
    · rw [emptyTable_zero]
      exact Or.inr (Or.inr rfl)
    · rw [emptyTable_of_ne hi]
      exact Or.inl rfl
  terminated := by
    intro i
    rw [nameRegion_emptyTable]
    simp
  parent_lt := by
    intro i hi
    rw [eq_zero_of_emptyTable hi, emptyTable_zero]
    decide
  numEntries_le := by
    intro i _
    rw [emptyTable_numEntries]
    exact Nat.zero_le _
  slots_lt := by
    intro i _ e he
    rw [usedSlots_emptyTable] at he
    simp at he
  file := by
    intro i hi
    have hzero := eq_zero_of_emptyTable (by rw [hi]; exact inodeFile_ne_free)
    rw [hzero, emptyTable_zero] at hi
    exact absurd hi.symm inodeFile_ne_dir

/-- The file that the script writes can be entered into the root directory. -/
theorem newNode_fileInode (vfsPath : String) (content : List UInt8) :
    NewNode (Mkfs.fileInode vfsPath content) 0 where
  type_cases := Or.inl rfl
  terminated := by
    refine List.mem_ofFn.2 ⟨31, ?_⟩
    exact List.getD_eq_default _ _ (List.length_take_le _ _)
  parentInode := rfl
  numEntries := rfl
  size_le := by
    have hlen : (content.take maxFileSize).length ≤ maxFileSize := List.length_take_le _ _
    change (UInt32.ofNat (content.take maxFileSize).length).toNat ≤ maxFileSize
    rw [UInt32.toNat_ofNat']
    exact (Nat.mod_le _ _).trans hlen

/-- **The script enters its file into an empty root directory.** -/
theorem mkfs_table_eq (vfsPath : String) (content : List UInt8) :
    Function.update (Function.update (fun _ => Inode.zero) 0 Mkfs.rootInode) 1
        (Mkfs.fileInode vfsPath content) =
      linkInode emptyTable 0 1 (Mkfs.fileInode vfsPath content) := by
  have hroot : Mkfs.rootInode = addEntry (emptyTable 0) 1 := by
    rw [emptyTable_zero]
    apply Inode.ext
    · funext i
      rfl
    · rfl
    · rfl
    · rfl
    · rfl
    · funext s
      change [(1 : UInt32)].getD s 0 = if s.val = 0 then 1 else 0
      split_ifs with hs
      · rw [hs]
        rfl
      · exact List.getD_eq_default _ _ (Nat.one_le_iff_ne_zero.2 hs)
    · funext i
      rfl
  have hne : (0 : Fin maxInodes) ≠ 1 := by decide
  rw [linkInode, ← hroot, emptyTable, Function.update_comm hne, Function.update_comm hne,
    Function.update_idem]

/-- The disks that a run starts from: the inode region is zero, or the host tool has been run on
an image of zeros. -/
inductive Formatted : Disk → Prop
  | zero {disk : Disk} (h : ∀ lba < maxInodes * inodeSectors, disk lba = fun _ => 0) :
      Formatted disk
  | mkfs (argv : List String) (hostFiles : String → Option (List UInt8)) (n : ℕ) :
      Formatted (imageDisk (Mkfs.main argv hostFiles (List.replicate n 0)).2)

/-- The table on a disk of zeros. -/
theorem diskTable_zero : diskTable (fun _ _ => 0) = fun _ => Inode.zero := by
  funext i
  rw [← Inode.ofBytes_zero]
  refine Inode.ofBytes_congr fun o _ => ?_
  unfold driveReadSector
  split_ifs <;> rfl

/-- The table on a formatted disk. -/
theorem Formatted.diskTable_eq {disk : Disk} (h : Formatted disk) :
    diskTable disk = (fun _ => Inode.zero) ∨
      ∃ vfsPath content,
        diskTable disk = linkInode emptyTable 0 1 (Mkfs.fileInode vfsPath content) := by
  cases h with
  | zero h =>
      left
      have hcongr : diskTable disk = diskTable (fun _ _ => 0) := diskTable_congr h
      rw [hcongr, diskTable_zero]
  | mkfs argv hostFiles n =>
      rcases Mkfs.main_eq_or argv hostFiles (List.replicate n 0) with
        himg | ⟨prog, diskImg, hostFile, vfsPath, rest, content, hargv, hfile⟩
      · left
        rw [himg, Mkfs.diskTable_replicate_zero]
      · right
        refine ⟨vfsPath, content, ?_⟩
        rw [Mkfs.diskTable_main hargv hfile, Mkfs.diskTable_replicate_zero, mkfs_table_eq]

/-- The table on a disk with an installed file is sound. -/
theorem soundTable_mkfs (vfsPath : String) (content : List UInt8) :
    SoundTable (linkInode emptyTable 0 1 (Mkfs.fileInode vfsPath content)) := by
  refine soundTable_emptyTable.linkInode ?_ ?_ ?_ (newNode_fileInode vfsPath content)
  · rw [emptyTable_zero]
    rfl
  · rw [emptyTable_of_ne (by decide)]
    rfl
  · rw [emptyTable_zero]
    decide

/-- **A formatted disk boots into a state that meets the invariant.** -/
theorem Invariant.boot {disk : Disk} (h : Formatted disk) (memory : Memory) :
    Invariant (boot disk memory) := by
  have hclosed : AllClosed (powerOn disk memory).fdTable := fun _ => rfl
  rcases h.diskTable_eq with hzero | ⟨vfsPath, content, htable⟩
  · -- the kernel formats the disk itself
    have hdisk : diskTable (powerOn disk memory).disk = fun _ => Inode.zero := hzero
    have hroot : (diskTable (powerOn disk memory).disk 0).type ≠ inodeDir := by
      rw [hdisk]
      exact inodeDir_ne_free.symm
    rw [Anaga.boot, vfsInit_of_not_dir hroot, hdisk]
    refine ⟨soundTable_emptyTable, ⟨0, rfl, ?_⟩, hclosed, ?_⟩
    · exact congrArg Inode.type emptyTable_zero
    · rw [diskTable_vfsSync]
      exact soundTable_emptyTable
  · refine Invariant.init ?_ hclosed
    exact htable ▸ soundTable_mkfs vfsPath content

/-! ### The first entry -/

/-- The name `a`. -/
def nameA : CString := ⟨[97], by decide, by decide⟩

/-- The name `b`. -/
def nameB : CString := ⟨[98], by decide, by decide⟩

/-- Booting from a disk of zeros. -/
theorem boot_zero (memory : Memory) :
    boot (fun _ _ => 0) memory =
      { powerOn (vfsSync emptyTable fun _ _ => 0) memory with inodeArray := emptyTable } := by
  have hdisk : diskTable (powerOn (fun _ _ => 0) memory).disk = fun _ => Inode.zero :=
    diskTable_zero
  have hroot : (diskTable (powerOn (fun _ _ => 0) memory).disk 0).type ≠ inodeDir := by
    rw [hdisk]
    exact inodeDir_ne_free.symm
  rw [boot, vfsInit_of_not_dir hroot, hdisk]
  rfl

theorem cwd_boot_zero (memory : Memory) : Cwd (boot (fun _ _ => 0) memory) 0 := by
  rw [boot_zero]
  exact ⟨rfl, congrArg Inode.type emptyTable_zero⟩

theorem lookup_emptyTable (name : List UInt8) : (tree emptyTable).lookup 0 name = none := by
  refine NamedTree.lookup_eq_none_iff.2 fun c hc => ?_
  change c ∈ (usedSlots (emptyTable 0)).filterMap toIndex at hc
  rw [emptyTable_zero] at hc
  simp [usedSlots, emptyRoot, Inode.zero] at hc

/-- The first inode that is created in an empty root directory. -/
theorem created_emptyTable (name : CString) (type : UInt32) :
    created emptyTable 0 name type =
      some (1, linkInode emptyTable 0 1 (freshInode name type 0)) := by
  refine created_eq_some_iff.2 ⟨by decide, ?_, ?_, rfl⟩
  · rw [emptyTable_zero]
    decide
  · exact lookup_emptyTable name.bytes

theorem created_boot_zero (memory : Memory) (name : CString) (type : UInt32) :
    created (boot (fun _ _ => 0) memory).inodeArray 0 name type =
      some (1, linkInode emptyTable 0 1 (freshInode name type 0)) := by
  rw [boot_zero]
  exact created_emptyTable name type

theorem creatable_boot_zero (memory : Memory) (name : CString) :
    (boot (fun _ _ => 0) memory).Creatable name := by
  have hd := cwd_boot_zero memory
  have hsound : SoundTable (boot (fun _ _ => 0) memory).inodeArray := by
    rw [boot_zero]
    exact soundTable_emptyTable
  exact hd.creatable hsound (created_boot_zero memory name inodeFile)

theorem writeTarget_boot_zero (memory : Memory) (name : CString) :
    writeTarget (boot (fun _ _ => 0) memory).inodeArray 0 name =
      some (1, linkInode emptyTable 0 1 (freshInode name inodeFile 0)) := by
  refine writeTarget_eq_some_iff.2 (Or.inr ⟨?_, created_boot_zero memory name inodeFile⟩)
  rw [boot_zero]
  exact lookup_emptyTable name.bytes

/-- The first inode that is created is found under its stored name, and nothing else is found. -/
theorem lookup_first (name : CString) {type : UInt32} (htype : type = inodeFile ∨ type = inodeDir)
    (m : List UInt8) :
    (tree (linkInode emptyTable 0 1 (freshInode name type 0))).lookup 0 m =
      if name.bytes.take 31 = m then some 1 else none := by
  rw [tree_linkInode (by decide) (by decide) (newNode_freshInode name 0 htype),
    NamedTree.lookup_addChild_of_none soundTable_emptyTable.wellFormed (by decide) (by decide)
      (lookup_emptyTable m), freshInode_fileName]

/-- An empty disk has no files. -/
theorem find_boot_zero (memory : Memory) (name : CString) :
    findInodeInDir (boot (fun _ _ => 0) memory).inodeArray
      (boot (fun _ _ => 0) memory).currentDir name = .ok none := by
  have hsound : SoundTable (boot (fun _ _ => 0) memory).inodeArray := by
    rw [boot_zero]
    exact soundTable_emptyTable
  rw [(cwd_boot_zero memory).find hsound, boot_zero]
  exact congrArg Except.ok (lookup_emptyTable name.bytes)

/-! ### Reachable states -/

/-- The states that calls and reboots lead to from a formatted disk. -/
def Reachable (k : Kernel) : Prop :=
  ∃ disk memory ops, Formatted disk ∧ run Op.step (boot disk memory) ops = .ok k

/-- **Every reachable state meets the invariant.** -/
theorem Reachable.invariant {k : Kernel} (h : Reachable k) : Invariant k := by
  obtain ⟨disk, memory, ops, hdisk, hrun⟩ := h
  refine run_invariant ?_ (Invariant.boot hdisk memory) hrun
  intro s o s' hs hstep
  obtain ⟨t, ht, hinv⟩ := hs.step o
  obtain rfl : t = s' := by simpa [ht] using hstep
  exact hinv

theorem Reachable.boot_zero (memory : Memory) : Reachable (boot (fun _ _ => 0) memory) :=
  ⟨_, memory, [], Formatted.zero fun _ _ => rfl, rfl⟩

theorem Reachable.boot {disk : Disk} (h : Formatted disk) (memory : Memory) :
    Reachable (boot disk memory) := ⟨disk, memory, [], h, rfl⟩

theorem Reachable.step {k k' : Kernel} (h : Reachable k) {o : Op} (hstep : o.step k = .ok k') :
    Reachable k' := by
  obtain ⟨disk, memory, ops, hdisk, hrun⟩ := h
  exact ⟨disk, memory, ops ++ [o], hdisk, run_concat_eq_ok.2 ⟨k, hrun, hstep⟩⟩

end Anaga
