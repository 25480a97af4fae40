/-
**What is in memory and what is on disk.**

Two ways in which an inode table comes to the disk and is read back: the kernel writes and reads
its own records, and the host tool packs records that the kernel then reads.

Main definitions:

* `Anaga.Op.Syncs` — the calls that write the table to disk when they succeed;
* `Anaga.installedTable` — the table that the host tool leaves on an image of zeros.

Main results:

* `Anaga.Invariant.synced` — after such a call the disk is the one that `vfs_sync` makes;
* `Anaga.sync_load_init` — **a sync is undone by a load**, touches no sector behind the table, and
  so a reboot after a successful call restores the table;
* `Anaga.boot_mkfs` — **a file installed by the host tool is what the kernel finds**.
-/

import Anaga.Reachable

set_option relaxedAutoImplicit false
set_option autoImplicit false

namespace Anaga

open Transition

/-! ### The records of the kernel -/

/-- The calls that write the inode table to disk when they succeed. -/
def Op.Syncs : Op → Prop
  | .mkdir _ => True
  | .touch _ => True
  | .writeFile _ _ => True
  | _ => False

/-- **After a successful call the disk is the one that `vfs_sync` makes.** -/
theorem Invariant.synced {k : Kernel} (h : Invariant k) {o : Op} (ho : o.Syncs) {r : Result}
    (hr : o.exec k = .ok r) (hret : 0 ≤ r.ret) :
    r.kernel.disk = vfsSync r.kernel.inodeArray k.disk := by
  obtain ⟨d, hd⟩ := h.cwd
  have hfail : ¬ (0 : ℤ) ≤ -1 := by decide
  cases outcome_of_exec h.sound hd h.closed hr with
  | fail msg hnone hwrite => exact absurd hret hfail
  | mkdir hc => rfl
  | touch hc => rfl
  | write fd hc hlen => rfl
  | cut fd hc hlen => exact absurd hret hfail
  | cd hc => exact ho.elim
  | keeps hreads hk =>
      cases o with
      | mkdir name => exact hreads.elim
      | touch name => exact hreads.elim
      | writeFile name content => exact hreads.elim
      | _ => exact ho.elim
  | init => exact ho.elim

/-- **A sync is undone by a load, whatever the table was and whatever was in memory, and touches no
sector behind the table.  So `vfs_init` right after a successful call restores the table, whatever
else is in memory**: in the running kernel, or after a reboot. -/
theorem sync_load_init :
    (∀ t disk t', vfsLoad (vfsSync t disk) t' = t) ∧
      (∀ t disk lba, maxInodes * inodeSectors ≤ lba → vfsSync t disk lba = disk lba) ∧
      ∀ (k : Kernel) (o : Op) (r : Result), Reachable k → o.Syncs → o.exec k = .ok r →
        0 ≤ r.ret → ∀ k' : Kernel, k'.disk = r.kernel.disk →
          (vfsInit k').inodeArray = r.kernel.inodeArray ∧ (vfsInit k').currentDir = 0 := by
  refine ⟨?_, ?_, ?_⟩
  · intro t disk t'
    rw [vfsLoad_eq, diskTable_vfsSync]
  · intro t disk lba hlba
    exact vfsSync_of_ge t disk hlba
  · intro k o r hk ho hr hret k' hdisk
    have htable : diskTable k'.disk = r.kernel.inodeArray := by
      rw [hdisk, hk.invariant.synced ho hr hret, diskTable_vfsSync]
    -- the root is a directory, so the start does not format the disk again
    obtain ⟨r', hr', hinv⟩ := hk.invariant.exec o
    obtain rfl : r' = r := by simpa [hr] using hr'.symm
    have hroot : (diskTable k'.disk 0).type = inodeDir := by
      rw [htable]
      simpa using hinv.sound.wellFormed.root_dir
    rw [vfsInit_of_dir hroot]
    exact ⟨htable, rfl⟩

/-- A directory is made on an empty disk, and the machine is rebooted with other bytes in memory. -/
theorem sync_load_init_mkdir :
    ∃ r, vfsMkdir (boot (fun _ _ => 0) ⟨0, fun _ => 0⟩) nameA = .ok r ∧
      (vfsInit r.kernel).inodeArray = r.kernel.inodeArray ∧
      (boot r.kernel.disk ⟨0x1000, fun _ => 0xFF⟩).inodeArray = r.kernel.inodeArray := by
  have hk := Reachable.boot (Formatted.zero fun _ _ => rfl) ⟨0, fun _ => 0⟩
  have hr := vfsMkdir_of_some hk.invariant.sound (cwd_boot_zero ⟨0, fun _ => 0⟩)
    (created_boot_zero ⟨0, fun _ => 0⟩ nameA inodeDir)
  have hinit := sync_load_init.2.2 _ (.mkdir nameA) _ hk trivial hr (by decide)
  exact ⟨_, hr, (hinit _ rfl).1, (hinit (powerOn _ ⟨0x1000, fun _ => 0xFF⟩) rfl).1⟩

/-! ### The records of the host tool -/

/-- The name that the tool stores is the one that a constructor would store. -/
theorem fileInode_name {vfsPath : String} {name : CString} (hname : name.bytes = utf8 vfsPath)
    (content : List UInt8) : (Mkfs.fileInode vfsPath content).name = freshName name := by
  funext i
  change ((utf8 vfsPath).take (maxFilename - 1)).getD i 0 = freshName name i
  rw [freshName, hname, List.getD_eq_getElem?_getD, List.getElem?_take]
  split_ifs <;> simp

/-- The bytes that the tool stores are those of the host file, as far as they fit. -/
theorem contents_fileInode (vfsPath : String) (content : List UInt8) :
    (Mkfs.fileInode vfsPath content).size.toNat = (content.take maxFileSize).length ∧
      contents (Mkfs.fileInode vfsPath content) = content.take maxFileSize := by
  have hlen : (content.take maxFileSize).length ≤ maxFileSize := List.length_take_le _ _
  have hsize : (Mkfs.fileInode vfsPath content).size.toNat = (content.take maxFileSize).length := by
    change (UInt32.ofNat (content.take maxFileSize).length).toNat = _
    rw [UInt32.toNat_ofNat', Nat.mod_eq_of_lt (lt_of_le_of_lt hlen (by decide))]
  refine ⟨hsize, contents_eq hsize hlen fun i _ => ?_⟩
  change ((content.take maxFileSize).take maxFileSize).getD i 0 = _
  rw [List.take_take, Nat.min_self]

/-- The table with the root directory and one file that the tool has installed. -/
def installedTable (vfsPath : String) (content : List UInt8) : InodeTable :=
  linkInode emptyTable 0 1 (Mkfs.fileInode vfsPath content)

section Installed

variable (vfsPath : String) (content : List UInt8)

theorem installedTable_zero : installedTable vfsPath content 0 = addEntry emptyRoot 1 := by
  rw [installedTable, linkInode_self, emptyTable_zero]

theorem installedTable_root_dir : (installedTable vfsPath content 0).type = inodeDir := by
  rw [installedTable_zero]
  rfl

theorem installedTable_one : installedTable vfsPath content 1 = Mkfs.fileInode vfsPath content :=
  linkInode_new (by decide)

theorem installedTable_of_ne {i : Fin maxInodes} (h0 : i ≠ 0) (h1 : i ≠ 1) :
    installedTable vfsPath content i = Inode.zero := by
  rw [installedTable, linkInode_of_ne h0 h1, emptyTable_of_ne h0]

/-- The tool writes that table to an image of zeros. -/
theorem diskTable_installed (prog diskImg : String) {hostFile : String}
    {hostFiles : String → Option (List UInt8)} (hfile : hostFiles hostFile = some content)
    (m : ℕ) :
    diskTable (imageDisk (Mkfs.main [prog, diskImg, hostFile, vfsPath] hostFiles
      (List.replicate m 0)).2) = installedTable vfsPath content := by
  rw [Mkfs.diskTable_main rfl hfile, Mkfs.diskTable_replicate_zero, mkfs_table_eq, installedTable]

/-- The kernel starts with that table and leaves the disk alone. -/
theorem boot_installed {disk : Disk} (htable : diskTable disk = installedTable vfsPath content)
    (memory : Memory) :
    boot disk memory =
      { powerOn disk memory with inodeArray := installedTable vfsPath content } := by
  have hroot : (diskTable (powerOn disk memory).disk 0).type = inodeDir := by
    change (diskTable disk 0).type = inodeDir
    rw [htable, installedTable_root_dir]
  rw [boot, vfsInit_of_dir hroot, ← htable]
  rfl

theorem boot_installed_disk {disk : Disk}
    (htable : diskTable disk = installedTable vfsPath content) (memory : Memory) :
    (boot disk memory).disk = disk := by
  rw [boot_installed vfsPath content htable]
  rfl

theorem fileInode_fileName {name : CString} (hname : name.bytes = utf8 vfsPath)
    (hlen : name.bytes.length ≤ 31) :
    (Mkfs.fileInode vfsPath content).fileName = name.bytes := by
  have hfresh := freshInode_fileName name inodeFile 0
  rw [List.take_of_length_le hlen] at hfresh
  rw [← hfresh, Inode.fileName, Inode.nameRegion, fileInode_name hname]
  rfl

/-- The file is found under its stored name, and nothing else is found. -/
theorem lookup_installed (m : List UInt8) :
    (tree (installedTable vfsPath content)).lookup 0 m =
      if (Mkfs.fileInode vfsPath content).fileName = m then some 1 else none := by
  have hne : (0 : Fin maxInodes) ≠ 1 := by decide
  have hfree : (tree emptyTable).kind 1 = .free := by decide
  have hrootDir : (tree emptyTable).kind 0 = .dir := by decide
  rw [installedTable, tree_linkInode hne (by decide) (newNode_fileInode vfsPath content),
    NamedTree.lookup_addChild_of_none soundTable_emptyTable.wellFormed hrootDir hfree
      (lookup_emptyTable m)]

theorem find_installed {name : CString} (hname : name.bytes = utf8 vfsPath)
    (hlen : name.bytes.length ≤ 31) :
    findInodeInDir (installedTable vfsPath content) 0 name = .ok (some 1) := by
  have hsound : SoundTable (installedTable vfsPath content) := soundTable_mkfs vfsPath content
  have hfind := findInodeInDir_eq hsound (installedTable_root_dir vfsPath content) name
  rwa [lookup_installed, if_pos (fileInode_fileName vfsPath content hname hlen)] at hfind

end Installed

/-- **A file that the host tool installs on an empty image is what the kernel finds after a start,
without writing to the disk.** -/
theorem boot_mkfs (prog diskImg hostFile vfsPath : String) (name : CString)
    (hostFiles : String → Option (List UInt8)) (content : List UInt8) (n : ℕ) (memory : Memory)
    (hname : name.bytes = utf8 vfsPath) (hlen : name.bytes.length ≤ 31)
    (hfile : hostFiles hostFile = some content) {disk : Disk}
    (hdisk : disk = imageDisk
      (Mkfs.main [prog, diskImg, hostFile, vfsPath] hostFiles (List.replicate (512 * n) 0)).2) :
    let k := boot disk memory
    ((k.inodeArray 0).type = inodeDir ∧ (k.inodeArray 0).numEntries = 1 ∧
        (k.inodeArray 0).dirEntries 0 = 1) ∧
      (k.inodeArray 1).fileName = name.bytes ∧
      (∀ i : Fin maxInodes, 2 ≤ i.val → (k.inodeArray i).type = inodeFree) ∧
      k.disk = disk ∧
      ∃ r, vfsRead k name (UInt32.ofNat maxFileSize) = .ok r ∧
        r.ret = (min content.length maxFileSize : ℕ) ∧ r.buffer = content.take maxFileSize := by
  have htable : diskTable disk = installedTable vfsPath content := by
    rw [hdisk]
    exact diskTable_installed vfsPath content prog diskImg hfile (512 * n)
  rw [boot_installed vfsPath content htable]
  dsimp only
  refine ⟨?_, ?_, ?_, rfl, ?_⟩
  · rw [installedTable_zero]
    exact ⟨rfl, rfl, rfl⟩
  · rw [installedTable_one]
    exact fileInode_fileName vfsPath content hname hlen
  · intro i hi
    have h0 : i ≠ 0 := by
      rintro rfl
      simp at hi
    have h1 : i ≠ 1 := by
      rintro rfl
      exact absurd hi (by decide)
    rw [installedTable_of_ne vfsPath content h0 h1]
    rfl
  · -- nothing is open after a start, so the file can be opened and read
    obtain ⟨hsize, hcontents⟩ := contents_fileInode vfsPath content
    have hone := installedTable_one vfsPath content
    have hclosed : AllClosed (powerOn disk memory).fdTable := fun _ => rfl
    obtain ⟨fd, hfd⟩ := findFreeFd_of_allClosed hclosed
    have hle : (installedTable vfsPath content 1).size.toNat ≤ maxFileSize := by
      rw [hone, hsize]
      exact List.length_take_le _ _
    obtain ⟨r, hr, hret, hbuf⟩ := vfsRead_whole
      (k := { powerOn disk memory with inodeArray := installedTable vfsPath content })
      (find_installed vfsPath content hname hlen) (congrArg Inode.type hone) hfd hle
    dsimp only at hret hbuf
    refine ⟨r, hr, ?_, ?_⟩
    · rw [hret, hone, hsize, List.length_take, Nat.min_comm]
    · rw [hbuf, hone, hcontents]

/-- A file of two bytes, installed under the name `a`. -/
theorem boot_mkfs_two :
    ∃ r, vfsRead (boot (imageDisk (Mkfs.main ["mkfs.py", "disk.img", "f", "a"]
        (fun _ => some [1, 2]) (List.replicate (512 * 544) 0)).2) ⟨0, fun _ => 0⟩)
      nameA (UInt32.ofNat maxFileSize) = .ok r ∧ r.buffer = [1, 2] := by
  obtain ⟨-, -, -, -, r, hr, -, hbuf⟩ :=
    boot_mkfs "mkfs.py" "disk.img" "f" "a" nameA (fun _ => some [1, 2])
      [1, 2] 544 ⟨0, fun _ => 0⟩ (by decide) (by decide) rfl rfl
  exact ⟨r, hr, hbuf⟩

/-! ### A disk with one file -/

/-- A disk with that file under the name `a`. -/
def diskWith (content : List UInt8) : Disk :=
  imageDisk (Mkfs.main ["mkfs.py", "disk.img", "f", "a"] (fun _ => some content)
    (List.replicate (512 * 544) 0)).2

/-- The state after booting from it. -/
def bootWith (content : List UInt8) : Kernel := boot (diskWith content) ⟨0, fun _ => 0⟩

section BootWith

variable (content : List UInt8)

theorem formatted_diskWith : Formatted (diskWith content) := Formatted.mkfs _ _ _

theorem diskTable_diskWith : diskTable (diskWith content) = installedTable "a" content :=
  diskTable_installed "a" content _ _ rfl _

theorem bootWith_inodeArray : (bootWith content).inodeArray = installedTable "a" content := by
  rw [bootWith, boot_installed "a" content (diskTable_diskWith content)]

theorem bootWith_one : (bootWith content).inodeArray 1 = Mkfs.fileInode "a" content := by
  rw [bootWith_inodeArray, installedTable_one]

theorem diskTable_bootWith : diskTable (bootWith content).disk = installedTable "a" content := by
  have hdisk := diskTable_diskWith content
  rw [bootWith, boot_installed_disk "a" content hdisk, hdisk]

theorem bootWith_memory : (bootWith content).memory = ⟨0, fun _ => 0⟩ := by
  rw [bootWith, boot_installed "a" content (diskTable_diskWith content)]
  rfl

theorem Reachable.bootWith : Reachable (bootWith content) :=
  Reachable.boot (formatted_diskWith content) _

theorem cwd_bootWith : Cwd (bootWith content) 0 := by
  rw [bootWith, boot_installed "a" content (diskTable_diskWith content)]
  exact ⟨rfl, installedTable_root_dir "a" content⟩

/-- The file is there, and nothing else is. -/
theorem lookup_bootWith (m : List UInt8) :
    (tree (bootWith content).inodeArray).lookup 0 m = if nameA.bytes = m then some 1 else none := by
  have hname := fileInode_fileName "a" content (show nameA.bytes = utf8 "a" by decide) (by decide)
  rw [bootWith_inodeArray, lookup_installed, hname]

theorem find_bootWith (name : CString) :
    findInodeInDir (bootWith content).inodeArray (bootWith content).currentDir name =
      .ok (if nameA.bytes = name.bytes then some 1 else none) := by
  rw [(cwd_bootWith content).find (Reachable.bootWith content).invariant.sound, lookup_bootWith]

theorem fileInode_size_le : (Mkfs.fileInode "a" content).size.toNat ≤ maxFileSize := by
  rw [(contents_fileInode "a" content).1]
  exact List.length_take_le _ _

end BootWith

end Anaga
