/-
**A call that is interrupted.**

What a power failure in the middle of a call can do to the files.  The inodes that come first on the
disk are then those after the call, and the others are those before it.  As inodes are handed out in
this order and entered at the ends of the directories, every name means after the next start what it
would have meant if the power had failed before the call, or what it would have meant after it.  The
data of a file is a part of what would have been found after the call, followed by the rest of what
was there before.

Main definitions:

* `Anaga.Unnamed`, `Anaga.Tidy` — free inodes have no name, and come last;
* `Anaga.Tracks` — a table, and what it has grown from.

Main results:

* `Anaga.Reachable.tracks` — in every reachable state the table in memory has grown from the one on
  disk;
* `Anaga.interrupted_lookup` — **every name means what it would have meant before the call or after
  it**;
* `Anaga.interrupted_inode` — **every used inode is what it was, and its data is in part that
  after the call and in part that before it**.
-/

import Anaga.Constructors
import Anaga.PowerFailure

set_option relaxedAutoImplicit false
set_option autoImplicit false

namespace Anaga

open Transition

/-! ### Free inodes -/

/-- Free inodes have no name. -/
def Unnamed (t : InodeTable) : Prop := ∀ i, (t i).type = inodeFree → (t i).fileName = []

section Unnamed

variable {t t' : InodeTable} {d idx : Fin maxInodes} {name : CString} {type : UInt32}

theorem Unnamed.fresh (h : Unnamed t) (hf : Fresh t t' d idx name type)
    (htype : type = inodeFile ∨ type = inodeDir) : Unnamed t' := by
  intro i hi
  by_cases hii : i = idx
  · have hnew := hf.new
    rw [hii, hnew] at hi
    exact absurd hi (newNode_freshInode name d htype).type_ne_free
  · rw [hf.table, (linkInode_old hii).1] at hi
    rw [hf.table, Inode.fileName, Inode.nameRegion, (linkInode_old hii).2.1]
    exact h i hi

theorem Unnamed.write (h : Unnamed t) (idx : Fin maxInodes) (content : CString) :
    Unnamed (writeTable t idx content) := by
  intro i hi
  have hold := write_old t idx content i
  rw [hold.2.1] at hi
  rw [Inode.fileName, Inode.nameRegion, hold.1]
  exact h i hi

theorem Unnamed.of_writeTarget (h : Unnamed t) (hd : (t d).type = inodeDir)
    (hc : writeTarget t d name = some (idx, t')) : Unnamed t' := by
  rcases writeTarget_eq_some_iff.1 hc with ⟨-, -, rfl⟩ | ⟨-, hcr⟩
  · exact h
  · exact h.fresh (Fresh.of_created hd hcr) (Or.inl rfl)

theorem fileName_zero : Inode.zero.fileName = [] := by
  have hzero : Inode.zero.nameRegion = List.replicate 32 0 := List.ofFn_const 32 0
  rw [Inode.fileName, hzero]
  rfl

theorem unnamed_emptyTable : Unnamed emptyTable := by
  intro i hi
  have hne : i ≠ 0 := by
    rintro rfl
    rw [emptyTable_zero] at hi
    exact inodeDir_ne_free hi
  rw [emptyTable_of_ne hne]
  exact fileName_zero

theorem Unnamed.fileName_ne (h : Unnamed t) {i : Fin maxInodes} (hi : (t i).type = inodeFree)
    {m : List UInt8} (hm : m ≠ []) : (t i).fileName ≠ m := by
  rw [h i hi]
  exact hm.symm

end Unnamed

/-! ### Tables that grow -/

/-- Free inodes have no name, and come last. -/
structure Tidy (t : InodeTable) : Prop where
  unnamed : Unnamed t
  compact : (tree t).Compact

/-- The table in memory has grown from the one on disk. -/
structure Tracks (old new : InodeTable) : Prop where
  stored : Tidy old
  tidy : Tidy new
  grown : (tree old).Extends (tree new)

section Tracks

variable {old new t : InodeTable} {d idx : Fin maxInodes} {name : CString} {type : UInt32}

theorem Tidy.tracks (h : Tidy t) : Tracks t t := ⟨h, h, .refl _⟩

theorem Tracks.created (h : Tracks old new) (hn : SoundTable new) (hd : (new d).type = inodeDir)
    (htype : type = inodeFile ∨ type = inodeDir)
    (hc : created new d name type = some (idx, t)) : Tracks old t := by
  have hf := Fresh.of_created hd hc
  have hdir : (tree new).kind d = .dir := by simpa using hd
  have hfree : (tree new).kind idx = .free := by simpa using hf.free
  have hkind : kindOf type ≠ .free := by rcases htype with rfl | rfl <;> decide
  have hfirst : ∀ i < idx, (tree new).kind i ≠ .free := fun i hi => by
    simpa using lt_findFreeInode (created_eq_some_iff.1 hc).1 i hi
  refine ⟨h.stored, ⟨h.tidy.unnamed.fresh hf htype, ?_⟩, ?_⟩
  · rw [hf.tree_eq htype]
    exact h.tidy.compact.addChild hfirst hkind
  · rw [hf.tree_eq htype]
    exact h.grown.addChild hn.wellFormed hdir hfree h.tidy.compact

theorem Tracks.write (h : Tracks old new) (hn : SoundTable new) (hd : (new d).type = inodeDir)
    (hc : writeTarget new d name = some (idx, t)) (content : CString) :
    Tracks old (writeTable t idx content) := by
  have ht : Tracks old t := by
    rcases writeTarget_eq_some_iff.1 hc with ⟨-, -, rfl⟩ | ⟨-, hcr⟩
    · exact h
    · exact h.created hn hd (Or.inl rfl) hcr
  have htree := tree_write t idx content
  refine ⟨h.stored, ⟨ht.tidy.unnamed.write idx content, ?_⟩, ?_⟩
  · rw [htree]
    exact ht.tidy.compact
  · rw [htree]
    exact ht.grown

end Tracks

/-! ### The table on disk is behind the one in memory -/

section Step

variable {k : Kernel}

theorem Tracks.synced {old t : InodeTable} (h : Tracks old t) (disk : Disk) :
    Tracks (diskTable (vfsSync t disk)) t ∧ Tracks old (diskTable (vfsSync t disk)) := by
  rw [diskTable_vfsSync]
  exact ⟨h.tidy.tracks, h⟩

/-- **Every call keeps it so, and what is on disk after the call has grown from what was.** -/
theorem Tracks.exec (h : Tracks (diskTable k.disk) k.inodeArray) (hk : Invariant k) {o : Op}
    {r : Result} (hr : o.exec k = .ok r) :
    Tracks (diskTable r.kernel.disk) r.kernel.inodeArray ∧
      Tracks (diskTable k.disk) (diskTable r.kernel.disk) := by
  obtain ⟨d, hd⟩ := hk.cwd
  have hstored := h.stored.tracks
  cases outcome_of_exec hk.sound hd hk.closed hr with
  | fail msg hnone hwrite => exact ⟨h, hstored⟩
  | mkdir hc => exact (h.created hk.sound hd.dir (Or.inr rfl) hc).synced k.disk
  | touch hc => exact (h.created hk.sound hd.dir (Or.inl rfl) hc).synced k.disk
  | write fd hc hlen => exact (h.write hk.sound hd.dir hc _).synced k.disk
  | cut fd hc hlen => exact ⟨h.write hk.sound hd.dir hc _, hstored⟩
  | cd hc => exact ⟨h, hstored⟩
  | keeps ho hkeeps =>
      rw [hkeeps.disk, hkeeps.inodeArray]
      exact ⟨h, hstored⟩
  | init =>
      obtain ⟨-, hdisk⟩ := Survives.init (k := k) hk.stored hk.closed
      rw [hdisk, vfsInit_of_dir (k := k) hk.stored.groundedTable.root_dir]
      exact ⟨hstored, hstored⟩

end Step

/-! ### Formatted disks -/

theorem tidy_emptyTable : Tidy emptyTable where
  unnamed := unnamed_emptyTable
  compact := by
    intro i j hij hj
    obtain rfl := eq_zero_of_emptyTable (by simpa using hj)
    obtain rfl : i = 0 := Fin.le_zero_iff.1 hij
    exact hj

theorem tidy_installed (vfsPath : String) (content : List UInt8) :
    Tidy (linkInode emptyTable 0 1 (Mkfs.fileInode vfsPath content)) := by
  have hne : (0 : Fin maxInodes) ≠ 1 := by decide
  have hroom : (emptyTable 0).numEntries.toNat < maxDirEntries := by
    rw [emptyTable_numEntries]
    decide
  constructor
  · intro i hi
    have hi1 : i ≠ 1 := by
      rintro rfl
      rw [linkInode_new hne] at hi
      exact inodeFile_ne_free hi
    rw [(linkInode_old hi1).1] at hi
    rw [Inode.fileName, Inode.nameRegion, (linkInode_old hi1).2.1]
    exact unnamed_emptyTable i hi
  · rw [tree_linkInode hne hroom (newNode_fileInode vfsPath content)]
    refine tidy_emptyTable.compact.addChild (fun i hi => ?_) ?_
    · obtain rfl : i = 0 := Fin.ext (Nat.lt_one_iff.1 hi)
      rw [soundTable_emptyTable.wellFormed.root_dir]
      decide
    · change kindOf inodeFile ≠ .free
      decide

theorem Tracks.boot {disk : Disk} (h : Formatted disk) (memory : Memory) :
    Tracks (diskTable (boot disk memory).disk) (boot disk memory).inodeArray := by
  rcases h.diskTable_eq with hzero | ⟨vfsPath, content, htable⟩
  · rw [boot_of_zero hzero]
    exact (tidy_emptyTable.tracks.synced disk).1
  · have hroot : (diskTable (powerOn disk memory).disk 0).type = inodeDir :=
      (htable ▸ soundTable_mkfs vfsPath content).groundedTable.root_dir
    rw [Anaga.boot, vfsInit_of_dir hroot]
    change Tracks (diskTable disk) (diskTable disk)
    rw [htable]
    exact (tidy_installed vfsPath content).tracks

/-- **In every reachable state the table in memory has grown from the one on disk.** -/
theorem Reachable.tracks {k : Kernel} (h : Reachable k) :
    Tracks (diskTable k.disk) k.inodeArray := by
  obtain ⟨disk, memory, ops, hdisk, hrun⟩ := h
  have hboth : Invariant k ∧ Tracks (diskTable k.disk) k.inodeArray := by
    refine run_invariant (P := fun k => Invariant k ∧ Tracks (diskTable k.disk) k.inodeArray) ?_
      ⟨Invariant.boot hdisk memory, Tracks.boot hdisk memory⟩ hrun
    rintro s o s' ⟨hs, ht⟩ hstep
    obtain ⟨r, hr, hinv⟩ := hs.exec o
    obtain rfl : r.kernel = s' := by
      rw [Op.step_of_exec hr] at hstep
      exact Except.ok.inj hstep
    exact ⟨hinv, (ht.exec hs hr).1⟩
  exact hboth.2

theorem Reachable.survives {k : Kernel} (h : Reachable k) : Survives k := by
  obtain ⟨disk, memory, ops, hdisk, hrun⟩ := h
  refine run_invariant (P := Survives) ?_ (hdisk.startable.boot memory) hrun
  intro s o s' hs hstep
  obtain ⟨t, ht, hinv⟩ := hs.step o
  obtain rfl := Except.ok.inj (ht.symm.trans hstep)
  exact hinv

/-! ### After the next start -/

/-- The table in memory after a start from the disk. -/
def startTable (disk : Disk) (memory : Memory) : InodeTable := (boot disk memory).inodeArray

/-- A start from a disk with a root directory takes the table on it. -/
theorem startTable_eq {disk : Disk} (h : GroundedTable (diskTable disk)) (memory : Memory) :
    startTable disk memory = diskTable disk := by
  rw [startTable, boot, vfsInit_of_dir (k := powerOn disk memory) h.root_dir]
  rfl

section Interrupted

variable {k : Kernel} {o : Op} {r : Result}

/-- The tables that a start finds before and after a call, and when the power fails in the middle of
it. -/
theorem Reachable.startTable_eq (hk : Reachable k) (hr : o.exec k = .ok r) (memory : Memory)
    (n : ℕ) :
    startTable k.disk memory = diskTable k.disk ∧
      startTable r.kernel.disk memory = diskTable r.kernel.disk ∧
      startTable (torn n k.disk r.kernel.disk) memory =
        diskTable (torn n k.disk r.kernel.disk) := by
  obtain ⟨r', hr', hinv⟩ := hk.invariant.exec o
  obtain rfl := Except.ok.inj (hr'.symm.trans hr)
  exact ⟨Anaga.startTable_eq hk.invariant.stored.groundedTable memory,
    Anaga.startTable_eq hinv.stored.groundedTable memory,
    Anaga.startTable_eq (hk.survives.torn hr n) memory⟩

/-- The names and the entries of the inodes are those after the call where their first sector has
been written, and those before it elsewhere. -/
theorem tree_torn (n : ℕ) (old new : Disk) (i : Fin maxInodes) :
    (i * inodeSectors < n →
        (tree (diskTable (torn n old new))).name i = (tree (diskTable new)).name i ∧
          (tree (diskTable (torn n old new))).children i = (tree (diskTable new)).children i) ∧
      (¬ i * inodeSectors < n →
        (tree (diskTable (torn n old new))).name i = (tree (diskTable old)).name i ∧
          (tree (diskTable (torn n old new))).children i = (tree (diskTable old)).children i) := by
  constructor
  · intro h
    simp only [tree]
    rw [diskTable_torn_of_lt old new h]
    exact ⟨rfl, rfl⟩
  · intro h
    simp only [tree]
    rw [diskTable_torn_of_ge old new (not_lt.1 h)]
    exact ⟨rfl, rfl⟩

/-- **If the power fails in the middle of a call, every name means after the next start what it
would have meant if it had failed before the call, or what it would have meant after the call.** -/
theorem interrupted_lookup (hk : Reachable k) (hr : o.exec k = .ok r) (memory : Memory) (n : ℕ)
    {d : Fin maxInodes} (hd : (startTable k.disk memory d).type = inodeDir) {name : CString}
    (hname : name.bytes ≠ []) :
    findInodeInDir (startTable (torn n k.disk r.kernel.disk) memory) d name =
        findInodeInDir (startTable k.disk memory) d name ∨
      findInodeInDir (startTable (torn n k.disk r.kernel.disk) memory) d name =
        findInodeInDir (startTable r.kernel.disk memory) d name := by
  obtain ⟨hold, hnew, htorn⟩ := hk.startTable_eq hr memory n
  rw [hold] at hd ⊢
  rw [hnew, htorn]
  obtain ⟨r', hr', hinv⟩ := hk.invariant.exec o
  obtain rfl := Except.ok.inj (hr'.symm.trans hr)
  have hsound := hk.invariant.stored
  have htracks := (hk.tracks.exec hk.invariant hr).2
  have hdir : (tree (diskTable k.disk)).kind d = .dir := by simpa using hd
  have hdnew : (diskTable r'.kernel.disk d).type = inodeDir := by
    have hkind := htracks.grown.kind_eq d (by rw [hdir]; decide)
    rw [hdir] at hkind
    simpa using hkind
  have hdtorn : (diskTable (torn n k.disk r'.kernel.disk) d).type = inodeDir :=
    (mixed_torn n k.disk r'.kernel.disk).forall (P := fun i => i.type = inodeDir) (fun _ _ h => h)
      hd hdnew
  rw [findInodeInDir_eq (hk.survives.torn hr n) hdtorn, findInodeInDir_eq hsound hd,
    findInodeInDir_eq hinv.stored hdnew]
  -- the inodes whose first sector has been written are the first ones
  have hlookup := htracks.grown.lookup_of_cut hsound.wellFormed
    (P := fun i => i * inodeSectors < n)
    (fun i j hij hj => (Nat.mul_le_mul_right _ hij).trans_lt hj)
    (fun i hi => (tree_torn n k.disk r'.kernel.disk i).1 hi)
    (fun i hi => (tree_torn n k.disk r'.kernel.disk i).2 hi) hdir
    (fun i hi => htracks.stored.unnamed.fileName_ne (by simpa using hi) hname)
  rcases hlookup with h | h
  · exact Or.inl (congrArg Except.ok h)
  · exact Or.inr (congrArg Except.ok h)

/-- A directory is made on an empty disk, and the power fails when the root has been written. -/
theorem interrupted_lookup_mkdir :
    ∃ r, (Op.mkdir nameA).exec (boot (fun _ _ => 0) ⟨0, fun _ => 0⟩) = .ok r ∧
      (findInodeInDir (startTable (torn 17 (boot (fun _ _ => 0) ⟨0, fun _ => 0⟩).disk r.kernel.disk)
          ⟨0, fun _ => 0⟩) 0 nameA =
          findInodeInDir (startTable (boot (fun _ _ => 0) ⟨0, fun _ => 0⟩).disk ⟨0, fun _ => 0⟩) 0
            nameA ∨
        findInodeInDir (startTable (torn 17 (boot (fun _ _ => 0) ⟨0, fun _ => 0⟩).disk r.kernel.disk)
          ⟨0, fun _ => 0⟩) 0 nameA =
          findInodeInDir (startTable r.kernel.disk ⟨0, fun _ => 0⟩) 0 nameA) := by
  have hk := Reachable.boot_zero ⟨0, fun _ => 0⟩
  obtain ⟨r, hr, -⟩ := hk.invariant.exec (.mkdir nameA)
  have hroot := hk.invariant.stored.groundedTable
  exact ⟨r, hr, interrupted_lookup (d := 0) hk hr ⟨0, fun _ => 0⟩ 17
    (by rw [startTable_eq hroot]; exact hroot.root_dir) (by decide)⟩

/-- The byte `o` of the data is the byte `dataOffset + o` of the inode. -/
theorem data_torn (n : ℕ) (old new : Disk) (i : Fin maxInodes) (o : Fin maxFileSize) :
    (diskTable (torn n old new) i).data o =
      if o.val < sectorSize * (n - i * inodeSectors) - dataOffset then (diskTable new i).data o
      else (diskTable old i).data o := by
  have ho : o.val < 8192 := o.isLt
  have hbyte : ∀ m : Inode, m.data o = m.byte (dataOffset + o) := fun m => (m.byte_data o).symm
  rw [hbyte, hbyte, hbyte,
    byte_diskTable_torn _ _ _ _ (by simp only [dataOffset, sizeofInode]; omega)]
  have hiff : i * inodeSectors + (dataOffset + o) / sectorSize < n ↔
      o.val < sectorSize * (n - i * inodeSectors) - dataOffset := by
    simp only [sectorSize, dataOffset]
    omega
  simp only [hiff]

/-- **And every inode that was in use has the name, the type and the parent that it had; its data is
a part of what would have been found after the call, followed by the rest of what was there before;
and if any of it is new, so is its size.** -/
theorem interrupted_inode (hk : Reachable k) (hr : o.exec k = .ok r) (memory : Memory) (n : ℕ)
    {i : Fin maxInodes} (hi : (startTable k.disk memory i).type ≠ inodeFree) :
    (startTable (torn n k.disk r.kernel.disk) memory i).fileName =
        (startTable k.disk memory i).fileName ∧
      (startTable (torn n k.disk r.kernel.disk) memory i).type =
        (startTable k.disk memory i).type ∧
      (startTable (torn n k.disk r.kernel.disk) memory i).parentInode =
        (startTable k.disk memory i).parentInode ∧
      ∃ c, (∀ b : Fin maxFileSize, (startTable (torn n k.disk r.kernel.disk) memory i).data b =
          if b.val < c then (startTable r.kernel.disk memory i).data b
          else (startTable k.disk memory i).data b) ∧
        ((startTable (torn n k.disk r.kernel.disk) memory i).size =
            (startTable r.kernel.disk memory i).size ∨
          c = 0 ∧ (startTable (torn n k.disk r.kernel.disk) memory i).size =
            (startTable k.disk memory i).size) := by
  obtain ⟨hold, hnew, htorn⟩ := hk.startTable_eq hr memory n
  rw [hold] at hi ⊢
  rw [hnew, htorn]
  have hname := (hk.tracks.exec hk.invariant hr).2.grown.name_eq i (by simpa using hi)
  obtain ⟨r', hr', -, hprec⟩ := hk.survives.exec o
  obtain rfl := Except.ok.inj (hr'.symm.trans hr)
  obtain ⟨htype, hparent⟩ := hprec.used i hi
  rcases Nat.lt_or_ge (i * inodeSectors) n with hlt | hge
  · have h := diskTable_torn_of_lt k.disk r'.kernel.disk hlt
    refine ⟨?_, ?_, ?_, _, data_torn n k.disk r'.kernel.disk i, Or.inl ?_⟩
    · rw [h]
      exact hname
    · rw [h]
      exact htype
    · rw [h]
      exact hparent
    · rw [h]
  · have h := diskTable_torn_of_ge k.disk r'.kernel.disk hge
    refine ⟨?_, ?_, ?_, _, data_torn n k.disk r'.kernel.disk i, Or.inr ⟨?_, ?_⟩⟩
    · rw [h]
      rfl
    · rw [h]
    · rw [h]
    · rw [Nat.sub_eq_zero_of_le hge, Nat.mul_zero, Nat.zero_sub]
    · rw [h]

end Interrupted

/-- A content of 600 bytes. -/
def newText : CString where
  bytes := List.replicate 600 98
  noNul := by
    rw [List.mem_replicate]
    decide
  length_lt := by
    rw [List.length_replicate]
    norm_num

/-- A file of 600 bytes is overwritten, and the power fails when the first sector of its inode has
been written: the first bytes of the file are new, and the last ones are not. -/
theorem interrupted_inode_overwrite :
    ∃ r, (Op.writeFile nameA newText).exec (bootWith (List.replicate 600 97)) = .ok r ∧
      ∃ c, (∀ b : Fin maxFileSize,
          (startTable (torn 18 (bootWith (List.replicate 600 97)).disk r.kernel.disk)
            ⟨0, fun _ => 0⟩ 1).data b =
          if b.val < c then (startTable r.kernel.disk ⟨0, fun _ => 0⟩ 1).data b
          else (startTable (bootWith (List.replicate 600 97)).disk ⟨0, fun _ => 0⟩ 1).data b) ∧
        0 < c ∧ c < 600 := by
  have hk := Reachable.bootWith (List.replicate 600 97)
  have hd := cwd_bootWith (List.replicate 600 97)
  have hold := diskTable_bootWith (List.replicate 600 97)
  have htarget : writeTarget (bootWith (List.replicate 600 97)).inodeArray 0 nameA =
      some (1, installedTable "a" (List.replicate 600 97)) := by
    refine writeTarget_eq_some_iff.2 (Or.inl ⟨?_, ?_, (bootWith_inodeArray _).symm⟩)
    · rw [lookup_bootWith, if_pos rfl]
    · rw [bootWith_one]
      rfl
  generalize bootWith (List.replicate 600 97) = k at hk hd hold htarget
  obtain ⟨fd, hfd⟩ := findFreeFd_of_allClosed hk.invariant.closed
  have hlen : newText.bytes.length = 600 := List.length_replicate
  have hr : (Op.writeFile nameA newText).exec k = .ok _ :=
    vfsWriteFile_of_le hk.invariant.sound hd hfd htarget (by rw [hlen]; decide)
  obtain ⟨hstart, hstart', htorn⟩ := hk.startTable_eq hr ⟨0, fun _ => 0⟩ 18
  have hused : (startTable k.disk ⟨0, fun _ => 0⟩ 1).type ≠ inodeFree := by
    rw [hstart, hold, installedTable_one]
    exact inodeFile_ne_free
  obtain ⟨-, -, -, c, hdata, -⟩ := interrupted_inode hk hr ⟨0, fun _ => 0⟩ 18 hused
  refine ⟨_, hr, c, hdata, ?_⟩
  rw [hstart, hstart', htorn, hold] at hdata
  -- the bytes before and after the call, and the first sector that is written
  have hnew (b : Fin maxFileSize) (hb : b.val < 600) :
      (diskTable (vfsSync (writeTable (installedTable "a" (List.replicate 600 97)) 1 newText)
        k.disk) 1).data b = 98 := by
    rw [diskTable_vfsSync, writeTable_self, written]
    dsimp only
    rw [if_pos (hlen.symm ▸ hb), newText, List.getD_replicate _ hb]
  have hbefore (b : Fin maxFileSize) (hb : b.val < 600) :
      (installedTable "a" (List.replicate 600 97) 1).data b = 97 := by
    rw [installedTable_one]
    change (((List.replicate 600 97).take maxFileSize).take maxFileSize).getD b.val (0 : UInt8) = 97
    rw [List.take_take, List.take_replicate, List.getD_replicate]
    exact hb
  have hfirst := data_torn 18 k.disk
    (vfsSync (writeTable (installedTable "a" (List.replicate 600 97)) 1 newText) k.disk) 1
  rw [hold] at hfirst
  have h₀ := (hdata ⟨0, by decide⟩).symm.trans (hfirst ⟨0, by decide⟩)
  have h₁ := (hdata ⟨599, by decide⟩).symm.trans (hfirst ⟨599, by decide⟩)
  dsimp only at h₀ h₁
  rw [hnew _ (by decide), hbefore _ (by decide)] at h₀ h₁
  constructor
  · by_contra hc
    rw [if_neg hc] at h₀
    exact absurd h₀ (by decide)
  · by_contra hc
    rw [if_pos (by omega)] at h₁
    exact absurd h₁ (by decide)


end Anaga
