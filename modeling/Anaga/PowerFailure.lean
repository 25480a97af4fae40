/-
**Power failures.**

There is no journal: a sync overwrites the inode table in place, sector by sector, and where the
power fails in the middle of one, the next start finds some sectors that are new and some that are
old.  The fields of an inode other than its data are all in its first sector, so every inode is
found with its old or its new fields.  A directory can then hold an entry of an inode that is still
free, and an inode can be in use without an entry.  But the parents of the used inodes still lead to
the root: a directory that is a parent was synced before its children were made.  That is what the
functions need to stay inside their arrays, however often the power fails.

Main definitions:

* `Anaga.Precedes` — the table on disk when a sync begins, and the one that is synced;
* `Anaga.Survives` — what holds of every state between power failures;
* `Anaga.PowerEvent` — a call, or a call that is cut by a power failure and followed by a start;
* `Anaga.Startable`, `Anaga.Cycle` — the disks that a start can do with, and what happens between
  switching the machine on and its losing power.

Main results:

* `Anaga.byte_diskTable_torn` — what is found on a torn disk;
* `Anaga.GroundedTable.mixed` — **old and new inodes together are a grounded table**;
* `Anaga.Ata.start_refines` — **the file system works through the ports of the drive**;
* `Anaga.run_survives` — **no call leaves an array, after whatever power failures**;
* `Anaga.cycles_survive` — and in front of whatever access to the drive the power fails, the next
  start finds a table that it can work with.
-/

import Anaga.Robust
import Anaga.Sectors

set_option relaxedAutoImplicit false
set_option autoImplicit false

namespace Anaga

open Transition

/-! ### Torn disks -/

theorem byte_diskTable (disk : Disk) (i : Fin maxInodes) {o : ℕ} (ho : o < sizeofInode) :
    (diskTable disk i).byte o =
      driveReadSector disk (i * inodeSectors + o / sectorSize) (o % sectorSize) := by
  rw [diskTable, Inode.byte_ofBytes _ ho]
  simp only [inodeTableSector, Nat.zero_add]

/-- **Every byte of an inode is that of the new disk if its sector has been replaced, and that of
the old disk otherwise.** -/
theorem byte_diskTable_torn (n : ℕ) (old new : Disk) (i : Fin maxInodes) {o : ℕ}
    (ho : o < sizeofInode) :
    (diskTable (torn n old new) i).byte o =
      if i * inodeSectors + o / sectorSize < n then (diskTable new i).byte o
      else (diskTable old i).byte o := by
  rw [byte_diskTable _ _ ho, byte_diskTable _ _ ho, byte_diskTable _ _ ho]
  simp only [driveReadSector, torn]
  split_ifs <;> rfl

/-- Inodes whose bytes in front of the data agree have the same fields. -/
theorem Inode.eq_withData {m n : Inode} (h : ∀ o < dataOffset, m.byte o = n.byte o) :
    m = { n with data := m.data } := by
  simp only [dataOffset] at h
  have hword : ∀ o, o + 4 ≤ 112 → Bytes.word m.byte o = Bytes.word n.byte o :=
    fun o ho => Bytes.word_congr fun k hk => h (o + k) (by omega)
  have hm := m.ofBytes_byte
  have hn := n.ofBytes_byte
  apply Inode.ext
  · rw [← hm, ← hn]
    funext i
    have hi : i.val < 32 := i.isLt
    exact h i (by omega)
  · rw [← hm, ← hn]
    exact hword 32 (by omega)
  · rw [← hm, ← hn]
    exact hword 36 (by omega)
  · rw [← hm, ← hn]
    exact hword 40 (by omega)
  · rw [← hm, ← hn]
    exact hword 44 (by omega)
  · rw [← hm, ← hn]
    funext i
    have hi : i.val < 16 := i.isLt
    exact hword (48 + 4 * i) (by omega)
  · rfl

/-- The fields of an inode are in its first sector. -/
theorem diskTable_torn_of_lt {n : ℕ} (old new : Disk) {i : Fin maxInodes}
    (h : i * inodeSectors < n) :
    diskTable (torn n old new) i =
      { diskTable new i with data := (diskTable (torn n old new) i).data } := by
  refine Inode.eq_withData fun o ho => ?_
  simp only [dataOffset] at ho
  rw [byte_diskTable_torn _ _ _ _ (by simp only [sizeofInode]; omega),
    Nat.div_eq_of_lt (by simp only [sectorSize]; omega), Nat.add_zero, if_pos h]

theorem diskTable_torn_of_ge {n : ℕ} (old new : Disk) {i : Fin maxInodes}
    (h : n ≤ i * inodeSectors) :
    diskTable (torn n old new) i =
      { diskTable old i with data := (diskTable (torn n old new) i).data } := by
  refine Inode.eq_withData fun o ho => ?_
  simp only [dataOffset] at ho
  rw [byte_diskTable_torn _ _ _ _ (by simp only [sizeofInode]; omega),
    Nat.div_eq_of_lt (by simp only [sectorSize]; omega), Nat.add_zero, if_neg (not_lt.2 h)]

/-! ### Old and new inodes together -/

/-- Every inode of the table has the fields of the old or of the new one. -/
def Mixed (old new m : InodeTable) : Prop :=
  ∀ i, m i = { old i with data := (m i).data } ∨ m i = { new i with data := (m i).data }

theorem mixed_torn (n : ℕ) (old new : Disk) :
    Mixed (diskTable old) (diskTable new) (diskTable (torn n old new)) := by
  intro i
  rcases Nat.lt_or_ge (i * inodeSectors) n with h | h
  · exact Or.inr (diskTable_torn_of_lt old new h)
  · exact Or.inl (diskTable_torn_of_ge old new h)

/-- The table `old` precedes the table `new`: its used inodes are what they were, and the parents of
the used inodes of `new` were directories already. -/
structure Precedes (old new : InodeTable) : Prop where
  used : ∀ i, (old i).type ≠ inodeFree →
    (new i).type = (old i).type ∧ (new i).parentInode = (old i).parentInode
  parents : ∀ i, (new i).type ≠ inodeFree → i ≠ 0 →
    (old ((tree new).parent i)).type = inodeDir

theorem parent_congr {t t' : InodeTable} {i : Fin maxInodes}
    (h : (t i).parentInode = (t' i).parentInode) : (tree t).parent i = (tree t').parent i :=
  congrArg (fun p : UInt32 => Fin.ofNat maxInodes p.toNat) h

section Mixed

variable {old new m : InodeTable}

theorem Precedes.refl (h : GroundedTable old) : Precedes old old :=
  ⟨fun _ _ => ⟨rfl, rfl⟩, h.parent_dir⟩

/-- A property of the fields of an inode holds of every inode of a mixed table if it holds of those
of the two tables. -/
theorem Mixed.forall (hm : Mixed old new m) {P : Inode → Prop}
    (hP : ∀ (n : Inode) data, P n → P { n with data := data }) {i : Fin maxInodes}
    (hold : P (old i)) (hnew : P (new i)) : P (m i) := by
  rcases hm i with h | h
  · rw [h]
    exact hP _ _ hold
  · rw [h]
    exact hP _ _ hnew

/-- What a used inode of a mixed table has for a parent. -/
theorem Mixed.parent (hm : Mixed old new m) (ho : GroundedTable old) (hp : Precedes old new)
    {i : Fin maxInodes} (hi : (m i).type ≠ inodeFree) :
    (new i).type ≠ inodeFree ∧ (tree m).parent i = (tree new).parent i ∧
      (i ≠ 0 → (m ((tree new).parent i)).type = inodeDir) := by
  have hdir : ∀ p, (old p).type = inodeDir → (m p).type = inodeDir := by
    intro p hold
    have hused : (old p).type ≠ inodeFree := by
      rw [hold]
      exact inodeDir_ne_free
    refine hm.forall (P := fun n => n.type = inodeDir) (fun _ _ h => h) hold ?_
    rw [(hp.used p hused).1]
    exact hold
  rcases hm i with h | h
  · have hused : (old i).type ≠ inodeFree := by rwa [h] at hi
    obtain ⟨htype, hparent⟩ := hp.used i hused
    have hpar : (tree old).parent i = (tree new).parent i := parent_congr hparent.symm
    refine ⟨by rwa [htype], (parent_congr (by rw [h])).trans hpar, fun hroot => ?_⟩
    exact hdir _ (hpar ▸ ho.parent_dir i hused hroot)
  · have hused : (new i).type ≠ inodeFree := by rwa [h] at hi
    exact ⟨hused, parent_congr (by rw [h]), fun hroot => hdir _ (hp.parents i hused hroot)⟩

/-- **Old and new inodes together are a grounded table.** -/
theorem GroundedTable.mixed (ho : GroundedTable old) (hn : GroundedTable new)
    (hp : Precedes old new) (hm : Mixed old new m) : GroundedTable m where
  root_dir := hm.forall (P := fun n => n.type = inodeDir) (fun _ _ h => h) ho.root_dir hn.root_dir
  type_cases := fun i =>
    hm.forall (P := fun n => n.type = inodeFree ∨ n.type = inodeFile ∨ n.type = inodeDir)
      (fun _ _ h => h) (ho.type_cases i) (hn.type_cases i)
  terminated := fun i =>
    hm.forall (P := fun n => 0 ∈ n.nameRegion) (fun _ _ h => h) (ho.terminated i)
      (hn.terminated i)
  parent_lt := fun i =>
    hm.forall (P := fun n => n.type ≠ inodeFree → n.parentInode.toNat < maxInodes)
      (fun _ _ h => h) (ho.parent_lt i) (hn.parent_lt i)
  parent_dir := fun i hi hroot => by
    obtain ⟨-, hpar, hdir⟩ := hm.parent ho hp hi
    rw [hpar]
    exact hdir hroot
  grounded := fun i hi => by
    obtain ⟨n, hroot⟩ := hn.grounded i (hm.parent ho hp hi).1
    refine exists_iterate_of_agree (P := fun i => (m i).type ≠ inodeFree) ?_ hi hroot
    intro x hx hx0
    obtain ⟨-, hpar, hdir⟩ := hm.parent ho hp hx
    rw [hdir hx0]
    exact ⟨hpar, inodeDir_ne_free⟩
  numEntries_le := fun i =>
    hm.forall (P := fun n => n.type = inodeDir → n.numEntries.toNat ≤ maxDirEntries)
      (fun _ _ h => h) (ho.numEntries_le i) (hn.numEntries_le i)
  slots_lt := fun i =>
    hm.forall (P := fun n => n.type = inodeDir → ∀ e ∈ usedSlots n, e.toNat < maxInodes)
      (fun _ _ h => h) (ho.slots_lt i) (hn.slots_lt i)
  size_le := fun i =>
    hm.forall (P := fun n => n.type = inodeFile → n.size.toNat ≤ maxFileSize)
      (fun _ _ h => h) (ho.size_le i) (hn.size_le i)

end Mixed

/-! ### What a sync replaces -/

/-- The table on disk is behind the one in memory: its used inodes are what they were, and all
directories are on disk. -/
structure Behind (old new : InodeTable) : Prop where
  used : ∀ i, (old i).type ≠ inodeFree →
    (new i).type = (old i).type ∧ (new i).parentInode = (old i).parentInode
  dirs : ∀ i, (new i).type = inodeDir → (old i).type = inodeDir

section Behind

variable {old new t : InodeTable} {d idx : Fin maxInodes} {name : CString} {type : UInt32}

theorem Behind.refl (t : InodeTable) : Behind t t := ⟨fun _ _ => ⟨rfl, rfl⟩, fun _ h => h⟩

theorem Behind.precedes (h : Behind old new) (hn : GroundedTable new) : Precedes old new :=
  ⟨h.used, fun i hi hroot => h.dirs _ (hn.parent_dir i hi hroot)⟩

/-- The table with a new inode in it can be synced. -/
theorem Behind.precedes_created (h : Behind old new) (hn : GroundedTable new)
    (hd : (new d).type = inodeDir) (htype : type = inodeFile ∨ type = inodeDir)
    (hc : created new d name type = some (idx, t)) : Precedes old t := by
  have hf := Fresh.of_created hd hc
  have hnode := newNode_freshInode name d htype
  constructor
  · intro i hi
    have hii : i ≠ idx := by
      rintro rfl
      have hfree := hf.free
      rw [(h.used i hi).1] at hfree
      exact hi hfree
    rw [hf.table, (linkInode_old hii).1, (linkInode_old hii).2.2.2.1]
    exact h.used i hi
  · intro i hi hroot
    rw [hf.table, parent_linkInode hf.ne hnode]
    split_ifs with hii
    · exact h.dirs d hd
    · rw [hf.table, (linkInode_old hii).1] at hi
      exact h.dirs _ (hn.parent_dir i hi hroot)

theorem Fresh.grounded (hf : Fresh new t d idx name type) (hn : GroundedTable new)
    (hd : (new d).type = inodeDir) (htype : type = inodeFile ∨ type = inodeDir) :
    GroundedTable t := by
  rw [hf.table]
  exact hn.linkInode hd hf.free hf.room (newNode_freshInode name d htype)

/-- What a write makes of the table, before it is synced. -/
theorem Behind.write (h : Behind old new) (hn : GroundedTable new) (hd : (new d).type = inodeDir)
    (hc : writeTarget new d name = some (idx, t)) (content : CString) :
    GroundedTable (writeTable t idx content) ∧ Precedes old (writeTable t idx content) ∧
      Behind old (writeTable t idx content) ∧ (writeTable t idx content d).type = inodeDir := by
  -- the file is one of the table, or a new one
  obtain ⟨ht, hprec, hdirs, hdir⟩ : GroundedTable t ∧ Precedes old t ∧
      (∀ i, (t i).type = inodeDir → (old i).type = inodeDir) ∧ (t d).type = inodeDir := by
    rcases writeTarget_eq_some_iff.1 hc with ⟨-, -, rfl⟩ | ⟨-, hcr⟩
    · exact ⟨hn, h.precedes hn, h.dirs, hd⟩
    · have hf := Fresh.of_created hd hcr
      refine ⟨hf.grounded hn hd (Or.inl rfl), h.precedes_created hn hd (Or.inl rfl) hcr, ?_,
        hf.dir hd⟩
      intro i hi
      have hii : i ≠ idx := by
        rintro rfl
        rw [hf.new] at hi
        exact inodeFile_ne_dir hi
      rw [hf.table, (linkInode_old hii).1] at hi
      exact h.dirs i hi
  have hfile := writeTarget_file hd hc
  have hold := write_old t idx content
  have hused : ∀ i, (old i).type ≠ inodeFree →
      (writeTable t idx content i).type = (old i).type ∧
        (writeTable t idx content i).parentInode = (old i).parentInode := by
    intro i hi
    rw [(hold i).2.1, (hold i).2.2.1]
    exact hprec.used i hi
  refine ⟨ht.write hfile content, ⟨hused, ?_⟩, ⟨hused, ?_⟩, ?_⟩
  · intro i hi hroot
    rw [(hold i).2.1] at hi
    rw [tree_write]
    exact hprec.parents i hi hroot
  · intro i hi
    rw [(hold i).2.1] at hi
    exact hdirs i hi
  · rw [(hold d).2.1]
    exact hdir

end Behind

/-! ### Runs -/

/-- What holds of every state between power failures. -/
structure Survives (k : Kernel) : Prop where
  /-- The table in memory is grounded. -/
  table : GroundedTable k.inodeArray
  /-- The current directory is one. -/
  cwd : ∃ d, Cwd k d
  /-- No descriptor has been left open. -/
  closed : AllClosed k.fdTable
  /-- The table on disk is grounded. -/
  stored : GroundedTable (diskTable k.disk)
  /-- It is behind the one in memory. -/
  behind : Behind (diskTable k.disk) k.inodeArray

section Step

variable {k : Kernel}

theorem Survives.keeps {k' : Kernel} (h : Survives k) (hk : Keeps k k') : Survives k' where
  table := hk.inodeArray ▸ h.table
  cwd := by
    obtain ⟨d, hd⟩ := h.cwd
    exact ⟨d, hk.currentDir.trans hd.val, hk.inodeArray ▸ hd.dir⟩
  closed := hk.closed h.closed
  stored := hk.disk ▸ h.stored
  behind := hk.disk ▸ hk.inodeArray ▸ h.behind

/-- A start from a grounded table on disk. -/
theorem Survives.init (hs : GroundedTable (diskTable k.disk)) (hc : AllClosed k.fdTable) :
    Survives (vfsInit k) ∧ (vfsInit k).disk = k.disk := by
  rw [vfsInit_of_dir hs.root_dir]
  exact ⟨⟨hs, ⟨0, rfl, hs.root_dir⟩, hc, hs, Behind.refl _⟩, rfl⟩

/-- A table that was just synced. -/
theorem Survives.synced {d : Fin maxInodes} {t : InodeTable} (ht : GroundedTable t)
    (hd : k.currentDir = d) (hdir : (t d).type = inodeDir) (hc : AllClosed k.fdTable)
    (hk : k.inodeArray = t) {disk : Disk} (hdisk : k.disk = vfsSync t disk) : Survives k := by
  have hstored : diskTable k.disk = t := by rw [hdisk, diskTable_vfsSync]
  refine ⟨hk ▸ ht, ⟨d, hd, hk ▸ hdir⟩, hc, hstored ▸ ht, ?_⟩
  rw [hstored, hk]
  exact Behind.refl t

/-- **No call fails, every call keeps the invariant, and the table that it syncs succeeds the one on
disk.** -/
theorem Survives.exec (h : Survives k) (o : Op) :
    ∃ r, o.exec k = .ok r ∧ Survives r.kernel ∧
      Precedes (diskTable k.disk) (diskTable r.kernel.disk) := by
  obtain ⟨d, hd⟩ := h.cwd
  obtain ⟨r, hr, hout⟩ := exec_outcome h.table hd h.closed o
  have hrefl := Precedes.refl h.stored
  refine ⟨r, hr, ?_⟩
  cases hout with
  | fail msg hnone hwrite => exact ⟨h.keeps ((Keeps.refl k).puts _), hrefl⟩
  | mkdir hc =>
      have hf := Fresh.of_created hd.dir hc
      refine ⟨Survives.synced (hf.grounded h.table hd.dir (Or.inr rfl)) hd.val (hf.dir hd.dir)
        h.closed rfl rfl, ?_⟩
      rw [diskTable_vfsSync]
      exact h.behind.precedes_created h.table hd.dir (Or.inr rfl) hc
  | touch hc =>
      have hf := Fresh.of_created hd.dir hc
      refine ⟨Survives.synced (hf.grounded h.table hd.dir (Or.inl rfl)) hd.val (hf.dir hd.dir)
        h.closed rfl rfl, ?_⟩
      rw [diskTable_vfsSync]
      exact h.behind.precedes_created h.table hd.dir (Or.inl rfl) hc
  | write fd hc hlen =>
      obtain ⟨htable, hprec, -, hdir⟩ := h.behind.write h.table hd.dir hc _
      refine ⟨Survives.synced htable hd.val hdir (h.closed.usedFd fd _ _) rfl rfl, ?_⟩
      rw [diskTable_vfsSync]
      exact hprec
  | cut fd hc hlen =>
      -- memory is now ahead of the disk
      obtain ⟨htable, -, hbehind, hdir⟩ := h.behind.write h.table hd.dir hc _
      exact ⟨⟨htable, ⟨d, hd.val, hdir⟩, h.closed.usedFd fd _ _, h.stored, hbehind⟩, hrefl⟩
  | cd hc =>
      exact ⟨⟨h.table, ⟨_, rfl, cdTarget_dir h.table hd.dir hc⟩, h.closed, h.stored, h.behind⟩,
        hrefl⟩
  | keeps ho hk => exact ⟨h.keeps hk, by rw [hk.disk]; exact hrefl⟩
  | init =>
      obtain ⟨hinit, hdisk⟩ := Survives.init h.stored h.closed
      exact ⟨hinit, by rw [hdisk]; exact hrefl⟩

/-- What a power failure in the middle of a call leaves on the disk. -/
theorem Survives.torn (h : Survives k) {o : Op} {r : Result} (hr : o.exec k = .ok r) (n : ℕ) :
    GroundedTable (diskTable (torn n k.disk r.kernel.disk)) := by
  obtain ⟨r', hr', hk, hprec⟩ := h.exec o
  obtain rfl := Except.ok.inj (hr'.symm.trans hr)
  exact h.stored.mixed hk.stored hprec (mixed_torn n k.disk r'.kernel.disk)

theorem Survives.step (h : Survives k) (o : Op) : ∃ k', o.step k = .ok k' ∧ Survives k' := by
  obtain ⟨r, hr, hk, -⟩ := h.exec o
  exact ⟨r.kernel, Op.step_of_exec hr, hk⟩

end Step

/-- A call, or a call that a power failure cuts when some of the sectors it writes have been
written, and the start that follows. -/
inductive PowerEvent
  | call (o : Op)
  | cut (o : Op) (n : ℕ)

/-- The state that the event leaves. -/
def PowerEvent.step (k : Kernel) : PowerEvent → Except Fault Kernel
  | .call o => o.step k
  | .cut o n => (fun r => boot (torn n k.disk r.kernel.disk) k.memory) <$> o.exec k

/-- A disk that the kernel can start from: one that it formats, or one with a grounded table. -/
def Startable (disk : Disk) : Prop :=
  diskTable disk = (fun _ => Inode.zero) ∨ GroundedTable (diskTable disk)

theorem Formatted.startable {disk : Disk} (h : Formatted disk) : Startable disk := by
  rcases h.diskTable_eq with hzero | ⟨vfsPath, content, htable⟩
  · exact Or.inl hzero
  · right
    rw [htable]
    exact (soundTable_mkfs vfsPath content).groundedTable

/-- A start that formats the disk. -/
theorem boot_of_zero {disk : Disk} (hdisk : diskTable disk = fun _ => Inode.zero)
    (memory : Memory) :
    boot disk memory =
      { powerOn disk memory with
        inodeArray := emptyTable
        disk := vfsSync emptyTable disk } := by
  have hroot : (diskTable (powerOn disk memory).disk 0).type ≠ inodeDir := by
    change (diskTable disk 0).type ≠ inodeDir
    rw [hdisk]
    exact inodeDir_ne_free.symm
  rw [boot, vfsInit_of_not_dir hroot]
  change { powerOn disk memory with
    inodeArray := Function.update (diskTable disk) 0 emptyRoot
    disk := vfsSync (Function.update (diskTable disk) 0 emptyRoot) disk } = _
  rw [hdisk]
  rfl

/-- The fields of the inodes on a disk of zeros and in an empty table are the same but for the
root. -/
theorem grounded_torn_format {disk : Disk} (hdisk : diskTable disk = fun _ => Inode.zero) {n : ℕ}
    (hn : 0 < n) : GroundedTable (diskTable (torn n disk (vfsSync emptyTable disk))) := by
  have hempty : GroundedTable emptyTable := soundTable_emptyTable
  refine hempty.mixed hempty (Precedes.refl hempty) fun i => ?_
  rcases eq_or_ne i 0 with rfl | hi
  · have h := diskTable_torn_of_lt (n := n) disk (vfsSync emptyTable disk) (i := 0)
      (by simpa using hn)
    rw [diskTable_vfsSync] at h
    exact Or.inl h
  · rcases mixed_torn n disk (vfsSync emptyTable disk) i with h | h
    · rw [hdisk] at h
      rw [emptyTable_of_ne hi]
      exact Or.inl h
    · rw [diskTable_vfsSync] at h
      exact Or.inl h

theorem Startable.boot {disk : Disk} (h : Startable disk) (memory : Memory) :
    Survives (boot disk memory) := by
  have hclosed : AllClosed (powerOn disk memory).fdTable := fun _ => rfl
  rcases h with hzero | hgrounded
  · rw [boot_of_zero hzero]
    exact Survives.synced soundTable_emptyTable (d := 0) rfl (congrArg Inode.type emptyTable_zero)
      hclosed rfl rfl
  · exact (Survives.init hgrounded hclosed).1

/-- A start that is cut leaves a disk that the next one can start from. -/
theorem Startable.torn {disk : Disk} (h : Startable disk) (memory : Memory) (n : ℕ) :
    Startable (torn n disk (Anaga.boot disk memory).disk) := by
  rcases h with hzero | hgrounded
  · rw [boot_of_zero hzero]
    rcases Nat.eq_zero_or_pos n with rfl | hn
    · rw [torn_zero]
      exact Or.inl hzero
    · exact Or.inr (grounded_torn_format hzero hn)
  · -- there is a root already, and nothing is written
    have hdisk : (Anaga.boot disk memory).disk = disk :=
      (Survives.init (k := powerOn disk memory) hgrounded fun _ => rfl).2
    rw [hdisk, torn_self]
    exact Or.inr hgrounded

/-! ### No call leaves an array -/

section InBounds

variable {k : Kernel} (h : Survives k)

include h

end InBounds

/-- What happens between switching the machine on and its losing power: what is in memory, the
registers of the drive and how long it will be busy, the calls that are to be made, and the number
of accesses to its ports after which the power fails. -/
structure Cycle where
  memory : Memory
  drive : Ata
  ops : List Op
  accesses : ℕ

/-- The start and the calls, through the ports: the disk when the power has failed or the calls are
done. -/
def Cycle.exec (disk : Disk) (c : Cycle) : Except Fault Disk :=
  match Ata.runOps (powerOn disk c.memory) (.init :: c.ops)
      ({ c.drive with disk := disk, transfer := .idle }, c.accesses) with
  | .error a => .ok a.disk
  | .ok (.ok _, a, _) => .ok a.disk
  | .ok (.error fault, _, _) => .error fault

/-- The start and the calls do not fail. -/
theorem Startable.run {disk : Disk} (h : Startable disk) (memory : Memory) (ops : List Op) :
    ∃ t, Transition.run Op.step (powerOn disk memory) (.init :: ops) = .ok t ∧ Survives t := by
  obtain ⟨t, ht, hsurvives⟩ := run_total (fun s o hs => Survives.step hs o) ops (h.boot memory)
  exact ⟨t, run_cons_eq_ok.2 ⟨_, rfl, ht⟩, hsurvives⟩

end Anaga
