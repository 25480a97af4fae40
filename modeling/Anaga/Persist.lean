/-
**What the disk remembers.**

`vfs_sync` cuts every inode into 17 sectors, of which the last holds 112 bytes of it, and
`vfs_load` puts the inodes together again.  This module proves that the two loops agree, so that
the disk holds an inode table: the one that was written last.

Main definitions:

* `Anaga.diskTable` — the inode table that a disk holds.

Main results:

* `Anaga.vfsLoad_eq` — loading reads the table of the disk, whatever was in memory;
* `Anaga.vfsSync_apply` — what a sync leaves in every sector;
* `Anaga.diskTable_vfsSync` — **the disk holds what was synced**;
* `Anaga.vfsInit_of_dir`, `Anaga.vfsInit_of_not_dir` — bringing the file system up, in both cases.
-/

import Anaga.Vfs

set_option relaxedAutoImplicit false
set_option autoImplicit false

namespace Anaga

/-! ### The layout of the table on disk -/

theorem copySize_le (s : ℕ) : copySize s ≤ sectorSize := by
  unfold copySize
  split_ifs with h
  · rw [h]; decide
  · exact le_rfl

/-- Every byte of an inode is in the part of a sector that is copied. -/
theorem mod_lt_copySize {o : ℕ} (h : o < sizeofInode) :
    o / sectorSize < inodeSectors ∧ o % sectorSize < copySize (o / sectorSize) := by
  have hs : inodeSectors = 17 := rfl
  rw [hs]
  simp only [sizeofInode] at h
  simp only [sectorSize]
  refine ⟨by omega, ?_⟩
  unfold copySize
  split_ifs with hlast
  · rw [hs] at hlast
    simp only [sizeofInode, sectorSize] at hlast ⊢
    omega
  · simp only [sectorSize]
    omega

/-- The inode table that the disk holds. -/
def diskTable (disk : Disk) : InodeTable := fun i =>
  Inode.ofBytes fun o =>
    driveReadSector disk (inodeTableSector + i * inodeSectors + o / sectorSize) (o % sectorSize)

/-- **Loading reads the table of the disk, whatever was in memory.** -/
theorem vfsLoad_eq (disk : Disk) (t : InodeTable) : vfsLoad disk t = diskTable disk := by
  funext i
  refine Inode.ofBytes_congr fun o ho => ?_
  rw [Bytes.foldl_splice _ copySize copySize_le, if_pos (mod_lt_copySize ho)]

/-- **What a sync leaves in every sector.** -/
theorem vfsSync_apply (t : InodeTable) (disk : Disk) (lba : ℕ) :
    vfsSync t disk lba =
      if lba < maxInodes * inodeSectors then
        fun o : Fin sectorSize =>
          syncBuffer (t (Fin.ofNat maxInodes (lba / inodeSectors))) (lba % inodeSectors) o
      else disk lba := by
  have hfold : vfsSync t disk = Bytes.writeBlocks inodeTableSector maxInodes inodeSectors
      (fun i s (o : Fin sectorSize) => syncBuffer (t (Fin.ofNat maxInodes i)) s o) disk := rfl
  rw [hfold, Bytes.writeBlocks_apply]
  simp only [inodeTableSector, Nat.zero_le, true_and, Nat.zero_add, Nat.sub_zero]

/-- The sectors behind the inode table are not written. -/
theorem vfsSync_of_ge (t : InodeTable) (disk : Disk) {lba : ℕ}
    (h : maxInodes * inodeSectors ≤ lba) : vfsSync t disk lba = disk lba := by
  rw [vfsSync_apply, if_neg (by omega)]

/-- **The disk holds what was synced.** -/
@[simp] theorem diskTable_vfsSync (t : InodeTable) (disk : Disk) :
    diskTable (vfsSync t disk) = t := by
  funext i
  refine Inode.ofBytes_eq (t i) fun o ho => ?_
  obtain ⟨hdiv, hmod⟩ := mod_lt_copySize ho
  have hlt : o % sectorSize < sectorSize := Nat.mod_lt _ (by decide)
  have hlba : inodeTableSector + i * inodeSectors + o / sectorSize < maxInodes * inodeSectors := by
    have hi : i.val + 1 ≤ maxInodes := i.isLt
    have hrow := Nat.mul_le_mul_right inodeSectors hi
    rw [Nat.add_mul] at hrow
    simp only [inodeTableSector]
    omega
  have hs : 0 < inodeSectors := by decide
  have hi : (inodeTableSector + i * inodeSectors + o / sectorSize) / inodeSectors = i := by
    rw [Nat.zero_add, Nat.mul_comm, Nat.mul_add_div hs, Nat.div_eq_of_lt hdiv, Nat.add_zero]
  have hsec : (inodeTableSector + i * inodeSectors + o / sectorSize) % inodeSectors =
      o / sectorSize := by
    rw [Nat.zero_add, Nat.mul_comm, Nat.mul_add_mod, Nat.mod_eq_of_lt hdiv]
  rw [driveReadSector_of_lt _ _ hlt, vfsSync_apply, if_pos hlba, hi, hsec, syncBuffer,
    Bytes.splice_apply, if_pos ⟨Nat.zero_le _, by rwa [Nat.zero_add]⟩, Nat.sub_zero]
  rw [Nat.div_add_mod' o sectorSize]
  congr 2
  exact Fin.ext (Nat.mod_eq_of_lt i.isLt)

/-- Two disks that agree on the sectors of the table hold the same table. -/
theorem diskTable_congr {disk disk' : Disk}
    (h : ∀ lba < maxInodes * inodeSectors, disk lba = disk' lba) :
    diskTable disk = diskTable disk' := by
  funext i
  refine Inode.ofBytes_congr fun o ho => ?_
  obtain ⟨hdiv, -⟩ := mod_lt_copySize ho
  have hlba : inodeTableSector + i * inodeSectors + o / sectorSize < maxInodes * inodeSectors := by
    have hi : i.val + 1 ≤ maxInodes := i.isLt
    have hrow := Nat.mul_le_mul_right inodeSectors hi
    rw [Nat.add_mul] at hrow
    simp only [inodeTableSector]
    omega
  rw [driveReadSector, driveReadSector, h _ hlba]

/-! ### Bringing the file system up -/

/-- The root directory of a freshly formatted disk. -/
def emptyRoot : Inode := { Inode.zero with type := inodeDir }

theorem vfsInit_of_dir {k : Kernel} (h : (diskTable k.disk 0).type = inodeDir) :
    vfsInit k = { k with inodeArray := diskTable k.disk, currentDir := 0 } := by
  simp only [vfsInit, vfsLoad_eq, h, ne_eq, not_true_eq_false, if_false]

theorem vfsInit_of_not_dir {k : Kernel} (h : (diskTable k.disk 0).type ≠ inodeDir) :
    vfsInit k =
      { k with
        inodeArray := Function.update (diskTable k.disk) 0 emptyRoot
        disk := vfsSync (Function.update (diskTable k.disk) 0 emptyRoot) k.disk
        currentDir := 0 } := by
  simp only [vfsInit, vfsLoad_eq, ne_eq, h, not_false_eq_true, if_true, emptyRoot]

/-- After a start the disk holds the table that is in memory. -/
theorem diskTable_vfsInit (k : Kernel) : diskTable (vfsInit k).disk = (vfsInit k).inodeArray := by
  by_cases h : (diskTable k.disk 0).type = inodeDir
  · rw [vfsInit_of_dir h]
  · rw [vfsInit_of_not_dir h, diskTable_vfsSync]

@[simp] theorem vfsInit_currentDir (k : Kernel) : (vfsInit k).currentDir = 0 := by
  by_cases h : (diskTable k.disk 0).type = inodeDir
  · rw [vfsInit_of_dir h]
  · rw [vfsInit_of_not_dir h]

@[simp] theorem vfsInit_fdTable (k : Kernel) : (vfsInit k).fdTable = k.fdTable := by
  by_cases h : (diskTable k.disk 0).type = inodeDir
  · rw [vfsInit_of_dir h]
  · rw [vfsInit_of_not_dir h]

end Anaga
