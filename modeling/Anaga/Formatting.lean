/-
**What formatting leaves behind.**

There are two ways to format a disk.  `vfs_init` clears inode 0 and makes it an empty root when
what it loads has no root, and `mkfs.py` writes a root with one entry and the file behind that
entry.  Both leave the other inodes as they were.  On a disk that was used before, such an inode
can be in use without being in the tree, and nothing ever frees it.

Main definitions:

* `Anaga.FromRoot` — the inodes that can be reached through the entries of directories;
* `Anaga.NoOrphans` — every inode in use is one of these.

Main results:

* `Anaga.fromRoot_of_emptyRoot`, `Anaga.fromRoot_of_installed` — what can be reached after either
  way of formatting;
* `Anaga.noOrphans_iff` — **formatting leaves no orphan exactly if the inodes that it does not write
  were free before**.
-/

import Anaga.Persistence
import Anaga.TreeInvariant

set_option relaxedAutoImplicit false
set_option autoImplicit false

namespace Anaga

/-! ### Orphans -/

/-- The inodes that are reached from the root through the entries of directories. -/
inductive FromRoot (t : InodeTable) : Fin maxInodes → Prop
  | root : FromRoot t 0
  | entry {d i : Fin maxInodes} {s : Fin maxDirEntries} (parent : FromRoot t d)
      (holds : Holds t d s i) : FromRoot t i

/-- Every inode that is not free is the root or is reached from it. -/
def NoOrphans (t : InodeTable) : Prop := ∀ i, (t i).type ≠ inodeFree → FromRoot t i

section Reach

variable {t : InodeTable} {i : Fin maxInodes}

/-- From an empty root nothing else is reached. -/
theorem fromRoot_of_emptyRoot (hroot : (t 0).numEntries = 0) (h : FromRoot t i) : i = 0 := by
  induction h with
  | root => rfl
  | entry parent holds ih =>
      obtain ⟨-, hs, -⟩ := holds
      rw [ih, hroot] at hs
      exact absurd hs (Nat.not_lt_zero _)

/-- From the root that `mkfs.py` writes only the file is reached. -/
theorem fromRoot_of_installed (hcount : (t 0).numEntries = 1) (hentry : (t 0).dirEntries 0 = 1)
    (hfile : (t 1).type = inodeFile) (h : FromRoot t i) : i = 0 ∨ i = 1 := by
  induction h with
  | root => exact Or.inl rfl
  | @entry d i s parent holds ih =>
      obtain ⟨htype, hs, hi⟩ := holds
      rcases ih with rfl | rfl
      · right
        rw [hcount, UInt32.toNat_one] at hs
        obtain rfl : s = 0 := Fin.ext (by simpa using hs)
        rw [hentry] at hi
        exact Fin.ext hi.symm
      · rw [hfile] at htype
        exact absurd htype (by decide)

end Reach

/-! ### Formatting by the kernel -/

/-- Formatting the root clears inode 0, and only that one. -/
theorem noOrphans_vfsInit {k : Kernel} (h : (diskTable k.disk 0).type ≠ inodeDir) :
    NoOrphans (vfsInit k).inodeArray ↔
      ∀ i : Fin maxInodes, i ≠ 0 → (diskTable k.disk i).type = inodeFree := by
  have hroot : (Function.update (diskTable k.disk) 0 emptyRoot 0).numEntries = 0 := by
    rw [Function.update_self]
    rfl
  rw [vfsInit_of_not_dir h]
  dsimp only
  constructor
  · intro hno i hi
    by_contra hused
    have hreach := hno i (by rwa [Function.update_of_ne hi])
    exact hi (fromRoot_of_emptyRoot hroot hreach)
  · intro hfree i hused
    rcases eq_or_ne i 0 with rfl | hi
    · exact FromRoot.root
    · rw [Function.update_of_ne hi] at hused
      exact absurd (hfree i hi) hused

/-! ### Formatting by the host tool -/

/-- The tool writes the inodes 0 and 1, and only these. -/
theorem noOrphans_mkfs {argv : List String} {hostFiles : String → Option (List UInt8)}
    {img : List UInt8} {prog diskImg hostFile vfsPath : String} {rest : List String}
    (hargv : argv = prog :: diskImg :: hostFile :: vfsPath :: rest) {content : List UInt8}
    (hfile : hostFiles hostFile = some content) {k : Kernel}
    (hdisk : k.disk = imageDisk (Mkfs.main argv hostFiles img).2) :
    NoOrphans (vfsInit k).inodeArray ↔
      ∀ i : Fin maxInodes, 2 ≤ i.val → (diskTable (imageDisk img) i).type = inodeFree := by
  have htable : diskTable k.disk =
      Function.update (Function.update (diskTable (imageDisk img)) 0 Mkfs.rootInode) 1
        (Mkfs.fileInode vfsPath content) := by
    rw [hdisk, Mkfs.diskTable_main hargv hfile]
  have h01 : (0 : Fin maxInodes) ≠ 1 := by decide
  have hzero : diskTable k.disk 0 = Mkfs.rootInode := by
    rw [htable, Function.update_of_ne h01, Function.update_self]
  have hone : (diskTable k.disk 1).type = inodeFile := by
    rw [htable, Function.update_self]
    rfl
  have hrest : ∀ i : Fin maxInodes, 2 ≤ i.val →
      diskTable k.disk i = diskTable (imageDisk img) i := by
    intro i hi
    have h0 : i ≠ 0 := by
      rintro rfl
      simp at hi
    have h1 : i ≠ 1 := by
      rintro rfl
      exact absurd hi (by decide)
    rw [htable, Function.update_of_ne h1, Function.update_of_ne h0]
  have hdir : (diskTable k.disk 0).type = inodeDir := by rw [hzero]; rfl
  have hcount : (diskTable k.disk 0).numEntries = 1 := by rw [hzero]; rfl
  have hentry : (diskTable k.disk 0).dirEntries 0 = 1 := by rw [hzero]; rfl
  rw [vfsInit_of_dir hdir]
  constructor
  · intro hno i hi
    by_contra hused
    have hreach := hno i (by rwa [← hrest i hi] at hused)
    rcases fromRoot_of_installed hcount hentry hone hreach with rfl | rfl
    · simp at hi
    · exact absurd hi (by decide)
  · intro hfree i hused
    by_cases hi : 2 ≤ i.val
    · exact absurd ((congrArg Inode.type (hrest i hi)).trans (hfree i hi)) hused
    · rcases eq_or_ne i 0 with rfl | h0
      · exact FromRoot.root
      · have h1 : i = 1 := by
          have hne : i.val ≠ 0 := fun h => h0 (Fin.ext h)
          exact Fin.ext (by change i.val = 1; omega)
        refine h1 ▸ FromRoot.entry (d := 0) (s := 0) .root ⟨hdir, ?_, ?_⟩
        · rw [hcount]
          decide
        · rw [hentry]
          rfl

/-! ### Both ways -/

/-- **Formatting leaves no orphan exactly if the inodes that it does not write were free before**:
inode 0 is all that `vfs_init` writes, and the inodes 0 and 1 are all that `mkfs.py` writes. -/
theorem noOrphans_iff (k : Kernel) :
    ((diskTable k.disk 0).type ≠ inodeDir →
      (NoOrphans (vfsInit k).inodeArray ↔
        ∀ i : Fin maxInodes, i ≠ 0 → (diskTable k.disk i).type = inodeFree)) ∧
    ∀ (prog diskImg hostFile vfsPath : String) (rest : List String)
      (hostFiles : String → Option (List UInt8)) (content img : List UInt8),
      hostFiles hostFile = some content → 544 * sectorSize ≤ img.length →
      k.disk = imageDisk
        (Mkfs.main (prog :: diskImg :: hostFile :: vfsPath :: rest) hostFiles img).2 →
      (NoOrphans (vfsInit k).inodeArray ↔
        ∀ i : Fin maxInodes, 2 ≤ i.val → (diskTable (imageDisk img) i).type = inodeFree) := by
  refine ⟨fun h => noOrphans_vfsInit h, ?_⟩
  intro prog diskImg hostFile vfsPath rest hostFiles content img hfile _ hdisk
  exact noOrphans_mkfs rfl hfile hdisk

/-- An image of zeros, formatted either way. -/
theorem noOrphans_zero :
    NoOrphans (vfsInit (powerOn (imageDisk (List.replicate (544 * 512) 0))
      ⟨0, fun _ => 0⟩)).inodeArray ∧
    NoOrphans (vfsInit (powerOn (imageDisk (Mkfs.main ["mkfs.py", "disk.img", "f", "a"]
      (fun _ => some [1, 2]) (List.replicate (544 * 512) 0)).2) ⟨0, fun _ => 0⟩)).inodeArray := by
  generalize hn : 544 * 512 = n
  have hzero := Mkfs.diskTable_replicate_zero n
  constructor
  · refine ((noOrphans_iff _).1 ?_).2 ?_
    · change (diskTable (imageDisk _) 0).type ≠ inodeDir
      rw [hzero]
      decide
    · intro i _
      change (diskTable (imageDisk _) i).type = inodeFree
      rw [hzero]
      rfl
  · refine ((noOrphans_iff _).2 "mkfs.py" "disk.img" "f" "a" [] (fun _ => some [1, 2]) [1, 2] _ rfl
      ?_ rfl).2 ?_
    · rw [List.length_replicate, ← hn]
    · intro i _
      rw [hzero]
      rfl

/-- An image with a file in inode 5 and nothing else. -/
def usedImage : List UInt8 :=
  Mkfs.writeInode (List.replicate (544 * 512) 0) 5 (Mkfs.packInode "b" inodeFile 0 0 0 [] [])

theorem diskTable_usedImage :
    diskTable (imageDisk usedImage) =
      Function.update (fun _ => Inode.zero) 5 (Mkfs.inodeOf "b" inodeFile 0 0 0 [] []) := by
  have h0 : ([] : List UInt32).length ≤ maxDirEntries := by decide
  rw [← Mkfs.diskTable_replicate_zero (544 * 512), ← Mkfs.ofBytes_packInode _ _ _ _ _ _ _ h0]
  exact Mkfs.diskTable_writeInode _ 5 (Mkfs.packInode_length _ _ _ _ _ _ _ h0)

/-- On that image the file is an orphan after either way of formatting. -/
theorem not_noOrphans_usedImage :
    ((diskTable (imageDisk usedImage) 0).type ≠ inodeDir ∧
      ¬ NoOrphans (vfsInit (powerOn (imageDisk usedImage) ⟨0, fun _ => 0⟩)).inodeArray) ∧
    ¬ NoOrphans (vfsInit (powerOn (imageDisk (Mkfs.main ["mkfs.py", "disk.img", "f", "a"]
      (fun _ => some [1, 2]) usedImage).2) ⟨0, fun _ => 0⟩)).inodeArray := by
  have hused : (diskTable (imageDisk usedImage) 5).type ≠ inodeFree := by
    rw [diskTable_usedImage, Function.update_self]
    decide
  have hroot : (diskTable (imageDisk usedImage) 0).type ≠ inodeDir := by
    rw [diskTable_usedImage, Function.update_of_ne (by decide)]
    decide
  generalize usedImage = img at hused hroot ⊢
  refine ⟨⟨hroot, ?_⟩, ?_⟩
  · have hiff := noOrphans_vfsInit (k := powerOn (imageDisk img) ⟨0, fun _ => 0⟩) hroot
    rw [hiff]
    intro hfree
    exact hused (hfree 5 (by decide))
  · rw [noOrphans_mkfs rfl rfl rfl]
    intro hfree
    exact hused (hfree 5 (by decide))

end Anaga
