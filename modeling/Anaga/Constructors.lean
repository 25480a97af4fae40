/-
**Two constructors: `vfs_mkdir` and `vfs_touch` are the same up to the type.**

The two functions are written apart.  One checks the type of the parent and the other does not,
one terminates the name a second time, and their tests come in a different order.  In the states
that a run reaches they nevertheless succeed under the same condition, and the tables that they
leave differ in the type of the new inode only.

Main definitions:

* `Anaga.Admits` — the directory can be given an entry of the name;
* `Anaga.Entered` — the table after an inode was entered into a directory.

Main results:

* `Anaga.lt_findFreeInode` — the inode that is found is the first one that is free;
* `Anaga.Cwd.admits_iff` — the condition in terms of the slots and of `strcmp`;
* `Anaga.vfsMkdir_vfsTouch` — **both succeed under the same condition and do the same**.
-/

import Anaga.TreeInvariant

set_option relaxedAutoImplicit false
set_option autoImplicit false

namespace Anaga

open Transition

/-! ### What the constructors should do -/

/-- Some inode is free, the directory has room, and no entry of it compares equal to the name. -/
def Admits (t : InodeTable) (d : Fin maxInodes) (name : CString) : Prop :=
  (∃ i, (t i).type = inodeFree) ∧ (t d).numEntries.toNat < maxDirEntries ∧
    ∀ s i, Holds t d s i → strcmp (t i).nameRegion name.region ≠ .ok 0

/-- The inode `idx`, the first one that is free, has become one of the given type, with the first
31 bytes of the name, padded with NULs, and the last entry of `d`.  Nothing else has changed. -/
structure Entered (t t' : InodeTable) (d idx : Fin maxInodes) (name : CString) (type : UInt32) :
    Prop where
  free : (t idx).type = inodeFree
  first : ∀ i < idx, (t i).type ≠ inodeFree
  type : (t' idx).type = type
  name : ∀ j : Fin maxFilename,
    (t' idx).name j = if j.val < maxFilename - 1 then name.bytes.getD j 0 else 0
  entry : ∃ h : (t d).numEntries.toNat < maxDirEntries,
    t' d = { t d with
      numEntries := (t d).numEntries + 1
      dirEntries := Function.update (t d).dirEntries ⟨_, h⟩ (UInt32.ofNat idx) }
  others : ∀ i, i ≠ d → i ≠ idx → t' i = t i

/-! ### The condition -/

/-- The inode that is found is the first one that is free. -/
theorem lt_findFreeInode {t : InodeTable} {idx : Fin maxInodes} (h : findFreeInode t = some idx) :
    ∀ i < idx, (t i).type ≠ inodeFree := by
  obtain ⟨-, n, hn, hidx, hbefore⟩ := List.find?_eq_some_iff_getElem.1 h
  intro i hi
  rw [List.getElem_finRange] at hidx
  have hin : i.val < n := by
    rw [← hidx] at hi
    exact hi
  have hnot := hbefore i.val hin
  rw [List.getElem_finRange] at hnot
  simpa using hnot

section Admits

variable {k : Kernel} {d : Fin maxInodes}

/-- Looking the name up finds nothing exactly if no entry compares equal to it. -/
theorem lookup_eq_none_iff_strcmp {t : InodeTable} (h : SoundTable t) (hd : (t d).type = inodeDir)
    (name : CString) :
    (tree t).lookup d name.bytes = none ↔
      ∀ s i, Holds t d s i → strcmp (t i).nameRegion name.region ≠ .ok 0 := by
  have hcmp : ∀ i, strcmp (t i).nameRegion name.region = .ok 0 ↔ (t i).fileName = name.bytes := by
    intro i
    obtain ⟨r, hr, hr0⟩ := strcmp_of_not_overruns name.noNul
      (not_overruns_of_zero_mem (h.terminated i) name.bytes)
    rw [CString.region, hr, Except.ok.injEq]
    exact hr0
  rw [NamedTree.lookup_eq_none_iff]
  constructor
  · intro hall s i hs
    rw [Ne, hcmp]
    exact hall i (mem_children.2 ⟨s, hs.2⟩)
  · intro hall i hi
    obtain ⟨s, hs⟩ := mem_children.1 hi
    have hne := hall s i ⟨hd, hs⟩
    rwa [Ne, hcmp] at hne

theorem Cwd.admits_iff (hd : Cwd k d) (h : SoundTable k.inodeArray) (name : CString) :
    Admits k.inodeArray d name ↔ Creatable k.inodeArray d name := by
  rw [Admits, Creatable, lookup_eq_none_iff_strcmp h hd.dir]

end Admits

/-! ### The constructors -/

/-- What is created has been entered. -/
theorem Entered.of_created {t t' : InodeTable} {d idx : Fin maxInodes} {name : CString}
    {type : UInt32} (hd : (t d).type = inodeDir) (h : created t d name type = some (idx, t')) :
    Entered t t' d idx name type := by
  have hf := Fresh.of_created hd h
  obtain ⟨hfind, -⟩ := created_eq_some_iff.1 h
  have hparent : t' d = addEntry (t d) idx := by rw [hf.table, linkInode_self]
  have hroom := hf.room
  refine ⟨hf.free, lt_findFreeInode hfind, ?_, ?_, ⟨hroom, ?_⟩, ?_⟩
  · rw [hf.new]
    rfl
  · intro j
    rw [hf.new]
    rfl
  · rw [hparent, addEntry]
    congr 1
    funext s
    rw [Function.update_apply]
    simp only [Fin.ext_iff]
  · intro i hid hi
    rw [hf.table, linkInode_of_ne hid hi]

/-- Inodes that are created under one name differ in their types only. -/
theorem created_update_type {t t₁ t₂ : InodeTable} {d i₁ i₂ : Fin maxInodes} {name : CString}
    {type₁ type₂ : UInt32} (hd : (t d).type = inodeDir)
    (h₁ : created t d name type₁ = some (i₁, t₁)) (h₂ : created t d name type₂ = some (i₂, t₂)) :
    i₂ = i₁ ∧ t₂ = Function.update t₁ i₁ { t₁ i₁ with type := type₂ } := by
  have hf₁ := Fresh.of_created hd h₁
  have hf₂ := Fresh.of_created hd h₂
  obtain ⟨hfind₁, -⟩ := created_eq_some_iff.1 h₁
  obtain ⟨hfind₂, -⟩ := created_eq_some_iff.1 h₂
  obtain rfl : i₁ = i₂ := Option.some.inj (hfind₁.symm.trans hfind₂)
  refine ⟨rfl, ?_⟩
  funext i
  rw [Function.update_apply]
  split_ifs with hi
  · rw [hi, hf₂.new, hf₁.new]
    rfl
  · by_cases hid : i = d
    · rw [hid, hf₁.table, hf₂.table, linkInode_self, linkInode_self]
    · rw [hf₁.table, hf₂.table, linkInode_of_ne hid hi, linkInode_of_ne hid hi]

/-- **`vfs_mkdir` and `vfs_touch` succeed under the same condition**, and then they leave tables
that differ in the type of the new inode only.  If they do not succeed, they change no inode. -/
theorem vfsMkdir_vfsTouch {k : Kernel} (h : Reachable k) (name : CString) :
    ∃ (d : Fin maxInodes) (made touched : Result), k.currentDir = d ∧
      vfsMkdir k name = .ok made ∧ vfsTouch k name = .ok touched ∧
      (0 ≤ made.ret ↔ Admits k.inodeArray d name) ∧
      (0 ≤ touched.ret ↔ Admits k.inodeArray d name) ∧
      (Admits k.inodeArray d name →
        ∃ idx : Fin maxInodes, made.ret = idx ∧
          Entered k.inodeArray made.kernel.inodeArray d idx name inodeDir ∧
          Entered k.inodeArray touched.kernel.inodeArray d idx name inodeFile ∧
          touched.kernel.inodeArray = Function.update made.kernel.inodeArray idx
            { made.kernel.inodeArray idx with type := inodeFile }) ∧
      (¬ Admits k.inodeArray d name →
        made.kernel.inodeArray = k.inodeArray ∧ touched.kernel.inodeArray = k.inodeArray) := by
  have hinv := h.invariant
  obtain ⟨d, hd⟩ := hinv.cwd
  have hadmits := hd.admits_iff hinv.sound name
  by_cases hc : Creatable k.inodeArray d name
  · have hsome : ∀ type, ∃ idx t, created k.inodeArray d name type = some (idx, t) := by
      intro type
      have hsome : (created k.inodeArray d name type).isSome := created_isSome_iff.2 hc
      obtain ⟨⟨idx, t⟩, hp⟩ := Option.isSome_iff_exists.1 hsome
      exact ⟨idx, t, hp⟩
    obtain ⟨idx, t, hdir⟩ := hsome inodeDir
    obtain ⟨idx', t', hfile⟩ := hsome inodeFile
    obtain ⟨rfl, ht'⟩ := created_update_type hd.dir hdir hfile
    refine ⟨d, _, _, hd.val, vfsMkdir_of_some hinv.sound hd hdir,
      vfsTouch_of_some hinv.sound hd hfile, ?_, ?_, ?_, fun hn => absurd (hadmits.2 hc) hn⟩
    · exact iff_of_true (Int.natCast_nonneg _) (hadmits.2 hc)
    · exact iff_of_true le_rfl (hadmits.2 hc)
    · exact fun _ => ⟨_, rfl, Entered.of_created hd.dir hdir, Entered.of_created hd.dir hfile, ht'⟩
  · have hnone : ∀ type, created k.inodeArray d name type = none :=
      fun type => created_eq_none_iff.2 hc
    obtain ⟨msg, hmade⟩ := vfsMkdir_of_none hinv.sound hd (hnone inodeDir)
    obtain ⟨msg', htouched⟩ := vfsTouch_of_none hinv.sound hd (hnone inodeFile)
    have hfalse : ∀ m, (0 ≤ (k.fail m).ret ↔ Admits k.inodeArray d name) :=
      fun m => iff_of_false (show ¬ (0 : ℤ) ≤ -1 by decide) (mt hadmits.1 hc)
    exact ⟨d, _, _, hd.val, hmade, htouched, hfalse msg, hfalse msg',
      fun hadm => absurd (hadmits.1 hadm) hc, fun _ => ⟨rfl, rfl⟩⟩

/-- On an empty disk both succeed. -/
theorem vfsMkdir_vfsTouch_zero :
    ∃ made touched : Result,
      vfsMkdir (boot (fun _ _ => 0) ⟨0, fun _ => 0⟩) nameA = .ok made ∧
      vfsTouch (boot (fun _ _ => 0) ⟨0, fun _ => 0⟩) nameA = .ok touched ∧
      0 ≤ made.ret ∧ 0 ≤ touched.ret := by
  have hreach := Reachable.boot_zero ⟨0, fun _ => 0⟩
  have hcwd := cwd_boot_zero ⟨0, fun _ => 0⟩
  obtain ⟨d, made, touched, hd, hmade, htouched, hiff, hiff', -⟩ := vfsMkdir_vfsTouch hreach nameA
  obtain rfl : d = 0 := Fin.ext (hd.symm.trans hcwd.val)
  have hadmits := (hcwd.admits_iff hreach.invariant.sound nameA).2
    ((hcwd.creatable_iff hreach.invariant.sound nameA).1 (creatable_boot_zero _ nameA))
  exact ⟨made, touched, hmade, htouched, hiff.2 hadmits, hiff'.2 hadmits⟩

end Anaga
