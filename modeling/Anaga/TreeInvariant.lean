/-
**The inodes are a tree, in the words of the records.**

The invariant of runs speaks of the tree that is read out of the table.  Here the same is said of
the records themselves: which slots are in use, what they hold, how often an inode occurs in them,
and where the parent pointers lead.

Main definitions:

* `Anaga.Holds` — a slot of a directory is in use and holds an inode;
* `Anaga.follow` — following parent pointers;
* `Anaga.TreeInvariant` — the invariant, field by field.

Main results:

* `Anaga.SoundTable.exists_unique_slot` — every used inode but the root is in exactly one slot;
* `Anaga.SoundTable.follow_root` — and its parent pointers lead to the root;
* `Anaga.run_treeInvariant` — **every run goes through, and ends in such a tree**.
-/

import Anaga.Reachable

set_option relaxedAutoImplicit false
set_option autoImplicit false

namespace Anaga

open Transition

/-! ### Slots -/

/-- The slot `s` of the directory `d` is in use and holds the inode `i`. -/
def Holds (t : InodeTable) (d : Fin maxInodes) (s : Fin maxDirEntries) (i : Fin maxInodes) : Prop :=
  (t d).type = inodeDir ∧ s.val < (t d).numEntries.toNat ∧ ((t d).dirEntries s).toNat = i

theorem mem_usedSlots {n : Inode} {e : UInt32} :
    e ∈ usedSlots n ↔ ∃ s, s.val < n.numEntries.toNat ∧ n.dirEntries s = e := by
  rw [usedSlots, List.mem_take_iff_getElem]
  constructor
  · rintro ⟨j, hj, rfl⟩
    rw [List.length_ofFn] at hj
    refine ⟨⟨j, by omega⟩, by simp only; omega, ?_⟩
    rw [List.getElem_ofFn]
  · rintro ⟨s, hs, rfl⟩
    have hs16 : s.val < maxDirEntries := s.isLt
    refine ⟨s, by rw [List.length_ofFn]; omega, ?_⟩
    rw [List.getElem_ofFn]

section Table

variable {t : InodeTable} {d i : Fin maxInodes}

theorem mem_children {c : Fin maxInodes} :
    c ∈ (tree t).children d ↔
      ∃ s, s.val < (t d).numEntries.toNat ∧ ((t d).dirEntries s).toNat = c := by
  change c ∈ (usedSlots (t d)).filterMap toIndex ↔ _
  rw [List.mem_filterMap]
  constructor
  · rintro ⟨e, he, hc⟩
    obtain ⟨s, hs, rfl⟩ := mem_usedSlots.1 he
    unfold toIndex at hc
    split_ifs at hc with hlt
    obtain rfl : _ = c := by simpa using hc
    exact ⟨s, hs, rfl⟩
  · rintro ⟨s, hs, hc⟩
    have hlt : ((t d).dirEntries s).toNat < maxInodes := by rw [hc]; exact c.isLt
    refine ⟨_, mem_usedSlots.2 ⟨s, hs, rfl⟩, ?_⟩
    rw [toIndex_of_lt hlt]
    exact congrArg some (Fin.ext hc)

/-- In a sound table the entries in use are the children, word for word. -/
theorem SoundTable.usedSlots_eq (h : SoundTable t) (hd : (t d).type = inodeDir) :
    usedSlots (t d) = ((tree t).children d).map fun c : Fin maxInodes => UInt32.ofNat c.val := by
  have hall : ∀ l : List UInt32, (∀ e ∈ l, e.toNat < maxInodes) →
      l = (l.filterMap toIndex).map fun c : Fin maxInodes => UInt32.ofNat c.val := by
    intro l hl
    induction l with
    | nil => rfl
    | cons e l ih =>
        have he : e.toNat < maxInodes := hl e List.mem_cons_self
        rw [List.filterMap_cons, toIndex_of_lt he]
        dsimp only
        rw [List.map_cons, ← ih fun x hx => hl x (List.mem_cons_of_mem e hx)]
        simp
  exact hall _ (h.slots_lt d hd)

/-- No entry is used twice. -/
theorem SoundTable.slot_injective (h : SoundTable t) (hd : (t d).type = inodeDir)
    {s s' : Fin maxDirEntries} (hs : s.val < (t d).numEntries.toNat)
    (hs' : s'.val < (t d).numEntries.toNat)
    (he : (t d).dirEntries s = (t d).dirEntries s') : s = s' := by
  have hnd : (usedSlots (t d)).Nodup := by
    rw [h.usedSlots_eq hd]
    refine (h.wellFormed.nodup d (by simpa using hd)).map ?_
    intro a b hab
    have hnat := congrArg UInt32.toNat hab
    rw [toNat_ofNat_index, toNat_ofNat_index] at hnat
    exact Fin.ext hnat
  have hget : ∀ x : Fin maxDirEntries, x.val < (t d).numEntries.toNat →
      (usedSlots (t d))[x.val]? = some ((t d).dirEntries x) := by
    intro x hx
    rw [usedSlots, List.getElem?_take_of_lt hx, List.getElem?_ofFn, dif_pos x.isLt]
  have hlt : s.val < (usedSlots (t d)).length :=
    (List.getElem?_eq_some_iff.1 (hget s hs)).1
  refine Fin.ext ((List.getElem?_inj hlt hnd).1 ?_)
  rw [hget s hs, hget s' hs', he]

/-- A used inode other than the root is in a slot of its parent. -/
theorem SoundTable.exists_slot (h : SoundTable t) (hi : (t i).type ≠ inodeFree) (h0 : i ≠ 0) :
    ∃ s, Holds t ((tree t).parent i) s i := by
  obtain ⟨hdir, hmem⟩ := h.wellFormed.listed i (by simpa using hi) h0
  obtain ⟨s, hs, hc⟩ := mem_children.1 hmem
  exact ⟨s, by simpa using hdir, hs, hc⟩

/-- The directory that holds an inode is its parent. -/
theorem SoundTable.parent_of_holds (h : SoundTable t) {s : Fin maxDirEntries}
    (hh : Holds t d s i) : (t i).parentInode.toNat = d := by
  obtain ⟨hd, hs, hc⟩ := hh
  obtain ⟨hused, -, hpar⟩ :=
    h.wellFormed.child d i (by simpa using hd) (mem_children.2 ⟨s, hs, hc⟩)
  rw [← h.parent_val (by simpa using hused), hpar]

/-- **A used inode other than the root is in exactly one slot.** -/
theorem SoundTable.exists_unique_slot (h : SoundTable t) (hi : (t i).type ≠ inodeFree)
    (h0 : i ≠ 0) : ∃! p : Fin maxInodes × Fin maxDirEntries, Holds t p.1 p.2 i := by
  obtain ⟨s, hs⟩ := h.exists_slot hi h0
  refine ⟨((tree t).parent i, s), hs, ?_⟩
  rintro ⟨d, s'⟩ hs'
  change Holds t d s' i at hs'
  -- the parent pointer tells the directory, and there the slot is determined
  obtain rfl : d = (tree t).parent i :=
    Fin.ext ((h.parent_of_holds hs').symm.trans (h.parent_of_holds hs))
  have he : (t ((tree t).parent i)).dirEntries s' = (t ((tree t).parent i)).dirEntries s :=
    UInt32.toNat_inj.1 (hs'.2.2.trans hs.2.2.symm)
  rw [h.slot_injective hs.1 hs'.2.1 hs.2.1 he]

/-! ### Parent pointers -/

/-- Following the parent pointers for a number of steps. -/
def follow (t : InodeTable) : ℕ → Fin maxInodes → Option (Fin maxInodes)
  | 0, i => some i
  | n + 1, i =>
      if h : (t i).parentInode.toNat < maxInodes then follow t n ⟨(t i).parentInode.toNat, h⟩
      else none

/-- A climb in the tree that reaches the root is one along the parent pointers. -/
theorem SoundTable.follow_of_iterate (h : SoundTable t) {n : ℕ} (hi : (t i).type ≠ inodeFree)
    (hn : (tree t).parent^[n] i = 0) : ∃ m ≤ n, follow t m i = some 0 := by
  induction n generalizing i with
  | zero =>
      obtain rfl : i = 0 := hn
      exact ⟨0, le_rfl, rfl⟩
  | succ n ih =>
      rcases eq_or_ne i 0 with h0 | h0
      · exact ⟨0, Nat.zero_le _, by rw [h0]; rfl⟩
      · have hpar : (t ((tree t).parent i)).type ≠ inodeFree := by
          simpa using h.wellFormed.parent_used (c := i) (by simpa using hi) h0
        obtain ⟨m, hm, hfollow⟩ := ih hpar hn
        refine ⟨m + 1, by omega, ?_⟩
        have hlt := h.parent_lt i hi
        have hidx : (⟨(t i).parentInode.toNat, hlt⟩ : Fin maxInodes) = (tree t).parent i :=
          Fin.ext (h.parent_val hi).symm
        rw [follow, dif_pos hlt, hidx, hfollow]

/-- **The parent pointers of a used inode lead to the root within 31 steps.** -/
theorem SoundTable.follow_root (h : SoundTable t) (hi : (t i).type ≠ inodeFree) :
    ∃ n ≤ maxInodes - 1, follow t n i = some 0 := by
  obtain ⟨n, hn, hroot⟩ := h.wellFormed.climb_lt_card (c := i) (by simpa using hi)
  rw [Fintype.card_fin] at hn
  obtain ⟨m, hm, hfollow⟩ := h.follow_of_iterate hi hroot
  exact ⟨m, by omega, hfollow⟩

end Table

/-! ### The invariant -/

/-- The inodes are a tree with the directory 0 as its root, and their fields are in range. -/
structure TreeInvariant (k : Kernel) : Prop where
  /-- Inode 0 is a directory. -/
  root : (k.inodeArray 0).type = inodeDir
  /-- A directory has at most as many entries as fit. -/
  numEntries_le : ∀ d, (k.inodeArray d).type = inodeDir →
    (k.inodeArray d).numEntries.toNat ≤ maxDirEntries
  /-- Every slot in use holds the index of a used inode other than 0. -/
  slots : ∀ d, (k.inodeArray d).type = inodeDir → ∀ s : Fin maxDirEntries,
    s.val < (k.inodeArray d).numEntries.toNat →
      ∃ c : Fin maxInodes, ((k.inodeArray d).dirEntries s).toNat = c ∧ 1 ≤ c.val ∧
        (k.inodeArray c).type ≠ inodeFree
  /-- Every used inode other than 0 is in exactly one slot in use of all directories. -/
  once : ∀ i, (k.inodeArray i).type ≠ inodeFree → i ≠ 0 →
    ∃! p : Fin maxInodes × Fin maxDirEntries, Holds k.inodeArray p.1 p.2 i
  /-- The directory that holds an inode is its parent. -/
  parent : ∀ d s i, Holds k.inodeArray d s i → (k.inodeArray i).parentInode.toNat = d
  /-- The parent pointers of every used inode lead to inode 0. -/
  climb : ∀ i, (k.inodeArray i).type ≠ inodeFree →
    ∃ n ≤ maxInodes - 1, follow k.inodeArray n i = some 0
  /-- A file has no entries, and at most as many bytes as fit. -/
  file : ∀ i, (k.inodeArray i).type = inodeFile →
    (k.inodeArray i).numEntries = 0 ∧ (k.inodeArray i).size.toNat ≤ maxFileSize
  /-- The current directory is a directory. -/
  cwd : ∃ d : Fin maxInodes, k.currentDir = d ∧ (k.inodeArray d).type = inodeDir

/-- What runs keep up is a tree. -/
theorem Invariant.treeInvariant {k : Kernel} (h : Invariant k) : TreeInvariant k where
  root := by simpa using h.sound.wellFormed.root_dir
  numEntries_le := h.sound.numEntries_le
  slots := by
    intro d hd s hs
    have hlt := h.sound.slots_lt d hd _ (mem_usedSlots.2 ⟨s, hs, rfl⟩)
    have hmem : ⟨_, hlt⟩ ∈ (tree k.inodeArray).children d := mem_children.2 ⟨s, hs, rfl⟩
    obtain ⟨hused, h0, -⟩ := h.sound.wellFormed.child d _ (by simpa using hd) hmem
    refine ⟨⟨_, hlt⟩, rfl, ?_, by simpa using hused⟩
    exact Nat.one_le_iff_ne_zero.2 fun hz => h0 (Fin.ext hz)
  once := fun i hi h0 => h.sound.exists_unique_slot hi h0
  parent := fun d s i hh => h.sound.parent_of_holds hh
  climb := fun i hi => h.sound.follow_root hi
  file := h.sound.file
  cwd := by
    obtain ⟨d, hd⟩ := h.cwd
    exact ⟨d, hd.val, hd.dir⟩

/-- **Every run from a formatted disk goes through, and ends in a tree.** -/
theorem run_treeInvariant {disk : Disk} (hdisk : Formatted disk) (memory : Memory)
    (ops : List Op) :
    ∃ k, run Op.step (boot disk memory) ops = .ok k ∧ TreeInvariant k := by
  obtain ⟨k, hrun, hk⟩ := run_total (fun s o hs => Invariant.step hs o) ops
    (Invariant.boot hdisk memory)
  exact ⟨k, hrun, hk.treeInvariant⟩

/-- A directory is made and entered, a file is written in it, and the machine is rebooted. -/
theorem run_treeInvariant_zero :
    ∃ k, run Op.step (boot (fun _ _ => 0) ⟨0, fun _ => 0⟩)
        [.mkdir nameA, .cd nameA, .writeFile nameA slash, .init] = .ok k ∧ TreeInvariant k :=
  run_treeInvariant (Formatted.zero fun _ _ => rfl) ⟨0, fun _ => 0⟩ _

end Anaga
