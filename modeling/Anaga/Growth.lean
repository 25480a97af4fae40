/-
**What a call does to the tree and to the disk.**

Seen through the tree in the table, a call other than a reboot does one of two things: nothing, or
it adds one child to the current directory, under the first 31 bytes of the name it was given.  And
a call either leaves the disk alone or leaves on it the table that is then in memory.  The theorems
about names and paths are case analyses over these two facts.

Main definitions:

* `Anaga.TreeStep` — what a call does to the tree.

Main results:

* `Anaga.Invariant.treeStep` — **every call but a reboot does one of these two things**;
* `Anaga.Invariant.exec_currentDir` — only a move and a reboot change the current directory;
* `Anaga.Invariant.exec_disk` — the disk is left alone or up to date.
-/

import Anaga.Reachable

set_option relaxedAutoImplicit false
set_option autoImplicit false

namespace Anaga

open Transition

variable {k : Kernel} {d : Fin maxInodes}

/-! ### The tree -/

/-- What a call does to the tree: it leaves it as it is, which it must if it has no name under
which an inode can be created, or it adds a child to the current directory. -/
inductive TreeStep (k : Kernel) (d : Fin maxInodes) (o : Op) (t' : InodeTable) : Prop
  | same (hnone : ∀ name, o.newName = some name → ¬ k.Creatable name)
      (htree : tree t' = tree k.inodeArray)
  | grow (name : CString) (idx : Fin maxInodes) (κ : NodeKind) (hname : o.newName = some name)
      (hc : k.Creatable name) (hfree : (tree k.inodeArray).kind idx = .free) (hκ : κ ≠ .free)
      (htree : tree t' = (tree k.inodeArray).addChild d idx (name.bytes.take 31) κ)

/-- Outcomes that create an inode. -/
theorem TreeStep.of_created (h : Invariant k) (hd : Cwd k d) {o : Op} {name : CString}
    {type : UInt32} {idx : Fin maxInodes} {t t' : InodeTable} (hname : o.newName = some name)
    (htype : type = inodeFile ∨ type = inodeDir)
    (hc : created k.inodeArray d name type = some (idx, t)) (ht : tree t' = tree t) :
    TreeStep k d o t' := by
  have hf := Fresh.of_created hd.dir hc
  refine TreeStep.grow name idx (kindOf type) hname ?_ ?_ ?_ (ht.trans (hf.tree_eq htype))
  · exact hd.creatable h.sound hc
  · simpa using hf.free
  · rcases htype with rfl | rfl
    · decide
    · decide

/-- Outcomes that write into a file, be it an old or a new one. -/
theorem TreeStep.of_write (h : Invariant k) (hd : Cwd k d) {name content : CString}
    {idx : Fin maxInodes} {t : InodeTable}
    (hc : writeTarget k.inodeArray d name = some (idx, t)) :
    TreeStep k d (.writeFile name content) (writeTable t idx content) := by
  have htree := tree_write t idx content
  rcases writeTarget_eq_some_iff.1 hc with ⟨hl, -, rfl⟩ | ⟨-, hcr⟩
  · refine TreeStep.same ?_ htree
    intro name' hname'
    obtain rfl : name = name' := by simpa [Op.newName] using hname'
    have hfind : findInodeInDir k.inodeArray k.currentDir name = .ok (some idx) := by
      rw [hd.find h.sound, hl]
    exact not_creatable_of_find hfind
  · exact TreeStep.of_created h hd rfl (Or.inl rfl) hcr htree

/-- **Every call but a reboot leaves the tree alone or adds one child to it.** -/
theorem Invariant.treeStep (h : Invariant k) (hd : Cwd k d) {o : Op} (ho : o ≠ .init) {r : Result}
    (hr : o.exec k = .ok r) : TreeStep k d o r.kernel.inodeArray := by
  cases outcome_of_exec h.sound hd h.closed hr with
  | fail msg hnone hwrite => exact TreeStep.same hnone rfl
  | mkdir hc => exact TreeStep.of_created h hd rfl (Or.inr rfl) hc rfl
  | touch hc => exact TreeStep.of_created h hd rfl (Or.inl rfl) hc rfl
  | write fd hc hlen => exact TreeStep.of_write h hd hc
  | cut fd hc hlen => exact TreeStep.of_write h hd hc
  | cd hc => exact TreeStep.same (fun name hname => by simp [Op.newName] at hname) rfl
  | keeps hreads hk =>
      refine TreeStep.same (fun name hname => ?_) (by rw [hk.inodeArray])
      rw [hreads.newName] at hname
      cases hname
  | init => exact absurd rfl ho

/-! ### The current directory -/

/-- A call leaves the current directory as it is, unless it is a move or a reboot. -/
theorem Invariant.exec_currentDir (h : Invariant k) (hd : Cwd k d) {o : Op} {r : Result}
    (hr : o.exec k = .ok r) :
    r.kernel.currentDir = k.currentDir ∨ (o = .init ∧ r.kernel.currentDir = 0) ∨
      ∃ path c, o = .cd path ∧ cdTarget k.inodeArray d path.bytes = some c ∧
        r.kernel.currentDir = c := by
  cases outcome_of_exec h.sound hd h.closed hr with
  | fail msg hnone hwrite => exact Or.inl rfl
  | mkdir hc => exact Or.inl rfl
  | touch hc => exact Or.inl rfl
  | write fd hc hlen => exact Or.inl rfl
  | cut fd hc hlen => exact Or.inl rfl
  | cd hc => exact Or.inr (Or.inr ⟨_, _, rfl, hc, rfl⟩)
  | keeps hreads hk => exact Or.inl hk.currentDir
  | init => exact Or.inr (Or.inl ⟨rfl, vfsInit_currentDir k⟩)

/-! ### The disk -/

/-- **A call leaves the disk alone, or leaves on it the table that is then in memory.** -/
theorem Invariant.exec_disk (h : Invariant k) {o : Op} {r : Result} (hr : o.exec k = .ok r) :
    r.kernel.disk = k.disk ∨ diskTable r.kernel.disk = r.kernel.inodeArray := by
  obtain ⟨d, hd⟩ := h.cwd
  cases outcome_of_exec h.sound hd h.closed hr with
  | fail msg hnone hwrite => exact Or.inl rfl
  | mkdir hc => exact Or.inr (diskTable_vfsSync _ _)
  | touch hc => exact Or.inr (diskTable_vfsSync _ _)
  | write fd hc hlen => exact Or.inr (diskTable_vfsSync _ _)
  | cut fd hc hlen => exact Or.inl rfl
  | cd hc => exact Or.inl rfl
  | keeps ho hk => exact Or.inl hk.disk
  | init => exact Or.inr (diskTable_vfsInit k)

end Anaga
