/-
**The tree in the inode table.**

An inode table is read here as a table of named nodes (`NamedTree`), and the functions of
`fs/file.c` and `fs/vfs.c` that search it and add to it are shown to be the operations of that
structure: `find_inode_in_dir` is the lookup of the first child of a name, and both constructors
add a child.  Everything later modules say about trees, names and paths goes through this reading.

Main definitions:

* `Anaga.tree` — the tree in the table;
* `Anaga.SoundTable` — the table is a tree and its fields are in range;
* `Anaga.GroundedTable` — what the functions need of that to stay inside their arrays;
* `Anaga.freshInode`, `Anaga.linkInode`, `Anaga.created` — a new inode, its place in the table,
  and the outcome of an attempt to create one;
* `Anaga.Creatable` — the condition under which the attempt succeeds.

Main results:

* `Anaga.findInodeInDir_eq` — **lookup is lookup in the tree**;
* `Anaga.tree_linkInode` — **creating an inode adds a child to the tree**;
* `Anaga.SoundTable.linkInode` — and keeps the table sound;
* `Anaga.fileCreate_eq` — the constructor of files is `created`.
-/

import Mathlib.Data.Fintype.Basic
import Mathlib.Data.List.GetD
import Anaga.NamedTree
import Anaga.Persist

set_option relaxedAutoImplicit false
set_option autoImplicit false

namespace Anaga

open Transition

/-! ### Reading a table as a tree -/

/-- The inode that an entry of a directory names. -/
def toIndex (e : UInt32) : Option (Fin maxInodes) :=
  if h : e.toNat < maxInodes then some ⟨e.toNat, h⟩ else none

/-- The entries of a directory that are in use. -/
def usedSlots (n : Inode) : List UInt32 := (List.ofFn n.dirEntries).take n.numEntries.toNat

/-- What an inode of the given type holds. -/
def kindOf (type : UInt32) : NodeKind :=
  if type = inodeFree then .free else if type = inodeDir then .dir else .leaf

/-- **The tree in the table.** -/
def tree (t : InodeTable) : NamedTree (Fin maxInodes) (List UInt8) where
  kind := fun i => kindOf (t i).type
  name := fun i => (t i).fileName
  parent := fun i => Fin.ofNat maxInodes (t i).parentInode.toNat
  children := fun i => (usedSlots (t i)).filterMap toIndex

theorem inodeDir_ne_free : inodeDir ≠ inodeFree := by decide

theorem inodeFile_ne_free : inodeFile ≠ inodeFree := by decide

theorem inodeFile_ne_dir : inodeFile ≠ inodeDir := by decide

@[simp] theorem kindOf_eq_free {type : UInt32} : kindOf type = .free ↔ type = inodeFree := by
  unfold kindOf
  split_ifs with h₁ h₂ <;> simp [h₁]

@[simp] theorem kindOf_eq_dir {type : UInt32} : kindOf type = .dir ↔ type = inodeDir := by
  unfold kindOf
  split_ifs with h₁ h₂
  · simp [h₁, inodeDir_ne_free.symm]
  · simp [h₂]
  · simp [h₂]

@[simp] theorem tree_kind (t : InodeTable) (i : Fin maxInodes) :
    (tree t).kind i = kindOf (t i).type := rfl

@[simp] theorem tree_name (t : InodeTable) (i : Fin maxInodes) :
    (tree t).name i = (t i).fileName := rfl

theorem toNat_ofNat_index (i : Fin maxInodes) : (UInt32.ofNat i).toNat = i := by
  have hi : i.val < 32 := i.isLt
  rw [UInt32.toNat_ofNat']
  omega

theorem toIndex_of_lt {e : UInt32} (h : e.toNat < maxInodes) :
    toIndex e = some ⟨e.toNat, h⟩ := dif_pos h

@[simp] theorem toIndex_ofNat (i : Fin maxInodes) : toIndex (UInt32.ofNat i) = some i := by
  rw [toIndex_of_lt (by rw [toNat_ofNat_index]; exact i.isLt)]
  exact congrArg some (Fin.ext (toNat_ofNat_index i))

/-- **The table is a tree, and its fields are in range.** -/
structure SoundTable (t : InodeTable) : Prop where
  /-- The table is a tree with inode 0 as its root. -/
  wellFormed : (tree t).WellFormed 0
  /-- Every inode is free, a file or a directory. -/
  type_cases : ∀ i, (t i).type = inodeFree ∨ (t i).type = inodeFile ∨ (t i).type = inodeDir
  /-- Every name is terminated. -/
  terminated : ∀ i, 0 ∈ (t i).nameRegion
  /-- The parent of a used inode is an inode. -/
  parent_lt : ∀ i, (t i).type ≠ inodeFree → (t i).parentInode.toNat < maxInodes
  /-- No directory has more entries than fit. -/
  numEntries_le : ∀ i, (t i).type = inodeDir → (t i).numEntries.toNat ≤ maxDirEntries
  /-- The entries of a directory are inodes. -/
  slots_lt : ∀ i, (t i).type = inodeDir → ∀ e ∈ usedSlots (t i), e.toNat < maxInodes
  /-- A file has no entries, and no more data than fits. -/
  file : ∀ i, (t i).type = inodeFile →
    (t i).numEntries = 0 ∧ (t i).size.toNat ≤ maxFileSize

/-- The parent in the tree is the parent in the table. -/
theorem SoundTable.parent_val {t : InodeTable} (h : SoundTable t) {i : Fin maxInodes}
    (hi : (t i).type ≠ inodeFree) : ((tree t).parent i).val = (t i).parentInode.toNat :=
  Nat.mod_eq_of_lt (h.parent_lt i hi)

/-- **The fields of the table are in range, and the parents of the used inodes lead to the root.**
Unlike in a tree, an entry of a directory need not be that of a used inode, nor that of a child of
this directory, and a used inode need not have an entry. -/
structure GroundedTable (t : InodeTable) : Prop where
  /-- The root is a directory. -/
  root_dir : (t 0).type = inodeDir
  /-- Every inode is free, a file or a directory. -/
  type_cases : ∀ i, (t i).type = inodeFree ∨ (t i).type = inodeFile ∨ (t i).type = inodeDir
  /-- Every name is terminated. -/
  terminated : ∀ i, 0 ∈ (t i).nameRegion
  /-- The parent of a used inode is an inode. -/
  parent_lt : ∀ i, (t i).type ≠ inodeFree → (t i).parentInode.toNat < maxInodes
  /-- The parent of a used inode other than the root is a directory. -/
  parent_dir : ∀ i, (t i).type ≠ inodeFree → i ≠ 0 → (t ((tree t).parent i)).type = inodeDir
  /-- The parents of a used inode lead to the root. -/
  grounded : ∀ i, (t i).type ≠ inodeFree → ∃ n, (tree t).parent^[n] i = 0
  /-- No directory has more entries than fit. -/
  numEntries_le : ∀ i, (t i).type = inodeDir → (t i).numEntries.toNat ≤ maxDirEntries
  /-- The entries of a directory are inodes. -/
  slots_lt : ∀ i, (t i).type = inodeDir → ∀ e ∈ usedSlots (t i), e.toNat < maxInodes
  /-- A file has no more data than fits. -/
  size_le : ∀ i, (t i).type = inodeFile → (t i).size.toNat ≤ maxFileSize

theorem SoundTable.groundedTable {t : InodeTable} (h : SoundTable t) : GroundedTable t where
  root_dir := by simpa using h.wellFormed.root_dir
  type_cases := h.type_cases
  terminated := h.terminated
  parent_lt := h.parent_lt
  parent_dir := fun i hi hne => by
    simpa using (h.wellFormed.listed i (by simpa using hi) hne).1
  grounded := fun i hi => h.wellFormed.grounded i (by simpa using hi)
  numEntries_le := h.numEntries_le
  slots_lt := h.slots_lt
  size_le := fun i hi => (h.file i hi).2

/-- What is proved of a grounded table is proved of a tree. -/
instance {t : InodeTable} : Coe (SoundTable t) (GroundedTable t) := ⟨SoundTable.groundedTable⟩

/-- The parent in the tree is the parent in the table. -/
theorem GroundedTable.parent_val {t : InodeTable} (h : GroundedTable t) {i : Fin maxInodes}
    (hi : (t i).type ≠ inodeFree) : ((tree t).parent i).val = (t i).parentInode.toNat :=
  Nat.mod_eq_of_lt (h.parent_lt i hi)

/-! ### Lookup -/

/-- The loop of `find_inode_in_dir` finds the first child of the name, if all names are terminated
and the entries fit into the array. -/
theorem findLoop_eq {t : InodeTable} (hterm : ∀ i, 0 ∈ (t i).nameRegion) (name : CString)
    {slots : List UInt32} {n : ℕ} (hn : n ≤ slots.length) :
    findLoop t name slots n =
      .ok (((slots.take n).filterMap toIndex).find? fun c => (t c).fileName = name.bytes) := by
  induction slots generalizing n with
  | nil =>
      obtain rfl : n = 0 := by simpa using hn
      rfl
  | cons e slots ih =>
      cases n with
      | zero => rfl
      | succ n =>
          have ihn := ih (n := n) (by simpa using hn)
          rw [findLoop, List.take_succ_cons, List.filterMap_cons]
          by_cases he : e.toNat < maxInodes
          · obtain ⟨r, hr, hr0⟩ := strcmp_of_not_overruns name.noNul
              (not_overruns_of_zero_mem (hterm ⟨e.toNat, he⟩) name.bytes)
            rw [dif_pos he, CString.region, hr, ok_bind, toIndex_of_lt he]
            by_cases h0 : r = 0
            · have hname : (t ⟨e.toNat, he⟩).fileName = name.bytes := hr0.1 h0
              simp [h0, hname]
            · have hname : (t ⟨e.toNat, he⟩).fileName ≠ name.bytes := fun h => h0 (hr0.2 h)
              simp [h0, hname, ihn]
          · have hnone : toIndex e = none := dif_neg he
            rw [dif_neg he, ihn, hnone]

/-- **Lookup in a directory is lookup in the tree.** -/
theorem findInodeInDir_eq {t : InodeTable} (h : GroundedTable t) {d : Fin maxInodes}
    (hd : (t d).type = inodeDir) (name : CString) :
    findInodeInDir t d name = .ok ((tree t).lookup d name.bytes) := by
  have hle : (t d).numEntries.toNat ≤ (List.ofFn (t d).dirEntries).length := by
    rw [List.length_ofFn]
    exact h.numEntries_le d hd
  rw [findInodeInDir, dif_pos d.isLt]
  simp only [Fin.eta, hd, if_true, findLoop_eq h.terminated name hle]
  rfl

/-- What a lookup finds is a used inode of that name, other than the root. -/
theorem SoundTable.of_lookup {t : InodeTable} (h : SoundTable t) {d c : Fin maxInodes}
    (hd : (t d).type = inodeDir) {name : List UInt8} (hc : (tree t).lookup d name = some c) :
    (t c).type ≠ inodeFree ∧ c ≠ 0 ∧ (tree t).parent c = d ∧ (t c).fileName = name := by
  have hchild := h.wellFormed.child d c (by simpa using hd) (NamedTree.mem_of_lookup hc)
  exact ⟨by simpa using hchild.1, hchild.2.1, hchild.2.2, NamedTree.name_of_lookup hc⟩

/-! ### A new inode -/

/-- The name field that a constructor writes: the first 31 bytes of the name, padded with NULs. -/
def freshName (name : CString) : Fin maxFilename → UInt8 :=
  fun i => if i.val < maxFilename - 1 then name.bytes.getD i 0 else 0

/-- The inode that a constructor writes. -/
def freshInode (name : CString) (type : UInt32) (d : Fin maxInodes) : Inode :=
  { Inode.zero with
    name := freshName name
    type := type
    parentInode := UInt32.ofNat d }

/-- The directory `n` with `idx` appended to its entries. -/
def addEntry (n : Inode) (idx : Fin maxInodes) : Inode :=
  { n with
    dirEntries := fun s => if s.val = n.numEntries.toNat then UInt32.ofNat idx else n.dirEntries s
    numEntries := n.numEntries + 1 }

/-- The table with `node` at `idx`, as the last entry of `d`. -/
def linkInode (t : InodeTable) (d idx : Fin maxInodes) (node : Inode) : InodeTable :=
  Function.update (Function.update t idx node) d (addEntry (t d) idx)

/-- An inode that can be entered into the directory `d`. -/
structure NewNode (node : Inode) (d : Fin maxInodes) : Prop where
  type_cases : node.type = inodeFile ∨ node.type = inodeDir
  terminated : 0 ∈ node.nameRegion
  parentInode : node.parentInode = UInt32.ofNat d
  numEntries : node.numEntries = 0
  size_le : node.size.toNat ≤ maxFileSize

/-- The outcome of creating an inode in the directory `d`: its index and the table afterwards. -/
def created (t : InodeTable) (d : Fin maxInodes) (name : CString) (type : UInt32) :
    Option (Fin maxInodes × InodeTable) :=
  match findFreeInode t with
  | none => none
  | some idx =>
      if maxDirEntries ≤ (t d).numEntries.toNat ∨ ((tree t).lookup d name.bytes).isSome then none
      else some (idx, linkInode t d idx (freshInode name type d))

/-- An inode of this name can be created in the directory `d`: some inode is free, the directory
has room, and none of its entries has the name. -/
def Creatable (t : InodeTable) (d : Fin maxInodes) (name : CString) : Prop :=
  (∃ i, (t i).type = inodeFree) ∧ (t d).numEntries.toNat < maxDirEntries ∧
    (tree t).lookup d name.bytes = none

/-- What `strncpy` makes of a cleared name field. -/
theorem strncpy_freshName (name : CString) :
    ∃ l, strncpy Inode.zero.nameRegion name.region (maxFilename - 1) = .ok l ∧
      nameField l = freshName name := by
  have hzero : Inode.zero.nameRegion = List.replicate 32 0 := List.ofFn_const 32 0
  have hlen : Inode.zero.nameRegion.length = 32 := Inode.zero.nameRegion_length
  simp only [maxFilename]
  rcases Nat.lt_or_ge name.bytes.length 31 with hlt | hge
  · -- the name is copied with its NUL, and the rest of the field is cleared
    refine ⟨_, strncpy_of_length_lt name.noNul hlt (by rw [hlen]; omega), ?_⟩
    funext i
    have hi : i.val < 32 := i.isLt
    simp only [nameField, freshName, hzero, List.drop_replicate, List.getD_eq_getElem?_getD,
      List.getElem?_append, List.length_append, List.length_replicate, List.getElem?_replicate]
    by_cases hn : i.val < name.bytes.length
    · simp [hn, show i.val < 31 by omega,
        show i.val < name.bytes.length + (32 - name.bytes.length) by omega]
    · simp [hn, show i.val < name.bytes.length + (31 + 1 - name.bytes.length) by omega]
      split_ifs <;> simp
  · refine ⟨_, strncpy_of_le_length name.noNul hge (by rw [hlen]; omega) [0], ?_⟩
    funext i
    have hi : i.val < 32 := i.isLt
    simp only [nameField, freshName, hzero, List.drop_replicate, List.getD_eq_getElem?_getD,
      List.getElem?_append, List.length_take, List.getElem?_replicate, List.getElem?_take]
    by_cases hn : i.val < 31
    · simp [hn, hge]
    · simp [hn, show min 31 name.bytes.length = 31 by omega]
      split_ifs <;> simp

/-- The byte behind the copied name is cleared anyway. -/
theorem update_freshName (name : CString) :
    Function.update (freshName name) 31 0 = freshName name := by
  funext i
  rw [Function.update_apply]
  split_ifs with h
  · rw [h]; rfl
  · rfl

/-- The field of a new name: the kept bytes, and a NUL. -/
theorem ofFn_freshName (name : CString) :
    List.ofFn (freshName name) =
      name.bytes.take 31 ++ 0 :: List.replicate (31 - name.bytes.length) 0 := by
  apply List.ext_getElem?
  intro i
  rw [List.getElem?_ofFn]
  simp only [freshName, maxFilename]
  rcases Nat.lt_or_ge i (min 31 name.bytes.length) with hi | hi
  · have hi' : i < name.bytes.length := by omega
    rw [dif_pos (by omega), if_pos (by omega), List.getElem?_append_left (by simpa using hi),
      List.getElem?_take_of_lt (by omega), List.getD_eq_getElem _ _ hi',
      List.getElem?_eq_getElem hi']
  · rw [List.getElem?_append_right (by simpa using hi), ← List.replicate_succ,
      List.getElem?_replicate, List.length_take]
    have hget : (if i < 31 then name.bytes.getD i 0 else 0) = 0 := by
      split_ifs with h31
      · rw [List.getD_eq_default _ _ (by omega)]
      · rfl
    by_cases h32 : i < 32
    · rw [dif_pos h32, hget, if_pos (by omega)]
    · rw [dif_neg h32, if_neg (by omega)]

section Fresh

variable (name : CString) (type : UInt32) (d : Fin maxInodes)

/-- **A constructor keeps the first 31 bytes of a name.** -/
@[simp] theorem freshInode_fileName :
    (freshInode name type d).fileName = name.bytes.take 31 := by
  rw [Inode.fileName, Inode.nameRegion]
  exact (congrArg cstr (ofFn_freshName name)).trans
    (cstr_append_zero (fun h => name.noNul (List.mem_of_mem_take h)) _)

theorem zero_mem_freshInode : 0 ∈ (freshInode name type d).nameRegion := by
  rw [Inode.nameRegion]
  have hmem : (0 : UInt8) ∈ name.bytes.take 31 ++ 0 :: List.replicate (31 - name.bytes.length) 0 :=
    by simp
  rwa [← ofFn_freshName] at hmem

theorem newNode_freshInode {type : UInt32} (htype : type = inodeFile ∨ type = inodeDir) :
    NewNode (freshInode name type d) d where
  type_cases := htype
  terminated := zero_mem_freshInode name type d
  parentInode := rfl
  numEntries := rfl
  size_le := Nat.zero_le _

end Fresh

section NewNode

variable {node : Inode} {d : Fin maxInodes}

theorem NewNode.type_ne_free (h : NewNode node d) : node.type ≠ inodeFree := by
  rcases h.type_cases with htype | htype
  · rw [htype]; exact inodeFile_ne_free
  · rw [htype]; exact inodeDir_ne_free

theorem NewNode.usedSlots_eq (h : NewNode node d) : usedSlots node = [] := by
  rw [usedSlots, h.numEntries]
  rfl

end NewNode

/-! ### A new entry -/

section Link

variable {t : InodeTable} {d idx : Fin maxInodes} {node : Inode}

theorem numEntries_add_one {n : Inode} (hn : n.numEntries.toNat < maxDirEntries) :
    (n.numEntries + 1).toNat = n.numEntries.toNat + 1 := by
  simp only [maxDirEntries] at hn
  rw [UInt32.toNat_add]
  change (n.numEntries.toNat + 1) % 2 ^ 32 = _
  omega

theorem usedSlots_addEntry {n : Inode} (hn : n.numEntries.toNat < maxDirEntries)
    (idx : Fin maxInodes) : usedSlots (addEntry n idx) = usedSlots n ++ [UInt32.ofNat idx] := by
  have hnew : (List.ofFn (addEntry n idx).dirEntries)[n.numEntries.toNat]? =
      some (UInt32.ofNat idx) := by
    rw [List.getElem?_ofFn, dif_pos hn]
    simp [addEntry]
  have hold : (List.ofFn (addEntry n idx).dirEntries).take n.numEntries.toNat = usedSlots n := by
    rw [usedSlots]
    apply List.ext_getElem?
    intro i
    rw [List.getElem?_take, List.getElem?_take]
    split_ifs with hi
    · rw [List.getElem?_ofFn, List.getElem?_ofFn]
      by_cases hi16 : i < maxDirEntries
      · rw [dif_pos hi16, dif_pos hi16]
        have hne : ¬ i = n.numEntries.toNat := by omega
        simp [addEntry, hne]
      · rw [dif_neg hi16, dif_neg hi16]
    · rfl
  rw [usedSlots, show (addEntry n idx).numEntries = n.numEntries + 1 from rfl,
    numEntries_add_one hn, List.take_add_one, hold, hnew]
  rfl

/-- The statement that appends an entry, right after the new inode was written. -/
theorem appendEntry_update (hd : d ≠ idx) (hn : (t d).numEntries.toNat < maxDirEntries) :
    appendEntry (Function.update t idx node) d idx = .ok (linkInode t d idx node) := by
  have hat : Function.update t idx node ⟨d.val, d.isLt⟩ = t d := by
    rw [Fin.eta, Function.update_of_ne hd]
  rw [appendEntry, dif_pos d.isLt]
  simp only [hat, dif_pos hn, linkInode, addEntry, Fin.eta]
  congr 3
  funext s
  rw [Function.update_apply]
  simp only [Fin.ext_iff]

theorem linkInode_self : linkInode t d idx node d = addEntry (t d) idx := by
  rw [linkInode, Function.update_self]

theorem linkInode_new (hd : d ≠ idx) : linkInode t d idx node idx = node := by
  rw [linkInode, Function.update_of_ne hd.symm, Function.update_self]

theorem linkInode_of_ne {i : Fin maxInodes} (hd : i ≠ d) (hi : i ≠ idx) :
    linkInode t d idx node i = t i := by
  rw [linkInode, Function.update_of_ne hd, Function.update_of_ne hi]

/-- An old inode keeps all its fields but the entries, which only `d` changes. -/
theorem linkInode_old {i : Fin maxInodes} (hi : i ≠ idx) :
    (linkInode t d idx node i).type = (t i).type ∧
      (linkInode t d idx node i).name = (t i).name ∧
      (linkInode t d idx node i).size = (t i).size ∧
      (linkInode t d idx node i).parentInode = (t i).parentInode ∧
      (linkInode t d idx node i).data = (t i).data := by
  by_cases hd : i = d
  · rw [hd, linkInode_self]
    exact ⟨rfl, rfl, rfl, rfl, rfl⟩
  · rw [linkInode_of_ne hd hi]
    exact ⟨rfl, rfl, rfl, rfl, rfl⟩

/-- The parents after an inode was entered: the new one has `d`, and the old ones keep theirs. -/
theorem parent_linkInode (hd : d ≠ idx) (hnode : NewNode node d) (i : Fin maxInodes) :
    (tree (linkInode t d idx node)).parent i = if i = idx then d else (tree t).parent i := by
  change Fin.ofNat maxInodes (linkInode t d idx node i).parentInode.toNat = _
  split_ifs with hi
  · rw [hi, linkInode_new hd, hnode.parentInode, toNat_ofNat_index]
    exact Fin.ext (Nat.mod_eq_of_lt d.isLt)
  · rw [(linkInode_old hi).2.2.2.1]
    rfl

/-- **Creating an inode adds a child to the tree.** -/
theorem tree_linkInode (hd : d ≠ idx) (hn : (t d).numEntries.toNat < maxDirEntries)
    (hnode : NewNode node d) :
    tree (linkInode t d idx node) =
      (tree t).addChild d idx node.fileName (kindOf node.type) := by
  have hkind : (tree (linkInode t d idx node)).kind =
      Function.update (tree t).kind idx (kindOf node.type) := by
    funext i
    rw [Function.update_apply]
    split_ifs with hi
    · rw [hi, tree_kind, linkInode_new hd]
    · rw [tree_kind, (linkInode_old hi).1, tree_kind]
  have hname : (tree (linkInode t d idx node)).name =
      Function.update (tree t).name idx node.fileName := by
    funext i
    rw [Function.update_apply]
    split_ifs with hi
    · rw [hi, tree_name, linkInode_new hd]
    · rw [tree_name, tree_name, Inode.fileName, Inode.nameRegion, (linkInode_old hi).2.1]
      rfl
  have hpar : (tree (linkInode t d idx node)).parent =
      Function.update (tree t).parent idx d := by
    funext i
    rw [Function.update_apply]
    exact parent_linkInode hd hnode i
  have hchildren : (tree (linkInode t d idx node)).children =
      Function.update (Function.update (tree t).children idx []) d
        ((tree t).children d ++ [idx]) := by
    funext i
    rw [Function.update_apply, Function.update_apply]
    simp only [tree]
    split_ifs with hid hi
    · rw [hid, linkInode_self, usedSlots_addEntry hn, List.filterMap_append]
      simp
    · rw [hi, linkInode_new hd, hnode.usedSlots_eq]
      rfl
    · rw [linkInode_of_ne hid hi]
  rw [NamedTree.addChild, ← hkind, ← hname, ← hpar, ← hchildren]

/-- **Entering a new inode into a directory keeps the table grounded.** -/
theorem GroundedTable.linkInode (h : GroundedTable t) (hd : (t d).type = inodeDir)
    (hidx : (t idx).type = inodeFree) (hn : (t d).numEntries.toNat < maxDirEntries)
    (hnode : NewNode node d) : GroundedTable (linkInode t d idx node) := by
  have hdir_ne : ∀ {i}, (t i).type = inodeDir → i ≠ idx := by
    rintro i hi rfl
    exact inodeDir_ne_free (hi ▸ hidx)
  have hne : d ≠ idx := hdir_ne hd
  have hold : ∀ {i}, i ≠ idx → (Anaga.linkInode t d idx node i).type = (t i).type :=
    fun hi => (linkInode_old hi).1
  constructor
  case root_dir =>
    rw [hold (hdir_ne h.root_dir)]
    exact h.root_dir
  case type_cases =>
    intro i
    by_cases hi : i = idx
    · rw [hi, linkInode_new hne]
      exact Or.inr hnode.type_cases
    · rw [hold hi]
      exact h.type_cases i
  case terminated =>
    intro i
    by_cases hi : i = idx
    · rw [hi, linkInode_new hne]
      exact hnode.terminated
    · rw [Inode.nameRegion, (linkInode_old hi).2.1]
      exact h.terminated i
  case parent_lt =>
    intro i hi
    by_cases hii : i = idx
    · rw [hii, linkInode_new hne, hnode.parentInode, toNat_ofNat_index]
      exact d.isLt
    · rw [hold hii] at hi
      rw [(linkInode_old hii).2.2.2.1]
      exact h.parent_lt i hi
  case parent_dir =>
    intro i hi hroot
    rw [parent_linkInode hne hnode]
    split_ifs with hii
    · rw [hold hne]
      exact hd
    · rw [hold hii] at hi
      have hpar := h.parent_dir i hi hroot
      rw [hold (hdir_ne hpar)]
      exact hpar
  case grounded =>
    -- the climb from an old inode goes as before, and the one from the new inode goes on at `d`
    have hclimb : ∀ i, (t i).type ≠ inodeFree →
        ∃ n, (tree (Anaga.linkInode t d idx node)).parent^[n] i = 0 := by
      intro i hi
      obtain ⟨n, hroot⟩ := h.grounded i hi
      refine exists_iterate_of_agree (P := fun i => (t i).type ≠ inodeFree) ?_ hi hroot
      intro x hx hx0
      have hxi : x ≠ idx := by
        rintro rfl
        exact hx hidx
      rw [parent_linkInode hne hnode, if_neg hxi, h.parent_dir x hx hx0]
      exact ⟨rfl, inodeDir_ne_free⟩
    intro i hi
    by_cases hii : i = idx
    · obtain ⟨n, hroot⟩ := hclimb d (by rw [hd]; exact inodeDir_ne_free)
      refine ⟨n + 1, ?_⟩
      rw [Function.iterate_succ_apply, parent_linkInode hne hnode, if_pos hii, hroot]
    · rw [hold hii] at hi
      exact hclimb i hi
  case numEntries_le =>
    intro i hi
    by_cases hid : i = d
    · rw [hid, linkInode_self]
      exact (numEntries_add_one hn).trans_le hn
    · by_cases hii : i = idx
      · rw [hii, linkInode_new hne, hnode.numEntries]
        exact Nat.zero_le _
      · rw [linkInode_of_ne hid hii] at hi ⊢
        exact h.numEntries_le i hi
  case slots_lt =>
    intro i hi e he
    by_cases hid : i = d
    · rw [hid, linkInode_self, usedSlots_addEntry hn] at he
      rcases List.mem_append.1 he with he | he
      · exact h.slots_lt d hd e he
      · obtain rfl : e = UInt32.ofNat idx := by simpa using he
        rw [toNat_ofNat_index]
        exact idx.isLt
    · by_cases hii : i = idx
      · rw [hii, linkInode_new hne, hnode.usedSlots_eq] at he
        simp at he
      · rw [linkInode_of_ne hid hii] at hi he
        exact h.slots_lt i hi e he
  case size_le =>
    intro i hi
    by_cases hii : i = idx
    · rw [hii, linkInode_new hne]
      exact hnode.size_le
    · rw [hold hii] at hi
      rw [(linkInode_old hii).2.2.1]
      exact h.size_le i hi

/-- **Entering a new inode into a directory keeps the table sound.** -/
theorem SoundTable.linkInode (h : SoundTable t) (hd : (t d).type = inodeDir)
    (hidx : (t idx).type = inodeFree) (hn : (t d).numEntries.toNat < maxDirEntries)
    (hnode : NewNode node d) : SoundTable (linkInode t d idx node) := by
  have hne : d ≠ idx := by
    rintro rfl
    exact inodeDir_ne_free (hd ▸ hidx)
  have hgrounded := h.groundedTable.linkInode hd hidx hn hnode
  refine ⟨?_, hgrounded.type_cases, hgrounded.terminated, hgrounded.parent_lt,
    hgrounded.numEntries_le, hgrounded.slots_lt, fun i hi => ⟨?_, hgrounded.size_le i hi⟩⟩
  · rw [tree_linkInode hne hn hnode]
    exact h.wellFormed.addChild (by simpa using hd) (by simpa using hidx)
      (by simpa using hnode.type_ne_free)
  · by_cases hii : i = idx
    · rw [hii, linkInode_new hne]
      exact hnode.numEntries
    · have hid : i ≠ d := by
        rintro rfl
        rw [(linkInode_old hii).1] at hi
        exact inodeFile_ne_dir (hi ▸ hd)
      rw [linkInode_of_ne hid hii] at hi ⊢
      exact (h.file i hi).1

end Link

/-! ### The constructors -/

section Created

variable {t t' : InodeTable} {d idx : Fin maxInodes} {name : CString} {type : UInt32}

theorem created_eq_some_iff :
    created t d name type = some (idx, t') ↔
      findFreeInode t = some idx ∧ (t d).numEntries.toNat < maxDirEntries ∧
        (tree t).lookup d name.bytes = none ∧ t' = linkInode t d idx (freshInode name type d) := by
  unfold created
  cases hfree : findFreeInode t with
  | none => simp
  | some i =>
      rcases Nat.lt_or_ge (t d).numEntries.toNat maxDirEntries with hn | hn
      · cases hl : (tree t).lookup d name.bytes with
        | none =>
            simp only [hn, not_le.2 hn, Option.isSome_none, Bool.false_eq_true, or_self, if_false,
              Option.some.injEq, Prod.mk.injEq, true_and]
            constructor
            · rintro ⟨rfl, rfl⟩
              exact ⟨rfl, rfl⟩
            · rintro ⟨rfl, rfl⟩
              exact ⟨rfl, rfl⟩
        | some c => simp
      · simp only [hn, not_lt.2 hn, true_or, if_true, reduceCtorEq, false_and, and_false]

theorem created_isSome_iff : (created t d name type).isSome ↔ Creatable t d name := by
  have hfree : (∃ i, findFreeInode t = some i) ↔ ∃ i, (t i).type = inodeFree := by
    constructor
    · rintro ⟨i, hi⟩
      exact ⟨i, type_of_findFreeInode hi⟩
    · rintro ⟨i, hi⟩
      rw [← Option.isSome_iff_exists, Option.isSome_iff_ne_none]
      exact fun hnone => findFreeInode_eq_none_iff.1 hnone i hi
  rw [Option.isSome_iff_exists, Creatable, ← hfree]
  constructor
  · rintro ⟨⟨i, t'⟩, h⟩
    obtain ⟨hi, hn, hl, -⟩ := created_eq_some_iff.1 h
    exact ⟨⟨i, hi⟩, hn, hl⟩
  · rintro ⟨⟨i, hi⟩, hn, hl⟩
    exact ⟨(i, _), created_eq_some_iff.2 ⟨hi, hn, hl, rfl⟩⟩

theorem created_eq_none_iff : created t d name type = none ↔ ¬ Creatable t d name := by
  have h : (created t d name type).isSome ↔ Creatable t d name := created_isSome_iff
  rw [← h, Option.not_isSome_iff_eq_none]

/-- What is known of an inode that was created in the directory `d`. -/
structure Fresh (t t' : InodeTable) (d idx : Fin maxInodes) (name : CString) (type : UInt32) :
    Prop where
  free : (t idx).type = inodeFree
  ne : d ≠ idx
  room : (t d).numEntries.toNat < maxDirEntries
  lookup : (tree t).lookup d name.bytes = none
  table : t' = linkInode t d idx (freshInode name type d)

theorem Fresh.of_created (hd : (t d).type = inodeDir)
    (h : created t d name type = some (idx, t')) : Fresh t t' d idx name type := by
  obtain ⟨hi, hn, hl, ht⟩ := created_eq_some_iff.1 h
  have hfree := type_of_findFreeInode hi
  refine ⟨hfree, ?_, hn, hl, ht⟩
  rintro rfl
  exact inodeDir_ne_free (hd ▸ hfree)

theorem Fresh.sound (hf : Fresh t t' d idx name type) (h : SoundTable t)
    (hd : (t d).type = inodeDir) (htype : type = inodeFile ∨ type = inodeDir) : SoundTable t' := by
  rw [hf.table]
  exact h.linkInode hd hf.free hf.room (newNode_freshInode name d htype)

theorem Fresh.tree_eq (hf : Fresh t t' d idx name type)
    (htype : type = inodeFile ∨ type = inodeDir) :
    tree t' = (tree t).addChild d idx (name.bytes.take 31) (kindOf type) := by
  rw [hf.table, tree_linkInode hf.ne hf.room (newNode_freshInode name d htype),
    freshInode_fileName]
  rfl

/-- The directory stays one. -/
theorem Fresh.dir (hf : Fresh t t' d idx name type) (hd : (t d).type = inodeDir) :
    (t' d).type = inodeDir := by
  rw [hf.table, (linkInode_old hf.ne).1]
  exact hd

theorem Fresh.new (hf : Fresh t t' d idx name type) : t' idx = freshInode name type d := by
  rw [hf.table, linkInode_new hf.ne]

/-- The outcome of `file_create`. -/
theorem fileCreate_eq (h : GroundedTable t) (hd : (t d).type = inodeDir) (name : CString) :
    fileCreate name d t =
      .ok ((created t d name inodeFile).elim (none, t) fun p => (some p.1, p.2)) := by
  obtain ⟨l, hl, hfield⟩ := strncpy_freshName name
  unfold fileCreate created
  cases hfree : findFreeInode t with
  | none => rfl
  | some idx =>
      have hne : d ≠ idx := by
        rintro rfl
        exact inodeDir_ne_free (hd ▸ type_of_findFreeInode hfree)
      simp only [inodeAt_val, ok_bind, hd, ne_eq, not_true_eq_false, if_false,
        findInodeInDir_eq h hd name]
      rcases Nat.lt_or_ge (t d).numEntries.toNat maxDirEntries with hn | hn
      · cases hlook : (tree t).lookup d name.bytes with
        | some c => simp [not_le.2 hn]
        | none =>
            have hnode : freshInode name inodeFile d =
                { Inode.zero with
                  name := Function.update (nameField l) 31 0
                  type := inodeFile
                  size := 0
                  parentInode := UInt32.ofNat d
                  numEntries := 0 } := by
              rw [hfield, update_freshName]
              rfl
            simp only [not_le.2 hn, if_false, hl, ok_bind, ← hnode, appendEntry_update hne hn,
              Option.isSome_none, Bool.false_eq_true, or_self, Option.elim_some]
      · simp [hn]

end Created

end Anaga
