/-
**Files and descriptors: `fs/file.c`.**

The lower half of the file system: looking a name up in a directory, creating a file, and reading
and writing through a table of open descriptors.  Every function takes the inode table it works
on, as in the source, and the table of descriptors, which the source keeps in a static.

A result of `-1` is `none`.  A copy out of a file is returned as the range it was taken from, so
that what a caller finds in its buffer can be computed even when the range leaves the file.

Main definitions:

* `Anaga.FileDescriptor`, `Anaga.FdTable` — the descriptors;
* `Anaga.Copy` — a copy of bytes out of the data of an inode;
* `Anaga.findInodeInDir`, `Anaga.findFreeInode` — lookup and allocation;
* `Anaga.fileCreate`, `Anaga.fileOpen`, `Anaga.fileRead`, `Anaga.fileWrite`, `Anaga.fileSeek`,
  `Anaga.fileClose` — the functions of `fs/file.h`.
-/

import Mathlib.Logic.Function.Basic
import Anaga.Inode

set_option relaxedAutoImplicit false
set_option autoImplicit false

namespace Anaga

open Transition

/-! ### Looking up and allocating inodes -/

/-- The loop of `find_inode_in_dir`, with the slots from the current one to the end of the array
and the number of entries still to be visited. -/
def findLoop (t : InodeTable) (name : CString) :
    List UInt32 → ℕ → Except Fault (Option (Fin maxInodes))
  | _, 0 => .ok none
  | [], _ + 1 => .error .dirEntries
  | childIdx :: slots, n + 1 =>
      if h : childIdx.toNat < maxInodes then
        strcmp (t ⟨childIdx.toNat, h⟩).nameRegion name.region >>= fun r =>
          if r = 0 then .ok (some ⟨childIdx.toNat, h⟩) else findLoop t name slots n
      else findLoop t name slots n

/-- `find_inode_in_dir`. -/
def findInodeInDir (t : InodeTable) (dirInode : ℕ) (name : CString) :
    Except Fault (Option (Fin maxInodes)) :=
  if h : dirInode < maxInodes then
    let dir := t ⟨dirInode, h⟩
    if dir.type = inodeDir then
      findLoop t name (List.ofFn dir.dirEntries) dir.numEntries.toNat
    else .ok none
  else .ok none

/-- `find_free_inode`. -/
def findFreeInode (t : InodeTable) : Option (Fin maxInodes) :=
  (List.finRange maxInodes).find? fun i => (t i).type = inodeFree

/-- The statement `parent->dir_entries[parent->num_entries++] = idx`. -/
def appendEntry (t : InodeTable) (parentInode : ℕ) (idx : Fin maxInodes) :
    Except Fault InodeTable :=
  if h : parentInode < maxInodes then
    let parent := t ⟨parentInode, h⟩
    if hn : parent.numEntries.toNat < maxDirEntries then
      .ok (Function.update t ⟨parentInode, h⟩
        { parent with
          dirEntries := Function.update parent.dirEntries ⟨parent.numEntries.toNat, hn⟩
            (UInt32.ofNat idx)
          numEntries := parent.numEntries + 1 })
    else .error .dirEntries
  else .error .inodeArray

/-- The name field that holds the bytes `l`. -/
def nameField (l : List UInt8) : Fin maxFilename → UInt8 := fun i => l.getD i 0

/-- `file_create`. -/
def fileCreate (name : CString) (parentInode : ℕ) (t : InodeTable) :
    Except Fault (Option (Fin maxInodes) × InodeTable) :=
  match findFreeInode t with
  | none => .ok (none, t)
  | some inodeIdx =>
      inodeAt t parentInode >>= fun parent =>
      if parent.type ≠ inodeDir then .ok (none, t)
      else if maxDirEntries ≤ parent.numEntries.toNat then .ok (none, t)
      else
        findInodeInDir t parentInode name >>= fun found =>
        match found with
        | some _ => .ok (none, t)
        | none =>
            strncpy Inode.zero.nameRegion name.region (maxFilename - 1) >>= fun copied =>
            let newFile : Inode :=
              { Inode.zero with
                name := Function.update (nameField copied) 31 0
                type := inodeFile
                size := 0
                parentInode := UInt32.ofNat parentInode
                numEntries := 0 }
            appendEntry (Function.update t inodeIdx newFile) parentInode inodeIdx >>= fun t' =>
            .ok (some inodeIdx, t')

/-! ### Descriptors -/

/-- `file_descriptor_t`.  Only `file_open` sets the index, after its check against `MAX_INODES`. -/
@[ext]
structure FileDescriptor where
  inUse : Bool
  inodeIndex : Fin maxInodes
  position : UInt32

/-- `fd_table`. -/
abbrev FdTable := Fin maxOpenFiles → FileDescriptor

/-- `find_free_fd`. -/
def findFreeFd (fds : FdTable) : Option (Fin maxOpenFiles) :=
  (List.finRange maxOpenFiles).find? fun i => ! (fds i).inUse

/-- The check `fd < 0 || fd >= MAX_OPEN_FILES || !fd_table[fd].in_use`: the open descriptor, if
it passes. -/
def openFd (fds : FdTable) (fd : ℤ) : Option (Fin maxOpenFiles) :=
  if h : 0 ≤ fd ∧ fd < maxOpenFiles then
    if (fds ⟨fd.toNat, by omega⟩).inUse then some ⟨fd.toNat, by omega⟩ else none
  else none

/-- `file_open`. -/
def fileOpen (inodeIndex : ℕ) (t : InodeTable) (fds : FdTable) :
    Option (Fin maxOpenFiles) × FdTable :=
  if h : inodeIndex < maxInodes then
    if (t ⟨inodeIndex, h⟩).type ≠ inodeFile then (none, fds)
    else
      match findFreeFd fds with
      | none => (none, fds)
      | some fd => (some fd, Function.update fds fd ⟨true, ⟨inodeIndex, h⟩, 0⟩)
  else (none, fds)

/-- A copy of `len` bytes out of the data of an inode, from the position `pos` on. -/
structure Copy where
  inode : Fin maxInodes
  pos : UInt32
  len : UInt32
deriving DecidableEq

/-- The copy takes only bytes that belong to the data of the inode. -/
def Copy.InBounds (c : Copy) : Prop := c.len = 0 ∨ c.pos.toNat + c.len.toNat ≤ maxFileSize

instance (c : Copy) : Decidable c.InBounds := inferInstanceAs (Decidable (_ ∨ _))

/-- `file_read`: the copy into the buffer, whose length is the result. -/
def fileRead (fd : ℤ) (size : UInt32) (t : InodeTable) (fds : FdTable) : Option Copy × FdTable :=
  match openFd fds fd with
  | none => (none, fds)
  | some fd =>
      let pos := (fds fd).position
      let inode := t (fds fd).inodeIndex
      let bytesToRead := if inode.size < pos + size then inode.size - pos else size
      (some ⟨(fds fd).inodeIndex, pos, bytesToRead⟩,
        Function.update fds fd { fds fd with position := pos + bytesToRead })

/-- `file_write`: the number of bytes written.  A copy that leaves the data of the inode is a
fault. -/
def fileWrite (fd : ℤ) (buffer : ℕ → UInt8) (size : UInt32) (t : InodeTable) (fds : FdTable) :
    Except Fault (Option UInt32 × InodeTable × FdTable) :=
  match openFd fds fd with
  | none => .ok (none, t, fds)
  | some fd =>
      let pos := (fds fd).position
      let idx := (fds fd).inodeIndex
      let inode := t idx
      let bytesToWrite :=
        if UInt32.ofNat maxFileSize < pos + size then UInt32.ofNat maxFileSize - pos else size
      if bytesToWrite = 0 ∨ pos.toNat + bytesToWrite.toNat ≤ maxFileSize then
        let data : Fin maxFileSize → UInt8 := fun i =>
          if pos.toNat ≤ i ∧ i < pos.toNat + bytesToWrite.toNat then buffer (i - pos.toNat)
          else inode.data i
        let position := pos + bytesToWrite
        let size' := if inode.size < position then position else inode.size
        .ok (some bytesToWrite, Function.update t idx { inode with data := data, size := size' },
          Function.update fds fd { fds fd with position := position })
      else .error .data

/-- `file_close`. -/
def fileClose (fd : ℤ) (fds : FdTable) : FdTable :=
  if h : 0 ≤ fd ∧ fd < maxOpenFiles then
    let i : Fin maxOpenFiles := ⟨fd.toNat, by omega⟩
    Function.update fds i { fds i with inUse := false }
  else fds

/-- `file_seek`. -/
def fileSeek (fd : ℤ) (offset : UInt32) (fds : FdTable) : ℤ × FdTable :=
  match openFd fds fd with
  | none => (-1, fds)
  | some fd => (0, Function.update fds fd { fds fd with position := offset })

/-! ### Descriptors that were just opened -/

theorem openFd_val (fds : FdTable) (fd : Fin maxOpenFiles) :
    openFd fds fd = if (fds fd).inUse then some fd else none := by
  have h : (0 : ℤ) ≤ fd ∧ (fd : ℤ) < maxOpenFiles := by
    have := fd.isLt
    simp only [maxOpenFiles] at this ⊢
    omega
  simp [openFd, h]

theorem fileClose_val (fds : FdTable) (fd : Fin maxOpenFiles) :
    fileClose fd fds = Function.update fds fd { fds fd with inUse := false } := by
  have h : (0 : ℤ) ≤ fd ∧ (fd : ℤ) < maxOpenFiles := by
    have := fd.isLt
    simp only [maxOpenFiles] at this ⊢
    omega
  simp [fileClose, h]

/-- No descriptor is in use. -/
def AllClosed (fds : FdTable) : Prop := ∀ fd, (fds fd).inUse = false

theorem findFreeFd_eq_none_iff {fds : FdTable} :
    findFreeFd fds = none ↔ ∀ fd, (fds fd).inUse = true := by
  simp [findFreeFd]

theorem findFreeInode_eq_none_iff {t : InodeTable} :
    findFreeInode t = none ↔ ∀ i, (t i).type ≠ inodeFree := by
  simp [findFreeInode]

theorem type_of_findFreeInode {t : InodeTable} {i : Fin maxInodes}
    (h : findFreeInode t = some i) : (t i).type = inodeFree := by
  simpa using List.find?_some h

end Anaga
