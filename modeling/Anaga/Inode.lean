/-
**Inodes: `inode_t` of `fs/file.h`, and its bytes.**

The kernel keeps the whole file system in an array of 32 records, and copies that array to and
from the disk as raw bytes.  This module defines the record, the bytes it consists of on the
target (32-bit enumeration, little endian, natural alignment, hence no padding), and the record
that given bytes are.

Main definitions:

* `Anaga.Inode`, `Anaga.InodeTable` — the record and the array of them;
* `Anaga.Inode.byte`, `Anaga.Inode.ofBytes` — the record as bytes, and bytes as a record;
* `Anaga.Inode.fileName` — the name as a string;
* `Anaga.inodeAt` — reading `inode_array[i]`.

Main results:

* `Anaga.Inode.ofBytes_byte`, `Anaga.Inode.byte_ofBytes` — **an inode is its 8304 bytes**.
-/

import Mathlib.Data.List.OfFn
import Anaga.Bytes
import Anaga.CString

set_option relaxedAutoImplicit false
set_option autoImplicit false

namespace Anaga

/-! ### The constants of `fs/file.h` -/

/-- `MAX_INODES`. -/
abbrev maxInodes : ℕ := 32

instance : NeZero maxInodes := ⟨by decide⟩

/-- `MAX_OPEN_FILES`. -/
abbrev maxOpenFiles : ℕ := 32

/-- `MAX_FILE_SIZE`. -/
abbrev maxFileSize : ℕ := 8192

/-- `MAX_DIR_ENTRIES`. -/
abbrev maxDirEntries : ℕ := 16

/-- `MAX_FILENAME`. -/
abbrev maxFilename : ℕ := 32

/-- `INODE_FREE`.  The type field is read back from disk, so it can hold any 32-bit word. -/
def inodeFree : UInt32 := 0

/-- `INODE_FILE`. -/
def inodeFile : UInt32 := 1

/-- `INODE_DIR`. -/
def inodeDir : UInt32 := 2

/-! ### The record -/

/-- `inode_t`. -/
@[ext]
structure Inode where
  name : Fin maxFilename → UInt8
  type : UInt32
  size : UInt32
  parentInode : UInt32
  numEntries : UInt32
  dirEntries : Fin maxDirEntries → UInt32
  data : Fin maxFileSize → UInt8

/-- An inode that `memset` has cleared. -/
def Inode.zero : Inode where
  name := fun _ => 0
  type := 0
  size := 0
  parentInode := 0
  numEntries := 0
  dirEntries := fun _ => 0
  data := fun _ => 0

/-- The array that holds the name. -/
def Inode.nameRegion (n : Inode) : List UInt8 := List.ofFn n.name

/-- The string that the name is. -/
def Inode.fileName (n : Inode) : List UInt8 := cstr n.nameRegion

@[simp] theorem Inode.nameRegion_length (n : Inode) : n.nameRegion.length = 32 := by
  simp [nameRegion]

/-- The name of an inode, as a string that can be passed on. -/
def Inode.nameString (n : Inode) : CString where
  bytes := n.fileName
  noNul := noNul_cstr _
  length_lt := by
    have := length_cstr_le n.nameRegion
    rw [n.nameRegion_length] at this
    exact lt_of_le_of_lt this (by norm_num)

/-- `inode_array`. -/
abbrev InodeTable := Fin maxInodes → Inode

/-- Reading `inode_array[i]`. -/
def inodeAt (t : InodeTable) (i : ℕ) : Except Fault Inode :=
  if h : i < maxInodes then .ok (t ⟨i, h⟩) else .error .inodeArray

@[simp] theorem inodeAt_val (t : InodeTable) (i : Fin maxInodes) : inodeAt t i = .ok (t i) :=
  dif_pos i.isLt

theorem inodeAt_of_lt (t : InodeTable) {i : ℕ} (h : i < maxInodes) :
    inodeAt t i = .ok (t ⟨i, h⟩) := dif_pos h

theorem inodeAt_of_ge (t : InodeTable) {i : ℕ} (h : maxInodes ≤ i) :
    inodeAt t i = .error .inodeArray := dif_neg (by omega)

/-! ### The bytes of the record -/

/-- `sizeof(inode_t)`. -/
abbrev sizeofInode : ℕ := 8304

/-- The offset of `data` in an inode. -/
abbrev dataOffset : ℕ := 112

/-- Byte `o` of an inode. -/
def Inode.byte (n : Inode) (o : ℕ) : UInt8 :=
  if h : o < 32 then n.name ⟨o, h⟩
  else if o < 36 then Bytes.byteOf n.type (o - 32)
  else if o < 40 then Bytes.byteOf n.size (o - 36)
  else if o < 44 then Bytes.byteOf n.parentInode (o - 40)
  else if o < 48 then Bytes.byteOf n.numEntries (o - 44)
  else if h : o < 112 then
    Bytes.byteOf (n.dirEntries ⟨(o - 48) / 4, by simp only [maxDirEntries]; omega⟩) ((o - 48) % 4)
  else if h : o < 8304 then n.data ⟨o - 112, by simp only [maxFileSize]; omega⟩
  else 0

/-- The inode that the bytes `b` are. -/
def Inode.ofBytes (b : ℕ → UInt8) : Inode where
  name := fun i => b i
  type := Bytes.word b 32
  size := Bytes.word b 36
  parentInode := Bytes.word b 40
  numEntries := Bytes.word b 44
  dirEntries := fun i => Bytes.word b (48 + 4 * i)
  data := fun i => b (112 + i)

namespace Inode

variable (n : Inode)

theorem byte_name {o : ℕ} (h : o < 32) : n.byte o = n.name ⟨o, h⟩ := by
  rw [byte, dif_pos h]

theorem byte_type {k : ℕ} (h : k < 4) : n.byte (32 + k) = Bytes.byteOf n.type k := by
  rw [byte, dif_neg (by omega), if_pos (by omega), Nat.add_sub_cancel_left]

theorem byte_size {k : ℕ} (h : k < 4) : n.byte (36 + k) = Bytes.byteOf n.size k := by
  rw [byte, dif_neg (by omega), if_neg (by omega), if_pos (by omega), Nat.add_sub_cancel_left]

theorem byte_parentInode {k : ℕ} (h : k < 4) : n.byte (40 + k) = Bytes.byteOf n.parentInode k := by
  rw [byte, dif_neg (by omega), if_neg (by omega), if_neg (by omega), if_pos (by omega),
    Nat.add_sub_cancel_left]

theorem byte_numEntries {k : ℕ} (h : k < 4) : n.byte (44 + k) = Bytes.byteOf n.numEntries k := by
  rw [byte, dif_neg (by omega), if_neg (by omega), if_neg (by omega), if_neg (by omega),
    if_pos (by omega), Nat.add_sub_cancel_left]

theorem byte_dirEntries (i : Fin maxDirEntries) {k : ℕ} (h : k < 4) :
    n.byte (48 + 4 * i + k) = Bytes.byteOf (n.dirEntries i) k := by
  have hi : i.val < 16 := i.isLt
  rw [byte, dif_neg (by omega), if_neg (by omega), if_neg (by omega), if_neg (by omega),
    if_neg (by omega), dif_pos (by omega)]
  congr 1
  · congr 1
    exact Fin.ext (by simp only; omega)
  · omega

theorem byte_data (i : Fin maxFileSize) : n.byte (112 + i) = n.data i := by
  have hi : i.val < 8192 := i.isLt
  rw [byte, dif_neg (by omega), if_neg (by omega), if_neg (by omega), if_neg (by omega),
    if_neg (by omega), dif_neg (by omega), dif_pos (by omega)]
  congr 1
  exact Fin.ext (by simp only; omega)

/-- The record made of the bytes of a record is that record, for bytes that agree with it on the
8304 offsets it occupies. -/
theorem ofBytes_eq {b : ℕ → UInt8} (h : ∀ o < sizeofInode, b o = n.byte o) : ofBytes b = n := by
  simp only [sizeofInode] at h
  apply Inode.ext
  · funext i
    have hi : i.val < 32 := i.isLt
    exact (h i (by omega)).trans (n.byte_name hi)
  · exact Bytes.word_eq_of_byteOf fun k hk => (h _ (by omega)).trans (n.byte_type hk)
  · exact Bytes.word_eq_of_byteOf fun k hk => (h _ (by omega)).trans (n.byte_size hk)
  · exact Bytes.word_eq_of_byteOf fun k hk => (h _ (by omega)).trans (n.byte_parentInode hk)
  · exact Bytes.word_eq_of_byteOf fun k hk => (h _ (by omega)).trans (n.byte_numEntries hk)
  · funext i
    have hi : i.val < 16 := i.isLt
    exact Bytes.word_eq_of_byteOf fun k hk => (h _ (by omega)).trans (n.byte_dirEntries i hk)
  · funext i
    have hi : i.val < 8192 := i.isLt
    exact (h _ (by omega)).trans (n.byte_data i)

/-- **A record is determined by its bytes.** -/
theorem ofBytes_byte : ofBytes n.byte = n := ofBytes_eq n fun _ _ => rfl

/-- **All bytes are those of a record.** -/
theorem byte_ofBytes (b : ℕ → UInt8) {o : ℕ} (h : o < sizeofInode) : (ofBytes b).byte o = b o := by
  simp only [sizeofInode] at h
  unfold byte
  split_ifs with h₁ h₂ h₃ h₄ h₅ h₆
  · rfl
  · exact (Bytes.byteOf_word b 32 (by omega)).trans (congrArg b (by omega))
  · exact (Bytes.byteOf_word b 36 (by omega)).trans (congrArg b (by omega))
  · exact (Bytes.byteOf_word b 40 (by omega)).trans (congrArg b (by omega))
  · exact (Bytes.byteOf_word b 44 (by omega)).trans (congrArg b (by omega))
  · exact (Bytes.byteOf_word b _ (by omega)).trans (congrArg b (by simp only; omega))
  · exact congrArg b (by simp only; omega)

@[simp] theorem ofBytes_zero : ofBytes (fun _ => 0) = zero := rfl

/-- Only the bytes of the record matter. -/
theorem ofBytes_congr {b b' : ℕ → UInt8} (h : ∀ o < sizeofInode, b o = b' o) :
    ofBytes b = ofBytes b' :=
  ofBytes_eq _ fun o ho => (h o ho).trans (byte_ofBytes b' ho).symm

end Inode

end Anaga
