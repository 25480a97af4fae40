/-
**The state of the file system: memory, disk and console.**

What the functions of `fs/vfs.c` read and write: the statics of the file system, the sectors of
the drive, the console they print to, and the rest of memory, which a copy out of a file can also
reach when its range is not checked.

The drive is the store of sectors that `drivers/drive/drive.c` gives access to: a read returns the
512 bytes that were last written to the same address.

Main definitions:

* `Anaga.Disk`, `Anaga.driveReadSector`, `Anaga.driveWriteSector` — the drive;
* `Anaga.Memory` — the bytes of memory around the inode table;
* `Anaga.Kernel` — the state;
* `Anaga.Kernel.copied`, `Anaga.Kernel.buffer` — what a copy out of a file puts into a buffer.

Main results:

* `Anaga.Kernel.copied_of_inBounds` — a copy within the data of an inode copies that data.
-/

import Mathlib.Logic.Function.Basic
import Anaga.File

set_option relaxedAutoImplicit false
set_option autoImplicit false

namespace Anaga

/-! ### The drive -/

/-- `SECTOR_SIZE`. -/
abbrev sectorSize : ℕ := 512

/-- The content of a sector. -/
abbrev Sector := Fin sectorSize → UInt8

/-- The sectors of the drive, by address. -/
abbrev Disk := ℕ → Sector

/-- `drive_read_sector`: the buffer afterwards. -/
def driveReadSector (disk : Disk) (lba : ℕ) : ℕ → UInt8 :=
  fun o => if h : o < sectorSize then disk lba ⟨o, h⟩ else 0

/-- `drive_write_sector`, with the first 512 bytes of the buffer. -/
def driveWriteSector (disk : Disk) (lba : ℕ) (buffer : ℕ → UInt8) : Disk :=
  Function.update disk lba fun o => buffer o

theorem driveReadSector_of_lt (disk : Disk) (lba : ℕ) {o : ℕ} (h : o < sectorSize) :
    driveReadSector disk lba o = disk lba ⟨o, h⟩ := dif_pos h

/-! ### The state -/

/-- Memory: where `inode_array` is, and the bytes outside of it. -/
structure Memory where
  tableAddr : UInt32
  byte : UInt32 → UInt8

/-- The state that the functions of the file system work on.  `console` is what was passed to
`kputc`, oldest first. -/
structure Kernel where
  inodeArray : InodeTable
  currentDir : ℕ
  fdTable : FdTable
  disk : Disk
  memory : Memory
  console : List UInt8

/-- What a function returns: its value, the copy it made into the buffer of its caller, and the
state it leaves. -/
structure Result where
  ret : ℤ
  copy : Option Copy
  kernel : Kernel

/-- A 32-bit word as a C `int`. -/
def asInt (w : UInt32) : ℤ := w.toBitVec.toInt

theorem asInt_eq (w : UInt32) :
    asInt w = if 2 * w.toNat < 2 ^ 32 then (w.toNat : ℤ) else w.toNat - (2 ^ 32 : ℕ) :=
  BitVec.toInt_eq_toNat_cond w.toBitVec

theorem asInt_of_lt {w : UInt32} (h : w.toNat < 2 ^ 31) : asInt w = (w.toNat : ℤ) := by
  rw [asInt_eq, if_pos (by omega)]

/-- Converting a word to an `int` and back. -/
@[simp] theorem ofInt_asInt (w : UInt32) : UInt32.ofInt (asInt w) = w := by
  have hlt := w.toNat_lt
  rw [← UInt32.toNat_inj, UInt32.ofInt, UInt32.toNat_ofNat', asInt_eq]
  split_ifs with hsmall
  · omega
  · omega

theorem asInt_nonneg_iff {w : UInt32} : 0 ≤ asInt w ↔ w.toNat < 2 ^ 31 := by
  have hlt := w.toNat_lt
  rw [asInt_eq]
  split_ifs with hsmall
  · omega
  · omega

/-- Passing characters to `kputc`. -/
def Kernel.puts (k : Kernel) (s : List UInt8) : Kernel := { k with console := k.console ++ s }

/-- Printing a message and returning `-1`. -/
def Kernel.fail (k : Kernel) (msg : String) : Result := ⟨-1, none, k.puts (utf8 msg)⟩

namespace Kernel

variable (k : Kernel) (s : List UInt8)

@[simp] theorem puts_inodeArray : (k.puts s).inodeArray = k.inodeArray := rfl
@[simp] theorem puts_currentDir : (k.puts s).currentDir = k.currentDir := rfl
@[simp] theorem puts_fdTable : (k.puts s).fdTable = k.fdTable := rfl
@[simp] theorem puts_disk : (k.puts s).disk = k.disk := rfl
@[simp] theorem puts_memory : (k.puts s).memory = k.memory := rfl

/-! ### Copies out of files -/

/-- The byte at the given distance behind the start of `inode_array`. -/
def byteAt (k : Kernel) (off : ℕ) : UInt8 :=
  if h : off < maxInodes * sizeofInode then
    (k.inodeArray ⟨off / sizeofInode, Nat.div_lt_of_lt_mul (by rwa [Nat.mul_comm])⟩).byte
      (off % sizeofInode)
  else k.memory.byte (k.memory.tableAddr + UInt32.ofNat off)

/-- Byte `j` of the copy: the byte at the address `inode->data + pos + j`, where addresses have
32 bits. -/
def copied (k : Kernel) (c : Copy) (j : ℕ) : UInt8 :=
  k.byteAt ((sizeofInode * c.inode + dataOffset + c.pos.toNat + j) % 2 ^ 32)

/-- The bytes of the copy. -/
def buffer (k : Kernel) (c : Copy) : List UInt8 := (List.range c.len.toNat).map (k.copied c)

@[simp] theorem buffer_length (c : Copy) : (k.buffer c).length = c.len.toNat := by
  simp [buffer]

/-- The byte at the offset `o` of the inode `i`. -/
theorem byteAt_inode (i : Fin maxInodes) {o : ℕ} (ho : o < sizeofInode) :
    k.byteAt (sizeofInode * i + o) = (k.inodeArray i).byte o := by
  have hi : i.val < 32 := i.isLt
  simp only [sizeofInode] at ho
  have hlt : 8304 * i.val + o < 32 * 8304 := by omega
  have hd : (8304 * i.val + o) / 8304 = i.val := by omega
  have hm : (8304 * i.val + o) % 8304 = o := by omega
  rw [byteAt, dif_pos hlt]
  simp only [sizeofInode, hm]
  congr 2
  exact Fin.ext hd

/-- A byte behind the start of the data of an inode and before its end is a byte of the data. -/
theorem copied_of_lt (c : Copy) {j : ℕ} (h : c.pos.toNat + j < maxFileSize) :
    k.copied c j = (k.inodeArray c.inode).data ⟨c.pos.toNat + j, h⟩ := by
  have hi : c.inode.val < 32 := c.inode.isLt
  simp only [maxFileSize] at h
  have hoff : (sizeofInode * c.inode.val + dataOffset + c.pos.toNat + j) % 2 ^ 32 =
      sizeofInode * c.inode.val + (112 + (c.pos.toNat + j)) := by
    simp only [sizeofInode, dataOffset]
    omega
  rw [copied, hoff, byteAt_inode k c.inode (by simp only [sizeofInode]; omega)]
  exact (k.inodeArray c.inode).byte_data ⟨c.pos.toNat + j, h⟩

/-- **A copy within the data of an inode copies that data.** -/
theorem copied_of_inBounds {c : Copy} (hc : c.InBounds) {j : ℕ} (hj : j < c.len.toNat) :
    ∃ h : c.pos.toNat + j < maxFileSize,
      k.copied c j = (k.inodeArray c.inode).data ⟨c.pos.toNat + j, h⟩ := by
  have hlt : c.pos.toNat + j < maxFileSize := by
    rcases hc with h0 | hle
    · simp [h0] at hj
    · omega
  exact ⟨hlt, k.copied_of_lt c hlt⟩

/-- A copy from the start of the data of an inode. -/
theorem buffer_start {i : Fin maxInodes} {len : UInt32} (h : len.toNat ≤ maxFileSize) :
    k.buffer ⟨i, 0, len⟩ = (List.ofFn (k.inodeArray i).data).take len.toNat := by
  have hlen : (k.buffer ⟨i, 0, len⟩).length =
      ((List.ofFn (k.inodeArray i).data).take len.toNat).length := by
    rw [List.length_take, List.length_ofFn, buffer_length, Nat.min_eq_left h]
  refine List.ext_getElem hlen ?_
  intro j h₁ h₂
  rw [buffer_length] at h₁
  have hj : (0 : UInt32).toNat + j < maxFileSize := by
    rw [UInt32.toNat_zero, Nat.zero_add]
    exact h₁.trans_le h
  have hcopy := k.copied_of_lt ⟨i, 0, len⟩ hj
  simp only [UInt32.toNat_zero, Nat.zero_add] at hcopy
  simp only [buffer, List.getElem_map, List.getElem_range, hcopy, List.getElem_take,
    List.getElem_ofFn]

end Kernel

/-- What the caller finds in its buffer. -/
def Result.buffer (r : Result) : List UInt8 := r.copy.elim [] r.kernel.buffer

end Anaga
