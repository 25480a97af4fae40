/-
**The program loader: `fs/elf.c`.**

`elf_load` reads the header of an ELF file, and then one program header after the other, and
copies the segments into memory.  All its reads go through `vfs_read_at`, whose arithmetic is
32 bits wide: the offset of a program header and the ends of the ranges are computed modulo
`2 ^ 32`, and a range that ends behind the file is cut off there, or becomes huge if it also
starts behind it.

A copy that is longer than the object on the stack it goes to is a fault, and so is a byte stored
outside the area that programs are loaded to.  That area is a parameter: the addresses that are
mapped and writable and hold nothing of the kernel's own.

Main definitions:

* `Anaga.Elf32Ehdr`, `Anaga.Elf32Phdr` — the headers, as they are read from bytes;
* `Anaga.memcpy`, `Anaga.memset` — storing to memory;
* `Anaga.elfLoad` — the loader;
* `Anaga.Leaves` — a state that differs from another in the bytes of memory, what was printed, and
  the positions of descriptors.

Main results:

* `Anaga.storeLoop_ok` — storing inside the area succeeds and changes only bytes of memory;
* `Anaga.loadPhdr_ok`, `Anaga.loadPhdr_not_ok` — what one program header does;
* `Anaga.loadLoop_ok_iff` — **the loop succeeds exactly if every program header is accepted**;
* `Anaga.accepts_iff` — so does the loader, on a file with an ELF header.
-/

import Anaga.Display
import Anaga.VfsSpec

set_option relaxedAutoImplicit false
set_option autoImplicit false

namespace Anaga

open Transition

/-! ### Headers -/

/-- `Elf32_Ehdr`, without the fields that are not read. -/
structure Elf32Ehdr where
  eIdent : Fin 16 → UInt8
  eEntry : UInt32
  ePhoff : UInt32
  ePhentsize : UInt16
  ePhnum : UInt16

/-- The header that the bytes `b` are. -/
def Elf32Ehdr.ofBytes (b : ℕ → UInt8) : Elf32Ehdr where
  eIdent := fun i => b i
  eEntry := Bytes.word b 24
  ePhoff := Bytes.word b 28
  ePhentsize := Bytes.half b 42
  ePhnum := Bytes.half b 44

/-- `sizeof(Elf32_Ehdr)`. -/
abbrev sizeofEhdr : UInt32 := 52

/-- `Elf32_Phdr`, without the fields that are not read. -/
structure Elf32Phdr where
  pType : UInt32
  pOffset : UInt32
  pVaddr : UInt32
  pFilesz : UInt32
  pMemsz : UInt32
deriving DecidableEq

/-- The program header that the bytes `b` are. -/
def Elf32Phdr.ofBytes (b : ℕ → UInt8) : Elf32Phdr where
  pType := Bytes.word b 0
  pOffset := Bytes.word b 4
  pVaddr := Bytes.word b 8
  pFilesz := Bytes.word b 16
  pMemsz := Bytes.word b 20

/-- `sizeof(Elf32_Phdr)`. -/
abbrev sizeofPhdr : UInt32 := 32

/-- `PT_LOAD`. -/
def ptLoad : UInt32 := 1

/-- The first four bytes are `7F 45 4C 46`. -/
def Elf32Ehdr.HasMagic (header : Elf32Ehdr) : Prop :=
  header.eIdent 0 = 0x7F ∧ header.eIdent 1 = ascii 'E' ∧ header.eIdent 2 = ascii 'L' ∧
    header.eIdent 3 = ascii 'F'

instance (header : Elf32Ehdr) : Decidable header.HasMagic :=
  inferInstanceAs (Decidable (_ ∧ _ ∧ _ ∧ _))

/-- `phdr_offset`.  The product is that of two `int`s, of which 32 bits are left. -/
def Elf32Ehdr.phdrOffset (header : Elf32Ehdr) (i : ℕ) : UInt32 :=
  header.ePhoff + UInt32.ofNat i * header.ePhentsize.toUInt32

theorem Elf32Ehdr.ofBytes_congr {b b' : ℕ → UInt8} (h : ∀ j < 52, b j = b' j) :
    ofBytes b = ofBytes b' := by
  have hhalf : ∀ o < 50, Bytes.half b o = Bytes.half b' o := by
    intro o ho
    rw [Bytes.half, Bytes.half, h o (by omega), h (o + 1) (by omega)]
  have hword : ∀ o < 48, Bytes.word b o = Bytes.word b' o :=
    fun o ho => Bytes.word_congr fun k hk => h (o + k) (by omega)
  have hident : (fun i : Fin 16 => b i) = fun i : Fin 16 => b' i :=
    funext fun i => h i (by omega)
  rw [ofBytes, ofBytes, hident, hword 24 (by omega), hword 28 (by omega), hhalf 42 (by omega),
    hhalf 44 (by omega)]

theorem Elf32Phdr.ofBytes_congr {b b' : ℕ → UInt8} (h : ∀ j < 32, b j = b' j) :
    ofBytes b = ofBytes b' := by
  have hword : ∀ o < 28, Bytes.word b o = Bytes.word b' o :=
    fun o ho => Bytes.word_congr fun k hk => h (o + k) (by omega)
  rw [ofBytes, ofBytes, hword 0 (by omega), hword 4 (by omega), hword 8 (by omega),
    hword 16 (by omega), hword 20 (by omega)]

/-! ### Storing to memory -/

/-- The addresses that are mapped and writable and hold nothing of the kernel's own. -/
abbrev Area := UInt32 → Bool

/-- A byte can be stored at the address: it is in the area, and not in the inode table. -/
def Writable (area : Area) (m : Memory) (addr : UInt32) : Prop :=
  area addr = true ∧ maxInodes * sizeofInode ≤ (addr - m.tableAddr).toNat

instance (area : Area) (m : Memory) (addr : UInt32) : Decidable (Writable area m addr) :=
  inferInstanceAs (Decidable (_ ∧ _))

/-- The state with other bytes in memory. -/
def Kernel.withBytes (k : Kernel) (byte : UInt32 → UInt8) : Kernel :=
  { k with memory := { k.memory with byte := byte } }

/-- Storing a byte. -/
def storeByte (area : Area) (k : Kernel) (addr : UInt32) (b : UInt8) : Except Fault Kernel :=
  if Writable area k.memory addr then .ok (k.withBytes (Function.update k.memory.byte addr b))
  else .error .area

/-- The loops of `memcpy` and `memset`: byte `j` goes to `dest + j`, one after the other. -/
def storeLoop (area : Area) (dest : UInt32) (byte : Kernel → ℕ → UInt8) :
    ℕ → Kernel → Except Fault Kernel
  | 0, k => .ok k
  | n + 1, k =>
      storeLoop area dest byte n k >>= fun k =>
      storeByte area k (dest + UInt32.ofNat n) (byte k n)

/-- `memcpy` out of a file. -/
def memcpy (area : Area) (dest : UInt32) (c : Copy) (k : Kernel) : Except Fault Kernel :=
  storeLoop area dest (fun k j => k.copied c j) c.len.toNat k

/-- `memset`, whose count is the number of rounds until it is zero. -/
def memset (area : Area) (dest : UInt32) (b : UInt8) (n : UInt32) (k : Kernel) :
    Except Fault Kernel :=
  storeLoop area dest (fun _ _ => b) n.toNat k

/-! ### The loader -/

/-- `vfs_read_at` into an object of that size on the stack. -/
def readObject (k : Kernel) (path : CString) (size offset : UInt32) : Except Fault Result :=
  vfsReadAt k path size offset >>= fun r =>
  match r.copy with
  | none => .ok r
  | some c => if c.len ≤ size then .ok r else .error .stack

/-- `vfs_read_at` to an address: what it returns, and the state it leaves. -/
def readMemory (area : Area) (k : Kernel) (path : CString) (dest size offset : UInt32) :
    Except Fault (ℤ × Kernel) :=
  vfsReadAt k path size offset >>= fun r =>
  match r.copy with
  | none => .ok (r.ret, r.kernel)
  | some c => memcpy area dest c r.kernel >>= fun k => .ok (r.ret, k)

/-- The body of `if (phdr.p_type == PT_LOAD)`: `-1` if the loader returns it there, and `0` if it
goes on. -/
def loadSegment (area : Area) (k : Kernel) (path : CString) (phdr : Elf32Phdr) :
    Except Fault (ℤ × Kernel) :=
  kprintf (utf8 "ELF: Loading segment at 0x%x (size: %d)\n" ++ [0])
    [.word phdr.pVaddr, .word phdr.pFilesz] >>= fun printed =>
  readMemory area (k.puts printed) path phdr.pVaddr phdr.pFilesz phdr.pOffset >>= fun (read, k) =>
  if read < 0 ∨ UInt32.ofInt read ≠ phdr.pFilesz then
    kprintf (utf8 "ELF: Failed to load segment (read %d of %d)\n" ++ [0])
      [.word (UInt32.ofInt read), .word phdr.pFilesz] >>= fun printed =>
    .ok (-1, k.puts printed)
  else if phdr.pFilesz < phdr.pMemsz then
    memset area (phdr.pVaddr + phdr.pFilesz) 0 (phdr.pMemsz - phdr.pFilesz) k >>= fun k =>
    .ok (0, k)
  else .ok (0, k)

/-- The body of the loop of `elf_load`, with the same results. -/
def loadPhdr (area : Area) (path : CString) (header : Elf32Ehdr) (i : ℕ) (k : Kernel) :
    Except Fault (ℤ × Kernel) :=
  readObject k path sizeofPhdr (header.phdrOffset i) >>= fun r =>
  if UInt32.ofInt r.ret ≠ sizeofPhdr then
    .ok (-1, r.kernel.puts (utf8 "ELF: Failed to read phdr\n"))
  else
    let phdr := Elf32Phdr.ofBytes fun j => r.buffer.getD j 0
    if phdr.pType = ptLoad then loadSegment area r.kernel path phdr else .ok (0, r.kernel)

/-- The loop of `elf_load`, with the number of rounds left and the number of the current one. -/
def loadLoop (area : Area) (path : CString) (header : Elf32Ehdr) :
    ℕ → ℕ → Kernel → Except Fault (ℤ × Kernel)
  | 0, _, k => .ok (0, k)
  | n + 1, i, k =>
      loadPhdr area path header i k >>= fun (ret, k) =>
      if ret = 0 then loadLoop area path header n (i + 1) k else .ok (ret, k)

/-- What `elf_load` returns, what it stores to `entry_point`, and the state it leaves. -/
structure ElfResult where
  ret : ℤ
  entryPoint : Option UInt32
  kernel : Kernel

/-- `elf_load`. -/
def elfLoad (area : Area) (k : Kernel) (path : CString) : Except Fault ElfResult :=
  readObject k path sizeofEhdr 0 >>= fun r =>
  if UInt32.ofInt r.ret ≠ sizeofEhdr then
    .ok ⟨-1, none, r.kernel.puts (utf8 "ELF: Failed to read header\n")⟩
  else
    let header := Elf32Ehdr.ofBytes fun j => r.buffer.getD j 0
    if ¬ header.HasMagic then .ok ⟨-1, none, r.kernel.puts (utf8 "ELF: Invalid magic\n")⟩
    else
      loadLoop area path header header.ePhnum.toNat 0 r.kernel >>= fun (ret, k) =>
      .ok ⟨ret, some header.eEntry, k⟩

/-! ### What storing changes -/

section Store

variable {area : Area} {dest : UInt32} (byte : Kernel → ℕ → UInt8) {k : Kernel}

/-- **Storing inside the area succeeds, and changes only bytes of memory.** -/
theorem storeLoop_ok {n : ℕ} (h : ∀ j < n, Writable area k.memory (dest + UInt32.ofNat j)) :
    ∃ bytes, storeLoop area dest byte n k = .ok (k.withBytes bytes) := by
  induction n with
  | zero => exact ⟨k.memory.byte, rfl⟩
  | succ n ih =>
      obtain ⟨bytes, hbytes⟩ := ih fun j hj => h j (by omega)
      -- the area is not affected by what is stored in it
      have hw : Writable area (k.withBytes bytes).memory (dest + UInt32.ofNat n) := h n (by omega)
      exact ⟨_, by rw [storeLoop, hbytes, ok_bind, storeByte, if_pos hw]; rfl⟩

end Store

/-! ### The message -/

/-- Printing the message of a segment does not fault. -/
theorem kprintf_loading (vaddr filesz : UInt32) :
    ∃ printed, kprintf (utf8 "ELF: Loading segment at 0x%x (size: %d)\n" ++ [0])
      [.word vaddr, .word filesz] = .ok printed := by
  have hsplit : utf8 "ELF: Loading segment at 0x%x (size: %d)\n" ++ [0] =
      utf8 "ELF: Loading segment at 0x" ++ ascii '%' :: ascii 'x' ::
        (utf8 " (size: " ++ ascii '%' :: ascii 'd' :: (utf8 ")\n" ++ [0])) := by decide
  rw [hsplit]
  exact ⟨_, kprintf_two (by decide) (by decide) (by decide) (by decide) (by decide)
    (convert_x vaddr _) (convert_d filesz _)⟩

/-! ### What a read does -/

/-- The path resolves to the file `idx`, and a descriptor is free. -/
structure Resolves (k : Kernel) (path : CString) (idx : Fin maxInodes) : Prop where
  find : findInodeInDir k.inodeArray k.currentDir path = .ok (some idx)
  file : (k.inodeArray idx).type = inodeFile
  size_le : (k.inodeArray idx).size.toNat ≤ maxFileSize
  fd : ∃ fd, findFreeFd k.fdTable = some fd

/-- What the loader relies on is as it was. -/
structure Undisturbed (k k' : Kernel) : Prop where
  inodeArray : k'.inodeArray = k.inodeArray
  currentDir : k'.currentDir = k.currentDir
  tableAddr : k'.memory.tableAddr = k.memory.tableAddr
  fd : (∃ fd, findFreeFd k.fdTable = some fd) → ∃ fd, findFreeFd k'.fdTable = some fd

namespace Undisturbed

theorem puts (k : Kernel) (s : List UInt8) : Undisturbed k (k.puts s) := ⟨rfl, rfl, rfl, id⟩

theorem withBytes (k : Kernel) (byte : UInt32 → UInt8) : Undisturbed k (k.withBytes byte) :=
  ⟨rfl, rfl, rfl, id⟩

theorem trans {k k' k'' : Kernel} (h : Undisturbed k k') (h' : Undisturbed k' k'') :
    Undisturbed k k'' where
  inodeArray := h'.inodeArray.trans h.inodeArray
  currentDir := h'.currentDir.trans h.currentDir
  tableAddr := h'.tableAddr.trans h.tableAddr
  fd := fun hfd => h'.fd (h.fd hfd)

theorem resolves {k k' : Kernel} {path : CString} {idx : Fin maxInodes} (h : Undisturbed k k')
    (hr : Resolves k path idx) : Resolves k' path idx where
  find := by rw [h.inodeArray, h.currentDir]; exact hr.find
  file := by rw [h.inodeArray]; exact hr.file
  size_le := by rw [h.inodeArray]; exact hr.size_le
  fd := h.fd hr.fd

theorem writable {k k' : Kernel} {area : Area} {addr : UInt32} (h : Undisturbed k k') :
    Writable area k'.memory addr ↔ Writable area k.memory addr := by
  rw [Writable, Writable, h.tableAddr]

end Undisturbed

/-- The state is as before, but for the bytes `mem` of memory, what was printed, and the positions
of the descriptors. -/
structure Leaves (k : Kernel) (mem : UInt32 → UInt8) (k' : Kernel) : Prop where
  inodeArray : k'.inodeArray = k.inodeArray
  currentDir : k'.currentDir = k.currentDir
  disk : k'.disk = k.disk
  memory : k'.memory = { k.memory with byte := mem }
  inUse : ∀ fd, (k'.fdTable fd).inUse = (k.fdTable fd).inUse

namespace Leaves

variable {k k₁ k₂ : Kernel} {mem mem' : UInt32 → UInt8}

theorem puts (k : Kernel) (s : List UInt8) : Leaves k k.memory.byte (k.puts s) :=
  ⟨rfl, rfl, rfl, rfl, fun _ => rfl⟩

theorem withBytes (k : Kernel) (mem : UInt32 → UInt8) : Leaves k mem (k.withBytes mem) :=
  ⟨rfl, rfl, rfl, rfl, fun _ => rfl⟩

theorem byte_eq (h : Leaves k mem k₁) : k₁.memory.byte = mem := by rw [h.memory]

theorem trans (h : Leaves k mem k₁) (h' : Leaves k₁ mem' k₂) : Leaves k mem' k₂ where
  inodeArray := h'.inodeArray.trans h.inodeArray
  currentDir := h'.currentDir.trans h.currentDir
  disk := h'.disk.trans h.disk
  memory := by rw [h'.memory, h.memory]
  inUse := fun fd => (h'.inUse fd).trans (h.inUse fd)

/-- The file can be read again. -/
theorem undisturbed (h : Leaves k mem k₁) : Undisturbed k k₁ where
  inodeArray := h.inodeArray
  currentDir := h.currentDir
  tableAddr := by rw [h.memory]
  fd := by
    rintro ⟨fd, hfd⟩
    rw [← Option.isSome_iff_exists, Option.isSome_iff_ne_none]
    intro hnone
    have hall : ∀ fd, (k.fdTable fd).inUse = true := by
      intro fd
      rw [← h.inUse fd]
      exact findFreeFd_eq_none_iff.1 hnone fd
    rw [findFreeFd_eq_none_iff.2 hall] at hfd
    exact absurd hfd.symm (Option.some_ne_none fd)

/-- A free descriptor that was used is free again. -/
theorem usedFd {fd : Fin maxOpenFiles} (hfd : findFreeFd k.fdTable = some fd)
    (idx : Fin maxInodes) (pos : UInt32) :
    Leaves k k.memory.byte { k with fdTable := Anaga.usedFd k.fdTable fd idx pos } where
  inodeArray := rfl
  currentDir := rfl
  disk := rfl
  memory := rfl
  inUse := by
    intro fd'
    have hfree : (k.fdTable fd).inUse = false := by simpa using List.find?_some hfd
    change (Function.update k.fdTable fd ⟨false, idx, pos⟩ fd').inUse = _
    rw [Function.update_apply]
    split_ifs with heq
    · rw [heq, hfree]
    · rfl

end Leaves

/-- The byte at the address `inode->data + pos + j`, where that is a byte of the inode. -/
def Inode.region (n : Inode) (pos : UInt32) (j : ℕ) : UInt8 :=
  n.byte ((dataOffset + pos.toNat + j) % 2 ^ 32)

/-- A copy that stays inside the inode. -/
theorem Kernel.copied_eq_region (k : Kernel) (c : Copy) {j : ℕ}
    (h : (dataOffset + c.pos.toNat + j) % 2 ^ 32 < sizeofInode) :
    k.copied c j = (k.inodeArray c.inode).region c.pos j := by
  have hi : c.inode.val < 32 := c.inode.isLt
  have hoff : (sizeofInode * c.inode.val + dataOffset + c.pos.toNat + j) % 2 ^ 32 =
      sizeofInode * c.inode.val + (dataOffset + c.pos.toNat + j) % 2 ^ 32 := by
    simp only [sizeofInode, dataOffset] at h ⊢
    omega
  rw [copied, hoff, byteAt_inode k c.inode h, Inode.region]

/-- A short range that ends inside the data, modulo `2 ^ 32`, stays inside the inode: if it
starts in front of the data, then in the entries. -/
theorem region_lt {pos size : UInt32} (hsize : size.toNat ≤ dataOffset)
    (h : (pos + size).toNat ≤ maxFileSize) {j : ℕ} (hj : j < size.toNat) :
    (dataOffset + pos.toNat + j) % 2 ^ 32 < sizeofInode := by
  have hpos := pos.toNat_lt
  rw [UInt32.toNat_add] at h
  simp only [dataOffset, maxFileSize, sizeofInode] at hsize h ⊢
  omega

/-- A read is not cut off exactly if its range ends inside the file, modulo `2 ^ 32`. -/
theorem fileCopy_len_eq_iff {t : InodeTable} {idx : Fin maxInodes} {pos size : UInt32} :
    (fileCopy t idx pos size).len = size ↔ (pos + size).toNat ≤ (t idx).size.toNat := by
  rw [fileCopy]
  dsimp only
  split_ifs with hlt
  · rw [UInt32.lt_iff_toNat_lt] at hlt
    refine ⟨fun he => ?_, fun hle => absurd hle (not_le.2 hlt)⟩
    rw [← he, UInt32.add_comm, UInt32.sub_add_cancel]
  · rw [UInt32.lt_iff_toNat_lt] at hlt
    exact ⟨fun _ => not_lt.1 hlt, fun _ => rfl⟩

theorem fileCopy_eq {t : InodeTable} {idx : Fin maxInodes} {pos size : UInt32}
    (h : (pos + size).toNat ≤ (t idx).size.toNat) : fileCopy t idx pos size = ⟨idx, pos, size⟩ :=
  congrArg (Copy.mk idx pos) (fileCopy_len_eq_iff.2 h)

section Read

variable {k : Kernel} {path : CString} {idx : Fin maxInodes}

/-- `vfs_read_at` on the file, which leaves memory as it is. -/
theorem Resolves.readAt (h : Resolves k path idx) (size offset : UInt32) :
    ∃ k', Leaves k k.memory.byte k' ∧ vfsReadAt k path size offset =
      .ok ⟨asInt (fileCopy k.inodeArray idx offset size).len,
        some (fileCopy k.inodeArray idx offset size), k'⟩ := by
  obtain ⟨fd, hfd⟩ := h.fd
  exact ⟨_, Leaves.usedFd hfd idx _, vfsReadAt_of_find h.find h.file hfd⟩

/-- Reading an object from a range that ends inside the file. -/
theorem Resolves.readObject_ok (h : Resolves k path idx) {size offset : UInt32}
    (hsize : size.toNat ≤ dataOffset)
    (hend : (offset + size).toNat ≤ (k.inodeArray idx).size.toNat) :
    ∃ r, readObject k path size offset = .ok r ∧ r.ret = asInt size ∧
      Leaves k k.memory.byte r.kernel ∧
      ∀ j < size.toNat, r.buffer.getD j 0 = (k.inodeArray idx).region offset j := by
  obtain ⟨k', hk, hread⟩ := h.readAt size offset
  have hcopy := fileCopy_eq hend
  rw [hcopy] at hread
  refine ⟨_, by rw [readObject, hread, ok_bind]; exact if_pos (UInt32.le_refl size), rfl, hk, ?_⟩
  intro j hj
  have hj' : j < (k'.buffer ⟨idx, offset, size⟩).length := by rwa [Kernel.buffer_length]
  have hregion := region_lt hsize (hend.trans h.size_le) hj
  rw [← hk.inodeArray, ← k'.copied_eq_region ⟨idx, offset, size⟩ hregion]
  change (k'.buffer ⟨idx, offset, size⟩).getD j 0 = _
  rw [List.getD_eq_getElem _ _ hj']
  simp only [Kernel.buffer, List.getElem_map, List.getElem_range]

/-- Reading an object from any other range does not return its size. -/
theorem Resolves.readObject_not_ok (h : Resolves k path idx) {size offset : UInt32}
    (hend : ¬ (offset + size).toNat ≤ (k.inodeArray idx).size.toNat) {r : Result}
    (hr : readObject k path size offset = .ok r) : UInt32.ofInt r.ret ≠ size := by
  obtain ⟨k', -, hread⟩ := h.readAt size offset
  rw [readObject, hread, ok_bind] at hr
  dsimp only at hr
  split_ifs at hr with hle
  obtain rfl := Except.ok.inj hr
  rw [ofInt_asInt]
  exact fun he => hend (fileCopy_len_eq_iff.1 he)

/-- Reading to memory from a range that ends inside the file, if there is room for it. -/
theorem Resolves.readMemory_ok (h : Resolves k path idx) {area : Area} {dest size offset : UInt32}
    (hend : (offset + size).toNat ≤ (k.inodeArray idx).size.toNat)
    (hdest : ∀ j < size.toNat, Writable area k.memory (dest + UInt32.ofNat j)) :
    ∃ k', readMemory area k path dest size offset = .ok (asInt size, k') ∧ Undisturbed k k' := by
  obtain ⟨k', hk, hread⟩ := h.readAt size offset
  rw [fileCopy_eq hend] at hread
  obtain ⟨bytes, hbytes⟩ := storeLoop_ok (fun k j => k.copied ⟨idx, offset, size⟩ j)
    fun j hj => hk.undisturbed.writable.2 (hdest j hj)
  refine ⟨k'.withBytes bytes, ?_, hk.undisturbed.trans (Undisturbed.withBytes k' bytes)⟩
  rw [readMemory, hread, ok_bind]
  change (memcpy area dest ⟨idx, offset, size⟩ k' >>= _) = _
  rw [memcpy, hbytes, ok_bind]

/-- Reading to memory returns the length of the copy. -/
theorem Resolves.readMemory_ret (h : Resolves k path idx) {area : Area}
    {dest size offset : UInt32} {read : ℤ} {k' : Kernel}
    (hr : readMemory area k path dest size offset = .ok (read, k')) :
    read = asInt (fileCopy k.inodeArray idx offset size).len := by
  obtain ⟨k₁, -, hread⟩ := h.readAt size offset
  rw [readMemory, hread, ok_bind] at hr
  obtain ⟨k₂, -, hr⟩ := bind_eq_ok.1 hr
  exact (congrArg Prod.fst (Except.ok.inj hr)).symm

end Read

/-! ### What a program header does -/

/-- The program header `i`, at the offset that the loader computes for it. -/
def phdrAt (n : Inode) (header : Elf32Ehdr) (i : ℕ) : Elf32Phdr :=
  Elf32Phdr.ofBytes (n.region (header.phdrOffset i))

/-- The range of the segment ends inside the file, modulo `2 ^ 32`, and its length is a
nonnegative `int`. -/
structure SegmentOk (n : Inode) (phdr : Elf32Phdr) : Prop where
  end_le : (phdr.pOffset + phdr.pFilesz).toNat ≤ n.size.toNat
  filesz_lt : phdr.pFilesz.toNat < 2 ^ 31

/-- The range of the program header ends inside the file, modulo `2 ^ 32`, and so does that of its
segment. -/
structure PhdrOk (n : Inode) (header : Elf32Ehdr) (i : ℕ) : Prop where
  end_le : (header.phdrOffset i + sizeofPhdr).toNat ≤ n.size.toNat
  segment : (phdrAt n header i).pType = ptLoad → SegmentOk n (phdrAt n header i)

/-- The memory of the segment can be written. -/
def TargetWritable (area : Area) (m : Memory) (phdr : Elf32Phdr) : Prop :=
  ∀ j < max phdr.pFilesz.toNat phdr.pMemsz.toNat, Writable area m (phdr.pVaddr + UInt32.ofNat j)

section Load

variable {k : Kernel} {path : CString} {idx : Fin maxInodes} {area : Area} {phdr : Elf32Phdr}

/-- Clearing what is behind the bytes of the segment. -/
theorem memset_tail (htarget : TargetWritable area k.memory phdr)
    (hlt : phdr.pFilesz < phdr.pMemsz) :
    ∃ bytes, memset area (phdr.pVaddr + phdr.pFilesz) 0 (phdr.pMemsz - phdr.pFilesz) k =
      .ok (k.withBytes bytes) := by
  refine storeLoop_ok _ fun j hj => ?_
  rw [UInt32.lt_iff_toNat_lt] at hlt
  rw [UInt32.toNat_sub_of_le _ _ (UInt32.le_iff_toNat_le.2 hlt.le)] at hj
  have haddr : phdr.pVaddr + phdr.pFilesz + UInt32.ofNat j =
      phdr.pVaddr + UInt32.ofNat (phdr.pFilesz.toNat + j) := by
    rw [UInt32.add_assoc, UInt32.ofNat_add, UInt32.ofNat_toNat]
  rw [haddr]
  exact htarget _ (by omega)

/-- **A segment inside the file, modulo `2 ^ 32`, is loaded.** -/
theorem loadSegment_ok (h : Resolves k path idx) (hseg : SegmentOk (k.inodeArray idx) phdr)
    (htarget : TargetWritable area k.memory phdr) :
    ∃ k', loadSegment area k path phdr = .ok (0, k') ∧ Undisturbed k k' := by
  obtain ⟨printed, hprinted⟩ := kprintf_loading phdr.pVaddr phdr.pFilesz
  have hputs := Undisturbed.puts k printed
  obtain ⟨k₁, hread, hk₁⟩ := (hputs.resolves h).readMemory_ok hseg.end_le
    fun j hj => htarget j (lt_max_of_lt_left hj)
  have hk := hputs.trans hk₁
  have hcond : ¬ (asInt phdr.pFilesz < 0 ∨ UInt32.ofInt (asInt phdr.pFilesz) ≠ phdr.pFilesz) := by
    rintro (hneg | hne)
    · exact absurd (asInt_nonneg_iff.2 hseg.filesz_lt) (not_le.2 hneg)
    · exact hne (ofInt_asInt _)
  rw [loadSegment, hprinted, ok_bind, hread, ok_bind]
  dsimp only
  rw [if_neg hcond]
  split_ifs with hlt
  · obtain ⟨bytes, hbytes⟩ :=
      memset_tail (k := k₁) (fun j hj => hk.writable.2 (htarget j hj)) hlt
    refine ⟨k₁.withBytes bytes, ?_, hk.trans (Undisturbed.withBytes k₁ bytes)⟩
    rw [hbytes, ok_bind]
  · exact ⟨k₁, rfl, hk⟩

/-- **Any other segment is not.** -/
theorem loadSegment_not_ok (h : Resolves k path idx) (hseg : ¬ SegmentOk (k.inodeArray idx) phdr)
    (k' : Kernel) : loadSegment area k path phdr ≠ .ok (0, k') := by
  intro hload
  obtain ⟨printed, -, hload⟩ := bind_eq_ok.1 hload
  obtain ⟨⟨read, k₁⟩, hread, hload⟩ := bind_eq_ok.1 hload
  have hret := ((Undisturbed.puts k printed).resolves h).readMemory_ret hread
  have hcond : read < 0 ∨ UInt32.ofInt read ≠ phdr.pFilesz := by
    by_contra hnot
    rw [not_or, not_not, not_lt, hret, ofInt_asInt] at hnot
    obtain ⟨hnonneg, hlen⟩ := hnot
    rw [hlen] at hnonneg
    exact hseg ⟨fileCopy_len_eq_iff.1 hlen, asInt_nonneg_iff.1 hnonneg⟩
  dsimp only at hload
  rw [if_pos hcond] at hload
  obtain ⟨printed', -, hload⟩ := bind_eq_ok.1 hload
  exact absurd (congrArg Prod.fst (Except.ok.inj hload)) (show ¬ (-1 : ℤ) = 0 by decide)

variable {header : Elf32Ehdr} {i : ℕ}

/-- The program header that is read is the one at the computed offset. -/
theorem ofBytes_buffer {r : Result} {n : Inode}
    (hbuf : ∀ j < sizeofPhdr.toNat, r.buffer.getD j 0 = n.region (header.phdrOffset i) j) :
    (Elf32Phdr.ofBytes fun j => r.buffer.getD j 0) = phdrAt n header i :=
  Elf32Phdr.ofBytes_congr hbuf

/-- **A program header that is accepted lets the loop go on.** -/
theorem loadPhdr_ok (h : Resolves k path idx) (hphdr : PhdrOk (k.inodeArray idx) header i)
    (htarget : (phdrAt (k.inodeArray idx) header i).pType = ptLoad →
      TargetWritable area k.memory (phdrAt (k.inodeArray idx) header i)) :
    ∃ k', loadPhdr area path header i k = .ok (0, k') ∧ Undisturbed k k' := by
  obtain ⟨r, hr, hret, hk, hbuf⟩ := h.readObject_ok (by decide) hphdr.end_le
  rw [loadPhdr, hr, ok_bind, hret, ofInt_asInt, if_neg (not_not.2 rfl), ofBytes_buffer hbuf]
  dsimp only
  split_ifs with htype
  · have hseg : SegmentOk (r.kernel.inodeArray idx) (phdrAt (k.inodeArray idx) header i) := by
      rw [hk.inodeArray]
      exact hphdr.segment htype
    obtain ⟨k', hload, hk'⟩ := loadSegment_ok (hk.undisturbed.resolves h) hseg
      fun j hj => hk.undisturbed.writable.2 (htarget htype j hj)
    exact ⟨k', hload, hk.undisturbed.trans hk'⟩
  · exact ⟨r.kernel, rfl, hk.undisturbed⟩

/-- **Any other ends it.** -/
theorem loadPhdr_not_ok (h : Resolves k path idx) (hphdr : ¬ PhdrOk (k.inodeArray idx) header i)
    (k' : Kernel) : loadPhdr area path header i k ≠ .ok (0, k') := by
  intro hload
  by_cases hend : (header.phdrOffset i + sizeofPhdr).toNat ≤ (k.inodeArray idx).size.toNat
  · obtain ⟨r, hr, hret, hk, hbuf⟩ := h.readObject_ok (by decide) hend
    rw [loadPhdr, hr, ok_bind, hret, ofInt_asInt, if_neg (not_not.2 rfl), ofBytes_buffer hbuf]
      at hload
    dsimp only at hload
    split_ifs at hload with htype
    · refine loadSegment_not_ok (hk.undisturbed.resolves h) (fun hseg => ?_) k' hload
      rw [hk.inodeArray] at hseg
      exact hphdr ⟨hend, fun _ => hseg⟩
    · exact hphdr ⟨hend, fun ht => absurd ht htype⟩
  · obtain ⟨r, hr, hload⟩ := bind_eq_ok.1 hload
    rw [if_pos (h.readObject_not_ok hend hr)] at hload
    exact absurd (congrArg Prod.fst (Except.ok.inj hload)) (show ¬ (-1 : ℤ) = 0 by decide)

/-- What holds from `i` on holds of `i`, and from the next number on. -/
theorem forall_add_lt_succ {P : ℕ → Prop} {i n : ℕ} :
    (∀ m < n + 1, P (i + m)) ↔ P i ∧ ∀ m < n, P (i + 1 + m) := by
  rw [Nat.forall_lt_succ_left]
  simp only [Nat.add_zero, Nat.add_comm, Nat.add_left_comm]

theorem forall_add_le_succ {P : ℕ → Prop} {i n : ℕ} :
    (∀ m ≤ n + 1, P (i + m)) ↔ P i ∧ ∀ m ≤ n, P (i + 1 + m) := by
  simpa only [Nat.lt_succ_iff] using forall_add_lt_succ (P := P) (i := i) (n := n + 1)

/-- **The loop goes through exactly if every program header is accepted.** -/
theorem loadLoop_ok_iff {n : ℕ} (h : Resolves k path idx)
    (htarget : ∀ j < n, (∀ m ≤ j, PhdrOk (k.inodeArray idx) header (i + m)) →
      (phdrAt (k.inodeArray idx) header (i + j)).pType = ptLoad →
      TargetWritable area k.memory (phdrAt (k.inodeArray idx) header (i + j))) :
    (∃ k', loadLoop area path header n i k = .ok (0, k')) ↔
      ∀ j < n, PhdrOk (k.inodeArray idx) header (i + j) := by
  induction n generalizing i k with
  | zero => exact ⟨fun _ j hj => absurd hj (Nat.not_lt_zero j), fun _ => ⟨k, rfl⟩⟩
  | succ n ih =>
      by_cases hphdr : PhdrOk (k.inodeArray idx) header i
      · obtain ⟨k₁, hload, hk⟩ :=
          loadPhdr_ok h hphdr (htarget 0 n.succ_pos (by simpa using hphdr))
        rw [loadLoop, hload, ok_bind]
        dsimp only
        rw [if_pos rfl]
        -- the file and the area are as they were, so the rest is the induction hypothesis
        have hrest := ih (i := i + 1) (hk.resolves h) fun j hj hok ht a ha => by
          rw [hk.inodeArray] at hok
          rw [hk.inodeArray, Nat.add_assoc, Nat.add_comm 1 j] at ht ha ⊢
          exact hk.writable.2
            (htarget (j + 1) (by omega) (forall_add_le_succ.2 ⟨hphdr, hok⟩) ht a ha)
        rw [hrest, hk.inodeArray, forall_add_lt_succ]
        exact ⟨fun hall => ⟨hphdr, hall⟩, And.right⟩
      · constructor
        · rintro ⟨k', hloop⟩
          obtain ⟨⟨ret, k₁⟩, hload, hloop⟩ := bind_eq_ok.1 hloop
          dsimp only at hloop
          split_ifs at hloop with hret
          · rw [hret] at hload
            exact absurd hload (loadPhdr_not_ok h hphdr k₁)
          · exact absurd (congrArg Prod.fst (Except.ok.inj hloop)) hret
        · intro hall
          exact absurd (hall 0 n.succ_pos) hphdr

/-! ### What the loader does -/

/-- `elf_load` returns 0. -/
def Accepts (area : Area) (k : Kernel) (path : CString) : Prop :=
  ∃ r, elfLoad area k path = .ok r ∧ r.ret = 0

/-- The header of the file. -/
def ehdrAt (n : Inode) : Elf32Ehdr := Elf32Ehdr.ofBytes (n.region 0)

/-- The memory of every segment that the loader gets to and accepts can be written. -/
def TargetsWritable (area : Area) (m : Memory) (n : Inode) : Prop :=
  sizeofEhdr.toNat ≤ n.size.toNat ∧ (ehdrAt n).HasMagic → ∀ i < (ehdrAt n).ePhnum.toNat,
    (∀ j ≤ i, PhdrOk n (ehdrAt n) j) →
    (phdrAt n (ehdrAt n) i).pType = ptLoad → TargetWritable area m (phdrAt n (ehdrAt n) i)

/-- **The loader returns 0 exactly if the file has an ELF header and every program header is
accepted.** -/
theorem accepts_iff (h : Resolves k path idx)
    (htarget : TargetsWritable area k.memory (k.inodeArray idx)) :
    Accepts area k path ↔
      (sizeofEhdr.toNat ≤ (k.inodeArray idx).size.toNat ∧ (ehdrAt (k.inodeArray idx)).HasMagic) ∧
        ∀ i < (ehdrAt (k.inodeArray idx)).ePhnum.toNat,
          PhdrOk (k.inodeArray idx) (ehdrAt (k.inodeArray idx)) i := by
  by_cases hend : ((0 : UInt32) + sizeofEhdr).toNat ≤ (k.inodeArray idx).size.toNat
  · obtain ⟨r, hr, hret, hk, hbuf⟩ := h.readObject_ok (by decide) hend
    have hheader : (Elf32Ehdr.ofBytes fun j => r.buffer.getD j 0) = ehdrAt (k.inodeArray idx) :=
      Elf32Ehdr.ofBytes_congr hbuf
    rw [Accepts, elfLoad, hr, ok_bind, hret, ofInt_asInt, if_neg (not_not.2 rfl), hheader]
    dsimp only
    by_cases hmagic : (ehdrAt (k.inodeArray idx)).HasMagic
    · have hloop : (∃ k', loadLoop area path (ehdrAt (k.inodeArray idx))
          (ehdrAt (k.inodeArray idx)).ePhnum.toNat 0 r.kernel = .ok (0, k')) ↔ _ :=
        loadLoop_ok_iff (hk.undisturbed.resolves h) fun j hj hok ht a ha => by
          simp only [hk.inodeArray, Nat.zero_add] at hok ht ha ⊢
          exact hk.undisturbed.writable.2 (htarget ⟨hend, hmagic⟩ j hj hok ht a ha)
      simp only [hk.inodeArray, Nat.zero_add] at hloop
      rw [if_neg (not_not.2 hmagic), ← hloop]
      constructor
      · rintro ⟨r', hr', hret'⟩
        obtain ⟨⟨ret, k'⟩, hload, hr'⟩ := bind_eq_ok.1 hr'
        obtain rfl := Except.ok.inj hr'
        obtain rfl : ret = 0 := hret'
        exact ⟨⟨hend, hmagic⟩, k', hload⟩
      · rintro ⟨-, k', hload⟩
        exact ⟨_, by rw [hload, ok_bind], rfl⟩
    · rw [if_pos hmagic]
      constructor
      · rintro ⟨r', hr', hret'⟩
        obtain rfl := Except.ok.inj hr'
        exact absurd hret' (show ¬ (-1 : ℤ) = 0 by decide)
      · rintro ⟨⟨-, hm⟩, -⟩
        exact absurd hm hmagic
  · constructor
    · rintro ⟨r', hr', hret'⟩
      obtain ⟨r, hr, hr'⟩ := bind_eq_ok.1 hr'
      rw [if_pos (h.readObject_not_ok hend hr)] at hr'
      obtain rfl := Except.ok.inj hr'
      exact absurd hret' (show ¬ (-1 : ℤ) = 0 by decide)
    · rintro ⟨⟨hle, -⟩, -⟩
      exact absurd hle hend

end Load

end Anaga
