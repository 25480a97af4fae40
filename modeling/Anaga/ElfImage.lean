/-
**The memory image that the loader leaves.**

`Anaga.Elf` says when `elf_load` returns 0, and this module says what is in memory then: the old
bytes, over which every segment to be loaded has been written, in the order of the program headers,
the bytes of the file first and the zeros behind them.  The file itself is in memory, too, but
nothing is written to the inode table, so every segment finds the file as it was.

The console, the stack of the kernel and the positions of the descriptors are not part of the bytes
of memory here.

Main definitions:

* `Anaga.fill`, `Anaga.memoryImage` — bytes written over memory, and the image of a file;
* `Anaga.TargetsFree` — the segments go to mapped memory that is not the kernel's;
* `Anaga.Loads` — the loader returns 0 and leaves the image.

Main results:

* `Anaga.eq_of_storeLoop` — what the loops of `memcpy` and `memset` leave;
* `Anaga.loadSegment_leaves`, `Anaga.loadLoop_leaves` — what a segment leaves, and all of them;
* `Anaga.loads_of_accepts`, `Anaga.loads_iff` — **a file that can be loaded leaves its image,
  exactly if it has no empty segment behind its end**.
-/

import Anaga.Acceptance
import Anaga.AddressSpace

set_option relaxedAutoImplicit false
set_option autoImplicit false

namespace Anaga

open Transition

/-! ### Bytes written over memory -/

/-- Memory with the bytes `v 0`, `v 1`, …, `v (n - 1)` from the address `start` on. -/
def fill (start n : ℕ) (v : ℕ → UInt8) (mem : UInt32 → UInt8) : UInt32 → UInt8 := fun x =>
  if start ≤ x.toNat ∧ x.toNat < start + n then v (x.toNat - start) else mem x

@[simp] theorem fill_zero (start : ℕ) (v : ℕ → UInt8) (mem : UInt32 → UInt8) :
    fill start 0 v mem = mem := by
  refine funext fun x => if_neg ?_
  omega

/-- One more byte. -/
theorem fill_succ {start n : ℕ} {a : UInt32} (ha : a.toNat = start + n) (v : ℕ → UInt8)
    (mem : UInt32 → UInt8) :
    Function.update (fill start n v mem) a (v n) = fill start (n + 1) v mem := by
  refine funext fun x => ?_
  rw [Function.update_apply, fill, fill]
  by_cases hx : x = a
  · have hlast : x.toNat - start = n := by
      rw [hx, ha]
      omega
    rw [if_pos hx, if_pos (by rw [hx, ha]; omega), hlast]
  · have hne : x.toNat ≠ start + n := fun h => hx (UInt32.toNat_inj.1 (h.trans ha.symm))
    rw [if_neg hx]
    split_ifs <;> first | rfl | omega

/-- The segment, written over memory: the bytes of the file, and zeros behind them. -/
def Elf32Phdr.image (f : List UInt8) (phdr : Elf32Phdr) (mem : UInt32 → UInt8) : UInt32 → UInt8 :=
  fill (phdr.pVaddr.toNat + phdr.pFilesz.toNat) (phdr.pMemsz.toNat - phdr.pFilesz.toNat)
    (fun _ => 0) (fill phdr.pVaddr.toNat phdr.pFilesz.toNat (bytesAt f phdr.pOffset.toNat) mem)

/-- Program header `i`, if it is one of a segment to be loaded. -/
def phdrImage (f : List UInt8) (mem : UInt32 → UInt8) (i : ℕ) : UInt32 → UInt8 :=
  if (phdrOf f i).pType = ptLoad then (phdrOf f i).image f mem else mem

/-- The image of the file: one segment after the other. -/
def memoryImage (f : List UInt8) (mem : UInt32 → UInt8) : UInt32 → UInt8 :=
  (List.range (ehdrOf f).ePhnum.toNat).foldl (phdrImage f) mem

/-- The addresses that the segment is written to. -/
def Elf32Phdr.Target (phdr : Elf32Phdr) (x : ℕ) : Prop :=
  phdr.pVaddr.toNat ≤ x ∧ x < phdr.pVaddr.toNat + max phdr.pFilesz.toNat phdr.pMemsz.toNat

/-- No segment to be loaded is written to the address. -/
def OffTarget (f : List UInt8) (x : UInt32) : Prop :=
  ∀ i < (ehdrOf f).ePhnum.toNat, (phdrOf f i).pType = ptLoad → ¬ (phdrOf f i).Target x.toNat

/-- A segment is written to its target only. -/
theorem Elf32Phdr.image_of_not_target {phdr : Elf32Phdr} {x : UInt32}
    (h : ¬ phdr.Target x.toNat) (f : List UInt8) (mem : UInt32 → UInt8) :
    phdr.image f mem x = mem x := by
  rw [Elf32Phdr.Target] at h
  rw [Elf32Phdr.image, fill, if_neg (by omega), fill, if_neg (by omega)]

/-- **Nothing else changes.** -/
theorem memoryImage_of_offTarget {f : List UInt8} {x : UInt32} (h : OffTarget f x)
    (mem : UInt32 → UInt8) : memoryImage f mem x = mem x := by
  have hfold : ∀ (is : List ℕ) (mem : UInt32 → UInt8),
      (∀ i ∈ is, i < (ehdrOf f).ePhnum.toNat) → is.foldl (phdrImage f) mem x = mem x := by
    intro is
    induction is with
    | nil => exact fun _ _ => rfl
    | cons i is ih =>
        intro mem his
        rw [List.foldl_cons, ih _ fun j hj => his j (List.mem_cons_of_mem i hj), phdrImage]
        split_ifs with htype
        · exact Elf32Phdr.image_of_not_target (h i (his i List.mem_cons_self) htype) f mem
        · rfl
  exact hfold _ mem fun i hi => List.mem_range.1 hi

/-! ### What the loops leave -/

/-- **What the loops of `memcpy` and `memset` leave**, if the bytes they store do not depend on
what they have stored before. -/
theorem eq_of_storeLoop {area : Area} {dest : UInt32} {byte : Kernel → ℕ → UInt8} {k k' : Kernel}
    {n : ℕ} {v : ℕ → UInt8} (hv : ∀ j < n, ∀ bytes, byte (k.withBytes bytes) j = v j)
    (hlt : dest.toNat + n ≤ 2 ^ 32) (h : storeLoop area dest byte n k = .ok k') :
    k' = k.withBytes (fill dest.toNat n v k.memory.byte) := by
  induction n generalizing k' with
  | zero =>
      rw [fill_zero]
      exact (Except.ok.inj h).symm
  | succ n ih =>
      obtain ⟨k₁, hk₁, hstore⟩ := bind_eq_ok.1 h
      have heq := ih (fun j hj => hv j (by omega)) (by omega) hk₁
      rw [storeByte] at hstore
      split_ifs at hstore with hw
      rw [← Except.ok.inj hstore, heq, hv n (by omega)]
      have haddr : (dest + UInt32.ofNat n).toNat = dest.toNat + n := by
        rw [UInt32.toNat_add, UInt32.toNat_ofNat', Nat.add_mod_mod, Nat.mod_eq_of_lt (by omega)]
      rw [← fill_succ haddr]
      rfl

section Read

variable {k : Kernel} {path : CString} {idx : Fin maxInodes}

/-- **Reading to memory** writes the bytes of the file there. -/
theorem Resolves.readMemory_leaves (h : Resolves k path idx) {area : Area}
    {dest size offset : UInt32} {read : ℤ} {k' : Kernel}
    (hend : (offset + size).toNat ≤ (k.inodeArray idx).size.toNat)
    (hin : Inside (contents (k.inodeArray idx)) offset.toNat size.toNat)
    (hlt : dest.toNat + size.toNat ≤ 2 ^ 32)
    (hr : readMemory area k path dest size offset = .ok (read, k')) :
    Leaves k (fill dest.toNat size.toNat (bytesAt (contents (k.inodeArray idx)) offset.toNat)
      k.memory.byte) k' := by
  obtain ⟨k₁, hk₁, hread⟩ := h.readAt size offset
  have hsize := h.size_le
  rw [fileCopy_eq hend] at hread
  rw [readMemory, hread, ok_bind] at hr
  obtain ⟨k₂, hcopy, hr⟩ := bind_eq_ok.1 hr
  obtain rfl : k₂ = k' := congrArg Prod.snd (Except.ok.inj hr)
  -- the file is not in the memory that is written, so every byte is one of the file
  have hbytes : ∀ j < size.toNat, ∀ bytes, (k₁.withBytes bytes).copied ⟨idx, offset, size⟩ j =
      bytesAt (contents (k.inodeArray idx)) offset.toNat j := by
    intro j hj bytes
    have hfile : offset.toNat + j < (k.inodeArray idx).size.toNat := by
      have hlt := hin j hj
      rwa [contents_length hsize] at hlt
    have hregion : (dataOffset + offset.toNat + j) % 2 ^ 32 < sizeofInode := by
      simp only [maxFileSize, dataOffset, sizeofInode] at hsize ⊢
      omega
    rw [← region_eq hsize hfile, (k₁.withBytes bytes).copied_eq_region ⟨idx, offset, size⟩ hregion]
    change (k₁.inodeArray idx).region offset j = _
    rw [hk₁.inodeArray]
  rw [eq_of_storeLoop hbytes hlt hcopy, hk₁.byte_eq]
  exact hk₁.trans (Leaves.withBytes k₁ _)

end Read

/-! ### What the loader leaves -/

/-- The loader accepts program header `i` and reads it and its segment from the file, and the
segment goes to addresses. -/
structure Fits (n : Inode) (i : ℕ) : Prop where
  ok : PhdrOk n (ehdrAt n) i
  eq : phdrAt n (ehdrAt n) i = phdrOf (contents n) i
  inside : (phdrOf (contents n) i).pType = ptLoad →
    Inside (contents n) (phdrOf (contents n) i).pOffset.toNat
      (phdrOf (contents n) i).pFilesz.toNat
  target : (phdrOf (contents n) i).pType = ptLoad →
    ∀ x, (phdrOf (contents n) i).Target x → x < 2 ^ 32

section Load

variable {k k' : Kernel} {path : CString} {idx : Fin maxInodes} {area : Area} {phdr : Elf32Phdr}

/-- The ends of the two parts of a segment. -/
theorem Elf32Phdr.end_le (h : ∀ x, phdr.Target x → x < 2 ^ 32) :
    phdr.pVaddr.toNat + phdr.pFilesz.toNat ≤ 2 ^ 32 ∧
      phdr.pVaddr.toNat + phdr.pMemsz.toNat ≤ 2 ^ 32 := by
  have hstart := phdr.pVaddr.toNat_lt
  have hlast := h (phdr.pVaddr.toNat + max phdr.pFilesz.toNat phdr.pMemsz.toNat - 1)
  simp only [Elf32Phdr.Target] at hlast
  omega

/-- **What a segment leaves.** -/
theorem loadSegment_leaves {n : Inode} (h : Resolves k path idx) (hn : k.inodeArray idx = n)
    (hseg : SegmentOk n phdr)
    (hin : Inside (contents n) phdr.pOffset.toNat phdr.pFilesz.toNat)
    (htarget : ∀ x, phdr.Target x → x < 2 ^ 32)
    (hload : loadSegment area k path phdr = .ok (0, k')) :
    Leaves k (phdr.image (contents n) k.memory.byte) k' := by
  subst hn
  obtain ⟨hfile, hmem⟩ := Elf32Phdr.end_le htarget
  obtain ⟨printed, -, hload⟩ := bind_eq_ok.1 hload
  obtain ⟨⟨read, k₁⟩, hread, hload⟩ := bind_eq_ok.1 hload
  -- first the bytes of the file
  have hputs := Leaves.puts k printed
  have hk₁ := hputs.trans
    ((hputs.undisturbed.resolves h).readMemory_leaves hseg.end_le hin hfile hread)
  rw [Kernel.puts_inodeArray, Kernel.puts_memory] at hk₁
  dsimp only at hload
  rw [Elf32Phdr.image]
  split_ifs at hload with hbad hlt
  · obtain ⟨printed', -, hload⟩ := bind_eq_ok.1 hload
    exact absurd (congrArg Prod.fst (Except.ok.inj hload)) (show ¬ (-1 : ℤ) = 0 by decide)
  · -- and then the zeros behind them, if there are any
    obtain ⟨k₂, hzero, hload⟩ := bind_eq_ok.1 hload
    obtain rfl : k₂ = k' := congrArg Prod.snd (Except.ok.inj hload)
    rw [UInt32.lt_iff_toNat_lt] at hlt
    have hlen : (phdr.pMemsz - phdr.pFilesz).toNat = phdr.pMemsz.toNat - phdr.pFilesz.toNat :=
      UInt32.toNat_sub_of_le _ _ (UInt32.le_iff_toNat_le.2 hlt.le)
    have hdest : (phdr.pVaddr + phdr.pFilesz).toNat =
        phdr.pVaddr.toNat + phdr.pFilesz.toNat := by
      rw [UInt32.toNat_add, Nat.mod_eq_of_lt (by omega)]
    have hstored := eq_of_storeLoop (v := fun _ => 0) (fun _ _ _ => rfl)
      (by rw [hdest, hlen]; omega) hzero
    rw [hdest, hlen, hk₁.byte_eq] at hstored
    rw [hstored]
    exact hk₁.trans (Leaves.withBytes k₁ _)
  · obtain rfl : k₁ = k' := congrArg Prod.snd (Except.ok.inj hload)
    have hnone : phdr.pMemsz.toNat - phdr.pFilesz.toNat = 0 := by
      rw [UInt32.lt_iff_toNat_lt] at hlt
      omega
    rw [hnone, fill_zero]
    exact hk₁

/-- What a program header leaves. -/
theorem loadPhdr_leaves {n : Inode} {i : ℕ} (h : Resolves k path idx)
    (hn : k.inodeArray idx = n) (hfits : Fits n i)
    (hload : loadPhdr area path (ehdrAt n) i k = .ok (0, k')) :
    Leaves k (phdrImage (contents n) k.memory.byte i) k' := by
  subst hn
  obtain ⟨r, hr, hret, hk, hbuf⟩ := h.readObject_ok (by decide) hfits.ok.end_le
  rw [loadPhdr, hr, ok_bind, hret, ofInt_asInt, if_neg (not_not.2 rfl), ofBytes_buffer hbuf,
    hfits.eq] at hload
  dsimp only at hload
  rw [phdrImage]
  split_ifs at hload with htype
  · have hseg := hfits.ok.segment (by rwa [hfits.eq])
    have hin := hfits.inside htype
    rw [hfits.eq] at hseg
    have hleaves := loadSegment_leaves (hk.undisturbed.resolves h)
      (congrFun hk.inodeArray idx) hseg hin (hfits.target htype) hload
    rw [hk.byte_eq] at hleaves
    rw [if_pos htype]
    exact hk.trans hleaves
  · obtain rfl : r.kernel = k' := congrArg Prod.snd (Except.ok.inj hload)
    rw [if_neg htype]
    exact hk

/-- **What the loop leaves**: the segments, in the order of their program headers. -/
theorem loadLoop_leaves {n : Inode} {count i : ℕ} (h : Resolves k path idx)
    (hn : k.inodeArray idx = n) (hfits : ∀ j < count, Fits n (i + j))
    (hload : loadLoop area path (ehdrAt n) count i k = .ok (0, k')) :
    Leaves k ((List.range' i count).foldl (phdrImage (contents n)) k.memory.byte) k' := by
  induction count generalizing i k with
  | zero =>
      obtain rfl : k = k' := congrArg Prod.snd (Except.ok.inj hload)
      exact Leaves.withBytes k _
  | succ count ih =>
      obtain ⟨⟨ret, k₁⟩, hphdr, hload⟩ := bind_eq_ok.1 hload
      dsimp only at hload
      split_ifs at hload with hret
      · rw [hret] at hphdr
        have hk := loadPhdr_leaves h hn (hfits 0 count.succ_pos) hphdr
        have hrest := ih (hk.undisturbed.resolves h) (by rw [hk.inodeArray, hn]) (fun j hj => by
          rw [Nat.add_assoc, Nat.add_comm 1 j]
          exact hfits (j + 1) (by omega)) hload
        rw [hk.byte_eq] at hrest
        rw [List.range'_succ, List.foldl_cons]
        exact hk.trans hrest
      · exact absurd (congrArg Prod.fst (Except.ok.inj hload)) hret

/-- The loader returns 0, sets the entry point, and leaves the image of the file `f`. -/
def Loads (area : Area) (k : Kernel) (path : CString) (f : List UInt8) : Prop :=
  ∃ r, elfLoad area k path = .ok r ∧ r.ret = 0 ∧ r.entryPoint = some (ehdrOf f).eEntry ∧
    Leaves k (memoryImage f k.memory.byte) r.kernel ∧
    ∀ x, OffTarget f x → r.kernel.memory.byte x = k.memory.byte x

/-- **If the loader returns 0, it leaves the image.** -/
theorem loads_of_accepts {n : Inode} (h : Resolves k path idx) (hn : k.inodeArray idx = n)
    (hle : sizeofEhdr.toNat ≤ n.size.toNat)
    (hfits : ∀ i < (ehdrAt n).ePhnum.toNat, Fits n i) (haccepts : Accepts area k path) :
    Loads area k path (contents n) := by
  obtain ⟨r, hr, hret⟩ := haccepts
  have hsize := h.size_le
  rw [hn] at hsize
  obtain ⟨o, ho, horet, hk, hbuf⟩ := h.readObject_ok (show sizeofEhdr.toNat ≤ dataOffset by decide)
    (show ((0 : UInt32) + sizeofEhdr).toNat ≤ (k.inodeArray idx).size.toNat by rw [hn]; exact hle)
  rw [hn] at hbuf
  have hheader : (Elf32Ehdr.ofBytes fun j => o.buffer.getD j 0) = ehdrAt n :=
    Elf32Ehdr.ofBytes_congr hbuf
  have hresult := hr
  rw [elfLoad, ho, ok_bind, horet, ofInt_asInt, if_neg (not_not.2 rfl), hheader] at hresult
  dsimp only at hresult
  split_ifs at hresult with hmagic
  · obtain ⟨⟨ret, k₁⟩, hloop, hresult⟩ := bind_eq_ok.1 hresult
    obtain rfl := Except.ok.inj hresult
    obtain rfl : ret = 0 := hret
    have hleaves := hk.trans (loadLoop_leaves (hk.undisturbed.resolves h)
      (by rw [hk.inodeArray, hn]) (fun j hj => by rw [Nat.zero_add]; exact hfits j hj) hloop)
    rw [hk.byte_eq, ← List.range_eq_range', ehdrAt_eq hsize hle] at hleaves
    refine ⟨_, hr, rfl, ?_, hleaves, fun x hx => ?_⟩
    · rw [ehdrAt_eq hsize hle]
    · rw [← memoryImage_of_offTarget hx k.memory.byte]
      exact congrFun hleaves.byte_eq x
  · rw [← Except.ok.inj hresult] at hret
    exact absurd hret (show ¬ (-1 : ℤ) = 0 by decide)

end Load

/-! ### Files that can be loaded -/

/-- The addresses that are mapped and not the kernel's own. -/
def mappedArea (t : PageTables) (own : UInt32 → Bool) : Area :=
  fun x => decide (t.Present x) && !own x

/-- Every segment to be loaded goes to the first 4 MB, and to nothing of the kernel's own. -/
def TargetsFree (own : UInt32 → Bool) (m : Memory) (f : List UInt8) : Prop :=
  ∀ i < (ehdrOf f).ePhnum.toNat, (phdrOf f i).pType = ptLoad → ∀ x, (phdrOf f i).Target x →
    x < 0x400000 ∧ own (UInt32.ofNat x) = false ∧
      maxInodes * sizeofInode ≤ (UInt32.ofNat x - m.tableAddr).toNat

section Loads

variable {k : Kernel} {path : CString} {idx : Fin maxInodes} {own : UInt32 → Bool}

/-- Mapped memory that is not the kernel's own can be written. -/
theorem writable_of_free (pageTable : UInt32) {m : Memory} {x : UInt32}
    (h : x.toNat < 0x400000 ∧ own x = false ∧ maxInodes * sizeofInode ≤ (x - m.tableAddr).toNat) :
    Writable (mappedArea (pagingInit pageTable) own) m x := by
  refine ⟨?_, h.2.2⟩
  rw [mappedArea, h.2.1, decide_eq_true ((present_pagingInit_iff pageTable x).2 h.1)]
  rfl

/-- The address of byte `j` of a segment. -/
theorem toNat_target {phdr : Elf32Phdr} (h : ∀ x, phdr.Target x → x < 2 ^ 32) {j : ℕ}
    (hj : j < max phdr.pFilesz.toNat phdr.pMemsz.toNat) :
    (phdr.pVaddr + UInt32.ofNat j).toNat = phdr.pVaddr.toNat + j := by
  have hlt := h (phdr.pVaddr.toNat + j) ⟨Nat.le_add_right _ _, by omega⟩
  rw [UInt32.toNat_add, UInt32.toNat_ofNat', Nat.add_mod_mod, Nat.mod_eq_of_lt hlt]

/-- The program headers of a file that can be loaded are read from the file. -/
theorem phdrAt_of_loadable {n : Inode} {i : ℕ} (hn : n.size.toNat ≤ maxFileSize)
    (hload : Loadable (contents n)) (hi : i < (ehdrOf (contents n)).ePhnum.toNat) :
    phdrAt n (ehdrAt n) i = phdrOf (contents n) i := by
  have hoff := (hload.contained i hi).header.le (by decide)
  rw [contents_length hn] at hoff
  exact phdrAt_eq hn ((hasHeader_iff hn).1 hload.header).1 hoff

/-- What goes to free memory goes to addresses. -/
theorem TargetsFree.target_lt {m : Memory} {f : List UInt8} (hfree : TargetsFree own m f) :
    ∀ i < (ehdrOf f).ePhnum.toNat, (phdrOf f i).pType = ptLoad →
      ∀ x, (phdrOf f i).Target x → x < 2 ^ 32 :=
  fun i hi htype x hx => (hfree i hi htype x hx).1.trans (by decide)

/-- Free memory can be written. -/
theorem targetsWritable_of_free (pageTable : UInt32) {m : Memory} {n : Inode}
    (hn : n.size.toNat ≤ maxFileSize) (hload : Loadable (contents n))
    (hfree : TargetsFree own m (contents n)) :
    TargetsWritable (mappedArea (pagingInit pageTable) own) m n := by
  intro hheader i hi _ htype j hj
  rw [ehdrAt_eq hn hheader.1] at hi
  rw [phdrAt_of_loadable hn hload hi] at htype hj ⊢
  have haddr := toNat_target (hfree.target_lt i hi htype) hj
  have hx := hfree i hi htype _ ⟨Nat.le_add_right _ j, by omega⟩
  rw [← haddr, UInt32.ofNat_toNat] at hx
  exact writable_of_free pageTable hx

/-- An empty segment behind the end of the file is not loaded. -/
theorem not_loads_of_emptyBeyond (pageTable : UInt32) (h : Resolves k path idx)
    (hload : Loadable (contents (k.inodeArray idx)))
    (hfree : TargetsFree own k.memory (contents (k.inodeArray idx))) {i : ℕ}
    (hi : i < (ehdrOf (contents (k.inodeArray idx))).ePhnum.toNat)
    (hempty : EmptyBeyond (contents (k.inodeArray idx)) i) :
    ¬ Loads (mappedArea (pagingInit pageTable) own) k path (contents (k.inodeArray idx)) := by
  rintro ⟨r, hr, hret, -⟩
  have hn := h.size_le
  have hle := ((hasHeader_iff hn).1 hload.header).1
  have hok := ((accepts_iff h (targetsWritable_of_free pageTable hn hload hfree)).1
    ⟨r, hr, hret⟩).2 i (by rwa [ehdrAt_eq hn hle])
  exact not_phdrOk_of_emptyBeyond hn hle (hload.contained i hi) hempty hok

/-- **A file that can be loaded, to memory that is free, leaves its image, exactly if it has no
empty segment behind its end.** -/
theorem loads_iff (pageTable : UInt32) (h : Resolves k path idx)
    (hload : Loadable (contents (k.inodeArray idx)))
    (hfree : TargetsFree own k.memory (contents (k.inodeArray idx))) :
    Loads (mappedArea (pagingInit pageTable) own) k path (contents (k.inodeArray idx)) ↔
      ∀ i < (ehdrOf (contents (k.inodeArray idx))).ePhnum.toNat,
        ¬ EmptyBeyond (contents (k.inodeArray idx)) i := by
  constructor
  · intro hloads i hi hempty
    exact not_loads_of_emptyBeyond pageTable h hload hfree hi hempty hloads
  · intro hempty
    have hn := h.size_le
    have hle := ((hasHeader_iff hn).1 hload.header).1
    have hfits : ∀ i < (ehdrAt (k.inodeArray idx)).ePhnum.toNat, Fits (k.inodeArray idx) i := by
      intro i hi
      rw [ehdrAt_eq hn hle] at hi
      exact ⟨phdrOk_of_contained hn hle (hload.contained i hi) (hempty i hi),
        phdrAt_of_loadable hn hload hi, (hload.contained i hi).segment, hfree.target_lt i hi⟩
    have haccepts : Accepts (mappedArea (pagingInit pageTable) own) k path :=
      (accepts_iff h (targetsWritable_of_free pageTable hn hload hfree)).2
        ⟨(hasHeader_iff hn).1 hload.header, fun i hi => (hfits i hi).ok⟩
    exact loads_of_accepts h rfl hle hfits haccepts

end Loads

/-! ### Two files -/

/-- The image of the kernel, as an example of its own memory. -/
def ownImage : UInt32 → Bool := fun x => 0x100000 ≤ x && x < 0x145000

/-- Addresses from `0x200000` on are free. -/
theorem free_of_le {x : ℕ} (hle : 0x200000 ≤ x) (hlt : x < 0x400000) :
    x < 0x400000 ∧ ownImage (UInt32.ofNat x) = false ∧
      maxInodes * sizeofInode ≤ (UInt32.ofNat x - (⟨0, fun _ => 0⟩ : Memory).tableAddr).toNat := by
  have hval : (UInt32.ofNat x).toNat = x := by
    rw [UInt32.toNat_ofNat', Nat.mod_eq_of_lt (by omega)]
  refine ⟨hlt, ?_, ?_⟩
  · have hbehind : ¬ UInt32.ofNat x < 0x145000 := by
      rw [UInt32.lt_iff_toNat_lt, hval]
      change ¬ x < 1331200
      omega
    rw [ownImage, decide_eq_false hbehind, Bool.and_false]
  · change 265728 ≤ (UInt32.ofNat x - 0).toNat
    rw [UInt32.sub_zero, hval]
    omega

/-- A segment from `0x200000` on goes to free memory. -/
theorem targetsFree_of_one {f : List UInt8} (hnum : (ehdrOf f).ePhnum.toNat = 1)
    (hstart : 0x200000 ≤ (phdrOf f 0).pVaddr.toNat)
    (hend : (phdrOf f 0).pVaddr.toNat +
      max (phdrOf f 0).pFilesz.toNat (phdrOf f 0).pMemsz.toNat ≤ 0x400000) :
    TargetsFree ownImage ⟨0, fun _ => 0⟩ f := by
  intro i hi _ x hx
  rw [hnum] at hi
  obtain rfl : i = 0 := by omega
  exact free_of_le (hstart.trans hx.1) (hx.2.trans_le hend)

/-- The program of four bytes is loaded. -/
theorem loads_program :
    Loads (mappedArea (pagingInit 0x141000) ownImage) (bootWith program) nameA
      (contents ((bootWith program).inodeArray 1)) := by
  have hone := bootWith_one program
  have hload := loadable_program
  obtain ⟨hnum, -, hle, -⟩ := ehdrAt_program
  have hehdr := ehdrAt_eq (fileInode_size_le program) hle
  refine (loads_iff 0x141000 (resolves_bootWith program) (by rwa [hone]) ?_).2 ?_
  · rw [hone, bootWith_memory]
    refine targetsFree_of_one (by rw [← hehdr, hnum]) ?_ ?_
    · rw [phdrOf_program]
      decide
    · rw [phdrOf_program]
      decide
  · rw [hone]
    intro i hi hempty
    rw [← hehdr, hnum] at hi
    obtain rfl : i = 0 := by omega
    have hzero := hempty.2.1
    rw [phdrOf_program] at hzero
    exact absurd hzero (by decide)

/-- A program of eight bytes of zeros, none of which are in the file. -/
def emptySegment : List UInt8 :=
  elfHeader 52 ++ [1, 0x1000, 0x200000, 0x200000, 0, 8, 0, 0].flatMap Bytes.wordBytes

theorem emptySegment_header :
    (ehdrAt (Mkfs.fileInode "a" emptySegment)).ePhnum.toNat = 1 ∧
    (ehdrAt (Mkfs.fileInode "a" emptySegment)).fileOffset 0 = 52 ∧
    (ehdrAt (Mkfs.fileInode "a" emptySegment)).HasMagic ∧
    (Mkfs.fileInode "a" emptySegment).size.toNat = 84 ∧
    phdrAt (Mkfs.fileInode "a" emptySegment) (ehdrAt (Mkfs.fileInode "a" emptySegment)) 0 =
      ⟨ptLoad, 0x1000, 0x200000, 0, 8⟩ := by decide +kernel

theorem emptySegment_size_le :
    sizeofEhdr.toNat ≤ (Mkfs.fileInode "a" emptySegment).size.toNat ∧
    (ehdrAt (Mkfs.fileInode "a" emptySegment)).fileOffset 0 + sizeofPhdr.toNat ≤
      (Mkfs.fileInode "a" emptySegment).size.toNat := by
  obtain ⟨-, hoff, -, hsize, -⟩ := emptySegment_header
  rw [hoff, hsize]
  decide

theorem phdrOf_emptySegment :
    (ehdrOf (contents (Mkfs.fileInode "a" emptySegment))).ePhnum.toNat = 1 ∧
    phdrOf (contents (Mkfs.fileInode "a" emptySegment)) 0 =
      ⟨ptLoad, 0x1000, 0x200000, 0, 8⟩ := by
  have hn := fileInode_size_le emptySegment
  obtain ⟨hnum, -, -, -, hphdr⟩ := emptySegment_header
  obtain ⟨hle, hoff⟩ := emptySegment_size_le
  rw [phdrOf_eq hn hle hoff, ← ehdrAt_eq hn hle]
  exact ⟨hnum, hphdr⟩

theorem loadable_emptySegment : Loadable (contents (Mkfs.fileInode "a" emptySegment)) := by
  obtain ⟨hnum, -, hmagic, -, hphdr⟩ := emptySegment_header
  obtain ⟨hle, hoff⟩ := emptySegment_size_le
  refine loadable_of_one (fileInode_size_le emptySegment) hle hmagic hnum hoff ?_
  rw [hphdr]
  intro _ j hj
  exact absurd hj (Nat.not_lt_zero j)

/-- Its segment is inside the file, as there are no bytes to be read, and it goes to free memory,
but the loader does not load it. -/
theorem not_loads_emptySegment :
    Loadable (contents ((bootWith emptySegment).inodeArray 1)) ∧
      TargetsFree ownImage (bootWith emptySegment).memory
        (contents ((bootWith emptySegment).inodeArray 1)) ∧
      ¬ Loads (mappedArea (pagingInit 0x141000) ownImage) (bootWith emptySegment) nameA
        (contents ((bootWith emptySegment).inodeArray 1)) := by
  have hone := bootWith_one emptySegment
  obtain ⟨-, -, -, hsize, -⟩ := emptySegment_header
  obtain ⟨hnum, hphdr⟩ := phdrOf_emptySegment
  have hload : Loadable (contents ((bootWith emptySegment).inodeArray 1)) :=
    hone ▸ loadable_emptySegment
  have hfree : TargetsFree ownImage (bootWith emptySegment).memory
      (contents ((bootWith emptySegment).inodeArray 1)) := by
    rw [hone, bootWith_memory]
    refine targetsFree_of_one hnum ?_ ?_
    · rw [hphdr]
      decide
    · rw [hphdr]
      decide
  have hempty : EmptyBeyond (contents ((bootWith emptySegment).inodeArray 1)) 0 := by
    rw [hone, EmptyBeyond, hphdr, contents_length (fileInode_size_le emptySegment), hsize]
    exact ⟨rfl, rfl, by decide⟩
  refine ⟨hload, hfree, not_loads_of_emptyBeyond 0x141000 (resolves_bootWith emptySegment) hload
    hfree ?_ hempty⟩
  rw [hone, hnum]
  exact Nat.one_pos

end Anaga
