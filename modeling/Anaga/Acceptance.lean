/-
**Which programs the loader accepts.**

A file can be loaded if it has an ELF header, and the program headers and the segments to be
loaded lie inside it.  This module compares that with what `elf_load` accepts, and with the bytes
that it takes.  The loader computes the ends of ranges modulo `2 ^ 32`, and does not compare their
starts with the end of the file: a range that starts behind it is not cut off, but becomes huge, and
one that wraps around can pass the check.  Nothing else goes wrong.

Main definitions:

* `Anaga.Inside`, `Anaga.Contained`, `Anaga.Loadable` — the files that can be loaded, with offsets
  computed as integers;
* `Anaga.Copy.TakenFrom` — a copy that takes only bytes of a file;
* `Anaga.StartsInside` — what a program header needs in order to be read from the file only.

Main results:

* `Anaga.takenFrom_fileCopy_iff` — **when a read stays inside the file**;
* `Anaga.phdrCopies_takenFrom_iff`, `Anaga.phdrOk_iff_contained` — the reads for a single program
  header, and the verdict on it;
* `Anaga.accepts_iff_loadable_and_taken_iff` — **the loader accepts exactly the files that can be
  loaded, and takes only bytes of the file**, if and only if the ranges that it gets to start
  inside.
-/

import Anaga.Extraction
import Anaga.Persistence

set_option relaxedAutoImplicit false
set_option autoImplicit false

namespace Anaga

open Transition

/-! ### Files that can be loaded -/

/-- The `len` bytes from `off` on lie inside the file. -/
def Inside (f : List UInt8) (off len : ℕ) : Prop := ∀ j < len, off + j < f.length

/-- The bytes of the file from `off` on. -/
def bytesAt (f : List UInt8) (off : ℕ) : ℕ → UInt8 := fun j => f.getD (off + j) 0

/-- The header of the file. -/
def ehdrOf (f : List UInt8) : Elf32Ehdr := Elf32Ehdr.ofBytes (bytesAt f 0)

/-- The offset of program header `i`, as an integer. -/
def Elf32Ehdr.fileOffset (header : Elf32Ehdr) (i : ℕ) : ℕ :=
  header.ePhoff.toNat + i * header.ePhentsize.toNat

/-- Program header `i` of the file. -/
def phdrOf (f : List UInt8) (i : ℕ) : Elf32Phdr :=
  Elf32Phdr.ofBytes (bytesAt f ((ehdrOf f).fileOffset i))

/-- The file has an ELF header. -/
structure HasHeader (f : List UInt8) : Prop where
  length_le : sizeofEhdr.toNat ≤ f.length
  magic : (ehdrOf f).HasMagic

/-- Program header `i` and, if it is to be loaded, its segment lie inside the file. -/
structure Contained (f : List UInt8) (i : ℕ) : Prop where
  header : Inside f ((ehdrOf f).fileOffset i) sizeofPhdr.toNat
  segment : (phdrOf f i).pType = ptLoad →
    Inside f (phdrOf f i).pOffset.toNat (phdrOf f i).pFilesz.toNat

/-- The file can be loaded. -/
structure Loadable (f : List UInt8) : Prop where
  header : HasHeader f
  contained : ∀ i < (ehdrOf f).ePhnum.toNat, Contained f i

theorem Inside.le {f : List UInt8} {off len : ℕ} (h : Inside f off len) (hlen : 0 < len) :
    off + len ≤ f.length := by
  have hlast := h (len - 1) (by omega)
  omega

theorem inside_of_le {f : List UInt8} {off len : ℕ} (h : off + len ≤ f.length) :
    Inside f off len := fun j hj => by omega

theorem inside_iff {f : List UInt8} {off len : ℕ} :
    Inside f off len ↔ len = 0 ∨ off + len ≤ f.length := by
  constructor
  · intro h
    rcases Nat.eq_zero_or_pos len with hzero | hpos
    · exact Or.inl hzero
    · exact Or.inr (h.le hpos)
  · rintro (rfl | hle)
    · exact fun j hj => absurd hj (Nat.not_lt_zero j)
    · exact inside_of_le hle

/-! ### The bytes of the file -/

/-- The loader computes the offset of a program header modulo `2 ^ 32`. -/
theorem phdrOffset_toNat (header : Elf32Ehdr) (i : ℕ) :
    (header.phdrOffset i).toNat = header.fileOffset i % 2 ^ 32 := by
  simp only [Elf32Ehdr.phdrOffset, Elf32Ehdr.fileOffset, UInt32.toNat_add, UInt32.toNat_mul,
    UInt32.toNat_ofNat', UInt16.toNat_toUInt32, Nat.mod_mul_mod, Nat.add_mod_mod]

section File

variable {n : Inode} (hn : n.size.toNat ≤ maxFileSize)

include hn

theorem contents_length : (contents n).length = n.size.toNat := by
  rw [contents, List.length_take, List.length_ofFn, Nat.min_eq_left hn]

/-- Inside the file, the loader reads the bytes of the file. -/
theorem region_eq {pos : UInt32} {j : ℕ} (h : pos.toNat + j < n.size.toNat) :
    n.region pos j = bytesAt (contents n) pos.toNat j := by
  have hlt : pos.toNat + j < maxFileSize := h.trans_le hn
  have hlen : pos.toNat + j < (contents n).length := by rwa [contents_length hn]
  have haddr : (dataOffset + pos.toNat + j) % 2 ^ 32 = dataOffset + (pos.toNat + j) := by
    simp only [dataOffset, maxFileSize] at hlt ⊢
    omega
  rw [Inode.region, haddr, bytesAt, List.getD_eq_getElem _ _ hlen]
  simp only [contents, List.getElem_take, List.getElem_ofFn]
  exact n.byte_data ⟨pos.toNat + j, hlt⟩

theorem ehdrAt_eq (h : sizeofEhdr.toNat ≤ n.size.toNat) : ehdrAt n = ehdrOf (contents n) :=
  Elf32Ehdr.ofBytes_congr fun j hj =>
    region_eq hn (show 0 + j < n.size.toNat by rw [Nat.zero_add]; exact hj.trans_le h)

theorem hasHeader_iff :
    HasHeader (contents n) ↔ sizeofEhdr.toNat ≤ n.size.toNat ∧ (ehdrAt n).HasMagic := by
  constructor
  · rintro ⟨hle, hmagic⟩
    rw [contents_length hn] at hle
    exact ⟨hle, by rwa [ehdrAt_eq hn hle]⟩
  · rintro ⟨hle, hmagic⟩
    rw [ehdrAt_eq hn hle] at hmagic
    exact ⟨by rwa [contents_length hn], hmagic⟩

/-- A program header inside the file is the one that the loader reads. -/
theorem phdrAt_eq (hle : sizeofEhdr.toNat ≤ n.size.toNat) {i : ℕ}
    (h : (ehdrOf (contents n)).fileOffset i + sizeofPhdr.toNat ≤ n.size.toNat) :
    phdrAt n (ehdrAt n) i = phdrOf (contents n) i := by
  have h32 : sizeofPhdr.toNat = 32 := rfl
  rw [ehdrAt_eq hn hle]
  refine Elf32Phdr.ofBytes_congr fun j hj => ?_
  have hoff : ((ehdrOf (contents n)).phdrOffset i).toNat = (ehdrOf (contents n)).fileOffset i := by
    simp only [maxFileSize] at hn
    rw [phdrOffset_toNat]
    omega
  rw [region_eq hn (by omega), hoff]

/-- The same, with the offset that the loader finds in the header it has read. -/
theorem phdrOf_eq (hle : sizeofEhdr.toNat ≤ n.size.toNat) {i : ℕ}
    (h : (ehdrAt n).fileOffset i + sizeofPhdr.toNat ≤ n.size.toNat) :
    phdrOf (contents n) i = phdrAt n (ehdrAt n) i := by
  refine (phdrAt_eq hn hle ?_).symm
  rwa [← ehdrAt_eq hn hle]

/-- A file with one program header can be loaded if that and its segment are inside the file. -/
theorem loadable_of_one (hle : sizeofEhdr.toNat ≤ n.size.toNat) (hmagic : (ehdrAt n).HasMagic)
    (hnum : (ehdrAt n).ePhnum.toNat = 1)
    (hoff : (ehdrAt n).fileOffset 0 + sizeofPhdr.toNat ≤ n.size.toNat)
    (hseg : (phdrAt n (ehdrAt n) 0).pType = ptLoad →
      Inside (contents n) (phdrAt n (ehdrAt n) 0).pOffset.toNat
        (phdrAt n (ehdrAt n) 0).pFilesz.toNat) : Loadable (contents n) := by
  have hehdr := ehdrAt_eq hn hle
  refine ⟨(hasHeader_iff hn).2 ⟨hle, hmagic⟩, fun i hi => ?_⟩
  rw [← hehdr, hnum] at hi
  obtain rfl : i = 0 := by omega
  constructor
  case header =>
    rw [← hehdr]
    exact inside_of_le (by rwa [contents_length hn])
  case segment =>
    rw [phdrOf_eq hn hle hoff]
    exact hseg

end File

/-! ### The verdict on a program header -/

/-- The segment of program header `i` is to be loaded and is empty, and starts behind the end of
the file. -/
def EmptyBeyond (f : List UInt8) (i : ℕ) : Prop :=
  (phdrOf f i).pType = ptLoad ∧ (phdrOf f i).pFilesz = 0 ∧ f.length < (phdrOf f i).pOffset.toNat

/-- Program header `i` starts inside the file or at its end.  So does its segment, if the header
lies inside the file and is to be loaded, and the segment ends in front of `2 ^ 32`. -/
structure StartsInside (f : List UInt8) (i : ℕ) : Prop where
  header : (ehdrOf f).fileOffset i ≤ f.length
  segment : (ehdrOf f).fileOffset i + sizeofPhdr.toNat ≤ f.length → (phdrOf f i).pType = ptLoad →
    (phdrOf f i).pOffset.toNat ≤ f.length ∧
      (phdrOf f i).pOffset.toNat + (phdrOf f i).pFilesz.toNat < 2 ^ 32

section Verdict

variable {n : Inode} {i : ℕ} (hn : n.size.toNat ≤ maxFileSize)
  (hle : sizeofEhdr.toNat ≤ n.size.toNat)

include hn hle

/-- **What lies inside the file is accepted, unless it is an empty segment behind the end.** -/
theorem phdrOk_of_contained (h : Contained (contents n) i) (hempty : ¬ EmptyBeyond (contents n) i) :
    PhdrOk n (ehdrAt n) i := by
  have hoff := h.header.le (by decide)
  rw [contents_length hn] at hoff
  have hphdr := phdrAt_eq hn hle hoff
  have hn' := hn
  simp only [maxFileSize] at hn'
  constructor
  case end_le =>
    rw [UInt32.toNat_add, phdrOffset_toNat, ehdrAt_eq hn hle, Nat.mod_add_mod]
    exact (Nat.mod_le _ _).trans hoff
  case segment =>
    rw [hphdr]
    intro htype
    -- the end of the segment, which is also its start if it is empty
    have hend : (phdrOf (contents n) i).pOffset.toNat + (phdrOf (contents n) i).pFilesz.toNat ≤
        n.size.toNat := by
      rcases Nat.eq_zero_or_pos (phdrOf (contents n) i).pFilesz.toNat with hzero | hpos
      · have hstart : ¬ (contents n).length < (phdrOf (contents n) i).pOffset.toNat :=
          fun hlt => hempty ⟨htype, UInt32.toNat_inj.1 hzero, hlt⟩
        rw [contents_length hn] at hstart
        omega
      · rw [← contents_length hn]
        exact (h.segment htype).le hpos
    refine ⟨?_, by omega⟩
    rw [UInt32.toNat_add]
    exact (Nat.mod_le _ _).trans hend

/-- An empty segment behind the end of the file is not accepted. -/
theorem not_phdrOk_of_emptyBeyond (h : Contained (contents n) i)
    (hempty : EmptyBeyond (contents n) i) : ¬ PhdrOk n (ehdrAt n) i := by
  intro hok
  have hoff := h.header.le (by decide)
  rw [contents_length hn] at hoff
  have hphdr := phdrAt_eq hn hle hoff
  obtain ⟨htype, hzero, hlt⟩ := hempty
  have hseg := hok.segment (by rwa [hphdr])
  rw [hphdr] at hseg
  have hend := hseg.end_le
  rw [hzero, UInt32.add_zero] at hend
  rw [contents_length hn] at hlt
  omega

/-- The end of a program header that starts inside the file is not computed modulo `2 ^ 32`. -/
theorem phdrOffset_add_toNat (h : (ehdrOf (contents n)).fileOffset i ≤ n.size.toNat) :
    ((ehdrAt n).phdrOffset i + sizeofPhdr).toNat =
      (ehdrOf (contents n)).fileOffset i + sizeofPhdr.toNat := by
  have h32 : sizeofPhdr.toNat = 32 := rfl
  simp only [maxFileSize] at hn
  rw [UInt32.toNat_add, phdrOffset_toNat, ehdrAt_eq hn hle, Nat.mod_add_mod, Nat.mod_eq_of_lt]
  omega

/-- **The loader accepts a program header that starts inside the file exactly if it and its segment
lie inside the file.** -/
theorem phdrOk_iff_contained (h : StartsInside (contents n) i) :
    PhdrOk n (ehdrAt n) i ↔ Contained (contents n) i := by
  have hstart := h.header
  rw [contents_length hn] at hstart
  constructor
  · intro hok
    have hend := hok.end_le
    rw [phdrOffset_add_toNat hn hle hstart] at hend
    have hphdr := phdrAt_eq hn hle hend
    rw [← contents_length hn] at hend
    refine ⟨inside_of_le hend, fun htype => inside_of_le ?_⟩
    have hseg := (hok.segment (by rwa [hphdr])).end_le
    rw [hphdr, UInt32.toNat_add, Nat.mod_eq_of_lt (h.segment hend htype).2] at hseg
    rwa [contents_length hn]
  · intro hcontained
    refine phdrOk_of_contained hn hle hcontained fun hempty => ?_
    have hoff := (h.segment (hcontained.header.le (by decide)) hempty.1).1
    exact absurd hempty.2.2 (not_lt.2 hoff)

end Verdict

/-! ### The bytes that are taken -/

/-- The copy takes only bytes of the file `idx` with the content `f`. -/
def Copy.TakenFrom (c : Copy) (idx : Fin maxInodes) (f : List UInt8) : Prop :=
  c.inode = idx ∧ Inside f c.pos.toNat c.len.toNat

section Taken

variable {t : InodeTable} {idx : Fin maxInodes} (hn : (t idx).size.toNat ≤ maxFileSize)

include hn

/-- **A read stays inside the file exactly if it starts inside or at the end, and does not wrap
around.** -/
theorem takenFrom_fileCopy_iff (pos size : UInt32) :
    (fileCopy t idx pos size).TakenFrom idx (contents (t idx)) ↔
      pos.toNat ≤ (t idx).size.toNat ∧ pos.toNat + size.toNat < 2 ^ 32 := by
  have hpos := pos.toNat_lt
  have hsize := size.toNat_lt
  have hsum : (pos + size).toNat = (pos.toNat + size.toNat) % 2 ^ 32 := UInt32.toNat_add pos size
  have hsub : ((t idx).size - pos).toNat =
      (2 ^ 32 - pos.toNat + (t idx).size.toNat) % 2 ^ 32 := UInt32.toNat_sub _ _
  simp only [maxFileSize] at hn
  rw [Copy.TakenFrom, fileCopy, inside_iff, contents_length hn]
  dsimp only
  rw [eq_self_iff_true, true_and]
  split_ifs with hcut
  all_goals
    rw [UInt32.lt_iff_toNat_lt] at hcut
    omega

variable {i : ℕ} (hle : sizeofEhdr.toNat ≤ (t idx).size.toNat)

include hle

/-- **The reads for a program header whose offset does not wrap around.** -/
theorem phdrCopies_takenFrom_iff (hlt : (ehdrOf (contents (t idx))).fileOffset i < 2 ^ 32) :
    (∀ c ∈ phdrCopies t idx (ehdrAt (t idx)) i, c.TakenFrom idx (contents (t idx))) ↔
      StartsInside (contents (t idx)) i := by
  have hlen := contents_length hn
  have hoff : ((ehdrAt (t idx)).phdrOffset i).toNat =
      (ehdrOf (contents (t idx))).fileOffset i := by
    rw [phdrOffset_toNat, ehdrAt_eq hn hle, Nat.mod_eq_of_lt hlt]
  -- the read of the program header, and then that of its segment
  rw [phdrCopies, List.forall_mem_cons, takenFrom_fileCopy_iff hn, hoff]
  constructor
  · rintro ⟨⟨hstart, -⟩, hseg⟩
    refine ⟨by rwa [hlen], fun hend htype => ?_⟩
    rw [hlen] at hend
    have hphdr := phdrAt_eq hn hle hend
    rw [phdrOffset_add_toNat hn hle hstart, hphdr, if_pos ⟨hend, htype⟩,
      List.forall_mem_singleton, takenFrom_fileCopy_iff hn] at hseg
    rwa [hlen]
  · rintro ⟨hstart, hseg⟩
    rw [hlen] at hstart hseg
    have hsize : sizeofPhdr.toNat = 32 := rfl
    refine ⟨⟨hstart, by simp only [maxFileSize] at hn; omega⟩, ?_⟩
    rw [phdrOffset_add_toNat hn hle hstart]
    split_ifs with hcond
    · rw [phdrAt_eq hn hle hcond.1] at hcond ⊢
      rw [List.forall_mem_singleton, takenFrom_fileCopy_iff hn]
      exact hseg hcond.1 hcond.2
    · exact fun c hc => absurd hc List.not_mem_nil

end Taken

/-! ### The verdict on the file -/

section Prefix

variable {P R C S : ℕ → Prop}

/-- Two conditions that agree wherever a third one holds hold equally far. -/
theorem forall_lt_congr {n : ℕ} (hPC : ∀ i, S i → (P i ↔ C i))
    (hS : ∀ i < n, (∀ j < i, C j) → S i) : (∀ i < n, P i) ↔ ∀ i < n, C i := by
  induction n with
  | zero => simp only [Nat.not_lt_zero, false_implies, implies_true]
  | succ n ih =>
      rw [Nat.forall_lt_succ_right, Nat.forall_lt_succ_right,
        ih fun i hi => hS i (Nat.lt_succ_of_lt hi)]
      exact and_congr_right fun hC => hPC n (hS n n.lt_succ_self hC)

/-- What holds as far as the one condition does, and one further, and what does so for the other. -/
theorem forall_prefix_congr {n : ℕ} (hRS : ∀ i, (∀ j < i, C j) → (R i ↔ S i))
    (hPC : ∀ i, S i → (P i ↔ C i)) :
    (∀ i < n, (∀ j < i, P j) → R i) ↔ ∀ i < n, (∀ j < i, C j) → S i := by
  constructor
  · intro hall i
    induction i using Nat.strong_induction_on with
    | _ i ih =>
        intro hi hC
        have hP := (forall_lt_congr hPC fun j hj => ih j hj (hj.trans hi)).2 hC
        exact (hRS i hC).1 (hall i hi hP)
  · intro hall i hi hP
    have hC := (forall_lt_congr hPC fun j hj => hall j (hj.trans hi)).1 hP
    exact (hRS i hC).2 (hall i hi hC)

/-- Where both hold, so does the other condition. -/
theorem forall_lt_of_and {n : ℕ} (hRS : ∀ i, (∀ j < i, C j) → (R i ↔ S i))
    (hPC : ∀ i, S i → (P i ↔ C i)) (h : ∀ i < n, P i ∧ R i) : ∀ i < n, C i := by
  induction n with
  | zero => exact fun i hi => absurd hi (Nat.not_lt_zero i)
  | succ n ih =>
      rw [Nat.forall_lt_succ_right] at h ⊢
      have hC := ih h.1
      exact ⟨hC, (hPC n ((hRS n hC).1 h.2.2)).1 h.2.1⟩

end Prefix

/-- As far as the program headers lie inside the file, the offset of the next one does not wrap
around. -/
theorem fileOffset_lt {f : List UInt8} (hf : f.length ≤ maxFileSize) {i : ℕ}
    (h : ∀ j < i, Contained f j) : (ehdrOf f).fileOffset i < 2 ^ 32 := by
  cases i with
  | zero =>
      rw [Elf32Ehdr.fileOffset, Nat.zero_mul, Nat.add_zero]
      exact (ehdrOf f).ePhoff.toNat_lt
  | succ i =>
      have hlast := (h i i.lt_succ_self).header.le (by decide)
      have hsize := (ehdrOf f).ePhentsize.toNat_lt
      simp only [Elf32Ehdr.fileOffset, maxFileSize, Nat.succ_mul] at hf hlast ⊢
      omega

/-- The memory of every segment inside the file can be written. -/
def SegmentsWritable (area : Area) (m : Memory) (f : List UInt8) : Prop :=
  ∀ i < (ehdrOf f).ePhnum.toNat, Contained f i → (phdrOf f i).pType = ptLoad →
    TargetWritable area m (phdrOf f i)

theorem SegmentsWritable.phdrAt {area : Area} {m : Memory} {n : Inode}
    (h : SegmentsWritable area m (contents n)) (hn : n.size.toNat ≤ maxFileSize)
    (hle : sizeofEhdr.toNat ≤ n.size.toNat) {i : ℕ} (hi : i < (ehdrAt n).ePhnum.toNat)
    (hcontained : Contained (contents n) i) (htype : (phdrAt n (ehdrAt n) i).pType = ptLoad) :
    TargetWritable area m (phdrAt n (ehdrAt n) i) := by
  have hoff := hcontained.header.le (by decide)
  rw [contents_length hn] at hoff
  rw [phdrAt_eq hn hle hoff] at htype ⊢
  exact h i (by rwa [← ehdrAt_eq hn hle]) hcontained htype

section Load

variable {area : Area} {k : Kernel} {path : CString} {idx : Fin maxInodes}

/-- The loader gets to a program header if those in front of it lie inside the file. -/
theorem taken_iff (h : Resolves k path idx)
    (htarget : SegmentsWritable area k.memory (contents (k.inodeArray idx))) :
    (∀ c ∈ elfCopies area k path, c.TakenFrom idx (contents (k.inodeArray idx))) ↔
      (HasHeader (contents (k.inodeArray idx)) →
        ∀ i < (ehdrOf (contents (k.inodeArray idx))).ePhnum.toNat,
          (∀ j < i, Contained (contents (k.inodeArray idx)) j) →
          StartsInside (contents (k.inodeArray idx)) i) := by
  have hn := h.size_le
  have hlen := contents_length hn
  have hheader : (fileCopy k.inodeArray idx 0 sizeofEhdr).TakenFrom idx
      (contents (k.inodeArray idx)) :=
    (takenFrom_fileCopy_iff hn 0 sizeofEhdr).2 ⟨Nat.zero_le _, by decide⟩
  have hcopies (hle : sizeofEhdr.toNat ≤ (k.inodeArray idx).size.toNat) (i : ℕ)
      (hC : ∀ j < i, Contained (contents (k.inodeArray idx)) j) :=
    phdrCopies_takenFrom_iff hn hle (i := i) (fileOffset_lt (hlen.trans_le hn) hC)
  rw [forall_elfCopies_iff h ?_, ← hasHeader_iff hn]
  · simp only [hheader, true_and]
    refine forall_congr' fun hfile => ?_
    have hle := ((hasHeader_iff hn).1 hfile).1
    rw [← ehdrAt_eq hn hle]
    exact forall_prefix_congr (hcopies hle) fun i => phdrOk_iff_contained hn hle
  · intro hle i hi hok htype
    have hcontained := forall_lt_of_and (n := i + 1) (hcopies hle)
      (fun i => phdrOk_iff_contained hn hle) (fun j hj => hok j (Nat.lt_succ_iff.1 hj)) i
      i.lt_succ_self
    exact htarget.phdrAt hn hle hi hcontained htype

/-- **The loader accepts exactly the files that can be loaded, and takes only bytes of the file**,
if and only if every program header that follows only such as lie inside the file starts inside. -/
theorem accepts_iff_loadable_and_taken_iff (h : Resolves k path idx)
    (htarget : SegmentsWritable area k.memory (contents (k.inodeArray idx))) :
    ((Accepts area k path ↔ Loadable (contents (k.inodeArray idx))) ∧
        ∀ c ∈ elfCopies area k path, c.TakenFrom idx (contents (k.inodeArray idx))) ↔
      (HasHeader (contents (k.inodeArray idx)) →
        ∀ i < (ehdrOf (contents (k.inodeArray idx))).ePhnum.toNat,
          (∀ j < i, Contained (contents (k.inodeArray idx)) j) →
          StartsInside (contents (k.inodeArray idx)) i) := by
  rw [taken_iff h htarget]
  refine ⟨And.right, fun hstarts => ⟨?_, hstarts⟩⟩
  have hn := h.size_le
  -- whatever the loader accepts lies inside the file
  have hall (hle : sizeofEhdr.toNat ≤ (k.inodeArray idx).size.toNat)
      (hfile : HasHeader (contents (k.inodeArray idx))) {m : ℕ}
      (hm : m ≤ (ehdrAt (k.inodeArray idx)).ePhnum.toNat) :
      (∀ i < m, PhdrOk (k.inodeArray idx) (ehdrAt (k.inodeArray idx)) i) ↔
        ∀ i < m, Contained (contents (k.inodeArray idx)) i := by
    refine forall_lt_congr (fun i => phdrOk_iff_contained hn hle) fun i hi => ?_
    rw [ehdrAt_eq hn hle] at hm
    exact hstarts hfile i (hi.trans_le hm)
  have hwritable : TargetsWritable area k.memory (k.inodeArray idx) := by
    intro hheader i hi hok htype
    have hcontained := (hall hheader.1 ((hasHeader_iff hn).2 hheader) hi).1
      (fun j hj => hok j (Nat.lt_succ_iff.1 hj)) i i.lt_succ_self
    exact htarget.phdrAt hn hheader.1 hi hcontained htype
  rw [accepts_iff h hwritable, ← hasHeader_iff hn]
  constructor
  · rintro ⟨hfile, hok⟩
    have hle := ((hasHeader_iff hn).1 hfile).1
    refine ⟨hfile, ?_⟩
    rw [← ehdrAt_eq hn hle]
    exact (hall hle hfile le_rfl).1 hok
  · rintro ⟨hfile, hcontained⟩
    have hle := ((hasHeader_iff hn).1 hfile).1
    rw [← ehdrAt_eq hn hle] at hcontained
    exact ⟨hfile, (hall hle hfile le_rfl).2 hcontained⟩

end Load

/-! ### Two files -/

/-- An ELF header with one program header at the given offset. -/
def elfHeader (phoff : UInt32) : List UInt8 :=
  [0x7F, 69, 76, 70] ++ List.replicate 20 0 ++ Bytes.wordBytes 0x200000 ++ Bytes.wordBytes phoff ++
    List.replicate 10 0 ++ [32, 0, 1, 0] ++ List.replicate 6 0

/-- A program of four bytes, with four bytes of zeros behind them. -/
def program : List UInt8 :=
  elfHeader 52 ++ [1, 84, 0x200000, 0x200000, 4, 8, 0, 0].flatMap Bytes.wordBytes ++ [1, 2, 3, 4]

theorem resolves_bootWith (content : List UInt8) : Resolves (bootWith content) nameA 1 := by
  have hone := bootWith_one content
  refine ⟨?_, by rw [hone]; rfl, by rw [hone]; exact fileInode_size_le content,
    findFreeFd_of_allClosed (Reachable.bootWith content).invariant.closed⟩
  rw [find_bootWith, if_pos rfl]

/-- The program header of the program. -/
theorem phdrAt_program :
    phdrAt (Mkfs.fileInode "a" program) (ehdrAt (Mkfs.fileInode "a" program)) 0 =
      ⟨ptLoad, 84, 0x200000, 4, 8⟩ := by decide +kernel

theorem ehdrAt_program : (ehdrAt (Mkfs.fileInode "a" program)).ePhnum.toNat = 1 ∧
    (ehdrAt (Mkfs.fileInode "a" program)).fileOffset 0 = 52 ∧
    sizeofEhdr.toNat ≤ (Mkfs.fileInode "a" program).size.toNat ∧
    (Mkfs.fileInode "a" program).size.toNat = 88 := by decide +kernel

theorem phdrOf_program :
    phdrOf (contents (Mkfs.fileInode "a" program)) 0 = ⟨ptLoad, 84, 0x200000, 4, 8⟩ := by
  obtain ⟨-, hoff, hle, hsize⟩ := ehdrAt_program
  rw [phdrOf_eq (fileInode_size_le program) hle (by rw [hoff, hsize]; decide), phdrAt_program]

theorem loadable_program : Loadable (contents (Mkfs.fileInode "a" program)) := by
  have hn := fileInode_size_le program
  obtain ⟨hnum, hoff, hle, hsize⟩ := ehdrAt_program
  refine loadable_of_one hn hle (by decide +kernel) hnum (by rw [hoff, hsize]; decide) ?_
  rw [phdrAt_program]
  intro _
  exact inside_of_le (by rw [contents_length hn, hsize]; decide)

/-- The program has one program header, which starts inside the file. -/
theorem starts_program {i : ℕ}
    (hi : i < (ehdrOf (contents (Mkfs.fileInode "a" program))).ePhnum.toNat) :
    i = 0 ∧ StartsInside (contents (Mkfs.fileInode "a" program)) i := by
  have hn := fileInode_size_le program
  obtain ⟨hnum, hoff, hle, hsize⟩ := ehdrAt_program
  rw [← ehdrAt_eq hn hle, hnum] at hi
  obtain rfl : i = 0 := by omega
  refine ⟨rfl, ?_, fun _ _ => ?_⟩
  · rw [← ehdrAt_eq hn hle, hoff, contents_length hn, hsize]
    decide
  · rw [phdrOf_program, contents_length hn, hsize]
    decide

/-- The memory from `0x200000` on can be written. -/
theorem targetWritable_program :
    TargetWritable (fun _ => true) ⟨0, fun _ => 0⟩ ⟨ptLoad, 84, 0x200000, 4, 8⟩ := by
  intro j hj
  change j < 8 at hj
  have haddr : (0x200000 + UInt32.ofNat j).toNat = 0x200000 + j := by
    rw [UInt32.toNat_add, UInt32.toNat_ofNat']
    change (2097152 + _) % _ = _
    omega
  refine ⟨rfl, ?_⟩
  change 265728 ≤ (0x200000 + UInt32.ofNat j - 0).toNat
  rw [UInt32.sub_zero, haddr]
  omega

/-- The program is loaded, out of the file. -/
theorem accepts_program : Accepts (fun _ => true) (bootWith program) nameA ∧
    ∀ c ∈ elfCopies (fun _ => true) (bootWith program) nameA,
      c.TakenFrom 1 (contents ((bootWith program).inodeArray 1)) := by
  have hone := bootWith_one program
  have hmem := bootWith_memory program
  have htarget : SegmentsWritable (fun _ => true) (bootWith program).memory
      (contents ((bootWith program).inodeArray 1)) := by
    rw [hone, hmem]
    intro i hi _ _
    obtain rfl := (starts_program hi).1
    rw [phdrOf_program]
    exact targetWritable_program
  obtain ⟨hiff, htaken⟩ :=
    (accepts_iff_loadable_and_taken_iff (resolves_bootWith program) htarget).2 fun _ i hi _ => by
      rw [hone] at hi ⊢
      exact (starts_program hi).2
  refine ⟨hiff.2 ?_, htaken⟩
  rw [hone]
  exact loadable_program

/-- An ELF header that places its program header 32 bytes in front of the file. -/
theorem not_accepts_iff_loadable_wrapped :
    ¬ ((Accepts (fun _ => true) (bootWith (elfHeader 0xFFFFFFE0)) nameA ↔
        Loadable (contents ((bootWith (elfHeader 0xFFFFFFE0)).inodeArray 1))) ∧
      ∀ c ∈ elfCopies (fun _ => true) (bootWith (elfHeader 0xFFFFFFE0)) nameA,
        c.TakenFrom 1 (contents ((bootWith (elfHeader 0xFFFFFFE0)).inodeArray 1))) := by
  have hone := bootWith_one (elfHeader 0xFFFFFFE0)
  have hn := fileInode_size_le (elfHeader 0xFFFFFFE0)
  have hsize : (Mkfs.fileInode "a" (elfHeader 0xFFFFFFE0)).size.toNat = 52 := by decide +kernel
  have hle : sizeofEhdr.toNat ≤ (Mkfs.fileInode "a" (elfHeader 0xFFFFFFE0)).size.toNat :=
    hsize.symm.le
  have hnum : (ehdrAt (Mkfs.fileInode "a" (elfHeader 0xFFFFFFE0))).ePhnum.toNat = 1 := by
    decide +kernel
  -- the entries in front of the data are zero, so there is nothing to load
  have hphdr : phdrAt (Mkfs.fileInode "a" (elfHeader 0xFFFFFFE0))
      (ehdrAt (Mkfs.fileInode "a" (elfHeader 0xFFFFFFE0))) 0 = ⟨0, 0, 0, 0, 0⟩ := by decide +kernel
  have htype : (0 : UInt32) ≠ ptLoad := by decide
  rintro ⟨hiff, -⟩
  have htarget : TargetsWritable (fun _ => true) (bootWith (elfHeader 0xFFFFFFE0)).memory
      ((bootWith (elfHeader 0xFFFFFFE0)).inodeArray 1) := by
    rw [hone]
    intro _ i hi _ ht
    rw [hnum] at hi
    obtain rfl : i = 0 := by omega
    rw [hphdr] at ht
    exact absurd ht htype
  have haccepts : Accepts (fun _ => true) (bootWith (elfHeader 0xFFFFFFE0)) nameA := by
    rw [accepts_iff (resolves_bootWith _) htarget, hone]
    refine ⟨⟨hle, by decide +kernel⟩, fun i hi => ?_⟩
    rw [hnum] at hi
    obtain rfl : i = 0 := by omega
    refine ⟨by decide +kernel, fun ht => ?_⟩
    rw [hphdr] at ht
    exact absurd ht htype
  have hload := hiff.1 haccepts
  rw [hone] at hload
  have hcontained := hload.contained 0 (by rw [← ehdrAt_eq hn hle, hnum]; exact Nat.one_pos)
  have hoff := hcontained.header.le (by decide)
  have hwrap : 2 ^ 32 ≤ (ehdrAt (Mkfs.fileInode "a" (elfHeader 0xFFFFFFE0))).fileOffset 0 +
      sizeofPhdr.toNat := by decide +kernel
  rw [contents_length hn, hsize, ← ehdrAt_eq hn hle] at hoff
  omega

end Anaga
