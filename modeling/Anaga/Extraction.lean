/-
**What the loader takes out of a file.**

`elf_load` with a log of the copies that its reads make out of inodes, also the one that a fault
ends.  Without the log it is the loader.

Main definitions:

* `Anaga.elfLoadLogged` — the loader with its log;
* `Anaga.elfCopies` — the copies that a call makes;
* `Anaga.phdrCopies` — those of one round of its loop.

Main results:

* `Anaga.elfLoadLogged_result` — **without the log it is the loader**;
* `Anaga.log_loadPhdrLogged` — the copies of one round;
* `Anaga.forall_loadLoopLogged_iff` — what holds of the copies of the loop holds of those of every
  round that it gets to;
* `Anaga.forall_elfCopies_iff` — **what holds of all copies of a call**.
-/

import Anaga.Elf
import Anaga.Logged

set_option relaxedAutoImplicit false
set_option autoImplicit false

namespace Anaga

open Transition Logged

/-! ### The loader with a log -/

/-- `vfs_read_at`, with the copy it makes. -/
def vfsReadAtLogged (k : Kernel) (path : CString) (size offset : UInt32) :
    Logged Copy Fault Result where
  log := (vfsReadAt k path size offset).toOption.elim [] fun r => r.copy.toList
  result := vfsReadAt k path size offset

/-- `readObject`. -/
def readObjectLogged (k : Kernel) (path : CString) (size offset : UInt32) :
    Logged Copy Fault Result :=
  vfsReadAtLogged k path size offset >>= fun r =>
  silent <|
    match r.copy with
    | none => .ok r
    | some c => if c.len ≤ size then .ok r else .error .stack

/-- `readMemory`. -/
def readMemoryLogged (area : Area) (k : Kernel) (path : CString) (dest size offset : UInt32) :
    Logged Copy Fault (ℤ × Kernel) :=
  vfsReadAtLogged k path size offset >>= fun r =>
  silent <|
    match r.copy with
    | none => .ok (r.ret, r.kernel)
    | some c => memcpy area dest c r.kernel >>= fun k => .ok (r.ret, k)

/-- `loadSegment`. -/
def loadSegmentLogged (area : Area) (k : Kernel) (path : CString) (phdr : Elf32Phdr) :
    Logged Copy Fault (ℤ × Kernel) :=
  silent (kprintf (utf8 "ELF: Loading segment at 0x%x (size: %d)\n" ++ [0])
    [.word phdr.pVaddr, .word phdr.pFilesz]) >>= fun printed =>
  readMemoryLogged area (k.puts printed) path phdr.pVaddr phdr.pFilesz phdr.pOffset >>=
    fun (read, k) =>
  silent <|
    if read < 0 ∨ UInt32.ofInt read ≠ phdr.pFilesz then
      kprintf (utf8 "ELF: Failed to load segment (read %d of %d)\n" ++ [0])
        [.word (UInt32.ofInt read), .word phdr.pFilesz] >>= fun printed =>
      .ok (-1, k.puts printed)
    else if phdr.pFilesz < phdr.pMemsz then
      memset area (phdr.pVaddr + phdr.pFilesz) 0 (phdr.pMemsz - phdr.pFilesz) k >>= fun k =>
      .ok (0, k)
    else .ok (0, k)

/-- `loadPhdr`. -/
def loadPhdrLogged (area : Area) (path : CString) (header : Elf32Ehdr) (i : ℕ) (k : Kernel) :
    Logged Copy Fault (ℤ × Kernel) :=
  readObjectLogged k path sizeofPhdr (header.phdrOffset i) >>= fun r =>
  if UInt32.ofInt r.ret ≠ sizeofPhdr then
    silent (.ok (-1, r.kernel.puts (utf8 "ELF: Failed to read phdr\n")))
  else
    let phdr := Elf32Phdr.ofBytes fun j => r.buffer.getD j 0
    if phdr.pType = ptLoad then loadSegmentLogged area r.kernel path phdr
    else silent (.ok (0, r.kernel))

/-- `loadLoop`. -/
def loadLoopLogged (area : Area) (path : CString) (header : Elf32Ehdr) :
    ℕ → ℕ → Kernel → Logged Copy Fault (ℤ × Kernel)
  | 0, _, k => silent (.ok (0, k))
  | n + 1, i, k =>
      loadPhdrLogged area path header i k >>= fun (ret, k) =>
      if ret = 0 then loadLoopLogged area path header n (i + 1) k else silent (.ok (ret, k))

/-- `elf_load`, with the copies it makes. -/
def elfLoadLogged (area : Area) (k : Kernel) (path : CString) : Logged Copy Fault ElfResult :=
  readObjectLogged k path sizeofEhdr 0 >>= fun r =>
  if UInt32.ofInt r.ret ≠ sizeofEhdr then
    silent (.ok ⟨-1, none, r.kernel.puts (utf8 "ELF: Failed to read header\n")⟩)
  else
    let header := Elf32Ehdr.ofBytes fun j => r.buffer.getD j 0
    if ¬ header.HasMagic then
      silent (.ok ⟨-1, none, r.kernel.puts (utf8 "ELF: Invalid magic\n")⟩)
    else
      loadLoopLogged area path header header.ePhnum.toNat 0 r.kernel >>= fun (ret, k) =>
      silent (.ok ⟨ret, some header.eEntry, k⟩)

/-- The copies that a call of `elf_load` makes. -/
def elfCopies (area : Area) (k : Kernel) (path : CString) : List Copy :=
  (elfLoadLogged area k path).log

/-! ### Without the log -/

@[simp] theorem vfsReadAtLogged_result (k : Kernel) (path : CString) (size offset : UInt32) :
    (vfsReadAtLogged k path size offset).result = vfsReadAt k path size offset := rfl

@[simp] theorem readObjectLogged_result (k : Kernel) (path : CString) (size offset : UInt32) :
    (readObjectLogged k path size offset).result = readObject k path size offset := by
  rw [readObjectLogged, result_bind]
  rfl

@[simp] theorem readMemoryLogged_result (area : Area) (k : Kernel) (path : CString)
    (dest size offset : UInt32) :
    (readMemoryLogged area k path dest size offset).result =
      readMemory area k path dest size offset := by
  rw [readMemoryLogged, result_bind]
  rfl

@[simp] theorem loadSegmentLogged_result (area : Area) (k : Kernel) (path : CString)
    (phdr : Elf32Phdr) :
    (loadSegmentLogged area k path phdr).result = loadSegment area k path phdr := by
  simp only [loadSegmentLogged, result_bind, result_silent, readMemoryLogged_result]
  rfl

@[simp] theorem loadPhdrLogged_result (area : Area) (path : CString) (header : Elf32Ehdr) (i : ℕ)
    (k : Kernel) :
    (loadPhdrLogged area path header i k).result = loadPhdr area path header i k := by
  simp only [loadPhdrLogged, result_bind, readObjectLogged_result, apply_ite Logged.result,
    loadSegmentLogged_result, result_silent]
  rfl

@[simp] theorem loadLoopLogged_result (area : Area) (path : CString) (header : Elf32Ehdr)
    (n i : ℕ) (k : Kernel) :
    (loadLoopLogged area path header n i k).result = loadLoop area path header n i k := by
  induction n generalizing i k with
  | zero => rfl
  | succ n ih =>
      simp only [loadLoopLogged, result_bind, loadPhdrLogged_result, apply_ite Logged.result, ih,
        result_silent]
      rfl

/-- **Without the log it is the loader.** -/
@[simp] theorem elfLoadLogged_result (area : Area) (k : Kernel) (path : CString) :
    (elfLoadLogged area k path).result = elfLoad area k path := by
  simp only [elfLoadLogged, result_bind, readObjectLogged_result, apply_ite Logged.result,
    loadLoopLogged_result, result_silent]
  rfl

/-! ### The copies -/

/-- The copies of round `i` of the loop: the program header and, if that is read as a whole and is
to be loaded, its segment. -/
def phdrCopies (t : InodeTable) (idx : Fin maxInodes) (header : Elf32Ehdr) (i : ℕ) : List Copy :=
  fileCopy t idx (header.phdrOffset i) sizeofPhdr ::
    if (header.phdrOffset i + sizeofPhdr).toNat ≤ (t idx).size.toNat ∧
        (phdrAt (t idx) header i).pType = ptLoad then
      [fileCopy t idx (phdrAt (t idx) header i).pOffset (phdrAt (t idx) header i).pFilesz]
    else []

section Copies

variable {k : Kernel} {path : CString} {idx : Fin maxInodes} {area : Area} {header : Elf32Ehdr}

theorem log_vfsReadAtLogged (h : Resolves k path idx) (size offset : UInt32) :
    (vfsReadAtLogged k path size offset).log = [fileCopy k.inodeArray idx offset size] := by
  obtain ⟨k', -, hread⟩ := h.readAt size offset
  rw [vfsReadAtLogged, hread]
  rfl

theorem log_readObjectLogged (h : Resolves k path idx) (size offset : UInt32) :
    (readObjectLogged k path size offset).log = [fileCopy k.inodeArray idx offset size] := by
  rw [readObjectLogged, log_bind_of_silent _ fun _ => log_silent _, log_vfsReadAtLogged h]

theorem log_readMemoryLogged (h : Resolves k path idx) (dest size offset : UInt32) :
    (readMemoryLogged area k path dest size offset).log =
      [fileCopy k.inodeArray idx offset size] := by
  rw [readMemoryLogged, log_bind_of_silent _ fun _ => log_silent _, log_vfsReadAtLogged h]

theorem log_loadSegmentLogged (h : Resolves k path idx) (phdr : Elf32Phdr) :
    (loadSegmentLogged area k path phdr).log =
      [fileCopy k.inodeArray idx phdr.pOffset phdr.pFilesz] := by
  obtain ⟨printed, hprinted⟩ := kprintf_loading phdr.pVaddr phdr.pFilesz
  have hputs := (Undisturbed.puts k printed).resolves h
  rw [loadSegmentLogged, hprinted, log_bind_of_ok (result_silent _), log_silent, List.nil_append,
    log_bind_of_silent _ fun _ => log_silent _, log_readMemoryLogged hputs]
  rfl

/-- **The copies of one round of the loop.** -/
theorem log_loadPhdrLogged (h : Resolves k path idx) (i : ℕ) :
    (loadPhdrLogged area path header i k).log = phdrCopies k.inodeArray idx header i := by
  have hlog := log_readObjectLogged h sizeofPhdr (header.phdrOffset i)
  by_cases hend : (header.phdrOffset i + sizeofPhdr).toNat ≤ (k.inodeArray idx).size.toNat
  · obtain ⟨r, hr, hret, hk, hbuf⟩ := h.readObject_ok (by decide) hend
    rw [loadPhdrLogged, log_bind_of_ok ((readObjectLogged_result _ _ _ _).trans hr), hlog, hret,
      ofInt_asInt, if_neg (not_not.2 rfl), ofBytes_buffer hbuf, phdrCopies]
    dsimp only
    by_cases htype : (phdrAt (k.inodeArray idx) header i).pType = ptLoad
    · rw [if_pos htype, if_pos ⟨hend, htype⟩, log_loadSegmentLogged (hk.undisturbed.resolves h),
        hk.inodeArray]
      rfl
    · rw [if_neg htype, if_neg fun hc => htype hc.2]
      rfl
  · have hcopies : phdrCopies k.inodeArray idx header i =
        [fileCopy k.inodeArray idx (header.phdrOffset i) sizeofPhdr] := by
      rw [phdrCopies, if_neg fun hc => hend hc.1]
    rw [hcopies, ← hlog, loadPhdrLogged]
    cases hr : (readObjectLogged k path sizeofPhdr (header.phdrOffset i)).result with
    | error e => exact log_bind_of_error hr _
    | ok r =>
        have hret := h.readObject_not_ok hend ((readObjectLogged_result _ _ _ _).symm.trans hr)
        rw [log_bind_of_ok hr, if_pos hret, log_silent, List.append_nil]

/-- A round that is not the last one goes on with the next. -/
theorem forall_loadLoopLogged_succ {P : Copy → Prop} (h : Resolves k path idx) {n i : ℕ} :
    (∀ c ∈ (loadLoopLogged area path header (n + 1) i k).log, P c) ↔
      (∀ c ∈ phdrCopies k.inodeArray idx header i, P c) ∧
        ∀ k', loadPhdr area path header i k = .ok (0, k') →
          ∀ c ∈ (loadLoopLogged area path header n (i + 1) k').log, P c := by
  rw [loadLoopLogged, forall_bind, log_loadPhdrLogged h, loadPhdrLogged_result]
  refine and_congr_right fun _ => ⟨fun hall k' hload => hall (0, k') hload, ?_⟩
  rintro hall ⟨ret, k'⟩ hload
  dsimp only
  split_ifs with hret
  · exact hall k' (hret ▸ hload)
  · exact fun c hc => absurd hc List.not_mem_nil

/-- **What holds of the copies of the loop holds of those of every round that it gets to.** -/
theorem forall_loadLoopLogged_iff {P : Copy → Prop} {n i : ℕ} (h : Resolves k path idx)
    (htarget : ∀ j < n, (∀ m ≤ j, PhdrOk (k.inodeArray idx) header (i + m) ∧
        ∀ c ∈ phdrCopies k.inodeArray idx header (i + m), P c) →
      (phdrAt (k.inodeArray idx) header (i + j)).pType = ptLoad →
      TargetWritable area k.memory (phdrAt (k.inodeArray idx) header (i + j))) :
    (∀ c ∈ (loadLoopLogged area path header n i k).log, P c) ↔
      ∀ j < n, (∀ m < j, PhdrOk (k.inodeArray idx) header (i + m)) →
        ∀ c ∈ phdrCopies k.inodeArray idx header (i + j), P c := by
  induction n generalizing i k with
  | zero =>
      exact ⟨fun _ j hj => absurd hj (Nat.not_lt_zero j), fun _ c hc => absurd hc List.not_mem_nil⟩
  | succ n ih =>
      rw [forall_loadLoopLogged_succ h, Nat.forall_lt_succ_left]
      simp only [Nat.not_lt_zero, false_implies, implies_true, true_implies, Nat.add_zero]
      refine and_congr_right fun hcopies => ?_
      by_cases hphdr : PhdrOk (k.inodeArray idx) header i
      · obtain ⟨k₁, hload, hk⟩ := loadPhdr_ok h hphdr (htarget 0 n.succ_pos
          (by simpa using ⟨hphdr, hcopies⟩))
        -- the file and the area are as they were, so the rest is the induction hypothesis
        have hrest := ih (i := i + 1) (hk.resolves h) fun j hj hok ht a ha => by
          rw [hk.inodeArray] at hok
          rw [hk.inodeArray, Nat.add_assoc, Nat.add_comm 1 j] at ht ha ⊢
          exact hk.writable.2 (htarget (j + 1) (by omega)
            (forall_add_le_succ (P := fun m => PhdrOk (k.inodeArray idx) header m ∧
              ∀ c ∈ phdrCopies k.inodeArray idx header m, P c).2 ⟨⟨hphdr, hcopies⟩, hok⟩) ht a ha)
        rw [hk.inodeArray] at hrest
        have hgoes : (∀ k', loadPhdr area path header i k = .ok (0, k') →
            ∀ c ∈ (loadLoopLogged area path header n (i + 1) k').log, P c) ↔
            ∀ c ∈ (loadLoopLogged area path header n (i + 1) k₁).log, P c := by
          refine ⟨fun hall => hall k₁ hload, fun hall k' hk' => ?_⟩
          obtain rfl : k₁ = k' := congrArg Prod.snd (Except.ok.inj (hload.symm.trans hk'))
          exact hall
        rw [hgoes, hrest]
        simp only [forall_add_lt_succ (P := PhdrOk (k.inodeArray idx) header), hphdr, true_and,
          Nat.add_assoc, Nat.add_comm 1]
      · refine ⟨fun _ j _ hall => absurd (hall 0 j.succ_pos) hphdr, fun _ k' hload => ?_⟩
        exact absurd hload (loadPhdr_not_ok h hphdr k')

/-- **What holds of all copies of a call.** -/
theorem forall_elfCopies_iff {P : Copy → Prop} (h : Resolves k path idx)
    (htarget : sizeofEhdr.toNat ≤ (k.inodeArray idx).size.toNat →
      ∀ i < (ehdrAt (k.inodeArray idx)).ePhnum.toNat,
      (∀ j ≤ i, PhdrOk (k.inodeArray idx) (ehdrAt (k.inodeArray idx)) j ∧
        ∀ c ∈ phdrCopies k.inodeArray idx (ehdrAt (k.inodeArray idx)) j, P c) →
      (phdrAt (k.inodeArray idx) (ehdrAt (k.inodeArray idx)) i).pType = ptLoad →
      TargetWritable area k.memory (phdrAt (k.inodeArray idx) (ehdrAt (k.inodeArray idx)) i)) :
    (∀ c ∈ elfCopies area k path, P c) ↔
      P (fileCopy k.inodeArray idx 0 sizeofEhdr) ∧
        (sizeofEhdr.toNat ≤ (k.inodeArray idx).size.toNat ∧
            (ehdrAt (k.inodeArray idx)).HasMagic →
          ∀ i < (ehdrAt (k.inodeArray idx)).ePhnum.toNat,
            (∀ j < i, PhdrOk (k.inodeArray idx) (ehdrAt (k.inodeArray idx)) j) →
            ∀ c ∈ phdrCopies k.inodeArray idx (ehdrAt (k.inodeArray idx)) i, P c) := by
  rw [elfCopies, elfLoadLogged, forall_bind, log_readObjectLogged h, List.forall_mem_singleton,
    readObjectLogged_result]
  refine and_congr_right fun _ => ?_
  by_cases hend : ((0 : UInt32) + sizeofEhdr).toNat ≤ (k.inodeArray idx).size.toNat
  · obtain ⟨r, hr, hret, hk, hbuf⟩ := h.readObject_ok (by decide) hend
    have hheader : (Elf32Ehdr.ofBytes fun j => r.buffer.getD j 0) = ehdrAt (k.inodeArray idx) :=
      Elf32Ehdr.ofBytes_congr hbuf
    have hloop : (∀ c ∈ (loadLoopLogged area path (ehdrAt (k.inodeArray idx))
        (ehdrAt (k.inodeArray idx)).ePhnum.toNat 0 r.kernel).log, P c) ↔ _ :=
      forall_loadLoopLogged_iff (hk.undisturbed.resolves h) fun j hj hok ht a ha => by
        simp only [hk.inodeArray, Nat.zero_add] at hok ht ha ⊢
        exact hk.undisturbed.writable.2 (htarget hend j hj hok ht a ha)
    simp only [hk.inodeArray, Nat.zero_add] at hloop
    simp only [hr, Except.ok.injEq, forall_eq', hret, ofInt_asInt, hheader]
    rw [if_neg (not_not.2 rfl)]
    by_cases hmagic : (ehdrAt (k.inodeArray idx)).HasMagic
    · rw [if_neg (not_not.2 hmagic), log_bind_of_silent _ fun _ => log_silent _, hloop]
      exact ⟨fun hall _ => hall, fun hall => hall ⟨hend, hmagic⟩⟩
    · rw [if_pos hmagic]
      exact ⟨fun _ hheader => absurd hheader.2 hmagic, fun _ c hc => absurd hc List.not_mem_nil⟩
  · refine ⟨fun _ hheader => absurd hheader.1 hend, fun _ r hr => ?_⟩
    rw [if_pos (h.readObject_not_ok hend hr)]
    exact fun c hc => absurd hc List.not_mem_nil

end Copies

end Anaga
