/-
**Reading through a descriptor: where `file_read` is cut off at the end of the file.**

`file_read` compares the end of the range it is asked for with the size of the file, and reads the
rest of the file if the range goes on behind it.  The end is a sum of 32 bits and the rest a
difference of 32 bits, and `file_seek` takes any position: a position behind the end makes the
difference huge, and a range that wraps around is not cut off at all.

Main definitions:

* `Anaga.FdOp` — the calls that use the table of descriptors, and what they do to it;
* `Anaga.Clamped` — reading gives the part of the range that lies inside the file;
* `Anaga.InRange` — the position is not behind the end, and the range does not wrap around.

Main results:

* `Anaga.asInt_clamp_iff` — when the cut in 32 bits is the right one;
* `Anaga.Kernel.buffer_of_le` — what a copy out of the content of a file copies;
* `Anaga.clamped_iff` — **a read is cut off at the end of the file exactly if it is in range**;
* `Anaga.along_clamped_iff` — the same for every read of a run.
-/

import Anaga.VfsSpec

set_option relaxedAutoImplicit false
set_option autoImplicit false

namespace Anaga

open Transition

/-! ### The calls -/

/-- The calls that use the table of descriptors.  Each is given the inode table it works on. -/
inductive FdOp
  | openFile (inodeIndex : ℕ) (t : InodeTable)
  | seek (fd : ℤ) (offset : UInt32)
  | read (fd : ℤ) (size : UInt32) (t : InodeTable)
  | write (fd : ℤ) (buffer : ℕ → UInt8) (size : UInt32) (t : InodeTable)
  | close (fd : ℤ)

/-- The table of descriptors after a call. -/
def FdOp.step (fds : FdTable) : FdOp → Except Fault FdTable
  | .openFile inodeIndex t => .ok (fileOpen inodeIndex t fds).2
  | .seek fd offset => .ok (fileSeek fd offset fds).2
  | .read fd size t => .ok (fileRead fd size t fds).2
  | .write fd buffer size t => (fun r => r.2.2) <$> fileWrite fd buffer size t fds
  | .close fd => .ok (fileClose fd fds)

/-- Where a call reads, no file is longer than `MAX_FILE_SIZE`. -/
def FdOp.Sized : FdOp → Prop
  | .read _ _ t => ∀ i, (t i).size.toNat ≤ maxFileSize
  | _ => True

/-! ### What a read should do -/

/-- The number of bytes from the position `pos` on that a read of `n` bytes should give. -/
def clampedLength (inode : Inode) (pos n : UInt32) : ℕ :=
  min n.toNat (inode.size.toNat - pos.toNat)

/-- Reading `n` bytes through the open descriptor `i` returns the number of bytes there are, copies
these, moves the position behind them and touches nothing behind the end of the file. -/
def Clamped (t : InodeTable) (fds : FdTable) (i : Fin maxOpenFiles) (n : UInt32) : Prop :=
  let pos := (fds i).position
  let inode := t (fds i).inodeIndex
  let r := clampedLength inode pos n
  ∃ c fds', fileRead i n t fds = (some c, fds') ∧
    asInt c.len = r ∧
    (∀ k : Kernel, k.inodeArray = t → k.buffer c = ((List.ofFn inode.data).drop pos.toNat).take r) ∧
    (fds' i).position.toNat = pos.toNat + r ∧
    ∀ j < c.len.toNat, c.pos.toNat + j < (t c.inode).size.toNat

/-- The position is not behind the end of the file, and the range does not wrap around. -/
def InRange (t : InodeTable) (fds : FdTable) (i : Fin maxOpenFiles) (n : UInt32) : Prop :=
  (fds i).position.toNat ≤ (t (fds i).inodeIndex).size.toNat ∧
    (fds i).position.toNat + n.toNat < 2 ^ 32

/-- If the call reads through an open descriptor, `C` holds of what it reads. -/
def FdOp.Reads (C : InodeTable → FdTable → Fin maxOpenFiles → UInt32 → Prop) (fds : FdTable) :
    FdOp → Prop
  | .read fd n t => ∀ i, openFd fds fd = some i → C t fds i n
  | _ => True

/-! ### What a read does -/

section Read

variable {t : InodeTable} {fds : FdTable} {i : Fin maxOpenFiles} {n : UInt32}

/-- An open descriptor is in use. -/
theorem inUse_of_openFd {fd : ℤ} (h : openFd fds fd = some i) : (fds i).inUse = true := by
  rw [openFd] at h
  split_ifs at h with hfd huse
  obtain rfl := Option.some.inj h
  exact huse

theorem fileRead_inUse (h : (fds i).inUse = true) (n : UInt32) :
    fileRead i n t fds =
      (some (fileCopy t (fds i).inodeIndex (fds i).position n),
        Function.update fds i
          { fds i with
            position :=
              (fds i).position + (fileCopy t (fds i).inodeIndex (fds i).position n).len }) := by
  simp only [fileRead, openFd_val, if_pos h, fileCopy]

/-- **When the cut in 32 bits is the right one**: a position behind the limit gives a huge
difference, and a range that wraps around is not cut off. -/
theorem asInt_clamp_iff {limit : UInt32} (hlimit : limit.toNat ≤ maxFileSize) (pos n : UInt32) :
    asInt (if limit < pos + n then limit - pos else n) = min n.toNat (limit.toNat - pos.toNat) ↔
      pos.toNat ≤ limit.toNat ∧ pos.toNat + n.toNat < 2 ^ 32 := by
  have hpos := pos.toNat_lt
  have hn := n.toNat_lt
  have hsum : (pos + n).toNat = (pos.toNat + n.toNat) % 2 ^ 32 := UInt32.toNat_add pos n
  have hsub : (limit - pos).toNat = (2 ^ 32 - pos.toNat + limit.toNat) % 2 ^ 32 :=
    UInt32.toNat_sub _ _
  simp only [maxFileSize] at hlimit
  rw [asInt_eq]
  split_ifs with hcut hsmall hsmall
  all_goals
    rw [UInt32.lt_iff_toNat_lt] at hcut
    omega

/-- The number of bytes that are read is right exactly if the read is in range. -/
theorem fileCopy_len_eq_clampedLength_iff {idx : Fin maxInodes} {pos : UInt32}
    (hsize : (t idx).size.toNat ≤ maxFileSize) :
    asInt (fileCopy t idx pos n).len = clampedLength (t idx) pos n ↔
      pos.toNat ≤ (t idx).size.toNat ∧ pos.toNat + n.toNat < 2 ^ 32 :=
  asInt_clamp_iff hsize pos n

/-- **What a copy out of the content of a file copies.** -/
theorem Kernel.buffer_of_le (k : Kernel) {c : Copy}
    (h : c.pos.toNat + c.len.toNat ≤ maxFileSize) :
    k.buffer c =
      ((List.ofFn (k.inodeArray c.inode).data).drop c.pos.toNat).take c.len.toNat := by
  refine List.ext_getElem ?_ ?_
  · rw [Kernel.buffer_length, List.length_take, List.length_drop, List.length_ofFn]
    omega
  · intro j h₁ h₂
    rw [Kernel.buffer_length] at h₁
    simp only [Kernel.buffer, List.getElem_map, List.getElem_range, List.getElem_take,
      List.getElem_drop, List.getElem_ofFn]
    exact k.copied_of_lt c (by omega)

/-- **A read is cut off at the end of the file exactly if it is in range.** -/
theorem clamped_iff (hsize : (t (fds i).inodeIndex).size.toNat ≤ maxFileSize)
    (huse : (fds i).inUse = true) : Clamped t fds i n ↔ InRange t fds i n := by
  have hread := fileRead_inUse (t := t) huse n
  have hlen : asInt (fileCopy t (fds i).inodeIndex (fds i).position n).len =
      clampedLength (t (fds i).inodeIndex) (fds i).position n ↔
        (fds i).position.toNat ≤ (t (fds i).inodeIndex).size.toNat ∧
          (fds i).position.toNat + n.toNat < 2 ^ 32 :=
    fileCopy_len_eq_clampedLength_iff hsize
  constructor
  · intro h
    obtain ⟨c, fds', hc, hret, -⟩ := h
    rw [hread] at hc
    obtain rfl := Option.some.inj (congrArg Prod.fst hc)
    exact hlen.1 hret
  · intro h
    have hret := hlen.2 h
    obtain ⟨hpos, hwrap⟩ := h
    -- in range the length is that of the rest, so the copy stays inside the content
    have hle : (fds i).position.toNat + clampedLength (t (fds i).inodeIndex) (fds i).position n ≤
        (t (fds i).inodeIndex).size.toNat := by
      rw [clampedLength]
      omega
    have hnat : (fileCopy t (fds i).inodeIndex (fds i).position n).len.toNat =
        clampedLength (t (fds i).inodeIndex) (fds i).position n := by
      have hnonneg : 0 ≤ asInt (fileCopy t (fds i).inodeIndex (fds i).position n).len := by
        rw [hret]
        exact Int.natCast_nonneg _
      rw [asInt_of_lt (asInt_nonneg_iff.1 hnonneg)] at hret
      exact_mod_cast hret
    refine ⟨_, _, hread, hret, ?_, ?_, ?_⟩
    · intro k hk
      rw [← hnat, ← hk]
      refine k.buffer_of_le ?_
      rw [hk, hnat]
      exact hle.trans hsize
    · simp only [maxFileSize] at hsize
      rw [Function.update_self, UInt32.toNat_add, hnat]
      omega
    · intro j hj
      rw [hnat] at hj
      change (fds i).position.toNat + j < (t (fds i).inodeIndex).size.toNat
      omega

end Read

/-! ### Runs -/

/-- **Every read of a run is cut off at the end of the file exactly if every one is in range.** -/
theorem along_clamped_iff (fds : FdTable) (ops : List FdOp) (h : ∀ o ∈ ops, o.Sized) :
    Along FdOp.step (FdOp.Reads Clamped) fds ops ↔ Along FdOp.step (FdOp.Reads InRange) fds ops := by
  refine along_congr_of_mem ?_ fds
  intro o ho s
  cases o with
  | read fd n t =>
      refine forall_congr' fun i => forall_congr' fun hopen => ?_
      exact clamped_iff (h _ ho _) (inUse_of_openFd hopen)
  | openFile => exact Iff.rfl
  | seek => exact Iff.rfl
  | write => exact Iff.rfl
  | close => exact Iff.rfl

/-- A table with a file of 52 bytes in inode 1. -/
def smallFile : InodeTable :=
  Function.update (fun _ => Inode.zero) 1 { Inode.zero with type := inodeFile, size := 52 }

/-- No descriptor is open. -/
def closedFds : FdTable := fun _ => ⟨false, 0, 0⟩

theorem smallFile_size_le (i : Fin maxInodes) : (smallFile i).size.toNat ≤ maxFileSize := by
  rw [smallFile, Function.update_apply]
  split_ifs
  · decide
  · decide

/-- Ten bytes from the position 50 on, of a file of 52 bytes. -/
theorem along_clamped_end :
    Along FdOp.step (FdOp.Reads Clamped) closedFds
      [.openFile 1 smallFile, .seek 0 50, .read 0 10 smallFile] := by
  refine (along_clamped_iff closedFds _ ?_).2 ⟨trivial, ?_⟩
  · intro o ho
    simp only [List.mem_cons, List.not_mem_nil, or_false] at ho
    rcases ho with rfl | rfl | rfl
    · trivial
    · trivial
    · exact smallFile_size_le
  · intro opened hopened
    obtain rfl := Except.ok.inj hopened
    refine ⟨trivial, ?_⟩
    intro sought hsought
    obtain rfl := Except.ok.inj hsought
    refine ⟨?_, fun _ _ => trivial⟩
    intro i hi
    obtain rfl : 0 = i := Option.some.inj hi
    exact ⟨by decide, by decide⟩

/-- From the position 100 on, a read of ten bytes copies almost all of memory. -/
theorem not_clamped_behind_end :
    ∃ fds, run FdOp.step closedFds [.openFile 1 smallFile, .seek 0 100] = .ok fds ∧
      openFd fds 0 = some 0 ∧ (smallFile (fds 0).inodeIndex).size.toNat ≤ maxFileSize ∧
      (fileRead 0 10 smallFile fds).1 = some ⟨1, 100, 0xFFFFFFD0⟩ ∧ ¬ Clamped smallFile fds 0 10 := by
  refine ⟨_, rfl, rfl, smallFile_size_le _, by decide, ?_⟩
  rw [clamped_iff (smallFile_size_le _) rfl]
  intro h
  exact absurd h.1 (by decide)

end Anaga
