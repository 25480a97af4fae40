/-
**Writing through a descriptor: where `file_write` is cut off at the end of the data.**

`file_write` is cut off at `MAX_FILE_SIZE` by the same arithmetic as `file_read` at the size of the
file: a sum of 32 bits is compared with the limit, and a difference of 32 bits is what is left.
`file_seek` takes any position, so both can wrap around, and then the copy leaves the data of the
inode.  Here all descriptors work on one table of inodes, so a write through one of them is seen
by the others.

Main definitions:

* `Anaga.FileState`, `Anaga.FileCall` — the inode table with the descriptors, and the calls;
* `Anaga.Stored` — a write stores the part of the range that fits into the data;
* `Anaga.InLimit` — the position is not behind the limit, and the range does not wrap around.

Main results:

* `Anaga.stored_iff` — **a write stores what fits exactly if it is in the limit**;
* `Anaga.along_stored_iff` — the same for every write of a run, and no file grows over the limit.
-/

import Anaga.Reading

set_option relaxedAutoImplicit false
set_option autoImplicit false

namespace Anaga

open Transition

/-! ### The calls -/

/-- The table of inodes and the table of descriptors. -/
structure FileState where
  inodeArray : InodeTable
  fdTable : FdTable

/-- The calls of `fs/file.h` that use a descriptor, all on the same table of inodes. -/
inductive FileCall
  | openFile (inodeIndex : ℕ)
  | seek (fd : ℤ) (offset : UInt32)
  | read (fd : ℤ) (size : UInt32)
  | write (fd : ℤ) (buffer : ℕ → UInt8) (size : UInt32)
  | close (fd : ℤ)

/-- Both tables after a call. -/
def FileCall.step (s : FileState) : FileCall → Except Fault FileState
  | .openFile inodeIndex => .ok { s with fdTable := (fileOpen inodeIndex s.inodeArray s.fdTable).2 }
  | .seek fd offset => .ok { s with fdTable := (fileSeek fd offset s.fdTable).2 }
  | .read fd size => .ok { s with fdTable := (fileRead fd size s.inodeArray s.fdTable).2 }
  | .write fd buffer size =>
      (fun r => ⟨r.2.1, r.2.2⟩) <$> fileWrite fd buffer size s.inodeArray s.fdTable
  | .close fd => .ok { s with fdTable := fileClose fd s.fdTable }

/-! ### What a write should do -/

/-- The number of bytes from the position `pos` on that a write of `n` bytes should store. -/
def roomFor (pos n : UInt32) : ℕ := min n.toNat (maxFileSize - pos.toNat)

/-- Writing `n` bytes through the open descriptor `i` returns the number of bytes that fit, stores
these, moves the position behind them, and lets the file grow to there; nothing else changes. -/
def Stored (s : FileState) (i : Fin maxOpenFiles) (buffer : ℕ → UInt8) (n : UInt32) : Prop :=
  let pos := (s.fdTable i).position
  let idx := (s.fdTable i).inodeIndex
  let inode := s.inodeArray idx
  let r := roomFor pos n
  ∃ (w : UInt32) (inode' : Inode) (pos' : UInt32),
    fileWrite i buffer n s.inodeArray s.fdTable =
      .ok (some w, Function.update s.inodeArray idx inode',
        Function.update s.fdTable i { s.fdTable i with position := pos' }) ∧
    asInt w = r ∧
    pos'.toNat = pos.toNat + r ∧
    inode' = { inode with data := inode'.data, size := inode'.size } ∧
    (∀ j : Fin maxFileSize, inode'.data j =
      if pos.toNat ≤ j ∧ j < pos.toNat + r then buffer (j - pos.toNat) else inode.data j) ∧
    inode'.size.toNat =
      if pos.toNat ≤ maxFileSize then max inode.size.toNat (pos.toNat + r) else inode.size.toNat

/-- The position is not behind the limit, and the range does not wrap around. -/
def InLimit (s : FileState) (i : Fin maxOpenFiles) (_ : ℕ → UInt8) (n : UInt32) : Prop :=
  (s.fdTable i).position.toNat ≤ maxFileSize ∧ (s.fdTable i).position.toNat + n.toNat < 2 ^ 32

/-- If the call writes through an open descriptor, `C` holds of what it writes. -/
def FileCall.Writes (C : FileState → Fin maxOpenFiles → (ℕ → UInt8) → UInt32 → Prop)
    (s : FileState) : FileCall → Prop
  | .write fd buffer n => ∀ i, openFd s.fdTable fd = some i → C s i buffer n
  | _ => True

/-! ### What a write does -/

section Write

variable {s : FileState} {i : Fin maxOpenFiles} {n : UInt32}

/-- The number of bytes that `file_write` takes for `n` bytes from the position `pos` on. -/
def bytesToWrite (pos n : UInt32) : UInt32 :=
  if UInt32.ofNat maxFileSize < pos + n then UInt32.ofNat maxFileSize - pos else n

theorem asInt_bytesToWrite_iff (pos n : UInt32) :
    asInt (bytesToWrite pos n) = roomFor pos n ↔
      pos.toNat ≤ maxFileSize ∧ pos.toNat + n.toNat < 2 ^ 32 := by
  have hlimit : (UInt32.ofNat maxFileSize).toNat ≤ maxFileSize := le_refl maxFileSize
  exact asInt_clamp_iff hlimit pos n

/-- What `file_write` makes of an inode, if it takes `w` bytes. -/
def storedInode (inode : Inode) (buffer : ℕ → UInt8) (pos w : UInt32) : Inode :=
  { inode with
    data := fun j =>
      if pos.toNat ≤ j ∧ j < pos.toNat + w.toNat then buffer (j - pos.toNat) else inode.data j
    size := if inode.size < pos + w then pos + w else inode.size }

theorem fileWrite_inUse {t : InodeTable} {fds : FdTable} (huse : (fds i).inUse = true)
    (buffer : ℕ → UInt8) (n : UInt32) :
    fileWrite i buffer n t fds =
      if bytesToWrite (fds i).position n = 0 ∨
          (fds i).position.toNat + (bytesToWrite (fds i).position n).toNat ≤ maxFileSize then
        .ok (some (bytesToWrite (fds i).position n),
          Function.update t (fds i).inodeIndex
            (storedInode (t (fds i).inodeIndex) buffer (fds i).position
              (bytesToWrite (fds i).position n)),
          Function.update fds i
            { fds i with position := (fds i).position + bytesToWrite (fds i).position n })
      else .error .data := by
  rw [fileWrite, openFd_val, if_pos huse]
  rfl

/-- A write goes through the descriptor that is open. -/
theorem fileWrite_of_openFd {fd : ℤ} {t : InodeTable} {fds : FdTable}
    (h : openFd fds fd = some i) (buffer : ℕ → UInt8) (n : UInt32) :
    fileWrite fd buffer n t fds = fileWrite i buffer n t fds := by
  rw [fileWrite, fileWrite, h, openFd_val, if_pos (inUse_of_openFd h)]

/-- **A write stores what fits exactly if it is in the limit.** -/
theorem stored_iff (huse : (s.fdTable i).inUse = true) (buffer : ℕ → UInt8) :
    Stored s i buffer n ↔ InLimit s i buffer n := by
  have hwrite := fileWrite_inUse (t := s.inodeArray) huse buffer n
  have hiff := asInt_bytesToWrite_iff (s.fdTable i).position n
  generalize hw : bytesToWrite (s.fdTable i).position n = w at hwrite hiff
  rw [Stored, hwrite]
  constructor
  · rintro ⟨w', inode', pos', hok, hret, -⟩
    split_ifs at hok
    obtain rfl : w = w' := Option.some.inj (congrArg Prod.fst (Except.ok.inj hok))
    exact hiff.1 hret
  · intro h
    have hret := hiff.2 h
    have hnat : w.toNat = roomFor (s.fdTable i).position n := by
      have hnonneg : 0 ≤ asInt w := by
        rw [hret]
        exact Int.natCast_nonneg _
      rw [asInt_of_lt (asInt_nonneg_iff.1 hnonneg)] at hret
      exact_mod_cast hret
    have hroom : (s.fdTable i).position.toNat + w.toNat ≤ maxFileSize := by
      have hpos := h.1
      rw [hnat, roomFor]
      omega
    have hend : ((s.fdTable i).position + w).toNat = (s.fdTable i).position.toNat + w.toNat := by
      rw [UInt32.toNat_add]
      simp only [maxFileSize] at hroom
      omega
    rw [if_pos (Or.inr hroom), if_pos h.1, ← hnat]
    refine ⟨w, _, _, rfl, by rw [hret, hnat], hend, rfl, fun j => rfl, ?_⟩
    rw [storedInode]
    dsimp only
    split_ifs with hgrow
    · rw [UInt32.lt_iff_toNat_lt, hend] at hgrow
      rw [hend, Nat.max_eq_right hgrow.le]
    · rw [UInt32.lt_iff_toNat_lt, hend] at hgrow
      rw [Nat.max_eq_left (not_lt.1 hgrow)]

end Write

/-! ### Runs -/

/-- No file is longer than the limit. -/
def FileState.Sized (s : FileState) : Prop := ∀ i, (s.inodeArray i).size.toNat ≤ maxFileSize

/-- **One call**: writes in the limit go through and let no file grow over it. -/
theorem FileCall.step_sized {s : FileState} {o : FileCall} (hs : s.Sized)
    (ho : o.Writes InLimit s) : ∃ s', o.step s = .ok s' ∧ s'.Sized := by
  cases o with
  | openFile inodeIndex => exact ⟨_, rfl, hs⟩
  | seek fd offset => exact ⟨_, rfl, hs⟩
  | read fd n => exact ⟨_, rfl, hs⟩
  | close fd => exact ⟨_, rfl, hs⟩
  | write fd buffer n =>
      cases hopen : openFd s.fdTable fd with
      | none =>
          -- the call is refused
          refine ⟨s, ?_, hs⟩
          rw [FileCall.step, fileWrite, hopen]
          rfl
      | some i =>
          have hin := ho i hopen
          obtain ⟨w, inode', pos', hwrite, -, -, -, -, hsize⟩ :=
            (stored_iff (inUse_of_openFd hopen) buffer).2 hin
          rw [FileCall.step, fileWrite_of_openFd hopen, hwrite]
          refine ⟨_, rfl, fun j => ?_⟩
          change (Function.update s.inodeArray _ inode' j).size.toNat ≤ _
          rw [Function.update_apply]
          split_ifs
          · have hpos := hin.1
            rw [hsize, if_pos hpos]
            refine max_le (hs _) ?_
            rw [roomFor]
            omega
          · exact hs j

/-- **Every write of a run stores what fits exactly if every one is in the limit**, and then the
run goes through and no file is longer than the limit at its end. -/
theorem along_stored_iff (s : FileState) (ops : List FileCall) :
    (Along FileCall.step (FileCall.Writes Stored) s ops ↔
        Along FileCall.step (FileCall.Writes InLimit) s ops) ∧
      (s.Sized → Along FileCall.step (FileCall.Writes InLimit) s ops →
        ∃ t, run FileCall.step s ops = .ok t ∧ t.Sized) := by
  refine ⟨along_congr_of_mem ?_ s, fun hs hops => ?_⟩
  · intro o _ s
    cases o with
    | write fd buffer n =>
        refine forall_congr' fun i => forall_congr' fun hopen => ?_
        exact stored_iff (inUse_of_openFd hopen) buffer
    | openFile => exact Iff.rfl
    | seek => exact Iff.rfl
    | read => exact Iff.rfl
    | close => exact Iff.rfl
  · exact run_total_of_along (fun s o hs ho => FileCall.step_sized hs ho) hs hops

/-- Two descriptors of the same file are written to, the second of them over the limit. -/
theorem along_stored_two :
    Along FileCall.step (FileCall.Writes Stored) ⟨smallFile, closedFds⟩
        [.openFile 1, .openFile 1, .write 0 (fun _ => 65) 10, .seek 1 8190,
          .write 1 (fun _ => 66) 10] ∧
      ∃ t, run FileCall.step ⟨smallFile, closedFds⟩
        [.openFile 1, .openFile 1, .write 0 (fun _ => 65) 10, .seek 1 8190,
          .write 1 (fun _ => 66) 10] = .ok t ∧ t.Sized := by
  have hsized : FileState.Sized ⟨smallFile, closedFds⟩ := smallFile_size_le
  have hiff := along_stored_iff ⟨smallFile, closedFds⟩
    [.openFile 1, .openFile 1, .write 0 (fun _ => 65) 10, .seek 1 8190, .write 1 (fun _ => 66) 10]
  have hin : Along FileCall.step (FileCall.Writes InLimit) ⟨smallFile, closedFds⟩
      [.openFile 1, .openFile 1, .write 0 (fun _ => 65) 10, .seek 1 8190,
        .write 1 (fun _ => 66) 10] := by
    refine ⟨trivial, fun s₁ h₁ => ?_⟩
    obtain rfl := Except.ok.inj h₁
    refine ⟨trivial, fun s₂ h₂ => ?_⟩
    obtain rfl := Except.ok.inj h₂
    refine ⟨?_, fun s₃ h₃ => ?_⟩
    · intro i hi
      obtain rfl : 0 = i := Option.some.inj hi
      exact ⟨by decide, by decide⟩
    obtain rfl := Except.ok.inj h₃
    refine ⟨trivial, fun s₄ h₄ => ?_⟩
    obtain rfl := Except.ok.inj h₄
    refine ⟨?_, fun _ _ => trivial⟩
    intro i hi
    obtain rfl : 1 = i := Option.some.inj hi
    exact ⟨by decide, by decide⟩
  exact ⟨hiff.1.2 hin, hiff.2 hsized hin⟩

/-- From the position 9000 on, a write of ten bytes leaves the data of the file. -/
theorem not_stored_behind_end :
    ∃ s, run FileCall.step ⟨smallFile, closedFds⟩ [.openFile 1, .seek 0 9000] = .ok s ∧
      openFd s.fdTable 0 = some 0 ∧ FileCall.step s (.write 0 (fun _ => 65) 10) = .error .data ∧
      ¬ Stored s 0 (fun _ => 65) 10 := by
  refine ⟨_, rfl, rfl, rfl, ?_⟩
  rw [stored_iff rfl]
  intro h
  exact absurd h.1 (by decide)

end Anaga
