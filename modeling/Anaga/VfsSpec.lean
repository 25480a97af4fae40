/-
**What the operations do on a grounded table.**

One description of each function of `fs/vfs.c`, for states in which the inode table is grounded and
the current directory is a directory of it.  In such states no function leaves an array, and each
does one of a few things: it fails and changes nothing but the console, it creates an inode, it
writes the data of a file, it moves, or it copies data out.  Nothing later unfolds these
functions again.

Main definitions:

* `Anaga.Cwd` — the current directory, as an inode;
* `Anaga.cdTarget`, `Anaga.writeTarget`, `Anaga.written` — where `cd` goes, which inode
  `vfs_write_file` writes, and what it makes of it;
* `Anaga.fileCopy` — the copy that a read makes;
* `Anaga.Keeps` — the file system is as it was.

Main results:

* `Anaga.vfsMkdir_of_some`, `Anaga.vfsTouch_of_some`, `Anaga.vfsWriteFile_of_le` and the lemmas
  for their failures;
* `Anaga.vfsCd_of_some`, `Anaga.vfsCd_of_none`;
* `Anaga.vfsReadAt_of_find`, `Anaga.vfsRead_of_find`, `Anaga.vfsCat_keeps`, `Anaga.vfsLs_eq`,
  `Anaga.vfsPwd_eq`.
-/

import Anaga.TableTree

set_option relaxedAutoImplicit false
set_option autoImplicit false

namespace Anaga

open Transition

/-- The current directory is the directory `d`. -/
structure Cwd (k : Kernel) (d : Fin maxInodes) : Prop where
  val : k.currentDir = d
  dir : (k.inodeArray d).type = inodeDir

/-- The file system is as it was, and no descriptor has been left open. -/
structure Keeps (k k' : Kernel) : Prop where
  inodeArray : k'.inodeArray = k.inodeArray
  disk : k'.disk = k.disk
  currentDir : k'.currentDir = k.currentDir
  closed : AllClosed k.fdTable → AllClosed k'.fdTable

theorem Keeps.refl (k : Kernel) : Keeps k k := ⟨rfl, rfl, rfl, id⟩

theorem Keeps.puts {k k' : Kernel} (h : Keeps k k') (s : List UInt8) : Keeps k (k'.puts s) :=
  ⟨h.inodeArray, h.disk, h.currentDir, h.closed⟩

variable {k : Kernel} {d : Fin maxInodes} {t : InodeTable} {idx : Fin maxInodes}

theorem Cwd.find (hd : Cwd k d) (h : GroundedTable k.inodeArray) (name : CString) :
    findInodeInDir k.inodeArray k.currentDir name =
      .ok ((tree k.inodeArray).lookup d name.bytes) := by
  rw [hd.val]
  exact findInodeInDir_eq h hd.dir name

theorem Cwd.inodeAt (hd : Cwd k d) : inodeAt k.inodeArray k.currentDir = .ok (k.inodeArray d) := by
  rw [hd.val, inodeAt_val]

theorem Cwd.fileCreate (hd : Cwd k d) (h : GroundedTable k.inodeArray) (name : CString) :
    fileCreate name k.currentDir k.inodeArray =
      .ok ((created k.inodeArray d name inodeFile).elim (none, k.inodeArray)
        fun p => (some p.1, p.2)) := by
  rw [hd.val]
  exact fileCreate_eq h hd.dir name

/-! ### Creating -/

section Create

variable {name : CString}

theorem vfsMkdir_of_none (h : GroundedTable k.inodeArray) (hd : Cwd k d)
    (hc : created k.inodeArray d name inodeDir = none) :
    ∃ msg, vfsMkdir k name = .ok (k.fail msg) := by
  unfold created at hc
  unfold vfsMkdir
  cases hfree : findFreeInode k.inodeArray with
  | none => exact ⟨_, rfl⟩
  | some idx =>
      simp only [hd.find h, hd.inodeAt, ok_bind]
      rcases Nat.lt_or_ge (k.inodeArray d).numEntries.toNat maxDirEntries with hn | hn
      · rw [if_neg (not_le.2 hn)]
        cases hl : (tree k.inodeArray).lookup d name.bytes with
        | some c => exact ⟨_, rfl⟩
        | none => simp [hfree, hl, not_le.2 hn] at hc
      · rw [if_pos hn]
        exact ⟨_, rfl⟩

/-- **`vfs_mkdir` enters a new directory into the current one and syncs.** -/
theorem vfsMkdir_of_some (h : GroundedTable k.inodeArray) (hd : Cwd k d)
    (hc : created k.inodeArray d name inodeDir = some (idx, t)) :
    vfsMkdir k name =
      .ok ⟨idx, none, { k with inodeArray := t, disk := vfsSync t k.disk }⟩ := by
  have hf := Fresh.of_created hd.dir hc
  obtain ⟨hfree, hn, hl, ht⟩ := created_eq_some_iff.1 hc
  obtain ⟨l, hcopy, hfield⟩ := strncpy_freshName name
  have hnode : freshInode name inodeDir d =
      { Inode.zero with
        name := nameField l
        type := inodeDir
        parentInode := UInt32.ofNat k.currentDir } := by
    rw [hfield, hd.val]
    rfl
  have happend : appendEntry (Function.update k.inodeArray idx (freshInode name inodeDir d))
      k.currentDir idx = .ok t := by
    rw [hd.val, ht]
    exact appendEntry_update hf.ne hn
  rw [hnode] at happend
  simp only [vfsMkdir, hfree, hd.find h, hd.inodeAt, ok_bind, if_neg (not_le.2 hn), hl, hcopy,
    happend]

theorem vfsTouch_of_none (h : GroundedTable k.inodeArray) (hd : Cwd k d)
    (hc : created k.inodeArray d name inodeFile = none) :
    ∃ msg, vfsTouch k name = .ok (k.fail msg) := by
  refine ⟨"Cannot create file\n", ?_⟩
  rw [vfsTouch, hd.fileCreate h, hc]
  rfl

/-- **`vfs_touch` enters a new file into the current directory and syncs.** -/
theorem vfsTouch_of_some (h : GroundedTable k.inodeArray) (hd : Cwd k d)
    (hc : created k.inodeArray d name inodeFile = some (idx, t)) :
    vfsTouch k name =
      .ok ⟨0, none, { k with inodeArray := t, disk := vfsSync t k.disk }⟩ := by
  rw [vfsTouch, hd.fileCreate h, hc]
  rfl

end Create

/-! ### Moving -/

/-- The directory that `vfs_cd` makes the current one: the parent for `..`, the root for `/`, and
otherwise the first entry of that name, if it is a directory. -/
def cdTarget (t : InodeTable) (d : Fin maxInodes) (path : List UInt8) : Option (Fin maxInodes) :=
  if path = dotDot.bytes then some (if d = 0 then 0 else (tree t).parent d)
  else if path = slash.bytes then some 0
  else ((tree t).lookup d path).filter fun c => (t c).type = inodeDir

theorem parentInode_eq_parent (h : GroundedTable t) (hd : (t d).type = inodeDir) :
    (t d).parentInode.toNat = (tree t).parent d :=
  (h.parent_val (by rw [hd]; exact inodeDir_ne_free)).symm

section Cd

variable {path : CString}

/-- **`vfs_cd` moves to its target.** -/
theorem vfsCd_of_some (h : GroundedTable k.inodeArray) (hd : Cwd k d) {c : Fin maxInodes}
    (hc : cdTarget k.inodeArray d path.bytes = some c) :
    vfsCd k path = .ok ⟨0, none, { k with currentDir := c }⟩ := by
  obtain ⟨r, hr, hr0⟩ := strcmp_region path dotDot
  obtain ⟨r', hr', hr0'⟩ := strcmp_region path slash
  rw [vfsCd, hr, ok_bind]
  unfold cdTarget at hc
  by_cases hdot : path.bytes = dotDot.bytes
  · rw [if_pos (hr0.2 hdot)]
    rw [if_pos hdot] at hc
    by_cases hroot : d = 0
    · have hzero : k.currentDir = 0 := by rw [hd.val, hroot]; rfl
      obtain rfl : 0 = c := by simpa [hroot] using hc
      have hstay : { k with currentDir := (0 : Fin maxInodes).val } = k := by
        rw [Fin.val_zero, ← hzero]
      rw [if_neg (not_not.2 hzero), hstay]
    · have hne : k.currentDir ≠ 0 := by
        rw [hd.val]
        exact fun he => hroot (Fin.ext he)
      obtain rfl : (tree k.inodeArray).parent d = c := by simpa [hroot] using hc
      rw [if_pos hne, hd.inodeAt, ok_bind, parentInode_eq_parent h hd.dir]
  · rw [if_neg fun he => hdot (hr0.1 he), hr', ok_bind]
    rw [if_neg hdot] at hc
    by_cases hslash : path.bytes = slash.bytes
    · rw [if_pos hslash] at hc
      obtain rfl : 0 = c := by simpa using hc
      rw [if_pos (hr0'.2 hslash)]
      rfl
    · rw [if_neg hslash] at hc
      obtain ⟨hl, hdir⟩ := Option.filter_eq_some_iff.1 hc
      rw [if_neg fun he => hslash (hr0'.1 he), hd.find h, hl, ok_bind]
      simp only [of_decide_eq_true hdir, ne_eq, not_true_eq_false, if_false]

theorem vfsCd_of_none (h : GroundedTable k.inodeArray) (hd : Cwd k d)
    (hc : cdTarget k.inodeArray d path.bytes = none) :
    ∃ msg, vfsCd k path = .ok (k.fail msg) := by
  obtain ⟨r, hr, hr0⟩ := strcmp_region path dotDot
  obtain ⟨r', hr', hr0'⟩ := strcmp_region path slash
  unfold cdTarget at hc
  by_cases hdot : path.bytes = dotDot.bytes
  · rw [if_pos hdot] at hc
    exact absurd hc (by simp)
  · rw [if_neg hdot] at hc
    by_cases hslash : path.bytes = slash.bytes
    · rw [if_pos hslash] at hc
      exact absurd hc (by simp)
    · rw [if_neg hslash] at hc
      rw [vfsCd, hr, ok_bind, if_neg fun he => hdot (hr0.1 he), hr', ok_bind,
        if_neg fun he => hslash (hr0'.1 he), hd.find h]
      cases hl : (tree k.inodeArray).lookup d path.bytes with
      | none => exact ⟨_, rfl⟩
      | some c =>
          have hndir : (k.inodeArray c).type ≠ inodeDir := by simpa [hl] using hc
          refine ⟨"Not a directory\n", ?_⟩
          simp only [ok_bind, ne_eq, hndir, not_false_eq_true, if_true]

/-- The target of a move is a directory. -/
theorem cdTarget_dir (h : GroundedTable t) (hd : (t d).type = inodeDir) {path : List UInt8}
    {c : Fin maxInodes} (hc : cdTarget t d path = some c) : (t c).type = inodeDir := by
  have hroot := h.root_dir
  unfold cdTarget at hc
  split_ifs at hc with hdot hzero hslash
  · obtain rfl : 0 = c := by simpa using hc
    exact hroot
  · obtain rfl : (tree t).parent d = c := by simpa using hc
    exact h.parent_dir d (by rw [hd]; exact inodeDir_ne_free) hzero
  · obtain rfl : 0 = c := by simpa using hc
    exact hroot
  · exact of_decide_eq_true (Option.filter_eq_some_iff.1 hc).2

end Cd

/-! ### Copying out of files -/

/-- The descriptors after `fd` was opened for an inode, moved to `pos` and closed. -/
def usedFd (fds : FdTable) (fd : Fin maxOpenFiles) (idx : Fin maxInodes) (pos : UInt32) :
    FdTable := Function.update fds fd ⟨false, idx, pos⟩

/-- The copy that `file_read` makes for `size` bytes from the position `pos` on. -/
def fileCopy (t : InodeTable) (idx : Fin maxInodes) (pos size : UInt32) : Copy :=
  ⟨idx, pos, if (t idx).size < pos + size then (t idx).size - pos else size⟩

theorem findFreeFd_of_allClosed {fds : FdTable} (h : AllClosed fds) :
    ∃ fd, findFreeFd fds = some fd := by
  rw [← Option.isSome_iff_exists, Option.isSome_iff_ne_none]
  intro hnone
  have htrue := findFreeFd_eq_none_iff.1 hnone 0
  rw [h 0] at htrue
  exact Bool.noConfusion htrue

theorem AllClosed.usedFd {fds : FdTable} (h : AllClosed fds) (fd : Fin maxOpenFiles)
    (idx : Fin maxInodes) (pos : UInt32) : AllClosed (usedFd fds fd idx pos) := by
  intro i
  rw [Anaga.usedFd, Function.update_apply]
  split_ifs
  · rfl
  · exact h i

section Read

variable {name : CString} {size : UInt32} {fd : Fin maxOpenFiles}

theorem fileOpen_of_file {fds : FdTable} (hfile : (t idx).type = inodeFile)
    (hfd : findFreeFd fds = some fd) :
    fileOpen idx t fds = (some fd, Function.update fds fd ⟨true, idx, 0⟩) := by
  simp only [fileOpen, idx.isLt, dif_pos, Fin.eta, hfile, ne_eq, not_true_eq_false, if_false, hfd]

theorem fileOpen_of_not_file {fds : FdTable} (hfile : (t idx).type ≠ inodeFile) :
    fileOpen idx t fds = (none, fds) := by
  simp only [fileOpen, idx.isLt, dif_pos, Fin.eta, ne_eq, hfile, not_false_eq_true, if_true]

theorem fileOpen_of_free {fds : FdTable} (hfree : (t idx).type = inodeFree) :
    fileOpen idx t fds = (none, fds) :=
  fileOpen_of_not_file (by rw [hfree]; exact inodeFile_ne_free.symm)

/-- A file can be opened exactly if it is one and a descriptor is free. -/
theorem fileOpen_cases (t : InodeTable) (idx : Fin maxInodes) (fds : FdTable) :
    fileOpen idx t fds = (none, fds) ∨
      (t idx).type = inodeFile ∧ ∃ fd, findFreeFd fds = some fd := by
  by_cases hfile : (t idx).type = inodeFile
  · cases hfd : findFreeFd fds with
    | none =>
        left
        simp only [fileOpen, idx.isLt, dif_pos, Fin.eta, hfile, ne_eq, not_true_eq_false, if_false,
          hfd]
    | some fd => exact Or.inr ⟨hfile, fd, rfl⟩
  · exact Or.inl (fileOpen_of_not_file hfile)

/-- Reading through a descriptor that stands at `pos`. -/
theorem fileRead_update (fds : FdTable) (pos : UInt32) :
    fileRead fd size t (Function.update fds fd ⟨true, idx, pos⟩) =
      (some (fileCopy t idx pos size),
        Function.update fds fd ⟨true, idx, pos + (fileCopy t idx pos size).len⟩) := by
  simp only [fileRead, openFd_val, Function.update_self, if_true, fileCopy, Function.update_idem]

theorem fileClose_update (fds : FdTable) (desc : FileDescriptor) :
    fileClose fd (Function.update fds fd desc) =
      usedFd fds fd desc.inodeIndex desc.position := by
  simp only [fileClose_val, Function.update_self, Function.update_idem, usedFd]

/-- **`vfs_read_at` copies what `file_read` makes of the offset.** -/
theorem vfsReadAt_of_find {offset : UInt32}
    (hfind : findInodeInDir k.inodeArray k.currentDir name = .ok (some idx))
    (hfile : (k.inodeArray idx).type = inodeFile) (hfd : findFreeFd k.fdTable = some fd) :
    vfsReadAt k name size offset =
      .ok ⟨asInt (fileCopy k.inodeArray idx offset size).len,
        some (fileCopy k.inodeArray idx offset size),
        { k with
          fdTable := usedFd k.fdTable fd idx
            (offset + (fileCopy k.inodeArray idx offset size).len) }⟩ := by
  have hseek : fileSeek fd offset (Function.update k.fdTable fd ⟨true, idx, 0⟩) =
      (0, Function.update k.fdTable fd ⟨true, idx, offset⟩) := by
    simp only [fileSeek, openFd_val, Function.update_self, if_true, Function.update_idem]
  have hndir : (k.inodeArray idx).type ≠ inodeDir := by rw [hfile]; exact inodeFile_ne_dir
  simp only [vfsReadAt, hfind, ok_bind, if_neg hndir, fileOpen_of_file hfile hfd, hseek,
    fileRead_update, fileClose_update, Option.elim_some]

/-- **`vfs_read` is `vfs_read_at` from the start of the file.** -/
theorem vfsRead_of_find
    (hfind : findInodeInDir k.inodeArray k.currentDir name = .ok (some idx))
    (hfile : (k.inodeArray idx).type = inodeFile) (hfd : findFreeFd k.fdTable = some fd) :
    vfsRead k name size =
      .ok ⟨asInt (fileCopy k.inodeArray idx 0 size).len, some (fileCopy k.inodeArray idx 0 size),
        { k with
          fdTable := usedFd k.fdTable fd idx (0 + (fileCopy k.inodeArray idx 0 size).len) }⟩ := by
  have hndir : (k.inodeArray idx).type ≠ inodeDir := by rw [hfile]; exact inodeFile_ne_dir
  simp only [vfsRead, hfind, ok_bind, if_neg hndir, fileOpen_of_file hfile hfd, fileRead_update,
    fileClose_update, Option.elim_some]

/-- The bytes of a file. -/
def contents (n : Inode) : List UInt8 := (List.ofFn n.data).take n.size.toNat

theorem contents_eq {n : Inode} {l : List UInt8} (hsize : n.size.toNat = l.length)
    (hlen : l.length ≤ maxFileSize)
    (hdata : ∀ i : Fin maxFileSize, i.val < l.length → n.data i = l.getD i 0) :
    contents n = l := by
  have hlength : (contents n).length = l.length := by
    rw [contents, List.length_take, List.length_ofFn, hsize, Nat.min_eq_left hlen]
  refine List.ext_getElem hlength ?_
  intro j h₁ h₂
  simp only [contents, List.getElem_take, List.getElem_ofFn]
  rw [hdata ⟨j, h₂.trans_le hlen⟩ h₂, List.getD_eq_getElem _ _ h₂]

/-- A copy of the whole file. -/
theorem fileCopy_whole (h : (t idx).size.toNat ≤ maxFileSize) :
    fileCopy t idx 0 (UInt32.ofNat maxFileSize) = ⟨idx, 0, (t idx).size⟩ := by
  have h8192 : (UInt32.ofNat maxFileSize).toNat = maxFileSize := rfl
  rw [fileCopy, UInt32.zero_add, UInt32.sub_zero]
  split_ifs with hlt
  · rfl
  · rw [UInt32.lt_iff_toNat_lt, h8192] at hlt
    have hsize : (t idx).size = UInt32.ofNat maxFileSize :=
      UInt32.toNat_inj.1 (by rw [h8192]; exact le_antisymm h (not_lt.1 hlt))
    rw [hsize]

/-- **`vfs_read` of a whole file returns its size and its bytes.** -/
theorem vfsRead_whole
    (hfind : findInodeInDir k.inodeArray k.currentDir name = .ok (some idx))
    (hfile : (k.inodeArray idx).type = inodeFile) (hfd : findFreeFd k.fdTable = some fd)
    (hsize : (k.inodeArray idx).size.toNat ≤ maxFileSize) :
    ∃ r, vfsRead k name (UInt32.ofNat maxFileSize) = .ok r ∧
      r.ret = ((k.inodeArray idx).size.toNat : ℤ) ∧ r.buffer = contents (k.inodeArray idx) := by
  refine ⟨_, vfsRead_of_find hfind hfile hfd, ?_, ?_⟩
  · rw [fileCopy_whole hsize]
    exact asInt_of_lt (lt_of_le_of_lt hsize (by decide))
  · rw [fileCopy_whole hsize]
    exact Kernel.buffer_start _ hsize

/-- The copy that `vfs_cat` makes is printed up to its first NUL. -/
theorem vfsCat_of_find
    (hfind : findInodeInDir k.inodeArray k.currentDir name = .ok (some idx))
    (hfile : (k.inodeArray idx).type = inodeFile) (hfd : findFreeFd k.fdTable = some fd) :
    ∃ printed, vfsCat k name =
      .ok ⟨0, some (fileCopy k.inodeArray idx 0 (UInt32.ofNat maxFileSize)),
        ({ k with
          fdTable := usedFd k.fdTable fd idx
            (0 + (fileCopy k.inodeArray idx 0 (UInt32.ofNat maxFileSize)).len) } :
          Kernel).puts printed⟩ := by
  have hndir : (k.inodeArray idx).type ≠ inodeDir := by rw [hfile]; exact inodeFile_ne_dir
  have hprint : ∀ l : List UInt8, kprint (l ++ [0]) = .ok (cstr (l ++ [0])) := fun l =>
    kprint_of_zero_mem (by simp)
  rw [vfsCat, hfind, ok_bind]
  simp only [if_neg hndir, fileOpen_of_file hfile hfd, fileRead_update, fileClose_update, hprint,
    ok_bind]
  by_cases hpos : 0 < asInt (fileCopy k.inodeArray idx 0 (UInt32.ofNat maxFileSize)).len
  · rw [if_pos hpos]
    exact ⟨_, rfl⟩
  · refine ⟨[], ?_⟩
    rw [if_neg hpos]
    simp only [Kernel.puts, List.append_nil]

end Read

section ReadAny

variable (h : GroundedTable k.inodeArray) (hd : Cwd k d) (hclosed : AllClosed k.fdTable)
  (name : CString)

include h hd hclosed

/-- A lookup in the current directory finds nothing, a directory, an inode that is free, or a file
that can be opened. -/
theorem find_cases :
    findInodeInDir k.inodeArray k.currentDir name = .ok none ∨
      (∃ idx, findInodeInDir k.inodeArray k.currentDir name = .ok (some idx) ∧
        (k.inodeArray idx).type = inodeDir) ∨
      (∃ idx, findInodeInDir k.inodeArray k.currentDir name = .ok (some idx) ∧
        (k.inodeArray idx).type = inodeFree) ∨
      ∃ idx fd, findInodeInDir k.inodeArray k.currentDir name = .ok (some idx) ∧
        (k.inodeArray idx).type = inodeFile ∧ findFreeFd k.fdTable = some fd := by
  obtain ⟨fd, hfd⟩ := findFreeFd_of_allClosed hclosed
  rw [hd.find h]
  cases hl : (tree k.inodeArray).lookup d name.bytes with
  | none => exact Or.inl rfl
  | some idx =>
      rcases h.type_cases idx with htype | htype | htype
      · exact Or.inr (Or.inr (Or.inl ⟨idx, rfl, htype⟩))
      · exact Or.inr (Or.inr (Or.inr ⟨idx, fd, rfl, htype, hfd⟩))
      · exact Or.inr (Or.inl ⟨idx, rfl, htype⟩)

theorem vfsReadAt_keeps (size offset : UInt32) :
    ∃ r, vfsReadAt k name size offset = .ok r ∧ Keeps k r.kernel := by
  rcases find_cases h hd hclosed name with
    hf | ⟨idx, hf, hdir⟩ | ⟨idx, hf, hfree⟩ | ⟨idx, fd, hf, hfile, hfd⟩
  · refine ⟨⟨-1, none, k⟩, ?_, Keeps.refl k⟩
    rw [vfsReadAt, hf, ok_bind]
  · refine ⟨⟨-1, none, k⟩, ?_, Keeps.refl k⟩
    simp only [vfsReadAt, hf, ok_bind, if_pos hdir]
  · refine ⟨⟨-1, none, k⟩, ?_, Keeps.refl k⟩
    simp only [vfsReadAt, hf, ok_bind, hfree, if_neg inodeDir_ne_free.symm,
      fileOpen_of_free hfree]
  · exact ⟨_, vfsReadAt_of_find hf hfile hfd, rfl, rfl, rfl, fun hc => hc.usedFd fd idx _⟩

theorem vfsRead_keeps (size : UInt32) :
    ∃ r, vfsRead k name size = .ok r ∧ Keeps k r.kernel := by
  rcases find_cases h hd hclosed name with
    hf | ⟨idx, hf, hdir⟩ | ⟨idx, hf, hfree⟩ | ⟨idx, fd, hf, hfile, hfd⟩
  · refine ⟨⟨-1, none, k⟩, ?_, Keeps.refl k⟩
    rw [vfsRead, hf, ok_bind]
  · refine ⟨⟨-1, none, k⟩, ?_, Keeps.refl k⟩
    simp only [vfsRead, hf, ok_bind, if_pos hdir]
  · refine ⟨⟨-1, none, k⟩, ?_, Keeps.refl k⟩
    simp only [vfsRead, hf, ok_bind, hfree, if_neg inodeDir_ne_free.symm, fileOpen_of_free hfree]
  · exact ⟨_, vfsRead_of_find hf hfile hfd, rfl, rfl, rfl, fun hc => hc.usedFd fd idx _⟩

theorem vfsCat_keeps : ∃ r, vfsCat k name = .ok r ∧ Keeps k r.kernel := by
  rcases find_cases h hd hclosed name with
    hf | ⟨idx, hf, hdir⟩ | ⟨idx, hf, hfree⟩ | ⟨idx, fd, hf, hfile, hfd⟩
  · refine ⟨k.fail "File not found\n", ?_, (Keeps.refl k).puts _⟩
    rw [vfsCat, hf, ok_bind]
  · refine ⟨k.fail "Is a directory\n", ?_, (Keeps.refl k).puts _⟩
    simp only [vfsCat, hf, ok_bind, if_pos hdir]
  · refine ⟨k.fail "Cannot open\n", ?_, (Keeps.refl k).puts _⟩
    simp only [vfsCat, hf, ok_bind, hfree, if_neg inodeDir_ne_free.symm, fileOpen_of_free hfree]
  · obtain ⟨printed, hcat⟩ := vfsCat_of_find hf hfile hfd
    exact ⟨_, hcat, rfl, rfl, rfl, fun hc => hc.usedFd fd idx _⟩

end ReadAny

/-! ### Printing the tree -/

theorem lsLoop_ok (hterm : ∀ i, 0 ∈ (t i).nameRegion) {slots : List UInt32} {n : ℕ}
    (hn : n ≤ slots.length) (hslots : ∀ e ∈ slots.take n, e.toNat < maxInodes) :
    ∃ printed, lsLoop t slots n = .ok printed := by
  induction slots generalizing n with
  | nil =>
      obtain rfl : n = 0 := by simpa using hn
      exact ⟨[], rfl⟩
  | cons e slots ih =>
      cases n with
      | zero => exact ⟨[], rfl⟩
      | succ n =>
          have he : e.toNat < maxInodes := hslots e (by simp)
          obtain ⟨rest, hrest⟩ := ih (n := n) (by simpa using hn)
            fun x hx => hslots x (by rw [List.take_succ_cons]; exact List.mem_cons_of_mem e hx)
          refine ⟨cstr (t ⟨e.toNat, he⟩).nameRegion ++ utf8 "\n" ++ rest, ?_⟩
          rw [lsLoop, inodeAt_of_lt t he, ok_bind, kprint_of_zero_mem (hterm _), ok_bind, hrest,
            ok_bind]

theorem vfsLs_eq (h : GroundedTable k.inodeArray) (hd : Cwd k d) :
    ∃ printed, vfsLs k = .ok ⟨0, none, k.puts printed⟩ := by
  have hle : (k.inodeArray d).numEntries.toNat ≤ (List.ofFn (k.inodeArray d).dirEntries).length :=
    by rw [List.length_ofFn]; exact h.numEntries_le d hd.dir
  obtain ⟨printed, hloop⟩ := lsLoop_ok h.terminated hle (h.slots_lt d hd.dir)
  rw [vfsLs, hd.inodeAt, ok_bind]
  split_ifs
  · exact ⟨_, rfl⟩
  · exact ⟨printed, by rw [hloop, ok_bind]⟩

/-- The climb of `vfs_pwd` succeeds if it meets the root while there is room. -/
theorem pwdLoop_ok (h : GroundedTable t) {n room : ℕ} {c : Fin maxInodes}
    (hc : (t c).type ≠ inodeFree) (hn : (tree t).parent^[n] c = 0) (hroom : n < room) :
    ∃ path, pwdLoop t room c = .ok path := by
  induction n generalizing c room with
  | zero =>
      obtain ⟨room, rfl⟩ : ∃ m, room = m + 1 := ⟨room - 1, by omega⟩
      obtain rfl : c = 0 := hn
      exact ⟨[0], rfl⟩
  | succ n ih =>
      obtain ⟨room, rfl⟩ : ∃ m, room = m + 1 := ⟨room - 1, by omega⟩
      rw [pwdLoop]
      by_cases hzero : c.val = 0
      · rw [if_pos hzero]
        exact ⟨[0], rfl⟩
      · have hne : c ≠ 0 := fun e => hzero (by rw [e]; rfl)
        have hpar : (t ((tree t).parent c)).type ≠ inodeFree := by
          rw [h.parent_dir c hc hne]
          exact inodeDir_ne_free
        obtain ⟨path, hpath⟩ : ∃ path, pwdLoop t room ((tree t).parent c) = .ok path :=
          ih hpar hn (by omega)
        refine ⟨c :: path, ?_⟩
        rw [if_neg hzero, dif_pos c.isLt]
        simp only [Fin.eta, ← h.parent_val hc, hpath, map_ok]

theorem pwdPrint_ok (hterm : ∀ i, 0 ∈ (t i).nameRegion) (path : List (Fin maxInodes)) :
    ∃ printed, pwdPrint t path = .ok printed := by
  induction path with
  | nil => exact ⟨[], rfl⟩
  | cons i path ih =>
      obtain ⟨more, hmore⟩ := ih
      refine ⟨utf8 "/" ++ cstr (t i).nameRegion ++ more, ?_⟩
      rw [pwdPrint, kprint_of_zero_mem (hterm i), ok_bind, hmore, ok_bind]

theorem vfsPwd_eq (h : GroundedTable k.inodeArray) (hd : Cwd k d) :
    ∃ printed, vfsPwd k = .ok ⟨0, none, k.puts printed⟩ := by
  have hused : (k.inodeArray d).type ≠ inodeFree := by rw [hd.dir]; exact inodeDir_ne_free
  obtain ⟨n, hn, hroot⟩ := exists_iterate_lt_card _ (h.grounded d hused)
  rw [Fintype.card_fin] at hn
  obtain ⟨path, hpath⟩ := pwdLoop_ok h hused hroot hn
  obtain ⟨printed, hprint⟩ := pwdPrint_ok h.terminated path.reverse
  refine ⟨printed, ?_⟩
  rw [vfsPwd, hd.val, hpath, ok_bind, hprint, ok_bind]

/-! ### Writing a file -/

/-- The bytes of the content that fit into a file. -/
def fitting (content : CString) : ℕ := min content.bytes.length maxFileSize

/-- The file after the content was written at its start: the rest of its data stays, and its size
only grows. -/
def written (n : Inode) (content : CString) : Inode :=
  { n with
    data := fun i => if i.val < content.bytes.length then content.bytes.getD i 0 else n.data i
    size := if n.size < UInt32.ofNat (fitting content) then UInt32.ofNat (fitting content)
      else n.size }

/-- The file that `vfs_write_file` writes, and the table that holds it: the file of that name, or
else a new one. -/
def writeTarget (t : InodeTable) (d : Fin maxInodes) (name : CString) :
    Option (Fin maxInodes × InodeTable) :=
  match (tree t).lookup d name.bytes with
  | some idx => if (t idx).type = inodeFile then some (idx, t) else none
  | none => created t d name inodeFile

theorem fitting_toNat (content : CString) :
    (UInt32.ofNat (fitting content)).toNat = fitting content := by
  rw [UInt32.toNat_ofNat', Nat.mod_eq_of_lt]
  simp only [fitting, maxFileSize]
  omega

/-- The size of a file after a write is the larger one of the old size and what was written. -/
theorem written_size (n : Inode) (content : CString) :
    (written n content).size.toNat = max n.size.toNat (fitting content) := by
  unfold written
  dsimp only
  split_ifs with hlt
  · rw [UInt32.lt_iff_toNat_lt, fitting_toNat] at hlt
    rw [fitting_toNat, Nat.max_eq_right hlt.le]
  · rw [UInt32.lt_iff_toNat_lt, fitting_toNat] at hlt
    rw [Nat.max_eq_left (not_lt.1 hlt)]

/-- Writing through a descriptor that was just opened. -/
theorem fileWrite_update (fds : FdTable) (fd : Fin maxOpenFiles) (content : CString) :
    fileWrite fd (fun i => content.region.getD i 0) (UInt32.ofNat content.bytes.length) t
        (Function.update fds fd ⟨true, idx, 0⟩) =
      .ok (some (UInt32.ofNat (fitting content)),
        Function.update t idx (written (t idx) content),
        Function.update fds fd ⟨true, idx, UInt32.ofNat (fitting content)⟩) := by
  have hlen := content.length_lt
  have hbytes : (if UInt32.ofNat maxFileSize < UInt32.ofNat content.bytes.length then
      UInt32.ofNat maxFileSize - 0 else UInt32.ofNat content.bytes.length) =
      UInt32.ofNat (fitting content) := by
    have h8192 : (UInt32.ofNat maxFileSize).toNat = 8192 := rfl
    have hnat : (UInt32.ofNat content.bytes.length).toNat = content.bytes.length := by
      rw [UInt32.toNat_ofNat', Nat.mod_eq_of_lt (by omega)]
    rw [UInt32.sub_zero]
    split_ifs with hlt
    · rw [UInt32.lt_iff_toNat_lt, h8192, hnat] at hlt
      rw [fitting, Nat.min_eq_right (by simp only [maxFileSize]; omega)]
    · rw [UInt32.lt_iff_toNat_lt, h8192, hnat] at hlt
      rw [fitting, Nat.min_eq_left (by simp only [maxFileSize]; omega)]
  have hfit : fitting content ≤ maxFileSize := Nat.min_le_right _ _
  have hdata : ∀ i : Fin maxFileSize,
      (if (0 : UInt32).toNat ≤ i.val ∧ i.val < (0 : UInt32).toNat + fitting content then
        content.region.getD (i.val - (0 : UInt32).toNat) 0 else (t idx).data i) =
      if i.val < content.bytes.length then content.bytes.getD i 0 else (t idx).data i := by
    intro i
    have hi : i.val < maxFileSize := i.isLt
    have hzero : (0 : UInt32).toNat = 0 := rfl
    rw [hzero, Nat.zero_add, Nat.sub_zero]
    by_cases hin : i.val < content.bytes.length
    · rw [if_pos ⟨Nat.zero_le _, lt_min hin hi⟩, if_pos hin, CString.region,
        List.getD_append _ _ _ _ hin]
    · rw [if_neg fun hc => hin (hc.2.trans_le (Nat.min_le_left _ _)), if_neg hin]
  have hbound : UInt32.ofNat (fitting content) = 0 ∨
      (0 : UInt32).toNat + fitting content ≤ maxFileSize :=
    Or.inr ((Nat.zero_add _).trans_le hfit)
  simp only [fileWrite, openFd_val, Function.update_self, if_true, UInt32.zero_add, hbytes,
    fitting_toNat, if_pos hbound, hdata, Function.update_idem]
  rfl

section Write

variable {name : CString} (content : CString)

/-- A write that has no file to write to fails and changes nothing. -/
theorem vfsWriteFile_of_none (h : GroundedTable k.inodeArray) (hd : Cwd k d)
    (hc : writeTarget k.inodeArray d name = none) :
    ∃ msg, vfsWriteFile k name content = .ok (k.fail msg) := by
  unfold writeTarget at hc
  rw [vfsWriteFile, hd.find h, ok_bind]
  cases hl : (tree k.inodeArray).lookup d name.bytes with
  | none =>
      rw [hl] at hc
      refine ⟨"Cannot create\n", ?_⟩
      simp only [hd.fileCreate h, hc, Option.elim_none, ok_bind]
  | some idx =>
      have hfile : (k.inodeArray idx).type ≠ inodeFile := by simpa [hl] using hc
      refine ⟨"Cannot open\n", ?_⟩
      simp only [ok_bind, fileOpen_of_not_file hfile]

/-- The target of a write is the file of that name, or a new one. -/
theorem writeTarget_eq_some_iff {t' : InodeTable} :
    writeTarget t d name = some (idx, t') ↔
      ((tree t).lookup d name.bytes = some idx ∧ (t idx).type = inodeFile ∧ t' = t) ∨
        ((tree t).lookup d name.bytes = none ∧ created t d name inodeFile = some (idx, t')) := by
  unfold writeTarget
  cases hl : (tree t).lookup d name.bytes with
  | none => simp
  | some i =>
      simp only [Option.some.injEq, reduceCtorEq, false_and, or_false]
      constructor
      · intro hc
        split_ifs at hc with hfile
        obtain ⟨rfl, rfl⟩ : i = idx ∧ t = t' := by simpa using hc
        exact ⟨rfl, hfile, rfl⟩
      · rintro ⟨rfl, hfile, rfl⟩
        rw [if_pos hfile]

/-- The target of a write is a file of its table. -/
theorem writeTarget_file {t₀ : InodeTable} (hd : (t₀ d).type = inodeDir)
    (hc : writeTarget t₀ d name = some (idx, t)) : (t idx).type = inodeFile := by
  rcases writeTarget_eq_some_iff.1 hc with ⟨-, hfile, rfl⟩ | ⟨-, hcr⟩
  · exact hfile
  · rw [(Fresh.of_created hd hcr).new, freshInode]

variable {fd : Fin maxOpenFiles} (h : GroundedTable k.inodeArray) (hd : Cwd k d)
  (hfd : findFreeFd k.fdTable = some fd)
  (hc : writeTarget k.inodeArray d name = some (idx, t))

include h hd hfd hc

/-- What `vfs_write_file` does with its target, in one formula. -/
theorem vfsWriteFile_of_some :
    vfsWriteFile k name content =
      let t' := Function.update t idx (written (t idx) content)
      let k' := { k with
        inodeArray := t'
        fdTable := usedFd k.fdTable fd idx (UInt32.ofNat (fitting content)) }
      if maxFileSize < content.bytes.length then .ok (k'.fail "Write incomplete\n")
      else .ok ⟨0, none, { k' with disk := vfsSync t' k.disk }⟩ := by
  have hfile := writeTarget_file hd.dir hc
  have hopen := fileOpen_of_file (t := t) hfile hfd
  have hlen : strlen content.region = .ok content.bytes.length := strlen_append_zero content.noNul
  have hret : (some (UInt32.ofNat (fitting content))).elim (-1) asInt = (fitting content : ℤ) := by
    have hle : fitting content ≤ 8192 := Nat.min_le_right _ _
    have hnat := fitting_toNat content
    rw [Option.elim_some, asInt_of_lt (by omega), hnat]
  have hshort : ((fitting content : ℤ) < (content.bytes.length : ℤ)) ↔
      maxFileSize < content.bytes.length := by
    simp only [fitting, maxFileSize]
    omega
  rw [vfsWriteFile, hd.find h, ok_bind]
  rcases writeTarget_eq_some_iff.1 hc with ⟨hl, -, rfl⟩ | ⟨hl, hcr⟩
  · simp only [hl, ok_bind, hopen, hlen, fileWrite_update, hret, hshort, fileClose_update]
  · -- the file was created, and the descriptor refers to the new table
    simp only [hl, hd.fileCreate h, hcr, Option.elim_some, ok_bind, hopen, hlen,
      fileWrite_update, hret, hshort, fileClose_update]

end Write

end Anaga
