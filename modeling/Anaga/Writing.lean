/-
**Writing a file, and failing to.**

`vfs_write_file` opens a file at its start and writes over what is there.  It does not shorten the
file, so what a read then returns is the content only if the file was not longer before; and it
finds out that the content does not fit only after it has created the file and written the part
that fits.  This module says exactly when it does what its callers expect of it, and that the other
calls that can fail do so without a trace.

Main definitions:

* `Anaga.Addressed`, `Anaga.RoundTrip` — a name that can be written to, and the expectation that
  a read returns what was written;
* `Anaga.Unchanged`, `Anaga.Atomic`, `Anaga.CutShort` — the expectation that a failed call changes
  nothing, and the writes that are cut short with a trace.

Main results:

* `Anaga.vfsRead_afterWrite` — what a read returns after a write;
* `Anaga.roundTrip_iff` — **a write is read back exactly when the file was not longer before**;
* `Anaga.atomic_iff` — **a failed call changes nothing, unless it is a write that is cut short**.
-/

import Mathlib.Tactic.NormNum
import Anaga.Persistence

set_option relaxedAutoImplicit false
set_option autoImplicit false

namespace Anaga

open Transition

variable {k : Kernel} {d idx : Fin maxInodes} {t : InodeTable} {name content : CString}

/-! ### Reading back what was written -/

/-- The name resolves to a file, or it does not resolve and fits into an inode. -/
def Addressed (k : Kernel) (name : CString) : Prop :=
  (∃ idx, findInodeInDir k.inodeArray k.currentDir name = .ok (some idx) ∧
      (k.inodeArray idx).type = inodeFile) ∨
    (findInodeInDir k.inodeArray k.currentDir name = .ok none ∧
      name.bytes.length ≤ maxFilename - 1)

/-- The write returns, and if it succeeds, the following read of the whole file returns the content,
and no other inode has changed its size or data. -/
def RoundTrip (k : Kernel) (name content : CString) : Prop :=
  ∃ r, vfsWriteFile k name content = .ok r ∧ (r.ret = 0 →
    (∃ r', vfsRead r.kernel name (UInt32.ofNat maxFileSize) = .ok r' ∧
      r'.ret = (content.bytes.length : ℤ) ∧ r'.buffer = content.bytes) ∧
    ∃ idx, findInodeInDir r.kernel.inodeArray r.kernel.currentDir name = .ok (some idx) ∧
      ∀ i, i ≠ idx → (r.kernel.inodeArray i).size = (k.inodeArray i).size ∧
        (r.kernel.inodeArray i).data = (k.inodeArray i).data)

/-- The name leads to the file that was written, provided that it was not cut. -/
theorem lookup_writeTarget (h : SoundTable k.inodeArray) (hd : (k.inodeArray d).type = inodeDir)
    (hc : writeTarget k.inodeArray d name = some (idx, t))
    (hlen : (tree k.inodeArray).lookup d name.bytes = none → name.bytes.length ≤ 31) :
    (tree t).lookup d name.bytes = some idx := by
  rcases writeTarget_eq_some_iff.1 hc with ⟨hl, -, rfl⟩ | ⟨hl, hcr⟩
  · exact hl
  · have hf := Fresh.of_created hd hcr
    rw [hf.tree_eq (Or.inl rfl), NamedTree.lookup_addChild_of_none h.wellFormed (by simpa using hd)
      (by simpa using hf.free) hl, List.take_of_length_le (hlen hl), if_pos rfl]

/-- The state after a write finds the file where it was. -/
theorem find_afterWrite (h : Invariant k) (hd : Cwd k d)
    (hc : writeTarget k.inodeArray d name = some (idx, t))
    (hlen : (tree k.inodeArray).lookup d name.bytes = none → name.bytes.length ≤ 31)
    (fd : Fin maxOpenFiles) (content : CString) :
    findInodeInDir (k.afterWrite t idx fd content).inodeArray k.currentDir name =
      .ok (some idx) := by
  obtain ⟨hsound, hcwd, -⟩ := h.of_written hd hc fd content
  have hfind := hcwd.find hsound.groundedTable name
  rwa [afterWrite_inodeArray, afterWrite_currentDir, tree_write,
    lookup_writeTarget h.sound hd.dir hc hlen] at hfind

/-- **A read after a write returns the file as the write left it**, on whatever disk. -/
theorem vfsRead_afterWrite (h : Invariant k) (hd : Cwd k d)
    (hc : writeTarget k.inodeArray d name = some (idx, t))
    (hlen : (tree k.inodeArray).lookup d name.bytes = none → name.bytes.length ≤ 31)
    (fd : Fin maxOpenFiles) (content : CString) (disk : Disk) :
    ∃ r, vfsRead { k.afterWrite t idx fd content with disk := disk } name
          (UInt32.ofNat maxFileSize) = .ok r ∧
      r.ret = ((written (t idx) content).size.toNat : ℤ) ∧
      r.buffer = contents (written (t idx) content) := by
  obtain ⟨hsound, -, hclosed⟩ := h.of_written hd hc fd content
  have hfind := find_afterWrite h hd hc hlen fd content
  have hfile : (writeTable t idx content idx).type = inodeFile := by
    rw [(write_old t idx content idx).2.1]
    exact writeTarget_file hd.dir hc
  obtain ⟨fd', hfd'⟩ := findFreeFd_of_allClosed hclosed
  have hread := vfsRead_whole (k := { k.afterWrite t idx fd content with disk := disk })
    hfind hfile hfd' (hsound.file idx hfile).2
  simpa only [afterWrite_inodeArray, writeTable_self] using hread

/-- A file that was not longer than the content holds the content after the write. -/
theorem contents_written {n : Inode} (hold : n.size.toNat ≤ content.bytes.length)
    (hfit : content.bytes.length ≤ maxFileSize) :
    (written n content).size.toNat = content.bytes.length ∧
      contents (written n content) = content.bytes := by
  have hsize : (written n content).size.toNat = content.bytes.length := by
    rw [written_size, fitting, Nat.min_eq_left hfit, Nat.max_eq_right hold]
  refine ⟨hsize, contents_eq hsize hfit ?_⟩
  intro i hi
  exact if_pos hi

/-- The size of the file that a write goes to is that of the file of the name, or zero. -/
theorem writeTarget_size_le (h : SoundTable k.inodeArray) (hd : Cwd k d)
    (hc : writeTarget k.inodeArray d name = some (idx, t)) {n : ℕ} :
    (∀ i, findInodeInDir k.inodeArray k.currentDir name = .ok (some i) →
      (k.inodeArray i).size.toNat ≤ n) ↔ (t idx).size.toNat ≤ n := by
  rw [hd.find h]
  rcases writeTarget_eq_some_iff.1 hc with ⟨hl, -, rfl⟩ | ⟨hl, hcr⟩
  · rw [hl]
    constructor
    · intro hall
      exact hall idx rfl
    · intro hn i hi
      obtain rfl : idx = i := by simpa using hi
      exact hn
  · rw [hl, (Fresh.of_created hd.dir hcr).new]
    constructor
    · intro _
      exact Nat.zero_le n
    · intro _ i hi
      cases hi

/-- Writing changes the size and the data of no other inode. -/
theorem writeTable_other (hd : (k.inodeArray d).type = inodeDir)
    (hc : writeTarget k.inodeArray d name = some (idx, t)) {i : Fin maxInodes} (hi : i ≠ idx) :
    (writeTable t idx content i).size = (k.inodeArray i).size ∧
      (writeTable t idx content i).data = (k.inodeArray i).data := by
  rw [writeTable_of_ne _ _ _ hi]
  rcases writeTarget_eq_some_iff.1 hc with ⟨-, -, rfl⟩ | ⟨-, hcr⟩
  · exact ⟨rfl, rfl⟩
  · rw [(Fresh.of_created hd hcr).table]
    exact ⟨(linkInode_old hi).2.2.1, (linkInode_old hi).2.2.2.2⟩

/-- A write that succeeds is read back exactly when its target was not longer before. -/
theorem roundTrip_of_writeTarget (h : Invariant k) (hd : Cwd k d)
    (hc : writeTarget k.inodeArray d name = some (idx, t))
    (hlen : (tree k.inodeArray).lookup d name.bytes = none → name.bytes.length ≤ 31)
    (hfit : content.bytes.length ≤ maxFileSize) :
    RoundTrip k name content ↔ (t idx).size.toNat ≤ content.bytes.length := by
  obtain ⟨fd, hfd⟩ := findFreeFd_of_allClosed h.closed
  have hwrite := vfsWriteFile_of_le h.sound hd hfd hc hfit
  obtain ⟨r', hr', hret, hbuf⟩ := vfsRead_afterWrite h hd hc hlen fd content
    (vfsSync (writeTable t idx content) k.disk)
  constructor
  · rintro ⟨r, hr, hround⟩
    obtain rfl := Except.ok.inj (hwrite.symm.trans hr)
    obtain ⟨⟨r'', hr'', hret', -⟩, -⟩ := hround rfl
    obtain rfl : r' = r'' := Except.ok.inj (hr'.symm.trans hr'')
    -- the size that the read returned is at least the old one
    rw [hret, written_size] at hret'
    omega
  · intro hold
    obtain ⟨hsize, hcontents⟩ := contents_written hold hfit
    refine ⟨_, hwrite, fun _ => ⟨⟨r', hr', ?_, ?_⟩, idx,
      find_afterWrite h hd hc hlen fd content, ?_⟩⟩
    · rw [hret, hsize]
    · rw [hbuf, hcontents]
    · intro i hi
      exact writeTable_other hd.dir hc hi

/-- A write without a target does not succeed. -/
theorem roundTrip_of_none (h : Invariant k) (hd : Cwd k d)
    (hc : writeTarget k.inodeArray d name = none) : RoundTrip k name content := by
  obtain ⟨msg, hfail⟩ := vfsWriteFile_of_none content h.sound hd hc
  refine ⟨_, hfail, ?_⟩
  intro hr0
  cases hr0

/-- Neither does one whose content does not fit. -/
theorem roundTrip_of_lt (h : Invariant k) (hd : Cwd k d)
    (hc : writeTarget k.inodeArray d name = some (idx, t))
    (hlen : maxFileSize < content.bytes.length) : RoundTrip k name content := by
  obtain ⟨fd, hfd⟩ := findFreeFd_of_allClosed h.closed
  refine ⟨_, vfsWriteFile_of_lt h.sound hd hfd hc hlen, ?_⟩
  intro hr0
  cases hr0

/-- **A write is read back exactly when the file was not longer than the content before.** -/
theorem roundTrip_iff (hk : Reachable k) (ha : Addressed k name) (content : CString) :
    RoundTrip k name content ↔
      ∀ idx, findInodeInDir k.inodeArray k.currentDir name = .ok (some idx) →
        (k.inodeArray idx).size.toNat ≤ content.bytes.length := by
  have h := hk.invariant
  obtain ⟨d, hd⟩ := h.cwd
  have hlen : (tree k.inodeArray).lookup d name.bytes = none → name.bytes.length ≤ 31 := by
    intro hl
    rcases ha with ⟨idx, hfind, -⟩ | ⟨-, hlen⟩
    · rw [hd.find h.sound, hl] at hfind
      cases hfind
    · exact hlen
  cases hc : writeTarget k.inodeArray d name with
  | none =>
      refine ⟨fun _ idx hfind => ?_, fun _ => roundTrip_of_none h hd hc⟩
      -- nothing of that name is there: a file would be a target
      rcases ha with ⟨idx', hfind', hfile⟩ | ⟨hnone, -⟩
      · rw [hd.find h.sound] at hfind'
        have hsome : writeTarget k.inodeArray d name = some (idx', k.inodeArray) :=
          writeTarget_eq_some_iff.2 (Or.inl ⟨Except.ok.inj hfind', hfile, rfl⟩)
        rw [hc] at hsome
        cases hsome
      · rw [hnone] at hfind
        cases hfind
  | some p =>
      obtain ⟨idx, t⟩ := p
      rw [writeTarget_size_le h.sound hd hc]
      rcases Nat.lt_or_ge maxFileSize content.bytes.length with hlt | hfit
      · -- no file is longer than what fits
        have hsize : (t idx).size.toNat ≤ maxFileSize := by
          obtain ⟨hsound, -⟩ := h.sound.of_writeTarget hd.dir hc
          exact (hsound.file idx (writeTarget_file hd.dir hc)).2
        exact ⟨fun _ => hsize.trans hlt.le, fun _ => roundTrip_of_lt h hd hc hlt⟩
      · exact roundTrip_of_writeTarget h hd hc hlen hfit

/-- A file of two bytes is overwritten, and the content is read back. -/
theorem roundTrip_installed : RoundTrip (bootWith [1, 2]) nameA dotDot := by
  have hfind := find_bootWith [1, 2] nameA
  rw [if_pos rfl] at hfind
  have hone := bootWith_one [1, 2]
  have hfile : ((bootWith [1, 2]).inodeArray 1).type = inodeFile := by
    rw [hone]
    rfl
  refine (roundTrip_iff (Reachable.bootWith [1, 2]) (Or.inl ⟨1, hfind, hfile⟩) _).2 ?_
  intro idx hidx
  obtain rfl : 1 = idx := Option.some.inj (Except.ok.inj (hfind.symm.trans hidx))
  rw [hone, (contents_fileInode "a" [1, 2]).1]
  decide

/-- The file `a` is written with the content `..`, and then with `/`: the read returns two bytes,
the second of which is left over. -/
theorem not_roundTrip_shorter :
    ∃ k, run Op.step (boot (fun _ _ => 0) ⟨0, fun _ => 0⟩) [.writeFile nameA dotDot] = .ok k ∧
      Addressed k nameA ∧ ¬ RoundTrip k nameA slash := by
  have hboot := Reachable.boot_zero ⟨0, fun _ => 0⟩
  have h := hboot.invariant
  have hd := cwd_boot_zero ⟨0, fun _ => 0⟩
  have hc := writeTarget_boot_zero ⟨0, fun _ => 0⟩ nameA
  obtain ⟨fd, hfd⟩ := findFreeFd_of_allClosed h.closed
  have hstep : (Op.writeFile nameA dotDot).step (boot (fun _ _ => 0) ⟨0, fun _ => 0⟩) = .ok _ :=
    Op.step_of_exec (vfsWriteFile_of_le h.sound hd hfd hc (by decide))
  obtain ⟨-, hcwd, -⟩ := h.of_written hd hc fd dotDot
  -- the name now leads to inode 1, which holds two bytes
  have hfile : (writeTable (linkInode emptyTable 0 1 (freshInode nameA inodeFile 0)) 1 dotDot
      1).type = inodeFile := by
    rw [(write_old _ _ _ _).2.1]
    exact writeTarget_file hd.dir hc
  have hlookup : (tree (writeTable (linkInode emptyTable 0 1 (freshInode nameA inodeFile 0)) 1
      dotDot)).lookup 0 nameA.bytes = some 1 := by
    rw [tree_write]
    exact lookup_writeTarget h.sound hd.dir hc fun _ => by decide
  refine ⟨_, (run_singleton _ _).trans hstep,
    Or.inl ⟨1, find_afterWrite h hd hc (fun _ => by decide) fd dotDot, hfile⟩, ?_⟩
  rw [roundTrip_of_writeTarget (hboot.step hstep).invariant ⟨hcwd.val, hcwd.dir⟩
    (writeTarget_eq_some_iff.2 (Or.inl ⟨hlookup, hfile, rfl⟩)) (fun _ => by decide) (by decide)]
  change ¬ (writeTable _ 1 dotDot 1).size.toNat ≤ 1
  rw [writeTable_self, written_size, linkInode_new (by decide)]
  decide

/-! ### Failing without a trace -/

/-- Nothing that a failed call must not touch has changed. -/
structure Unchanged (k k' : Kernel) : Prop where
  inodeArray : k'.inodeArray = k.inodeArray
  disk : k'.disk = k.disk
  currentDir : k'.currentDir = k.currentDir
  inUse : ∀ fd, (k'.fdTable fd).inUse = (k.fdTable fd).inUse

/-- The calls that change the tree, a file or the current directory. -/
def Op.Changes : Op → Prop
  | .mkdir _ => True
  | .touch _ => True
  | .writeFile _ _ => True
  | .cd _ => True
  | _ => False

/-- The call returns, and if it fails, it has changed nothing. -/
def Atomic (k : Kernel) (o : Op) : Prop :=
  ∃ r, o.exec k = .ok r ∧ (r.ret = -1 → Unchanged k r.kernel)

/-- The call is a write of more bytes than fit into a file, and there is a trace that it can leave:
a new file can be created, or the name resolves to a file other than the one that holds just the
bytes that fit. -/
def CutShort (k : Kernel) : Op → Prop
  | .writeFile name content => maxFileSize < content.bytes.length ∧
      (k.Creatable name ∨
        ∃ idx, findInodeInDir k.inodeArray k.currentDir name = .ok (some idx) ∧
          (k.inodeArray idx).type = inodeFile ∧
          ¬ ((k.inodeArray idx).size = UInt32.ofNat maxFileSize ∧
            contents (k.inodeArray idx) = content.bytes.take maxFileSize))
  | _ => False

/-- A write of more bytes than fit leaves a full file with the bytes that fit. -/
theorem written_eq_self_iff {n : Inode} (hn : n.size.toNat ≤ maxFileSize)
    (hlen : maxFileSize < content.bytes.length) :
    written n content = n ↔
      n.size = UInt32.ofNat maxFileSize ∧ contents n = content.bytes.take maxFileSize := by
  have hfit : fitting content = maxFileSize := Nat.min_eq_right hlen.le
  have hnat : (UInt32.ofNat maxFileSize).toNat = maxFileSize := rfl
  have hdata : (written n content).data = fun i : Fin maxFileSize => content.bytes.getD i 0 := by
    funext i
    exact if_pos (i.isLt.trans hlen)
  have hsize : (written n content).size = UInt32.ofNat maxFileSize := by
    apply UInt32.toNat_inj.1
    rw [written_size, hfit, Nat.max_eq_right hn, hnat]
  have htake : (content.bytes.take maxFileSize).length = maxFileSize := by
    rw [List.length_take, Nat.min_eq_left hlen.le]
  constructor
  · intro heq
    rw [← heq]
    refine ⟨hsize, contents_eq (by rw [hsize, htake, hnat]) htake.le ?_⟩
    intro i _
    rw [hdata]
    simp only [List.getD_eq_getElem?_getD, List.getElem?_take_of_lt i.isLt]
  · rintro ⟨hsz, hcont⟩
    have hd : n.data = fun i : Fin maxFileSize => content.bytes.getD i 0 := by
      funext i
      have hi : (contents n)[i.val]? = some (n.data i) := by
        rw [contents, hsz, hnat, List.getElem?_take_of_lt i.isLt, List.getElem?_ofFn,
          dif_pos i.isLt]
      rw [hcont, List.getElem?_take_of_lt i.isLt] at hi
      rw [List.getD_eq_getElem?_getD, hi, Option.getD_some]
    calc written n content = { n with
          data := (written n content).data
          size := (written n content).size } := rfl
      _ = n := by rw [hdata, hsize, ← hd, ← hsz]

/-- A write that was cut short has left no trace exactly if its file was already full of the bytes
that fit. -/
theorem unchanged_afterWrite_iff (h : Invariant k) (hd : Cwd k d)
    (hc : writeTarget k.inodeArray d name = some (idx, t)) (fd : Fin maxOpenFiles)
    (hlen : maxFileSize < content.bytes.length) (msg : List UInt8) :
    Unchanged k ((k.afterWrite t idx fd content).puts msg) ↔
      ¬ CutShort k (.writeFile name content) := by
  have hclosed := h.closed.usedFd fd idx (UInt32.ofNat (fitting content))
  have hiff : Unchanged k ((k.afterWrite t idx fd content).puts msg) ↔
      writeTable t idx content = k.inodeArray := by
    constructor
    · intro hu
      exact hu.inodeArray
    · intro ht
      refine ⟨ht, rfl, rfl, ?_⟩
      intro i
      rw [h.closed i]
      exact hclosed i
  rw [hiff]
  rcases writeTarget_eq_some_iff.1 hc with ⟨hl, hfile, rfl⟩ | ⟨hl, hcr⟩
  · -- the file was there
    have hfind : findInodeInDir k.inodeArray k.currentDir name = .ok (some idx) := by
      rw [hd.find h.sound, hl]
    have hself := written_eq_self_iff (h.sound.file idx hfile).2 hlen
    rw [writeTable, Function.update_eq_self_iff, hself]
    constructor
    · rintro hfull ⟨-, hcr | ⟨idx', hfind', -, hnot⟩⟩
      · exact not_creatable_of_find hfind hcr
      · obtain rfl : idx = idx' := by simpa [hfind] using hfind'
        exact hnot hfull
    · intro hnot
      by_contra hfull
      exact hnot ⟨hlen, Or.inr ⟨idx, hfind, hfile, hfull⟩⟩
  · -- the file is new, and is still there
    have hf := Fresh.of_created hd.dir hcr
    have hcre := hd.creatable h.sound hcr
    constructor
    · intro heq
      have htype := congrArg Inode.type (congrFun heq idx)
      rw [(write_old t idx content idx).2.1, writeTarget_file hd.dir hc, hf.free] at htype
      exact absurd htype inodeFile_ne_free
    · intro hnot
      exact absurd ⟨hlen, Or.inl hcre⟩ hnot

/-- A write without anything to write to is not cut short. -/
theorem not_cutShort_of_none (h : Invariant k) (hd : Cwd k d) {o : Op}
    (hnone : ∀ name content, o = .writeFile name content →
      writeTarget k.inodeArray d name = none) : ¬ CutShort k o := by
  intro hcut
  cases o with
  | writeFile name content =>
      have hc := hnone name content rfl
      rcases hcut with ⟨-, hcr | ⟨idx, hfind, hfile, -⟩⟩
      · exact not_creatable_of_writeTarget h.sound hd hc hcr
      · rw [hd.find h.sound] at hfind
        have hsome : writeTarget k.inodeArray d name = some (idx, k.inodeArray) :=
          writeTarget_eq_some_iff.2 (Or.inl ⟨Except.ok.inj hfind, hfile, rfl⟩)
        rw [hc] at hsome
        cases hsome
  | _ => exact hcut

/-- **A failed call changes nothing, unless it is a write that is cut short.** -/
theorem atomic_iff (hk : Reachable k) {o : Op} (ho : o.Changes) :
    Atomic k o ↔ ¬ CutShort k o := by
  have h := hk.invariant
  obtain ⟨d, hd⟩ := h.cwd
  obtain ⟨r, hr, hout⟩ := exec_outcome h.sound hd h.closed o
  have hone : Atomic k o ↔ (r.ret = -1 → Unchanged k r.kernel) := by
    constructor
    · rintro ⟨r', hr', hu⟩
      obtain rfl : r = r' := Except.ok.inj (hr.symm.trans hr')
      exact hu
    · intro hu
      exact ⟨r, hr, hu⟩
  rw [hone]
  have hsuccess : ∀ n : ℕ, (n : ℤ) ≠ -1 := by
    intro n hn
    omega
  cases hout with
  | fail msg hnone hwrite =>
      have hsame : Unchanged k (k.fail msg).kernel := ⟨rfl, rfl, rfl, fun _ => rfl⟩
      exact ⟨fun _ => not_cutShort_of_none h hd hwrite, fun _ _ => hsame⟩
  | mkdir hc => exact ⟨fun _ => id, fun _ hret => absurd hret (hsuccess _)⟩
  | touch hc => exact ⟨fun _ => id, fun _ hret => absurd hret (hsuccess 0)⟩
  | write fd hc hlen =>
      exact ⟨fun _ hcut => not_lt.2 hlen hcut.1, fun _ hret => absurd hret (hsuccess 0)⟩
  | cut fd hc hlen =>
      have hiff := unchanged_afterWrite_iff h hd hc fd hlen (utf8 "Write incomplete\n")
      exact ⟨fun hu => hiff.1 (hu rfl), fun hnot _ => hiff.2 hnot⟩
  | cd hc => exact ⟨fun _ => id, fun _ hret => absurd hret (hsuccess 0)⟩
  | keeps hreads hk =>
      cases o with
      | mkdir name => exact hreads.elim
      | touch name => exact hreads.elim
      | writeFile name content => exact hreads.elim
      | cd path => exact hreads.elim
      | _ => exact ho.elim
  | init => exact ho.elim

/-- A directory cannot be made under the name of a file, and nothing changes. -/
theorem atomic_installed :
    ∃ r, vfsMkdir (bootWith [1, 2]) nameA = .ok r ∧ r.ret = -1 ∧
      Unchanged (bootWith [1, 2]) r.kernel := by
  have hk := Reachable.bootWith [1, 2]
  have hchanges : (Op.mkdir nameA).Changes := trivial
  have hnone : created (bootWith [1, 2]).inodeArray 0 nameA inodeDir = none := by
    rw [Option.eq_none_iff_forall_ne_some]
    rintro ⟨idx, t⟩ hc
    obtain ⟨-, -, hlookup, -⟩ := created_eq_some_iff.1 hc
    rw [lookup_bootWith, if_pos rfl] at hlookup
    cases hlookup
  obtain ⟨msg, hfail⟩ := vfsMkdir_of_none hk.invariant.sound (cwd_bootWith [1, 2]) hnone
  obtain ⟨r, hr, hu⟩ := (atomic_iff hk hchanges).2 fun hcut => hcut
  obtain rfl := Except.ok.inj (hfail.symm.trans hr)
  exact ⟨_, hfail, rfl, hu rfl⟩

/-- A content of one byte more than fits into a file. -/
def tooLong : CString where
  bytes := List.replicate 8193 120
  noNul := by
    rw [List.mem_replicate]
    decide
  length_lt := by
    rw [List.length_replicate]
    norm_num

theorem maxFileSize_lt_tooLong : maxFileSize < tooLong.bytes.length := by
  rw [tooLong, List.length_replicate]
  decide

/-- The write of a content that is too long to a new file `a` fails, but the file is there. -/
theorem not_atomic_tooLong :
    ¬ Atomic (boot (fun _ _ => 0) ⟨0, fun _ => 0⟩) (.writeFile nameA tooLong) := by
  have h := (Reachable.boot_zero ⟨0, fun _ => 0⟩).invariant
  have hd := cwd_boot_zero ⟨0, fun _ => 0⟩
  have hc := writeTarget_boot_zero ⟨0, fun _ => 0⟩ nameA
  have hcreatable := creatable_boot_zero ⟨0, fun _ => 0⟩ nameA
  obtain ⟨fd, hfd⟩ := findFreeFd_of_allClosed h.closed
  have hcut := vfsWriteFile_of_lt h.sound hd hfd hc maxFileSize_lt_tooLong
  rintro ⟨r, hr, hu⟩
  obtain rfl := Except.ok.inj (hcut.symm.trans hr)
  exact (unchanged_afterWrite_iff h hd hc fd maxFileSize_lt_tooLong _).1 (hu rfl)
    ⟨maxFileSize_lt_tooLong, Or.inl hcreatable⟩

end Anaga
