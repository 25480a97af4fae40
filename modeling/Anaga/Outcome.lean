/-
**What a call can do.**

The descriptions of the single functions are gathered in one case distinction: from a state with a
grounded table, a current directory and no open descriptor, a call has one of a handful of outcomes,
each with the conditions under which it comes about.  The theorems about steps and runs are case
analyses over these outcomes, and do not look at the functions again.

Main definitions:

* `Anaga.Op.newName` — the name under which a call may create an inode;
* `Anaga.Kernel.Creatable` — an inode of this name can be created in the current directory;
* `Anaga.Outcome` — the outcomes of the calls.

Main results:

* `Anaga.exec_outcome` — **every call has one of these outcomes**.
-/

import Anaga.VfsSpec

set_option relaxedAutoImplicit false
set_option autoImplicit false

namespace Anaga

open Transition

/-- The name under which a call may create an inode. -/
def Op.newName : Op → Option CString
  | .mkdir name => some name
  | .touch name => some name
  | .writeFile name _ => some name
  | _ => none

/-- The calls that only copy or print something. -/
def Op.Reads : Op → Prop
  | .ls => True
  | .pwd => True
  | .cat _ => True
  | .read _ _ => True
  | .readAt _ _ _ => True
  | _ => False

theorem Op.Reads.newName {o : Op} (h : o.Reads) : o.newName = none := by
  cases o with
  | mkdir name => exact h.elim
  | touch name => exact h.elim
  | writeFile name content => exact h.elim
  | _ => rfl

/-- An inode of this name can be created in the current directory: some inode is free, the
directory has room, and the name is not found in it. -/
def Kernel.Creatable (k : Kernel) (name : CString) : Prop :=
  (∃ i, (k.inodeArray i).type = inodeFree) ∧
    (∃ d : Fin maxInodes, k.currentDir = d ∧ (k.inodeArray d).numEntries.toNat < maxDirEntries) ∧
    findInodeInDir k.inodeArray k.currentDir name = .ok none

variable {k : Kernel} {d : Fin maxInodes}

theorem Cwd.creatable_iff (hd : Cwd k d) (h : GroundedTable k.inodeArray) (name : CString) :
    k.Creatable name ↔ Creatable k.inodeArray d name := by
  rw [Kernel.Creatable, Anaga.Creatable, hd.find h]
  have hroom : (∃ d' : Fin maxInodes, k.currentDir = d' ∧
      (k.inodeArray d').numEntries.toNat < maxDirEntries) ↔
      (k.inodeArray d).numEntries.toNat < maxDirEntries := by
    constructor
    · rintro ⟨d', hd', hn⟩
      obtain rfl : d = d' := Fin.ext (hd.val.symm.trans hd')
      exact hn
    · intro hn
      exact ⟨d, hd.val, hn⟩
  rw [hroom, Except.ok.injEq]

theorem Cwd.creatable (hd : Cwd k d) (h : GroundedTable k.inodeArray) {name : CString} {type : UInt32}
    {p : Fin maxInodes × InodeTable} (hc : created k.inodeArray d name type = some p) :
    k.Creatable name := by
  have hsome : (created k.inodeArray d name type).isSome := by
    rw [hc]
    rfl
  exact (hd.creatable_iff h name).2 (created_isSome_iff.1 hsome)

theorem Cwd.not_creatable (hd : Cwd k d) (h : GroundedTable k.inodeArray) {name : CString}
    {type : UInt32} (hc : created k.inodeArray d name type = none) : ¬ k.Creatable name := by
  rw [hd.creatable_iff h]
  exact created_eq_none_iff.1 hc

/-- What is found cannot be created. -/
theorem not_creatable_of_find {name : CString} {idx : Fin maxInodes}
    (hfind : findInodeInDir k.inodeArray k.currentDir name = .ok (some idx)) :
    ¬ k.Creatable name := by
  rintro ⟨-, -, hnone⟩
  rw [hfind] at hnone
  cases hnone

theorem Op.step_of_exec {o : Op} {r : Result} (h : o.exec k = .ok r) :
    o.step k = .ok r.kernel := by
  rw [Op.step, h, map_ok]

/-! ### The outcomes -/

/-- The table after the content was written into the file `idx`. -/
def writeTable (t : InodeTable) (idx : Fin maxInodes) (content : CString) : InodeTable :=
  Function.update t idx (written (t idx) content)

/-- The state after the content was written into the file `idx` of the table `t`, through the
descriptor `fd`. -/
def Kernel.afterWrite (k : Kernel) (t : InodeTable) (idx : Fin maxInodes) (fd : Fin maxOpenFiles)
    (content : CString) : Kernel :=
  { k with
    inodeArray := writeTable t idx content
    fdTable := usedFd k.fdTable fd idx (UInt32.ofNat (fitting content)) }

section AfterWrite

variable (k : Kernel) (t : InodeTable) (idx : Fin maxInodes) (fd : Fin maxOpenFiles)
  (content : CString)

@[simp] theorem afterWrite_inodeArray :
    (k.afterWrite t idx fd content).inodeArray = writeTable t idx content := rfl

@[simp] theorem afterWrite_currentDir :
    (k.afterWrite t idx fd content).currentDir = k.currentDir := rfl

@[simp] theorem afterWrite_disk : (k.afterWrite t idx fd content).disk = k.disk := rfl

theorem writeTable_self : writeTable t idx content idx = written (t idx) content :=
  Function.update_self ..

theorem writeTable_of_ne {i : Fin maxInodes} (hi : i ≠ idx) : writeTable t idx content i = t i :=
  Function.update_of_ne hi ..

end AfterWrite

/-- **Writing a content that fits.** -/
theorem vfsWriteFile_of_le {fd : Fin maxOpenFiles} {idx : Fin maxInodes} {t : InodeTable}
    {name content : CString} (h : GroundedTable k.inodeArray) (hd : Cwd k d)
    (hfd : findFreeFd k.fdTable = some fd)
    (hc : writeTarget k.inodeArray d name = some (idx, t))
    (hlen : content.bytes.length ≤ maxFileSize) :
    vfsWriteFile k name content =
      .ok ⟨0, none, { k.afterWrite t idx fd content with
        disk := vfsSync (writeTable t idx content) k.disk }⟩ := by
  rw [vfsWriteFile_of_some content h hd hfd hc]
  exact if_neg (not_lt.2 hlen)

/-- **Writing a content that does not fit.** -/
theorem vfsWriteFile_of_lt {fd : Fin maxOpenFiles} {idx : Fin maxInodes} {t : InodeTable}
    {name content : CString} (h : GroundedTable k.inodeArray) (hd : Cwd k d)
    (hfd : findFreeFd k.fdTable = some fd)
    (hc : writeTarget k.inodeArray d name = some (idx, t))
    (hlen : maxFileSize < content.bytes.length) :
    vfsWriteFile k name content =
      .ok ((k.afterWrite t idx fd content).fail "Write incomplete\n") := by
  rw [vfsWriteFile_of_some content h hd hfd hc]
  exact if_pos hlen

/-- **The outcomes of a call** in a state whose current directory is `d`. -/
inductive Outcome (k : Kernel) (d : Fin maxInodes) : Op → Result → Prop
  /-- It fails, and prints a message.  No inode of its name could have been created, and if it is a
  write, there is nothing to write to. -/
  | fail {o : Op} (msg : String) (hnone : ∀ name, o.newName = some name → ¬ k.Creatable name)
      (hwrite : ∀ name content, o = .writeFile name content →
        writeTarget k.inodeArray d name = none) :
      Outcome k d o (k.fail msg)
  /-- It creates a directory, and syncs. -/
  | mkdir {name : CString} {idx : Fin maxInodes} {t : InodeTable}
      (hc : created k.inodeArray d name inodeDir = some (idx, t)) :
      Outcome k d (.mkdir name)
        ⟨idx, none, { k with inodeArray := t, disk := vfsSync t k.disk }⟩
  /-- It creates a file, and syncs. -/
  | touch {name : CString} {idx : Fin maxInodes} {t : InodeTable}
      (hc : created k.inodeArray d name inodeFile = some (idx, t)) :
      Outcome k d (.touch name)
        ⟨0, none, { k with inodeArray := t, disk := vfsSync t k.disk }⟩
  /-- It writes a file, and syncs. -/
  | write {name content : CString} {idx : Fin maxInodes} {t : InodeTable} (fd : Fin maxOpenFiles)
      (hc : writeTarget k.inodeArray d name = some (idx, t))
      (hlen : content.bytes.length ≤ maxFileSize) :
      Outcome k d (.writeFile name content)
        ⟨0, none, { k.afterWrite t idx fd content with
          disk := vfsSync (writeTable t idx content) k.disk }⟩
  /-- It writes as much of the content as fits into the file, and fails without a sync. -/
  | cut {name content : CString} {idx : Fin maxInodes} {t : InodeTable} (fd : Fin maxOpenFiles)
      (hc : writeTarget k.inodeArray d name = some (idx, t))
      (hlen : maxFileSize < content.bytes.length) :
      Outcome k d (.writeFile name content)
        ((k.afterWrite t idx fd content).fail "Write incomplete\n")
  /-- It moves. -/
  | cd {path : CString} {c : Fin maxInodes}
      (hc : cdTarget k.inodeArray d path.bytes = some c) :
      Outcome k d (.cd path) ⟨0, none, { k with currentDir := c }⟩
  /-- It copies or prints something. -/
  | keeps {o : Op} {r : Result} (ho : o.Reads) (hk : Keeps k r.kernel) : Outcome k d o r
  /-- It starts the file system again. -/
  | init : Outcome k d .init ⟨0, none, vfsInit k⟩

section Exec

variable (h : GroundedTable k.inodeArray) (hd : Cwd k d) (hclosed : AllClosed k.fdTable)

include h hd

theorem vfsMkdir_outcome (name : CString) :
    ∃ r, vfsMkdir k name = .ok r ∧ Outcome k d (.mkdir name) r := by
  cases hc : created k.inodeArray d name inodeDir with
  | none =>
      obtain ⟨msg, hr⟩ := vfsMkdir_of_none h hd hc
      refine ⟨_, hr, Outcome.fail msg ?_ fun _ _ ho => by cases ho⟩
      intro name' hname'
      obtain rfl : name = name' := by simpa [Op.newName] using hname'
      exact hd.not_creatable h hc
  | some p => exact ⟨_, vfsMkdir_of_some h hd hc, Outcome.mkdir hc⟩

theorem vfsTouch_outcome (name : CString) :
    ∃ r, vfsTouch k name = .ok r ∧ Outcome k d (.touch name) r := by
  cases hc : created k.inodeArray d name inodeFile with
  | none =>
      obtain ⟨msg, hr⟩ := vfsTouch_of_none h hd hc
      refine ⟨_, hr, Outcome.fail msg ?_ fun _ _ ho => by cases ho⟩
      intro name' hname'
      obtain rfl : name = name' := by simpa [Op.newName] using hname'
      exact hd.not_creatable h hc
  | some p => exact ⟨_, vfsTouch_of_some h hd hc, Outcome.touch hc⟩

theorem vfsCd_outcome (path : CString) :
    ∃ r, vfsCd k path = .ok r ∧ Outcome k d (.cd path) r := by
  cases hc : cdTarget k.inodeArray d path.bytes with
  | none =>
      obtain ⟨msg, hr⟩ := vfsCd_of_none h hd hc
      exact ⟨_, hr, Outcome.fail msg (fun name hname => by simp [Op.newName] at hname)
        fun _ _ ho => by cases ho⟩
  | some c => exact ⟨_, vfsCd_of_some h hd hc, Outcome.cd hc⟩

/-- Nothing can be created under a name for which there is nothing to write to. -/
theorem not_creatable_of_writeTarget {name : CString}
    (hc : writeTarget k.inodeArray d name = none) : ¬ k.Creatable name := by
  unfold writeTarget at hc
  cases hl : (tree k.inodeArray).lookup d name.bytes with
  | none =>
      rw [hl] at hc
      exact hd.not_creatable h hc
  | some i =>
      have hfind : findInodeInDir k.inodeArray k.currentDir name = .ok (some i) := by
        rw [hd.find h, hl]
      exact not_creatable_of_find hfind

include hclosed

theorem vfsWriteFile_outcome (name content : CString) :
    ∃ r, vfsWriteFile k name content = .ok r ∧ Outcome k d (.writeFile name content) r := by
  cases hc : writeTarget k.inodeArray d name with
  | none =>
      obtain ⟨msg, hr⟩ := vfsWriteFile_of_none content h hd hc
      refine ⟨_, hr, Outcome.fail msg ?_ ?_⟩
      · intro name' hname'
        obtain rfl : name = name' := by simpa [Op.newName] using hname'
        exact not_creatable_of_writeTarget h hd hc
      · intro name' content' ho
        obtain ⟨rfl, -⟩ : name = name' ∧ content = content' := by simpa using ho
        exact hc
  | some p =>
      obtain ⟨idx, t⟩ := p
      obtain ⟨fd, hfd⟩ := findFreeFd_of_allClosed hclosed
      rcases Nat.lt_or_ge maxFileSize content.bytes.length with hlen | hlen
      · exact ⟨_, vfsWriteFile_of_lt h hd hfd hc hlen, Outcome.cut fd hc hlen⟩
      · exact ⟨_, vfsWriteFile_of_le h hd hfd hc hlen, Outcome.write fd hc hlen⟩

/-- **Every call succeeds with one of the outcomes.** -/
theorem exec_outcome (o : Op) : ∃ r, o.exec k = .ok r ∧ Outcome k d o r := by
  have hkeep : ∀ x : Except Fault Result, o.Reads →
      (∃ r, x = .ok r ∧ Keeps k r.kernel) → ∃ r, x = .ok r ∧ Outcome k d o r := by
    rintro x ho ⟨r, hr, hk⟩
    exact ⟨r, hr, Outcome.keeps ho hk⟩
  cases o with
  | mkdir name => exact vfsMkdir_outcome h hd name
  | touch name => exact vfsTouch_outcome h hd name
  | writeFile name content => exact vfsWriteFile_outcome h hd hclosed name content
  | cd path => exact vfsCd_outcome h hd path
  | ls =>
      obtain ⟨printed, hls⟩ := vfsLs_eq h hd
      exact hkeep _ trivial ⟨_, hls, (Keeps.refl k).puts printed⟩
  | pwd =>
      obtain ⟨printed, hpwd⟩ := vfsPwd_eq h hd
      exact hkeep _ trivial ⟨_, hpwd, (Keeps.refl k).puts printed⟩
  | cat name => exact hkeep _ trivial (vfsCat_keeps h hd hclosed name)
  | read name size => exact hkeep _ trivial (vfsRead_keeps h hd hclosed name size)
  | readAt name size offset => exact hkeep _ trivial (vfsReadAt_keeps h hd hclosed name size offset)
  | init => exact ⟨_, rfl, Outcome.init⟩

/-- A result of a call is one of the outcomes. -/
theorem outcome_of_exec {o : Op} {r : Result} (hr : o.exec k = .ok r) : Outcome k d o r := by
  obtain ⟨r', hr', hout⟩ := exec_outcome h hd hclosed o
  obtain rfl : r' = r := by simpa [hr'] using hr
  exact hout

end Exec

end Anaga
