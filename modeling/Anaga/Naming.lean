/-
**Names: stored, looked up and interpreted.**

The constructors store the first 31 bytes of a name, the lookup compares the whole name, and
`vfs_cd` gives two names a meaning of their own before it looks anything up.  This module says
exactly when the three agree: when the names in a directory stay different, and when what was
created is found again under its name.

Main definitions:

* `Anaga.DistinctNames` — no two entries of a directory have the same name under `strcmp`;
* `Anaga.CString.stored` — the name as a constructor stores it;
* `Anaga.FreshName` — a call creates nothing under a stored name that is already in use;
* `Anaga.MkdirAddressable`, `Anaga.TouchAddressable` — what is created is found again.

Main results:

* `Anaga.SoundTable.distinctNames_iff` — different names, in the table and in the tree;
* `Anaga.distinctNames_iff_along` — **the names stay different along a run exactly when every
  step meets that condition**;
* `Anaga.addressable_iff` — **what is created is found again exactly when its name is stored whole
  and is neither `..` nor `/`**.
-/

import Anaga.Growth
import Anaga.Persistence
import Anaga.TreeInvariant

set_option relaxedAutoImplicit false
set_option autoImplicit false

namespace Anaga

open Transition

/-! ### Different names -/

/-- No two entries of a directory have the same name under `strcmp`. -/
def DistinctNames (t : InodeTable) : Prop :=
  ∀ d, (t d).type = inodeDir → ∀ s s' : Fin maxDirEntries,
    s.val < (t d).numEntries.toNat → s'.val < (t d).numEntries.toNat → s ≠ s' →
      ∀ c c' : Fin maxInodes, ((t d).dirEntries s).toNat = c → ((t d).dirEntries s').toNat = c' →
        strcmp (t c).nameRegion (t c').nameRegion ≠ .ok 0

section Table

variable {t : InodeTable} {d : Fin maxInodes}

/-- The children of a directory are the inodes in its slots, in order. -/
theorem SoundTable.children_getElem? (h : SoundTable t) (hd : (t d).type = inodeDir)
    {s : Fin maxDirEntries} (hs : s.val < (t d).numEntries.toNat) (c : Fin maxInodes) :
    ((tree t).children d)[s.val]? = some c ↔ ((t d).dirEntries s).toNat = c := by
  have hget : (usedSlots (t d))[s.val]? = some ((t d).dirEntries s) := by
    rw [usedSlots, List.getElem?_take_of_lt hs, List.getElem?_ofFn, dif_pos s.isLt]
  rw [h.usedSlots_eq hd, List.getElem?_map, Option.map_eq_some_iff] at hget
  obtain ⟨c', hc', he⟩ := hget
  rw [hc', ← he, toNat_ofNat_index, Option.some.injEq, Fin.ext_iff]

theorem SoundTable.children_length (h : SoundTable t) (hd : (t d).type = inodeDir) :
    ((tree t).children d).length = (t d).numEntries.toNat := by
  have hlen := congrArg List.length (h.usedSlots_eq hd)
  have hle := h.numEntries_le d hd
  rw [List.length_map, usedSlots, List.length_take, List.length_ofFn, Nat.min_eq_left hle] at hlen
  exact hlen.symm

/-- Two inodes have the same name under `strcmp` if they have the same name in the tree. -/
theorem SoundTable.strcmp_eq_iff (h : SoundTable t) (c c' : Fin maxInodes) :
    strcmp (t c).nameRegion (t c').nameRegion = .ok 0 ↔ (tree t).name c = (tree t).name c' := by
  obtain ⟨r, hr, hr0⟩ := strcmp_of_zero_mem (h.terminated c) (h.terminated c')
  rw [hr, Except.ok.injEq, hr0]
  rfl

/-- **The names in the table are different exactly if those in the tree are.** -/
theorem SoundTable.distinctNames_iff (h : SoundTable t) :
    DistinctNames t ↔ (tree t).Distinct := by
  constructor
  · intro hdist d hd
    have hdir : (t d).type = inodeDir := by simpa using hd
    have hlen := h.children_length hdir
    have hle := h.numEntries_le d hdir
    rw [List.nodup_iff_pairwise_ne, List.pairwise_map, List.pairwise_iff_getElem]
    intro i j hi hj hij hname
    -- the positions in the list of children are slots
    have hsi : i < maxDirEntries := by omega
    have hsj : j < maxDirEntries := by omega
    have hci := (h.children_getElem? hdir (s := ⟨i, hsi⟩) (by simp only; omega) _).1
      (List.getElem?_eq_getElem hi)
    have hcj := (h.children_getElem? hdir (s := ⟨j, hsj⟩) (by simp only; omega) _).1
      (List.getElem?_eq_getElem hj)
    have hne : (⟨i, hsi⟩ : Fin maxDirEntries) ≠ ⟨j, hsj⟩ := by
      intro he
      have := congrArg Fin.val he
      simp only at this
      omega
    exact hdist d hdir _ _ (by simp only; omega) (by simp only; omega) hne _ _ hci hcj
      ((h.strcmp_eq_iff _ _).2 hname)
  · intro hdist d hd s s' hs hs' hne c c' hc hc' hcmp
    have hnd := hdist d (by simpa using hd)
    have hname := (h.strcmp_eq_iff c c').1 hcmp
    have hget := (h.children_getElem? hd hs c).2 hc
    have hget' := (h.children_getElem? hd hs' c').2 hc'
    refine hne (Fin.ext ((List.getElem?_inj ?_ hnd).1 ?_))
    · rw [List.length_map, h.children_length hd]
      exact hs
    · rw [List.getElem?_map, List.getElem?_map, hget, hget', Option.map_some, Option.map_some,
        hname]

end Table

/-! ### Names that stay different -/

/-- The name as a constructor stores it: its first 31 bytes. -/
def CString.stored (name : CString) : CString where
  bytes := name.bytes.take 31
  noNul := fun h => name.noNul (List.mem_of_mem_take h)
  length_lt := lt_of_le_of_lt (List.length_take_le' _ _) name.length_lt

/-- If the call creates an inode, no entry of the current directory has the name under which it
stores it. -/
def FreshName (k : Kernel) (o : Op) : Prop :=
  ∀ name, o.newName = some name → k.Creatable name →
    findInodeInDir k.inodeArray k.currentDir name.stored = .ok none

section Step

variable {k : Kernel} {o : Op} {r : Result}

/-- If the names are different after a call, they were so before. -/
theorem Invariant.distinct_of_exec (h : Invariant k) (ho : o ≠ .init) (hr : o.exec k = .ok r)
    (hr' : (tree r.kernel.inodeArray).Distinct) : (tree k.inodeArray).Distinct := by
  obtain ⟨d, hd⟩ := h.cwd
  cases h.treeStep hd ho hr with
  | same hnone htree => rwa [htree] at hr'
  | grow name idx κ hname hc hfree hκ htree =>
      rw [htree] at hr'
      exact hr'.of_addChild h.sound.wellFormed (by simpa using hd.dir) hfree

/-- **A call keeps the names different exactly if it meets the condition.** -/
theorem Invariant.freshName_iff (h : Invariant k) (ho : o ≠ .init) (hr : o.exec k = .ok r)
    (hk : (tree k.inodeArray).Distinct) :
    FreshName k o ↔ (tree r.kernel.inodeArray).Distinct := by
  obtain ⟨d, hd⟩ := h.cwd
  cases h.treeStep hd ho hr with
  | same hnone htree =>
      rw [htree]
      exact ⟨fun _ => hk, fun _ name hname hc => absurd hc (hnone name hname)⟩
  | grow name idx κ hname hc hfree hκ htree =>
      have hfresh : FreshName k o ↔
          findInodeInDir k.inodeArray k.currentDir name.stored = .ok none := by
        constructor
        · intro hf
          exact hf name hname hc
        · intro hf name' hname' _
          obtain rfl : name = name' := by simpa [hname] using hname'
          exact hf
      rw [hfresh, htree, NamedTree.distinct_addChild_iff h.sound.wellFormed
        (by simpa using hd.dir) hfree hk, hd.find h.sound, Except.ok.injEq,
        NamedTree.lookup_eq_none_iff]
      rfl

/-- What runs keep up: the disk never has a name twice that memory has not. -/
def Tracked (k : Kernel) : Prop :=
  Invariant k ∧ ((tree k.inodeArray).Distinct → (tree (diskTable k.disk)).Distinct)

theorem Tracked.step (h : Tracked k) (o : Op) : ∃ k', o.step k = .ok k' ∧ Tracked k' := by
  obtain ⟨hinv, hdisk⟩ := h
  obtain ⟨r, hr, hr'⟩ := hinv.exec o
  refine ⟨r.kernel, Op.step_of_exec hr, hr', ?_⟩
  intro hdist
  rcases hinv.exec_disk hr with hsame | htable
  · rw [hsame]
    rcases eq_or_ne o .init with rfl | ho
    · -- a reboot has read its table from that disk
      have htable := diskTable_vfsInit k
      cases hr
      rw [← hsame, htable]
      exact hdist
    · exact hdisk (hinv.distinct_of_exec ho hr hdist)
  · rw [htable]
    exact hdist

/-- A reboot keeps the names different, since those on disk are. -/
theorem Tracked.freshName_iff (h : Tracked k) (hk : DistinctNames k.inodeArray) {k' : Kernel}
    (ho : o.step k = .ok k') : FreshName k o ↔ DistinctNames k'.inodeArray := by
  obtain ⟨hinv, hdisk⟩ := h
  obtain ⟨r, hr, hr'⟩ := hinv.exec o
  obtain rfl : r.kernel = k' := Except.ok.inj ((Op.step_of_exec hr).symm.trans ho)
  rw [hinv.sound.distinctNames_iff] at hk
  rw [hr'.sound.distinctNames_iff]
  rcases eq_or_ne o .init with rfl | hne
  · have hroot : (diskTable k.disk 0).type = inodeDir := by
      simpa using hinv.stored.wellFormed.root_dir
    have htable : r.kernel.inodeArray = diskTable k.disk := by
      cases hr
      rw [vfsInit_of_dir hroot]
    rw [htable]
    exact ⟨fun _ => hdisk hk, fun _ name hname => by simp [Op.newName] at hname⟩
  · exact hinv.freshName_iff hne hr hk

end Step

/-- On a formatted disk no two names are the same: there is at most one. -/
theorem Formatted.distinct {disk : Disk} (h : Formatted disk) (memory : Memory) :
    (tree (boot disk memory).inodeArray).Distinct := by
  have hempty : (tree emptyTable).Distinct := by
    intro d _
    have hchildren : (tree emptyTable).children d = [] := by
      rcases eq_or_ne d 0 with rfl | hd
      · decide
      · change (usedSlots (emptyTable d)).filterMap toIndex = []
        rw [emptyTable_of_ne hd]
        rfl
    rw [hchildren]
    exact List.nodup_nil
  rcases h.diskTable_eq with hzero | ⟨vfsPath, content, htable⟩
  · have hroot : (diskTable (powerOn disk memory).disk 0).type ≠ inodeDir := by
      change (diskTable disk 0).type ≠ inodeDir
      rw [hzero]
      exact inodeDir_ne_free.symm
    have htab : (boot disk memory).inodeArray = emptyTable := by
      rw [boot, vfsInit_of_not_dir hroot]
      change Function.update (diskTable disk) 0 emptyRoot = emptyTable
      rw [hzero]
      rfl
    rw [htab]
    exact hempty
  · have hroot : (diskTable (powerOn disk memory).disk 0).type = inodeDir := by
      change (diskTable disk 0).type = inodeDir
      rw [htable]
      simpa using (soundTable_mkfs vfsPath content).wellFormed.root_dir
    have htab : (boot disk memory).inodeArray =
        linkInode emptyTable 0 1 (Mkfs.fileInode vfsPath content) := by
      rw [boot, vfsInit_of_dir hroot]
      exact htable
    rw [htab, tree_linkInode (by decide) (by decide) (newNode_fileInode vfsPath content),
      NamedTree.distinct_addChild_iff soundTable_emptyTable.wellFormed (by decide) (by decide)
        hempty, ← NamedTree.lookup_eq_none_iff]
    exact lookup_emptyTable _

/-- **The names stay different along a run from a formatted disk exactly when every call that
creates an inode stores it under a name that is not in use.** -/
theorem distinctNames_iff_along {disk : Disk} (hdisk : Formatted disk) (memory : Memory)
    (ops : List Op) :
    (∀ ps, ps <+: ops → ∀ k, run Op.step (boot disk memory) ps = .ok k →
      DistinctNames k.inodeArray) ↔ Along Op.step FreshName (boot disk memory) ops := by
  have hinv := Invariant.boot hdisk memory
  have hdist := hdisk.distinct memory
  have hstored : diskTable (boot disk memory).disk = (boot disk memory).inodeArray :=
    diskTable_vfsInit _
  have htracked : Tracked (boot disk memory) := ⟨hinv, fun _ => by rwa [hstored]⟩
  exact along_iff_forall_prefix (fun s o hs => hs.step o)
    (fun s o s' hs hq ho => hs.freshName_iff hq ho) ops htracked
    (hinv.sound.distinctNames_iff.2 hdist)

/-- A directory is made beside an installed file. -/
theorem distinctNames_mkdir :
    ∃ k, run Op.step (bootWith [1, 2]) [.mkdir nameB] = .ok k ∧
      (k.inodeArray 0).numEntries = 2 ∧ DistinctNames k.inodeArray := by
  have hd := cwd_bootWith [1, 2]
  have hsound := (Reachable.bootWith [1, 2]).invariant.sound
  have hfresh : findInodeInDir (bootWith [1, 2]).inodeArray (bootWith [1, 2]).currentDir
      nameB.stored = .ok none := by
    rw [find_bootWith]
    decide
  have hc : created (bootWith [1, 2]).inodeArray 0 nameB inodeDir =
      some (2, linkInode (installedTable "a" [1, 2]) 0 2 (freshInode nameB inodeDir 0)) := by
    refine created_eq_some_iff.2 ⟨?_, ?_, ?_, ?_⟩
    · rw [bootWith_inodeArray]
      decide
    · rw [bootWith_inodeArray, installedTable_zero]
      decide
    · rw [lookup_bootWith]
      decide
    · rw [bootWith_inodeArray]
  have hdistinct : Along Op.step FreshName (bootWith [1, 2]) [.mkdir nameB] →
      ∀ ps, ps <+: [.mkdir nameB] → ∀ k, run Op.step (bootWith [1, 2]) ps = .ok k →
        DistinctNames k.inodeArray :=
    (distinctNames_iff_along (formatted_diskWith _) _ _).2
  generalize bootWith [1, 2] = k at hd hsound hfresh hc hdistinct ⊢
  have hstep : (Op.mkdir nameB).step k = .ok _ :=
    Op.step_of_exec (vfsMkdir_of_some hsound hd hc)
  have hrun := (run_singleton k (Op.mkdir nameB)).trans hstep
  refine ⟨_, hrun, ?_, hdistinct ⟨fun name hname _ => ?_, fun _ _ => trivial⟩ _
    (List.prefix_refl _) _ hrun⟩
  · change (linkInode (installedTable "a" [1, 2]) 0 2 (freshInode nameB inodeDir 0) 0).numEntries =
      2
    rw [linkInode_self, installedTable_zero]
    rfl
  · obtain rfl : nameB = name := Option.some.inj hname
    exact hfresh

/-- A name of 32 bytes. -/
def longName : CString where
  bytes := List.replicate 32 97
  noNul := by decide
  length_lt := by
    rw [List.length_replicate]
    norm_num

/-- The same directory is made twice under a name of 32 bytes. -/
theorem not_distinctNames_long :
    ∃ k, run Op.step (boot (fun _ _ => 0) ⟨0, fun _ => 0⟩) [.mkdir longName, .mkdir longName] =
        .ok k ∧ ¬ DistinctNames k.inodeArray := by
  have hboot := Reachable.boot_zero ⟨0, fun _ => 0⟩
  have hd := cwd_boot_zero ⟨0, fun _ => 0⟩
  have hc := created_boot_zero ⟨0, fun _ => 0⟩ longName inodeDir
  have hstep : (Op.mkdir longName).step (boot (fun _ _ => 0) ⟨0, fun _ => 0⟩) = .ok _ :=
    Op.step_of_exec (vfsMkdir_of_some hboot.invariant.sound hd hc)
  have h := (hboot.step hstep).invariant
  have hf := Fresh.of_created hd.dir hc
  have hcwd : Cwd ({ boot (fun _ _ => 0) ⟨0, fun _ => 0⟩ with
      inodeArray := linkInode emptyTable 0 1 (freshInode longName inodeDir 0)
      disk := vfsSync (linkInode emptyTable 0 1 (freshInode longName inodeDir 0))
        (boot (fun _ _ => 0) ⟨0, fun _ => 0⟩).disk }) 0 := ⟨hd.val, hf.dir hd.dir⟩
  obtain ⟨r, hr, hinv⟩ := h.exec (.mkdir longName)
  refine ⟨r.kernel, run_cons_eq_ok.2 ⟨_, hstep, (run_singleton _ _).trans (Op.step_of_exec hr)⟩, ?_⟩
  rw [hinv.sound.distinctNames_iff]
  intro hdist
  have hold := h.distinct_of_exec (by simp) hr hdist
  -- the whole name is not found, but the stored one is
  have hcreatable : Creatable (linkInode emptyTable 0 1 (freshInode longName inodeDir 0)) 0
      longName := by
    refine ⟨⟨2, ?_⟩, by decide, ?_⟩
    · rw [linkInode_of_ne (by decide) (by decide), emptyTable_of_ne (by decide)]
      rfl
    · rw [lookup_first longName (Or.inr rfl)]
      decide
  have hfresh := (h.freshName_iff (by simp) hr hold).2 hdist longName rfl
    ((hcwd.creatable_iff h.sound longName).2 hcreatable)
  rw [hcwd.find h.sound, lookup_first longName (Or.inr rfl)] at hfresh
  exact absurd hfresh (by decide)

/-! ### Finding what was created -/

section Addressable

variable {k : Kernel} {d idx : Fin maxInodes} {t : InodeTable} {name : CString}

/-- `vfs_mkdir` returns, and if it succeeds, `vfs_cd` then leads into the new directory, and `..`
leads out of it again. -/
def MkdirAddressable (k : Kernel) (name : CString) : Prop :=
  ∃ r, vfsMkdir k name = .ok r ∧ (0 ≤ r.ret →
    ∃ r₁, vfsCd r.kernel name = .ok r₁ ∧ r₁.ret = 0 ∧ (r₁.kernel.currentDir : ℤ) = r.ret ∧
      ∃ r₂, vfsCd r₁.kernel dotDot = .ok r₂ ∧ r₂.kernel.currentDir = k.currentDir)

/-- `vfs_touch` returns, and if it succeeds, the lookup then finds the inode that it allocated. -/
def TouchAddressable (k : Kernel) (name : CString) : Prop :=
  ∃ r, vfsTouch k name = .ok r ∧ (r.ret = 0 →
    ∃ idx, (k.inodeArray idx).type = inodeFree ∧ (r.kernel.inodeArray idx).type ≠ inodeFree ∧
      findInodeInDir r.kernel.inodeArray r.kernel.currentDir name = .ok (some idx))

/-- A new inode is found under its name exactly if the name is stored whole. -/
theorem Fresh.lookup_eq {type : UInt32} (hf : Fresh k.inodeArray t d idx name type)
    (h : SoundTable k.inodeArray) (hd : (k.inodeArray d).type = inodeDir)
    (htype : type = inodeFile ∨ type = inodeDir) :
    (tree t).lookup d name.bytes = if name.bytes.length ≤ 31 then some idx else none := by
  rw [hf.tree_eq htype, NamedTree.lookup_addChild_of_none h.wellFormed (by simpa using hd)
    (by simpa using hf.free) hf.lookup]
  simp only [List.take_eq_self_iff]

/-- `vfs_cd` leads into a new directory exactly if its name is stored whole and is not one of the
two that it interprets itself. -/
theorem Fresh.cdTarget_iff (hf : Fresh k.inodeArray t d idx name inodeDir)
    (h : SoundTable k.inodeArray) (hd : (k.inodeArray d).type = inodeDir) :
    cdTarget t d name.bytes = some idx ↔
      name.bytes.length ≤ 31 ∧ name.bytes ≠ dotDot.bytes ∧ name.bytes ≠ slash.bytes := by
  have hroot : (k.inodeArray 0).type = inodeDir := by simpa using h.wellFormed.root_dir
  have hzero : (0 : Fin maxInodes) ≠ idx := by
    intro he
    exact inodeDir_ne_free (hroot.symm.trans (he ▸ hf.free))
  have htree := hf.tree_eq (Or.inr rfl)
  have hparent : d ≠ 0 → (tree t).parent d ≠ idx := by
    intro hd0 he
    rw [htree, NamedTree.addChild_parent, if_neg hf.ne] at he
    have hused := h.wellFormed.parent_used (c := d) (by simpa [hd] using inodeDir_ne_free) hd0
    rw [he] at hused
    exact hused (by simpa using hf.free)
  have hdir : (t idx).type = inodeDir := by rw [hf.new, freshInode]
  unfold cdTarget
  rw [hf.lookup_eq h hd (Or.inr rfl)]
  split_ifs with hdot hd0 hslash hlen
  · simp [hdot, hzero]
  · simp [hdot, hparent hd0]
  · simp [hslash, hzero]
  · simp [hlen, hdot, hslash, hdir]
  · simp [hlen]

/-- From a new directory, `..` leads back to the one it was made in. -/
theorem Fresh.cdTarget_dotDot {t t' : InodeTable} {d idx : Fin maxInodes} {name : CString}
    (hf : Fresh t t' d idx name inodeDir) (h : SoundTable t) :
    cdTarget t' idx dotDot.bytes = some d := by
  have hidx : idx ≠ 0 := by
    rintro rfl
    have hroot : (t 0).type = inodeDir := by simpa using h.wellFormed.root_dir
    exact inodeDir_ne_free (hroot.symm.trans hf.free)
  rw [cdTarget, if_pos rfl, if_neg hidx, hf.tree_eq (Or.inr rfl), NamedTree.addChild_parent,
    if_pos rfl]

/-- **`vfs_mkdir` makes a directory that `vfs_cd` leads into exactly if its name is stored whole
and is not one of the two that `vfs_cd` interprets itself.** -/
theorem Invariant.mkdirAddressable_iff (h : Invariant k) (name : CString) :
    MkdirAddressable k name ↔ (k.Creatable name →
      name.bytes.length ≤ 31 ∧ name.bytes ≠ dotDot.bytes ∧ name.bytes ≠ slash.bytes) := by
  obtain ⟨d, hd⟩ := h.cwd
  cases hc : created k.inodeArray d name inodeDir with
  | none =>
      have hnot := hd.not_creatable h.sound hc
      obtain ⟨msg, hfail⟩ := vfsMkdir_of_none h.sound hd hc
      refine ⟨fun _ hcr => absurd hcr hnot, fun _ => ⟨_, hfail, fun hret => ?_⟩⟩
      exact absurd hret (show ¬ (0 : ℤ) ≤ -1 by decide)
  | some p =>
      obtain ⟨idx, t⟩ := p
      have hcr := hd.creatable h.sound hc
      have hf := Fresh.of_created hd.dir hc
      have hmk := vfsMkdir_of_some h.sound hd hc
      have hinv := h.of_created hd (Or.inr rfl) hc
      have hcwd : Cwd { k with inodeArray := t, disk := vfsSync t k.disk } d :=
        ⟨hd.val, hf.dir hd.dir⟩
      have htarget := hf.cdTarget_iff h.sound hd.dir
      constructor
      · rintro ⟨r, hr, hma⟩ _
        obtain rfl := Except.ok.inj (hmk.symm.trans hr)
        obtain ⟨r₁, hr₁, hret, hcur, -⟩ := hma (Int.natCast_nonneg _)
        rw [← htarget]
        cases hcd : cdTarget t d name.bytes with
        | none =>
            obtain ⟨msg, hfail⟩ := vfsCd_of_none hinv.sound hcwd hcd
            obtain rfl := Except.ok.inj (hfail.symm.trans hr₁)
            cases hret
        | some c =>
            obtain rfl := Except.ok.inj ((vfsCd_of_some hinv.sound hcwd hcd).symm.trans hr₁)
            exact congrArg some (Fin.ext (Int.ofNat_inj.1 hcur))
      · intro hok
        have hcd := htarget.2 (hok hcr)
        refine ⟨_, hmk, fun _ => ⟨_, vfsCd_of_some hinv.sound hcwd hcd, rfl, rfl, ?_⟩⟩
        -- and `..` leads back
        have hback := vfsCd_of_some
          (k := { k with inodeArray := t, disk := vfsSync t k.disk, currentDir := idx })
          hinv.sound ⟨rfl, cdTarget_dir hinv.sound hcwd.dir hcd⟩ (hf.cdTarget_dotDot h.sound)
        exact ⟨_, hback, hd.val.symm⟩

/-- **`vfs_touch` makes a file that the lookup finds exactly if its name is stored whole.** -/
theorem Invariant.touchAddressable_iff (h : Invariant k) (name : CString) :
    TouchAddressable k name ↔ (k.Creatable name → name.bytes.length ≤ 31) := by
  obtain ⟨d, hd⟩ := h.cwd
  cases hc : created k.inodeArray d name inodeFile with
  | none =>
      have hnot := hd.not_creatable h.sound hc
      obtain ⟨msg, hfail⟩ := vfsTouch_of_none h.sound hd hc
      refine ⟨fun _ hcr => absurd hcr hnot, fun _ => ⟨_, hfail, fun hret => ?_⟩⟩
      cases hret
  | some p =>
      obtain ⟨idx, t⟩ := p
      have hcr := hd.creatable h.sound hc
      have hf := Fresh.of_created hd.dir hc
      have htouch := vfsTouch_of_some h.sound hd hc
      have hinv := h.of_created hd (Or.inl rfl) hc
      have hcwd : Cwd { k with inodeArray := t, disk := vfsSync t k.disk } d :=
        ⟨hd.val, hf.dir hd.dir⟩
      have hfind := hcwd.find hinv.sound name
      rw [hf.lookup_eq h.sound hd.dir (Or.inl rfl)] at hfind
      constructor
      · rintro ⟨r, hr, hta⟩ _
        obtain rfl := Except.ok.inj (htouch.symm.trans hr)
        obtain ⟨i, -, -, hi⟩ := hta rfl
        by_contra hlen
        rw [if_neg hlen] at hfind
        cases hfind.symm.trans hi
      · intro hok
        refine ⟨_, htouch, fun _ => ⟨idx, hf.free, ?_, ?_⟩⟩
        · change (t idx).type ≠ inodeFree
          rw [hf.new]
          exact inodeFile_ne_free
        · rw [hfind, if_pos (hok hcr)]

/-- **What is created is found again exactly when its name is stored whole and, for a directory,
is neither `..` nor `/`.** -/
theorem addressable_iff (hk : Reachable k) (name : CString) :
    (MkdirAddressable k name ∧ TouchAddressable k name ↔
        (k.Creatable name →
          name.bytes.length ≤ 31 ∧ name.bytes ≠ dotDot.bytes ∧ name.bytes ≠ slash.bytes)) ∧
      (TouchAddressable k name ↔ (k.Creatable name → name.bytes.length ≤ 31)) := by
  have hmkdir := hk.invariant.mkdirAddressable_iff name
  have htouch := hk.invariant.touchAddressable_iff name
  refine ⟨?_, htouch⟩
  rw [hmkdir, htouch]
  constructor
  · rintro ⟨hm, -⟩
    exact hm
  · intro hm
    exact ⟨hm, fun hcr => (hm hcr).1⟩

end Addressable

/-- The directory `a` on an empty disk. -/
theorem addressable_boot_zero :
    MkdirAddressable (boot (fun _ _ => 0) ⟨0, fun _ => 0⟩) nameA ∧
      TouchAddressable (boot (fun _ _ => 0) ⟨0, fun _ => 0⟩) nameA :=
  (addressable_iff (Reachable.boot_zero ⟨0, fun _ => 0⟩) nameA).1.2 fun _ =>
    ⟨by decide, by decide, by decide⟩

/-- A name of 32 bytes on an empty disk: neither the directory nor the file is found again. -/
theorem not_addressable_long :
    ¬ MkdirAddressable (boot (fun _ _ => 0) ⟨0, fun _ => 0⟩) longName ∧
      ¬ TouchAddressable (boot (fun _ _ => 0) ⟨0, fun _ => 0⟩) longName := by
  have h := (Reachable.boot_zero ⟨0, fun _ => 0⟩).invariant
  have hcr := creatable_boot_zero ⟨0, fun _ => 0⟩ longName
  rw [h.mkdirAddressable_iff, h.touchAddressable_iff]
  exact ⟨fun hm => absurd (hm hcr).1 (by decide), fun ht => absurd (ht hcr) (by decide)⟩

end Anaga
