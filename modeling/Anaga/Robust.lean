/-
**Running on a damaged disk.**

`vfs_load` takes the inode table as it finds it.  `find_inode_in_dir` guards the indices it reads
from a directory, but nothing guards the number of entries, the indices that `vfs_ls` prints, the
parent pointers, the sizes of the files or the ends of the names.  This module says, call by call
and in terms of the table, exactly when the accesses stay inside the arrays.

Main definitions:

* `Anaga.InBounds` — a call makes no access outside an array;
* `Anaga.LookupSafe`, `Anaga.ListSafe`, `Anaga.ClimbSafe` — the conditions on the table under which
  the three loops stay inside their arrays;
* `Anaga.Sane` — the condition for a call.

Main results:

* `Anaga.find_ok_iff`, `Anaga.lsLoop_ok_iff`, `Anaga.pwdLoop_ok_iff` — **the conditions are exact
  for the loops**;
* `Anaga.inBounds_iff` — and for the calls;
* `Anaga.along_inBounds_iff` — so a run from any disk stays inside the arrays exactly when all its
  steps meet them.
-/

import Anaga.Persistence
import Anaga.TreeInvariant

set_option relaxedAutoImplicit false
set_option autoImplicit false

namespace Anaga

open Transition

/-! ### The calls -/

/-- The call makes no access outside an array: it does not fault, and the copy it makes out of a
file takes only bytes of that file's data. -/
def InBounds (k : Kernel) (o : Op) : Prop :=
  ∃ r, o.exec k = .ok r ∧ ∀ c, r.copy = some c → c.InBounds

/-- The calls that are considered here. -/
def Op.Probes : Op → Prop
  | .mkdir _ => True
  | .touch _ => True
  | .cd _ => True
  | .ls => True
  | .cat _ => True
  | .read _ _ => True
  | .pwd => True
  | _ => False

/-! ### Looking up -/

/-- The entry can be compared with the name: it is not followed, or the name of its inode ends
before the comparison does. -/
def EntrySafe (t : InodeTable) (name : CString) (e : UInt32) : Prop :=
  ∀ h : e.toNat < maxInodes, ¬ Overruns (t ⟨e.toNat, h⟩).nameRegion name.bytes

/-- The entry is that of an inode of this name. -/
def EntryMatches (t : InodeTable) (name : CString) (e : UInt32) : Prop :=
  ∃ h : e.toNat < maxInodes, (t ⟨e.toNat, h⟩).fileName = name.bytes

/-- Up to the first entry that matches, the entries of the current directory are inside its array
and can be compared with the name. -/
def LookupSafe (k : Kernel) (name : CString) : Prop :=
  ∀ h : k.currentDir < maxInodes, (k.inodeArray ⟨k.currentDir, h⟩).type = inodeDir →
    ∀ i < (k.inodeArray ⟨k.currentDir, h⟩).numEntries.toNat,
      (∀ j : Fin maxDirEntries, j.val < i →
        ¬ EntryMatches k.inodeArray name ((k.inodeArray ⟨k.currentDir, h⟩).dirEntries j)) →
      ∃ hi : i < maxDirEntries,
        EntrySafe k.inodeArray name ((k.inodeArray ⟨k.currentDir, h⟩).dirEntries ⟨i, hi⟩)

/-- One entry of the loop: it ends the loop, lets it go on, or makes it fault. -/
theorem findLoop_cons (t : InodeTable) (name : CString) (e : UInt32) (slots : List UInt32)
    (n : ℕ) :
    (∃ r, findLoop t name (e :: slots) (n + 1) = .ok r) ↔
      EntrySafe t name e ∧ (EntryMatches t name e ∨ ∃ r, findLoop t name slots n = .ok r) := by
  rw [findLoop]
  by_cases he : e.toNat < maxInodes
  · rw [dif_pos he]
    by_cases hover : Overruns (t ⟨e.toNat, he⟩).nameRegion name.bytes
    · rw [CString.region, strcmp_of_overruns hover]
      constructor
      · rintro ⟨r, hr⟩
        cases hr
      · rintro ⟨hsafe, -⟩
        exact absurd hover (hsafe he)
    · obtain ⟨r, hr, hr0⟩ := strcmp_of_not_overruns name.noNul hover
      rw [CString.region, hr, ok_bind]
      have hsafe : EntrySafe t name e := fun _ => hover
      have hmatch : EntryMatches t name e ↔ r = 0 := by
        rw [hr0]
        constructor
        · rintro ⟨_, hm⟩
          exact hm
        · intro hm
          exact ⟨he, hm⟩
      rw [hmatch]
      split_ifs with h0
      · exact ⟨fun _ => ⟨hsafe, Or.inl h0⟩, fun _ => ⟨_, rfl⟩⟩
      · simp only [hsafe, h0, false_or, true_and]
  · rw [dif_neg he]
    have hsafe : EntrySafe t name e := fun h => absurd h he
    have hmatch : ¬ EntryMatches t name e := by
      rintro ⟨h, -⟩
      exact he h
    simp only [hsafe, hmatch, false_or, true_and]

/-- **The loop of `find_inode_in_dir` stays inside its arrays exactly if every entry it comes to
is there and can be compared.** -/
theorem findLoop_ok_iff (t : InodeTable) (name : CString) (slots : List UInt32) (n : ℕ) :
    (∃ r, findLoop t name slots n = .ok r) ↔
      ∀ i < n, (∀ j e, j < i → slots[j]? = some e → ¬ EntryMatches t name e) →
        ∃ e, slots[i]? = some e ∧ EntrySafe t name e := by
  induction slots generalizing n with
  | nil =>
      cases n with
      | zero =>
          rw [findLoop]
          exact ⟨fun _ i hi => absurd hi (Nat.not_lt_zero i), fun _ => ⟨_, rfl⟩⟩
      | succ n =>
          constructor
          · rintro ⟨r, hr⟩
            cases hr
          · intro h
            obtain ⟨e, he, -⟩ := h 0 n.succ_pos fun j e hj => absurd hj (Nat.not_lt_zero j)
            cases he
  | cons e slots ih =>
      cases n with
      | zero =>
          rw [findLoop]
          exact ⟨fun _ i hi => absurd hi (Nat.not_lt_zero i), fun _ => ⟨_, rfl⟩⟩
      | succ n =>
          rw [findLoop_cons, ih]
          constructor
          · rintro ⟨hsafe, hrest⟩ i hi hno
            cases i with
            | zero => exact ⟨e, rfl, hsafe⟩
            | succ i =>
                rcases hrest with hmatch | hrest
                · exact absurd hmatch (hno 0 e i.succ_pos rfl)
                · refine hrest i (by omega) fun j e' hj he' => ?_
                  exact hno (j + 1) e' (by omega) he'
          · intro h
            obtain ⟨e', he', hsafe⟩ := h 0 n.succ_pos fun j e hj => absurd hj (Nat.not_lt_zero j)
            obtain rfl : e = e' := by simpa using he'
            refine ⟨hsafe, ?_⟩
            rw [or_iff_not_imp_left]
            intro hmatch i hi hno
            refine h (i + 1) (by omega) fun j e' hj he' => ?_
            cases j with
            | zero =>
                obtain rfl : e = e' := by simpa using he'
                exact hmatch
            | succ j => exact hno j e' (by omega) he'

theorem getElem?_dirEntries {n : Inode} {i : ℕ} {e : UInt32} :
    (List.ofFn n.dirEntries)[i]? = some e ↔ ∃ h : i < maxDirEntries, n.dirEntries ⟨i, h⟩ = e := by
  rw [List.getElem?_ofFn]
  split_ifs with h
  · simp [h]
  · simp [h]

/-- **A lookup in the current directory stays inside the arrays exactly if the condition holds.** -/
theorem find_ok_iff (k : Kernel) (name : CString) :
    (∃ found, findInodeInDir k.inodeArray k.currentDir name = .ok found) ↔ LookupSafe k name := by
  unfold findInodeInDir LookupSafe
  by_cases hcur : k.currentDir < maxInodes
  · rw [dif_pos hcur]
    by_cases htype : (k.inodeArray ⟨k.currentDir, hcur⟩).type = inodeDir
    · simp only [if_pos htype, findLoop_ok_iff, getElem?_dirEntries]
      constructor
      · intro h _ _ i hi hno
        obtain ⟨e, ⟨hi16, rfl⟩, hsafe⟩ := h i hi fun j e hj ⟨hj16, he⟩ => he ▸ hno ⟨j, hj16⟩ hj
        exact ⟨hi16, hsafe⟩
      · intro h i hi hno
        obtain ⟨hi16, hsafe⟩ := h hcur htype i hi fun j hj => hno j.val _ hj ⟨j.isLt, rfl⟩
        exact ⟨_, ⟨hi16, rfl⟩, hsafe⟩
    · simp only [if_neg htype]
      exact ⟨fun _ _ ht => absurd ht htype, fun _ => ⟨_, rfl⟩⟩
  · rw [dif_neg hcur]
    exact ⟨fun _ h => absurd h hcur, fun _ => ⟨_, rfl⟩⟩

/-! ### Listing -/

/-- The entry can be printed: it is that of an inode whose name ends. -/
def EntryPrints (t : InodeTable) (e : UInt32) : Prop :=
  ∃ h : e.toNat < maxInodes, 0 ∈ (t ⟨e.toNat, h⟩).nameRegion

/-- The current directory is an inode, and its entries are inside its array and can be printed. -/
def ListSafe (k : Kernel) : Prop :=
  ∃ h : k.currentDir < maxInodes, ∀ i < (k.inodeArray ⟨k.currentDir, h⟩).numEntries.toNat,
    ∃ hi : i < maxDirEntries,
      EntryPrints k.inodeArray ((k.inodeArray ⟨k.currentDir, h⟩).dirEntries ⟨i, hi⟩)

theorem kprint_ok_iff (l : List UInt8) : (∃ printed, kprint l = .ok printed) ↔ 0 ∈ l := by
  constructor
  · rintro ⟨printed, hp⟩
    by_contra h
    rw [kprint_of_zero_not_mem h] at hp
    cases hp
  · intro h
    exact ⟨_, kprint_of_zero_mem h⟩

/-- One entry of the loop of `vfs_ls`. -/
theorem lsLoop_cons (t : InodeTable) (e : UInt32) (slots : List UInt32) (n : ℕ) :
    (∃ printed, lsLoop t (e :: slots) (n + 1) = .ok printed) ↔
      EntryPrints t e ∧ ∃ printed, lsLoop t slots n = .ok printed := by
  constructor
  · rintro ⟨printed, hp⟩
    obtain ⟨child, hchild, hp⟩ := bind_eq_ok.1 hp
    obtain ⟨name, hname, hp⟩ := bind_eq_ok.1 hp
    obtain ⟨rest, hrest, -⟩ := bind_eq_ok.1 hp
    refine ⟨?_, rest, hrest⟩
    by_cases he : e.toNat < maxInodes
    · rw [inodeAt_of_lt t he] at hchild
      cases hchild
      exact ⟨he, (kprint_ok_iff _).1 ⟨name, hname⟩⟩
    · rw [inodeAt_of_ge t (not_lt.1 he)] at hchild
      cases hchild
  · rintro ⟨⟨he, hname⟩, rest, hrest⟩
    refine ⟨cstr (t ⟨e.toNat, he⟩).nameRegion ++ utf8 "\n" ++ rest, ?_⟩
    rw [lsLoop, inodeAt_of_lt t he, ok_bind, kprint_of_zero_mem hname, ok_bind, hrest, ok_bind]

/-- **The loop of `vfs_ls` stays inside its arrays exactly if every entry is there and can be
printed.** -/
theorem lsLoop_ok_iff (t : InodeTable) (slots : List UInt32) (n : ℕ) :
    (∃ printed, lsLoop t slots n = .ok printed) ↔
      ∀ i < n, ∃ e, slots[i]? = some e ∧ EntryPrints t e := by
  induction slots generalizing n with
  | nil =>
      cases n with
      | zero => exact ⟨fun _ i hi => absurd hi (Nat.not_lt_zero i), fun _ => ⟨_, rfl⟩⟩
      | succ n =>
          constructor
          · rintro ⟨r, hr⟩
            cases hr
          · intro h
            obtain ⟨e, he, -⟩ := h 0 n.succ_pos
            cases he
  | cons e slots ih =>
      cases n with
      | zero => exact ⟨fun _ i hi => absurd hi (Nat.not_lt_zero i), fun _ => ⟨_, rfl⟩⟩
      | succ n =>
          rw [lsLoop_cons, ih]
          constructor
          · rintro ⟨he, hrest⟩ i hi
            cases i with
            | zero => exact ⟨e, rfl, he⟩
            | succ i => exact hrest i (by omega)
          · intro h
            obtain ⟨e', he', hprints⟩ := h 0 n.succ_pos
            obtain rfl : e = e' := by simpa using he'
            refine ⟨hprints, ?_⟩
            intro i hi
            exact h (i + 1) (by omega)

theorem vfsLs_ok_iff (k : Kernel) :
    (∃ r, vfsLs k = .ok r ∧ ∀ c, r.copy = some c → c.InBounds) ↔ ListSafe k := by
  by_cases hcur : k.currentDir < maxInodes
  · rw [vfsLs, inodeAt_of_lt _ hcur, ok_bind]
    have hsafe : ListSafe k ↔ ∃ printed, lsLoop k.inodeArray
        (List.ofFn (k.inodeArray ⟨k.currentDir, hcur⟩).dirEntries)
        (k.inodeArray ⟨k.currentDir, hcur⟩).numEntries.toNat = .ok printed := by
      simp only [lsLoop_ok_iff, getElem?_dirEntries]
      constructor
      · rintro ⟨_, h⟩ i hi
        obtain ⟨hi16, hp⟩ := h i hi
        exact ⟨_, ⟨hi16, rfl⟩, hp⟩
      · intro h
        refine ⟨hcur, fun i hi => ?_⟩
        obtain ⟨e, ⟨hi16, rfl⟩, hp⟩ := h i hi
        exact ⟨hi16, hp⟩
    rw [hsafe]
    split_ifs with hzero
    · rw [hzero]
      exact ⟨fun _ => ⟨[], rfl⟩, fun _ => ⟨_, rfl, fun c hc => by cases hc⟩⟩
    · constructor
      · rintro ⟨r, hr, -⟩
        obtain ⟨printed, hp, -⟩ := bind_eq_ok.1 hr
        exact ⟨printed, hp⟩
      · rintro ⟨printed, hp⟩
        exact ⟨_, by rw [hp, ok_bind], fun c hc => by cases hc⟩
  · rw [vfsLs, inodeAt_of_ge _ (not_lt.1 hcur)]
    constructor
    · rintro ⟨r, hr, -⟩
      cases hr
    · rintro ⟨h, -⟩
      exact absurd h hcur

/-! ### Climbing -/

/-- From the current directory the parent pointers lead to the root within 31 steps, and the names
on the way end. -/
def ClimbSafe (k : Kernel) : Prop :=
  ∃ h : k.currentDir < maxInodes, ∃ n < 32,
    follow k.inodeArray n ⟨k.currentDir, h⟩ = some 0 ∧
      ∀ m ≤ n, ∀ j, follow k.inodeArray m ⟨k.currentDir, h⟩ = some j →
        0 ∈ (k.inodeArray j).nameRegion

/-- One step of the climb: it goes on at the parent, if that is an inode. -/
theorem pwdLoop_step (t : InodeTable) (P : Fin maxInodes → Prop) (room : ℕ) {i : Fin maxInodes}
    (hi : i ≠ 0) :
    (∃ path, pwdLoop t (room + 1) i = .ok path ∧ ∀ j ∈ path, P j) ↔
      P i ∧ ∃ hp : (t i).parentInode.toNat < maxInodes,
        ∃ path, pwdLoop t room (⟨(t i).parentInode.toNat, hp⟩ : Fin maxInodes) = .ok path ∧
          ∀ j ∈ path, P j := by
  have hne : i.val ≠ 0 := fun he => hi (Fin.ext he)
  have hloop : pwdLoop t (room + 1) i =
      (i :: ·) <$> pwdLoop t room (t i).parentInode.toNat := by
    rw [pwdLoop, if_neg hne, dif_pos i.isLt]
  rw [hloop]
  constructor
  · rintro ⟨path, hpath, hall⟩
    obtain ⟨path', hpath', rfl⟩ := map_eq_ok.1 hpath
    refine ⟨hall i List.mem_cons_self, ?_⟩
    by_cases hp : (t i).parentInode.toNat < maxInodes
    · exact ⟨hp, path', hpath', fun j hj => hall j (List.mem_cons_of_mem i hj)⟩
    · -- the parent is no inode, and it is not the root either
      cases room with
      | zero => cases hpath'
      | succ room =>
          have hne' : (t i).parentInode.toNat ≠ 0 := fun he => hp (by rw [he]; decide)
          rw [pwdLoop, if_neg hne', dif_neg hp] at hpath'
          cases hpath'
  · rintro ⟨hPi, hp, path, hpath, hall⟩
    refine ⟨i :: path, by rw [hpath, map_ok], ?_⟩
    intro j hj
    rcases List.mem_cons.1 hj with rfl | hj
    · exact hPi
    · exact hall j hj

/-- The same step, for the parents that are followed. -/
theorem follow_step (t : InodeTable) (P : Fin maxInodes → Prop) (room : ℕ) {i : Fin maxInodes}
    (hi : i ≠ 0) :
    (∃ n < room + 1, follow t n i = some 0 ∧ ∀ m ≤ n, ∀ j, follow t m i = some j → P j) ↔
      P i ∧ ∃ hp : (t i).parentInode.toNat < maxInodes,
        ∃ n < room, follow t n ⟨(t i).parentInode.toNat, hp⟩ = some 0 ∧
          ∀ m ≤ n, ∀ j, follow t m ⟨(t i).parentInode.toNat, hp⟩ = some j → P j := by
  constructor
  · rintro ⟨n, hn, hroot, hall⟩
    refine ⟨hall 0 (Nat.zero_le n) i rfl, ?_⟩
    cases n with
    | zero => exact absurd (Option.some.inj hroot) hi
    | succ n =>
        by_cases hp : (t i).parentInode.toNat < maxInodes
        · have hfollow : ∀ m, follow t (m + 1) i = follow t m ⟨(t i).parentInode.toNat, hp⟩ := by
            intro m
            rw [follow, dif_pos hp]
          refine ⟨hp, n, by omega, (hfollow n).symm.trans hroot, ?_⟩
          intro m hm j hj
          exact hall (m + 1) (by omega) j ((hfollow m).trans hj)
        · rw [follow, dif_neg hp] at hroot
          cases hroot
  · rintro ⟨hPi, hp, n, hn, hroot, hall⟩
    have hfollow : ∀ m, follow t (m + 1) i = follow t m ⟨(t i).parentInode.toNat, hp⟩ := by
      intro m
      rw [follow, dif_pos hp]
    refine ⟨n + 1, by omega, (hfollow n).trans hroot, ?_⟩
    intro m hm j hj
    cases m with
    | zero =>
        obtain rfl : i = j := Option.some.inj hj
        exact hPi
    | succ m => exact hall m (by omega) j ((hfollow m).symm.trans hj)

/-- **The climb of `vfs_pwd` stays inside its arrays, and collects only inodes with the property
`P`, exactly if the parent pointers lead to the root while there is room, along such inodes.** -/
theorem pwdLoop_ok_iff (t : InodeTable) (P : Fin maxInodes → Prop) (room : ℕ) (i : Fin maxInodes) :
    (∃ path, pwdLoop t room i = .ok path ∧ ∀ j ∈ path, P j) ↔
      ∃ n < room, follow t n i = some 0 ∧ ∀ m ≤ n, ∀ j, follow t m i = some j → P j := by
  induction room generalizing i with
  | zero =>
      constructor
      · rintro ⟨path, hpath, -⟩
        cases hpath
      · rintro ⟨n, hn, -⟩
        exact absurd hn (Nat.not_lt_zero n)
  | succ room ih =>
      rcases eq_or_ne i 0 with rfl | hi
      · -- the climb is over
        constructor
        · rintro ⟨path, hpath, hall⟩
          obtain rfl : [0] = path := Except.ok.inj hpath
          refine ⟨0, room.succ_pos, rfl, fun m hm j hj => ?_⟩
          obtain rfl : m = 0 := by omega
          obtain rfl : 0 = j := Option.some.inj hj
          exact hall 0 List.mem_cons_self
        · rintro ⟨n, -, -, hall⟩
          refine ⟨[0], rfl, fun j hj => ?_⟩
          obtain rfl : j = 0 := by simpa using hj
          exact hall 0 (Nat.zero_le n) 0 rfl
      · rw [pwdLoop_step t P room hi, follow_step t P room hi]
        exact and_congr Iff.rfl (exists_congr fun hp => ih ⟨_, hp⟩)

theorem pwdPrint_ok_iff (t : InodeTable) (path : List (Fin maxInodes)) :
    (∃ printed, pwdPrint t path = .ok printed) ↔ ∀ i ∈ path, 0 ∈ (t i).nameRegion := by
  induction path with
  | nil => exact ⟨fun _ i hi => absurd hi List.not_mem_nil, fun _ => ⟨[], rfl⟩⟩
  | cons i path ih =>
      constructor
      · rintro ⟨printed, hp⟩ j hj
        obtain ⟨name, hname, hp⟩ := bind_eq_ok.1 hp
        obtain ⟨more, hmore, -⟩ := bind_eq_ok.1 hp
        rcases List.mem_cons.1 hj with rfl | hj
        · exact (kprint_ok_iff _).1 ⟨name, hname⟩
        · exact ih.1 ⟨more, hmore⟩ j hj
      · intro h
        obtain ⟨more, hmore⟩ := ih.2 fun j hj => h j (List.mem_cons_of_mem i hj)
        refine ⟨utf8 "/" ++ cstr (t i).nameRegion ++ more, ?_⟩
        rw [pwdPrint, kprint_of_zero_mem (h i List.mem_cons_self), ok_bind, hmore, ok_bind]

theorem vfsPwd_ok_iff (k : Kernel) :
    (∃ r, vfsPwd k = .ok r ∧ ∀ c, r.copy = some c → c.InBounds) ↔ ClimbSafe k := by
  have hpwd : (∃ r, vfsPwd k = .ok r ∧ ∀ c, r.copy = some c → c.InBounds) ↔
      ∃ path, pwdLoop k.inodeArray 32 k.currentDir = .ok path ∧
        ∀ j ∈ path, 0 ∈ (k.inodeArray j).nameRegion := by
    constructor
    · rintro ⟨r, hr, -⟩
      obtain ⟨path, hpath, hr⟩ := bind_eq_ok.1 hr
      obtain ⟨printed, hprint, -⟩ := bind_eq_ok.1 hr
      have hall := (pwdPrint_ok_iff _ _).1 ⟨printed, hprint⟩
      exact ⟨path, hpath, fun j hj => hall j (List.mem_reverse.2 hj)⟩
    · rintro ⟨path, hpath, hall⟩
      obtain ⟨printed, hprint⟩ := (pwdPrint_ok_iff k.inodeArray path.reverse).2
        fun j hj => hall j (List.mem_reverse.1 hj)
      exact ⟨_, by rw [vfsPwd, hpath, ok_bind, hprint, ok_bind], fun c hc => by cases hc⟩
  rw [hpwd]
  by_cases hcur : k.currentDir < maxInodes
  · have hiff := pwdLoop_ok_iff k.inodeArray (fun j => 0 ∈ (k.inodeArray j).nameRegion) 32
      ⟨k.currentDir, hcur⟩
    rw [hiff]
    constructor
    · intro h
      exact ⟨hcur, h⟩
    · rintro ⟨_, h⟩
      exact h
  · constructor
    · rintro ⟨path, hpath, -⟩
      have hne : k.currentDir ≠ 0 := fun he => hcur (by rw [he]; decide)
      rw [pwdLoop, if_neg hne, dif_neg hcur] at hpath
      cases hpath
    · rintro ⟨h, -⟩
      exact absurd h hcur

/-! ### Moving and creating -/

/-- An inode can be created without leaving an array: if one is free and the current directory has
room, the lookup of its name must be safe. -/
def CreateSafe (k : Kernel) (name : CString) : Prop :=
  (∃ i, (k.inodeArray i).type = inodeFree) →
    ∃ h : k.currentDir < maxInodes,
      (k.inodeArray ⟨k.currentDir, h⟩).numEntries.toNat < maxDirEntries → LookupSafe k name

theorem vfsCd_ok_iff (k : Kernel) (path : CString) :
    (∃ r, vfsCd k path = .ok r ∧ ∀ c, r.copy = some c → c.InBounds) ↔
      if path.bytes = dotDot.bytes then k.currentDir < maxInodes
      else if path.bytes = slash.bytes then True else LookupSafe k path := by
  obtain ⟨r, hr, hr0⟩ := strcmp_region path dotDot
  obtain ⟨r', hr', hr0'⟩ := strcmp_region path slash
  rw [vfsCd, hr, ok_bind]
  by_cases hdot : path.bytes = dotDot.bytes
  · rw [if_pos (hr0.2 hdot), if_pos hdot]
    split_ifs with hzero
    · constructor
      · rintro ⟨res, hres, -⟩
        by_contra hcur
        rw [inodeAt_of_ge _ (not_lt.1 hcur)] at hres
        cases hres
      · intro hcur
        rw [inodeAt_of_lt _ hcur, ok_bind]
        exact ⟨_, rfl, fun c hc => by cases hc⟩
    · have hcur : k.currentDir < maxInodes := by
        rw [not_not.1 hzero]
        decide
      exact ⟨fun _ => hcur, fun _ => ⟨_, rfl, fun c hc => by cases hc⟩⟩
  · rw [if_neg fun he => hdot (hr0.1 he), if_neg hdot, hr', ok_bind]
    by_cases hslash : path.bytes = slash.bytes
    · rw [if_pos (hr0'.2 hslash), if_pos hslash]
      exact ⟨fun _ => trivial, fun _ => ⟨_, rfl, fun c hc => by cases hc⟩⟩
    · rw [if_neg fun he => hslash (hr0'.1 he), if_neg hslash, ← find_ok_iff]
      constructor
      · rintro ⟨res, hres, -⟩
        obtain ⟨found, hfound, -⟩ := bind_eq_ok.1 hres
        exact ⟨found, hfound⟩
      · rintro ⟨found, hfound⟩
        rw [hfound, ok_bind]
        cases found with
        | none => exact ⟨_, rfl, fun c hc => by cases hc⟩
        | some idx =>
            dsimp only
            split_ifs
            · exact ⟨_, rfl, fun c hc => by cases hc⟩
            · exact ⟨_, rfl, fun c hc => by cases hc⟩

/-- There is room for the entry of an inode that was just written without entries. -/
theorem appendEntry_update_ok {t : InodeTable} {cur : ℕ} (hcur : cur < maxInodes)
    (hn : (t ⟨cur, hcur⟩).numEntries.toNat < maxDirEntries) (idx : Fin maxInodes) {node : Inode}
    (hnode : node.numEntries = 0) :
    ∃ t', appendEntry (Function.update t idx node) cur idx = .ok t' := by
  have hroom : (Function.update t idx node ⟨cur, hcur⟩).numEntries.toNat < maxDirEntries := by
    rw [Function.update_apply]
    split_ifs
    · rw [hnode]
      decide
    · exact hn
  rw [appendEntry, dif_pos hcur]
  dsimp only
  rw [dif_pos hroom]
  exact ⟨_, rfl⟩

theorem createSafe_of_none {k : Kernel} (h : findFreeInode k.inodeArray = none) (name : CString) :
    CreateSafe k name := by
  rintro ⟨i, hi⟩
  exact absurd hi (findFreeInode_eq_none_iff.1 h i)

/-- With a free inode, what is left of the condition. -/
theorem createSafe_of_some {k : Kernel} {idx : Fin maxInodes}
    (h : findFreeInode k.inodeArray = some idx) (name : CString) :
    CreateSafe k name ↔ ∃ h : k.currentDir < maxInodes,
      (k.inodeArray ⟨k.currentDir, h⟩).numEntries.toNat < maxDirEntries → LookupSafe k name :=
  ⟨fun hs => hs ⟨idx, type_of_findFreeInode h⟩, fun hs _ => hs⟩

theorem vfsMkdir_ok_iff (k : Kernel) (name : CString) :
    (∃ r, vfsMkdir k name = .ok r ∧ ∀ c, r.copy = some c → c.InBounds) ↔ CreateSafe k name := by
  unfold vfsMkdir
  cases hfree : findFreeInode k.inodeArray with
  | none =>
      exact ⟨fun _ => createSafe_of_none hfree name,
        fun _ => ⟨_, rfl, fun c hc => by cases hc⟩⟩
  | some idx =>
      rw [createSafe_of_some hfree]
      by_cases hcur : k.currentDir < maxInodes
      · simp only [inodeAt_of_lt _ hcur, ok_bind, hcur, exists_true_left]
        split_ifs with hfull
        · exact ⟨fun _ hroom => absurd hroom (not_lt.2 hfull),
            fun _ => ⟨_, rfl, fun c hc => by cases hc⟩⟩
        · have hroom := not_le.1 hfull
          simp only [hroom, true_imp_iff, ← find_ok_iff]
          constructor
          · rintro ⟨r, hr, -⟩
            obtain ⟨found, hfound, -⟩ := bind_eq_ok.1 hr
            exact ⟨found, hfound⟩
          · rintro ⟨found, hfound⟩
            rw [hfound, ok_bind]
            cases found with
            | some c => exact ⟨_, rfl, fun c hc => by cases hc⟩
            | none =>
                obtain ⟨l, hl, -⟩ := strncpy_freshName name
                have hnode : ({ Inode.zero with
                    name := nameField l
                    type := inodeDir
                    parentInode := UInt32.ofNat k.currentDir } : Inode).numEntries = 0 := rfl
                obtain ⟨t', ht'⟩ := appendEntry_update_ok hcur hroom idx hnode
                dsimp only
                rw [hl, ok_bind, ht', ok_bind]
                exact ⟨_, rfl, fun c hc => by cases hc⟩
      · simp only [inodeAt_of_ge _ (not_lt.1 hcur), error_bind, reduceCtorEq, false_and,
          exists_false]
        exact ⟨False.elim, fun ⟨h, _⟩ => absurd h hcur⟩

theorem fileCreate_ok_iff (k : Kernel) (name : CString) :
    (∃ p, fileCreate name k.currentDir k.inodeArray = .ok p) ↔ CreateSafe k name := by
  unfold fileCreate
  cases hfree : findFreeInode k.inodeArray with
  | none => exact ⟨fun _ => createSafe_of_none hfree name, fun _ => ⟨_, rfl⟩⟩
  | some idx =>
      rw [createSafe_of_some hfree]
      by_cases hcur : k.currentDir < maxInodes
      · simp only [inodeAt_of_lt _ hcur, ok_bind, hcur, exists_true_left]
        split_ifs with htype hfull
        · -- nothing is looked up in what is not a directory
          exact ⟨fun _ _ _ hdir => absurd hdir htype, fun _ => ⟨_, rfl⟩⟩
        · exact ⟨fun _ hroom => absurd hroom (not_lt.2 hfull), fun _ => ⟨_, rfl⟩⟩
        · have hroom := not_le.1 hfull
          simp only [hroom, true_imp_iff, ← find_ok_iff]
          constructor
          · rintro ⟨r, hr⟩
            obtain ⟨found, hfound, -⟩ := bind_eq_ok.1 hr
            exact ⟨found, hfound⟩
          · rintro ⟨found, hfound⟩
            rw [hfound, ok_bind]
            cases found with
            | some c => exact ⟨_, rfl⟩
            | none =>
                obtain ⟨l, hl, -⟩ := strncpy_freshName name
                have hnode : ({ Inode.zero with
                    name := Function.update (nameField l) 31 0
                    type := inodeFile
                    size := 0
                    parentInode := UInt32.ofNat k.currentDir
                    numEntries := 0 } : Inode).numEntries = 0 := rfl
                obtain ⟨t', ht'⟩ := appendEntry_update_ok hcur hroom idx hnode
                dsimp only
                rw [hl, ok_bind, ht', ok_bind]
                exact ⟨_, rfl⟩
      · simp only [inodeAt_of_ge _ (not_lt.1 hcur), error_bind, reduceCtorEq, exists_false]
        exact ⟨False.elim, fun ⟨h, _⟩ => absurd h hcur⟩

theorem vfsTouch_ok_iff (k : Kernel) (name : CString) :
    (∃ r, vfsTouch k name = .ok r ∧ ∀ c, r.copy = some c → c.InBounds) ↔ CreateSafe k name := by
  rw [← fileCreate_ok_iff]
  constructor
  · rintro ⟨r, hr, -⟩
    obtain ⟨p, hp, -⟩ := bind_eq_ok.1 hr
    exact ⟨p, hp⟩
  · rintro ⟨⟨idx, t⟩, hp⟩
    rw [vfsTouch, hp, ok_bind]
    cases idx with
    | none => exact ⟨_, rfl, fun c hc => by cases hc⟩
    | some i => exact ⟨_, rfl, fun c hc => by cases hc⟩

/-! ### Reading -/

/-- The copy that a read of the file from its start makes. -/
theorem fileCopy_start_inBounds (t : InodeTable) (idx : Fin maxInodes) (size : UInt32) :
    (fileCopy t idx 0 size).InBounds ↔ min size.toNat (t idx).size.toNat ≤ maxFileSize := by
  have hlen : (fileCopy t idx 0 size).len.toNat = min size.toNat (t idx).size.toNat := by
    rw [fileCopy, UInt32.zero_add, UInt32.sub_zero]
    split_ifs with hlt
    · rw [UInt32.lt_iff_toNat_lt] at hlt
      exact (Nat.min_eq_right hlt.le).symm
    · rw [UInt32.lt_iff_toNat_lt] at hlt
      exact (Nat.min_eq_left (not_lt.1 hlt)).symm
  rw [← hlen]
  constructor
  · rintro (h0 | hle)
    · rw [h0]
      exact Nat.zero_le _
    · exact (Nat.le_add_left _ _).trans hle
  · intro hle
    right
    change 0 + (fileCopy t idx 0 size).len.toNat ≤ maxFileSize
    omega

theorem vfsCat_ok_iff (k : Kernel) (name : CString) :
    (∃ r, vfsCat k name = .ok r ∧ ∀ c, r.copy = some c → c.InBounds) ↔ LookupSafe k name := by
  rw [← find_ok_iff]
  constructor
  · rintro ⟨r, hr, -⟩
    obtain ⟨found, hfound, -⟩ := bind_eq_ok.1 hr
    exact ⟨found, hfound⟩
  · rintro ⟨found, hfound⟩
    cases found with
    | none => exact ⟨_, by rw [vfsCat, hfound, ok_bind], fun c hc => by cases hc⟩
    | some idx =>
        by_cases hdir : (k.inodeArray idx).type = inodeDir
        · refine ⟨k.fail "Is a directory\n", ?_, fun c hc => by cases hc⟩
          simp only [vfsCat, hfound, ok_bind, if_pos hdir]
        · rcases fileOpen_cases k.inodeArray idx k.fdTable with hopen | ⟨hfile, fd, hfd⟩
          · refine ⟨k.fail "Cannot open\n", ?_, fun c hc => by cases hc⟩
            simp only [vfsCat, hfound, ok_bind, if_neg hdir, hopen]
          · obtain ⟨printed, hcat⟩ := vfsCat_of_find hfound hfile hfd
            refine ⟨_, hcat, fun c hc => ?_⟩
            obtain rfl := Option.some.inj hc
            -- `vfs_cat` asks for no more than fits
            exact (fileCopy_start_inBounds _ _ _).2 (Nat.min_le_left _ _)

/-- A read of `size` bytes of the file of this name takes no more than there are. -/
def SizeSafe (k : Kernel) (name : CString) (size : UInt32) : Prop :=
  ∀ idx, findInodeInDir k.inodeArray k.currentDir name = .ok (some idx) →
    (k.inodeArray idx).type = inodeFile → (∃ fd, findFreeFd k.fdTable = some fd) →
    min size.toNat (k.inodeArray idx).size.toNat ≤ maxFileSize

theorem vfsRead_ok_iff (k : Kernel) (name : CString) (size : UInt32) :
    (∃ r, vfsRead k name size = .ok r ∧ ∀ c, r.copy = some c → c.InBounds) ↔
      LookupSafe k name ∧ SizeSafe k name size := by
  rw [← find_ok_iff]
  constructor
  · rintro ⟨r, hr, hcopy⟩
    obtain ⟨found, hfound, -⟩ := bind_eq_ok.1 hr
    refine ⟨⟨found, hfound⟩, ?_⟩
    rintro idx hfind hfile ⟨fd, hfd⟩
    obtain rfl := Except.ok.inj (hr.symm.trans (vfsRead_of_find hfind hfile hfd))
    exact (fileCopy_start_inBounds _ _ _).1 (hcopy _ rfl)
  · rintro ⟨⟨found, hfound⟩, hsize⟩
    cases found with
    | none => exact ⟨_, by rw [vfsRead, hfound, ok_bind], fun c hc => by cases hc⟩
    | some idx =>
        by_cases hdir : (k.inodeArray idx).type = inodeDir
        · refine ⟨⟨-1, none, k⟩, ?_, fun c hc => by cases hc⟩
          simp only [vfsRead, hfound, ok_bind, if_pos hdir]
        · rcases fileOpen_cases k.inodeArray idx k.fdTable with hopen | ⟨hfile, fd, hfd⟩
          · refine ⟨⟨-1, none, k⟩, ?_, fun c hc => by cases hc⟩
            simp only [vfsRead, hfound, ok_bind, if_neg hdir, hopen]
          · refine ⟨_, vfsRead_of_find hfound hfile hfd, fun c hc => ?_⟩
            obtain rfl := Option.some.inj hc
            exact (fileCopy_start_inBounds _ _ _).2 (hsize idx hfound hfile ⟨fd, hfd⟩)

/-! ### Runs -/

/-- The condition under which a call stays inside the arrays. -/
def Sane (k : Kernel) : Op → Prop
  | .mkdir name => CreateSafe k name
  | .touch name => CreateSafe k name
  | .cd path =>
      if path.bytes = dotDot.bytes then k.currentDir < maxInodes
      else if path.bytes = slash.bytes then True else LookupSafe k path
  | .ls => ListSafe k
  | .cat name => LookupSafe k name
  | .read name size => LookupSafe k name ∧ SizeSafe k name size
  | .pwd => ClimbSafe k
  | _ => True

/-- **A call stays inside the arrays exactly if the condition for it holds.** -/
theorem inBounds_iff (k : Kernel) {o : Op} (ho : o.Probes) : InBounds k o ↔ Sane k o := by
  cases o with
  | mkdir name => exact vfsMkdir_ok_iff k name
  | touch name => exact vfsTouch_ok_iff k name
  | cd path => exact vfsCd_ok_iff k path
  | ls => exact vfsLs_ok_iff k
  | cat name => exact vfsCat_ok_iff k name
  | read name size => exact vfsRead_ok_iff k name size
  | pwd => exact vfsPwd_ok_iff k
  | _ => exact ho.elim

/-- **A run from whatever disk stays inside the arrays exactly when every step meets its
condition.** -/
theorem along_inBounds_iff (disk : Disk) (memory : Memory) {ops : List Op}
    (hops : ∀ o ∈ ops, o.Probes) :
    Along Op.step InBounds (boot disk memory) ops ↔
      Along Op.step Sane (boot disk memory) ops :=
  along_congr_of_mem (fun o ho s => inBounds_iff s (hops o ho)) (boot disk memory)

/-- Over grounded tables a directory can be listed, and then any file that was found in it
printed: listing leaves the table and the current directory as they were. -/
theorem along_sane_ls_cat {k : Kernel} {d : Fin maxInodes} {name : CString}
    (h : GroundedTable k.inodeArray) (hd : Cwd k d) (hlookup : LookupSafe k name) :
    Along Op.step Sane k [.ls, .cat name] := by
  obtain ⟨printed, hls⟩ := vfsLs_eq h hd
  have hentries : ListSafe k :=
    (vfsLs_ok_iff k).1 ⟨_, hls, fun c hc => absurd hc.symm (Option.some_ne_none c)⟩
  refine ⟨hentries, fun k' hk' => ⟨?_, fun _ _ => trivial⟩⟩
  obtain rfl := Except.ok.inj ((Op.step_of_exec (o := .ls) hls).symm.trans hk')
  exact hlookup

/-- A root directory with one file can be listed, and the file can be printed. -/
theorem along_inBounds_installed :
    Along Op.step InBounds (bootWith [1, 2]) [.ls, .cat nameA] := by
  have hops : ∀ o ∈ [Op.ls, .cat nameA], o.Probes := by
    intro o ho
    rcases List.mem_pair.1 ho with rfl | rfl
    · trivial
    · trivial
  have hlookup : LookupSafe (bootWith [1, 2]) nameA :=
    (find_ok_iff _ _).1 ⟨_, find_bootWith [1, 2] nameA⟩
  have hsane : Along Op.step Sane (bootWith [1, 2]) [.ls, .cat nameA] :=
    along_sane_ls_cat (Reachable.bootWith [1, 2]).invariant.sound (cwd_bootWith [1, 2]) hlookup
  exact (along_inBounds_iff (diskWith [1, 2]) ⟨0, fun _ => 0⟩ hops).2 hsane

/-- A damaged table: the root directory has one entry, and that is no inode. -/
def damagedTable : InodeTable :=
  Function.update (fun _ => Inode.zero) 0
    { Inode.zero with
      type := inodeDir
      numEntries := 1
      dirEntries := fun j => if j.val = 0 then 1000 else 0 }

/-- Listing the root directory of the damaged table leaves the array of inodes. -/
theorem not_along_inBounds_damaged :
    ¬ Along Op.step InBounds (boot (vfsSync damagedTable fun _ _ => 0) ⟨0, fun _ => 0⟩) [.ls] := by
  rintro ⟨hls, -⟩
  have hroot : (diskTable (powerOn (vfsSync damagedTable fun _ _ => 0) ⟨0, fun _ => 0⟩).disk
      0).type = inodeDir := by
    change (diskTable (vfsSync damagedTable fun _ _ => 0) 0).type = inodeDir
    rw [diskTable_vfsSync, damagedTable, Function.update_self]
  have hprobes : Op.ls.Probes := trivial
  rw [inBounds_iff _ hprobes, boot, vfsInit_of_dir hroot] at hls
  change ListSafe { powerOn _ _ with inodeArray := diskTable (vfsSync damagedTable _) } at hls
  rw [diskTable_vfsSync] at hls
  obtain ⟨_, hall⟩ := hls
  have hcount : 0 < (damagedTable 0).numEntries.toNat := by
    rw [damagedTable, Function.update_self]
    decide
  obtain ⟨_, hentry, -⟩ := hall 0 hcount
  change ((damagedTable 0).dirEntries ⟨0, _⟩).toNat < maxInodes at hentry
  rw [damagedTable, Function.update_self] at hentry
  exact absurd hentry (show ¬ (1000 : UInt32).toNat < maxInodes by decide)

end Anaga
