/-
**Mapping pages: `mm/paging.c`.**

The page directory and the page table are arrays in memory, which the processor walks to translate
an address, and which the kernel writes through that same translation once paging is on.
`paging_init` maps the first 4 MB to themselves, the two arrays among them.  `paging_map_page`
writes one entry, if the directory has a page table for the address; it never makes one.

On the pages that have a page table the last call wins.  This is first said of the arrays as
functions, and then of memory, as long as the pages of the arrays themselves are left alone.

Main definitions:

* `Anaga.TableAddrs` — where the two arrays are;
* `Anaga.walk`, `Anaga.translate` — what the processor does with an address;
* `Anaga.TableAddrs.pagingInit`, `Anaga.TableAddrs.pagingMapPage` — the functions of `mm/paging.h`;
* `Anaga.MapCall`, `Anaga.lastFor` — a call, and the latest one for the page of an address;
* `Anaga.PageTables.map` — what a call does to the arrays;
* `Anaga.TableAddrs.Holds` — the arrays are in memory, and their own pages are mapped to themselves.

Main results:

* `Anaga.TableAddrs.holds_pagingInit` — `paging_init` writes the arrays;
* `Anaga.TableAddrs.Holds.step` — **a call does to memory what it does to the arrays**;
* `Anaga.walk_run` — **after any calls, the latest one for a page decides, below 4 MB; above, none
  does**.
-/

import Anaga.AddressSpace
import Anaga.CString

set_option relaxedAutoImplicit false
set_option autoImplicit false

namespace Anaga

open Transition

/-! ### Tables in memory -/

/-- Where `page_directory` and `first_page_table` are.  Each has a page of its own in the image, all
of which is in the first 4 MB. -/
structure TableAddrs where
  pageDirectory : UInt32
  firstPageTable : UInt32
  dir_aligned : pageDirectory.toNat % pageSize = 0
  table_aligned : firstPageTable.toNat % pageSize = 0
  ne : pageDirectory ≠ firstPageTable
  dir_lt : pageDirectory.toNat < 0x400000
  table_lt : firstPageTable.toNat < 0x400000

/-- The address of an entry of the array at `base`. -/
def entryAddr (base : UInt32) (i : ℕ) : UInt32 := base + UInt32.ofNat (4 * i)

/-- A loop that stores to the entries `is` of the array at `base`. -/
def storeEntries (base : UInt32) (entry : ℕ → UInt32) (is : List ℕ) (m : Ram) : Ram :=
  is.foldl (fun m i => storeWord m (entryAddr base i) (entry i)) m

/-- `paging_init`, but for loading `cr3` and `cr0`. -/
def TableAddrs.pagingInit (a : TableAddrs) (m : Ram) : Ram :=
  let m := storeEntries a.firstPageTable
    (fun i => UInt32.ofNat (i * pageSize) ||| pagePresent ||| pageRw ||| pageUser)
    (List.range pageEntries) m
  let m := storeWord m a.pageDirectory (a.firstPageTable ||| pagePresent ||| pageRw ||| pageUser)
  storeEntries a.pageDirectory (fun _ => 0) (List.range' 1 (pageEntries - 1)) m

/-- The page table entry that the processor finds for an address, if it is present. -/
def walk (m : Ram) (cr3 virt : UInt32) : Option UInt32 :=
  let pde := loadWord m (entryAddr (cr3 &&& 0xFFFFF000) (pdIdx virt))
  if pde &&& pagePresent = 0 then none
  else
    let pte := loadWord m (entryAddr (pde &&& 0xFFFFF000) (ptIdx virt))
    if pte &&& pagePresent = 0 then none else some pte

/-- The physical address of an address.  Without one there is a page fault. -/
def translate (m : Ram) (cr3 virt : UInt32) : Except Fault UInt32 :=
  match walk m cr3 virt with
  | none => .error .area
  | some pte => .ok ((pte &&& 0xFFFFF000) ||| (virt &&& 0xFFF))

/-- `paging_map_page`, with paging on. -/
def TableAddrs.pagingMapPage (a : TableAddrs) (virt phys flags : UInt32) (m : Ram) :
    Except Fault Ram :=
  translate m a.pageDirectory (entryAddr a.pageDirectory (pdIdx virt)) >>= fun addr =>
  let pde := loadWord m addr
  if pde &&& pagePresent = 0 then .ok m
  else
    let pt := pde &&& 0xFFFFF000
    translate m a.pageDirectory (entryAddr pt (ptIdx virt)) >>= fun addr =>
    .ok (storeWord m addr ((phys &&& 0xFFFFF000) ||| (flags &&& 0xFFF) ||| pagePresent))

/-- A call of `paging_map_page`. -/
structure MapCall where
  virt : UInt32
  phys : UInt32
  flags : UInt32

/-- The call, as a step. -/
def MapCall.step (a : TableAddrs) (m : Ram) (c : MapCall) : Except Fault Ram :=
  a.pagingMapPage c.virt c.phys c.flags m

/-- The entry that the call writes. -/
def MapCall.entry (c : MapCall) : UInt32 :=
  (c.phys &&& 0xFFFFF000) ||| (c.flags &&& 0xFFF) ||| pagePresent

/-- The number of the page of an address. -/
def pageNumber (virt : UInt32) : ℕ := virt.toNat / pageSize

/-- The latest call for the page of the address. -/
def lastFor (calls : List MapCall) (virt : UInt32) : Option MapCall :=
  (calls.filter fun c => pageNumber c.virt = pageNumber virt).getLast?

/-- The calls leave the pages of the two arrays alone. -/
def TableAddrs.Spares (a : TableAddrs) (c : MapCall) : Prop :=
  pageNumber c.virt ≠ pageNumber a.pageDirectory ∧ pageNumber c.virt ≠ pageNumber a.firstPageTable

instance (a : TableAddrs) (c : MapCall) : Decidable (a.Spares c) :=
  inferInstanceAs (Decidable (_ ∧ _))

/-- The walk finds the physical page of the call, with its flags and `PAGE_PRESENT`. -/
def MapCall.Found (c : MapCall) (m : Ram) (cr3 virt : UInt32) : Prop :=
  ∃ pte, walk m cr3 virt = some pte ∧ pte &&& 0xFFFFF000 = c.phys &&& 0xFFFFF000 ∧
    pte &&& 0xFFF = (c.flags &&& 0xFFF) ||| pagePresent

/-! ### Words of an array -/

theorem toNat_entryAddr {base : UInt32} {i : ℕ} (h : base.toNat + 4 * (i + 1) ≤ 2 ^ 32) :
    (entryAddr base i).toNat = base.toNat + 4 * i := by
  rw [entryAddr, UInt32.toNat_add, UInt32.toNat_ofNat']
  omega

section Entries

variable {base : UInt32} {entry : ℕ → UInt32} {is : List ℕ}
  (hfit : ∀ i ∈ is, base.toNat + 4 * (i + 1) ≤ 2 ^ 32)

include hfit

/-- The loop leaves the words that are none of the entries. -/
theorem loadWord_storeEntries_of_apart {q : UInt32} (hq : q.toNat + 4 ≤ 2 ^ 32)
    (h : ∀ i ∈ is, base.toNat + 4 * (i + 1) ≤ q.toNat ∨ q.toNat + 4 ≤ base.toNat + 4 * i)
    (m : Ram) : loadWord (storeEntries base entry is m) q = loadWord m q := by
  induction is generalizing m with
  | nil => rfl
  | cons i is ih =>
      have hi := hfit i List.mem_cons_self
      have haddr := toNat_entryAddr hi
      have happ := h i List.mem_cons_self
      change loadWord (storeEntries base entry is (storeWord m (entryAddr base i) (entry i))) q = _
      rw [ih (fun j hj => hfit j (List.mem_cons_of_mem i hj))
        (fun j hj => h j (List.mem_cons_of_mem i hj)),
        loadWord_storeWord_of_apart m _ hq (by omega) (by omega)]

/-- The loop stores every entry once. -/
theorem loadWord_storeEntries (hnodup : is.Nodup) {i : ℕ} (hi : i ∈ is) (m : Ram) :
    loadWord (storeEntries base entry is m) (entryAddr base i) = entry i := by
  induction is generalizing m with
  | nil => exact absurd hi List.not_mem_nil
  | cons j is ih =>
      obtain ⟨hj, hnodup'⟩ := List.nodup_cons.1 hnodup
      have hfit' : ∀ i ∈ is, base.toNat + 4 * (i + 1) ≤ 2 ^ 32 :=
        fun k hk => hfit k (List.mem_cons_of_mem j hk)
      change loadWord (storeEntries base entry is (storeWord m (entryAddr base j) (entry j))) _ = _
      rcases List.mem_cons.1 hi with rfl | hi'
      · have hi'' := hfit i List.mem_cons_self
        have haddr := toNat_entryAddr hi''
        rw [loadWord_storeEntries_of_apart hfit' (by omega), loadWord_storeWord]
        intro k hk
        have hne : k ≠ i := fun he => hj (he ▸ hk)
        omega
      · exact ih hfit' hnodup' hi' _

end Entries

/-! ### Frames and flags -/

theorem or_and_distrib (x y z : UInt32) : (x ||| y) &&& z = (x &&& z) ||| (y &&& z) :=
  UInt32.toBitVec_inj.1 BitVec.and_or_distrib_right

/-- The address of a page is its frame. -/
theorem and_frame_of_aligned {x : UInt32} (h : x.toNat % pageSize = 0) : x &&& 0xFFFFF000 = x := by
  have hoffset : x &&& 0xFFF = 0 := by
    rw [← UInt32.toNat_inj, UInt32.toNat_and]
    exact (Nat.and_two_pow_sub_one_eq_mod x.toNat 12).trans h
  have hall : (0xFFFFF000 : UInt32) ||| 0xFFF = -1 := by decide
  have hsplit : (x &&& 0xFFFFF000) ||| (x &&& 0xFFF) = x := by
    rw [UInt32.and_comm x, UInt32.and_comm x, ← or_and_distrib, hall, UInt32.neg_one_and]
  rwa [hoffset, UInt32.or_zero] at hsplit

/-- An address is its page and its offset. -/
theorem page_or_offset (x : UInt32) :
    UInt32.ofNat (x.toNat / pageSize * pageSize) ||| (x &&& 0xFFF) = x := by
  have hx := x.toNat_lt
  have hoffset : x.toNat &&& 0xFFF = x.toNat % 2 ^ 12 :=
    Nat.and_two_pow_sub_one_eq_mod x.toNat 12
  have hlt : x.toNat % 2 ^ 12 < 2 ^ 12 := Nat.mod_lt _ (by norm_num)
  have hpage : x.toNat / pageSize * pageSize = 2 ^ 12 * (x.toNat / 2 ^ 12) :=
    Nat.mul_comm _ _
  rw [← UInt32.toNat_inj, UInt32.toNat_or, UInt32.toNat_and, UInt32.toNat_ofNat',
    Nat.mod_eq_of_lt (by simp only [pageSize]; omega), hpage]
  change 2 ^ 12 * (x.toNat / 2 ^ 12) ||| (x.toNat &&& 0xFFF) = _
  rw [hoffset, ← Nat.two_pow_add_eq_or_of_lt hlt, Nat.div_add_mod]

/-- The frame of an entry that `paging_init` writes. -/
theorem frame_of_flags {x : UInt32} (h : x.toNat % pageSize = 0) :
    (x ||| pagePresent ||| pageRw ||| pageUser) &&& 0xFFFFF000 = x := by
  have hflags : pagePresent &&& (0xFFFFF000 : UInt32) = 0 ∧ pageRw &&& (0xFFFFF000 : UInt32) = 0 ∧
      pageUser &&& (0xFFFFF000 : UInt32) = 0 := by decide
  rw [or_and_distrib, or_and_distrib, or_and_distrib, hflags.1, hflags.2.1, hflags.2.2,
    UInt32.or_zero, UInt32.or_zero, UInt32.or_zero, and_frame_of_aligned h]

section Entry

variable (c : MapCall)

theorem entry_frame : c.entry &&& 0xFFFFF000 = c.phys &&& 0xFFFFF000 := by
  have hmask : (0xFFFFF000 : UInt32) &&& 0xFFFFF000 = 0xFFFFF000 := by decide
  have hflags : (0xFFF : UInt32) &&& 0xFFFFF000 = 0 := by decide
  have hpresent : pagePresent &&& (0xFFFFF000 : UInt32) = 0 := by decide
  rw [MapCall.entry, or_and_distrib, or_and_distrib, UInt32.and_assoc, UInt32.and_assoc, hmask,
    hflags, hpresent, UInt32.and_zero, UInt32.or_zero, UInt32.or_zero]

theorem entry_flags : c.entry &&& 0xFFF = (c.flags &&& 0xFFF) ||| pagePresent := by
  have hmask : (0xFFFFF000 : UInt32) &&& 0xFFF = 0 := by decide
  have hflags : (0xFFF : UInt32) &&& 0xFFF = 0xFFF := by decide
  have hpresent : pagePresent &&& (0xFFF : UInt32) = pagePresent := by decide
  rw [MapCall.entry, or_and_distrib, or_and_distrib, UInt32.and_assoc, UInt32.and_assoc, hmask,
    hflags, hpresent, UInt32.and_zero, UInt32.zero_or]

theorem entry_present : c.entry &&& pagePresent ≠ 0 := by
  intro h
  have hbit := congrArg (fun w : UInt32 => w.toBitVec.getLsbD 0) h
  simp [MapCall.entry, pagePresent] at hbit

end Entry

/-! ### The arrays as functions -/

namespace PageTables

/-- What a call does to the arrays. -/
def map (t : PageTables) (c : MapCall) : PageTables :=
  if t.pageDirectory (pdIdx c.virt) &&& pagePresent = 0 then t
  else { t with firstPageTable := Function.update t.firstPageTable (ptIdx c.virt) c.entry }

/-- The entry for an address, if it is present. -/
def lookup (t : PageTables) (virt : UInt32) : Option UInt32 :=
  if t.pageDirectory (pdIdx virt) &&& pagePresent = 0 then none
  else if t.firstPageTable (ptIdx virt) &&& pagePresent = 0 then none
  else some (t.firstPageTable (ptIdx virt))

variable {t : PageTables} {firstPageTable : UInt32}

/-- Only the first entry of the directory has a page table. -/
theorem directory_eq_zero_iff
    (hdir : t.pageDirectory = (pagingInit firstPageTable).pageDirectory) (virt : UInt32) :
    t.pageDirectory (pdIdx virt) &&& pagePresent = 0 ↔ 0x400000 ≤ virt.toNat := by
  have hzero : (pdIdx virt).val = 0 ↔ virt.toNat < 0x400000 := by
    simp only [pdIdx]
    omega
  rw [hdir, pagingInit]
  dsimp only
  split_ifs with h
  · exact iff_of_false (flags_present _) (not_le.2 (hzero.1 h))
  · exact iff_of_true UInt32.zero_and (not_lt.1 (mt hzero.2 h))

theorem map_pageDirectory (t : PageTables) (c : MapCall) :
    (t.map c).pageDirectory = t.pageDirectory := by
  rw [map]
  split_ifs
  · rfl
  · rfl

theorem lookup_of_le (hdir : t.pageDirectory = (pagingInit firstPageTable).pageDirectory)
    {virt : UInt32} (h : 0x400000 ≤ virt.toNat) : t.lookup virt = none := by
  rw [lookup, if_pos ((directory_eq_zero_iff hdir virt).2 h)]

/-- Below 4 MB the page of an address is its place in the page table. -/
theorem ptIdx_eq_iff {x y : UInt32} (hx : x.toNat < 0x400000) (hy : y.toNat < 0x400000) :
    ptIdx x = ptIdx y ↔ pageNumber x = pageNumber y := by
  rw [ptIdx, ptIdx, Fin.mk.injEq, pageNumber, pageNumber]
  simp only [pageSize, pageEntries]
  omega

/-- **A call decides for its page, below 4 MB, and for no other.** -/
theorem lookup_map (hdir : t.pageDirectory = (pagingInit firstPageTable).pageDirectory)
    (c : MapCall) (virt : UInt32) :
    (t.map c).lookup virt =
      if pageNumber c.virt = pageNumber virt ∧ virt.toNat < 0x400000 then some c.entry
      else t.lookup virt := by
  have hdir' : (t.map c).pageDirectory = (pagingInit firstPageTable).pageDirectory :=
    (map_pageDirectory t c).trans hdir
  by_cases hvirt : virt.toNat < 0x400000
  · have hpresent := mt (directory_eq_zero_iff hdir virt).1 (not_le.2 hvirt)
    have hpresent' := mt (directory_eq_zero_iff hdir' virt).1 (not_le.2 hvirt)
    by_cases hcall : c.virt.toNat < 0x400000
    · have hpresent'' := mt (directory_eq_zero_iff hdir c.virt).1 (not_le.2 hcall)
      have htable : (t.map c).firstPageTable =
          Function.update t.firstPageTable (ptIdx c.virt) c.entry := by
        rw [map, if_neg hpresent'']
      rw [lookup, lookup, if_neg hpresent, if_neg hpresent', htable]
      by_cases hpage : pageNumber c.virt = pageNumber virt
      · have hsame : ptIdx virt = ptIdx c.virt := (ptIdx_eq_iff hvirt hcall).2 hpage.symm
        rw [hsame, Function.update_self, if_neg (entry_present c)]
        exact (if_pos ⟨hpage, hvirt⟩).symm
      · have hother : ptIdx virt ≠ ptIdx c.virt :=
          fun h => hpage ((ptIdx_eq_iff hvirt hcall).1 h).symm
        rw [Function.update_of_ne hother]
        exact (if_neg fun h => hpage h.1).symm
    · -- the call returns at once
      have habsent := (directory_eq_zero_iff hdir c.virt).2 (not_lt.1 hcall)
      have hpage : pageNumber c.virt ≠ pageNumber virt := by
        simp only [pageNumber, pageSize]
        omega
      rw [map, if_pos habsent, if_neg fun h => hpage h.1]
  · rw [lookup_of_le hdir' (not_lt.1 hvirt), lookup_of_le hdir (not_lt.1 hvirt),
      if_neg fun h => hvirt h.2]

theorem foldl_map_pageDirectory (t : PageTables) (calls : List MapCall) :
    (calls.foldl map t).pageDirectory = t.pageDirectory := by
  induction calls generalizing t with
  | nil => rfl
  | cons c calls ih => rw [List.foldl_cons, ih, map_pageDirectory]

end PageTables

theorem lastFor_concat (calls : List MapCall) (c : MapCall) (virt : UInt32) :
    lastFor (calls ++ [c]) virt =
      if pageNumber c.virt = pageNumber virt then some c else lastFor calls virt := by
  simp only [lastFor, List.getLast?_filter, List.reverse_concat, List.find?_cons]
  split_ifs with hpage
  · rw [decide_eq_true hpage]
  · rw [decide_eq_false hpage]

/-- **The last call for a page wins**, if the page is below 4 MB. -/
theorem lookup_foldl_map {t : PageTables} {firstPageTable : UInt32}
    (hdir : t.pageDirectory = (pagingInit firstPageTable).pageDirectory) (calls : List MapCall)
    (virt : UInt32) :
    (calls.foldl PageTables.map t).lookup virt =
      if virt.toNat < 0x400000 then (lastFor calls virt).elim (t.lookup virt) (some ·.entry)
      else t.lookup virt := by
  induction calls using List.reverseRecOn with
  | nil => exact (ite_self _).symm
  | append_singleton calls c ih =>
      have hdir' : (calls.foldl PageTables.map t).pageDirectory =
          (pagingInit firstPageTable).pageDirectory :=
        (PageTables.foldl_map_pageDirectory t calls).trans hdir
      rw [List.foldl_append, List.foldl_cons, List.foldl_nil, PageTables.lookup_map hdir' c virt,
        lastFor_concat, ih]
      by_cases hvirt : virt.toNat < 0x400000
      · by_cases hpage : pageNumber c.virt = pageNumber virt
        · rw [if_pos ⟨hpage, hvirt⟩, if_pos hvirt, if_pos hpage]
          rfl
        · rw [if_neg fun h => hpage h.1, if_pos hvirt, if_pos hvirt, if_neg hpage]
      · rw [if_neg fun h => hvirt h.2, if_neg hvirt, if_neg hvirt]

/-! ### The arrays in memory -/

namespace TableAddrs

variable {a : TableAddrs} {m : Ram} {t : PageTables}

/-- The arrays are in memory, the directory is as `paging_init` left it, and the two pages that the
arrays are in are mapped to themselves. -/
structure Holds (a : TableAddrs) (m : Ram) (t : PageTables) : Prop where
  dir : ∀ i : Fin pageEntries, loadWord m (entryAddr a.pageDirectory i) = t.pageDirectory i
  table : ∀ i : Fin pageEntries, loadWord m (entryAddr a.firstPageTable i) = t.firstPageTable i
  pageDirectory : t.pageDirectory = (Anaga.pagingInit a.firstPageTable).pageDirectory
  own_dir : t.firstPageTable (ptIdx a.pageDirectory) =
    (Anaga.pagingInit a.firstPageTable).firstPageTable (ptIdx a.pageDirectory)
  own_table : t.firstPageTable (ptIdx a.firstPageTable) =
    (Anaga.pagingInit a.firstPageTable).firstPageTable (ptIdx a.firstPageTable)

/-- The two arrays do not overlap. -/
theorem apart (a : TableAddrs) :
    a.pageDirectory.toNat + pageSize ≤ a.firstPageTable.toNat ∨
      a.firstPageTable.toNat + pageSize ≤ a.pageDirectory.toNat := by
  have hne : a.pageDirectory.toNat ≠ a.firstPageTable.toNat := fun h => a.ne (UInt32.toNat_inj.1 h)
  have hdir := a.dir_aligned
  have htable := a.table_aligned
  simp only [pageSize] at hdir htable ⊢
  omega

/-- **`paging_init` writes the arrays.** -/
theorem holds_pagingInit (a : TableAddrs) (m : Ram) :
    a.Holds (a.pagingInit m) (Anaga.pagingInit a.firstPageTable) := by
  have happ := a.apart
  have hdir := a.dir_lt
  have htable := a.table_lt
  simp only [pageSize] at happ
  -- where the entries are, and that the three stores do not get in each other's way
  have hfit : ∀ {base : UInt32}, base.toNat < 0x400000 → ∀ i, i < 1024 →
      base.toNat + 4 * (i + 1) ≤ 2 ^ 32 := by
    intro base hbase i hi
    omega
  have hrest : ∀ i ∈ List.range' 1 (pageEntries - 1), 1 ≤ i ∧ i < 1024 := by
    intro i hi
    exact ⟨(List.mem_range'_1.1 hi).1, (List.mem_range'_1.1 hi).2⟩
  have hzero : entryAddr a.pageDirectory 0 = a.pageDirectory := UInt32.add_zero _
  refine ⟨fun i => ?_, fun i => ?_, rfl, rfl, rfl⟩
  · have hi := i.isLt
    have haddr := toNat_entryAddr (hfit hdir i hi)
    rw [pagingInit]
    by_cases hi0 : i.val = 0
    · rw [hi0, hzero, loadWord_storeEntries_of_apart (fun j hj => hfit hdir j (hrest j hj).2)
        (by omega) (fun j hj => Or.inr (by have := (hrest j hj).1; omega)), loadWord_storeWord]
      exact (if_pos hi0).symm
    · have hmem : i.val ∈ List.range' 1 (pageEntries - 1) :=
        List.mem_range'_1.2 ⟨by omega, by simp only [pageEntries] at hi ⊢; omega⟩
      rw [loadWord_storeEntries (fun j hj => hfit hdir j (hrest j hj).2) List.nodup_range' hmem]
      exact (if_neg hi0).symm
  · have hi := i.isLt
    have haddr := toNat_entryAddr (hfit htable i hi)
    have hmem : i.val ∈ List.range pageEntries := List.mem_range.2 hi
    simp only [pageEntries] at hi
    rw [pagingInit, loadWord_storeEntries_of_apart (fun j hj => hfit hdir j (hrest j hj).2)
      (by omega) (fun j hj => by have := hrest j hj; omega),
      loadWord_storeWord_of_apart _ _ (by omega) (by omega) (by omega),
      loadWord_storeEntries (fun j hj => hfit htable j (List.mem_range.1 hj)) List.nodup_range hmem]
    rfl

/-- Below 4 MB the directory leads to the page table. -/
theorem Holds.frame (h : a.Holds m t) {virt : UInt32} (hvirt : virt.toNat < 0x400000) :
    t.pageDirectory (pdIdx virt) &&& 0xFFFFF000 = a.firstPageTable := by
  have hzero : (pdIdx virt).val = 0 := by
    simp only [pdIdx]
    omega
  rw [h.pageDirectory, Anaga.pagingInit]
  dsimp only
  rw [if_pos hzero, frame_of_flags a.table_aligned]

/-- **The walk finds what is in the arrays.** -/
theorem Holds.walk (h : a.Holds m t) (virt : UInt32) :
    walk m a.pageDirectory virt = t.lookup virt := by
  have hdir := PageTables.directory_eq_zero_iff h.pageDirectory virt
  rw [Anaga.walk, and_frame_of_aligned a.dir_aligned]
  dsimp only
  rw [h.dir, PageTables.lookup]
  by_cases hvirt : virt.toNat < 0x400000
  · have hpresent := mt hdir.1 (not_le.2 hvirt)
    rw [if_neg hpresent, if_neg hpresent, h.frame hvirt, h.table]
  · have habsent := hdir.2 (not_lt.1 hvirt)
    rw [if_pos habsent, if_pos habsent]

/-- A page that is still mapped to itself is translated to itself. -/
theorem Holds.translate (h : a.Holds m t) {base : UInt32} (haligned : base.toNat % pageSize = 0)
    (hlt : base.toNat < 0x400000)
    (hown : t.firstPageTable (ptIdx base) =
      (Anaga.pagingInit a.firstPageTable).firstPageTable (ptIdx base)) (i : Fin pageEntries) :
    translate m a.pageDirectory (entryAddr base i) = .ok (entryAddr base i) := by
  have hi : i.val < 1024 := i.isLt
  have haddr : (entryAddr base i).toNat = base.toNat + 4 * i := toNat_entryAddr (by omega)
  simp only [pageSize] at haligned
  have hidx : ptIdx (entryAddr base i) = ptIdx base := by
    rw [ptIdx, ptIdx, Fin.mk.injEq, haddr]
    simp only [pageEntries]
    omega
  have hvirt : (entryAddr base i).toNat < 0x400000 := by omega
  have hpage : UInt32.ofNat ((ptIdx base).val * pageSize) =
      UInt32.ofNat ((entryAddr base i).toNat / pageSize * pageSize) := by
    rw [haddr, ptIdx]
    simp only [pageSize, pageEntries]
    congr 2
    omega
  have hmod : (UInt32.ofNat ((ptIdx base).val * pageSize)).toNat % pageSize = 0 := by
    have hlt' : (ptIdx base).val < 1024 := (ptIdx base).isLt
    have hfit : (ptIdx base).val * pageSize < 2 ^ 32 := by
      simp only [pageSize]
      omega
    rw [UInt32.toNat_ofNat', Nat.mod_eq_of_lt hfit]
    exact Nat.mul_mod_left _ _
  have hpresent := mt (PageTables.directory_eq_zero_iff h.pageDirectory (entryAddr base i)).1
    (not_le.2 hvirt)
  rw [Anaga.translate, h.walk, PageTables.lookup, if_neg hpresent, hidx, hown, Anaga.pagingInit]
  dsimp only
  rw [if_neg (flags_present _)]
  dsimp only
  rw [frame_of_flags hmod, hpage, page_or_offset]

/-- Storing an entry of the page table that is not that of the pages of the arrays. -/
theorem Holds.storeWord (h : a.Holds m t) {j : Fin pageEntries} (hdir : ptIdx a.pageDirectory ≠ j)
    (htable : ptIdx a.firstPageTable ≠ j) (w : UInt32) :
    a.Holds (storeWord m (entryAddr a.firstPageTable j) w)
      { t with firstPageTable := Function.update t.firstPageTable j w } := by
  have happ := a.apart
  have hdirLt := a.dir_lt
  have htableLt := a.table_lt
  simp only [pageSize] at happ
  have hj : j.val < 1024 := j.isLt
  have hjAddr : (entryAddr a.firstPageTable j).toNat = a.firstPageTable.toNat + 4 * j :=
    toNat_entryAddr (by omega)
  constructor
  · intro i
    have hi : i.val < 1024 := i.isLt
    have hiAddr : (entryAddr a.pageDirectory i).toNat = a.pageDirectory.toNat + 4 * i :=
      toNat_entryAddr (by omega)
    rw [loadWord_storeWord_of_apart _ _ (by omega) (by omega) (by omega)]
    exact h.dir i
  · intro i
    dsimp only
    rcases eq_or_ne i j with rfl | hne
    · rw [loadWord_storeWord, Function.update_self]
    · have hi : i.val < 1024 := i.isLt
      have hiAddr : (entryAddr a.firstPageTable i).toNat = a.firstPageTable.toNat + 4 * i :=
        toNat_entryAddr (by omega)
      have hval : i.val ≠ j.val := fun he => hne (Fin.ext he)
      rw [loadWord_storeWord_of_apart _ _ (by omega) (by omega) (by omega),
        Function.update_of_ne hne]
      exact h.table i
  · exact h.pageDirectory
  · dsimp only
    rw [Function.update_of_ne hdir]
    exact h.own_dir
  · dsimp only
    rw [Function.update_of_ne htable]
    exact h.own_table

/-- **A call does to memory what it does to the arrays**, if it leaves their pages alone. -/
theorem Holds.step (h : a.Holds m t) {c : MapCall} (hc : a.Spares c) :
    ∃ m', c.step a m = .ok m' ∧ a.Holds m' (t.map c) := by
  have hdir := PageTables.directory_eq_zero_iff h.pageDirectory c.virt
  rw [MapCall.step, pagingMapPage, h.translate a.dir_aligned a.dir_lt h.own_dir, ok_bind,
    PageTables.map]
  dsimp only
  rw [h.dir]
  by_cases hcall : c.virt.toNat < 0x400000
  · have hpresent := mt hdir.1 (not_le.2 hcall)
    have hother : ∀ {base : UInt32}, base.toNat < 0x400000 →
        pageNumber c.virt ≠ pageNumber base → ptIdx base ≠ ptIdx c.virt :=
      fun hbase hne heq => hne ((PageTables.ptIdx_eq_iff hbase hcall).1 heq).symm
    rw [if_neg hpresent, if_neg hpresent, h.frame hcall,
      h.translate a.table_aligned a.table_lt h.own_table, ok_bind]
    exact ⟨_, rfl, h.storeWord (hother a.dir_lt hc.1) (hother a.table_lt hc.2) c.entry⟩
  · have habsent := hdir.2 (not_lt.1 hcall)
    rw [if_pos habsent, if_pos habsent]
    exact ⟨m, rfl, h⟩

/-- **So does a run.** -/
theorem Holds.run (h : a.Holds m t) {calls : List MapCall} (hcalls : ∀ c ∈ calls, a.Spares c) :
    ∃ m', run (MapCall.step a) m calls = .ok m' ∧ a.Holds m' (calls.foldl PageTables.map t) := by
  induction calls generalizing m t with
  | nil => exact ⟨m, rfl, h⟩
  | cons c calls ih =>
      obtain ⟨hc, hrest⟩ := List.forall_mem_cons.1 hcalls
      obtain ⟨m₁, hstep, h₁⟩ := h.step hc
      obtain ⟨m', hrun, h'⟩ := ih h₁ hrest
      exact ⟨m', run_cons_eq_ok.2 ⟨m₁, hstep, hrun⟩, h'⟩

end TableAddrs

/-! ### The last call for a page -/

/-- What `paging_init` maps: the pages below 4 MB to themselves. -/
theorem walk_pagingInit (a : TableAddrs) (m : Ram) (virt : UInt32) :
    walk (a.pagingInit m) a.pageDirectory virt =
      if virt.toNat < 0x400000 then
        some (UInt32.ofNat (pageNumber virt * pageSize) ||| pagePresent ||| pageRw ||| pageUser)
      else none := by
  have h := a.holds_pagingInit m
  rw [h.walk]
  by_cases hvirt : virt.toNat < 0x400000
  · have hpresent := mt (PageTables.directory_eq_zero_iff h.pageDirectory virt).1
      (not_le.2 hvirt)
    have hidx : (ptIdx virt).val = pageNumber virt := by
      rw [ptIdx, pageNumber]
      simp only [pageSize, pageEntries]
      omega
    rw [if_pos hvirt, PageTables.lookup, if_neg hpresent, pagingInit]
    dsimp only
    rw [if_neg (flags_present _), hidx]
  · rw [if_neg hvirt, PageTables.lookup_of_le h.pageDirectory (not_lt.1 hvirt)]

/-- **After `paging_init` and any calls that leave the pages of the arrays alone, the latest call for
a page decides, if the page is below 4 MB.**  For a page that no call was for, and for every page
from 4 MB on, the walk is as `paging_init` left it, and from 4 MB on that is none. -/
theorem walk_run (a : TableAddrs) (m : Ram) {calls : List MapCall}
    (hcalls : ∀ c ∈ calls, a.Spares c) :
    ∃ m', run (MapCall.step a) (a.pagingInit m) calls = .ok m' ∧ ∀ virt,
      (∀ c, lastFor calls virt = some c → virt.toNat < 0x400000 →
        c.Found m' a.pageDirectory virt) ∧
      (lastFor calls virt = none ∨ 0x400000 ≤ virt.toNat →
        walk m' a.pageDirectory virt = walk (a.pagingInit m) a.pageDirectory virt) ∧
      walk (a.pagingInit m) a.pageDirectory virt =
        if virt.toNat < 0x400000 then
          some (UInt32.ofNat (pageNumber virt * pageSize) ||| pagePresent ||| pageRw ||| pageUser)
        else none := by
  have h := a.holds_pagingInit m
  obtain ⟨m', hrun, h'⟩ := h.run hcalls
  refine ⟨m', hrun, fun virt => ?_⟩
  have hlookup : walk m' a.pageDirectory virt = _ :=
    (h'.walk virt).trans (lookup_foldl_map h.pageDirectory calls virt)
  refine ⟨fun c hc hvirt => ?_, fun hnone => ?_, walk_pagingInit a m virt⟩
  · rw [if_pos hvirt, hc, Option.elim_some] at hlookup
    exact ⟨c.entry, hlookup, entry_frame c, entry_flags c⟩
  · rw [hlookup, h.walk]
    rcases hnone with hnone | hhigh
    · rw [hnone, Option.elim_none, ite_self]
    · rw [if_neg (not_lt.2 hhigh)]

/-- The arrays behind the first page of the image. -/
def exampleAddrs : TableAddrs where
  pageDirectory := 0x101000
  firstPageTable := 0x102000
  dir_aligned := by decide
  table_aligned := by decide
  ne := by decide
  dir_lt := by decide
  table_lt := by decide

/-- A page that is mapped twice. -/
theorem walk_run_twice :
    ∃ m', run (MapCall.step exampleAddrs) (exampleAddrs.pagingInit fun _ => 0)
        [⟨0x5000, 0xA0000, 1⟩, ⟨0x5123, 0xB8000, 3⟩] = .ok m' ∧
      (⟨0x5123, 0xB8000, 3⟩ : MapCall).Found m' 0x101000 0x5FFF := by
  have hcalls : ∀ c ∈ [(⟨0x5000, 0xA0000, 1⟩ : MapCall), ⟨0x5123, 0xB8000, 3⟩],
      exampleAddrs.Spares c := by
    simp only [List.forall_mem_cons]
    exact ⟨by decide, by decide, fun c hc => absurd hc List.not_mem_nil⟩
  obtain ⟨m', hrun, hwalk⟩ := walk_run exampleAddrs (fun _ => 0) hcalls
  exact ⟨m', hrun, (hwalk 0x5FFF).1 _ rfl (by decide)⟩

/-- **The first page behind 4 MB is not mapped by a call for it.** -/
theorem not_found_high :
    exampleAddrs.Spares ⟨0x400000, 0x400000, 3⟩ ∧
      ∃ m', run (MapCall.step exampleAddrs) (exampleAddrs.pagingInit fun _ => 0)
          [⟨0x400000, 0x400000, 3⟩] = .ok m' ∧
        lastFor [⟨0x400000, 0x400000, 3⟩] 0x400000 = some ⟨0x400000, 0x400000, 3⟩ ∧
        ¬ (⟨0x400000, 0x400000, 3⟩ : MapCall).Found m' 0x101000 0x400000 := by
  have hspares : exampleAddrs.Spares ⟨0x400000, 0x400000, 3⟩ := by decide
  obtain ⟨m', hstep, h'⟩ := (exampleAddrs.holds_pagingInit fun _ => 0).step hspares
  refine ⟨hspares, m', (run_singleton _ _).trans hstep, rfl, ?_⟩
  rintro ⟨pte, hwalk, -⟩
  have hnone : walk m' 0x101000 0x400000 = none :=
    (h'.walk 0x400000).trans (PageTables.lookup_of_le h'.pageDirectory (by decide))
  rw [hnone] at hwalk
  exact absurd hwalk.symm (Option.some_ne_none pte)

end Anaga
