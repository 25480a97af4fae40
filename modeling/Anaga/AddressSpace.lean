/-
**The address space: the heap, the page tables, the image and the user program.**

Four parts of the kernel lay out the same addresses.  The allocator takes the heap to be the 4 MB
from `0x100000` on, `mm/paging.c` maps the first 4 MB and nothing else, `linker.ld` puts the
kernel itself at 1 MB, and user programs are linked to `0x200000` and start with their stack below
`0x300000`.  The heap starts where the image starts, so the first block is in the image.

Main definitions:

* `Anaga.PageTables`, `Anaga.pagingInit` — the tables that are loaded at the start;
* `Anaga.Layout` — where the image and the text of the user program end;
* `Anaga.Usable` — an address that is mapped and belongs to none of the others;
* `Anaga.HeapOp.Usable` — every byte that a call of `kmalloc` gives out is usable.

Main results:

* `Anaga.present_pagingInit_iff` — **the first 4 MB are mapped, and nothing else**;
* `Anaga.kmalloc_whole` — what `kmalloc` returns while nothing is allocated;
* `Anaga.along_usable_iff` — **the heap is usable exactly as long as every request is refused**.
-/

import Anaga.HeapRuns

set_option relaxedAutoImplicit false
set_option autoImplicit false

namespace Anaga

open FirstFit Transition

/-! ### Paging -/

/-- `PAGE_SIZE`. -/
def pageSize : ℕ := 4096

/-- `PAGE_ENTRIES`. -/
abbrev pageEntries : ℕ := 1024

/-- `PAGE_PRESENT`. -/
def pagePresent : UInt32 := 0x001

/-- `PAGE_RW`. -/
def pageRw : UInt32 := 0x002

/-- `PAGE_USER`. -/
def pageUser : UInt32 := 0x004

/-- `page_directory` and `first_page_table`. -/
structure PageTables where
  pageDirectory : Fin pageEntries → UInt32
  firstPageTable : Fin pageEntries → UInt32

/-- `paging_init`, for a page table at the given address. -/
def pagingInit (firstPageTable : UInt32) : PageTables where
  firstPageTable := fun i => UInt32.ofNat (i * pageSize) ||| pagePresent ||| pageRw ||| pageUser
  pageDirectory := fun i =>
    if i.val = 0 then firstPageTable ||| pagePresent ||| pageRw ||| pageUser else 0

/-- `virt >> 22`. -/
def pdIdx (virt : UInt32) : Fin pageEntries :=
  ⟨virt.toNat / 2 ^ 22, Nat.div_lt_of_lt_mul virt.toNat_lt⟩

/-- `(virt >> 12) & 0x3FF`. -/
def ptIdx (virt : UInt32) : Fin pageEntries :=
  ⟨virt.toNat / 2 ^ 12 % pageEntries, Nat.mod_lt _ (by decide)⟩

/-- The page of the address is present.  The one page table there is belongs to the first entry of
the directory. -/
def PageTables.Present (t : PageTables) (virt : UInt32) : Prop :=
  t.pageDirectory (pdIdx virt) &&& pagePresent ≠ 0 ∧ (pdIdx virt).val = 0 ∧
    t.firstPageTable (ptIdx virt) &&& pagePresent ≠ 0

instance (t : PageTables) (virt : UInt32) : Decidable (t.Present virt) :=
  inferInstanceAs (Decidable (_ ∧ _ ∧ _))

/-- An entry with these flags is present, whatever page it is for. -/
theorem flags_present (w : UInt32) :
    (w ||| pagePresent ||| pageRw ||| pageUser) &&& pagePresent ≠ 0 := by
  intro h
  have hbit := congrArg (fun w : UInt32 => w.toBitVec.getLsbD 0) h
  simp [pagePresent, pageRw, pageUser] at hbit

/-- **The first 4 MB are mapped, and nothing else.** -/
theorem present_pagingInit_iff (firstPageTable virt : UInt32) :
    (pagingInit firstPageTable).Present virt ↔ virt.toNat < 0x400000 := by
  have hzero : (pdIdx virt).val = 0 ↔ virt.toNat < 0x400000 := by
    simp only [pdIdx]
    omega
  rw [PageTables.Present, ← hzero]
  constructor
  · exact fun h => h.2.1
  · intro h
    refine ⟨?_, h, flags_present _⟩
    rw [pagingInit]
    dsimp only
    rw [if_pos h]
    exact flags_present _

/-! ### The layout -/

/-- Where the image of the kernel and the text of the user program end.  The image holds at least
the multiboot header and the stack of `boot.asm`. -/
structure Layout where
  imageEnd : ℕ
  textEnd : ℕ
  le_imageEnd : 0x100000 + (12 + 16384) ≤ imageEnd
  lt_textEnd : 0x200000 < textEnd

/-- The address is mapped, and lies outside of the image, the text of the user program, and the
page below the top of its stack. -/
def Usable (layout : Layout) (t : PageTables) (x : UInt32) : Prop :=
  t.Present x ∧ ¬ (0x100000 ≤ x.toNat ∧ x.toNat < layout.imageEnd) ∧
    ¬ (0x200000 ≤ x.toNat ∧ x.toNat < layout.textEnd) ∧
    ¬ (0x300000 - pageSize ≤ x.toNat ∧ x.toNat < 0x300000)

/-! ### What the allocator gives out -/

/-- The request is for nothing, or for more than there is, and rounding it up does not wrap. -/
def Refused (size : UInt32) : Prop := size = 0 ∨ 0x3FFFF0 < size.toNat ∧ size.toNat < 0xFFFFFFF9

instance (size : UInt32) : Decidable (Refused size) := inferInstanceAs (Decidable (_ ∨ _))

theorem roundUp_toNat (size : UInt32) :
    (roundUp size).toNat = (size.toNat + 7) % 2 ^ 32 / 8 * 8 := by
  rw [roundUp, UInt32.toNat_and, UInt32.toNat_add]
  change ((size.toNat + 7) % 2 ^ 32) &&& 0xFFFFFFF8 = _
  have hlt : (size.toNat + 7) % 2 ^ 32 < 2 ^ 32 := Nat.mod_lt _ (by decide)
  generalize (size.toNat + 7) % 2 ^ 32 = n at hlt
  have hmask : (0xFFFFFFF8 : ℕ) = (2 ^ 29 - 1) * 2 ^ 3 := by decide
  have height : n / 8 * 8 = n / 2 ^ 3 * 2 ^ 3 := rfl
  refine Nat.eq_of_testBit_eq fun i => ?_
  rw [Nat.testBit_and, hmask, height, Nat.testBit_mul_two_pow, Nat.testBit_two_pow_sub_one,
    Nat.testBit_mul_two_pow, Nat.testBit_div_two_pow]
  by_cases hi : 3 ≤ i
  · rw [Nat.sub_add_cancel hi]
    by_cases hlast : i < 32
    · have hmasked : i - 3 < 29 := by omega
      simp [hi, hmasked]
    · have hbit : n.testBit i = false :=
        Nat.testBit_lt_two_pow (hlt.trans_le (Nat.pow_le_pow_right (by decide) (by omega)))
      simp [hbit]
  · simp [hi]

/-- A request is served from the whole heap unless it is refused. -/
theorem le_whole_iff {size : UInt32} (hsize : size ≠ 0) :
    (roundUp size).toNat ≤ wholeHeap.size ↔ ¬ Refused size := by
  have hlt := size.toNat_lt
  have hne : size.toNat ≠ 0 := fun h => hsize (UInt32.toNat_inj.1 h)
  rw [Refused, roundUp_toNat]
  simp only [hsize, false_or, wholeHeap]
  omega

/-- The request is refused while nothing is allocated; releasing is no request. -/
def HeapOp.Refused {U : Type} : HeapOp U → Prop
  | .kmalloc _ size => Anaga.Refused size
  | .kfree _ _ => True

/-- If the call is a request and gives out a block, every byte of it is usable. -/
def HeapOp.Usable {U : Type} (layout : Layout) (t : PageTables) (s : HeapState U) :
    HeapOp U → Prop
  | .kmalloc unit size =>
      ∀ r, Anaga.kmalloc (s.heapStart unit) s.byte size = some r → r.ptr ≠ 0 →
        ∀ j < size.toNat, Anaga.Usable layout t (r.ptr + UInt32.ofNat j)
  | .kfree _ _ => True

section Run

variable {U : Type} [DecidableEq U] {s : HeapState U}

/-- **What `kmalloc` returns while nothing is allocated**: the start of the heap, behind the first
header. -/
theorem kmalloc_whole (h : HeapReady s) (hlive : s.live = []) (unit : U) (size : UInt32) :
    ∃ r, kmalloc (s.heapStart unit) s.byte size = some r ∧
      (Refused size → r.ptr = 0) ∧ (¬ Refused size → r.ptr = 0x10000C) := by
  obtain ⟨m, bs, r, -, hinv, -, hmalloc, -, hcases⟩ :=
    h.kmalloc_cases (fun _ : s.heapStart unit = 0 => hlive) size
  have hbs := hinv.eq_whole hlive
  refine ⟨r, hmalloc, ?_⟩
  rcases hcases with ⟨hptr, -, hnone⟩ | ⟨x, hzero, hx, hptr, -⟩
  · refine ⟨fun _ => hptr, fun hrefused => absurd ?_ hrefused⟩
    rcases hnone with hzero | hnone
    · exact Or.inl hzero
    · by_cases hzero : size = 0
      · exact Or.inl hzero
      · rw [hbs, alloc_eq_none_iff] at hnone
        have hlt := hnone wholeHeap List.mem_cons_self rfl
        exact not_not.1 fun h => absurd ((le_whole_iff hzero).2 h) (not_le.2 hlt)
  · obtain ⟨b, hb, hfree, hle, hx1, -⟩ := used_alloc hx
    rw [hbs] at hb
    obtain rfl := List.mem_singleton.1 hb
    refine ⟨fun hrefused => absurd hrefused ((le_whole_iff hzero).1 hle), fun _ => ?_⟩
    exact UInt32.toNat_inj.1 (hptr.trans hx1)

/-- A call that gives nothing out while nothing is allocated. -/
theorem step_refused (h : HeapReady s) (hlive : s.live = []) {o : HeapOp U} (ho : o.Allowed s)
    (hrefused : o.Refused) : ∃ s', HeapOp.step s o = .ok s' ∧ HeapReady s' ∧ s'.live = [] := by
  have hone : o.OneHeap s := by
    cases o with
    | kmalloc unit size => exact fun _ => hlive
    | kfree unit ptr => exact trivial
  obtain ⟨s', hstep, hready, -⟩ := step_ready h ho hone
  refine ⟨s', hstep, hready, ?_⟩
  cases o with
  | kmalloc unit size =>
      obtain ⟨r, hr, hptr, -⟩ := kmalloc_whole h hlive unit size
      rw [HeapOp.step, hr] at hstep
      dsimp only at hstep
      rw [if_pos (hptr hrefused)] at hstep
      rw [← Except.ok.inj hstep]
      exact hlive
  | kfree unit ptr =>
      obtain ⟨s'', hstep', -, -, hlive', -⟩ := step_kfree h ho
      rw [hstep] at hstep'
      rw [Except.ok.inj hstep', hlive', hlive]
      rfl

/-- The first block is in the image of the kernel. -/
theorem not_usable_first (layout : Layout) (t : PageTables) : ¬ Usable layout t 0x10000C := by
  intro h
  refine h.2.1 ⟨by decide, ?_⟩
  change 0x10000C < layout.imageEnd
  have hle := layout.le_imageEnd
  omega

/-- While nothing is allocated, a call gives out usable bytes only exactly if it gives out none. -/
theorem usable_iff_refused (layout : Layout) (t : PageTables) (h : HeapReady s)
    (hlive : s.live = []) (o : HeapOp U) : o.Usable layout t s ↔ o.Refused := by
  cases o with
  | kfree unit ptr => exact Iff.rfl
  | kmalloc unit size =>
      obtain ⟨r, hr, hnull, hfirst⟩ := kmalloc_whole h hlive unit size
      constructor
      · intro husable
        by_contra hrefused
        have hptr := hfirst hrefused
        have hpos : 0 < size.toNat := by
          refine Nat.pos_of_ne_zero fun h0 => hrefused (Or.inl ?_)
          exact UInt32.toNat_inj.1 h0
        have hne : r.ptr ≠ 0 := by
          rw [hptr]
          decide
        have hbyte := husable r hr hne 0 hpos
        rw [hptr] at hbyte
        exact not_usable_first layout t hbyte
      · intro hrefused r' hr' hne
        rw [hr] at hr'
        rw [← Option.some.inj hr'] at hne
        exact absurd (hnull hrefused) hne

/-- **The heap is usable exactly as long as every request is refused**: the first block that is
given out lies in the image of the kernel. -/
theorem along_usable_iff (layout : Layout) (firstPageTable : UInt32) (byte : Ram)
    (ops : List (HeapOp U)) (hops : Along HeapOp.step HeapOp.Allowed (heapPowerOn byte) ops) :
    Along HeapOp.step (HeapOp.Usable layout (pagingInit firstPageTable)) (heapPowerOn byte) ops ↔
      ∀ o ∈ ops, o.Refused := by
  have hready : HeapReady (heapPowerOn byte : HeapState U) := HeapReady.powerOn byte
  have hlive : (heapPowerOn byte : HeapState U).live = [] := rfl
  generalize (heapPowerOn byte : HeapState U) = s at hready hlive hops ⊢
  induction ops generalizing s with
  | nil => simp [Along]
  | cons o ops ih =>
      have hiff := usable_iff_refused layout (pagingInit firstPageTable) hready hlive o
      rw [Along, hiff, List.forall_mem_cons]
      refine and_congr_right fun hrefused => ?_
      obtain ⟨s', hstep, hready', hlive'⟩ := step_refused hready hlive hops.1 hrefused
      refine Iff.trans ?_ (ih s' hready' hlive' (hops.2 s' hstep))
      constructor
      · exact fun h => h s' hstep
      · intro h t ht
        obtain rfl := Except.ok.inj (hstep.symm.trans ht)
        exact h

end Run

/-- The kernel with an image of 277 KB and a user program of one page. -/
def sampleLayout : Layout := ⟨0x145000, 0x201000, by decide, by decide⟩

/-- Requests for nothing, and for more than the heap has. -/
theorem along_usable_refused :
    Along HeapOp.step (HeapOp.Usable sampleLayout (pagingInit 0x120000))
      (heapPowerOn fun _ => 0) [HeapOp.kmalloc () 0, .kmalloc () 0x400000, .kfree () 0] := by
  have hallowed : Along HeapOp.step HeapOp.Allowed (heapPowerOn fun _ => 0)
      [HeapOp.kmalloc () 0, .kmalloc () 0x400000, .kfree () 0] :=
    ⟨trivial, fun _ _ => ⟨trivial, fun _ _ => ⟨Or.inl rfl, fun _ _ => trivial⟩⟩⟩
  refine (along_usable_iff sampleLayout 0x120000 (fun _ => 0) _ hallowed).2 ?_
  intro o ho
  simp only [List.mem_cons, List.not_mem_nil, or_false] at ho
  rcases ho with rfl | rfl | rfl
  · exact Or.inl rfl
  · exact Or.inr (by decide)
  · exact trivial

/-- A request for eight bytes is given the start of the code of the kernel. -/
theorem not_usable_eight :
    (kmalloc 0 (fun _ => 0) 8).map HeapResult.ptr = some 0x10000C ∧
      ¬ Along HeapOp.step (HeapOp.Usable sampleLayout (pagingInit 0x120000))
        (heapPowerOn fun _ => 0) [HeapOp.kmalloc () 8] := by
  refine ⟨by decide +kernel, ?_⟩
  intro h
  have hready : HeapReady (heapPowerOn fun _ => 0 : HeapState Unit) := HeapReady.powerOn _
  have hrefused := (usable_iff_refused sampleLayout _ hready rfl (.kmalloc () 8)).1 h.1
  exact absurd (show Refused 8 from hrefused) (by decide)

end Anaga
