/-
**What a request is given: the size that `kmalloc` asks the list for.**

`kmalloc` rounds the size up to a multiple of eight before it looks for a block, in 32 bits and
after the test for zero.  The last seven sizes round up to zero: for them the first free block is
large enough, whatever its size, and the caller is given a pointer to less than it asked for.  For
all other sizes a request is refused exactly if there is no free block that is large enough.

Main definitions:

* `Anaga.Searches` — the blocks that a call of `kmalloc` looks at;
* `Anaga.Exact` — the call gives as much as is asked for, or nothing if there is no such block;
* `Anaga.RoundsUp` — rounding up does not wrap around, or there is nothing to give;
* `Anaga.HeapOp.Proper` — the calls of runs in which there is one heap.

Main results:

* `Anaga.HeapReady.kmalloc_exact_iff` — what one call gives;
* `Anaga.exact_iff` — **in every state of a run, a call is exact exactly if its size rounds up**.
-/

import Anaga.AddressSpace

set_option relaxedAutoImplicit false
set_option autoImplicit false

namespace Anaga

open FirstFit Transition

variable {U : Type}

/-! ### What a request should be given -/

/-- The list that the call looks at, which is that of memory after `kheap_init`, is `bs`. -/
def Searches (s : HeapState U) (unit : U) (bs : List Block) : Prop :=
  HeapList (kheapInit (s.heapStart unit) s.byte).2 (kheapInit (s.heapStart unit) s.byte).1 bs

/-- `kmalloc` returns; a block that it gives out has at least the size that is asked for; and it
gives out nothing exactly if nothing is asked for, or no free block of the list is as large as the
size rounded up to a multiple of eight. -/
def Exact (s : HeapState U) (unit : U) (size : UInt32) : Prop :=
  ∃ r bs, kmalloc (s.heapStart unit) s.byte size = some r ∧ Searches s unit bs ∧
    (r.ptr ≠ 0 → size.toNat ≤ (blockSize r.byte (r.ptr - sizeofKblock)).toNat) ∧
    (r.ptr = 0 ↔
      size = 0 ∨ ∀ b ∈ bs, b.free = true → b.size < (size.toNat + 7) / 8 * 8)

/-- Rounding the size up does not wrap around, or no block of the list is free. -/
def RoundsUp (s : HeapState U) (unit : U) (size : UInt32) : Prop :=
  size.toNat + 7 < 2 ^ 32 ∨ ∃ bs, Searches s unit bs ∧ ∀ b ∈ bs, b.free = false

/-- The call is allowed, and there is one unit only, or the call starts no second heap. -/
def HeapOp.Proper (s : HeapState U) (o : HeapOp U) : Prop :=
  o.Allowed s ∧ ((∀ u v : U, u = v) ∨ o.OneHeap s)

/-! ### What a request is given -/

/-- The size that is looked for, if rounding up does not wrap around. -/
theorem roundUp_of_lt {size : UInt32} (h : size.toNat + 7 < 2 ^ 32) :
    (roundUp size).toNat = (size.toNat + 7) / 8 * 8 := by
  rw [roundUp_toNat, Nat.mod_eq_of_lt h]

/-- The size that is looked for, if it does. -/
theorem roundUp_of_ge {size : UInt32} (h : 2 ^ 32 ≤ size.toNat + 7) :
    (roundUp size).toNat = 0 := by
  have hlt := size.toNat_lt
  rw [roundUp_toNat]
  omega

/-- **The list is searched in vain** only if no free block is as large as the size rounded up; and
if that wraps around, only if no block is free. -/
theorem small_of_alloc_eq_none {size : UInt32} {bs : List Block}
    (h : alloc 12 (roundUp size).toNat bs = none) :
    (∀ b ∈ bs, b.free = true → b.size < (size.toNat + 7) / 8 * 8) ∧
      (size.toNat + 7 < 2 ^ 32 ∨ ∀ b ∈ bs, b.free = false) := by
  rw [alloc_eq_none_iff] at h
  rcases Nat.lt_or_ge (size.toNat + 7) (2 ^ 32) with hlt | hge
  · rw [roundUp_of_lt hlt] at h
    exact ⟨h, Or.inl hlt⟩
  · rw [roundUp_of_ge hge] at h
    -- a free block would be large enough for nothing
    have hfree : ∀ b ∈ bs, b.free = false := fun b hb =>
      Bool.eq_false_iff.2 fun hf => Nat.not_lt_zero _ (h b hb hf)
    refine ⟨fun b hb hf => ?_, Or.inr hfree⟩
    rw [hfree b hb] at hf
    exact Bool.noConfusion hf

/-- Memory holds one list only. -/
theorem searches_iff {s : HeapState U} {unit : U} {m : Ram} {bs : List Block}
    (hinit : kheapInit (s.heapStart unit) s.byte = (kernelHeapStart, m))
    (hlist : HeapList m kernelHeapStart bs) (bs' : List Block) :
    Searches s unit bs' ↔ bs' = bs := by
  rw [Searches, hinit]
  constructor
  · exact fun h => h.unique hlist
  · rintro rfl
    exact hlist

section Request

variable [DecidableEq U] {s : HeapState U}

/-- **One call is exact exactly if its size rounds up, or there is nothing to give.** -/
theorem HeapReady.kmalloc_exact_iff (h : HeapReady s) {unit : U}
    (hunit : s.heapStart unit = 0 → s.live = []) (size : UInt32) :
    Exact s unit size ↔ RoundsUp s unit size := by
  obtain ⟨m, bs, r, hinit, hinv, -, hmalloc, -, hcases⟩ := h.kmalloc_cases hunit size
  simp only [Exact, RoundsUp, hmalloc, searches_iff hinit hinv.list, Option.some.injEq,
    existsAndEq, true_and]
  rcases hcases with ⟨hptr, -, hnone⟩ | ⟨x, hzero, hx, hptr, hlist, -⟩
  · -- nothing is given
    have hright : (size = 0 ∨ ∀ b ∈ bs, b.free = true → b.size < (size.toNat + 7) / 8 * 8) ∧
        (size.toNat + 7 < 2 ^ 32 ∨ ∀ b ∈ bs, b.free = false) := by
      rcases hnone with rfl | hnone
      · exact ⟨Or.inl rfl, Or.inl (by decide)⟩
      · have hsmall := small_of_alloc_eq_none hnone
        exact ⟨Or.inr hsmall.1, hsmall.2⟩
    exact iff_of_true ⟨fun hne => absurd hptr hne, iff_of_true hptr hright.1⟩ hright.2
  · -- a block is given
    obtain ⟨b, hb, hfree, hle, hpayload, -, hsize⟩ := blockSize_given hx hptr hlist
    have hbound := (hinv.tiles.bounds.2 b hb).2
    obtain ⟨hlarge, hcut⟩ := size_given (h := 12) hle
    have hne : r.ptr ≠ 0 := ne_zero_of_payload hpayload
    rw [Block.stop] at hbound
    rcases Nat.lt_or_ge (size.toNat + 7) (2 ^ 32) with hlt | hge
    · rw [roundUp_of_lt hlt] at hle hlarge hsize
      refine iff_of_true ⟨fun _ => ?_, iff_of_false hne ?_⟩ (Or.inl hlt)
      · rw [hsize]
        omega
      · rintro (h0 | hall)
        · exact hzero h0
        · exact absurd (hall b hb hfree) (not_lt.2 hle)
    · refine iff_of_false (fun hexact => ?_) ?_
      · have hasked := hexact.1 hne
        rw [hsize] at hasked
        omega
      · rintro (hlt | hall)
        · exact absurd hlt (not_lt.2 hge)
        · rw [hall b hb] at hfree
          exact Bool.noConfusion hfree

/-- **In every state of a run with one heap, a call of `kmalloc` is exact exactly if its size
rounds up, or no block is free.** -/
theorem exact_iff (byte : Ram) (ops : List (HeapOp U))
    (hops : Along HeapOp.step HeapOp.Proper (heapPowerOn byte) ops)
    (hrun : run HeapOp.step (heapPowerOn byte) ops = .ok s) (unit : U) (size : UInt32)
    (hcall : (HeapOp.kmalloc unit size).Proper s) :
    Exact s unit size ↔ RoundsUp s unit size := by
  have hproper : ∀ (s : HeapState U) (o : HeapOp U), HeapReady s → o.Proper s →
      o.Allowed s ∧ o.OneHeap s := by
    intro s o hs ho
    exact ⟨ho.1, ho.2.elim (fun hU => hs.oneHeap hU o) id⟩
  obtain ⟨t, hrun', hready, -⟩ := run_ready HeapOp.Proper hproper (HeapReady.powerOn byte) hops
  obtain rfl : t = s := by simpa [hrun'] using hrun
  exact hready.kmalloc_exact_iff (hproper t _ hready hcall).2 size

/-- Eight bytes, while another block is allocated. -/
theorem exact_eight :
    ∃ s, run HeapOp.step (heapPowerOn fun _ => 0)
        [HeapOp.kmalloc () 8, .kfree () 0] = .ok s ∧ Exact s () 8 := by
  have hallowed : Along HeapOp.step HeapOp.Proper (heapPowerOn fun _ => 0)
      [HeapOp.kmalloc () 8, .kfree () 0] :=
    ⟨⟨trivial, Or.inl fun _ _ => rfl⟩, fun _ _ => ⟨⟨Or.inl rfl, Or.inl fun _ _ => rfl⟩,
      fun _ _ => trivial⟩⟩
  have hok : (run HeapOp.step (heapPowerOn fun _ => 0)
      [HeapOp.kmalloc () 8, .kfree () 0]).toOption.map HeapState.live =
        some [⟨(), 0x10000C, 8⟩] := by decide +kernel
  obtain ⟨s, hrun, -⟩ := toOption_map_eq_some.1 hok
  refine ⟨s, hrun, ?_⟩
  refine (exact_iff (fun _ => 0) _ hallowed hrun () 8 ⟨trivial, Or.inl fun _ _ => rfl⟩).2 ?_
  exact Or.inl (by decide)

/-- A request for all of memory but one byte is given a block of no bytes. -/
theorem not_exact_wrapped :
    (kmalloc 0 (fun _ => 0) 0xFFFFFFFF).map
        (fun r => (r.ptr, blockSize r.byte (r.ptr - sizeofKblock))) = some (0x10000C, 0) ∧
      ¬ Exact (heapPowerOn fun _ => 0 : HeapState Unit) () 0xFFFFFFFF := by
  have hgiven : (kmalloc 0 (fun _ => 0) 0xFFFFFFFF).map
      (fun r => (r.ptr, blockSize r.byte (r.ptr - sizeofKblock))) = some (0x10000C, 0) := by
    decide +kernel
  refine ⟨hgiven, ?_⟩
  rintro ⟨r, bs, hr, -, hsize, -⟩
  change kmalloc 0 (fun _ => 0) 0xFFFFFFFF = some r at hr
  rw [hr] at hgiven
  have hpair : (r.ptr, blockSize r.byte (r.ptr - sizeofKblock)) = (0x10000C, 0) :=
    Option.some.inj hgiven
  obtain ⟨hptr, hzero⟩ := Prod.mk.inj hpair
  have hlarge := hsize (by rw [hptr]; decide)
  rw [hzero] at hlarge
  exact absurd hlarge (by decide)

end Request

end Anaga
