/-
**Runs of the allocator.**

Every translation unit that includes `include/stdlib.h` has its own copy of the static
`heap_start`, while the heap itself is one interval of memory.  The state is the memory, the
statics of the units, and, for the statements only, the pointers that were given out and not
released since, each with the size that the header of its block had.

A unit whose `heap_start` is still `NULL` puts one block into the heap when it first calls
`kmalloc`.  As long as nothing is allocated this changes nothing, because the blocks were merged
into one; if something is allocated, it is given out a second time.

Main definitions:

* `Anaga.HeapState`, `Anaga.HeapOp` — the state and the calls;
* `Anaga.HeapOp.Allowed` — only live pointers of the unit itself, or `NULL`, are released;
* `Anaga.HeapInvariant` — memory holds blocks that fill the heap, of which the live ones are in use;
* `Anaga.Integrity` — what this means for the live pointers.

Main results:

* `Anaga.step_kmalloc`, `Anaga.step_kfree` — what one call does;
* `Anaga.run_integrity` — **the heap stays intact in every run of one unit**;
* `Anaga.run_recovers` — **releasing everything, in any order, leaves one block**;
* `Anaga.run_oneHeap` — several units share the heap if none starts while something is allocated.
-/

import Mathlib.Data.List.Nodup
import Anaga.Heap
import Anaga.Transition

set_option relaxedAutoImplicit false
set_option autoImplicit false

namespace Anaga

open FirstFit Transition

/-! ### States and calls -/

/-- A pointer that a unit was given and has not released. -/
structure Live (U : Type) where
  unit : U
  ptr : UInt32
  size : UInt32
deriving DecidableEq

/-- The memory, the static `heap_start` of every unit, and the live pointers. -/
structure HeapState (U : Type) where
  byte : Ram
  heapStart : U → UInt32
  live : List (Live U)

/-- A call in a translation unit. -/
inductive HeapOp (U : Type)
  | kmalloc (unit : U) (size : UInt32)
  | kfree (unit : U) (ptr : UInt32)

/-- The one thing that can go wrong in a call: the list of blocks does not end. -/
inductive HeapFault
  | endless

variable {U : Type}

/-- The state before any call. -/
def heapPowerOn (byte : Ram) : HeapState U := ⟨byte, fun _ => 0, []⟩

/-- A call. -/
def HeapOp.step [DecidableEq U] (s : HeapState U) : HeapOp U → Except HeapFault (HeapState U)
  | .kmalloc unit size =>
      match Anaga.kmalloc (s.heapStart unit) s.byte size with
      | none => .error .endless
      | some r =>
          .ok
            { byte := r.byte
              heapStart := Function.update s.heapStart unit r.heapStart
              live :=
                if r.ptr = 0 then s.live
                else ⟨unit, r.ptr, blockSize r.byte (r.ptr - sizeofKblock)⟩ :: s.live }
  | .kfree unit ptr =>
      match Anaga.kfree (s.heapStart unit) s.byte ptr with
      | none => .error .endless
      | some byte =>
          .ok
            { s with
              byte := byte
              live := s.live.filter fun l => ¬ (l.unit = unit ∧ l.ptr = ptr) }

/-- What may be released is `NULL` or a live pointer of the unit itself. -/
def HeapOp.Allowed (s : HeapState U) : HeapOp U → Prop
  | .kmalloc _ _ => True
  | .kfree unit ptr => ptr = 0 ∨ ∃ l ∈ s.live, l.unit = unit ∧ l.ptr = ptr

/-- A unit calls `kmalloc` for the first time only when nothing is allocated. -/
def HeapOp.OneHeap (s : HeapState U) : HeapOp U → Prop
  | .kmalloc unit _ => s.heapStart unit = 0 → s.live = []
  | .kfree _ _ => True

/-- The address is one of the payload. -/
def Live.Contains (l : Live U) (x : UInt32) : Prop :=
  l.ptr.toNat ≤ x.toNat ∧ x.toNat < l.ptr.toNat + l.size.toNat

/-- No byte of a live payload is changed. -/
def KeepsPayloads (s s' : HeapState U) : Prop :=
  ∀ l ∈ s.live, ∀ x, l.Contains x → s'.byte x = s.byte x

/-! ### The invariant -/

/-- Memory holds blocks that fill the heap, and the live pointers are those of the blocks in
use. -/
structure HeapInvariant (s : HeapState U) (bs : List Block) : Prop where
  list : HeapList s.byte kernelHeapStart bs
  tiles : Tiles 12 0x100000 bs 0x500000
  separated : Separated bs
  live : (s.live.map fun l => (l.ptr.toNat, l.size.toNat)).Perm
    ((used bs).map fun b => (b.payload 12, b.size))
  heapStart : ∀ u, s.heapStart u = 0 ∨ s.heapStart u = kernelHeapStart
  started : ∀ l ∈ s.live, s.heapStart l.unit = kernelHeapStart

/-- Nothing was called so far that starts the heap. -/
def Untouched (s : HeapState U) : Prop := (∀ u, s.heapStart u = 0) ∧ s.live = []

/-- The heap is untouched, or holds blocks. -/
def HeapReady (s : HeapState U) : Prop := Untouched s ∨ ∃ bs, HeapInvariant s bs

namespace HeapInvariant

variable {s : HeapState U} {bs : List Block}

/-- A live pointer is the payload of a block in use. -/
theorem block_of_live (h : HeapInvariant s bs) {l : Live U} (hl : l ∈ s.live) :
    ∃ b ∈ bs, b.free = false ∧ b.payload 12 = l.ptr.toNat ∧ b.size = l.size.toNat := by
  have hmem := h.live.subset (List.mem_map_of_mem hl)
  obtain ⟨b, hb, heq⟩ := List.mem_map.1 hmem
  obtain ⟨hb, hfree⟩ := mem_used.1 hb
  exact ⟨b, hb, hfree, congrArg Prod.fst heq, congrArg Prod.snd heq⟩

/-- The payload of a block in use is a live pointer. -/
theorem live_of_block (h : HeapInvariant s bs) {b : Block} (hb : b ∈ bs) (hfree : b.free = false) :
    ∃ l ∈ s.live, l.ptr.toNat = b.payload 12 ∧ l.size.toNat = b.size := by
  have hmem := h.live.symm.subset (List.mem_map_of_mem (mem_used.2 ⟨hb, hfree⟩))
  obtain ⟨l, hl, heq⟩ := List.mem_map.1 hmem
  exact ⟨l, hl, congrArg Prod.fst heq, congrArg Prod.snd heq⟩

/-- Live pointers are different. -/
theorem nodup_ptr (h : HeapInvariant s bs) : (s.live.map Live.ptr).Nodup := by
  have hused : (((used bs).map fun b => (b.payload 12, b.size)).map Prod.fst).Nodup := by
    rw [List.map_map]
    exact h.tiles.nodup_payload (by decide)
  have hlive := (h.live.map Prod.fst).nodup_iff.2 hused
  rw [List.map_map] at hlive
  refine List.Nodup.of_map UInt32.toNat ?_
  rw [List.map_map]
  exact hlive

/-- If nothing is live there is one block. -/
theorem eq_whole (h : HeapInvariant s bs) (hl : s.live = []) : bs = [wholeHeap] := by
  have hperm := h.live
  rw [hl, List.map_nil, List.nil_perm, List.map_eq_nil_iff] at hperm
  exact eq_single h.tiles h.separated (by decide) hperm

end HeapInvariant

/-- The loops have enough rounds. -/
theorem length_lt_heapRounds {bs : List Block} (ht : Tiles 12 0x100000 bs 0x500000) :
    bs.length < heapRounds := by
  have hle := ht.length_le
  simp only [heapRounds]
  omega

/-! ### The calls -/

/-- A payload lies behind a header. -/
theorem ne_zero_of_payload {q : UInt32} {b : Block} (h : q.toNat = b.payload 12) : q ≠ 0 := by
  intro h0
  rw [h0, Block.payload] at h
  change 0 = b.addr + 12 at h
  omega

/-- The header of the block that is given away. -/
theorem blockSize_given {r : ℕ} {bs : List Block} {x : ℕ × List Block}
    (hx : alloc 12 r bs = some x) {q p : UInt32} {m : Ram} (hq : q.toNat = x.1)
    (hlist : HeapList m p x.2) :
    ∃ b ∈ bs, b.free = true ∧ r ≤ b.size ∧ q.toNat = b.payload 12 ∧
      (used x.2).Perm (FirstFit.given 12 r b :: used bs) ∧
      (blockSize m (q - sizeofKblock)).toNat = (FirstFit.given 12 r b).size := by
  obtain ⟨b, hb, hfree, hle, hptr, hused⟩ := used_alloc hx
  have hpayload := hq.trans hptr
  have hgiven : FirstFit.given 12 r b ∈ x.2 :=
    (mem_used.1 (hused.symm.subset List.mem_cons_self)).1
  have hheader : (q - sizeofKblock).toNat = (FirstFit.given 12 r b).addr := by
    have hlt := q.toNat_lt
    rw [Block.payload] at hpayload
    rw [UInt32.toNat_sub]
    change (2 ^ 32 - 12 + q.toNat) % 2 ^ 32 = b.addr
    omega
  exact ⟨b, hb, hfree, hle, hpayload, hused, hlist.blockSize_of_mem hgiven hheader⟩

/-- What is given away becomes a live pointer. -/
theorem HeapInvariant.given {s : HeapState U} {bs : List Block} (h : HeapInvariant s bs) {unit : U}
    (hunit : s.heapStart unit = kernelHeapStart) {r : ℕ} {x : ℕ × List Block}
    (hx : alloc 12 r bs = some x) {q : UInt32} {m : Ram} (hq : q.toNat = x.1)
    (hlist : HeapList m kernelHeapStart x.2) :
    q ≠ 0 ∧ HeapInvariant
      { s with
        byte := m
        live := ⟨unit, q, blockSize m (q - sizeofKblock)⟩ :: s.live } x.2 := by
  obtain ⟨b, hb, -, -, hptr, hused, hsize⟩ := blockSize_given hx hq hlist
  refine ⟨ne_zero_of_payload hptr, hlist, h.tiles.alloc hx, h.separated.alloc hx, ?_,
    h.heapStart, ?_⟩
  · refine List.Perm.trans ?_ (hused.map _).symm
    rw [List.map_cons, List.map_cons, hsize, hptr]
    exact h.live.cons _
  · exact List.forall_mem_cons.2 ⟨hunit, h.started⟩

theorem HeapReady.powerOn (byte : Ram) : HeapReady (heapPowerOn byte : HeapState U) :=
  Or.inl ⟨fun _ => rfl, rfl⟩

/-- If a unit has called `kmalloc`, memory holds blocks. -/
theorem HeapReady.invariant {s : HeapState U} (h : HeapReady s) {unit : U} (hunit : s.heapStart unit ≠ 0) :
    s.heapStart unit = kernelHeapStart ∧ ∃ bs, HeapInvariant s bs := by
  rcases h with ⟨hall, -⟩ | ⟨bs, hinv⟩
  · exact absurd (hall unit) hunit
  · exact ⟨(hinv.heapStart unit).resolve_left hunit, bs, hinv⟩

theorem HeapReady.ptr_ne_zero {s : HeapState U} (h : HeapReady s) {l : Live U} (hl : l ∈ s.live) :
    l.ptr ≠ 0 := by
  rcases h with ⟨-, hnil⟩ | ⟨bs, hinv⟩
  · rw [hnil] at hl
    exact absurd hl List.not_mem_nil
  · obtain ⟨b, -, -, hptr, -⟩ := hinv.block_of_live hl
    exact ne_zero_of_payload hptr.symm

/-- Taking a pointer away takes its block out of use. -/
theorem HeapInvariant.perm_release {s : HeapState U} {bs : List Block} (h : HeapInvariant s bs)
    (ptr : UInt32) :
    ((s.live.filter fun l => l.ptr ≠ ptr).map fun l => (l.ptr.toNat, l.size.toNat)).Perm
      ((used (release 12 ptr.toNat bs)).map fun b => (b.payload 12, b.size)) := by
  have hperm := h.live.filter fun x => x.1 ≠ ptr.toNat
  rw [List.filter_map, List.filter_map] at hperm
  have hlive : s.live.filter (fun l => l.ptr ≠ ptr) =
      s.live.filter ((fun x : ℕ × ℕ => decide (x.1 ≠ ptr.toNat)) ∘
        fun l => (l.ptr.toNat, l.size.toNat)) := by
    refine List.filter_congr fun l _ => ?_
    simp only [Function.comp_apply, ne_eq, UInt32.toNat_inj]
  rw [used_release, hlive]
  exact hperm

/-- A live payload does not overlap a header. -/
theorem HeapInvariant.outside_header {s : HeapState U} {bs : List Block} (h : HeapInvariant s bs)
    {l : Live U} (hl : l ∈ s.live) {x : UInt32} (hx : l.Contains x) {b : Block} (hb : b ∈ bs) :
    x.toNat < b.addr ∨ b.addr + 12 ≤ x.toNat := by
  obtain ⟨c, hc, -, hptr, hsize⟩ := h.block_of_live hl
  obtain ⟨hlo, hhi⟩ := hx
  by_cases hbc : b = c
  · subst hbc
    rw [Block.payload] at hptr
    omega
  · have happart := h.tiles.apart hb hc hbc
    simp only [Block.stop, Block.payload] at happart hptr
    omega

section Step

variable [DecidableEq U] {s : HeapState U}

/-- **After `kheap_init` memory holds blocks**: those that were there, or, if nothing is live, the
one block that fills the heap. -/
theorem HeapReady.start (h : HeapReady s) {unit : U} (hunit : s.heapStart unit = 0 → s.live = []) :
    ∃ m bs, kheapInit (s.heapStart unit) s.byte = (kernelHeapStart, m) ∧
      HeapInvariant
        { s with
          byte := m
          heapStart := Function.update s.heapStart unit kernelHeapStart } bs ∧
      ∀ l ∈ s.live, ∀ x, l.Contains x → m x = s.byte x := by
  by_cases hzero : s.heapStart unit = 0
  · have hlive := hunit hzero
    have hstart : ∀ u, s.heapStart u = 0 ∨ s.heapStart u = kernelHeapStart := by
      rcases h with ⟨hall, -⟩ | ⟨bs, hinv⟩
      · exact fun u => Or.inl (hall u)
      · exact hinv.heapStart
    rw [hzero]
    refine ⟨(kheapInit 0 s.byte).2, [wholeHeap], rfl, ?_, ?_⟩
    · refine ⟨heapList_kheapInit s.byte, ⟨rfl, rfl⟩, List.isChain_singleton _, ?_, ?_, ?_⟩
      · dsimp only
        rw [hlive]
        exact List.Perm.refl _
      · intro u
        dsimp only
        rw [Function.update_apply]
        split_ifs
        · exact Or.inr rfl
        · exact hstart u
      · dsimp only
        rw [hlive]
        exact fun l hl => absurd hl List.not_mem_nil
    · rw [hlive]
      exact fun l hl => absurd hl List.not_mem_nil
  · rcases h with ⟨hall, -⟩ | ⟨bs, hinv⟩
    · exact absurd (hall unit) hzero
    · have hstart := (hinv.heapStart unit).resolve_left hzero
      refine ⟨s.byte, bs, ?_, ?_, fun _ _ _ _ => rfl⟩
      · rw [kheapInit_of_ne hzero, hstart]
      · rw [← hstart, Function.update_eq_self]
        exact hinv

/-- **What `kmalloc` returns**, to a unit that has called it before or while nothing is live:
nothing, or the first free block that is as large as the rounded size. -/
theorem HeapReady.kmalloc_cases (h : HeapReady s) {unit : U}
    (hunit : s.heapStart unit = 0 → s.live = []) (size : UInt32) :
    ∃ m bs r, kheapInit (s.heapStart unit) s.byte = (kernelHeapStart, m) ∧
      HeapInvariant
        { s with
          byte := m
          heapStart := Function.update s.heapStart unit kernelHeapStart } bs ∧
      (∀ l ∈ s.live, ∀ x, l.Contains x → m x = s.byte x) ∧
      kmalloc (s.heapStart unit) s.byte size = some r ∧ r.heapStart = kernelHeapStart ∧
      ((r.ptr = 0 ∧ r.byte = m ∧ (size = 0 ∨ alloc 12 (roundUp size).toNat bs = none)) ∨
        ∃ x, size ≠ 0 ∧ alloc 12 (roundUp size).toNat bs = some x ∧ r.ptr.toNat = x.1 ∧
          HeapList r.byte kernelHeapStart x.2 ∧
          ∃ b ∈ bs, b.free = true ∧ SameOutside b.addr (b.stop 12) m r.byte) := by
  obtain ⟨m, bs, hinit, hinv, hkeep⟩ := h.start hunit
  have hmalloc : kmalloc (s.heapStart unit) s.byte size =
      if size = 0 then some ⟨0, kernelHeapStart, m⟩
      else (kmallocLoop (roundUp size) heapRounds kernelHeapStart m).map
        fun r => ⟨r.1, kernelHeapStart, r.2⟩ := by
    rw [kmalloc, hinit]
  have hlen := length_lt_heapRounds hinv.tiles
  by_cases hzero : size = 0
  · rw [if_pos hzero] at hmalloc
    exact ⟨m, bs, _, hinit, hinv, hkeep, hmalloc, rfl, Or.inl ⟨rfl, rfl, Or.inl hzero⟩⟩
  · rw [if_neg hzero] at hmalloc
    cases hx : alloc 12 (roundUp size).toNat bs with
    | none =>
        rw [kmallocLoop_none hinv.list hlen hx] at hmalloc
        exact ⟨m, bs, _, hinit, hinv, hkeep, hmalloc, rfl, Or.inl ⟨rfl, rfl, Or.inr hx⟩⟩
    | some x =>
        obtain ⟨q, m', hloop, hq, hlist, hblock⟩ :=
          kmallocLoop_some hinv.list hinv.tiles (by decide) hlen hx
        rw [hloop] at hmalloc
        exact ⟨m, bs, _, hinit, hinv, hkeep, hmalloc, rfl,
          Or.inr ⟨x, hzero, hx, hq, hlist, hblock⟩⟩

/-- **A call of `kmalloc`** by a unit that has called it before, or while nothing is live. -/
theorem step_kmalloc (h : HeapReady s) {unit : U} (hunit : s.heapStart unit = 0 → s.live = [])
    (size : UInt32) :
    ∃ s', HeapOp.step s (.kmalloc unit size) = .ok s' ∧
      s'.heapStart = Function.update s.heapStart unit kernelHeapStart ∧
      (∃ bs, HeapInvariant s' bs) ∧ KeepsPayloads s s' := by
  obtain ⟨m, bs, r, -, hinv, hkeep, hmalloc, hstart, hcases⟩ := h.kmalloc_cases hunit size
  rw [HeapOp.step, hmalloc]
  dsimp only
  rw [hstart]
  rcases hcases with ⟨hptr, hbyte, -⟩ | ⟨x, -, hx, hptr, hlist, b, hb, hfree, hsame⟩
  · rw [if_pos hptr, hbyte]
    exact ⟨_, rfl, rfl, ⟨bs, hinv⟩, hkeep⟩
  · have hself : Function.update s.heapStart unit kernelHeapStart unit = kernelHeapStart :=
      Function.update_self _ _ _
    obtain ⟨hne, hinv'⟩ := hinv.given hself hx hptr hlist
    rw [if_neg hne]
    refine ⟨_, rfl, rfl, ⟨x.2, hinv'⟩, ?_⟩
    intro l hl y hy
    refine (hsame y ?_).trans (hkeep l hl y hy)
    -- the block that is taken was free, so it is not the block of a live pointer
    obtain ⟨c, hc, hused, hcptr, hsize⟩ := hinv.block_of_live hl
    have hbc : b ≠ c := by
      rintro rfl
      rw [hfree] at hused
      exact Bool.noConfusion hused
    have happart := hinv.tiles.apart hb hc hbc
    obtain ⟨hlo, hhi⟩ := hy
    simp only [Block.stop, Block.payload] at happart hcptr ⊢
    omega

/-- A call of `kfree` with `NULL` does nothing. -/
theorem step_kfree_null (h : HeapReady s) (unit : U) :
    HeapOp.step s (.kfree unit 0) = .ok s ∧ s.live.filter (fun l => l.ptr ≠ 0) = s.live := by
  have hself : ∀ l ∈ s.live, l.ptr ≠ 0 := fun l hl => h.ptr_ne_zero hl
  have hlive : s.live.filter (fun l => ¬ (l.unit = unit ∧ l.ptr = 0)) = s.live :=
    List.filter_eq_self.2 fun l hl => by simp [hself l hl]
  constructor
  · rw [HeapOp.step, kfree, if_pos rfl]
    dsimp only
    rw [hlive]
  · exact List.filter_eq_self.2 fun l hl => by simp [hself l hl]

/-- A live pointer belongs to one unit only. -/
theorem HeapInvariant.filter_unit {bs : List Block} (hinv : HeapInvariant s bs) {l : Live U}
    (hl : l ∈ s.live) :
    s.live.filter (fun l' => ¬ (l'.unit = l.unit ∧ l'.ptr = l.ptr)) =
      s.live.filter (fun l' => l'.ptr ≠ l.ptr) := by
  refine List.filter_congr fun l' hl' => ?_
  by_cases hptr : l'.ptr = l.ptr
  · obtain rfl := List.inj_on_of_nodup_map hinv.nodup_ptr hl' hl hptr
    simp
  · simp [hptr]

/-- A call of `kfree` with a live pointer of the unit. -/
theorem step_kfree_live {bs : List Block} (hinv : HeapInvariant s bs) {l : Live U}
    (hl : l ∈ s.live) :
    ∃ s', HeapOp.step s (.kfree l.unit l.ptr) = .ok s' ∧ s'.heapStart = s.heapStart ∧
      HeapReady s' ∧ s'.live = s.live.filter (fun l' => l'.ptr ≠ l.ptr) ∧ KeepsPayloads s s' := by
  have hzero : l.ptr ≠ 0 := HeapReady.ptr_ne_zero (Or.inr ⟨bs, hinv⟩) hl
  obtain ⟨b, hb, -, hpayload, -⟩ := hinv.block_of_live hl
  have hlt := l.ptr.toNat_lt
  have hheader : (l.ptr - sizeofKblock).toNat = b.addr := by
    rw [Block.payload] at hpayload
    rw [UInt32.toNat_sub]
    change (2 ^ 32 - 12 + l.ptr.toNat) % 2 ^ 32 = _
    omega
  -- the block is marked free, which is no edit of the list but of one header
  obtain ⟨hlist, hsame⟩ := heapList_release hinv.list hinv.tiles (by decide) hb hheader
  have ht := hinv.tiles.release (b.payload 12)
  have hlen := length_lt_heapRounds ht
  have hperm := hinv.perm_release l.ptr
  rw [hpayload] at hlist ht hlen
  rw [HeapOp.step, kfree]
  cases hbs : release 12 l.ptr.toNat bs with
  | nil =>
      rw [hbs] at ht
      exact absurd ht (Nat.ne_of_lt (by decide))
  | cons c cs =>
      rw [hbs] at hlist ht hlen hperm
      -- and then the list is merged
      obtain ⟨m, hloop, hmerged, hframe⟩ := mergeLoop_spec hlist ht (by decide)
        (Nat.lt_of_succ_lt hlen)
      rw [if_neg hzero, hinv.started l hl, hloop]
      dsimp only
      rw [hinv.filter_unit hl]
      refine ⟨_, rfl, rfl, Or.inr ⟨coalesce 12 c cs, ?_⟩, rfl, ?_⟩
      · refine ⟨hmerged, ht.coalesce, separated_coalesce c cs, ?_, hinv.heapStart, ?_⟩
        · rw [used_coalesce]
          exact hperm
        · exact fun l' hl' => hinv.started l' (List.mem_of_mem_filter hl')
      · intro l' hl' x hx
        refine (hframe x fun d hd => ?_).trans
          (hsame x (hinv.outside_header hl' hx hb))
        rw [← hbs] at hd
        obtain ⟨d', hd', haddr⟩ := exists_of_mem_release hd
        rw [haddr]
        exact hinv.outside_header hl' hx hd'

/-- **A call of `kfree`** with a live pointer of the unit, or with `NULL`. -/
theorem step_kfree (h : HeapReady s) {unit : U} {ptr : UInt32}
    (hptr : ptr = 0 ∨ ∃ l ∈ s.live, l.unit = unit ∧ l.ptr = ptr) :
    ∃ s', HeapOp.step s (.kfree unit ptr) = .ok s' ∧ s'.heapStart = s.heapStart ∧ HeapReady s' ∧
      s'.live = s.live.filter (fun l => l.ptr ≠ ptr) ∧ KeepsPayloads s s' := by
  rcases hptr with rfl | ⟨l, hl, rfl, rfl⟩
  · obtain ⟨hstep, hlive⟩ := step_kfree_null h unit
    exact ⟨s, hstep, rfl, h, hlive.symm, fun _ _ _ _ => rfl⟩
  · rcases h with ⟨-, hnil⟩ | ⟨bs, hinv⟩
    · rw [hnil] at hl
      exact absurd hl List.not_mem_nil
    · exact step_kfree_live hinv hl

/-! ### Runs -/

/-- **One call**, of a kind that does not give out memory a second time. -/
theorem step_ready (h : HeapReady s) {o : HeapOp U} (ho : o.Allowed s) (hone : o.OneHeap s) :
    ∃ s', HeapOp.step s o = .ok s' ∧ HeapReady s' ∧ KeepsPayloads s s' ∧
      ∀ unit, s'.heapStart unit = 0 ↔ s.heapStart unit = 0 ∧ ∀ n, HeapOp.kmalloc unit n ≠ o := by
  cases o with
  | kmalloc v n =>
      obtain ⟨s', hstep, hstart, hinv, hkeep⟩ := step_kmalloc h hone n
      refine ⟨s', hstep, Or.inr hinv, hkeep, fun unit => ?_⟩
      rw [hstart, Function.update_apply]
      split_ifs with heq
      · subst heq
        exact iff_of_false (by decide) fun hn => hn.2 n rfl
      · refine (and_iff_left fun k hk => ?_).symm
        exact heq (HeapOp.kmalloc.inj hk).1
  | kfree v ptr =>
      obtain ⟨s', hstep, hstart, hready, -, hkeep⟩ := step_kfree h ho
      refine ⟨s', hstep, hready, hkeep, fun unit => ?_⟩
      rw [hstart]
      simp

/-- **A run of such calls** never fails, and the units that have started the heap are those that
have called `kmalloc`. -/
theorem run_ready (C : HeapState U → HeapOp U → Prop)
    (hC : ∀ s o, HeapReady s → C s o → o.Allowed s ∧ o.OneHeap s) {ops : List (HeapOp U)}
    (h : HeapReady s) (hops : Along HeapOp.step C s ops) :
    ∃ t, run HeapOp.step s ops = .ok t ∧ HeapReady t ∧
      ∀ unit, t.heapStart unit = 0 ↔
        s.heapStart unit = 0 ∧ ∀ n, HeapOp.kmalloc unit n ∉ ops := by
  induction ops generalizing s with
  | nil => exact ⟨s, rfl, h, fun unit => by simp⟩
  | cons o ops ih =>
      obtain ⟨ho, hone⟩ := hC s o h hops.1
      obtain ⟨s', hstep, hready, -, hstart⟩ := step_ready h ho hone
      obtain ⟨t, hrun, ht, hstart'⟩ := ih hready (hops.2 s' hstep)
      refine ⟨t, run_cons_eq_ok.2 ⟨s', hstep, hrun⟩, ht, fun unit => ?_⟩
      rw [hstart', hstart, and_assoc, ← forall_and]
      simp only [List.mem_cons, not_or, ne_eq]

end Step

/-! ### Several units -/

/-- No byte belongs to two live payloads. -/
def DisjointPayloads (s : HeapState U) : Prop :=
  s.live.Pairwise fun l l' => ∀ x, ¬ (l.Contains x ∧ l'.Contains x)

theorem HeapInvariant.disjoint {s : HeapState U} {bs : List Block} (h : HeapInvariant s bs) :
    DisjointPayloads s := by
  have hne : s.live.Pairwise fun l l' => l.ptr ≠ l'.ptr := by
    have hnodup := h.nodup_ptr
    rwa [List.nodup_iff_pairwise_ne, List.pairwise_map] at hnodup
  refine hne.imp_of_mem ?_
  intro l l' hl hl' hptr x hx
  obtain ⟨⟨hlo, hhi⟩, hlo', hhi'⟩ := hx
  obtain ⟨b, hb, -, hbptr, hbsize⟩ := h.block_of_live hl
  obtain ⟨c, hc, -, hcptr, hcsize⟩ := h.block_of_live hl'
  have hbc : b ≠ c := by
    rintro rfl
    exact hptr (UInt32.toNat_inj.1 (hbptr.symm.trans hcptr))
  have happart := h.tiles.apart hb hc hbc
  simp only [Block.stop, Block.payload] at happart hbptr hcptr
  omega

theorem HeapReady.disjoint {s : HeapState U} (h : HeapReady s) : DisjointPayloads s := by
  rcases h with ⟨-, hnil⟩ | ⟨bs, hinv⟩
  · rw [DisjointPayloads, hnil]
    exact List.Pairwise.nil
  · exact hinv.disjoint

/-- **Several units share the heap** in every run in which no unit starts while something is
allocated: payloads are disjoint, and no call changes one. -/
theorem run_oneHeap [DecidableEq U] (byte : Ram) (ops : List (HeapOp U))
    (hops : Along HeapOp.step (fun s o => o.Allowed s ∧ o.OneHeap s) (heapPowerOn byte) ops) :
    ∃ s, run HeapOp.step (heapPowerOn byte) ops = .ok s ∧ DisjointPayloads s ∧
      ∀ o : HeapOp U, o.Allowed s → o.OneHeap s →
        ∃ s', HeapOp.step s o = .ok s' ∧ KeepsPayloads s s' := by
  obtain ⟨s, hrun, hready, -⟩ := run_ready _ (fun _ _ _ h => h) (HeapReady.powerOn byte) hops
  refine ⟨s, hrun, hready.disjoint, ?_⟩
  intro o ho hone
  obtain ⟨s', hstep, -, hkeep, -⟩ := step_ready hready ho hone
  exact ⟨s', hstep, hkeep⟩

/-- A second unit starts while nothing is allocated, and then both allocate a block. -/
theorem run_oneHeap_two :
    ∃ s, run HeapOp.step (heapPowerOn fun _ => 0)
        [HeapOp.kmalloc false 0, .kmalloc true 8, .kmalloc false 8] = .ok s ∧
      DisjointPayloads s := by
  have hfirst : (run HeapOp.step (heapPowerOn fun _ => 0) [HeapOp.kmalloc false 0]).toOption.map
      HeapState.live = some [] := by decide +kernel
  have hsecond : (run HeapOp.step (heapPowerOn fun _ => 0)
      [HeapOp.kmalloc false 0, .kmalloc true 8]).toOption.map (fun s => s.heapStart false) =
        some kernelHeapStart := by decide +kernel
  have hops : Along HeapOp.step (fun s o => o.Allowed s ∧ o.OneHeap s) (heapPowerOn fun _ => 0)
      [HeapOp.kmalloc false 0, .kmalloc true 8, .kmalloc false 8] := by
    refine ⟨⟨trivial, fun _ => rfl⟩, fun s hs => ⟨⟨trivial, fun _ => ?_⟩, fun t ht =>
      ⟨⟨trivial, fun h0 => ?_⟩, fun _ _ => trivial⟩⟩⟩
    · rw [run_singleton, hs] at hfirst
      exact Option.some.inj hfirst
    · rw [run_cons, hs, ok_bind, run_singleton, ht] at hsecond
      exact absurd ((Option.some.inj hsecond).symm.trans h0) (by decide)
  obtain ⟨s, hrun, hdisjoint, -⟩ := run_oneHeap (fun _ => 0) _ hops
  exact ⟨s, hrun, hdisjoint⟩

/-- Two units that start one after the other are given the same block. -/
theorem not_disjointPayloads_two :
    ∃ s, run HeapOp.step (heapPowerOn fun _ => 0) [HeapOp.kmalloc false 8, .kmalloc true 8] =
        .ok s ∧ s.live = [⟨true, 0x10000C, 8⟩, ⟨false, 0x10000C, 8⟩] ∧ ¬ DisjointPayloads s := by
  have hlive : (run HeapOp.step (heapPowerOn fun _ => 0)
      [HeapOp.kmalloc false 8, .kmalloc true 8]).toOption.map HeapState.live =
        some [⟨true, 0x10000C, 8⟩, ⟨false, 0x10000C, 8⟩] := by decide +kernel
  obtain ⟨s, hrun, hs⟩ := toOption_map_eq_some.1 hlive
  refine ⟨s, hrun, hs, ?_⟩
  intro hdisjoint
  rw [DisjointPayloads, hs] at hdisjoint
  have hboth := List.rel_of_pairwise_cons hdisjoint List.mem_cons_self 0x10000C
  exact hboth ⟨⟨by decide, by decide⟩, ⟨by decide, by decide⟩⟩

/-! ### One unit -/

/-- What the heap looks like to one unit: the list fills the heap, the live pointers are exactly
those of the blocks in use, and no live payload overlaps another one or a header. -/
structure Integrity (s : HeapState Unit) (bs : List Block) : Prop where
  list : HeapList s.byte (s.heapStart ()) bs
  tiles : Tiles sizeofKblock.toNat kernelHeapStart.toNat bs
    (kernelHeapStart.toNat + kernelHeapSize.toNat)
  block_of_live : ∀ l ∈ s.live, ∃! b, b ∈ bs ∧ b.free = false ∧
    b.payload sizeofKblock.toNat = l.ptr.toNat ∧ b.size = l.size.toNat
  live_of_block : ∀ b ∈ bs, b.free = false →
    ∃! l, l ∈ s.live ∧ l.ptr.toNat = b.payload sizeofKblock.toNat
  nodup : s.live.Nodup
  disjoint : DisjointPayloads s
  headers : ∀ l ∈ s.live, ∀ x, l.Contains x → ∀ b ∈ bs,
    x.toNat < b.addr ∨ b.addr + sizeofKblock.toNat ≤ x.toNat

theorem HeapInvariant.integrity {s : HeapState Unit} {bs : List Block} (h : HeapInvariant s bs)
    (hstart : s.heapStart () = kernelHeapStart) : Integrity s bs where
  list := by
    rw [hstart]
    exact h.list
  tiles := h.tiles
  block_of_live := by
    intro l hl
    obtain ⟨b, hb, hfree, hptr, hsize⟩ := h.block_of_live hl
    refine ⟨b, ⟨hb, hfree, hptr, hsize⟩, ?_⟩
    intro c hc
    exact h.tiles.payload_injective (by decide) hc.1 hb (hc.2.2.1.trans hptr.symm)
  live_of_block := by
    intro b hb hfree
    obtain ⟨l, hl, hptr, -⟩ := h.live_of_block hb hfree
    refine ⟨l, ⟨hl, hptr⟩, ?_⟩
    intro l' hl'
    exact List.inj_on_of_nodup_map h.nodup_ptr hl'.1 hl
      (UInt32.toNat_inj.1 (hl'.2.trans hptr.symm))
  nodup := List.Nodup.of_map _ h.nodup_ptr
  disjoint := h.disjoint
  headers := fun _ hl _ hx _ hb => h.outside_header hl hx hb

/-- A single unit never starts the heap while something is allocated. -/
theorem HeapReady.oneHeap (hU : ∀ u v : U, u = v) {s : HeapState U} (h : HeapReady s)
    (o : HeapOp U) : o.OneHeap s := by
  cases o with
  | kfree v ptr => exact trivial
  | kmalloc v n =>
      intro hzero
      rcases h with ⟨-, hnil⟩ | ⟨bs, hinv⟩
      · exact hnil
      · refine List.eq_nil_iff_forall_not_mem.2 fun l hl => ?_
        have hstart := hinv.started l hl
        rw [hU l.unit v, hzero] at hstart
        exact absurd hstart (by decide)

/-- A run of one unit. -/
theorem run_unit (byte : Ram) {ops : List (HeapOp Unit)}
    (hops : Along HeapOp.step HeapOp.Allowed (heapPowerOn byte) ops) :
    ∃ s, run HeapOp.step (heapPowerOn byte) ops = .ok s ∧ HeapReady s ∧
      (s.heapStart () = 0 ↔ ∀ n, HeapOp.kmalloc () n ∉ ops) := by
  obtain ⟨s, hrun, hready, hstart⟩ := run_ready HeapOp.Allowed
    (fun _ o hready ho => ⟨ho, hready.oneHeap (fun _ _ => rfl) o⟩) (HeapReady.powerOn byte) hops
  exact ⟨s, hrun, hready, (hstart ()).trans (and_iff_right rfl)⟩

/-- **The heap stays intact in every run of one unit**: no call runs on without end, from the
first call of `kmalloc` on the list fills the heap and the live pointers are those of the blocks
in use, and no call changes a live payload. -/
theorem run_integrity (byte : Ram) (ops : List (HeapOp Unit))
    (hops : Along HeapOp.step HeapOp.Allowed (heapPowerOn byte) ops) :
    ∃ s, run HeapOp.step (heapPowerOn byte) ops = .ok s ∧
      ((∃ n, HeapOp.kmalloc () n ∈ ops) → ∃ bs, Integrity s bs) ∧
      ((∀ n, HeapOp.kmalloc () n ∉ ops) → s.heapStart () = 0 ∧ s.live = []) ∧
      ∀ o : HeapOp Unit, o.Allowed s → ∃ s', HeapOp.step s o = .ok s' ∧ KeepsPayloads s s' := by
  obtain ⟨s, hrun, hready, hstart⟩ := run_unit byte hops
  refine ⟨s, hrun, ?_, ?_, ?_⟩
  · intro hcalled
    obtain ⟨n, hn⟩ := hcalled
    obtain ⟨hheap, bs, hinv⟩ := hready.invariant fun h0 => hstart.1 h0 n hn
    exact ⟨bs, hinv.integrity hheap⟩
  · intro hnone
    exact ⟨hstart.2 hnone, hready.oneHeap (fun _ _ => rfl) (.kmalloc () 0) (hstart.2 hnone)⟩
  · intro o ho
    obtain ⟨s', hstep, -, hkeep, -⟩ := step_ready hready ho (hready.oneHeap (fun _ _ => rfl) o)
    exact ⟨s', hstep, hkeep⟩

/-- One block is allocated and released. -/
theorem run_integrity_one :
    ∃ s, run HeapOp.step (heapPowerOn fun _ => 0)
        [HeapOp.kmalloc () 8, .kfree () 0x10000C] = .ok s ∧ ∃ bs, Integrity s bs := by
  have hlive : (HeapOp.step (heapPowerOn fun _ => 0) (.kmalloc () 8)).toOption.map
      HeapState.live = some [⟨(), 0x10000C, 8⟩] := by decide +kernel
  have hallowed : Along HeapOp.step HeapOp.Allowed (heapPowerOn fun _ => 0)
      [HeapOp.kmalloc () 8, .kfree () 0x10000C] := by
    refine ⟨trivial, fun s hs => ⟨Or.inr ?_, fun _ _ => trivial⟩⟩
    rw [hs] at hlive
    have hmem : s.live = [⟨(), 0x10000C, 8⟩] := Option.some.inj hlive
    rw [hmem]
    exact ⟨_, List.mem_cons_self, rfl, rfl⟩
  obtain ⟨s, hrun, hintegrity, -⟩ := run_integrity (fun _ => 0) _ hallowed
  exact ⟨s, hrun, hintegrity ⟨8, List.mem_cons_self⟩⟩

/-- Before the first call there is no list. -/
theorem not_integrity_powerOn :
    run (HeapOp.step (U := Unit)) (heapPowerOn fun _ => 0) [] = .ok (heapPowerOn fun _ => 0) ∧
      ¬ ∃ bs, Integrity (heapPowerOn fun _ => 0) bs := by
  refine ⟨rfl, ?_⟩
  intro h
  obtain ⟨bs, h⟩ := h
  have htiles := h.tiles
  cases bs with
  | nil => exact absurd htiles (Nat.ne_of_lt (by decide))
  | cons b bs => exact h.list.1.ne rfl

/-! ### Recovery -/

/-- **Releasing everything that is live**, in any order. -/
theorem run_kfree {s : HeapState Unit} (h : HeapReady s) (order : List UInt32)
    (horder : order.Perm (s.live.map Live.ptr)) :
    ∃ t, run HeapOp.step s (order.map (HeapOp.kfree ())) = .ok t ∧ HeapReady t ∧
      t.heapStart = s.heapStart ∧ t.live = [] := by
  induction order generalizing s with
  | nil => exact ⟨s, rfl, h, rfl, List.map_eq_nil_iff.1 (List.nil_perm.1 horder)⟩
  | cons ptr order ih =>
      obtain ⟨l, hl, hptr⟩ := List.mem_map.1 (horder.subset List.mem_cons_self)
      obtain ⟨s', hstep, hstart, hready, hlive, -⟩ :=
        step_kfree h (Or.inr ⟨l, hl, rfl, hptr⟩)
      have hnodup : (ptr :: order).Nodup := by
        rcases h with ⟨-, hnil⟩ | ⟨bs, hinv⟩
        · rw [hnil] at hl
          exact absurd hl List.not_mem_nil
        · exact horder.nodup_iff.2 hinv.nodup_ptr
      obtain ⟨hnot, -⟩ := List.nodup_cons.1 hnodup
      -- the pointers that are left
      have hrest : order.Perm (s'.live.map Live.ptr) := by
        have hfilter := horder.filter fun p => p ≠ ptr
        rw [List.filter_cons_of_neg (by simp), List.filter_map] at hfilter
        have hself : order.filter (fun p => p ≠ ptr) = order := by
          refine List.filter_eq_self.2 fun p hp => ?_
          have hne : p ≠ ptr := fun heq => hnot (heq ▸ hp)
          simpa using hne
        rw [hself] at hfilter
        rw [hlive]
        exact hfilter
      obtain ⟨t, hrun, ht, hstart', hnil⟩ := ih hready hrest
      exact ⟨t, run_cons_eq_ok.2 ⟨s', hstep, hrun⟩, ht, hstart'.trans hstart, hnil⟩

/-- **Complete coalescing**: in every run of one unit no two neighbours are both free, and from the
first call of `kmalloc` on, releasing everything that is live, in any order, leaves one free block
that fills the heap. -/
theorem run_recovers (byte : Ram) (ops : List (HeapOp Unit))
    (hops : Along HeapOp.step HeapOp.Allowed (heapPowerOn byte) ops) :
    ∃ s, run HeapOp.step (heapPowerOn byte) ops = .ok s ∧
      (∀ bs, HeapList s.byte (s.heapStart ()) bs → Separated bs) ∧
      ((∃ n, HeapOp.kmalloc () n ∈ ops) → ∀ order : List UInt32,
        order.Perm (s.live.map Live.ptr) →
          ∃ t, run HeapOp.step s (order.map (HeapOp.kfree ())) = .ok t ∧
            HeapList t.byte (t.heapStart ())
              [⟨kernelHeapStart.toNat, (kernelHeapSize - sizeofKblock).toNat, true⟩]) := by
  obtain ⟨s, hrun, hready, hstart⟩ := run_unit byte hops
  refine ⟨s, hrun, ?_, ?_⟩
  · intro bs hbs
    by_cases hzero : s.heapStart () = 0
    · rw [hzero] at hbs
      cases bs with
      | nil => exact List.isChain_nil
      | cons b bs => exact absurd rfl hbs.1.ne
    · obtain ⟨hheap, bs', hinv⟩ := hready.invariant hzero
      rw [hheap] at hbs
      rw [hbs.unique hinv.list]
      exact hinv.separated
  · intro hcalled order horder
    obtain ⟨n, hn⟩ := hcalled
    obtain ⟨t, hfrees, ht, hsame, hnil⟩ := run_kfree hready order horder
    have hzero : t.heapStart () ≠ 0 := by
      rw [hsame]
      exact fun h0 => hstart.1 h0 n hn
    obtain ⟨hheap, bs, hinv⟩ := ht.invariant hzero
    refine ⟨t, hfrees, ?_⟩
    have hlist := hinv.list
    rw [hinv.eq_whole hnil] at hlist
    rw [hheap]
    exact hlist

/-- Two blocks, released in the order in which they were allocated. -/
theorem run_recovers_two :
    ∃ s t, run HeapOp.step (heapPowerOn fun _ => 0)
        [HeapOp.kmalloc () 8, HeapOp.kmalloc () 24] = .ok s ∧
      run HeapOp.step s [HeapOp.kfree () 0x10000C, HeapOp.kfree () 0x100020] = .ok t ∧
      HeapList t.byte (t.heapStart ())
        [⟨kernelHeapStart.toNat, (kernelHeapSize - sizeofKblock).toNat, true⟩] := by
  have hlive : (run HeapOp.step (heapPowerOn fun _ => 0)
      [HeapOp.kmalloc () 8, HeapOp.kmalloc () 24]).toOption.map HeapState.live =
        some [⟨(), 0x100020, 24⟩, ⟨(), 0x10000C, 8⟩] := by decide +kernel
  obtain ⟨s, hrun, -, hrecovers⟩ := run_recovers (fun _ => 0)
    [HeapOp.kmalloc () 8, HeapOp.kmalloc () 24] ⟨trivial, fun _ _ => ⟨trivial, fun _ _ => trivial⟩⟩
  rw [hrun] at hlive
  have hptrs : s.live = [⟨(), 0x100020, 24⟩, ⟨(), 0x10000C, 8⟩] := Option.some.inj hlive
  obtain ⟨t, hfrees, hlist⟩ := hrecovers ⟨8, List.mem_cons_self⟩ [0x10000C, 0x100020]
    (by rw [hptrs]; decide)
  exact ⟨s, t, hrun, hfrees, hlist⟩

/-- Before the first call there is not even one block. -/
theorem not_recovers_powerOn :
    run (HeapOp.step (U := Unit)) (heapPowerOn fun _ => 0) [] = .ok (heapPowerOn fun _ => 0) ∧
      ¬ HeapList (fun _ => 0) ((heapPowerOn fun _ => 0 : HeapState Unit).heapStart ())
        [⟨kernelHeapStart.toNat, (kernelHeapSize - sizeofKblock).toNat, true⟩] := by
  refine ⟨rfl, ?_⟩
  intro h
  exact h.1.ne rfl

end Anaga
