/-
**The kernel heap: `include/stdlib.h`.**

The heap is an interval of memory that is cut into blocks, each with a header of twelve bytes: the
size of the payload, a flag, and a pointer to the next header.  `kmalloc` and `kfree` walk this
list and write to the headers.  The static `heap_start` is `NULL` until the first `kmalloc`, which
puts one block into the heap.

The loops follow pointers that they read from memory.  They are given a number of rounds that is
larger than any number of blocks the heap has room for, so that running out of rounds means that
the list does not end.

Main definitions:

* `Anaga.Ram`, `Anaga.loadWord`, `Anaga.storeWord` — words in memory;
* `Anaga.kheapInit`, `Anaga.kmalloc`, `Anaga.kfree` — the functions of the header;
* `Anaga.HeapList` — the list of blocks that starts at a pointer.

Main results:

* `Anaga.heapList_kheapInit` — the list after the first call;
* `Anaga.kmallocLoop_some`, `Anaga.kmallocLoop_none` — **the loop of `kmalloc` is first fit**;
* `Anaga.mergeLoop_spec` — **the loop of `kfree` is one merging pass**.
-/

import Mathlib.Data.List.GetD
import Anaga.Bytes
import Anaga.FirstFit

set_option relaxedAutoImplicit false
set_option autoImplicit false

namespace Anaga

open FirstFit

/-! ### Words in memory -/

/-- Memory, by address. -/
abbrev Ram := UInt32 → UInt8

/-- The word at the address `p`. -/
def loadWord (m : Ram) (p : UInt32) : UInt32 := Bytes.word (fun j => m (p + UInt32.ofNat j)) 0

/-- Storing a word at the address `p`. -/
def storeWord (m : Ram) (p w : UInt32) : Ram :=
  fun x => (Bytes.wordBytes w).getD (x - p).toNat (m x)

theorem storeWord_of_apart (m : Ram) {p x : UInt32} (w : UInt32) (hp : p.toNat + 4 ≤ 2 ^ 32)
    (h : x.toNat < p.toNat ∨ p.toNat + 4 ≤ x.toNat) : storeWord m p w x = m x := by
  have hx := x.toNat_lt
  have hsub : (x - p).toNat = (2 ^ 32 - p.toNat + x.toNat) % 2 ^ 32 := UInt32.toNat_sub x p
  refine List.getD_eq_default _ _ ?_
  rw [Bytes.wordBytes_length]
  omega

@[simp] theorem loadWord_storeWord (m : Ram) (p w : UInt32) : loadWord (storeWord m p w) p = w := by
  refine Bytes.word_eq_of_byteOf fun k hk => ?_
  have hsub : (p + UInt32.ofNat (0 + k) - p).toNat = k := by
    have hp := p.toNat_lt
    rw [UInt32.toNat_sub, UInt32.toNat_add, UInt32.toNat_ofNat']
    omega
  rw [storeWord, hsub, ← Bytes.wordBytes_getD w hk]
  have hlen : k < (Bytes.wordBytes w).length := hk
  rw [List.getD_eq_getElem _ _ hlen, List.getD_eq_getElem _ _ hlen]

/-- Another word, wherever the addresses wrap around. -/
theorem loadWord_storeWord_of_sub (m : Ram) {p q : UInt32} (w : UInt32)
    (h : 4 ≤ (q - p).toNat ∧ (q - p).toNat + 4 ≤ 2 ^ 32) :
    loadWord (storeWord m p w) q = loadWord m q := by
  refine Bytes.word_congr fun k hk => List.getD_eq_default _ _ ?_
  have hoffset : (q + UInt32.ofNat (0 + k) - p).toNat = (q - p).toNat + k := by
    have hp := p.toNat_lt
    have hq := q.toNat_lt
    rw [UInt32.toNat_sub] at h
    rw [UInt32.toNat_sub, UInt32.toNat_sub, UInt32.toNat_add, UInt32.toNat_ofNat']
    omega
  rw [hoffset, Bytes.wordBytes_length]
  omega

/-- A word is what its four bytes are. -/
theorem loadWord_congr {m m' : Ram} {p : UInt32} (hp : p.toNat + 4 ≤ 2 ^ 32)
    (h : ∀ x : UInt32, p.toNat ≤ x.toNat → x.toNat < p.toNat + 4 → m' x = m x) :
    loadWord m' p = loadWord m p := by
  refine Bytes.word_congr fun k hk => h _ ?_ ?_
  all_goals
    rw [UInt32.toNat_add, UInt32.toNat_ofNat']
    omega

/-! ### Headers -/

/-- `KERNEL_HEAP_START`. -/
def kernelHeapStart : UInt32 := 0x100000

/-- `KERNEL_HEAP_SIZE`. -/
def kernelHeapSize : UInt32 := 0x400000

/-- `sizeof(kblock_t)`. -/
def sizeofKblock : UInt32 := 12

/-- `block->size`. -/
def blockSize (m : Ram) (block : UInt32) : UInt32 := loadWord m block

/-- `block->free`. -/
def blockFree (m : Ram) (block : UInt32) : UInt32 := loadWord m (block + 4)

/-- `block->next`. -/
def blockNext (m : Ram) (block : UInt32) : UInt32 := loadWord m (block + 8)

/-- `block->size = size`. -/
def setSize (m : Ram) (block size : UInt32) : Ram := storeWord m block size

/-- `block->free = free`. -/
def setFree (m : Ram) (block free : UInt32) : Ram := storeWord m (block + 4) free

/-- `block->next = next`. -/
def setNext (m : Ram) (block next : UInt32) : Ram := storeWord m (block + 8) next

/-! ### The functions -/

/-- `kheap_init`: `heap_start` and memory afterwards. -/
def kheapInit (heapStart : UInt32) (m : Ram) : UInt32 × Ram :=
  if heapStart = 0 then
    let m := setSize m kernelHeapStart (kernelHeapSize - sizeofKblock)
    let m := setFree m kernelHeapStart 1
    let m := setNext m kernelHeapStart 0
    (kernelHeapStart, m)
  else (heapStart, m)

/-- The body of `if (current->size > size + sizeof(kblock_t))`. -/
def splitBlock (m : Ram) (current size : UInt32) : Ram :=
  let newBlock := current + sizeofKblock + size
  let m := setSize m newBlock (blockSize m current - size - sizeofKblock)
  let m := setFree m newBlock 1
  let m := setNext m newBlock (blockNext m current)
  let m := setSize m current size
  setNext m current newBlock

/-- What `kmalloc` does to the block it has found. -/
def takeBlock (m : Ram) (current size : UInt32) : Ram :=
  let m := if size + sizeofKblock < blockSize m current then splitBlock m current size else m
  setFree m current 0

/-- The loop of `kmalloc`, with the number of rounds left: the pointer that is returned, and memory
afterwards. -/
def kmallocLoop (size : UInt32) : ℕ → UInt32 → Ram → Option (UInt32 × Ram)
  | 0, _, _ => none
  | n + 1, current, m =>
      if current = 0 then some (0, m)
      else if blockFree m current ≠ 0 ∧ size ≤ blockSize m current then
        some (current + sizeofKblock, takeBlock m current size)
      else kmallocLoop size n (blockNext m current) m

/-- The number of rounds that the loops are given. -/
def heapRounds : ℕ := 0x400000

/-- `(size + 7) & ~7`. -/
def roundUp (size : UInt32) : UInt32 := (size + 7) &&& 0xFFFFFFF8

/-- What `kmalloc` returns, and what it leaves. -/
structure HeapResult where
  ptr : UInt32
  heapStart : UInt32
  byte : Ram

/-- `kmalloc`. -/
def kmalloc (heapStart : UInt32) (m : Ram) (size : UInt32) : Option HeapResult :=
  let (heapStart, m) := kheapInit heapStart m
  if size = 0 then some ⟨0, heapStart, m⟩
  else (kmallocLoop (roundUp size) heapRounds heapStart m).map fun r => ⟨r.1, heapStart, r.2⟩

/-- The loop of `kfree`, with the number of rounds left. -/
def mergeLoop : ℕ → UInt32 → Ram → Option Ram
  | 0, _, _ => none
  | n + 1, current, m =>
      if current ≠ 0 ∧ blockNext m current ≠ 0 then
        if blockFree m current ≠ 0 ∧ blockFree m (blockNext m current) ≠ 0 then
          let m := setSize m current
            (blockSize m current + (sizeofKblock + blockSize m (blockNext m current)))
          let m := setNext m current (blockNext m (blockNext m current))
          mergeLoop n current m
        else mergeLoop n (blockNext m current) m
      else some m

/-- `kfree`: memory afterwards. -/
def kfree (heapStart : UInt32) (m : Ram) (ptr : UInt32) : Option Ram :=
  if ptr = 0 then some m
  else mergeLoop heapRounds heapStart (setFree m (ptr - sizeofKblock) 1)

/-! ### Reading back what was stored -/

theorem loadWord_storeWord_of_apart (m : Ram) {p q : UInt32} (w : UInt32)
    (hp : p.toNat + 4 ≤ 2 ^ 32) (hq : q.toNat + 4 ≤ 2 ^ 32)
    (h : p.toNat + 4 ≤ q.toNat ∨ q.toNat + 4 ≤ p.toNat) :
    loadWord (storeWord m q w) p = loadWord m p :=
  loadWord_congr hp fun _ hlo hhi => storeWord_of_apart m w hq (by omega)

theorem toNat_add_four {p : UInt32} (hp : p.toNat + 12 ≤ 2 ^ 32) : (p + 4).toNat = p.toNat + 4 := by
  rw [UInt32.toNat_add]
  exact Nat.mod_eq_of_lt (by change p.toNat + 4 < 2 ^ 32; omega)

theorem toNat_add_eight {p : UInt32} (hp : p.toNat + 12 ≤ 2 ^ 32) :
    (p + 8).toNat = p.toNat + 8 := by
  rw [UInt32.toNat_add]
  exact Nat.mod_eq_of_lt (by change p.toNat + 8 < 2 ^ 32; omega)

section Fields

variable (m : Ram) {p : UInt32} (w : UInt32)

@[simp] theorem blockSize_setSize : blockSize (setSize m p w) p = w := loadWord_storeWord m p w
@[simp] theorem blockFree_setFree : blockFree (setFree m p w) p = w := loadWord_storeWord m _ w
@[simp] theorem blockNext_setNext : blockNext (setNext m p w) p = w := loadWord_storeWord m _ w

variable (hp : p.toNat + 12 ≤ 2 ^ 32)
include hp

@[simp] theorem blockSize_setFree : blockSize (setFree m p w) p = blockSize m p := by
  have h4 := toNat_add_four hp
  exact loadWord_storeWord_of_apart m w (by omega) (by omega) (by omega)

@[simp] theorem blockSize_setNext : blockSize (setNext m p w) p = blockSize m p := by
  have h8 := toNat_add_eight hp
  exact loadWord_storeWord_of_apart m w (by omega) (by omega) (by omega)

@[simp] theorem blockFree_setSize : blockFree (setSize m p w) p = blockFree m p := by
  have h4 := toNat_add_four hp
  exact loadWord_storeWord_of_apart m w (by omega) (by omega) (by omega)

@[simp] theorem blockFree_setNext : blockFree (setNext m p w) p = blockFree m p := by
  have h4 := toNat_add_four hp
  have h8 := toNat_add_eight hp
  exact loadWord_storeWord_of_apart m w (by omega) (by omega) (by omega)

@[simp] theorem blockNext_setSize : blockNext (setSize m p w) p = blockNext m p := by
  have h8 := toNat_add_eight hp
  exact loadWord_storeWord_of_apart m w (by omega) (by omega) (by omega)

@[simp] theorem blockNext_setFree : blockNext (setFree m p w) p = blockNext m p := by
  have h4 := toNat_add_four hp
  have h8 := toNat_add_eight hp
  exact loadWord_storeWord_of_apart m w (by omega) (by omega) (by omega)

end Fields

/-! ### What is left alone -/

/-- Outside the interval the second memory is like the first. -/
def SameOutside (lo hi : ℕ) (m m' : Ram) : Prop :=
  ∀ x : UInt32, x.toNat < lo ∨ hi ≤ x.toNat → m' x = m x

namespace SameOutside

variable {lo hi lo' hi' : ℕ} {m m' m'' : Ram}

theorem trans (h : SameOutside lo hi m m') (h' : SameOutside lo hi m' m'') :
    SameOutside lo hi m m'' := fun x hx => (h' x hx).trans (h x hx)

theorem mono (h : SameOutside lo hi m m') (hlo : lo' ≤ lo) (hhi : hi ≤ hi') :
    SameOutside lo' hi' m m' := fun x hx => h x (by omega)

end SameOutside

section Stores

variable (m : Ram) {p : UInt32} (w : UInt32) (hp : p.toNat + 12 ≤ 2 ^ 32)
include hp

theorem sameOutside_setSize : SameOutside p.toNat (p.toNat + 12) m (setSize m p w) :=
  fun _ hx => storeWord_of_apart m w (by omega) (by omega)

theorem sameOutside_setFree : SameOutside p.toNat (p.toNat + 12) m (setFree m p w) := by
  have h4 := toNat_add_four hp
  exact fun _ hx => storeWord_of_apart m w (by omega) (by omega)

theorem sameOutside_setNext : SameOutside p.toNat (p.toNat + 12) m (setNext m p w) := by
  have h8 := toNat_add_eight hp
  exact fun _ hx => storeWord_of_apart m w (by omega) (by omega)

end Stores

/-! ### The list -/

/-- There is a header at `p`, and it is that of the block. -/
structure IsBlock (m : Ram) (p : UInt32) (b : Block) : Prop where
  ne : p ≠ 0
  addr : p.toNat = b.addr
  size : (blockSize m p).toNat = b.size
  free : blockFree m p ≠ 0 ↔ b.free = true

/-- The list that starts at the pointer `p` is `bs`. -/
def HeapList (m : Ram) : UInt32 → List Block → Prop
  | p, [] => p = 0
  | p, b :: bs => IsBlock m p b ∧ HeapList m (blockNext m p) bs

section List

variable {m m' : Ram} {p : UInt32} {b : Block} {bs : List Block} {a e lo hi : ℕ}

/-- A header is not changed by what happens outside of it. -/
theorem SameOutside.header (h : SameOutside lo hi m m') (hp : p.toNat + 12 ≤ 2 ^ 32)
    (hout : p.toNat + 12 ≤ lo ∨ hi ≤ p.toNat) :
    blockSize m' p = blockSize m p ∧ blockFree m' p = blockFree m p ∧
      blockNext m' p = blockNext m p := by
  have h4 := toNat_add_four hp
  have h8 := toNat_add_eight hp
  refine ⟨?_, ?_, ?_⟩
  · exact loadWord_congr (by omega) fun x _ _ => h x (by omega)
  · exact loadWord_congr (by omega) fun x _ _ => h x (by omega)
  · exact loadWord_congr (by omega) fun x _ _ => h x (by omega)

theorem IsBlock.same (hb : IsBlock m p b) (h : SameOutside lo hi m m')
    (hp : p.toNat + 12 ≤ 2 ^ 32) (hout : p.toNat + 12 ≤ lo ∨ hi ≤ p.toNat) : IsBlock m' p b := by
  obtain ⟨hsize, hfree, -⟩ := h.header hp hout
  exact ⟨hb.ne, hb.addr, by rw [hsize, hb.size], by rw [hfree, hb.free]⟩

/-- A list is not changed by what happens outside of its headers. -/
theorem HeapList.same (hl : HeapList m p bs) (h : SameOutside lo hi m m')
    (hout : ∀ b ∈ bs, b.addr + 12 ≤ 2 ^ 32 ∧ (b.addr + 12 ≤ lo ∨ hi ≤ b.addr)) :
    HeapList m' p bs := by
  induction bs generalizing p with
  | nil => exact hl
  | cons b bs ih =>
      obtain ⟨hb, hl⟩ := hl
      obtain ⟨⟨hp, hpout⟩, hrest⟩ := List.forall_mem_cons.1 hout
      rw [← hb.addr] at hp hpout
      refine ⟨hb.same h hp hpout, ?_⟩
      rw [(h.header hp hpout).2.2]
      exact ih hl hrest

/-- The size in the header of a block of the list. -/
theorem HeapList.blockSize_of_mem (hl : HeapList m p bs) (hb : b ∈ bs) {q : UInt32}
    (hq : q.toNat = b.addr) : (blockSize m q).toNat = b.size := by
  induction bs generalizing p with
  | nil => exact absurd hb List.not_mem_nil
  | cons c bs ih =>
      obtain ⟨hc, hl⟩ := hl
      rcases List.mem_cons.1 hb with rfl | hb
      · obtain rfl : p = q := UInt32.toNat_inj.1 (hc.addr.trans hq.symm)
        exact hc.size
      · exact ih hl hb

/-- Memory says which blocks there are. -/
theorem HeapList.unique {bs' : List Block} (hl : HeapList m p bs) (hl' : HeapList m p bs') :
    bs = bs' := by
  induction bs generalizing p bs' with
  | nil =>
      cases bs' with
      | nil => rfl
      | cons b' bs' => exact absurd hl hl'.1.ne
  | cons b bs ih =>
      cases bs' with
      | nil => exact absurd hl' hl.1.ne
      | cons b' bs' =>
          obtain ⟨hb, hl⟩ := hl
          obtain ⟨hb', hl'⟩ := hl'
          have hfree : b.free = b'.free := by rw [Bool.eq_iff_iff, ← hb.free, hb'.free]
          obtain ⟨addr, size, free⟩ := b
          obtain rfl := hb.addr.symm.trans hb'.addr
          obtain rfl := hb.size.symm.trans hb'.size
          obtain rfl := hfree
          rw [ih hl hl']

end List

/-! ### The first call -/

/-- The one block that fills the heap. -/
def wholeHeap : Block := ⟨0x100000, 0x3FFFF4, true⟩

/-- **The first call puts one block into the heap, whatever was there.** -/
theorem heapList_kheapInit (m : Ram) :
    HeapList (kheapInit 0 m).2 kernelHeapStart [wholeHeap] := by
  have hp : kernelHeapStart.toNat + 12 ≤ 2 ^ 32 := by decide
  refine ⟨⟨by decide, rfl, ?_, ?_⟩, ?_⟩
  · simp only [kheapInit, if_true, blockSize_setNext _ _ hp, blockSize_setFree _ _ hp,
      blockSize_setSize]
    rfl
  · simp only [kheapInit, if_true, blockFree_setNext _ _ hp, blockFree_setFree]
    decide
  · simp only [kheapInit, if_true, blockNext_setNext, HeapList]

theorem kheapInit_of_ne {heapStart : UInt32} (h : heapStart ≠ 0) (m : Ram) :
    kheapInit heapStart m = (heapStart, m) := if_neg h

/-! ### Taking a block -/

section Take

variable {m : Ram} {p size : UInt32} {b : Block} {bs : List Block} {a e : ℕ}

/-- The headers behind a block lie outside of it. -/
theorem headers_behind (ht : Tiles 12 (b.stop 12) bs e) (he : e < 2 ^ 32) :
    ∀ c ∈ bs, c.addr + 12 ≤ 2 ^ 32 ∧ (c.addr + 12 ≤ b.addr ∨ b.stop 12 ≤ c.addr) := by
  intro c hc
  obtain ⟨hlo, hhi⟩ := ht.bounds.2 c hc
  rw [Block.stop] at hhi
  exact ⟨by omega, Or.inr hlo⟩

theorem header_le (ht : Tiles 12 (b.stop 12) bs e) (he : e < 2 ^ 32) :
    b.addr + 12 + b.size < 2 ^ 32 := by
  have hstop := ht.bounds.1
  rw [Block.stop] at hstop
  omega

/-- Storing the flag of a block. -/
theorem setFree_spec (hb : IsBlock m p b) (hl : HeapList m (blockNext m p) bs)
    (ht : Tiles 12 (b.stop 12) bs e) (he : e < 2 ^ 32) {w : UInt32} {free : Bool}
    (hw : w ≠ 0 ↔ free = true) :
    HeapList (setFree m p w) p ({ b with free := free } :: bs) ∧
      SameOutside b.addr (b.addr + 12) m (setFree m p w) := by
  have hend := header_le ht he
  have haddr := hb.addr
  have hp : p.toNat + 12 ≤ 2 ^ 32 := by omega
  have hsame : SameOutside b.addr (b.addr + 12) m (setFree m p w) := by
    rw [← haddr]
    exact sameOutside_setFree m w hp
  refine ⟨⟨⟨hb.ne, haddr, ?_, ?_⟩, ?_⟩, hsame⟩
  · rw [blockSize_setFree _ _ hp, hb.size]
  · rw [blockFree_setFree]
    exact hw
  · rw [blockNext_setFree _ _ hp]
    refine hl.same (hsame.mono le_rfl ?_) (headers_behind ht he)
    rw [Block.stop]
    omega

/-- Splitting a block puts a header behind its new payload. -/
theorem splitBlock_spec (hb : IsBlock m p b) (hl : HeapList m (blockNext m p) bs)
    (ht : Tiles 12 (b.stop 12) bs e) (he : e < 2 ^ 32) (hlt : size.toNat + 12 < b.size) :
    HeapList (splitBlock m p size) p
        (⟨b.addr, size.toNat, b.free⟩ ::
          ⟨b.addr + 12 + size.toNat, b.size - size.toNat - 12, true⟩ :: bs) ∧
      SameOutside b.addr (b.stop 12) m (splitBlock m p size) := by
  have hend := header_le ht he
  have haddr := hb.addr
  have hsize := hb.size
  have hp : p.toNat + 12 ≤ 2 ^ 32 := by omega
  have hnew : (p + sizeofKblock + size).toNat = b.addr + 12 + size.toNat := by
    rw [UInt32.toNat_add, UInt32.toNat_add]
    change ((p.toNat + 12) % 2 ^ 32 + size.toNat) % 2 ^ 32 = _
    omega
  have hleft : (blockSize m p - size - sizeofKblock).toNat = b.size - size.toNat - 12 := by
    have hlast := size.toNat_lt
    rw [UInt32.toNat_sub, UInt32.toNat_sub, hsize]
    change (2 ^ 32 - 12 + _) % 2 ^ 32 = _
    omega
  rw [splitBlock]
  generalize p + sizeofKblock + size = q at hnew ⊢
  generalize blockSize m p - size - sizeofKblock = left at hleft ⊢
  have hq : q.toNat + 12 ≤ 2 ^ 32 := by omega
  -- first the new header is written, then the old one
  generalize hm₂ : setFree (setSize m q left) q 1 = m₂
  have h₂ : SameOutside q.toNat (q.toNat + 12) m m₂ := by
    rw [← hm₂]
    exact (sameOutside_setSize m left hq).trans (sameOutside_setFree _ 1 hq)
  have hnext : blockNext m₂ p = blockNext m p := (h₂.header hp (by omega)).2.2
  rw [hnext]
  generalize hm₃ : setNext m₂ q (blockNext m p) = m₃
  have h₃ : SameOutside q.toNat (q.toNat + 12) m m₃ := by
    rw [← hm₃]
    exact h₂.trans (sameOutside_setNext m₂ _ hq)
  generalize hm₅ : setNext (setSize m₃ p size) p q = m₅
  have h₅ : SameOutside p.toNat (p.toNat + 12) m₃ m₅ := by
    rw [← hm₅]
    exact (sameOutside_setSize m₃ size hp).trans (sameOutside_setNext _ q hp)
  have hall : SameOutside b.addr (b.stop 12) m m₅ := by
    rw [Block.stop]
    exact (h₃.mono (by omega) (by omega)).trans (h₅.mono (by omega) (by omega))
  obtain ⟨-, hpfree, -⟩ := h₃.header hp (by omega)
  obtain ⟨hqsize, hqfree, hqnext⟩ := h₅.header hq (by omega)
  have hlist : HeapList m₅ q
      (⟨b.addr + 12 + size.toNat, b.size - size.toNat - 12, true⟩ :: bs) := by
    refine ⟨⟨?_, hnew, ?_, ?_⟩, ?_⟩
    · intro h0
      rw [h0] at hnew
      change 0 = _ at hnew
      omega
    · rw [hqsize, ← hm₃, blockSize_setNext _ _ hq, ← hm₂, blockSize_setFree _ _ hq,
        blockSize_setSize, hleft]
    · rw [hqfree, ← hm₃, blockFree_setNext _ _ hq, ← hm₂, blockFree_setFree]
      exact iff_of_true (by decide) rfl
    · rw [hqnext, ← hm₃, blockNext_setNext]
      exact hl.same hall (headers_behind ht he)
  refine ⟨⟨⟨hb.ne, haddr, ?_, ?_⟩, ?_⟩, hall⟩
  · rw [← hm₅, blockSize_setNext _ _ hp, blockSize_setSize]
  · rw [← hm₅, blockFree_setNext _ _ hp, blockFree_setSize _ _ hp, hpfree, hb.free]
  · rwa [← hm₅, blockNext_setNext, hm₅]

/-- **What taking a block does is `FirstFit.split`.** -/
theorem takeBlock_spec (hb : IsBlock m p b) (hl : HeapList m (blockNext m p) bs)
    (ht : Tiles 12 (b.stop 12) bs e) (he : e < 2 ^ 32) (hle : size.toNat ≤ b.size) :
    HeapList (takeBlock m p size) p (split 12 size.toNat b ++ bs) ∧
      SameOutside b.addr (b.stop 12) m (takeBlock m p size) := by
  have hend := header_le ht he
  have hstop : b.stop 12 = b.addr + 12 + b.size := rfl
  have hsum : (size + sizeofKblock).toNat = size.toNat + 12 := by
    rw [UInt32.toNat_add]
    exact Nat.mod_eq_of_lt (by change size.toNat + 12 < 2 ^ 32; omega)
  have hcond : size + sizeofKblock < blockSize m p ↔ size.toNat + 12 < b.size := by
    rw [UInt32.lt_iff_toNat_lt, hsum, hb.size]
  have hflag : (0 : UInt32) ≠ 0 ↔ false = true := by decide
  rw [takeBlock, split]
  split_ifs with hword hnat hnat
  · obtain ⟨⟨hb', hl'⟩, hsame⟩ := splitBlock_spec hb hl ht he hnat
    have ht' : Tiles 12 (Block.stop 12 ⟨b.addr, size.toNat, b.free⟩)
        (⟨b.addr + 12 + size.toNat, b.size - size.toNat - 12, true⟩ :: bs) e := by
      refine ⟨rfl, ?_⟩
      have hstop' : Block.stop 12
          ⟨b.addr + 12 + size.toNat, b.size - size.toNat - 12, true⟩ = b.stop 12 := by
        simp only [Block.stop]
        omega
      rwa [hstop']
    obtain ⟨hlist, hfree⟩ := setFree_spec hb' hl' ht' he hflag
    exact ⟨hlist, hsame.trans (hfree.mono le_rfl (by simp only; omega))⟩
  · exact absurd (hcond.1 hword) hnat
  · exact absurd (hcond.2 hnat) hword
  · obtain ⟨hlist, hfree⟩ := setFree_spec hb hl ht he hflag
    exact ⟨hlist, hfree.mono le_rfl (by omega)⟩

end Take

/-! ### The loops -/

section Loops

variable {m : Ram} {p size : UInt32} {b : Block} {bs : List Block} {a e n : ℕ}

/-- The test of the loop of `kmalloc`. -/
theorem IsBlock.fits_iff (hb : IsBlock m p b) :
    blockFree m p ≠ 0 ∧ size ≤ blockSize m p ↔ b.free = true ∧ size.toNat ≤ b.size := by
  rw [hb.free, UInt32.le_iff_toNat_le, hb.size]

/-- If no block is large enough, the loop returns `NULL` and changes nothing. -/
theorem kmallocLoop_none (hl : HeapList m p bs) (hn : bs.length < n)
    (hx : alloc 12 size.toNat bs = none) : kmallocLoop size n p m = some (0, m) := by
  induction bs generalizing p n with
  | nil =>
      obtain rfl : p = 0 := hl
      cases n with
      | zero => exact absurd hn (Nat.not_lt_zero _)
      | succ n => rw [kmallocLoop, if_pos rfl]
  | cons b bs ih =>
      obtain ⟨hb, hl⟩ := hl
      cases n with
      | zero => exact absurd hn (Nat.not_lt_zero _)
      | succ n =>
          rw [alloc] at hx
          split_ifs at hx with hfit
          rw [kmallocLoop, if_neg hb.ne, if_neg (hb.fits_iff.not.2 hfit)]
          exact ih hl (Nat.lt_of_succ_lt_succ hn) (Option.map_eq_none_iff.1 hx)

/-- **The loop of `kmalloc` is first fit**, and it writes to the block that it takes only. -/
theorem kmallocLoop_some (hl : HeapList m p bs) (ht : Tiles 12 a bs e) (he : e < 2 ^ 32)
    (hn : bs.length < n) {x : ℕ × List Block} (hx : alloc 12 size.toNat bs = some x) :
    ∃ q m', kmallocLoop size n p m = some (q, m') ∧ q.toNat = x.1 ∧ HeapList m' p x.2 ∧
      ∃ b ∈ bs, b.free = true ∧ SameOutside b.addr (b.stop 12) m m' := by
  induction bs generalizing p a n x with
  | nil => exact absurd hx (by simp [alloc])
  | cons b bs ih =>
      obtain ⟨hb, hl⟩ := hl
      obtain ⟨rfl, ht⟩ := ht
      have hend := header_le ht he
      have haddr := hb.addr
      cases n with
      | zero => exact absurd hn (Nat.not_lt_zero _)
      | succ n =>
          rw [alloc] at hx
          rw [kmallocLoop, if_neg hb.ne]
          split_ifs at hx with hfit
          · obtain rfl := Option.some.inj hx
            obtain ⟨hlist, hsame⟩ := takeBlock_spec hb hl ht he hfit.2
            refine ⟨_, _, if_pos (hb.fits_iff.2 hfit), ?_, hlist, b, List.mem_cons_self, hfit.1,
              hsame⟩
            change (p + sizeofKblock).toNat = b.addr + 12
            rw [UInt32.toNat_add, haddr]
            exact Nat.mod_eq_of_lt (by change b.addr + 12 < 2 ^ 32; omega)
          · obtain ⟨y, hy, rfl⟩ := Option.map_eq_some_iff.1 hx
            obtain ⟨q, m', hloop, hq, hlist, c, hc, hfree, hsame⟩ :=
              ih hl ht (Nat.lt_of_succ_lt_succ hn) hy
            rw [if_neg (hb.fits_iff.not.2 hfit)]
            refine ⟨q, m', hloop, hq, ?_, c, List.mem_cons_of_mem b hc, hfree, hsame⟩
            -- the block that is taken lies behind this one
            have hbehind := (ht.bounds.2 c hc).1
            rw [Block.stop] at hbehind
            have hp : p.toNat + 12 ≤ 2 ^ 32 := by omega
            refine ⟨hb.same hsame hp (by omega), ?_⟩
            rwa [(hsame.header hp (by omega)).2.2]

/-- Marking a block of the list as free. -/
theorem heapList_release (hl : HeapList m p bs) (ht : Tiles 12 a bs e) (he : e < 2 ^ 32)
    {q : UInt32} (hb : b ∈ bs) (hq : q.toNat = b.addr) :
    HeapList (setFree m q 1) p (release 12 (b.payload 12) bs) ∧
      SameOutside b.addr (b.addr + 12) m (setFree m q 1) := by
  have hflag : (1 : UInt32) ≠ 0 ↔ true = true := by decide
  induction bs generalizing p a with
  | nil => exact absurd hb List.not_mem_nil
  | cons c bs ih =>
      obtain ⟨hc, hl⟩ := hl
      obtain ⟨rfl, ht⟩ := ht
      have hend := header_le ht he
      have haddr := hc.addr
      rcases List.mem_cons.1 hb with rfl | hb
      · obtain rfl : p = q := UInt32.toNat_inj.1 (haddr.trans hq.symm)
        obtain ⟨hlist, hsame⟩ := setFree_spec hc hl ht he hflag
        refine ⟨?_, hsame⟩
        have hrest : release 12 (b.payload 12) bs = bs := by
          refine release_of_not_mem fun d hd heq => ?_
          have hlo := (ht.bounds.2 d hd).1
          simp only [Block.payload, Block.stop] at heq hlo
          omega
        rw [release, List.map_cons, if_pos rfl, ← release, hrest]
        exact hlist
      · obtain ⟨hlist, hsame⟩ := ih hl ht hb
        have hlo := (ht.bounds.2 b hb).1
        rw [Block.stop] at hlo
        have hp : p.toNat + 12 ≤ 2 ^ 32 := by omega
        have hne : c.payload 12 ≠ b.payload 12 := by
          simp only [Block.payload]
          omega
        refine ⟨?_, hsame⟩
        rw [release, List.map_cons, if_neg hne, ← release]
        refine ⟨hc.same hsame hp (by omega), ?_⟩
        rwa [(hsame.header hp (by omega)).2.2]

/-- Merging two free neighbours in memory. -/
theorem merge_spec {c : Block} (hb : IsBlock m p b) (hc : IsBlock m (blockNext m p) c)
    (hl : HeapList m (blockNext m (blockNext m p)) bs) (hcaddr : c.addr = b.stop 12)
    (ht : Tiles 12 (c.stop 12) bs e) (he : e < 2 ^ 32) {m₁ m₂ : Ram}
    (hm₁ : m₁ = setSize m p
      (blockSize m p + (sizeofKblock + blockSize m (blockNext m p))))
    (hm₂ : m₂ = setNext m₁ p (blockNext m₁ (blockNext m₁ p))) :
    HeapList m₂ p ({ b with size := b.size + (12 + c.size) } :: bs) ∧
      SameOutside b.addr (b.addr + 12) m m₂ := by
  have hend := header_le ht he
  have hpaddr := hb.addr
  have hqaddr := hc.addr
  rw [Block.stop] at hcaddr
  have hp : p.toNat + 12 ≤ 2 ^ 32 := by omega
  have hq : (blockNext m p).toNat + 12 ≤ 2 ^ 32 := by omega
  have hsize : (blockSize m p + (sizeofKblock + blockSize m (blockNext m p))).toNat =
      b.size + (12 + c.size) := by
    rw [UInt32.toNat_add, UInt32.toNat_add, hb.size, hc.size]
    change (b.size + (12 + c.size) % 2 ^ 32) % 2 ^ 32 = _
    omega
  have h₁ : SameOutside b.addr (b.addr + 12) m m₁ := by
    rw [hm₁, ← hpaddr]
    exact sameOutside_setSize m _ hp
  have h₂ : SameOutside b.addr (b.addr + 12) m m₂ := by
    rw [hm₂, ← hpaddr]
    rw [← hpaddr] at h₁
    exact h₁.trans (sameOutside_setNext m₁ _ hp)
  have hnext₁ : blockNext m₁ p = blockNext m p := by rw [hm₁, blockNext_setSize _ _ hp]
  have hnext₂ : blockNext m₁ (blockNext m p) = blockNext m (blockNext m p) :=
    (h₁.header hq (by omega)).2.2
  refine ⟨⟨⟨hb.ne, hpaddr, ?_, ?_⟩, ?_⟩, h₂⟩
  · rw [hm₂, blockSize_setNext _ _ hp, hm₁, blockSize_setSize, hsize]
  · rw [hm₂, blockFree_setNext _ _ hp, hm₁, blockFree_setSize _ _ hp, hb.free]
  · rw [hm₂, blockNext_setNext, ← hm₂, hnext₁, hnext₂]
    refine hl.same h₂ fun d hd => ?_
    obtain ⟨hlo, hhi⟩ := ht.bounds.2 d hd
    rw [Block.stop] at hlo hhi
    exact ⟨by omega, Or.inr (by omega)⟩

/-- **The loop of `kfree` is one merging pass**, and it writes to headers only. -/
theorem mergeLoop_spec (hl : HeapList m p (b :: bs)) (ht : Tiles 12 a (b :: bs) e)
    (he : e < 2 ^ 32) (hn : bs.length < n) :
    ∃ m', mergeLoop n p m = some m' ∧ HeapList m' p (coalesce 12 b bs) ∧
      ∀ x : UInt32, (∀ c ∈ b :: bs, x.toNat < c.addr ∨ c.addr + 12 ≤ x.toNat) → m' x = m x := by
  induction bs generalizing b p a n m with
  | nil =>
      cases n with
      | zero => exact absurd hn (Nat.not_lt_zero _)
      | succ n =>
          have hnext : blockNext m p = 0 := hl.2
          refine ⟨m, ?_, hl, fun _ _ => rfl⟩
          rw [mergeLoop, if_neg fun h => h.2 hnext]
  | cons c bs ih =>
      obtain ⟨hb, hc, hl⟩ := hl
      obtain ⟨rfl, hcaddr, ht⟩ := ht
      have hend := header_le ht he
      have hpaddr := hb.addr
      have hstop : b.stop 12 = b.addr + 12 + b.size := rfl
      have hp : p.toNat + 12 ≤ 2 ^ 32 := by omega
      cases n with
      | zero => exact absurd hn (Nat.not_lt_zero _)
      | succ n =>
          have hn' := Nat.lt_of_succ_lt_succ hn
          have htest : blockFree m p ≠ 0 ∧ blockFree m (blockNext m p) ≠ 0 ↔
              b.free = true ∧ c.free = true := and_congr hb.free hc.free
          rw [mergeLoop, if_pos ⟨hb.ne, hc.ne⟩, coalesce]
          by_cases hfree : b.free = true ∧ c.free = true
          · rw [if_pos (htest.2 hfree), if_pos hfree]
            obtain ⟨hlist, hsame⟩ := merge_spec hb hc hl hcaddr ht he rfl rfl
            have ht' : Tiles 12 b.addr ({ b with size := b.size + (12 + c.size) } :: bs) e := by
              refine ⟨rfl, ?_⟩
              have hmerged : Block.stop 12 { b with size := b.size + (12 + c.size) } =
                  c.stop 12 := by
                simp only [Block.stop] at hcaddr ⊢
                omega
              rwa [hmerged]
            obtain ⟨m', hloop, hlist', hframe⟩ := ih hlist ht' hn'
            refine ⟨m', hloop, hlist', fun x hx => ?_⟩
            obtain ⟨hxb, hx⟩ := List.forall_mem_cons.1 hx
            obtain ⟨-, hx⟩ := List.forall_mem_cons.1 hx
            exact (hframe x (List.forall_mem_cons.2 ⟨hxb, hx⟩)).trans (hsame x hxb)
          · rw [if_neg (htest.not.2 hfree), if_neg hfree]
            obtain ⟨m', hloop, hlist', hframe⟩ := ih ⟨hc, hl⟩ ⟨rfl, ht⟩ hn'
            -- nothing behind this header is part of it
            have hsame : SameOutside (b.addr + 12) (2 ^ 32) m m' := by
              intro x hx
              have hxlt := x.toNat_lt
              refine hframe x (List.forall_mem_cons.2 ⟨Or.inl (by omega), fun d hd => ?_⟩)
              have hlo := (ht.bounds.2 d hd).1
              rw [Block.stop] at hlo
              exact Or.inl (by omega)
            refine ⟨m', hloop, ⟨hb.same hsame hp (by omega), ?_⟩, fun x hx => ?_⟩
            · rwa [(hsame.header hp (by omega)).2.2]
            · exact hframe x (List.forall_mem_cons.1 hx).2

end Loops

end Anaga
