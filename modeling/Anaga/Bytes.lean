/-
**Bytes, little-endian words, and copies in blocks.**

A region of memory is a function from offsets to bytes.  This module fixes how words are laid
out in a region, what a copy between two regions does, and what is left of a loop that copies a
region block by block.

Main definitions:

* `Bytes.byteOf`, `Bytes.word`, `Bytes.half` — the bytes of a 32-bit word, and the 32-bit and
  16-bit words stored at an offset, in little-endian order;
* `Bytes.halves`, `Bytes.ofHalves` — the 16-bit words of a region, and the bytes of such words;
* `Bytes.splice` — a region after a copy of `n` bytes to the offset `o`;
* `Bytes.writeBlocks` — a store of blocks after a nested loop has written a table to it.

Main results:

* `Bytes.word_eq_of_byteOf`, `Bytes.byteOf_word`, `Bytes.ofHalves_halves` — words and their bytes
  determine each other;
* `Bytes.foldl_splice` — a loop of block copies is a pointwise description of the region;
* `Bytes.writeBlocks_apply` — the nested loop writes every block of the table once, and no other.
-/

import Mathlib.Data.List.GetD
import Mathlib.Data.Nat.Basic
import Mathlib.Logic.Function.Basic
import Mathlib.Tactic.Ring

set_option relaxedAutoImplicit false
set_option autoImplicit false

namespace Bytes

/-! ### Words -/

/-- Byte `k` of a 32-bit word, counted from the low end. -/
def byteOf (w : UInt32) (k : ℕ) : UInt8 := UInt8.ofNat (w.toNat / 256 ^ k)

/-- The 32-bit word stored at the offset `o`. -/
def word (b : ℕ → UInt8) (o : ℕ) : UInt32 :=
  UInt32.ofNat ((b o).toNat + 256 * (b (o + 1)).toNat + 65536 * (b (o + 2)).toNat +
    16777216 * (b (o + 3)).toNat)

/-- The 16-bit word stored at the offset `o`. -/
def half (b : ℕ → UInt8) (o : ℕ) : UInt16 :=
  UInt16.ofNat ((b o).toNat + 256 * (b (o + 1)).toNat)

/-- The four bytes of a word, low end first. -/
def wordBytes (w : UInt32) : List UInt8 := [byteOf w 0, byteOf w 1, byteOf w 2, byteOf w 3]

@[simp] theorem wordBytes_length (w : UInt32) : (wordBytes w).length = 4 := rfl

@[simp] theorem byteOf_zero (k : ℕ) : byteOf 0 k = 0 := by
  simp [byteOf]

theorem wordBytes_getD (w : UInt32) {k : ℕ} (hk : k < 4) : (wordBytes w).getD k 0 = byteOf w k := by
  match k, hk with
  | 0, _ => rfl
  | 1, _ => rfl
  | 2, _ => rfl
  | 3, _ => rfl

theorem word_congr {b b' : ℕ → UInt8} {o o' : ℕ} (h : ∀ k < 4, b (o + k) = b' (o' + k)) :
    word b o = word b' o' := by
  have h0 := h 0 (by omega)
  rw [Nat.add_zero, Nat.add_zero] at h0
  rw [word, word, h0, h 1 (by omega), h 2 (by omega), h 3 (by omega)]

/-- A word whose four bytes are stored at `o` is the word stored at `o`. -/
theorem word_eq_of_byteOf {b : ℕ → UInt8} {o : ℕ} {w : UInt32}
    (h : ∀ k < 4, b (o + k) = byteOf w k) : word b o = w := by
  have h0 := h 0 (by omega)
  rw [Nat.add_zero] at h0
  have hw := w.toNat_lt
  rw [word, h0, h 1 (by omega), h 2 (by omega), h 3 (by omega)]
  simp only [byteOf, UInt8.toNat_ofNat']
  rw [← UInt32.toNat_inj, UInt32.toNat_ofNat']
  omega

/-- The bytes of the word stored at `o` are the bytes stored from `o` on. -/
theorem byteOf_word (b : ℕ → UInt8) (o : ℕ) {k : ℕ} (hk : k < 4) :
    byteOf (word b o) k = b (o + k) := by
  have h0 := (b o).toNat_lt
  have h1 := (b (o + 1)).toNat_lt
  have h2 := (b (o + 2)).toNat_lt
  have h3 := (b (o + 3)).toNat_lt
  rw [← UInt8.toNat_inj, byteOf, word, UInt8.toNat_ofNat', UInt32.toNat_ofNat']
  match k, hk with
  | 0, _ => simp only [Nat.add_zero, pow_zero, Nat.div_one]; omega
  | 1, _ => omega
  | 2, _ => omega
  | 3, _ => omega

@[simp] theorem word_zero (o : ℕ) : word (fun _ => 0) o = 0 := rfl

/-- The bytes of the 16-bit words of a list, low end first. -/
def ofHalves (l : List UInt16) : ℕ → UInt8 := fun o =>
  UInt8.ofNat ((l.getD (o / 2) 0).toNat / 256 ^ (o % 2))

/-- The 16-bit words at the even offsets below `2 * n`. -/
def halves (b : ℕ → UInt8) (n : ℕ) : List UInt16 := (List.range n).map fun i => half b (2 * i)

@[simp] theorem halves_length (b : ℕ → UInt8) (n : ℕ) : (halves b n).length = n := by
  simp [halves]

/-- The bytes of the words of a region are the bytes of the region. -/
theorem ofHalves_halves (b : ℕ → UInt8) {n o : ℕ} (h : o < 2 * n) : ofHalves (halves b n) o = b o := by
  have hlt : o / 2 < (halves b n).length := by
    rw [halves_length]
    omega
  have hget : (halves b n).getD (o / 2) 0 = half b (2 * (o / 2)) := by
    rw [List.getD_eq_getElem _ _ hlt]
    simp only [halves, List.getElem_map, List.getElem_range]
  have h0 := (b (2 * (o / 2))).toNat_lt
  have h1 := (b (2 * (o / 2) + 1)).toNat_lt
  rw [ofHalves, hget, half, ← UInt8.toNat_inj, UInt8.toNat_ofNat', UInt16.toNat_ofNat']
  rcases Nat.mod_two_eq_zero_or_one o with hmod | hmod
  · have ho : 2 * (o / 2) = o := by omega
    rw [hmod, ho, pow_zero, Nat.div_one]
    rw [ho] at h0 h1
    omega
  · have ho : 2 * (o / 2) + 1 = o := by omega
    rw [hmod, ho, pow_one]
    rw [ho] at h1
    omega

/-! ### Copies -/

/-- The region `dst` after the first `n` bytes of `src` were copied to its offset `o`. -/
def splice (dst : ℕ → UInt8) (o : ℕ) (src : ℕ → UInt8) (n : ℕ) : ℕ → UInt8 :=
  fun x => if o ≤ x ∧ x < o + n then src (x - o) else dst x

theorem splice_apply (dst : ℕ → UInt8) (o : ℕ) (src : ℕ → UInt8) (n x : ℕ) :
    splice dst o src n x = if o ≤ x ∧ x < o + n then src (x - o) else dst x := rfl

/-- Copying block after block: the byte `x` comes from block `x / B`, where that block was copied
that far. -/
theorem foldl_splice {B : ℕ} (src : ℕ → ℕ → UInt8) (size : ℕ → ℕ) (hsize : ∀ s, size s ≤ B)
    (old : ℕ → UInt8) (m x : ℕ) :
    (List.range m).foldl (fun raw s => splice raw (s * B) (src s) (size s)) old x =
      if x / B < m ∧ x % B < size (x / B) then src (x / B) (x % B) else old x := by
  induction m with
  | zero => simp
  | succ m ih =>
      rw [List.range_succ, List.foldl_append, List.foldl_cons, List.foldl_nil, splice_apply, ih]
      have hdm := Nat.div_add_mod x B
      rw [Nat.mul_comm] at hdm
      by_cases hin : m * B ≤ x ∧ x < m * B + size m
      · have hB : 0 < B := by have := hsize m; omega
        have hlt : x < (m + 1) * B := by have := hsize m; rw [Nat.add_mul]; omega
        have hd : x / B = m :=
          Nat.le_antisymm (Nat.lt_succ_iff.1 ((Nat.div_lt_iff_lt_mul hB).2 hlt))
            ((Nat.le_div_iff_mul_le hB).2 hin.1)
        have hmod : x - m * B = x % B := by rw [hd] at hdm; omega
        have hcond : x / B < m + 1 ∧ x % B < size (x / B) := by
          rw [hd]; omega
        rw [if_pos hin, if_pos hcond, hd, hmod]
      · rw [if_neg hin]
        have hiff : (x / B < m + 1 ∧ x % B < size (x / B)) ↔
            (x / B < m ∧ x % B < size (x / B)) := by
          refine ⟨fun h => ⟨?_, h.2⟩, fun h => ⟨by omega, h.2⟩⟩
          rcases Nat.lt_or_ge (x / B) m with hlt | hge
          · exact hlt
          · obtain heq : x / B = m := by omega
            have h2 := h.2
            rw [heq] at hdm h2
            omega
        simp only [hiff]

/-! ### Writing a table of blocks -/

/-- The store after block `s` of row `i` was written at `o + i * m + s`, for `i < n` and `s < m`,
row after row. -/
def writeBlocks {α : Type*} (o n m : ℕ) (block : ℕ → ℕ → α) (store : ℕ → α) : ℕ → α :=
  (List.range n).foldl
    (fun store i => (List.range m).foldl
      (fun store s => Function.update store (o + i * m + s) (block i s)) store) store

theorem foldl_update {α : Type*} (o m : ℕ) (block : ℕ → α) (store : ℕ → α) (x : ℕ) :
    (List.range m).foldl (fun store s => Function.update store (o + s) (block s)) store x =
      if o ≤ x ∧ x < o + m then block (x - o) else store x := by
  induction m with
  | zero => rw [if_neg (by omega)]; rfl
  | succ m ih =>
      rw [List.range_succ, List.foldl_append, List.foldl_cons, List.foldl_nil,
        Function.update_apply, ih]
      rcases Nat.lt_trichotomy x (o + m) with hx | hx | hx
      · rw [if_neg (by omega)]
        rcases Nat.lt_or_ge x o with hlo | hlo
        · rw [if_neg (by omega), if_neg (by omega)]
        · rw [if_pos (by omega), if_pos (by omega)]
      · rw [if_pos hx, if_pos (by omega), hx, Nat.add_sub_cancel_left]
      · rw [if_neg (by omega), if_neg (by omega), if_neg (by omega)]

/-- A loop that replaces the entries of a table one after the other. -/
theorem foldl_update_of_nodup {ι α : Type*} [DecidableEq ι] (f : ι → α → α) {l : List ι}
    (h : l.Nodup) (t : ι → α) (j : ι) :
    l.foldl (fun t i => Function.update t i (f i (t i))) t j = if j ∈ l then f j (t j) else t j := by
  induction l generalizing t with
  | nil => rw [if_neg List.not_mem_nil]; rfl
  | cons i l ih =>
      obtain ⟨hi, hl⟩ := List.nodup_cons.1 h
      rw [List.foldl_cons, ih hl]
      rcases eq_or_ne j i with rfl | hne
      · rw [if_neg hi, Function.update_self, if_pos List.mem_cons_self]
      · rw [Function.update_of_ne hne]
        simp only [List.mem_cons, hne, false_or]

/-- **The nested loop writes every block of the table once, and no other block.** -/
theorem writeBlocks_apply {α : Type*} {o n m : ℕ} (block : ℕ → ℕ → α) (store : ℕ → α) (x : ℕ) :
    writeBlocks o n m block store x =
      if o ≤ x ∧ x < o + n * m then block ((x - o) / m) ((x - o) % m) else store x := by
  induction n with
  | zero => rw [if_neg (by omega)]; rfl
  | succ n ih =>
      have hstep : writeBlocks o (n + 1) m block store =
          (List.range m).foldl (fun store s => Function.update store (o + n * m + s) (block n s))
            (writeBlocks o n m block store) := by
        rw [writeBlocks, List.range_succ, List.foldl_append]
        rfl
      rw [hstep, foldl_update, ih, Nat.add_mul, Nat.one_mul]
      rcases Nat.lt_or_ge x (o + n * m) with hlt | hge
      · -- an earlier row, or no row at all
        rw [if_neg (by omega)]
        rcases Nat.lt_or_ge x o with hlo | hlo
        · rw [if_neg (by omega), if_neg (by omega)]
        · rw [if_pos (by omega), if_pos (by omega)]
      · rcases Nat.lt_or_ge x (o + n * m + m) with hlt | hge'
        · -- the row that was just written
          have hm : 0 < m := by omega
          have hd : (x - o) / m = n := by
            refine Nat.le_antisymm (Nat.lt_succ_iff.1 ((Nat.div_lt_iff_lt_mul hm).2 ?_))
              ((Nat.le_div_iff_mul_le hm).2 (by omega))
            rw [Nat.succ_mul]
            omega
          have hmod : x - (o + n * m) = (x - o) % m := by
            have hdm := Nat.div_add_mod (x - o) m
            rw [hd, Nat.mul_comm] at hdm
            omega
          rw [if_pos (by omega), if_pos (by omega), hd, hmod]
        · rw [if_neg (by omega), if_neg (by omega), if_neg (by omega)]

end Bytes
