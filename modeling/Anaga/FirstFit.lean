/-
**First-fit allocation on a list of blocks.**

An arena is cut into blocks that lie one behind the other, each with a header of fixed length in
front of its payload.  A request takes the first free block that is large enough, and splits it if
what is left has room for a header and at least one byte.  Releasing a block marks it free, and one
pass over the list then merges every free block with the free blocks behind it.

Main definitions:

* `FirstFit.Block`, `FirstFit.Tiles` — blocks, and blocks that fill an interval without a gap;
* `FirstFit.Separated` — no two neighbours are both free;
* `FirstFit.used` — the blocks that are not free;
* `FirstFit.alloc`, `FirstFit.release`, `FirstFit.coalesce` — the operations.

Main results:

* `FirstFit.alloc_eq_some` — what a successful request does;
* `FirstFit.Tiles.alloc`, `FirstFit.Tiles.release`, `FirstFit.Tiles.coalesce` — every operation
  keeps the interval filled;
* `FirstFit.Separated.alloc`, `FirstFit.separated_coalesce` — requests keep free blocks apart, and
  a pass over any list leaves them apart;
* `FirstFit.used_alloc`, `FirstFit.used_release`, `FirstFit.used_coalesce` — which blocks are in
  use afterwards;
* `FirstFit.eq_single` — **if nothing is in use, there is one block**.
-/

import Mathlib.Data.List.Basic
import Mathlib.Data.List.Chain
import Mathlib.Data.List.Perm.Basic

set_option relaxedAutoImplicit false
set_option autoImplicit false

namespace FirstFit

/-! ### Blocks -/

/-- A block: the address of its header, the size of its payload, and whether it is free. -/
structure Block where
  addr : ℕ
  size : ℕ
  free : Bool
deriving DecidableEq, Repr

/-- The address of the payload, behind a header of length `h`. -/
def Block.payload (h : ℕ) (b : Block) : ℕ := b.addr + h

/-- The address behind the block. -/
def Block.stop (h : ℕ) (b : Block) : ℕ := b.addr + h + b.size

/-- The blocks fill the interval from `a` to `e`, one behind the other. -/
def Tiles (h : ℕ) : ℕ → List Block → ℕ → Prop
  | a, [], e => a = e
  | a, b :: bs, e => b.addr = a ∧ Tiles h (b.stop h) bs e

/-- No two neighbours are both free. -/
def Separated (bs : List Block) : Prop := bs.IsChain fun b c => b.free = true → c.free = false

/-- The blocks that are not free. -/
def used (bs : List Block) : List Block := bs.filter fun b => !b.free

/-! ### Operations -/

/-- What becomes of a free block that is given to a request for `r` bytes. -/
def split (h r : ℕ) (b : Block) : List Block :=
  if r + h < b.size then [⟨b.addr, r, false⟩, ⟨b.addr + h + r, b.size - r - h, true⟩]
  else [{ b with free := false }]

/-- Giving the first free block that is large enough: the address of its payload, and the blocks
afterwards. -/
def alloc (h r : ℕ) : List Block → Option (ℕ × List Block)
  | [] => none
  | b :: bs =>
      if b.free = true ∧ r ≤ b.size then some (b.payload h, split h r b ++ bs)
      else (alloc h r bs).map fun x => (x.1, b :: x.2)

/-- Marking the block with the payload `p` as free. -/
def release (h p : ℕ) (bs : List Block) : List Block :=
  bs.map fun b => if b.payload h = p then { b with free := true } else b

/-- Merging free blocks in one pass, of which the first block is the current one. -/
def coalesce (h : ℕ) : Block → List Block → List Block
  | b, [] => [b]
  | b, c :: bs =>
      if b.free = true ∧ c.free = true then coalesce h { b with size := b.size + (h + c.size) } bs
      else b :: coalesce h c bs

variable {h a e r p : ℕ} {b c : Block} {bs cs : List Block}

/-! ### Blocks in a row -/

theorem tiles_append :
    Tiles h a (bs ++ cs) e ↔ ∃ m, Tiles h a bs m ∧ Tiles h m cs e := by
  induction bs generalizing a with
  | nil => simp [Tiles]
  | cons b bs ih => simp [Tiles, ih, and_assoc]

/-- Every block lies inside the interval. -/
theorem Tiles.bounds (ht : Tiles h a bs e) : a ≤ e ∧ ∀ b ∈ bs, a ≤ b.addr ∧ b.stop h ≤ e := by
  induction bs generalizing a with
  | nil =>
      obtain rfl : a = e := ht
      exact ⟨le_rfl, fun b hb => absurd hb List.not_mem_nil⟩
  | cons b bs ih =>
      obtain ⟨rfl, ht⟩ := ht
      obtain ⟨hle, hbs⟩ := ih ht
      have hstop : b.addr ≤ b.stop h := by
        rw [Block.stop]
        omega
      refine ⟨hstop.trans hle, ?_⟩
      intro c hc
      rcases List.mem_cons.1 hc with rfl | hc
      · exact ⟨le_rfl, hle⟩
      · exact ⟨hstop.trans (hbs c hc).1, (hbs c hc).2⟩

/-- Blocks do not overlap. -/
theorem Tiles.pairwise (ht : Tiles h a bs e) : bs.Pairwise fun b c => b.stop h ≤ c.addr := by
  induction bs generalizing a with
  | nil => exact List.Pairwise.nil
  | cons b bs ih =>
      obtain ⟨-, ht⟩ := ht
      exact List.pairwise_cons.2 ⟨fun c hc => (ht.bounds.2 c hc).1, ih ht⟩

/-- Every block takes at least the room of its header. -/
theorem Tiles.length_le (ht : Tiles h a bs e) : a + bs.length * h ≤ e := by
  induction bs generalizing a with
  | nil =>
      obtain rfl : a = e := ht
      simp
  | cons b bs ih =>
      obtain ⟨rfl, ht⟩ := ht
      have hrest := ih ht
      rw [List.length_cons, Nat.add_mul]
      rw [Block.stop] at hrest
      omega

/-- Of two different blocks one lies in front of the other. -/
theorem Tiles.apart (ht : Tiles h a bs e) (hb : b ∈ bs) (hc : c ∈ bs) (hne : b ≠ c) :
    b.stop h ≤ c.addr ∨ c.stop h ≤ b.addr := by
  induction bs generalizing a with
  | nil => exact absurd hb List.not_mem_nil
  | cons d bs ih =>
      obtain ⟨-, ht⟩ := ht
      have hbounds := ht.bounds.2
      rcases List.mem_cons.1 hb with rfl | hb'
      · rcases List.mem_cons.1 hc with rfl | hc'
        · exact absurd rfl hne
        · exact Or.inl (hbounds c hc').1
      · rcases List.mem_cons.1 hc with rfl | hc'
        · exact Or.inr (hbounds b hb').1
        · exact ih ht hb' hc'

/-- With a header in front of every payload, the payload says which block it is. -/
theorem Tiles.payload_injective (ht : Tiles h a bs e) (h0 : 0 < h) (hb : b ∈ bs) (hc : c ∈ bs)
    (heq : b.payload h = c.payload h) : b = c := by
  by_contra hne
  have happart := ht.apart hb hc hne
  simp only [Block.payload, Block.stop] at heq happart
  omega

/-- The payloads of the blocks in use are different. -/
theorem Tiles.nodup_payload (ht : Tiles h a bs e) (h0 : 0 < h) :
    ((used bs).map (Block.payload h)).Nodup := by
  rw [List.nodup_iff_pairwise_ne, List.pairwise_map]
  refine (ht.pairwise.sublist List.filter_sublist).imp ?_
  intro b c hbc heq
  simp only [Block.payload, Block.stop] at heq hbc
  omega

theorem mem_used : b ∈ used bs ↔ b ∈ bs ∧ b.free = false := by
  simp [used]

@[simp] theorem used_nil : used [] = [] := rfl

theorem used_append (bs cs : List Block) : used (bs ++ cs) = used bs ++ used cs :=
  List.filter_append bs cs

theorem used_cons_of_free (hb : b.free = true) : used (b :: bs) = used bs := by
  simp [used, hb]

theorem used_cons_of_not_free (hb : b.free = false) : used (b :: bs) = b :: used bs := by
  simp [used, hb]

/-! ### Requests -/

/-- **What a successful request does.** -/
theorem alloc_eq_some {x : ℕ × List Block} (hx : alloc h r bs = some x) :
    ∃ pre b post, bs = pre ++ b :: post ∧ b.free = true ∧ r ≤ b.size ∧
      x = (b.payload h, pre ++ (split h r b ++ post)) := by
  induction bs generalizing x with
  | nil => exact absurd hx (by simp [alloc])
  | cons b bs ih =>
      rw [alloc] at hx
      split_ifs at hx with hfit
      · exact ⟨[], b, bs, rfl, hfit.1, hfit.2, (Option.some.inj hx).symm⟩
      · obtain ⟨y, hy, rfl⟩ := Option.map_eq_some_iff.1 hx
        obtain ⟨pre, c, post, rfl, hfree, hle, rfl⟩ := ih hy
        exact ⟨b :: pre, c, post, rfl, hfree, hle, rfl⟩

/-- A request is refused exactly if no free block is large enough. -/
theorem alloc_eq_none_iff :
    alloc h r bs = none ↔ ∀ b ∈ bs, b.free = true → b.size < r := by
  induction bs with
  | nil => simp [alloc]
  | cons b bs ih =>
      rw [alloc, List.forall_mem_cons]
      split_ifs with hfit
      · refine iff_of_false (by simp) ?_
        intro hall
        exact absurd (hall.1 hfit.1) (not_lt.2 hfit.2)
      · rw [Option.map_eq_none_iff, ih, iff_and_self]
        intro _ hfree
        exact not_le.1 fun hle => hfit ⟨hfree, hle⟩

/-- The size of the block that is given away. -/
def given (h r : ℕ) (b : Block) : Block := ⟨b.addr, if r + h < b.size then r else b.size, false⟩

/-- What is given away is as large as is asked for, and no larger than the block it is cut from. -/
theorem size_given (hle : r ≤ b.size) : r ≤ (given h r b).size ∧ (given h r b).size ≤ b.size := by
  rw [given]
  dsimp only
  split_ifs with hsplit
  · exact ⟨le_rfl, hle⟩
  · exact ⟨hle, le_rfl⟩

theorem used_split : used (split h r b) = [given h r b] := by
  rw [split, given]
  split_ifs with hsplit
  · rfl
  · rfl

theorem tiles_split : Tiles h b.addr (split h r b) (b.stop h) := by
  rw [split]
  split_ifs with hsplit
  · refine ⟨rfl, rfl, ?_⟩
    simp only [Tiles, Block.stop]
    omega
  · exact ⟨rfl, rfl⟩

/-- **A request keeps the interval filled.** -/
theorem Tiles.alloc (ht : Tiles h a bs e) {x : ℕ × List Block} (hx : alloc h r bs = some x) :
    Tiles h a x.2 e := by
  obtain ⟨pre, b, post, rfl, -, -, rfl⟩ := alloc_eq_some hx
  obtain ⟨m, hpre, rfl, hpost⟩ := tiles_append.1 ht
  exact tiles_append.2 ⟨_, hpre, tiles_append.2 ⟨_, tiles_split, hpost⟩⟩

/-- **A request keeps free blocks apart**: what is left of the block is free, but the block behind
it was not. -/
theorem Separated.alloc (hs : Separated bs) {x : ℕ × List Block} (hx : alloc h r bs = some x) :
    Separated x.2 := by
  obtain ⟨pre, b, post, rfl, hfree, -, rfl⟩ := alloc_eq_some hx
  obtain ⟨hpre, hrest, -⟩ := List.isChain_append.1 hs
  rw [← List.singleton_append] at hrest
  obtain ⟨-, hpost, hnext⟩ := List.isChain_append.1 hrest
  have hbehind : ∀ d ∈ post.head?, d.free = false := fun d hd => hnext b rfl d hd hfree
  refine List.isChain_append.2 ⟨hpre, List.isChain_append.2 ⟨?_, hpost, ?_⟩, ?_⟩
  · rw [split]
    split_ifs with hsplit
    · exact List.isChain_pair.2 fun h => absurd h Bool.false_ne_true
    · exact List.isChain_singleton _
  · exact fun _ _ d hd _ => hbehind d hd
  · -- the block in front only sees a block that is not free any more
    intro c _ d hd _
    rw [split] at hd
    split_ifs at hd with hsplit
    · obtain rfl := Option.some.inj hd
      rfl
    · obtain rfl := Option.some.inj hd
      rfl

/-- **A request adds the block that is given away to those in use.** -/
theorem used_alloc {x : ℕ × List Block} (hx : alloc h r bs = some x) :
    ∃ b, b ∈ bs ∧ b.free = true ∧ r ≤ b.size ∧ x.1 = b.payload h ∧
      (used x.2).Perm (given h r b :: used bs) := by
  obtain ⟨pre, b, post, rfl, hfree, hle, rfl⟩ := alloc_eq_some hx
  refine ⟨b, by simp, hfree, hle, rfl, ?_⟩
  rw [used_append, used_append, used_append, used_split, used_cons_of_free hfree]
  exact List.perm_middle

/-! ### Releasing a block -/

theorem Tiles.release (ht : Tiles h a bs e) (p : ℕ) : Tiles h a (release h p bs) e := by
  induction bs generalizing a with
  | nil => exact ht
  | cons b bs ih =>
      obtain ⟨rfl, ht⟩ := ht
      rw [FirstFit.release, List.map_cons]
      split_ifs
      · exact ⟨rfl, ih ht⟩
      · exact ⟨rfl, ih ht⟩

theorem release_of_not_mem (hp : ∀ b ∈ bs, b.payload h ≠ p) : release h p bs = bs := by
  induction bs with
  | nil => rfl
  | cons b bs ih =>
      obtain ⟨hb, hbs⟩ := List.forall_mem_cons.1 hp
      rw [FirstFit.release] at ih ⊢
      rw [List.map_cons, if_neg hb, ih hbs]

/-- Releasing a block does not move any. -/
theorem exists_of_mem_release (hb : b ∈ release h p bs) : ∃ c ∈ bs, b.addr = c.addr := by
  obtain ⟨c, hc, rfl⟩ := List.mem_map.1 hb
  refine ⟨c, hc, ?_⟩
  split_ifs
  · rfl
  · rfl

/-- **Releasing a block takes it out of use.** -/
theorem used_release (p : ℕ) (bs : List Block) :
    used (release h p bs) = (used bs).filter fun b => b.payload h ≠ p := by
  induction bs with
  | nil => rfl
  | cons b bs ih =>
      rw [FirstFit.release] at ih ⊢
      rw [List.map_cons]
      cases hb : b.free with
      | true =>
          rw [used_cons_of_free hb, ← ih]
          split_ifs
          · exact used_cons_of_free rfl
          · exact used_cons_of_free hb
      | false =>
          rw [used_cons_of_not_free hb, List.filter_cons, ← ih]
          split_ifs with hp hp' hp'
          · simp [hp] at hp'
          · exact used_cons_of_free rfl
          · exact used_cons_of_not_free hb
          · simp [hp] at hp'

/-! ### Merging -/

/-- **Merging keeps the interval filled.** -/
theorem Tiles.coalesce (ht : Tiles h a (b :: bs) e) : Tiles h a (coalesce h b bs) e := by
  induction bs generalizing a b with
  | nil => exact ht
  | cons c bs ih =>
      obtain ⟨rfl, hc, ht⟩ := ht
      rw [FirstFit.coalesce]
      split_ifs with hfree
      · refine ih ⟨rfl, ?_⟩
        have hstop : Block.stop h { b with size := b.size + (h + c.size) } = c.stop h := by
          simp only [Block.stop] at hc ⊢
          omega
        rwa [hstop]
      · exact ⟨rfl, ih ⟨hc, ht⟩⟩

/-- The first block stays where it is, and stays free if it was. -/
theorem head_coalesce (b : Block) (bs : List Block) :
    ∃ c cs, coalesce h b bs = c :: cs ∧ c.addr = b.addr ∧ c.free = b.free := by
  induction bs generalizing b with
  | nil => exact ⟨b, [], rfl, rfl, rfl⟩
  | cons c bs ih =>
      rw [FirstFit.coalesce]
      split_ifs with hfree
      · exact ih _
      · exact ⟨b, _, rfl, rfl, rfl⟩

/-- **One pass leaves free blocks apart, whatever the list was.** -/
theorem separated_coalesce (b : Block) (bs : List Block) : Separated (coalesce h b bs) := by
  induction bs generalizing b with
  | nil => exact List.isChain_singleton b
  | cons c bs ih =>
      rw [FirstFit.coalesce]
      split_ifs with hfree
      · exact ih _
      · obtain ⟨d, ds, hd, -, hdc⟩ := head_coalesce (h := h) c bs
        have hrest := ih c
        rw [hd] at hrest ⊢
        refine List.isChain_cons_cons.2 ⟨?_, hrest⟩
        intro hb
        rw [hdc]
        cases hc : c.free with
        | true => exact absurd ⟨hb, hc⟩ hfree
        | false => rfl

/-- **Merging does not touch the blocks in use.** -/
theorem used_coalesce (b : Block) (bs : List Block) : used (coalesce h b bs) = used (b :: bs) := by
  induction bs generalizing b with
  | nil => rfl
  | cons c bs ih =>
      rw [FirstFit.coalesce]
      split_ifs with hfree
      · have hmerged : ({ b with size := b.size + (h + c.size) } : Block).free = true := hfree.1
        rw [ih, used_cons_of_free hmerged, used_cons_of_free hfree.1, used_cons_of_free hfree.2]
      · cases hb : b.free with
        | true => rw [used_cons_of_free hb, used_cons_of_free hb, ih]
        | false => rw [used_cons_of_not_free hb, used_cons_of_not_free hb, ih]

/-! ### Recovery -/

/-- **If nothing is in use and free blocks are apart, there is one block**, and it fills the
interval. -/
theorem eq_single (ht : Tiles h a bs e) (hs : Separated bs) (hlt : a < e) (hu : used bs = []) :
    bs = [⟨a, e - a - h, true⟩] := by
  have hfree : ∀ b ∈ bs, b.free = true := by
    intro b hb
    by_contra hne
    have hmem : b ∈ used bs := mem_used.2 ⟨hb, by simpa using hne⟩
    rw [hu] at hmem
    exact List.not_mem_nil hmem
  cases bs with
  | nil => exact absurd ht (Nat.ne_of_lt hlt)
  | cons b bs =>
      cases bs with
      | nil =>
          obtain ⟨rfl, hstop⟩ := ht
          obtain ⟨addr, size, free⟩ := b
          obtain rfl : free = true := hfree _ List.mem_cons_self
          simp only [Tiles, Block.stop] at hstop
          simp only [List.cons.injEq, Block.mk.injEq, true_and, and_true]
          omega
      | cons c bs =>
          have hc := (List.isChain_cons_cons.1 hs).1 (hfree b (by simp))
          rw [hfree c (by simp)] at hc
          exact Bool.noConfusion hc

end FirstFit
