/-
**Loops that look for something and note what they read.**

A loop `for (i = 0; i < n; i++)` whose body may return: it stops at the first round in which the
body does, or behind the last round.  What it returns and what it has read on the way are described
here for any body, so that the bounds of an array can be checked from the body alone.

Main definitions:

* `Scan.Round` — what a round reads, and what it returns, if it does;
* `Scan.loop` — the loop;
* `Scan.wordLoop` — the same loop with a counter of 32 bits;
* `Scan.Reached` — no round in front of this one returns.

Main results:

* `Scan.loop_found_eq_some_iff`, `Scan.loop_found_eq_none_iff` — **the loop returns what the first
  round returns that does**;
* `Scan.mem_loop_reads` — **the loop reads what the rounds read that it reaches**;
* `Scan.wordLoop_eq` — a counter of 32 bits does not wrap around in front of its bound.
-/

import Mathlib.Data.Nat.Find
import Mathlib.Order.Basic

set_option relaxedAutoImplicit false
set_option autoImplicit false

namespace Scan

/-- What a round reads, and what it returns, if it does. -/
structure Round (ρ α : Type) where
  reads : List ρ
  found : Option α

variable {ρ α : Type} (body : ℕ → Round ρ α) (n : ℕ)

/-- The loop, from the round `i` on. -/
def loopFrom (i : ℕ) : Round ρ α :=
  if i < n then
    match (body i).found with
    | some a => ⟨(body i).reads, some a⟩
    | none => ⟨(body i).reads ++ (loopFrom (i + 1)).reads, (loopFrom (i + 1)).found⟩
  else ⟨[], none⟩
termination_by n - i

/-- The loop: everything it reads, and what it returns, if it does. -/
def loop : Round ρ α := loopFrom body n 0

/-- No round in front of `i` returns. -/
def Reached (i : ℕ) : Prop := ∀ j < i, (body j).found = none

variable {body n}

theorem loopFrom_of_le {i : ℕ} (h : n ≤ i) : loopFrom body n i = ⟨[], none⟩ := by
  rw [loopFrom, if_neg (not_lt.2 h)]

theorem loopFrom_of_some {i : ℕ} (hi : i < n) {a : α} (ha : (body i).found = some a) :
    loopFrom body n i = ⟨(body i).reads, some a⟩ := by
  rw [loopFrom, if_pos hi, ha]

theorem loopFrom_of_none {i : ℕ} (hi : i < n) (ha : (body i).found = none) :
    loopFrom body n i =
      ⟨(body i).reads ++ (loopFrom body n (i + 1)).reads, (loopFrom body n (i + 1)).found⟩ := by
  rw [loopFrom, if_pos hi, ha]

theorem reached_zero : Reached body 0 := fun j hj => absurd hj (Nat.not_lt_zero j)

theorem Reached.succ {i : ℕ} (h : Reached body i) (hi : (body i).found = none) :
    Reached body (i + 1) := by
  intro j hj
  rcases Nat.lt_succ_iff_lt_or_eq.1 hj with hlt | rfl
  · exact h j hlt
  · exact hi

/-- A round that is reached is not behind one that returns. -/
theorem Reached.le {i j : ℕ} (h : Reached body i) {a : α} (ha : (body j).found = some a) :
    i ≤ j := by
  by_contra hlt
  have hnone := h j (not_le.1 hlt)
  rw [ha] at hnone
  exact Option.some_ne_none a hnone

/-- A reached round ends the rest of the loop, or the rest reaches a later one. -/
theorem loopFrom_found_eq_some_iff {i : ℕ} (h : Reached body i) {a : α} :
    (loopFrom body n i).found = some a ↔ ∃ k < n, (body k).found = some a ∧ Reached body k := by
  induction hd : n - i generalizing i with
  | zero =>
      rw [loopFrom_of_le (by omega)]
      refine iff_of_false (Option.some_ne_none a).symm ?_
      rintro ⟨k, hk, hfound, -⟩
      have hle := h.le hfound
      omega
  | succ d ih =>
      have hi : i < n := by omega
      cases hfound : (body i).found with
      | none =>
          rw [loopFrom_of_none hi hfound]
          exact ih (h.succ hfound) (by omega)
      | some b =>
          rw [loopFrom_of_some hi hfound]
          constructor
          · intro hba
            exact ⟨i, hi, hfound.trans hba, h⟩
          · rintro ⟨k, -, hk, hreached⟩
            -- both are the first round that returns
            obtain rfl : i = k := le_antisymm (h.le hk) (hreached.le hfound)
            exact hfound.symm.trans hk

/-- **The loop returns what the first round returns that does.** -/
theorem loop_found_eq_some_iff {a : α} :
    (loop body n).found = some a ↔ ∃ k < n, (body k).found = some a ∧ Reached body k :=
  loopFrom_found_eq_some_iff reached_zero

/-- **It returns nothing exactly if no round returns.** -/
theorem loop_found_eq_none_iff : (loop body n).found = none ↔ Reached body n := by
  constructor
  · intro h
    by_contra hreached
    -- the first round that returns is the least one
    have hex : ∃ k, k < n ∧ (body k).found ≠ none := by
      simpa only [Reached, not_forall, exists_prop] using hreached
    classical
    obtain ⟨hk, hfound⟩ := Nat.find_spec hex
    obtain ⟨a, ha⟩ := Option.ne_none_iff_exists'.1 hfound
    have hfirst : Reached body (Nat.find hex) := by
      intro j hj
      by_contra hne
      exact Nat.find_min hex hj ⟨hj.trans hk, hne⟩
    have hsome := loop_found_eq_some_iff.2 ⟨_, hk, ha, hfirst⟩
    rw [h] at hsome
    exact Option.some_ne_none a hsome.symm
  · intro h
    rw [Option.eq_none_iff_forall_ne_some]
    intro a hsome
    obtain ⟨k, hk, hfound, -⟩ := loop_found_eq_some_iff.1 hsome
    rw [h k hk] at hfound
    exact Option.some_ne_none a hfound.symm

theorem mem_loopFrom_reads {i : ℕ} (h : Reached body i) {r : ρ} :
    r ∈ (loopFrom body n i).reads ↔ ∃ k, i ≤ k ∧ k < n ∧ Reached body k ∧ r ∈ (body k).reads := by
  induction hd : n - i generalizing i with
  | zero =>
      rw [loopFrom_of_le (by omega)]
      refine iff_of_false List.not_mem_nil ?_
      rintro ⟨k, hik, hk, -⟩
      omega
  | succ d ih =>
      have hi : i < n := by omega
      cases hfound : (body i).found with
      | none =>
          rw [loopFrom_of_none hi hfound, List.mem_append, ih (h.succ hfound) (by omega)]
          constructor
          · rintro (hr | ⟨k, hik, hk⟩)
            · exact ⟨i, le_rfl, hi, h, hr⟩
            · exact ⟨k, by omega, hk⟩
          · rintro ⟨k, hik, hk, hreached, hr⟩
            rcases Nat.eq_or_lt_of_le hik with rfl | hlt
            · exact Or.inl hr
            · exact Or.inr ⟨k, hlt, hk, hreached, hr⟩
      | some b =>
          rw [loopFrom_of_some hi hfound]
          constructor
          · intro hr
            exact ⟨i, le_rfl, hi, h, hr⟩
          · rintro ⟨k, hik, -, hreached, hr⟩
            obtain rfl : i = k := le_antisymm hik (hreached.le hfound)
            exact hr

/-- **The loop reads what the rounds read that it reaches.** -/
theorem mem_loop_reads {r : ρ} :
    r ∈ (loop body n).reads ↔ ∃ k < n, Reached body k ∧ r ∈ (body k).reads := by
  rw [loop, mem_loopFrom_reads reached_zero]
  constructor
  · rintro ⟨k, -, hk⟩
    exact ⟨k, hk⟩
  · rintro ⟨k, hk⟩
    exact ⟨k, Nat.zero_le k, hk⟩

/-! ### Counters of 32 bits -/

/-- The counter does not wrap around in front of the bound. -/
theorem toNat_add_one_of_lt {i n : UInt32} (h : i < n) : (i + 1).toNat = i.toNat + 1 := by
  have hn := n.toNat_lt
  rw [UInt32.lt_iff_toNat_lt] at h
  rw [UInt32.toNat_add]
  exact Nat.mod_eq_of_lt (by change i.toNat + 1 < 2 ^ 32; omega)

section Word

variable (body : UInt32 → Round ρ α) (n : UInt32)

/-- The loop with a counter of 32 bits, from the round `i` on. -/
def wordLoopFrom (i : UInt32) : Round ρ α :=
  if _h : i < n then
    match (body i).found with
    | some a => ⟨(body i).reads, some a⟩
    | none => ⟨(body i).reads ++ (wordLoopFrom (i + 1)).reads, (wordLoopFrom (i + 1)).found⟩
  else ⟨[], none⟩
termination_by n.toNat - i.toNat
decreasing_by
  all_goals
    have hsucc := toNat_add_one_of_lt _h
    rw [UInt32.lt_iff_toNat_lt] at _h
    omega

/-- The loop with a counter of 32 bits. -/
def wordLoop : Round ρ α := wordLoopFrom body n 0

variable {body n}

theorem wordLoopFrom_eq (i : UInt32) :
    wordLoopFrom body n i = loopFrom (fun j => body (UInt32.ofNat j)) n.toNat i.toNat := by
  induction hd : n.toNat - i.toNat generalizing i with
  | zero =>
      have hle : n.toNat ≤ i.toNat := by omega
      rw [loopFrom_of_le hle, wordLoopFrom, dif_neg]
      exact UInt32.not_lt.2 (UInt32.le_iff_toNat_le.2 hle)
  | succ d ih =>
      have hlt : i.toNat < n.toNat := by omega
      have hi : i < n := UInt32.lt_iff_toNat_lt.2 hlt
      have hsucc := toNat_add_one_of_lt hi
      have hself : UInt32.ofNat i.toNat = i := UInt32.ofNat_toNat
      rw [wordLoopFrom, dif_pos hi, ih (i + 1) (by omega), hsucc]
      cases hfound : (body i).found with
      | none => rw [loopFrom_of_none hlt (hself.symm ▸ hfound), hself]
      | some a => rw [loopFrom_of_some hlt (hself.symm ▸ hfound), hself]

/-- **A counter of 32 bits counts as far as any.** -/
theorem wordLoop_eq : wordLoop body n = loop (fun j => body (UInt32.ofNat j)) n.toNat :=
  wordLoopFrom_eq 0

end Word

end Scan
