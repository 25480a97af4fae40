/-
**Computations that leave a trace.**

A computation that may fail and otherwise leaves a list of what it did, one after the other with
others, and in a loop whose counter is a machine word.  A loop over a counter of `w` bits ends in
front of its bound, so the counter takes every value between the two once; what a trace holds once
for one value of the counter, it holds once.

Main definitions:

* `Trace.seq` — computations one after the other;
* `Trace.loop` — the loop `for (; c < n; c++)`.

Main results:

* `Trace.exists_seq_cons`, `Trace.exists_loop` — what does not fail in parts does not fail;
* `Trace.loop_countP` — **what one value of the counter leaves, the loop leaves once**.
-/

import Anaga.Transition
import Mathlib.Data.BitVec

set_option relaxedAutoImplicit false
set_option autoImplicit false

namespace Trace

open Transition

variable {ε α : Type}

/-! ### One after the other -/

/-- The computations, one after the other. -/
def seq : List (Except ε (List α)) → Except ε (List α)
  | [] => .ok []
  | x :: xs => x >>= fun t => seq xs >>= fun ts => .ok (t ++ ts)

theorem exists_seq_nil : ∃ t, seq ([] : List (Except ε (List α))) = .ok t := ⟨[], rfl⟩

theorem exists_seq_cons {x : Except ε (List α)} {xs : List (Except ε (List α))}
    (hx : ∃ t, x = .ok t) (hxs : ∃ t, seq xs = .ok t) : ∃ t, seq (x :: xs) = .ok t :=
  exists_bind_eq_ok hx fun t => exists_bind_eq_ok hxs fun ts => ⟨t ++ ts, rfl⟩

theorem seq_cons_eq_ok {x : Except ε (List α)} {xs : List (Except ε (List α))} {ts : List α} :
    seq (x :: xs) = .ok ts ↔ ∃ t, x = .ok t ∧ ∃ ts', seq xs = .ok ts' ∧ t ++ ts' = ts := by
  simp only [seq, bind_eq_ok, Except.ok.injEq]

@[simp] theorem seq_nil_eq_ok {ts : List α} :
    seq ([] : List (Except ε (List α))) = .ok ts ↔ ts = [] := by
  rw [seq, Except.ok.injEq, eq_comm]

/-! ### Loops -/

variable {w : ℕ}

/-- The counter does not wrap around in front of its bound. -/
theorem toNat_add_one_of_lt {c n : BitVec w} (h : c < n) : (c + 1).toNat = c.toNat + 1 := by
  have hn := n.isLt
  rw [BitVec.lt_def] at h
  have hw : 0 < w := by
    rcases Nat.eq_zero_or_pos w with rfl | hw
    · omega
    · exact hw
  have hone : (1 : BitVec w).toNat = 1 := by
    simp [Nat.mod_eq_of_lt (Nat.one_lt_two_pow hw.ne')]
  rw [BitVec.toNat_add, hone]
  exact Nat.mod_eq_of_lt (by omega)

/-- The loop `for (; c < n; c++)`. -/
def loop (body : BitVec w → Except ε (List α)) (n c : BitVec w) : Except ε (List α) :=
  if _h : c < n then
    body c >>= fun t => loop body n (c + 1) >>= fun ts => .ok (t ++ ts)
  else .ok []
termination_by n.toNat - c.toNat
decreasing_by
  have hsucc := toNat_add_one_of_lt _h
  rw [BitVec.lt_def] at _h
  omega

variable {body : BitVec w → Except ε (List α)} {n : BitVec w}

/-- The values of the counter from `c` on are `c` and those from `c + 1` on. -/
theorem le_iff_eq_or_succ_le {c i : BitVec w} (h : c < n) : c ≤ i ↔ i = c ∨ c + 1 ≤ i := by
  rw [BitVec.le_def, BitVec.le_def, toNat_add_one_of_lt h, ← BitVec.toNat_inj]
  omega

/-- An induction along the counter. -/
theorem loop_induction {P : BitVec w → Prop} (done : ∀ c, ¬ c < n → P c)
    (step : ∀ c, c < n → P (c + 1) → P c) (c : BitVec w) : P c := by
  induction hd : n.toNat - c.toNat generalizing c with
  | zero =>
      refine done c ?_
      rw [BitVec.lt_def]
      omega
  | succ d ih =>
      have hc : c < n := by
        rw [BitVec.lt_def]
        omega
      refine step c hc (ih _ ?_)
      rw [toNat_add_one_of_lt hc]
      omega

theorem exists_loop {c : BitVec w} (h : ∀ i, c ≤ i → i < n → ∃ t, body i = .ok t) :
    ∃ t, loop body n c = .ok t := by
  induction c using loop_induction (n := n) with
  | done c hc => exact ⟨[], by rw [loop, dif_neg hc]⟩
  | step c hc ih =>
      rw [loop, dif_pos hc]
      refine exists_bind_eq_ok (h c (BitVec.le_refl c) hc) fun t => ?_
      refine exists_bind_eq_ok (ih fun i hi => ?_) fun ts => ⟨t ++ ts, rfl⟩
      exact h i ((le_iff_eq_or_succ_le hc).2 (.inr hi))

/-- **What one value of the counter leaves, the loop leaves once.** -/
theorem loop_countP {p : α → Bool} {j : BitVec w} {m : ℕ} {c : BitVec w} {ts : List α}
    (hloop : loop body n c = .ok ts)
    (h : ∀ i t, c ≤ i → i < n → body i = .ok t → t.countP p = if i = j then m else 0) :
    ts.countP p = if c ≤ j ∧ j < n then m else 0 := by
  induction c using loop_induction (n := n) generalizing ts with
  | done c hc =>
      rw [loop, dif_neg hc] at hloop
      obtain rfl := Except.ok.inj hloop
      rw [List.countP_nil, if_neg]
      rintro ⟨hcj, hj⟩
      rw [BitVec.le_def] at hcj
      rw [BitVec.lt_def] at hc hj
      omega
  | step c hc ih =>
      rw [loop, dif_pos hc] at hloop
      obtain ⟨t, ht, hrest⟩ := bind_eq_ok.mp hloop
      obtain ⟨ts', hts', hsum⟩ := bind_eq_ok.mp hrest
      obtain rfl := Except.ok.inj hsum
      have hhead := h c t (BitVec.le_refl c) hc ht
      have htail := ih hts' fun i t hi => h i t ((le_iff_eq_or_succ_le hc).2 (.inr hi))
      have hle := le_iff_eq_or_succ_le hc (i := j)
      rw [List.countP_append, hhead, htail]
      by_cases hj : c = j
      · have hpast : ¬ c + 1 ≤ c := by
          rw [BitVec.le_def, toNat_add_one_of_lt hc]
          omega
        subst hj
        rw [if_pos rfl, if_neg fun h => hpast h.1, if_pos ⟨hle.2 (.inl rfl), hc⟩, Nat.add_zero]
      · rw [or_iff_right (Ne.symm hj)] at hle
        simp only [if_neg hj, Nat.zero_add, hle]

end Trace
