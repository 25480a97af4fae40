/-
**Runs of a partial transition system.**

A system moves from state to state under labels, and a move can fail with an error.  This module
collects what is needed to reason about whole runs of such a system: an invariant is proved for
one step and carried along a run once and for all, and a property of single steps is lifted to
the statement that it holds at every step of a run.

Main definitions:

* `Transition.run` — running a list of labels, stopping at the first failure;
* `Transition.Along` — every step of a run is taken in a state in which a condition holds.

Main results:

* `Transition.run_total` — a step function that never fails under an invariant never fails on a
  run, and the invariant holds at the end;
* `Transition.run_total_of_along` — the same, along runs on which a condition holds;
* `Transition.run_simulates` — **a system that follows another one step for step follows its
  runs**;
* `Transition.exists_run_iff_along` — a run succeeds exactly if its steps do;
* `Transition.along_congr_of_mem` — conditions that agree on single steps agree along runs;
* `Transition.along_iff_forall_prefix`, `Transition.along_iff_forall_prefix_of_mem` — a condition
  on steps that says what the next state is like holds along a run exactly when the states reached
  are all like that.
-/

import Mathlib.Tactic.Basic
import Mathlib.Data.List.Infix

set_option relaxedAutoImplicit false
set_option autoImplicit false

namespace Transition

universe u

variable {σ α β : Type u} {ω ε : Type*}

/-! ### Computations that can fail -/

@[simp] theorem ok_bind (a : α) (f : α → Except ε β) : (Except.ok a >>= f) = f a := rfl

@[simp] theorem error_bind (e : ε) (f : α → Except ε β) :
    ((Except.error e : Except ε α) >>= f) = Except.error e := rfl

@[simp] theorem map_ok (a : α) (f : α → β) : f <$> (Except.ok a : Except ε α) = Except.ok (f a) :=
  rfl

@[simp] theorem map_error (e : ε) (f : α → β) :
    f <$> (Except.error e : Except ε α) = Except.error e := rfl

/-- A sequence succeeds exactly when both its parts do. -/
theorem bind_eq_ok {x : Except ε α} {f : α → Except ε β} {b : β} :
    (x >>= f) = .ok b ↔ ∃ a, x = .ok a ∧ f a = .ok b := by
  cases x with
  | ok a => simp
  | error e => simp

/-- A sequence succeeds if its first part does and its second part cannot fail. -/
theorem exists_bind_eq_ok {x : Except ε α} {f : α → Except ε β} (hx : ∃ a, x = .ok a)
    (hf : ∀ a, ∃ b, f a = .ok b) : ∃ b, (x >>= f) = .ok b := by
  obtain ⟨a, ha⟩ := hx
  obtain ⟨b, hb⟩ := hf a
  exact ⟨b, bind_eq_ok.2 ⟨a, ha, hb⟩⟩

/-- A mapped computation succeeds exactly when the computation does. -/
theorem map_eq_ok {x : Except ε α} {f : α → β} {b : β} :
    f <$> x = .ok b ↔ ∃ a, x = .ok a ∧ f a = b := by
  cases x with
  | ok a => simp
  | error e => simp

/-- A choice between mapped computations is a mapped choice. -/
theorem ite_eq_map_ite {c : Prop} [Decidable c] {x x' : Except ε β} {y y' : Except ε α} {h : α → β}
    (hx : x = h <$> y) (hx' : x' = h <$> y') :
    (if c then x else x') = h <$> (if c then y else y') := by
  split_ifs
  · exact hx
  · exact hx'

/-- What is known of the result of a computation that succeeds. -/
theorem toOption_map_eq_some {x : Except ε α} {f : α → β} {b : β} :
    x.toOption.map f = some b ↔ ∃ a, x = .ok a ∧ f a = b := by
  cases x with
  | ok a => simp [Except.toOption]
  | error e => simp [Except.toOption]

/-! ### Runs -/

/-- Running the labels one after the other; the first failure ends the run. -/
def run (step : σ → ω → Except ε σ) : σ → List ω → Except ε σ
  | s, [] => .ok s
  | s, o :: os => step s o >>= fun s' => run step s' os

/-- Every step of the run is taken in a state in which `C` holds of it. -/
def Along (step : σ → ω → Except ε σ) (C : σ → ω → Prop) : σ → List ω → Prop
  | _, [] => True
  | s, o :: os => C s o ∧ ∀ s', step s o = .ok s' → Along step C s' os

variable {step : σ → ω → Except ε σ} {P : σ → Prop} {C D : σ → ω → Prop}

@[simp] theorem run_nil (s : σ) : run step s [] = .ok s := rfl

theorem run_cons (s : σ) (o : ω) (os : List ω) :
    run step s (o :: os) = step s o >>= fun s' => run step s' os := rfl

theorem run_cons_eq_ok {s t : σ} {o : ω} {os : List ω} :
    run step s (o :: os) = .ok t ↔ ∃ s', step s o = .ok s' ∧ run step s' os = .ok t :=
  bind_eq_ok

@[simp] theorem run_singleton (s : σ) (o : ω) : run step s [o] = step s o := by
  rw [run_cons]
  cases step s o with
  | ok s' => rfl
  | error e => rfl

theorem run_append (s : σ) (os ps : List ω) :
    run step s (os ++ ps) = run step s os >>= fun s' => run step s' ps := by
  induction os generalizing s with
  | nil => rfl
  | cons o os ih =>
      rw [List.cons_append, run_cons, run_cons]
      cases step s o with
      | ok s' => simpa using ih s'
      | error e => rfl

/-- A longer run is a run and one more step. -/
theorem run_concat_eq_ok {s t : σ} {o : ω} {os : List ω} :
    run step s (os ++ [o]) = .ok t ↔ ∃ s', run step s os = .ok s' ∧ step s' o = .ok t := by
  rw [run_append, bind_eq_ok]
  simp only [run_singleton]

/-! ### Invariants of runs -/

/-- What every successful step preserves, every successful run preserves. -/
theorem run_invariant (hstep : ∀ s o s', P s → step s o = .ok s' → P s') {s t : σ} {os : List ω}
    (hs : P s) (h : run step s os = .ok t) : P t := by
  induction os generalizing s with
  | nil =>
      obtain rfl : s = t := by simpa using h
      exact hs
  | cons o os ih =>
      obtain ⟨s', ho, hos⟩ := run_cons_eq_ok.1 h
      exact ih (hstep s o s' hs ho) hos

/-- If no step fails while the invariant holds, no run fails. -/
theorem run_total (hstep : ∀ s o, P s → ∃ s', step s o = .ok s' ∧ P s') {s : σ} (os : List ω)
    (hs : P s) : ∃ t, run step s os = .ok t ∧ P t := by
  induction os generalizing s with
  | nil => exact ⟨s, rfl, hs⟩
  | cons o os ih =>
      obtain ⟨s', ho, hs'⟩ := hstep s o hs
      obtain ⟨t, hos, ht⟩ := ih hs'
      exact ⟨t, run_cons_eq_ok.2 ⟨s', ho, hos⟩, ht⟩

/-- If no step fails while the invariant and the condition hold, no run along which the condition
holds fails. -/
theorem run_total_of_along (hstep : ∀ s o, P s → C s o → ∃ s', step s o = .ok s' ∧ P s') {s : σ}
    {os : List ω} (hs : P s) (hC : Along step C s os) : ∃ t, run step s os = .ok t ∧ P t := by
  induction os generalizing s with
  | nil => exact ⟨s, rfl, hs⟩
  | cons o os ih =>
      obtain ⟨s', ho, hs'⟩ := hstep s o hs hC.1
      obtain ⟨t, hos, ht⟩ := ih hs' (hC.2 s' ho)
      exact ⟨t, run_cons_eq_ok.2 ⟨s', ho, hos⟩, ht⟩

/-- A state that no step changes is kept. -/
theorem run_of_fixed {s : σ} (h : ∀ o, step s o = .ok s) (os : List ω) : run step s os = .ok s := by
  induction os with
  | nil => rfl
  | cons o os ih => exact run_cons_eq_ok.2 ⟨s, h o, ih⟩

/-- **If every step of one system is followed by a step of the other that keeps the states related,
so is every run.** -/
theorem run_simulates {τ : Type u} {ε' : Type*} {step' : τ → ω → Except ε' τ} {R : σ → τ → Prop}
    (hstep : ∀ s t o t', R s t → step' t o = .ok t' → ∃ s', step s o = .ok s' ∧ R s' t') {s : σ}
    {t t' : τ} {os : List ω} (hR : R s t) (h : run step' t os = .ok t') :
    ∃ s', run step s os = .ok s' ∧ R s' t' := by
  induction os generalizing s t with
  | nil =>
      obtain rfl : t = t' := by simpa using h
      exact ⟨s, rfl, hR⟩
  | cons o os ih =>
      obtain ⟨t₁, ho, hos⟩ := run_cons_eq_ok.1 h
      obtain ⟨s₁, ho', hR₁⟩ := hstep s t o t₁ hR ho
      obtain ⟨s', hos', hR'⟩ := ih hR₁ hos
      exact ⟨s', run_cons_eq_ok.2 ⟨s₁, ho', hos'⟩, hR'⟩

/-- Conditions that agree on the steps of a run agree along it. -/
theorem along_congr_of_mem {os : List ω} (hCD : ∀ o ∈ os, ∀ s, C s o ↔ D s o) (s : σ) :
    Along step C s os ↔ Along step D s os := by
  induction os generalizing s with
  | nil => exact Iff.rfl
  | cons o os ih =>
      have hrest : ∀ s', Along step C s' os ↔ Along step D s' os :=
        ih fun o' ho' => hCD o' (List.mem_cons_of_mem o ho')
      simp only [Along, hCD o List.mem_cons_self s, hrest]

/-- Suppose that `P` always holds, and that, where `Q` holds before a step of the run, `C` says
exactly whether `Q` holds after it.  Then `C` holds along the run exactly when `Q` holds in every
state the run goes through. -/
theorem along_iff_forall_prefix_of_mem {Q : σ → Prop} {s : σ} (os : List ω)
    (hstep : ∀ s o, P s → ∃ s', step s o = .ok s' ∧ P s')
    (hC : ∀ o ∈ os, ∀ s s', P s → Q s → step s o = .ok s' → (C s o ↔ Q s'))
    (hP : P s) (hQ : Q s) :
    (∀ ps, ps <+: os → ∀ t, run step s ps = .ok t → Q t) ↔ Along step C s os := by
  induction os generalizing s with
  | nil =>
      refine ⟨fun _ => trivial, fun _ ps hps t ht => ?_⟩
      rw [List.prefix_nil.1 hps] at ht
      obtain rfl : s = t := by simpa using ht
      exact hQ
  | cons o os ih =>
      obtain ⟨s', ho, hP'⟩ := hstep s o hP
      have hCo := hC o List.mem_cons_self s s' hP hQ ho
      have hCos : ∀ o ∈ os, ∀ s s', P s → Q s → step s o = .ok s' → (C s o ↔ Q s') :=
        fun o' ho' => hC o' (List.mem_cons_of_mem o ho')
      constructor
      · intro h
        have hQ' : Q s' :=
          h [o] (List.prefix_append [o] os) s' (run_cons_eq_ok.2 ⟨s', ho, rfl⟩)
        refine ⟨hCo.2 hQ', fun t ht => ?_⟩
        obtain rfl : s' = t := by simpa [ho] using ht
        refine (ih hCos hP' hQ').1 fun ps hps t ht => ?_
        exact h (o :: ps) (List.cons_prefix_cons.2 ⟨rfl, hps⟩) t
          (run_cons_eq_ok.2 ⟨s', ho, ht⟩)
      · intro h ps hps t ht
        have hQ' : Q s' := hCo.1 h.1
        cases ps with
        | nil =>
            obtain rfl : s = t := by simpa using ht
            exact hQ
        | cons p ps =>
            obtain ⟨rfl, hps'⟩ := List.cons_prefix_cons.1 hps
            obtain ⟨u, hu, ht⟩ := run_cons_eq_ok.1 ht
            obtain rfl : s' = u := by simpa [ho] using hu
            exact (ih hCos hP' hQ').2 (h.2 s' ho) ps hps' t ht

/-- If `C` says so of every step, it holds along every run exactly when `Q` holds in every state
the run goes through. -/
theorem along_iff_forall_prefix {Q : σ → Prop}
    (hstep : ∀ s o, P s → ∃ s', step s o = .ok s' ∧ P s')
    (hC : ∀ s o s', P s → Q s → step s o = .ok s' → (C s o ↔ Q s')) {s : σ} (os : List ω)
    (hP : P s) (hQ : Q s) :
    (∀ ps, ps <+: os → ∀ t, run step s ps = .ok t → Q t) ↔ Along step C s os :=
  along_iff_forall_prefix_of_mem os hstep (fun o _ s s' => hC s o s') hP hQ

end Transition
