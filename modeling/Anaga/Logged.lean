/-
**Computations with a log.**

A computation that may fail, together with what it has done until then: where it fails, what was
logged in front of the failure remains.  A computation and its logged version are compared by
dropping the log.

Main definitions:

* `Logged` — a log and a result;
* `Logged.silent` — a computation that logs nothing.

Main results:

* `Logged.result_bind` — dropping the log of a sequence;
* `Logged.forall_bind` — **what holds of the log of a sequence**.
-/

import Anaga.Transition

set_option relaxedAutoImplicit false
set_option autoImplicit false

/-- What a computation has logged, and its result. -/
structure Logged (ω ε α : Type) where
  log : List ω
  result : Except ε α

namespace Logged

variable {ω ε α β : Type}

/-- A computation that logs nothing. -/
def silent (x : Except ε α) : Logged ω ε α := ⟨[], x⟩

/-- One after the other: the second one logs behind the first one, unless that has failed. -/
def bind (x : Logged ω ε α) (f : α → Logged ω ε β) : Logged ω ε β :=
  match x.result with
  | .ok a => ⟨x.log ++ (f a).log, (f a).result⟩
  | .error e => ⟨x.log, .error e⟩

instance : Monad (Logged ω ε) where
  pure a := silent (.ok a)
  bind := bind

@[simp] theorem log_silent (x : Except ε α) : (silent x : Logged ω ε α).log = [] := rfl

@[simp] theorem result_silent (x : Except ε α) : (silent x : Logged ω ε α).result = x := rfl

theorem log_bind_of_ok {x : Logged ω ε α} {a : α} (h : x.result = .ok a)
    (f : α → Logged ω ε β) : (x >>= f).log = x.log ++ (f a).log := by
  change (x.bind f).log = _
  rw [bind, h]

theorem log_bind_of_error {x : Logged ω ε α} {e : ε} (h : x.result = .error e)
    (f : α → Logged ω ε β) : (x >>= f).log = x.log := by
  change (x.bind f).log = _
  rw [bind, h]

/-- **Dropping the log of a sequence.** -/
@[simp] theorem result_bind (x : Logged ω ε α) (f : α → Logged ω ε β) :
    (x >>= f).result = x.result >>= fun a => (f a).result := by
  change (x.bind f).result = _
  rw [bind]
  cases x.result with
  | ok a => rfl
  | error e => rfl

/-- If nothing is logged behind it, a sequence logs what its first part does. -/
theorem log_bind_of_silent (x : Logged ω ε α) {f : α → Logged ω ε β} (h : ∀ a, (f a).log = []) :
    (x >>= f).log = x.log := by
  cases hx : x.result with
  | ok a => rw [log_bind_of_ok hx, h, List.append_nil]
  | error e => exact log_bind_of_error hx f

/-- **What holds of the log of a sequence.** -/
theorem forall_bind {P : ω → Prop} {x : Logged ω ε α} {f : α → Logged ω ε β} :
    (∀ c ∈ (x >>= f).log, P c) ↔
      (∀ c ∈ x.log, P c) ∧ ∀ a, x.result = .ok a → ∀ c ∈ (f a).log, P c := by
  cases hx : x.result with
  | ok a =>
      rw [log_bind_of_ok hx, List.forall_mem_append]
      simp only [Except.ok.injEq, forall_eq']
  | error e =>
      rw [log_bind_of_error hx]
      simp only [reduceCtorEq, false_implies, implies_true, and_true]

end Logged
