/-
**Waiting for the timer: `system/system.c`.**

`timer_ticks` is a static of 32 bits that the timer interrupt counts up, and `system_wait` waits
until it has reached a target.  The interrupt can come between any two steps of the program: before
the target is computed, between the test and the `hlt`, several times in a row, or not at all while
something else wakes the processor.  A schedule is a list of such events, and the only question
here is how often the interrupt has come when the function returns.

Main definitions:

* `Anaga.Phase`, `Anaga.Wait` — where the program is, the ticks, and a count of the interrupts;
* `Anaga.timerHandler`, `Anaga.systemWait` — the functions of `system/system.h`;
* `Anaga.WaitsLongEnough` — under every schedule.

Main results:

* `Anaga.Waiting.step` — the invariant of a wait whose target does not wrap around;
* `Anaga.systemWait_early` — a schedule under which a target that does wrap is reached at once;
* `Anaga.waitsLongEnough_iff` — **so the wait is long enough exactly if the ticks are not within
  twice its length of their end**.
-/

import Anaga.Kernel

set_option relaxedAutoImplicit false
set_option autoImplicit false

namespace Anaga

/-! ### The functions -/

/-- Where `system_wait` is: in front of the computation of `target`, of the test of the loop, or of
the `hlt`, halted, or back at its caller. -/
inductive Phase
  | entered
  | test (target : UInt32)
  | body (target : UInt32)
  | halted (target : UInt32)
  | returned
deriving DecidableEq

/-- A call of `system_wait`: where it is, `timer_ticks`, and how often `timer_handler` has run
between its entry and its return. -/
structure Wait where
  phase : Phase
  timerTicks : UInt32
  runs : ℕ

/-- What happens next: the timer interrupt, or a step of the program. -/
inductive Event
  | timer
  | program
deriving DecidableEq

/-- `timer_handler`. -/
def timerHandler (timerTicks : UInt32) : UInt32 := timerTicks + 1

/-- The timer interrupt, which also wakes a halted processor. -/
def Wait.interrupt (w : Wait) : Wait :=
  match w.phase with
  | .halted target => ⟨.test target, timerHandler w.timerTicks, w.runs + 1⟩
  | .returned => { w with timerTicks := timerHandler w.timerTicks }
  | _ => { w with timerTicks := timerHandler w.timerTicks, runs := w.runs + 1 }

/-- A step of `system_wait`.  That of a halted processor is that another interrupt wakes it. -/
def Wait.advance (ms : UInt32) (w : Wait) : Wait :=
  match w.phase with
  | .entered => { w with phase := .test (w.timerTicks + ms) }
  | .test target =>
      if w.timerTicks < target then { w with phase := .body target }
      else { w with phase := .returned }
  | .body target => { w with phase := .halted target }
  | .halted target => { w with phase := .test target }
  | .returned => w

/-- An event. -/
def Wait.step (ms : UInt32) (w : Wait) : Event → Wait
  | .timer => w.interrupt
  | .program => w.advance ms

/-- `system_wait`, called when `timer_ticks` has that value, under a schedule. -/
def systemWait (ms timerTicks : UInt32) (schedule : List Event) : Wait :=
  schedule.foldl (Wait.step ms) ⟨.entered, timerTicks, 0⟩

/-- Under every schedule, `timer_handler` has run at least `ms` times when the function returns. -/
def WaitsLongEnough (ms timerTicks : UInt32) : Prop :=
  ∀ schedule, (systemWait ms timerTicks schedule).phase = .returned →
    ms.toNat ≤ (systemWait ms timerTicks schedule).runs

/-! ### Waits that are long enough -/

/-- The ticks are those at the entry and the interrupts since, the target was computed at one of
them, and the function has not returned too early. -/
def Waiting (ms timerTicks : UInt32) (w : Wait) : Prop :=
  let aimed (target : UInt32) : Prop :=
    w.timerTicks = timerTicks + UInt32.ofNat w.runs ∧
      ∃ a ≤ w.runs, target = timerTicks + UInt32.ofNat a + ms
  match w.phase with
  | .entered => w.timerTicks = timerTicks + UInt32.ofNat w.runs
  | .test target => aimed target
  | .body target => aimed target
  | .halted target => aimed target
  | .returned => ms.toNat ≤ w.runs

section Waiting

variable {ms timerTicks : UInt32}

/-- One tick more. -/
theorem timerHandler_add (n : ℕ) :
    timerHandler (timerTicks + UInt32.ofNat n) = timerTicks + UInt32.ofNat (n + 1) := by
  rw [timerHandler, UInt32.ofNat_add, UInt32.add_assoc]
  rfl

theorem Waiting.interrupt {w : Wait} (h : Waiting ms timerTicks w) :
    Waiting ms timerTicks w.interrupt := by
  obtain ⟨phase, ticks, runs⟩ := w
  -- wherever the target was computed, there is one more interrupt since
  have haimed : ∀ target, (ticks = timerTicks + UInt32.ofNat runs ∧
      ∃ a ≤ runs, target = timerTicks + UInt32.ofNat a + ms) →
      timerHandler ticks = timerTicks + UInt32.ofNat (runs + 1) ∧
        ∃ a ≤ runs + 1, target = timerTicks + UInt32.ofNat a + ms := by
    rintro target ⟨rfl, a, ha, rfl⟩
    exact ⟨timerHandler_add runs, a, by omega, rfl⟩
  cases phase with
  | entered =>
      obtain rfl : ticks = timerTicks + UInt32.ofNat runs := h
      exact timerHandler_add runs
  | test target => exact haimed target h
  | body target => exact haimed target h
  | halted target => exact haimed target h
  | returned => exact h

/-- The test fails only when the interrupt has come often enough, if the target has not wrapped
around. -/
theorem le_runs_of_not_lt (hfit : timerTicks.toNat + 2 * ms.toNat ≤ 2 ^ 32) {runs a : ℕ}
    (ha : a ≤ runs)
    (h : ¬ timerTicks + UInt32.ofNat runs < timerTicks + UInt32.ofNat a + ms) :
    ms.toNat ≤ runs := by
  by_contra hlt
  refine h ?_
  simp only [UInt32.lt_iff_toNat_lt, UInt32.toNat_add, UInt32.toNat_ofNat']
  omega

theorem Waiting.advance (hfit : timerTicks.toNat + 2 * ms.toNat ≤ 2 ^ 32) {w : Wait}
    (h : Waiting ms timerTicks w) : Waiting ms timerTicks (w.advance ms) := by
  obtain ⟨phase, ticks, runs⟩ := w
  cases phase with
  | entered =>
      obtain rfl : ticks = timerTicks + UInt32.ofNat runs := h
      exact ⟨rfl, runs, le_rfl, rfl⟩
  | test target =>
      obtain ⟨rfl, a, ha, rfl⟩ : ticks = timerTicks + UInt32.ofNat runs ∧
          ∃ a ≤ runs, target = timerTicks + UInt32.ofNat a + ms := h
      rw [Wait.advance]
      dsimp only
      split_ifs with hlt
      · exact ⟨rfl, a, ha, rfl⟩
      · exact le_runs_of_not_lt hfit ha hlt
  | body target => exact h
  | halted target => exact h
  | returned => exact h

/-- **The invariant is kept by every event.** -/
theorem Waiting.step (hfit : timerTicks.toNat + 2 * ms.toNat ≤ 2 ^ 32) {w : Wait}
    (h : Waiting ms timerTicks w) (e : Event) : Waiting ms timerTicks (w.step ms e) := by
  cases e with
  | timer => exact h.interrupt
  | program => exact h.advance hfit

/-- So it holds under every schedule. -/
theorem waiting_systemWait (hfit : timerTicks.toNat + 2 * ms.toNat ≤ 2 ^ 32)
    (schedule : List Event) : Waiting ms timerTicks (systemWait ms timerTicks schedule) := by
  refine List.foldlRecOn schedule _ ?_ fun w hw e _ => hw.step hfit e
  exact (UInt32.add_zero timerTicks).symm

end Waiting

/-! ### Waits that are too short -/

/-- The schedule in which the interrupt comes `a` times before the target is computed, and then
not again. -/
def early (a : ℕ) : List Event := List.replicate a .timer ++ [.program, .program]

theorem foldl_interrupts (ms timerTicks : UInt32) (a n : ℕ) :
    (List.replicate a Event.timer).foldl (Wait.step ms) ⟨.entered, timerTicks, n⟩ =
      ⟨.entered, timerTicks + UInt32.ofNat a, n + a⟩ := by
  induction a generalizing timerTicks n with
  | zero => exact congrArg (Wait.mk .entered · n) (UInt32.add_zero timerTicks).symm
  | succ a ih =>
      have hstep : Wait.step ms ⟨.entered, timerTicks, n⟩ .timer =
          ⟨.entered, timerTicks + 1, n + 1⟩ := rfl
      have hticks : timerTicks + 1 + UInt32.ofNat a = timerTicks + UInt32.ofNat (a + 1) := by
        rw [Nat.add_comm a 1, UInt32.ofNat_add, UInt32.add_assoc]
        rfl
      rw [List.replicate_succ, List.foldl_cons, hstep, ih, hticks, Nat.add_assoc, Nat.add_comm 1 a]

/-- If the target is not behind the ticks, the function returns at once. -/
theorem systemWait_early {ms timerTicks : UInt32} {a : ℕ}
    (h : ¬ timerTicks + UInt32.ofNat a < timerTicks + UInt32.ofNat a + ms) :
    systemWait ms timerTicks (early a) = ⟨.returned, timerTicks + UInt32.ofNat a, a⟩ := by
  rw [systemWait, early, List.foldl_append, foldl_interrupts, Nat.zero_add]
  change (if timerTicks + UInt32.ofNat a < timerTicks + UInt32.ofNat a + ms then _ else _) = _
  rw [if_neg h]
  rfl

/-! ### How long is long enough -/

/-- **`system_wait(ms)` waits for `ms` interrupts under every schedule exactly if the ticks are at
least `2 * ms` below `2 ^ 32` at its entry**: up to `ms - 1` interrupts can come before it computes
the target, and then the target must not wrap around. -/
theorem waitsLongEnough_iff {ms timerTicks : UInt32} (hms : 0 ≤ asInt ms) :
    WaitsLongEnough ms timerTicks ↔ timerTicks.toNat + 2 * ms.toNat ≤ 2 ^ 32 := by
  constructor
  · intro h
    by_contra hwrap
    have hlt := asInt_nonneg_iff.1 hms
    have hticks := timerTicks.toNat_lt
    -- as many interrupts as it takes for the target to wrap around
    set a := 2 ^ 32 - ms.toNat - timerTicks.toNat with ha
    have hearly : ¬ timerTicks + UInt32.ofNat a < timerTicks + UInt32.ofNat a + ms := by
      simp only [UInt32.lt_iff_toNat_lt, UInt32.toNat_add, UInt32.toNat_ofNat']
      omega
    have hruns := h (early a)
    rw [systemWait_early hearly] at hruns
    have hle : ms.toNat ≤ a := hruns rfl
    omega
  · intro hfit schedule hreturned
    have hw := waiting_systemWait hfit schedule
    rw [Waiting, hreturned] at hw
    exact hw

/-- After power-on, when `timer_ticks` is zero, one second is waited for. -/
theorem waitsLongEnough_second : WaitsLongEnough 1000 0 :=
  (waitsLongEnough_iff (by decide)).2 (by decide)

/-- **Just before the ticks wrap around, the function returns without waiting.** -/
theorem not_waitsLongEnough_wrapped :
    0 ≤ asInt 2 ∧ ¬ WaitsLongEnough 2 0xFFFFFFFF := by
  refine ⟨by decide, fun h => ?_⟩
  exact absurd (h [.program, .program] rfl) (by decide)

end Anaga
