/-
**An endless roll of rows behind a window.**

A terminal that scrolls throws away what leaves the top of its screen.  What it shows is easier to
say about a roll of paper that never ends: characters are put at the cursor, from left to right and
row by row, and the screen shows the last rows that the cursor has reached.

A screen that has moved up does not move down again, so where the cursor can also go back, it has to
be said which row of the roll is the first one on the screen.

Main definitions:

* `Roll` — the cells of the roll and the cursor;
* `Roll.put`, `Roll.newline` — a character in the next cell, and the next row;
* `Roll.Shows` — a screen of `w` columns and `h` rows shows the roll;
* `Roll.scrolled` — a screen that has moved up by one row;
* `Paper` — a roll with its first row on the screen; `Paper.back` goes back.

Main results:

* `Roll.Shows.write`, `Roll.Shows.newline_of_lt` — what a screen shows after a change that does not
  leave it;
* `Roll.Shows.newline_scrolled` — **at the last row, the next row is shown by scrolling**;
* `Paper.Shows.newline_scrolled`, `Paper.Shows.back_of_zero` — the same for paper, and going back
  to the row above.
-/

import Mathlib.Logic.Function.Basic
import Mathlib.Tactic.Linarith

set_option relaxedAutoImplicit false
set_option autoImplicit false

/-- Rows of cells without end, and the cursor. -/
structure Roll (α : Type*) where
  cell : ℕ → ℕ → α
  row : ℕ
  col : ℕ

namespace Roll

variable {α : Type*}

/-! ### Writing -/

/-- An empty roll. -/
def empty (blank : α) : Roll α := ⟨fun _ _ => blank, 0, 0⟩

/-- The cell at the cursor. -/
def write (p : Roll α) (a : α) : Roll α :=
  { p with cell := Function.update p.cell p.row (Function.update (p.cell p.row) p.col a) }

/-- What is not at the cursor is not written. -/
theorem write_cell_of_ne (p : Roll α) (a : α) {r c : ℕ} (hne : r ≠ p.row ∨ c ≠ p.col) :
    (p.write a).cell r c = p.cell r c := by
  rw [write]
  dsimp only
  by_cases hr : r = p.row
  · rw [hr, Function.update_self, Function.update_of_ne (hne.resolve_left (not_not.2 hr))]
  · rw [Function.update_of_ne hr]

@[simp] theorem write_cell_self (p : Roll α) (a : α) : (p.write a).cell p.row p.col = a := by
  rw [write]
  dsimp only
  rw [Function.update_self, Function.update_self]

/-- The start of the next row. -/
def newline (p : Roll α) : Roll α := { p with row := p.row + 1, col := 0 }

/-- The next cell, which is in the next row at the end of one. -/
def advance (w : ℕ) (p : Roll α) : Roll α :=
  if p.col + 1 < w then { p with col := p.col + 1 } else p.newline

/-- A character at the cursor, which then moves on. -/
def put (w : ℕ) (p : Roll α) (a : α) : Roll α := (p.write a).advance w

/-- The first row that a screen of `h` rows shows. -/
def top (h : ℕ) (p : Roll α) : ℕ := p.row - (h - 1)

/-- The cursor is in one of the columns, and nothing was written below its row. -/
structure Valid (w : ℕ) (blank : α) (p : Roll α) : Prop where
  col_lt : p.col < w
  below : ∀ r, p.row < r → ∀ c, p.cell r c = blank

section Valid

variable {w : ℕ} {blank : α} {p : Roll α}

theorem valid_empty (hw : 0 < w) (blank : α) : (empty blank).Valid w blank :=
  ⟨hw, fun _ _ _ => rfl⟩

theorem Valid.write (h : p.Valid w blank) (a : α) : (p.write a).Valid w blank where
  col_lt := h.col_lt
  below := by
    intro r hr c
    have hne : r ≠ p.row := Nat.ne_of_gt hr
    rw [Roll.write]
    dsimp only
    rw [Function.update_of_ne hne]
    exact h.below r hr c

theorem Valid.newline (h : p.Valid w blank) : p.newline.Valid w blank where
  col_lt := lt_of_le_of_lt (Nat.zero_le _) h.col_lt
  below := fun r hr c => h.below r (Nat.lt_of_succ_lt hr) c

theorem Valid.put (h : p.Valid w blank) (a : α) : (p.put w a).Valid w blank := by
  rw [Roll.put, advance]
  split_ifs with hlt
  · exact ⟨hlt, (h.write a).below⟩
  · exact (h.write a).newline

end Valid

/-! ### The window -/

/-- The screen shows the rows of the roll that end with the one the cursor is in, or the first
rows, and `(x, y)` is the place of the cursor on the screen. -/
structure Shows (w h : ℕ) (p : Roll α) (screen : ℕ → α) (x y : ℕ) : Prop where
  cells : ∀ r < h, ∀ c < w, screen (r * w + c) = p.cell (p.top h + r) c
  col : x = p.col
  row : p.top h + y = p.row
  lt : y < h

/-- The screen moved up by one row, with a blank row at its end. -/
def scrolled (w h : ℕ) (blank : α) (screen : ℕ → α) : ℕ → α :=
  fun i => if i < (h - 1) * w then screen (i + w) else blank

/-- The same, where the screen shows the rows from `top` on. -/
structure ShowsFrom (top w h : ℕ) (p : Roll α) (screen : ℕ → α) (x y : ℕ) : Prop where
  cells : ∀ r < h, ∀ c < w, screen (r * w + c) = p.cell (top + r) c
  col : x = p.col
  row : top + y = p.row
  lt : y < h

section ShowsFrom

variable {top w h x y : ℕ} {blank : α} {p : Roll α} {screen : ℕ → α}

theorem shows_iff : p.Shows w h screen x y ↔ p.ShowsFrom (p.top h) w h screen x y :=
  ⟨fun hs => ⟨hs.cells, hs.col, hs.row, hs.lt⟩, fun hs => ⟨hs.cells, hs.col, hs.row, hs.lt⟩⟩

/-- What is shown depends on the cells of the screen only. -/
theorem ShowsFrom.congr {screen' : ℕ → α} (hs : p.ShowsFrom top w h screen x y)
    (heq : ∀ i < h * w, screen' i = screen i) : p.ShowsFrom top w h screen' x y where
  cells := by
    intro r hr c hc
    have hrow : (r + 1) * w ≤ h * w := Nat.mul_le_mul_right w hr
    rw [Nat.add_mul] at hrow
    rw [heq _ (by omega), hs.cells r hr c hc]
  col := hs.col
  row := hs.row
  lt := hs.lt

/-- Two cells of different rows or columns have different places on the screen. -/
theorem place_inj {r r' c c' : ℕ} (hc : c < w) (hc' : c' < w) (heq : r * w + c = r' * w + c') :
    r = r' ∧ c = c' := by
  rcases Nat.lt_trichotomy r r' with hlt | rfl | hlt
  · have hrow : (r + 1) * w ≤ r' * w := Nat.mul_le_mul_right w hlt
    rw [Nat.add_mul] at hrow
    omega
  · exact ⟨rfl, by omega⟩
  · have hrow : (r' + 1) * w ≤ r * w := Nat.mul_le_mul_right w hlt
    rw [Nat.add_mul] at hrow
    omega

/-- **Writing at the cursor.** -/
theorem ShowsFrom.write (hs : p.ShowsFrom top w h screen x y) (hx : x < w) (a : α) :
    (p.write a).ShowsFrom top w h (Function.update screen (y * w + x) a) x y where
  cells := by
    intro r hr c hc
    rw [Roll.write]
    dsimp only
    by_cases heq : r * w + c = y * w + x
    · obtain ⟨rfl, rfl⟩ := place_inj hc hx heq
      rw [Function.update_self, hs.row, Function.update_self, hs.col, Function.update_self]
    · rw [Function.update_of_ne heq, hs.cells r hr c hc]
      by_cases hrow : top + r = p.row
      · have hry : r = y := Nat.add_left_cancel (hrow.trans hs.row.symm)
        have hcol : c ≠ p.col := by
          rintro rfl
          exact heq (by rw [hry, hs.col])
        rw [hrow, Function.update_self, Function.update_of_ne hcol]
      · rw [Function.update_of_ne hrow]
  col := hs.col
  row := hs.row
  lt := hs.lt

/-- Another place of the cursor. -/
theorem ShowsFrom.move (hs : p.ShowsFrom top w h screen x y) (x' : ℕ) {y' : ℕ} (hy' : y' < h) :
    ShowsFrom top w h { p with row := top + y', col := x' } screen x' y' :=
  ⟨hs.cells, rfl, rfl, hy'⟩

/-- The next row, if it is on the screen. -/
theorem ShowsFrom.newline_of_lt (hs : p.ShowsFrom top w h screen x y) (hy : y + 1 < h) :
    p.newline.ShowsFrom top w h screen 0 (y + 1) := by
  rw [newline, ← hs.row]
  exact hs.move 0 hy

/-- **The next row, if it is not: the screen moves up.** -/
theorem ShowsFrom.newline_scrolled (hs : p.ShowsFrom top w h screen x y)
    (hblank : ∀ c < w, p.cell (p.row + 1) c = blank) (hy : y + 1 = h) :
    p.newline.ShowsFrom (top + 1) w h (scrolled w h blank screen) 0 y where
  cells := by
    intro r hr c hc
    have hrow := hs.row
    rw [scrolled]
    change _ = p.cell (top + 1 + r) c
    by_cases hlast : r + 1 < h
    · have hle : (r + 1) * w ≤ (h - 1) * w := Nat.mul_le_mul_right w (by omega)
      rw [Nat.add_mul] at hle
      have hnext : r * w + c + w = (r + 1) * w + c := by
        rw [Nat.add_mul]
        omega
      have hrows : top + (r + 1) = top + 1 + r := by omega
      rw [if_pos (by omega), hnext, hs.cells (r + 1) hlast c hc, hrows]
    · have hr' : r = h - 1 := by omega
      have hnext : top + 1 + r = p.row + 1 := by omega
      rw [if_neg (by rw [hr']; omega), hnext]
      exact (hblank c hc).symm
  col := rfl
  row := by
    rw [Nat.add_right_comm, hs.row]
    rfl
  lt := hs.lt

end ShowsFrom

section Shows

variable {w h x y : ℕ} {blank : α} {p : Roll α} {screen : ℕ → α}

theorem shows_empty (hh : 0 < h) (hs : ∀ i < h * w, screen i = blank) :
    (empty blank).Shows w h screen 0 0 where
  cells := by
    intro r hr c hc
    have hrow : (r + 1) * w ≤ h * w := Nat.mul_le_mul_right w hr
    rw [Nat.add_mul] at hrow
    exact hs _ (by omega)
  col := rfl
  row := Nat.zero_sub _
  lt := hh

theorem Shows.congr {screen' : ℕ → α} (hs : p.Shows w h screen x y)
    (heq : ∀ i < h * w, screen' i = screen i) : p.Shows w h screen' x y :=
  shows_iff.2 ((shows_iff.1 hs).congr heq)

/-- **Writing at the cursor.** -/
theorem Shows.write (hs : p.Shows w h screen x y) (hx : x < w) (a : α) :
    (p.write a).Shows w h (Function.update screen (y * w + x) a) x y :=
  shows_iff.2 ((shows_iff.1 hs).write hx a)

/-- The next column. -/
theorem Shows.next (hs : p.Shows w h screen x y) :
    Shows w h { p with col := p.col + 1 } screen (x + 1) y :=
  ⟨hs.cells, congrArg (· + 1) hs.col, hs.row, hs.lt⟩

/-- The next row, if it is on the screen. -/
theorem Shows.newline_of_lt (hs : p.Shows w h screen x y) (hy : y + 1 < h) :
    p.newline.Shows w h screen 0 (y + 1) := by
  have hrow := hs.row
  have htop : p.newline.top h = p.top h := by
    simp only [top, newline] at hrow ⊢
    omega
  rw [shows_iff, htop]
  exact (shows_iff.1 hs).newline_of_lt hy

/-- **The next row, if it is not: the screen moves up.** -/
theorem Shows.newline_scrolled (hs : p.Shows w h screen x y) (hv : p.Valid w blank)
    (hy : y + 1 = h) : p.newline.Shows w h (scrolled w h blank screen) 0 y := by
  have hrow := hs.row
  have htop : p.newline.top h = p.top h + 1 := by
    simp only [top, newline] at hrow ⊢
    omega
  rw [shows_iff, htop]
  exact (shows_iff.1 hs).newline_scrolled (fun c _ => hv.below _ (Nat.lt_succ_self _) c) hy

end Shows

end Roll

/-! ### Paper -/

/-- A roll, and the first of its rows that is on the screen. -/
structure Paper (α : Type*) where
  roll : Roll α
  top : ℕ

namespace Paper

variable {α : Type*}

/-- An empty roll, from its first row on. -/
def empty (blank : α) : Paper α := ⟨Roll.empty blank, 0⟩

/-- The start of the next row, which is on the screen then. -/
def newline (h : ℕ) (p : Paper α) : Paper α :=
  ⟨p.roll.newline, if p.roll.row + 1 < p.top + h then p.top else p.top + 1⟩

/-- A character at the cursor, which then moves on. -/
def put (w h : ℕ) (p : Paper α) (a : α) : Paper α :=
  if p.roll.col + 1 < w then ⟨{ p.roll.write a with col := p.roll.col + 1 }, p.top⟩
  else newline h ⟨p.roll.write a, p.top⟩

/-- Going back to the cell in front of the cursor, if it is on the screen, and emptying it. -/
def back (w : ℕ) (blank : α) (p : Paper α) : Paper α :=
  if 0 < p.roll.col then ⟨Roll.write { p.roll with col := p.roll.col - 1 } blank, p.top⟩
  else if p.top < p.roll.row then
    ⟨Roll.write { p.roll with row := p.roll.row - 1, col := w - 1 } blank, p.top⟩
  else p

/-- The screen shows the paper from its first row on. -/
def Shows (w h : ℕ) (p : Paper α) (screen : ℕ → α) (x y : ℕ) : Prop :=
  p.roll.ShowsFrom p.top w h screen x y

/-- The cursor is in one of the columns, and there is nothing from it on. -/
structure Clear (w : ℕ) (blank : α) (p : Paper α) : Prop where
  col_lt : p.roll.col < w
  ahead : ∀ r, ∀ c < w, p.roll.row < r ∨ p.roll.row = r ∧ p.roll.col ≤ c → p.roll.cell r c = blank

section Paper

variable {w h x y : ℕ} {blank : α} {p : Paper α} {screen : ℕ → α}

theorem clear_empty (hw : 0 < w) (blank : α) : (empty blank).Clear w blank :=
  ⟨hw, fun _ _ _ _ => rfl⟩

/-- The next row is empty. -/
theorem clear_newline (hw : 0 < w)
    (hbelow : ∀ r, p.roll.row < r → ∀ c < w, p.roll.cell r c = blank) (h : ℕ) :
    (p.newline h).Clear w blank where
  col_lt := hw
  ahead := by
    intro r c hc hr
    refine hbelow r ?_ c hc
    rcases hr with hr | ⟨rfl, -⟩
    · exact Nat.lt_of_succ_lt hr
    · exact Nat.lt_succ_self _

theorem Clear.newline (hp : p.Clear w blank) (h : ℕ) : (p.newline h).Clear w blank :=
  clear_newline (Nat.zero_lt_of_lt hp.col_lt) (fun r hr c hc => hp.ahead r c hc (Or.inl hr)) h

theorem Clear.put (hp : p.Clear w blank) (h : ℕ) (a : α) : (p.put w h a).Clear w blank := by
  rw [Paper.put]
  split_ifs with hlt
  · refine ⟨hlt, fun r c hc hr => ?_⟩
    change p.roll.row < r ∨ p.roll.row = r ∧ p.roll.col + 1 ≤ c at hr
    change (p.roll.write a).cell r c = blank
    rw [Roll.write_cell_of_ne p.roll a (by omega)]
    exact hp.ahead r c hc (by omega)
  · refine clear_newline (Nat.zero_lt_of_lt hp.col_lt) (fun r hr c hc => ?_) h
    change p.roll.row < r at hr
    change (p.roll.write a).cell r c = blank
    rw [Roll.write_cell_of_ne p.roll a (Or.inl hr.ne')]
    exact hp.ahead r c hc (Or.inl hr)

/-- What is behind an emptied cell. -/
theorem clear_write {p : Roll α} (hcol : p.col < w)
    (hahead : ∀ r, ∀ c < w, p.row < r ∨ p.row = r ∧ p.col < c → p.cell r c = blank) (top : ℕ) :
    Clear w blank ⟨p.write blank, top⟩ where
  col_lt := hcol
  ahead := by
    intro r c hc hr
    change p.row < r ∨ p.row = r ∧ p.col ≤ c at hr
    change (p.write blank).cell r c = blank
    by_cases hat : r = p.row ∧ c = p.col
    · rw [hat.1, hat.2, Roll.write_cell_self]
    · rw [Roll.write_cell_of_ne p blank (by omega)]
      exact hahead r c hc (by omega)

theorem Clear.back (hp : p.Clear w blank) : (p.back w blank).Clear w blank := by
  have hcol := hp.col_lt
  rw [Paper.back]
  split_ifs with hpos hrow
  · refine clear_write (show p.roll.col - 1 < w by omega) (fun r c hc hr => ?_) _
    change p.roll.row < r ∨ p.roll.row = r ∧ p.roll.col - 1 < c at hr
    exact hp.ahead r c hc (by omega)
  · refine clear_write (show w - 1 < w by omega) (fun r c hc hr => ?_) _
    change p.roll.row - 1 < r ∨ p.roll.row - 1 = r ∧ w - 1 < c at hr
    exact hp.ahead r c hc (by omega)
  · exact hp

/-! ### Screens and paper -/

theorem shows_empty (hh : 0 < h) (hs : ∀ i < h * w, screen i = blank) :
    (empty blank).Shows w h screen 0 0 := by
  have hempty := Roll.shows_iff.1 (Roll.shows_empty (w := w) hh hs)
  exact ⟨fun r hr c hc => hempty.cells r hr c hc, rfl, rfl, hh⟩

/-- The next row is on the screen. -/
theorem Shows.newline_of_lt (hs : p.Shows w h screen x y) (hy : y + 1 < h) :
    (p.newline h).Shows w h screen 0 (y + 1) := by
  have hrow := hs.row
  rw [Paper.newline, if_pos (by omega)]
  exact Roll.ShowsFrom.newline_of_lt hs hy

/-- **Or comes on the screen.** -/
theorem Shows.newline_scrolled (hs : p.Shows w h screen x y)
    (hbelow : ∀ c < w, p.roll.cell (p.roll.row + 1) c = blank) (hy : y + 1 = h) :
    (p.newline h).Shows w h (Roll.scrolled w h blank screen) 0 y := by
  have hrow := hs.row
  rw [Paper.newline, if_neg (by omega)]
  exact Roll.ShowsFrom.newline_scrolled hs hbelow hy

/-- Going back in a row. -/
theorem Shows.back_of_pos (hs : p.Shows w h screen x y) (hcol : p.roll.col < w) (hx : 0 < x) :
    (p.back w blank).Shows w h (Function.update screen (y * w + (x - 1)) blank) (x - 1) y := by
  have hxcol := hs.col
  rw [Paper.back, if_pos (hxcol ▸ hx)]
  have hmove := Roll.ShowsFrom.move hs (x - 1) hs.lt
  rw [hs.row, hxcol] at hmove
  rw [hxcol]
  exact hmove.write (by omega) blank

/-- **Going back to the row above**, if that is on the screen. -/
theorem Shows.back_of_zero (hs : p.Shows w h screen x y) (hw : 0 < w) (hx : x = 0) (hy : 0 < y) :
    (p.back w blank).Shows w h (Function.update screen ((y - 1) * w + (w - 1)) blank) (w - 1)
      (y - 1) := by
  have hrow := hs.row
  have hlt := hs.lt
  have hcol : ¬ 0 < p.roll.col := by
    rw [← hs.col, hx]
    exact Nat.lt_irrefl 0
  rw [Paper.back, if_neg hcol, if_pos (by omega)]
  have hmove := Roll.ShowsFrom.move hs (w - 1) (show y - 1 < h by omega)
  have hup : p.top + (y - 1) = p.roll.row - 1 := by omega
  rw [hup] at hmove
  exact hmove.write (Nat.sub_lt hw Nat.one_pos) blank

/-- There is nothing to go back to. -/
theorem Shows.back_of_start (hs : p.Shows w h screen x y) (hx : x = 0) (hy : y = 0) :
    p.back w blank = p := by
  have hrow := hs.row
  have hcol : ¬ 0 < p.roll.col := by
    rw [← hs.col, hx]
    exact Nat.lt_irrefl 0
  rw [Paper.back, if_neg hcol, if_neg (by omega)]

end Paper

end Paper
