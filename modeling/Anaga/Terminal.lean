/-
**The screen: `display/display.c`.**

The screen is the 80 by 25 cells of the VGA text buffer, and the cursor two `int`s.  `kputc` puts a
character at the cursor, wraps at the end of a row, and scrolls when the cursor leaves the last
row; a store to a cell outside of the buffer is a fault.  A `char` is signed, so the bytes from
128 on are not printed.

Main definitions:

* `Anaga.Terminal`, `Anaga.kcleanDisplay`, `Anaga.kscrollUp`, `Anaga.kputc` — the screen and the
  functions that change it;
* `Anaga.onRoll` — what a character does to an endless roll of rows;
* `Anaga.Terminal.Window`, `Anaga.Terminal.InRange` — the screen is the window of a roll, and the
  cursor is on the screen;
* `Anaga.onPaper`, `Anaga.Terminal.Displays` — what a character, which may go back, does to a paper,
  and the screen that shows the paper of a text.

Main results:

* `Anaga.kscrollUp_eq` — what scrolling leaves in every cell;
* `Anaga.kputc_newline`, `Anaga.kputc_printable`, `Anaga.kputc_backspace`, `Anaga.kputc_other` —
  what `kputc` does, character by character;
* `Anaga.kcleanDisplay_refines` — **the screen shows the end of an endless roll, and no character
  is ever stored outside of the buffer**;
* `Anaga.kcleanDisplay_displays` — **with backspaces, it shows the end of a paper**.
-/

import Anaga.Display
import Anaga.Roll

set_option relaxedAutoImplicit false
set_option autoImplicit false

namespace Anaga

open Transition

/-! ### The screen -/

/-- `VGA_WIDTH`. -/
abbrev vgaWidth : ℕ := 80

/-- `VGA_HEIGHT`. -/
abbrev vgaHeight : ℕ := 25

theorem vgaWidth_pos : 0 < vgaWidth := by decide

theorem vgaHeight_pos : 0 < vgaHeight := by decide

/-- The cells from `VGA_ADDR` on. -/
abbrev Vga := ℕ → UInt16

/-- `vga`, `cursor_x` and `cursor_y`. -/
structure Terminal where
  vga : Vga
  cursorX : ℤ
  cursorY : ℤ

/-- `((uint16_t)VGA_ATTR << 8) | (uint8_t)c`. -/
def vgaCell (c : UInt8) : UInt16 := (0x0F : UInt16) <<< 8 ||| c.toUInt16

/-- `blank`. -/
def vgaBlank : UInt16 := vgaCell (ascii ' ')

/-- `vga[i] = cell`. -/
def vgaStore (vga : Vga) (i : ℤ) (cell : UInt16) : Except Fault Vga :=
  if 0 ≤ i ∧ i < vgaWidth * vgaHeight then .ok (Function.update vga i.toNat cell) else .error .vga

/-- The loop `vga[i] = blank` of `kclean_display`, and the last one of `kscroll_up`: `n` rounds
from the cell `start` on. -/
def blankLoop (start : ℕ) : ℕ → Vga → Except Fault Vga
  | 0, vga => .ok vga
  | n + 1, vga => blankLoop start n vga >>= fun vga => vgaStore vga (start + n : ℕ) vgaBlank

/-- `kclean_display`. -/
def kcleanDisplay (t : Terminal) : Except Fault Terminal :=
  (fun vga => ⟨vga, 0, 0⟩) <$> blankLoop 0 (vgaWidth * vgaHeight) t.vga

/-- The inner loop of `kscroll_up`, after `n` rounds. -/
def scrollRow (row : ℕ) : ℕ → Vga → Except Fault Vga
  | 0, vga => .ok vga
  | col + 1, vga =>
      scrollRow row col vga >>= fun vga =>
      vgaStore vga ((row - 1 : ℤ) * vgaWidth + col) (vga (row * vgaWidth + col))

/-- The outer loop of `kscroll_up`, which starts with row 1, after `n` rounds. -/
def scrollRows : ℕ → Vga → Except Fault Vga
  | 0, vga => .ok vga
  | n + 1, vga => scrollRows n vga >>= scrollRow (n + 1) vgaWidth

/-- `kscroll_up`. -/
def kscrollUp (t : Terminal) : Except Fault Terminal :=
  scrollRows (vgaHeight - 1) t.vga >>= fun vga =>
  blankLoop ((vgaHeight - 1) * vgaWidth) vgaWidth vga >>= fun vga =>
  .ok ⟨vga, if vgaWidth ≤ t.cursorX then 0 else t.cursorX, (vgaHeight - 1 : ℕ)⟩

/-- The value of a `char`, which is signed. -/
def charToInt (c : UInt8) : ℤ := c.toBitVec.toInt

/-- Storing a blank at the cursor. -/
def eraseCell (t : Terminal) : Except Fault Terminal :=
  (fun vga => { t with vga := vga }) <$> vgaStore t.vga (t.cursorY * vgaWidth + t.cursorX) vgaBlank

/-- `if (cursor_x < 0) cursor_x = 0; if (cursor_y < 0) cursor_y = 0;`. -/
def clampCursor (t : Terminal) : Terminal :=
  { t with
    cursorX := if t.cursorX < 0 then 0 else t.cursorX
    cursorY := if t.cursorY < 0 then 0 else t.cursorY }

/-- `if (cursor_x >= VGA_WIDTH) { cursor_x = 0; cursor_y++; }`. -/
def wrapCursor (t : Terminal) : Terminal :=
  if vgaWidth ≤ t.cursorX then { t with cursorX := 0, cursorY := t.cursorY + 1 } else t

/-- The branches of `kputc`. -/
def kputcBranch (t : Terminal) (c : UInt8) : Except Fault Terminal :=
  if c = ascii '\n' then .ok { t with cursorX := 0, cursorY := t.cursorY + 1 }
  else if c = 8 then
    if 0 < t.cursorX then eraseCell { t with cursorX := t.cursorX - 1 }
    -- at the start of a row, back to the end of the row above
    else if 0 < t.cursorY then
      eraseCell { t with cursorY := t.cursorY - 1, cursorX := vgaWidth - 1 }
    else .ok t
  -- the comparison is one of signed numbers, so it also fails for the bytes from 128 on
  else if charToInt (ascii ' ') ≤ charToInt c then
    let t := wrapCursor (clampCursor t)
    vgaStore t.vga (t.cursorY * vgaWidth + t.cursorX) (vgaCell c) >>= fun vga =>
    .ok { t with vga := vga, cursorX := t.cursorX + 1 }
  else .ok t

/-- The end of `kputc`, behind its branches. -/
def kputcEnd (t : Terminal) : Except Fault Terminal :=
  let t := wrapCursor t
  if vgaHeight ≤ t.cursorY then kscrollUp t else .ok t

/-- `kputc`. -/
def kputc (t : Terminal) (c : UInt8) : Except Fault Terminal :=
  kputcBranch t c >>= kputcEnd

/-! ### The loops -/

theorem vgaStore_of_lt (vga : Vga) {i : ℕ} (hi : i < vgaWidth * vgaHeight) (cell : UInt16) :
    vgaStore vga i cell = .ok (Function.update vga i cell) := by
  rw [vgaStore, if_pos ⟨Int.natCast_nonneg i, by exact_mod_cast hi⟩, Int.toNat_natCast]

theorem blankLoop_eq {start n : ℕ} (h : start + n ≤ vgaWidth * vgaHeight) (vga : Vga) :
    blankLoop start n vga =
      .ok fun i => if start ≤ i ∧ i < start + n then vgaBlank else vga i := by
  -- after `n` rounds the cells from `start` to `start + n` are blank
  induction n with
  | zero =>
      have hnone : ∀ i, ¬ (start ≤ i ∧ i < start + 0) := fun i hi => by omega
      simp only [blankLoop, hnone, if_false]
  | succ n ih =>
      rw [blankLoop, ih (by omega), ok_bind, vgaStore_of_lt _ (by omega)]
      refine congrArg Except.ok (funext fun i => ?_)
      rw [Function.update_apply]
      split_ifs <;> first | rfl | omega

/-- **Cleaning the screen.** -/
theorem kcleanDisplay_eq (t : Terminal) :
    kcleanDisplay t =
      .ok ⟨fun i => if i < vgaWidth * vgaHeight then vgaBlank else t.vga i, 0, 0⟩ := by
  rw [kcleanDisplay, blankLoop_eq (by decide), map_ok]
  simp only [Nat.zero_le, true_and, Nat.zero_add]

theorem scrollRow_eq {k n : ℕ} (hk : k + 1 < vgaHeight) (hn : n ≤ vgaWidth) (vga : Vga) :
    scrollRow (k + 1) n vga =
      .ok fun i =>
        if k * vgaWidth ≤ i ∧ i < k * vgaWidth + n then vga (i + vgaWidth) else vga i := by
  simp only [vgaWidth, vgaHeight] at *
  induction n with
  | zero =>
      have hnone : ∀ i, ¬ (k * 80 ≤ i ∧ i < k * 80 + 0) := fun i hi => by omega
      simp only [scrollRow, hnone, if_false]
  | succ n ih =>
      have hindex : (((k + 1 : ℕ) : ℤ) - 1) * ((80 : ℕ) : ℤ) + (n : ℤ) = (k * 80 + n : ℕ) := by
        push_cast
        ring
      -- the row that is read is not written by this loop
      have hread : ¬ (k * 80 ≤ (k + 1) * 80 + n ∧ (k + 1) * 80 + n < k * 80 + n) := by omega
      rw [scrollRow, ih (by omega), ok_bind, hindex,
        vgaStore_of_lt _ (by simp only [vgaWidth, vgaHeight]; omega)]
      refine congrArg Except.ok (funext fun i => ?_)
      rw [Function.update_apply]
      dsimp only
      rw [if_neg hread]
      have hnext : k * 80 + n + 80 = (k + 1) * 80 + n := by omega
      split_ifs with heq hin hin
      · rw [heq, hnext]
      · omega
      · rfl
      · omega
      · omega
      · rfl

theorem scrollRows_eq {n : ℕ} (hn : n < vgaHeight) (vga : Vga) :
    scrollRows n vga = .ok fun i => if i < n * vgaWidth then vga (i + vgaWidth) else vga i := by
  -- the rows below the ones that are done are still the old ones
  induction n with
  | zero => simp only [scrollRows, Nat.zero_mul, Nat.not_lt_zero, if_false]
  | succ n ih =>
      rw [scrollRows, ih (by omega), ok_bind, scrollRow_eq hn le_rfl]
      refine congrArg Except.ok (funext fun i => ?_)
      simp only [vgaWidth]
      split_ifs <;> first | rfl | omega

/-- The cells after scrolling. -/
def scrollCells (vga : Vga) : Vga := fun i =>
  if i < vgaWidth * vgaHeight then Roll.scrolled vgaWidth vgaHeight vgaBlank vga i else vga i

/-- **What scrolling leaves in every cell.** -/
theorem kscrollUp_eq (t : Terminal) :
    kscrollUp t =
      .ok ⟨scrollCells t.vga, if vgaWidth ≤ t.cursorX then 0 else t.cursorX, 24⟩ := by
  rw [kscrollUp, scrollRows_eq (by decide), ok_bind, blankLoop_eq (by decide), ok_bind]
  have hcells : (fun i => if (vgaHeight - 1) * vgaWidth ≤ i ∧
      i < (vgaHeight - 1) * vgaWidth + vgaWidth then vgaBlank
      else if i < (vgaHeight - 1) * vgaWidth then t.vga (i + vgaWidth) else t.vga i) =
        scrollCells t.vga := by
    refine funext fun i => ?_
    simp only [scrollCells, Roll.scrolled, vgaWidth, vgaHeight]
    split_ifs <;> first | rfl | omega
  rw [hcells]
  rfl

/-! ### What `kputc` does -/

/-- A byte that is printed: a `char` from the blank on. -/
def Printable (c : UInt8) : Prop := 32 ≤ c.toNat ∧ c.toNat < 128

instance (c : UInt8) : Decidable (Printable c) := inferInstanceAs (Decidable (_ ∧ _))

/-- The comparison of two `char`s. -/
theorem printable_iff (c : UInt8) : charToInt (ascii ' ') ≤ charToInt c ↔ Printable c := by
  have hc := c.toNat_lt
  have hval : charToInt c = if 2 * c.toNat < 2 ^ 8 then (c.toNat : ℤ) else c.toNat - (2 ^ 8 : ℕ) :=
    BitVec.toInt_eq_toNat_cond c.toBitVec
  have hspace : charToInt (ascii ' ') = 32 := by decide
  rw [hspace, hval, Printable]
  split_ifs with hsmall
  · omega
  · omega

/-- The terminal with the cursor in the column `x` and the row `y`. -/
def Terminal.place (vga : Vga) (x y : ℕ) : Terminal := ⟨vga, x, y⟩

/-- The cursor at the start of the row behind `y`, for which the screen scrolls if it has to. -/
def nextRow (vga : Vga) (y : ℕ) : Terminal :=
  if y + 1 < vgaHeight then .place vga 0 (y + 1) else .place (scrollCells vga) 0 y

section Kputc

variable {vga : Vga} {x y : ℕ} {c : UInt8}

theorem clampCursor_place (vga : Vga) (x y : ℕ) :
    clampCursor (.place vga x y) = .place vga x y := by
  have hx : ¬ (x : ℤ) < 0 := by omega
  have hy : ¬ (y : ℤ) < 0 := by omega
  rw [clampCursor]
  change (⟨vga, if (x : ℤ) < 0 then 0 else x, if (y : ℤ) < 0 then 0 else y⟩ : Terminal) = _
  rw [if_neg hx, if_neg hy]
  rfl

theorem wrapCursor_place (vga : Vga) (hx : x < vgaWidth) (y : ℕ) :
    wrapCursor (.place vga x y) = .place vga x y := by
  have hw : ¬ (vgaWidth : ℤ) ≤ (x : ℤ) := by omega
  rw [wrapCursor]
  exact if_neg hw

/-- On the screen there is nothing left to do. -/
theorem kputcEnd_place (vga : Vga) (hx : x < vgaWidth) (hy : y < vgaHeight) :
    kputcEnd (.place vga x y) = .ok (.place vga x y) := by
  have hh : ¬ (vgaHeight : ℤ) ≤ (y : ℤ) := by omega
  rw [kputcEnd, wrapCursor_place vga hx]
  exact if_neg hh

/-- Below the last row the screen scrolls. -/
theorem kputcEnd_nextRow (vga : Vga) (hy : y < vgaHeight) :
    kputcEnd (.place vga 0 (y + 1)) = .ok (nextRow vga y) := by
  rw [kputcEnd, wrapCursor_place vga vgaWidth_pos, nextRow]
  by_cases hlt : y + 1 < vgaHeight
  · have hh : ¬ (vgaHeight : ℤ) ≤ ((y + 1 : ℕ) : ℤ) := by omega
    rw [if_pos hlt]
    exact if_neg hh
  · have hh : (vgaHeight : ℤ) ≤ ((y + 1 : ℕ) : ℤ) := by omega
    have hlast : y = 24 := by
      simp only [vgaHeight] at hy hlt
      omega
    -- the cursor is in the row behind the last one, which is what the source tests for
    rw [if_neg hlt, hlast]
    exact kscrollUp_eq _

/-- Behind the last column the cursor wraps. -/
theorem kputcEnd_wrap (vga : Vga) (hy : y < vgaHeight) :
    kputcEnd (.place vga vgaWidth y) = .ok (nextRow vga y) := by
  have hnext : wrapCursor (.place vga 0 (y + 1)) = .place vga 0 (y + 1) :=
    wrapCursor_place vga vgaWidth_pos (y + 1)
  have hwrap : wrapCursor (.place vga vgaWidth y) = wrapCursor (.place vga 0 (y + 1)) := by
    rw [hnext, wrapCursor]
    exact if_pos le_rfl
  rw [← kputcEnd_nextRow vga hy, kputcEnd, kputcEnd, hwrap]

/-- Storing to the cell at the cursor. -/
theorem vgaStore_place (vga : Vga) (hx : x < vgaWidth) (hy : y < vgaHeight) (cell : UInt16) :
    vgaStore vga ((y : ℤ) * (vgaWidth : ℤ) + (x : ℤ)) cell =
      .ok (Function.update vga (y * vgaWidth + x) cell) := by
  have hlt : y * vgaWidth + x < vgaWidth * vgaHeight := by
    simp only [vgaWidth, vgaHeight] at hx hy ⊢
    omega
  have hindex : (y : ℤ) * (vgaWidth : ℤ) + (x : ℤ) = (y * vgaWidth + x : ℕ) := by
    push_cast
    rfl
  rw [hindex, vgaStore_of_lt vga hlt]

theorem eraseCell_place (vga : Vga) (hx : x < vgaWidth) (hy : y < vgaHeight) :
    eraseCell (.place vga x y) =
      .ok (.place (Function.update vga (y * vgaWidth + x) vgaBlank) x y) := by
  have hstore := vgaStore_place vga hx hy vgaBlank
  rw [eraseCell]
  change _ <$> vgaStore vga ((y : ℤ) * (vgaWidth : ℤ) + (x : ℤ)) vgaBlank = _
  rw [hstore, map_ok]
  rfl

/-- **A newline** goes to the start of the next row. -/
theorem kputc_newline (vga : Vga) (x : ℕ) (hy : y < vgaHeight) :
    kputc (.place vga x y) (ascii '\n') = .ok (nextRow vga y) := by
  rw [kputc, kputcBranch, if_pos rfl, ok_bind]
  exact kputcEnd_nextRow vga hy

/-- Printing a character stores it at the cursor, which then moves on. -/
theorem kputcBranch_printable (vga : Vga) (hx : x < vgaWidth) (hy : y < vgaHeight)
    (hc : Printable c) :
    kputcBranch (.place vga x y) c =
      .ok (.place (Function.update vga (y * vgaWidth + x) (vgaCell c)) (x + 1) y) := by
  have hn : c ≠ ascii '\n' := by
    rintro rfl
    exact absurd hc (by decide)
  have hb : c ≠ 8 := by
    rintro rfl
    exact absurd hc (by decide)
  have hstore := vgaStore_place vga hx hy (vgaCell c)
  rw [kputcBranch, if_neg hn, if_neg hb, if_pos ((printable_iff c).2 hc),
    clampCursor_place, wrapCursor_place vga hx]
  change (vgaStore vga ((y : ℤ) * (vgaWidth : ℤ) + (x : ℤ)) (vgaCell c)) >>= _ = _
  rw [hstore, ok_bind]
  rfl

/-- **A printable character** fills the cell at the cursor. -/
theorem kputc_printable (vga : Vga) (hx : x < vgaWidth) (hy : y < vgaHeight) (hc : Printable c) :
    kputc (.place vga x y) c =
      .ok (if x + 1 < vgaWidth then
          .place (Function.update vga (y * vgaWidth + x) (vgaCell c)) (x + 1) y
        else nextRow (Function.update vga (y * vgaWidth + x) (vgaCell c)) y) := by
  rw [kputc, kputcBranch_printable vga hx hy hc, ok_bind]
  split_ifs with hfit
  · exact kputcEnd_place _ hfit hy
  · have hlast : x + 1 = vgaWidth := by omega
    rw [hlast]
    exact kputcEnd_wrap _ hy

/-- A byte that is neither printed nor a newline nor a backspace is ignored. -/
theorem kputcBranch_other (t : Terminal) (hn : c ≠ ascii '\n') (hb : c ≠ 8)
    (hc : ¬ Printable c) : kputcBranch t c = .ok t := by
  rw [kputcBranch, if_neg hn, if_neg hb, if_neg ((printable_iff c).not.2 hc)]

theorem kputc_other (vga : Vga) (hx : x < vgaWidth) (hy : y < vgaHeight) (hn : c ≠ ascii '\n')
    (hb : c ≠ 8) (hc : ¬ Printable c) : kputc (.place vga x y) c = .ok (.place vga x y) := by
  rw [kputc, kputcBranch_other _ hn hb hc, ok_bind]
  exact kputcEnd_place vga hx hy

/-- The terminal after a backspace. -/
def backspace (vga : Vga) (x y : ℕ) : Terminal :=
  if 0 < x then .place (Function.update vga (y * vgaWidth + (x - 1)) vgaBlank) (x - 1) y
  else if 0 < y then
    .place (Function.update vga ((y - 1) * vgaWidth + (vgaWidth - 1)) vgaBlank) (vgaWidth - 1) (y - 1)
  else .place vga x y

theorem kputcBranch_backspace (vga : Vga) (hx : x < vgaWidth) (hy : y < vgaHeight) :
    kputcBranch (.place vga x y) 8 = .ok (backspace vga x y) := by
  have hn : (8 : UInt8) ≠ ascii '\n' := by decide
  rw [kputcBranch, if_neg hn, if_pos rfl, backspace]
  by_cases hxpos : 0 < x
  · have hx' : (0 : ℤ) < (x : ℤ) := by omega
    have hleft : ({ Terminal.place vga x y with cursorX := (x : ℤ) - 1 } : Terminal) =
        .place vga (x - 1) y := by
      rw [Terminal.place, Terminal.place, Nat.cast_pred hxpos]
    rw [if_pos hxpos, if_pos (show 0 < (Terminal.place vga x y).cursorX from hx')]
    change eraseCell { Terminal.place vga x y with cursorX := (x : ℤ) - 1 } = _
    rw [hleft, eraseCell_place vga (by omega) hy]
  · have hx' : ¬ (0 : ℤ) < (x : ℤ) := by omega
    rw [if_neg hxpos, if_neg (show ¬ 0 < (Terminal.place vga x y).cursorX from hx')]
    by_cases hypos : 0 < y
    · have hy' : (0 : ℤ) < (y : ℤ) := by omega
      have hup : ({ Terminal.place vga x y with
          cursorY := (y : ℤ) - 1, cursorX := (vgaWidth : ℤ) - 1 } : Terminal) =
          .place vga (vgaWidth - 1) (y - 1) := by
        rw [Terminal.place, Terminal.place, Nat.cast_pred hypos]
        rfl
      rw [if_pos hypos, if_pos (show 0 < (Terminal.place vga x y).cursorY from hy')]
      change eraseCell { Terminal.place vga x y with
        cursorY := (y : ℤ) - 1, cursorX := (vgaWidth : ℤ) - 1 } = _
      rw [hup, eraseCell_place vga (by decide) (by omega)]
    · have hy' : ¬ (0 : ℤ) < (y : ℤ) := by omega
      rw [if_neg hypos, if_neg (show ¬ 0 < (Terminal.place vga x y).cursorY from hy')]

/-- The cursor stays on the screen. -/
theorem exists_backspace (vga : Vga) (hx : x < vgaWidth) (hy : y < vgaHeight) :
    ∃ vga' x' y', backspace vga x y = .place vga' x' y' ∧ x' < vgaWidth ∧ y' < vgaHeight := by
  rw [backspace]
  split_ifs with hxpos hypos
  · exact ⟨_, _, _, rfl, by omega, hy⟩
  · exact ⟨_, _, _, rfl, by decide, by omega⟩
  · exact ⟨_, _, _, rfl, hx, hy⟩

/-- **A backspace** empties the cell in front of the cursor, which may be the last one of the row
above. -/
theorem kputc_backspace (vga : Vga) (hx : x < vgaWidth) (hy : y < vgaHeight) :
    kputc (.place vga x y) 8 = .ok (backspace vga x y) := by
  obtain ⟨vga', x', y', heq, hx', hy'⟩ := exists_backspace vga hx hy
  rw [kputc, kputcBranch_backspace vga hx hy, ok_bind, heq, kputcEnd_place vga' hx' hy']

end Kputc

/-! ### The screen is the window of an endless roll -/

/-- What a character does to an endless roll of rows. -/
def onRoll (p : Roll UInt16) (c : UInt8) : Roll UInt16 :=
  if c = ascii '\n' then p.newline
  else if Printable c then p.put vgaWidth (vgaCell c)
  else p

/-- The screen and the cursor are the window of the roll that ends with the cursor's row. -/
def Terminal.Window (p : Roll UInt16) (t : Terminal) : Prop :=
  ∃ x y, t = .place t.vga x y ∧ p.Shows vgaWidth vgaHeight t.vga x y

/-- The cursor is on the screen. -/
structure Terminal.InRange (t : Terminal) : Prop where
  x : 0 ≤ t.cursorX ∧ t.cursorX < vgaWidth
  y : 0 ≤ t.cursorY ∧ t.cursorY < vgaHeight

theorem Terminal.inRange_iff (t : Terminal) :
    t.InRange ↔ ∃ x y, t = .place t.vga x y ∧ x < vgaWidth ∧ y < vgaHeight := by
  constructor
  · intro h
    obtain ⟨x, hx⟩ := Int.eq_ofNat_of_zero_le h.x.1
    obtain ⟨y, hy⟩ := Int.eq_ofNat_of_zero_le h.y.1
    have hxlt := h.x.2
    have hylt := h.y.2
    rw [hx] at hxlt
    rw [hy] at hylt
    refine ⟨x, y, ?_, by exact_mod_cast hxlt, by exact_mod_cast hylt⟩
    rw [Terminal.place, ← hx, ← hy]
  · rintro ⟨x, y, ht, hx, hy⟩
    rw [ht]
    exact ⟨⟨Int.natCast_nonneg x, Int.ofNat_lt.2 hx⟩, ⟨Int.natCast_nonneg y, Int.ofNat_lt.2 hy⟩⟩

theorem Terminal.inRange_place {x y : ℕ} (vga : Vga) (hx : x < vgaWidth) (hy : y < vgaHeight) :
    (Terminal.place vga x y).InRange :=
  (Terminal.inRange_iff _).2 ⟨x, y, rfl, hx, hy⟩

theorem nextRow_inRange {y : ℕ} (vga : Vga) (hy : y < vgaHeight) : (nextRow vga y).InRange := by
  rw [nextRow]
  split_ifs with hlt
  · exact Terminal.inRange_place vga vgaWidth_pos hlt
  · exact Terminal.inRange_place _ vgaWidth_pos hy

/-- **No character is stored outside of the buffer, and the cursor stays on the screen.** -/
theorem kputc_inRange {t : Terminal} (ht : t.InRange) (c : UInt8) :
    ∃ t', kputc t c = .ok t' ∧ t'.InRange := by
  obtain ⟨x, y, heq, hx, hy⟩ := t.inRange_iff.1 ht
  rw [heq]
  by_cases hn : c = ascii '\n'
  · rw [hn]
    exact ⟨_, kputc_newline _ x hy, nextRow_inRange _ hy⟩
  by_cases hb : c = 8
  · obtain ⟨vga', x', y', hback, hx', hy'⟩ := exists_backspace t.vga hx hy
    rw [hb]
    exact ⟨_, kputc_backspace _ hx hy, hback ▸ Terminal.inRange_place vga' hx' hy'⟩
  by_cases hc : Printable c
  · refine ⟨_, kputc_printable _ hx hy hc, ?_⟩
    split_ifs with hfit
    · exact Terminal.inRange_place _ hfit hy
    · exact nextRow_inRange _ hy
  · exact ⟨_, kputc_other _ hx hy hn hb hc, Terminal.inRange_place _ hx hy⟩

/-- The next row of the screen is the next row of the roll. -/
theorem nextRow_window {p : Roll UInt16} {vga : Vga} {x y : ℕ}
    (hs : p.Shows vgaWidth vgaHeight vga x y) (hv : p.Valid vgaWidth vgaBlank) :
    Terminal.Window p.newline (nextRow vga y) := by
  rw [nextRow]
  split_ifs with hlt
  · exact ⟨0, y + 1, rfl, hs.newline_of_lt hlt⟩
  · have hlast : y + 1 = vgaHeight := le_antisymm hs.lt (Nat.not_lt.1 hlt)
    refine ⟨0, y, rfl, (hs.newline_scrolled hv hlast).congr fun i hi => ?_⟩
    exact if_pos (by rwa [Nat.mul_comm] at hi)

/-- **One character** does to the screen what it does to the roll. -/
theorem kputc_window {p : Roll UInt16} {t : Terminal} {c : UInt8} (hw : t.Window p)
    (hv : p.Valid vgaWidth vgaBlank) (hb : c ≠ 8) :
    ∃ t', kputc t c = .ok t' ∧ t'.Window (onRoll p c) ∧ (onRoll p c).Valid vgaWidth vgaBlank := by
  obtain ⟨x, y, ht, hs⟩ := hw
  have hx : x < vgaWidth := hs.col ▸ hv.col_lt
  rw [ht, onRoll]
  by_cases hn : c = ascii '\n'
  · rw [hn, if_pos rfl]
    exact ⟨_, kputc_newline _ x hs.lt, nextRow_window hs hv, hv.newline⟩
  rw [if_neg hn]
  by_cases hc : Printable c
  · refine ⟨_, kputc_printable _ hx hs.lt hc, ?_, ?_⟩
    · have hwrite := hs.write hx (vgaCell c)
      rw [if_pos hc, Roll.put, Roll.advance]
      have hcol : (p.write (vgaCell c)).col = x := hs.col.symm
      rw [hcol]
      split_ifs with hfit
      · have hnext := hwrite.next
        rw [hcol] at hnext
        exact ⟨x + 1, y, rfl, hnext⟩
      · exact nextRow_window hwrite (hv.write _)
    · rw [if_pos hc]
      exact hv.put _
  · refine ⟨_, kputc_other _ hx hs.lt hn hb hc, ?_, ?_⟩
    · rw [if_neg hc]
      exact ⟨x, y, rfl, hs⟩
    · rw [if_neg hc]
      exact hv

/-- A text does to the screen what it does to the roll. -/
theorem run_kputc_window {p : Roll UInt16} {t : Terminal} {s : List UInt8} (hw : t.Window p)
    (hv : p.Valid vgaWidth vgaBlank) (hs : 8 ∉ s) :
    ∃ t', run kputc t s = .ok t' ∧ t'.Window (s.foldl onRoll p) := by
  induction s generalizing p t with
  | nil => exact ⟨t, rfl, hw⟩
  | cons c s ih =>
      have hb : c ≠ 8 := fun h => hs (h ▸ List.mem_cons_self)
      obtain ⟨t', ht', hw', hv'⟩ := kputc_window hw hv hb
      obtain ⟨t'', ht'', hw''⟩ := ih hw' hv' fun h => hs (List.mem_cons_of_mem c h)
      exact ⟨t'', run_cons_eq_ok.2 ⟨t', ht', ht''⟩, hw''⟩

/-- A clean screen shows an empty roll. -/
theorem kcleanDisplay_window (t₀ : Terminal) :
    ∃ t₁, kcleanDisplay t₀ = .ok t₁ ∧ t₁.InRange ∧ t₁.Window (Roll.empty vgaBlank) := by
  refine ⟨_, kcleanDisplay_eq t₀, Terminal.inRange_place _ vgaWidth_pos vgaHeight_pos, 0, 0,
    rfl, ?_⟩
  refine Roll.shows_empty vgaHeight_pos fun i hi => ?_
  exact if_pos (by rwa [Nat.mul_comm] at hi)

/-- **The display refines an endless roll of rows.**  On a clean screen every text is printed
without a store outside of the buffer and leaves the cursor on the screen; and a text without
backspaces leaves what the roll holds in the 25 rows up to the cursor's. -/
theorem kcleanDisplay_refines (t₀ : Terminal) (s : List UInt8) :
    ∃ t₁ t, kcleanDisplay t₀ = .ok t₁ ∧ run kputc t₁ s = .ok t ∧ t.InRange ∧
      (8 ∉ s → t.Window (s.foldl onRoll (Roll.empty vgaBlank))) := by
  obtain ⟨t₁, hclean, hrange, hwindow⟩ := kcleanDisplay_window t₀
  obtain ⟨t, ht, hrange'⟩ := run_total (fun t c ht => kputc_inRange ht c) s hrange
  refine ⟨t₁, t, hclean, ht, hrange', fun hs => ?_⟩
  obtain ⟨t', ht', hwindow'⟩ := run_kputc_window hwindow (Roll.valid_empty vgaWidth_pos _) hs
  rw [ht] at ht'
  obtain rfl := Except.ok.inj ht'
  exact hwindow'

/-- Two rows are printed. -/
theorem kcleanDisplay_refines_two :
    ∃ t₁ t, kcleanDisplay ⟨fun _ => 0, 5, 7⟩ = .ok t₁ ∧
      run kputc t₁ (utf8 "a\nb") = .ok t ∧
      t.Window ((utf8 "a\nb").foldl onRoll (Roll.empty vgaBlank)) := by
  obtain ⟨t₁, t, hclean, ht, -, hw⟩ := kcleanDisplay_refines ⟨fun _ => 0, 5, 7⟩ (utf8 "a\nb")
  exact ⟨t₁, t, hclean, ht, hw (by decide)⟩

/-! ### The screen shows the end of a paper -/

/-- What a character does to a paper. -/
def onPaper (p : Paper UInt16) (c : UInt8) : Paper UInt16 :=
  if c = ascii '\n' then p.newline vgaHeight
  else if c = 8 then p.back vgaWidth vgaBlank
  else if Printable c then p.put vgaWidth vgaHeight (vgaCell c)
  else p

/-- The paper that a text is on. -/
def paper (text : List UInt8) : Paper UInt16 := text.foldl onPaper (Paper.empty vgaBlank)

/-- The screen shows what the text leaves on a paper. -/
def Terminal.Displays (t : Terminal) (text : List UInt8) : Prop :=
  ∃ x y, t = .place t.vga x y ∧ (paper text).Shows vgaWidth vgaHeight t.vga x y

section Paper

variable {p : Paper UInt16} {t : Terminal} {text : List UInt8}

theorem paper_concat (text : List UInt8) (c : UInt8) :
    paper (text ++ [c]) = onPaper (paper text) c := by
  rw [paper, List.foldl_append]
  rfl

theorem clear_paper (text : List UInt8) : (paper text).Clear vgaWidth vgaBlank := by
  induction text using List.reverseRecOn with
  | nil => exact Paper.clear_empty vgaWidth_pos _
  | append_singleton text c ih =>
      rw [paper_concat, onPaper]
      split_ifs
      · exact ih.newline _
      · exact ih.back
      · exact ih.put _ _
      · exact ih

/-- The next row of the screen is the next row of the paper. -/
theorem nextRow_paper {vga : Vga} {x y : ℕ} (hs : p.Shows vgaWidth vgaHeight vga x y)
    (hbelow : ∀ c < vgaWidth, p.roll.cell (p.roll.row + 1) c = vgaBlank) :
    ∃ vga' x' y', nextRow vga y = .place vga' x' y' ∧
      (p.newline vgaHeight).Shows vgaWidth vgaHeight vga' x' y' := by
  rw [nextRow]
  split_ifs with hlt
  · exact ⟨_, _, _, rfl, hs.newline_of_lt hlt⟩
  · have hlast : y + 1 = vgaHeight := le_antisymm hs.lt (Nat.not_lt.1 hlt)
    refine ⟨_, _, _, rfl, (hs.newline_scrolled hbelow hlast).congr fun i hi => ?_⟩
    exact if_pos (by rwa [Nat.mul_comm] at hi)

/-- A backspace on the screen is one on the paper. -/
theorem backspace_paper {vga : Vga} {x y : ℕ} (hs : p.Shows vgaWidth vgaHeight vga x y)
    (hp : p.Clear vgaWidth vgaBlank) :
    ∃ vga' x' y', backspace vga x y = .place vga' x' y' ∧
      (p.back vgaWidth vgaBlank).Shows vgaWidth vgaHeight vga' x' y' := by
  rw [backspace]
  split_ifs with hx hy
  · exact ⟨_, _, _, rfl, hs.back_of_pos hp.col_lt hx⟩
  · exact ⟨_, _, _, rfl, hs.back_of_zero vgaWidth_pos (Nat.eq_zero_of_not_pos hx) hy⟩
  · rw [hs.back_of_start (Nat.eq_zero_of_not_pos hx) (Nat.eq_zero_of_not_pos hy)]
    exact ⟨_, _, _, rfl, hs⟩

/-- **One character**, whichever it is. -/
theorem Terminal.Displays.kputc (h : t.Displays text) (c : UInt8) :
    ∃ t', kputc t c = .ok t' ∧ t'.Displays (text ++ [c]) := by
  obtain ⟨x, y, ht, hs⟩ := h
  have hp := clear_paper text
  have hx : x < vgaWidth := hs.col ▸ hp.col_lt
  have hbelow : ∀ {p : Paper UInt16}, p.roll.row = (paper text).roll.row →
      (∀ r, (paper text).roll.row < r → p.roll.cell r = (paper text).roll.cell r) →
      ∀ c < vgaWidth, p.roll.cell (p.roll.row + 1) c = vgaBlank := by
    intro p hrow hcell c hc
    rw [hrow, hcell _ (Nat.lt_succ_self _)]
    exact hp.ahead _ c hc (Or.inl (Nat.lt_succ_self _))
  rw [ht]
  simp only [Terminal.Displays, paper_concat]
  rw [onPaper]
  by_cases hn : c = ascii '\n'
  · rw [hn, if_pos rfl, kputc_newline _ x hs.lt]
    obtain ⟨vga', x', y', hnext, hs'⟩ := nextRow_paper hs (hbelow rfl fun _ _ => rfl)
    exact ⟨_, congrArg _ hnext, x', y', rfl, hs'⟩
  rw [if_neg hn]
  by_cases hb : c = 8
  · rw [hb, if_pos rfl, kputc_backspace _ hx hs.lt]
    obtain ⟨vga', x', y', hback, hs'⟩ := backspace_paper hs hp
    exact ⟨_, congrArg _ hback, x', y', rfl, hs'⟩
  rw [if_neg hb]
  by_cases hc : Printable c
  · have hwrite := Roll.ShowsFrom.write hs hx (vgaCell c)
    rw [if_pos hc, kputc_printable _ hx hs.lt hc, Paper.put, ← hs.col]
    split_ifs with hfit
    · have hmove := hwrite.move (x + 1) hs.lt
      rw [hs.row] at hmove
      exact ⟨_, rfl, x + 1, y, rfl, hmove⟩
    · obtain ⟨vga', x', y', hnext, hs'⟩ := nextRow_paper
        (p := ⟨(paper text).roll.write (vgaCell c), (paper text).top⟩) hwrite
        (hbelow rfl fun r hr => Function.update_of_ne hr.ne' _ _)
      exact ⟨_, congrArg _ hnext, x', y', rfl, hs'⟩
  · rw [if_neg hc, kputc_other _ hx hs.lt hn hb hc]
    exact ⟨_, rfl, x, y, rfl, hs⟩

/-- Printing goes on with the text. -/
theorem Terminal.Displays.print (h : t.Displays text) (s : List UInt8) :
    ∃ t', run Anaga.kputc t s = .ok t' ∧ t'.Displays (text ++ s) := by
  induction s generalizing t text with
  | nil => exact ⟨t, rfl, by rwa [List.append_nil]⟩
  | cons c s ih =>
      obtain ⟨t₁, ht₁, h₁⟩ := h.kputc c
      obtain ⟨t', ht', h'⟩ := ih h₁
      rw [List.append_assoc] at h'
      exact ⟨t', run_cons_eq_ok.2 ⟨t₁, ht₁, ht'⟩, h'⟩

/-- A clean screen has no text on it. -/
theorem Terminal.displays_clean (t : Terminal) :
    ∃ t', kcleanDisplay t = .ok t' ∧ t'.Displays [] := by
  refine ⟨_, kcleanDisplay_eq t, 0, 0, rfl, Paper.shows_empty vgaHeight_pos fun i hi => ?_⟩
  exact if_pos (by rwa [Nat.mul_comm] at hi)

/-- **The display is the end of a paper, whatever is printed.**  On a clean screen every sequence of
characters, with newlines, backspaces and control characters in it, is printed without a store
outside of the buffer; and it leaves what is then on the paper from its first row on the screen
on. -/
theorem kcleanDisplay_displays (t : Terminal) (text : List UInt8) :
    ∃ t₁ t', kcleanDisplay t = .ok t₁ ∧ run Anaga.kputc t₁ text = .ok t' ∧ t'.Displays text := by
  obtain ⟨t₁, hclean, hdisplays⟩ := t.displays_clean
  obtain ⟨t', hprint, hdisplays⟩ := hdisplays.print text
  exact ⟨t₁, t', hclean, hprint, hdisplays⟩

end Paper

end Anaga
