/-
**The line on the screen.**

`input_poll` edits the line in its array and prints what it does, and the screen, which does not
know about the line, scrolls under it.  Cell by cell the screen shows the prompt and the line as
long as every character that is stored is also printed; `kputc` ignores a tab and an escape, which
`input_poll` stores like any other character.

Main definitions:

* `Anaga.Screen`, `Anaga.Screen.kputc` — the terminal, and how often it has scrolled;
* `Anaga.Console`, `Anaga.Console.step` — the screen and the line, and a call of `input_poll`;
* `Anaga.Console.Shown` — the screen shows the prompt and the line, up to the cursor.

Main results:

* `Anaga.Screen.kputc_printable`, `Anaga.Screen.run_erase` — what printing and erasing a character
  do to the screen, counted cell by cell;
* `Anaga.Console.run_shown_iff` — **the line on the screen is the one in the array in every state
  exactly when no tab and no escape is ever stored**.
-/

import Anaga.Input
import Anaga.Terminal

set_option relaxedAutoImplicit false
set_option autoImplicit false

namespace Anaga

open Transition

/-! ### The screen, cell by cell -/

/-- The terminal, and the number of times it has scrolled. -/
structure Screen where
  terminal : Terminal
  scrolls : ℕ

/-- Whether the end of `kputc` calls `kscroll_up`. -/
def kputcScrolls (t : Terminal) (c : UInt8) : Bool :=
  match kputcBranch t c with
  | .ok t => vgaHeight ≤ (wrapCursor t).cursorY
  | .error _ => false

/-- `kputc`. -/
def Screen.kputc (s : Screen) (c : UInt8) : Except Fault Screen :=
  (fun t => ⟨t, if kputcScrolls s.terminal c then s.scrolls + 1 else s.scrolls⟩) <$>
    Anaga.kputc s.terminal c

/-- The cells of the screen. -/
abbrev vgaCells : ℕ := vgaWidth * vgaHeight

/-- The screen with the cursor at the cell `i`, counted row by row. -/
def Screen.at (vga : Vga) (i scrolls : ℕ) : Screen :=
  ⟨.place vga (i % vgaWidth) (i / vgaWidth), scrolls⟩

section Screen

variable {vga : Vga} {i k : ℕ} {c : UInt8}

theorem col_lt (i : ℕ) : i % vgaWidth < vgaWidth := Nat.mod_lt i vgaWidth_pos

theorem row_lt (hi : i < vgaCells) : i / vgaWidth < vgaHeight := Nat.div_lt_of_lt_mul hi

theorem row_col (i : ℕ) : i / vgaWidth * vgaWidth + i % vgaWidth = i :=
  Nat.div_add_mod' i vgaWidth

theorem Screen.kputc_eq {t t' t'' : Terminal} (hbranch : kputcBranch t c = .ok t')
    (hputc : Anaga.kputc t c = .ok t'') :
    Screen.kputc ⟨t, k⟩ c =
      .ok ⟨t'', if (vgaHeight : ℤ) ≤ (wrapCursor t').cursorY then k + 1 else k⟩ := by
  rw [Screen.kputc, kputcScrolls]
  dsimp only
  rw [hbranch, hputc, map_ok]
  simp only [decide_eq_true_eq]

/-- A cursor on the screen does not scroll it. -/
theorem not_scrolls_place {x y : ℕ} (vga : Vga) (hx : x < vgaWidth) (hy : y < vgaHeight) :
    ¬ (vgaHeight : ℤ) ≤ (wrapCursor (.place vga x y)).cursorY := by
  rw [wrapCursor_place vga hx]
  exact Int.not_le.2 (Int.ofNat_lt.2 hy)

/-- **A printable character** fills the cell, and the last cell scrolls the screen. -/
theorem Screen.kputc_printable (vga : Vga) (hi : i < vgaCells) (k : ℕ) (hc : Printable c) :
    (Screen.at vga i k).kputc c =
      .ok (if i + 1 < vgaCells then .at (Function.update vga i (vgaCell c)) (i + 1) k
        else .at (scrollCells (Function.update vga i (vgaCell c))) (vgaCells - vgaWidth) (k + 1)) := by
  have hx := col_lt i
  have hy := row_lt hi
  have hbranch := kputcBranch_printable vga hx hy hc
  have hputc := Anaga.kputc_printable vga hx hy hc
  rw [row_col] at hbranch hputc
  rw [Screen.at, Screen.kputc_eq hbranch hputc]
  simp only [vgaCells, vgaWidth, vgaHeight] at hi hx hy ⊢
  -- the next cell is in the same row, in the next one, or behind the last one
  by_cases hfit : i % 80 + 1 < 80
  · have hnext : i + 1 < 80 * 25 := by omega
    have hcol : (i + 1) % 80 = i % 80 + 1 := by omega
    have hrow : (i + 1) / 80 = i / 80 := by omega
    rw [if_pos hfit, if_pos hnext, if_neg (not_scrolls_place _ hfit hy), Screen.at, hcol, hrow]
  · have hwrap : (wrapCursor (.place (Function.update vga i (vgaCell c)) (i % 80 + 1)
        (i / 80))).cursorY = (i / 80 : ℕ) + 1 := by
      have hlast : i % 80 + 1 = 80 := by omega
      rw [hlast]
      rfl
    rw [if_neg hfit, hwrap, nextRow]
    simp only [vgaHeight]
    by_cases hnext : i + 1 < 80 * 25
    · have hcol : (i + 1) % 80 = 0 := by omega
      have hrow : (i + 1) / 80 = i / 80 + 1 := by omega
      have hbelow : ¬ ((25 : ℕ) : ℤ) ≤ (i / 80 : ℕ) + 1 := by omega
      rw [if_pos hnext, if_neg hbelow, if_pos (by omega), Screen.at, hcol, hrow]
    · have hrow : i / 80 = 24 := by omega
      have hbelow : ((25 : ℕ) : ℤ) ≤ (i / 80 : ℕ) + 1 := by omega
      rw [if_neg hnext, if_pos hbelow, if_neg (by omega), hrow]
      rfl

/-- A backspace empties the cell in front of the cursor. -/
theorem Screen.kputc_backspace (vga : Vga) (hi : i < vgaCells) (hpos : 0 < i) (k : ℕ) :
    (Screen.at vga i k).kputc 8 = .ok (.at (Function.update vga (i - 1) vgaBlank) (i - 1) k) := by
  have hx := col_lt i
  have hy := row_lt hi
  have hback : backspace vga (i % vgaWidth) (i / vgaWidth) =
      .place (Function.update vga (i - 1) vgaBlank) ((i - 1) % vgaWidth) ((i - 1) / vgaWidth) := by
    simp only [vgaWidth] at hx ⊢
    rw [backspace]
    simp only [vgaWidth]
    -- counted row by row, the cell in front is `i - 1` in both branches
    by_cases hcol : 0 < i % 80
    · have hx' : (i - 1) % 80 = i % 80 - 1 := by omega
      have hy' : (i - 1) / 80 = i / 80 := by omega
      have hcell : i / 80 * 80 + (i % 80 - 1) = i - 1 := by omega
      rw [if_pos hcol, hcell, hx', hy']
    · have hx' : (i - 1) % 80 = 79 := by omega
      have hy' : (i - 1) / 80 = i / 80 - 1 := by omega
      have hcell : (i / 80 - 1) * 80 + 79 = i - 1 := by omega
      rw [if_neg hcol, if_pos (by omega), hcell, hx', hy']
  have hbranch := kputcBranch_backspace vga hx hy
  have hputc := Anaga.kputc_backspace vga hx hy
  rw [hback] at hbranch hputc
  have hkeep := not_scrolls_place (Function.update vga (i - 1) vgaBlank) (col_lt (i - 1))
    (row_lt (Nat.lt_of_le_of_lt (Nat.sub_le i 1) hi))
  rw [Screen.at, Screen.kputc_eq hbranch hputc, if_neg hkeep, Screen.at]

/-- A character that is not printed. -/
theorem Screen.kputc_other (vga : Vga) (hi : i < vgaCells) (k : ℕ) (hn : c ≠ ascii '\n')
    (hb : c ≠ 8) (hc : ¬ Printable c) : (Screen.at vga i k).kputc c = .ok (.at vga i k) := by
  have hx := col_lt i
  have hy := row_lt hi
  rw [Screen.at, Screen.kputc_eq (kputcBranch_other _ hn hb hc)
    (Anaga.kputc_other vga hx hy hn hb hc), if_neg (not_scrolls_place vga hx hy)]

/-- **Erasing a character** empties its cell, and never scrolls. -/
theorem Screen.run_erase (vga : Vga) (hi : i < vgaCells) (hpos : 0 < i) (k : ℕ) :
    run Screen.kputc (.at vga i k) erase =
      .ok (.at (Function.update vga (i - 1) vgaBlank) (i - 1) k) := by
  have hlt : i - 1 < vgaCells := Nat.lt_of_le_of_lt (Nat.sub_le i 1) hi
  have hback : i - 1 + 1 = i := Nat.sub_add_cancel hpos
  have hblank : vgaCell (ascii ' ') = vgaBlank := rfl
  rw [erase, run_cons, Screen.kputc_backspace vga hi hpos k, ok_bind, run_cons,
    Screen.kputc_printable _ hlt k (by decide), hback, if_pos hi, ok_bind, run_singleton,
    Screen.kputc_backspace _ hi hpos k, hblank, Function.update_idem, Function.update_idem]

end Screen

/-! ### A text on the screen -/

/-- The cells from `start` on spell the text. -/
def Spells (vga : Vga) (start : ℕ) (text : List UInt8) : Prop :=
  ∀ i c, text[i]? = some c → vga (start + i) = vgaCell c

/-- The screen shows a text that began at the cell `origin` before the screen scrolled, and the
cursor is behind it. -/
def Screen.Shows (origin : ℕ) (text : List UInt8) (s : Screen) : Prop :=
  ∃ vga start, s = .at vga (start + text.length) s.scrolls ∧
    start + vgaWidth * s.scrolls = origin ∧ start + text.length < vgaCells ∧
    Spells vga start text

section Shows

variable {vga : Vga} {start origin : ℕ} {text : List UInt8} {c : UInt8} {s : Screen}

theorem Spells.of_prefix {text' : List UInt8} (h : Spells vga start text) (hp : text' <+: text) :
    Spells vga start text' := by
  intro i c hi
  obtain ⟨rest, rfl⟩ := hp
  have hlt : i < text'.length := (List.getElem?_eq_some_iff.1 hi).1
  exact h i c (by rw [List.getElem?_append_left hlt, hi])

/-- Cells behind the text do not matter. -/
theorem Spells.congr {vga' : Vga} (h : Spells vga start text)
    (heq : ∀ i < start + text.length, vga' i = vga i) : Spells vga' start text := by
  intro i c hi
  have hlt : i < text.length := (List.getElem?_eq_some_iff.1 hi).1
  rw [heq _ (by omega), h i c hi]

theorem Spells.concat (h : Spells vga start text) (c : UInt8) :
    Spells (Function.update vga (start + text.length) (vgaCell c)) start (text ++ [c]) := by
  intro i d hi
  rcases Nat.lt_trichotomy i text.length with hlt | rfl | hgt
  · rw [List.getElem?_append_left hlt] at hi
    rw [Function.update_of_ne (by omega), h i d hi]
  · rw [List.getElem?_concat_length] at hi
    obtain rfl := Option.some.inj hi
    exact Function.update_self _ _ _
  · have hlt := (List.getElem?_eq_some_iff.1 hi).1
    rw [List.length_append, List.length_singleton] at hlt
    omega

/-- A text that does not start in the first row scrolls with the screen. -/
theorem Spells.scroll (h : Spells vga (start + vgaWidth) text)
    (hlt : start + vgaWidth + text.length ≤ vgaCells) : Spells (scrollCells vga) start text := by
  intro i c hi
  have hbound : i < text.length := (List.getElem?_eq_some_iff.1 hi).1
  have hcell := h i c hi
  simp only [vgaCells, vgaWidth, vgaHeight] at hlt hcell
  have hrow : start + i < (25 - 1) * 80 := by omega
  have hnext : start + i + 80 = start + 80 + i := by omega
  rw [scrollCells, if_pos (by simp only [vgaWidth, vgaHeight]; omega), Roll.scrolled, if_pos hrow,
    hnext, hcell]

/-- The cursor says how long the text is. -/
theorem Screen.Shows.length_eq {text' : List UInt8} (h : s.Shows origin text)
    (h' : s.Shows origin text') : text.length = text'.length := by
  obtain ⟨vga, start, heq, horigin, -, -⟩ := h
  obtain ⟨vga', start', heq', horigin', -, -⟩ := h'
  -- both texts start at the same cell, as the screen has scrolled as often for both
  have hstart : start = start' := by omega
  have hx : ((start + text.length) % vgaWidth : ℕ) = ((start' + text'.length) % vgaWidth : ℕ) :=
    Int.ofNat.inj (congrArg (fun s : Screen => s.terminal.cursorX) (heq.symm.trans heq'))
  have hy : ((start + text.length) / vgaWidth : ℕ) = ((start' + text'.length) / vgaWidth : ℕ) :=
    Int.ofNat.inj (congrArg (fun s : Screen => s.terminal.cursorY) (heq.symm.trans heq'))
  have hcell := row_col (start + text.length)
  rw [hx, hy, row_col] at hcell
  omega

/-- **Printing a character** adds it to the text. -/
theorem Screen.Shows.print (h : s.Shows origin text) (hc : Printable c)
    (hlen : text.length + vgaWidth < vgaCells) :
    ∃ s', s.kputc c = .ok s' ∧ s'.Shows origin (text ++ [c]) := by
  obtain ⟨vga, start, heq, horigin, hlt, hspells⟩ := h
  have hconcat := hspells.concat c
  rw [heq, Screen.kputc_printable vga hlt s.scrolls hc]
  have hlength : start + (text ++ [c]).length = start + text.length + 1 := by
    rw [List.length_append, List.length_singleton, Nat.add_assoc]
  split_ifs with hfit
  · refine ⟨_, rfl, _, start, ?_, horigin, ?_, hconcat⟩
    · rw [hlength]
      rfl
    · rwa [hlength]
  · -- the last cell is filled, so the text moves up by one row
    simp only [vgaCells, vgaWidth, vgaHeight] at hlt hlen hfit horigin
    obtain ⟨start', rfl⟩ : ∃ start', start = start' + vgaWidth :=
      ⟨start - 80, by simp only [vgaWidth]; omega⟩
    simp only [vgaWidth] at hlt hfit horigin hlength
    have hend : start' + (text ++ [c]).length = vgaCells - vgaWidth := by
      simp only [vgaCells, vgaWidth, vgaHeight]
      omega
    refine ⟨_, rfl, _, start', ?_, ?_, ?_, hconcat.scroll ?_⟩
    · rw [hend]
      rfl
    · change start' + 80 * (s.scrolls + 1) = origin
      omega
    · rw [hend]
      decide
    · simp only [vgaCells, vgaWidth, vgaHeight]
      omega

/-- **Erasing a character** takes it off the text. -/
theorem Screen.Shows.erase (h : s.Shows origin (text ++ [c])) :
    ∃ s', run Screen.kputc s erase = .ok s' ∧ s'.Shows origin text := by
  obtain ⟨vga, start, heq, horigin, hlt, hspells⟩ := h
  have hlength : start + (text ++ [c]).length = start + text.length + 1 := by
    rw [List.length_append, List.length_singleton, Nat.add_assoc]
  rw [hlength] at heq hlt
  rw [heq, Screen.run_erase vga hlt (Nat.succ_pos _) s.scrolls, Nat.add_sub_cancel]
  refine ⟨_, rfl, _, start, rfl, horigin, by omega, ?_⟩
  refine (hspells.of_prefix (List.prefix_append text [c])).congr fun i hi => ?_
  exact Function.update_of_ne (Nat.ne_of_lt hi) _ _

/-- A character that is not printed leaves the screen as it is. -/
theorem Screen.Shows.ignore (h : s.Shows origin text) (hn : c ≠ ascii '\n') (hb : c ≠ 8)
    (hc : ¬ Printable c) : s.kputc c = .ok s := by
  obtain ⟨vga, start, heq, -, hlt, -⟩ := h
  rw [heq]
  exact Screen.kputc_other vga hlt s.scrolls hn hb hc

end Shows

/-! ### The line on the screen -/

/-- `MAX_COMMAND_LEN`. -/
def maxCommandLen : UInt32 := 128

/-- The text that `input_prompt` prints. -/
def prompt : List UInt8 := utf8 "> "

/-- `input_prompt`. -/
def inputPrompt (s : Screen) : Except Fault Screen :=
  kprint (prompt ++ [0]) >>= run Screen.kputc s

/-- The screen and the line. -/
structure Console where
  screen : Screen
  line : LineState

/-- A call `input_poll(cmd, MAX_COMMAND_LEN)`. -/
def Console.step (s : Console) (c : UInt8) : Except Fault Console :=
  inputPoll c maxCommandLen s.line >>= fun r =>
  (fun screen => ⟨screen, r.line⟩) <$> run Screen.kputc s.screen r.printed

/-- The screen shows the prompt, which was printed at the cell `origin`, and behind it
`buffer[0..idx)`, up to the cursor. -/
def Console.Shown (origin : ℕ) (s : Console) : Prop :=
  s.screen.Shows origin (prompt ++ s.line.buffer.take s.line.idx)

/-- What holds in every state: the cursor is on the screen, and the array holds a line. -/
structure Console.Good (s : Console) : Prop where
  inRange : s.screen.terminal.InRange
  holds : ∃ line, s.line.Holds maxCommandLen.toNat line

section Console

variable {origin : ℕ} {line : List UInt8} {c : UInt8} {s s' : Console}

theorem Screen.kputc_inRange {s : Screen} (hs : s.terminal.InRange) (c : UInt8) :
    ∃ s', s.kputc c = .ok s' ∧ s'.terminal.InRange := by
  obtain ⟨t, ht, hrange⟩ := Anaga.kputc_inRange hs c
  exact ⟨⟨t, _⟩, by rw [Screen.kputc, ht, map_ok], hrange⟩

/-- **A call of the editor returns, whatever is typed.** -/
theorem Console.step_total (hs : s.Good) (c : UInt8) : ∃ s', s.step c = .ok s' ∧ s'.Good := by
  obtain ⟨line, hline⟩ := hs.holds
  obtain ⟨r, hr, hspec⟩ := inputPoll_spec hline c
  obtain ⟨screen, hscreen, hrange⟩ :=
    run_total (fun _ d hd => Screen.kputc_inRange hd d) r.printed hs.inRange
  refine ⟨⟨screen, r.line⟩, ?_, hrange, _, hspec.holds⟩
  rw [Console.step, hr, ok_bind, hscreen, map_ok]

theorem Console.shown_iff (h : s.line.Holds maxCommandLen.toNat line) :
    s.Shown origin ↔ s.screen.Shows origin (prompt ++ line) := by
  rw [Console.Shown, h.take_eq]

/-- What a call leaves, in terms of the line. -/
theorem Console.step_eq (h : s.line.Holds maxCommandLen.toNat line) (hstep : s.step c = .ok s') :
    s'.line.Holds maxCommandLen.toNat (editLine maxCommandLen.toNat line c) ∧
      run Screen.kputc s.screen (echo maxCommandLen.toNat line c) = .ok s'.screen := by
  obtain ⟨r, hr, hspec⟩ := inputPoll_spec h c
  rw [Console.step, hr, ok_bind, map_eq_ok] at hstep
  obtain ⟨screen, hscreen, rfl⟩ := hstep
  rw [hspec.printed] at hscreen
  exact ⟨hspec.holds, hscreen⟩

/-- A call that neither edits the line nor prints anything. -/
theorem Console.shown_of_keep (h : s.line.Holds maxCommandLen.toNat line)
    (hstep : s.step c = .ok s') (hedit : editLine maxCommandLen.toNat line c = line)
    (hecho : echo maxCommandLen.toNat line c = []) (hs : s.Shown origin) : s'.Shown origin := by
  obtain ⟨hline, hscreen⟩ := Console.step_eq h hstep
  rw [hecho] at hscreen
  rw [hedit] at hline
  have hsame : s.screen = s'.screen := Except.ok.inj hscreen
  rwa [shown_iff hline, ← hsame, ← shown_iff h]

/-- **A backspace** keeps the line on the screen. -/
theorem Console.shown_backspace (h : s.line.Holds maxCommandLen.toNat line)
    (hstep : s.step 8 = .ok s') (hs : s.Shown origin) : s'.Shown origin := by
  rcases List.eq_nil_or_concat line with rfl | ⟨line, d, rfl⟩
  · exact shown_of_keep h hstep rfl rfl hs
  · obtain ⟨hline, hscreen⟩ := Console.step_eq h hstep
    have hecho : echo maxCommandLen.toNat (line.concat d) 8 = erase := by
      rw [List.concat_eq_append]
      exact if_neg (List.append_ne_nil_of_right_ne_nil line (List.cons_ne_nil d []))
    have hedit : editLine maxCommandLen.toNat (line.concat d) 8 = line := by
      rw [List.concat_eq_append]
      exact List.dropLast_concat
    rw [hecho] at hscreen
    rw [hedit] at hline
    rw [shown_iff h, List.concat_eq_append, ← List.append_assoc] at hs
    obtain ⟨screen, hscreen', hshows⟩ := hs.erase
    rw [hscreen] at hscreen'
    obtain rfl := Except.ok.inj hscreen'
    rwa [shown_iff hline]

/-- **A character that is stored** is on the screen if and only if it is printed. -/
theorem Console.shown_store (h : s.line.Holds maxCommandLen.toNat line) (hc : IsPlain c)
    (hstep : s.step c = .ok s') (hs : s.Shown origin)
    (hfit : line.length < maxCommandLen.toNat - 1) : s'.Shown origin ↔ Printable c := by
  obtain ⟨hline, hscreen⟩ := Console.step_eq h hstep
  rw [hc.echo_eq, if_pos hfit, run_singleton] at hscreen
  rw [hc.editLine_eq, if_pos hfit] at hline
  rw [shown_iff h] at hs
  rw [shown_iff hline, ← List.append_assoc]
  constructor
  · intro hshown
    by_contra hprint
    -- the cursor has not moved, but it would have to be behind the longer line
    have hn : c ≠ ascii '\n' := fun hn => hc.not_newline (Or.inl hn)
    have hb : c ≠ 8 := fun hb => hc.not_backspace (Or.inl hb)
    rw [hs.ignore hn hb hprint] at hscreen
    obtain hsame := Except.ok.inj hscreen
    rw [← hsame] at hshown
    have hlength := hs.length_eq hshown
    have hlonger : (prompt ++ line ++ [c]).length = (prompt ++ line).length + 1 :=
      List.length_append
    omega
  · intro hprint
    have hlen : (prompt ++ line).length + vgaWidth < vgaCells := by
      have hprompt : prompt.length = 2 := by decide
      have hmax : maxCommandLen.toNat - 1 = 127 := rfl
      rw [List.length_append, hprompt]
      simp only [vgaCells, vgaWidth, vgaHeight]
      omega
    obtain ⟨screen, hscreen', hshows⟩ := hs.print hprint hlen
    rw [hscreen] at hscreen'
    obtain rfl := Except.ok.inj hscreen'
    exact hshows

/-- In a full line nothing is stored. -/
theorem Console.shown_full (h : s.line.Holds maxCommandLen.toNat line) (hc : IsPlain c)
    (hstep : s.step c = .ok s') (hs : s.Shown origin)
    (hfull : ¬ line.length < maxCommandLen.toNat - 1) : s'.Shown origin :=
  shown_of_keep h hstep (by rw [hc.editLine_eq, if_neg hfull]) (by rw [hc.echo_eq, if_neg hfull]) hs

/-- A tab or an escape is only typed into a full line, where it is dropped. -/
def Console.DropsControls (s : Console) (c : UInt8) : Prop :=
  c = 9 ∨ c = 27 → maxCommandLen.toNat - 1 ≤ s.line.idx

/-- A key of the table that is printed. -/
theorem isPlain_of_printable (hc : 32 ≤ c.toNat ∧ c.toNat < 127) : IsPlain c := by
  refine ⟨?_, ?_, ?_, ?_⟩
  · rintro rfl
    exact absurd hc (by decide)
  · rintro (rfl | rfl)
    · exact absurd hc (by decide)
    · exact absurd hc (by decide)
  · rintro (rfl | rfl)
    · exact absurd hc (by decide)
    · exact absurd hc (by decide)
  · rintro rfl
    exact absurd hc (by decide)

/-- **One key** keeps the line on the screen, unless it is stored and not printed. -/
theorem Console.shown_step_iff (hs : s.Good) (hshown : s.Shown origin) (hkey : Key c)
    (hnl : c ≠ ascii '\n') (hstep : s.step c = .ok s') : s.DropsControls c ↔ s'.Shown origin := by
  obtain ⟨line, h⟩ := hs.holds
  have hfree : c ≠ 9 → c ≠ 27 → s.DropsControls c :=
    fun htab hesc hc => absurd hc (not_or.2 ⟨htab, hesc⟩)
  have hstore : IsPlain c → (c = 9 ∨ c = 27 ↔ ¬ Printable c) →
      (s.DropsControls c ↔ s'.Shown origin) := by
    intro hplain hprint
    -- a full line drops the character, so nothing can go wrong
    by_cases hfit : line.length < maxCommandLen.toNat - 1
    · rw [shown_store h hplain hstep hshown hfit, Console.DropsControls, hprint, h.idx]
      exact ⟨fun himp => by_contra fun hnot => absurd hfit (Nat.not_lt.2 (himp hnot)),
        fun hc hnot => absurd hc hnot⟩
    · refine iff_of_true (fun _ => ?_) (shown_full h hplain hstep hshown hfit)
      rw [h.idx]
      exact Nat.not_lt.1 hfit
  rcases hkey with rfl | rfl | rfl | hn | rfl | hc
  · exact iff_of_true (hfree (by decide) (by decide)) (shown_of_keep h hstep rfl rfl hshown)
  · exact iff_of_true (hfree (by decide) (by decide)) (shown_backspace h hstep hshown)
  · exact hstore ⟨by decide, by decide, by decide, by decide⟩ (by decide)
  · exact absurd hn hnl
  · exact hstore ⟨by decide, by decide, by decide, by decide⟩ (by decide)
  · refine hstore (isPlain_of_printable hc) (iff_of_false ?_ ?_)
    · rintro (rfl | rfl)
      · exact absurd hc (by decide)
      · exact absurd hc (by decide)
    · exact not_not.2 ⟨hc.1, by omega⟩

end Console

/-- The prompt, printed at the start of a row. -/
theorem inputPrompt_shows (vga : Vga) {y : ℕ} (hy : y < vgaHeight) :
    ∃ s, inputPrompt ⟨.place vga 0 y, 0⟩ = .ok s ∧ s.terminal.InRange ∧
      s.Shows (y * vgaWidth) prompt := by
  have hzero : (0 : UInt8) ∈ prompt ++ [0] := by simp
  have hprint : kprint (prompt ++ [0]) = .ok prompt := by
    rw [kprint_of_zero_mem hzero, cstr_append_zero (by decide)]
  have hcol : y * vgaWidth % vgaWidth = 0 := Nat.mul_mod_left y vgaWidth
  have hrow : y * vgaWidth / vgaWidth = y := Nat.mul_div_cancel y vgaWidth_pos
  have hstart : (⟨.place vga 0 y, 0⟩ : Screen).Shows (y * vgaWidth) [] := by
    refine ⟨vga, y * vgaWidth, ?_, rfl, ?_, fun i c hi => by simp at hi⟩
    · rw [List.length_nil, Nat.add_zero, Screen.at, hcol, hrow]
    · rw [List.length_nil, Nat.add_zero, vgaCells, Nat.mul_comm]
      exact Nat.mul_lt_mul_of_pos_left hy vgaWidth_pos
  have hinRange : (⟨.place vga 0 y, 0⟩ : Screen).terminal.InRange :=
    Terminal.inRange_place vga vgaWidth_pos hy
  obtain ⟨s, hs, hrange⟩ := run_total (fun _ d hd => Screen.kputc_inRange hd d) prompt hinRange
  obtain ⟨s₁, hs₁, hshows₁⟩ := hstart.print (c := ascii '>') (by decide) (by decide)
  obtain ⟨s₂, hs₂, hshows₂⟩ := hshows₁.print (c := ascii ' ') (by decide) (by decide)
  have hrun : run Screen.kputc ⟨.place vga 0 y, 0⟩ prompt = .ok s₂ := by
    change run Screen.kputc _ [ascii '>', ascii ' '] = _
    rw [run_cons, hs₁, ok_bind, run_singleton, hs₂]
  rw [hs] at hrun
  obtain rfl := Except.ok.inj hrun
  exact ⟨s, by rw [inputPrompt, hprint, ok_bind, hs], hrange, hshows₂⟩

/-- **What is on the screen is what is in the array, in every state, exactly when no tab and no
escape is ever stored.**  The keys are those of any scancodes without a newline. -/
theorem Console.run_shown_iff (vga : Vga) {y : ℕ} (hy : y < vgaHeight) {buffer : List UInt8}
    (hbuffer : maxCommandLen.toNat ≤ buffer.length) (shiftState : Bool) (scancodes : List UInt8)
    (hnl : ascii '\n' ∉ typed shiftState scancodes) :
    ∃ screen, inputPrompt ⟨.place vga 0 y, 0⟩ = .ok screen ∧
      ((∀ cs, cs <+: typed shiftState scancodes →
          ∃ s, run Console.step ⟨screen, ⟨buffer, 0⟩⟩ cs = .ok s ∧ s.Shown (y * vgaWidth)) ↔
        Along Console.step Console.DropsControls ⟨screen, ⟨buffer, 0⟩⟩
          (typed shiftState scancodes)) := by
  obtain ⟨screen, hprompt, hrange, hshows⟩ := inputPrompt_shows vga hy
  have hholds : LineState.Holds maxCommandLen.toNat ⟨buffer, 0⟩ [] := holds_nil (by decide) hbuffer
  have hgood : Console.Good ⟨screen, ⟨buffer, 0⟩⟩ := ⟨hrange, [], hholds⟩
  have hshown : Console.Shown (y * vgaWidth) ⟨screen, ⟨buffer, 0⟩⟩ := by
    rw [Console.shown_iff hholds, List.append_nil]
    exact hshows
  have hiff := along_iff_forall_prefix_of_mem (C := Console.DropsControls)
    (typed shiftState scancodes) (fun _ c hs => Console.step_total hs c)
    (fun c hc _ _ hs hshown hstep => Console.shown_step_iff hs hshown
      (typed_key shiftState scancodes c hc) (fun hn => hnl (hn ▸ hc)) hstep) hgood hshown
  -- no run fails, so "every state reached" and "a state is reached, and" are the same
  refine ⟨screen, hprompt, Iff.trans ⟨fun h cs hcs s hs => ?_, fun h cs hcs => ?_⟩ hiff⟩
  · obtain ⟨s', hs', hshown'⟩ := h cs hcs
    rw [hs] at hs'
    obtain rfl := Except.ok.inj hs'
    exact hshown'
  · obtain ⟨s, hs, -⟩ := run_total (fun _ c hs => Console.step_total hs c) cs hgood
    exact ⟨s, hs, h cs hcs s hs⟩

/-- A letter that is typed and erased again. -/
theorem Console.run_shown_letter :
    ∃ screen s, inputPrompt ⟨.place (fun _ => vgaBlank) 0 24, 0⟩ = .ok screen ∧
      run Console.step ⟨screen, ⟨List.replicate 128 0, 0⟩⟩ (typed true [0x1E, 0x0E]) = .ok s ∧
      s.Shown (24 * vgaWidth) := by
  have htyped : typed true [0x1E, 0x0E] = [ascii 'A', 8] := by decide +kernel
  obtain ⟨screen, hprompt, hiff⟩ := Console.run_shown_iff (fun _ => vgaBlank)
    (show 24 < vgaHeight by decide) (show maxCommandLen.toNat ≤ (List.replicate 128 0).length by
      rw [List.length_replicate]
      decide) true [0x1E, 0x0E] (by decide +kernel)
  rw [htyped] at hiff ⊢
  have halong : Along Console.step Console.DropsControls ⟨screen, ⟨List.replicate 128 0, 0⟩⟩
      [ascii 'A', 8] := by
    refine ⟨?_, fun _ _ => ⟨?_, fun _ _ => trivial⟩⟩
    · intro hc
      exact absurd hc (by decide)
    · intro hc
      exact absurd hc (by decide)
  obtain ⟨s, hs, hshown⟩ := hiff.2 halong _ List.prefix_rfl
  exact ⟨screen, s, hprompt, hs, hshown⟩

/-- Two escapes are stored but not printed, and erasing them takes the prompt off the screen. -/
theorem Console.not_shown_escape :
    ∃ screen s, inputPrompt ⟨.place (fun _ => vgaBlank) 0 0, 0⟩ = .ok screen ∧
      ascii '\n' ∉ typed false [0x01, 0x01, 0x0E, 0x0E] ∧
      run Console.step ⟨screen, ⟨List.replicate 128 0, 0⟩⟩ (typed false [0x01, 0x01, 0x0E, 0x0E]) =
        .ok s ∧ ¬ s.Shown (0 * vgaWidth) := by
  have hrun : (inputPrompt ⟨.place (fun _ => vgaBlank) 0 0, 0⟩ >>= fun screen =>
      run Console.step ⟨screen, ⟨List.replicate 128 0, 0⟩⟩
        (typed false [0x01, 0x01, 0x0E, 0x0E])).toOption.map
        (fun s => (s.screen.terminal.vga 0, s.screen.scrolls)) = some (vgaBlank, 0) := by
    decide +kernel
  obtain ⟨s, hs, hend⟩ := toOption_map_eq_some.1 hrun
  obtain ⟨screen, hprompt, hs⟩ := bind_eq_ok.1 hs
  obtain ⟨hcell, hscrolls⟩ := Prod.mk.inj hend
  refine ⟨screen, s, hprompt, by decide +kernel, hs, ?_⟩
  rintro ⟨vga, start, heq, horigin, -, hspells⟩
  have hstart : start = 0 := by omega
  have hvga : s.screen.terminal.vga = vga := congrArg (fun s => s.terminal.vga) heq
  have hfirst := hspells 0 (ascii '>') rfl
  rw [hstart, ← hvga, hcell] at hfirst
  exact absurd hfirst (by decide)

end Anaga
