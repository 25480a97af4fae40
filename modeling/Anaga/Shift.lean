/-
**One flag for two shift keys: `drivers/keyboard/keyboard.c`.**

`getchar` keeps a single flag, which every press and every release of either shift key sets.  A key
is held while its latest scancode is a press, so the flag can only be compared with the keys over
the whole sequence of scancodes since power-on.

Main definitions:

* `Anaga.shiftState` — the flag after a sequence of scancodes;
* `Anaga.held`, `Anaga.shiftHeld` — a key is held, and one of the shift keys is;
* `Anaga.TracksShift` — at every point of the sequence the flag says whether a shift key is held,
  and the keys are translated accordingly;
* `Anaga.LetGo` — the scancode is no release of a shift key while the other one is held.

Main results:

* `Anaga.shiftState_concat`, `Anaga.held_concat` — what one scancode does to both;
* `Anaga.agrees_concat_iff` — **one flag is enough for a step exactly if it is no such release**;
* `Anaga.tracksShift_iff` — so the flag is right all along exactly if no step is.
-/

import Mathlib.Data.List.GetD
import Anaga.Input

set_option relaxedAutoImplicit false
set_option autoImplicit false

namespace Anaga

/-! ### Scancodes -/

/-- The scancode is that of a press. -/
def pressed (scancode : UInt8) : Bool := scancode &&& keyboardScancodeRelease = 0

/-- The key of a scancode. -/
def keyOf (scancode : UInt8) : UInt8 := scancode &&& ~~~keyboardScancodeRelease

/-- `shift_state` after the scancodes since power-on. -/
def shiftState (scancodes : List UInt8) : Bool :=
  scancodes.foldl (fun shiftState scancode => (getchar shiftState scancode).2) false

/-- The latest scancode of the key. -/
def latest (key : UInt8) (scancodes : List UInt8) : Option UInt8 :=
  (scancodes.filter fun scancode => keyOf scancode = key).getLast?

/-- The latest scancode of the key is a press. -/
def held (key : UInt8) (scancodes : List UInt8) : Bool := (latest key scancodes).any pressed

/-- One of the two shift keys is held. -/
def shiftHeld (scancodes : List UInt8) : Bool :=
  held scShiftLeft scancodes || held scShiftRight scancodes

/-- At every point of the sequence the flag says whether a shift key is held, and the next key press
is translated through the shifted table exactly if one is. -/
def TracksShift (scancodes : List UInt8) : Prop :=
  ∀ ps, ps <+: scancodes →
    shiftState ps = shiftHeld ps ∧
      ∀ scancode, pressed scancode = true → keyOf scancode ≠ scShiftLeft →
        keyOf scancode ≠ scShiftRight →
        (getchar (shiftState ps) scancode).1 =
          (if shiftHeld ps then scancodeAsciiShift else scancodeAscii).getD
            (keyOf scancode).toNat 0

/-- The scancode is no release of one of the shift keys while the other one is held. -/
def LetGo (scancodes : List UInt8) (scancode : UInt8) : Prop :=
  pressed scancode = false →
    (keyOf scancode = scShiftLeft → held scShiftRight scancodes = false) ∧
      (keyOf scancode = scShiftRight → held scShiftLeft scancodes = false)

/-! ### One scancode more -/

theorem getchar_eq (shiftState : Bool) (scancode : UInt8) :
    getchar shiftState scancode =
      if keyOf scancode = scShiftLeft ∨ keyOf scancode = scShiftRight then (0, pressed scancode)
      else if pressed scancode = false then (0, shiftState)
      else if scancodeAscii.length ≤ (keyOf scancode).toNat then (0, shiftState)
      else ((if shiftState then scancodeAsciiShift else scancodeAscii).getD
        (keyOf scancode).toNat 0, shiftState) := rfl

/-- Only the shift keys set the flag. -/
theorem getchar_snd (shiftState : Bool) (scancode : UInt8) :
    (getchar shiftState scancode).2 =
      if keyOf scancode = scShiftLeft ∨ keyOf scancode = scShiftRight then pressed scancode
      else shiftState := by
  rw [getchar_eq]
  by_cases hshift : keyOf scancode = scShiftLeft ∨ keyOf scancode = scShiftRight
  · rw [if_pos hshift, if_pos hshift]
  · rw [if_neg hshift, if_neg hshift]
    by_cases hpress : pressed scancode = false
    · rw [if_pos hpress]
    · rw [if_neg hpress, apply_ite Prod.snd, ite_self]

theorem shiftState_concat (scancodes : List UInt8) (scancode : UInt8) :
    shiftState (scancodes ++ [scancode]) =
      if keyOf scancode = scShiftLeft ∨ keyOf scancode = scShiftRight then pressed scancode
      else shiftState scancodes := by
  rw [shiftState, List.foldl_append, List.foldl_cons, List.foldl_nil, getchar_snd]
  rfl

theorem held_concat (key : UInt8) (scancodes : List UInt8) (scancode : UInt8) :
    held key (scancodes ++ [scancode]) =
      if keyOf scancode = key then pressed scancode else held key scancodes := by
  simp only [held, latest, List.getLast?_filter, List.reverse_concat, List.find?_cons]
  split_ifs with hkey
  · rw [decide_eq_true hkey]
    rfl
  · rw [decide_eq_false hkey]

/-- **One flag is enough for a scancode exactly if it releases no shift key while the other one is
held.** -/
theorem agrees_concat_iff {scancodes : List UInt8} (h : shiftState scancodes = shiftHeld scancodes)
    (scancode : UInt8) :
    shiftState (scancodes ++ [scancode]) = shiftHeld (scancodes ++ [scancode]) ↔
      LetGo scancodes scancode := by
  have hne : scShiftLeft ≠ scShiftRight := by decide
  rw [shiftState_concat, shiftHeld, held_concat, held_concat, LetGo]
  by_cases hleft : keyOf scancode = scShiftLeft
  · rw [if_pos (Or.inl hleft), if_pos hleft, if_neg (by rw [hleft]; exact hne), hleft]
    cases pressed scancode with
    | true => simp
    | false => simp [hne]
  · by_cases hright : keyOf scancode = scShiftRight
    · rw [if_pos (Or.inr hright), if_neg hleft, if_pos hright, hright]
      cases pressed scancode with
      | true => simp
      | false => simp [hne.symm]
    · rw [if_neg (not_or.2 ⟨hleft, hright⟩), if_neg hleft, if_neg hright, h, shiftHeld]
      simp [hleft, hright]

/-! ### Whole sequences -/

/-- The flag chooses the table. -/
theorem getchar_fst (shiftState : Bool) {scancode : UInt8} (hpress : pressed scancode = true)
    (hleft : keyOf scancode ≠ scShiftLeft) (hright : keyOf scancode ≠ scShiftRight) :
    (getchar shiftState scancode).1 =
      (if shiftState then scancodeAsciiShift else scancodeAscii).getD (keyOf scancode).toNat 0 := by
  have hlen : scancodeAsciiShift.length = scancodeAscii.length := by decide
  rw [getchar_eq, if_neg (not_or.2 ⟨hleft, hright⟩), hpress, if_neg Bool.noConfusion]
  by_cases hout : scancodeAscii.length ≤ (keyOf scancode).toNat
  · rw [if_pos hout]
    cases shiftState with
    | true => exact (List.getD_eq_default _ _ (hlen.trans_le hout)).symm
    | false => exact (List.getD_eq_default _ _ hout).symm
  · rw [if_neg hout]

/-- **The flag is right all along exactly if no shift key is released while the other one is
held.** -/
theorem agrees_iff (scancodes : List UInt8) :
    (∀ ps, ps <+: scancodes → shiftState ps = shiftHeld ps) ↔
      ∀ ps scancode, ps ++ [scancode] <+: scancodes → LetGo ps scancode := by
  induction scancodes using List.reverseRecOn with
  | nil =>
      refine ⟨fun _ ps scancode hps => ?_, fun _ ps hps => ?_⟩
      · exact absurd (List.prefix_nil.1 hps) (List.append_ne_nil_of_right_ne_nil ps (by simp))
      · rw [List.prefix_nil.1 hps]
        rfl
  | append_singleton scancodes scancode ih =>
      have hlast : ∀ ps x, ps ++ [x] <+: scancodes ++ [scancode] ↔
          (ps = scancodes ∧ x = scancode) ∨ ps ++ [x] <+: scancodes := by
        intro ps x
        rw [List.prefix_concat_iff, ← List.concat_eq_append, ← List.concat_eq_append,
          List.concat_inj]
      constructor
      · intro h ps x hps
        have hbefore : ∀ ps, ps <+: scancodes → shiftState ps = shiftHeld ps :=
          fun ps hps => h ps (hps.trans (List.prefix_append scancodes [scancode]))
        rcases (hlast ps x).1 hps with ⟨rfl, rfl⟩ | hps
        · exact (agrees_concat_iff (hbefore ps List.prefix_rfl) x).1 (h _ List.prefix_rfl)
        · exact ih.1 hbefore ps x hps
      · intro h ps hps
        have hbefore : ∀ ps, ps <+: scancodes → shiftState ps = shiftHeld ps :=
          ih.2 fun ps x hps => h ps x ((hlast ps x).2 (Or.inr hps))
        rcases List.prefix_concat_iff.1 hps with rfl | hps
        · exact (agrees_concat_iff (hbefore _ List.prefix_rfl) scancode).2
            (h scancodes scancode List.prefix_rfl)
        · exact hbefore ps hps

/-- **The shift keys are tracked exactly if neither is ever released while the other one is
held.** -/
theorem tracksShift_iff (scancodes : List UInt8) :
    TracksShift scancodes ↔
      ∀ ps scancode, ps ++ [scancode] <+: scancodes → LetGo ps scancode := by
  rw [← agrees_iff]
  constructor
  · intro h ps hps
    exact (h ps hps).1
  · intro h ps hps
    refine ⟨h ps hps, fun scancode hpress hleft hright => ?_⟩
    -- the translation follows the flag
    rw [h ps hps]
    exact getchar_fst _ hpress hleft hright

/-- **Both shift keys are pressed and the right one is released**: the left one is held, and an `a`
comes out as a small letter. -/
theorem not_tracksShift_overlap :
    ¬ TracksShift [0x2A, 0x36, 0xB6] ∧ held scShiftLeft [0x2A, 0x36, 0xB6] = true ∧
      (getchar (shiftState [0x2A, 0x36, 0xB6]) 0x1E).1 = ascii 'a' := by
  refine ⟨fun h => ?_, by decide, by decide⟩
  exact absurd (h _ List.prefix_rfl).1 (by decide)

end Anaga
