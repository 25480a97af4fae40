/-
**Numbers and formats: `display/display.c`.**

`kprintf` and the three functions that print numbers, as the characters they pass to `kputc`.  The
buffer that a number is converted in has a fixed size, and an argument that was not passed is not
there to be taken, so both can fault.

Main definitions:

* `Anaga.digitLoop` — the loop that fills the buffer of a number;
* `Anaga.kprintNum`, `Anaga.kprintHex`, `Anaga.kprintUlong`, `Anaga.kprintf` — the functions of
  `display/display.h`;
* `Anaga.numeral`, `Anaga.signedNumeral` — the numeral of a number in a base.

Main results:

* `Anaga.digitLoop_eq` — **the buffer holds the digits of the number**;
* `Anaga.kprintNum_eq`, `Anaga.kprintHex_eq`, `Anaga.kprintUlong_eq` — what is printed is the
  numeral;
* `Anaga.kprintf_literal`, `Anaga.kprintf_convert` — a format is printed piece by piece.
-/

import Mathlib.Data.Nat.Digits.Defs
import Anaga.Kernel

set_option relaxedAutoImplicit false
set_option autoImplicit false

namespace Anaga

open Transition

/-! ### Printing numbers -/

/-- A character of the source. -/
def ascii (c : Char) : UInt8 := UInt8.ofNat c.toNat

/-- The loop that fills `buf`, with the room left in it: the characters it stores. -/
def digitLoop (digit : UInt32 → UInt8) (next : UInt32 → UInt32) :
    ℕ → UInt32 → Except Fault (List UInt8)
  | 0, u => if u = 0 then .ok [] else .error .string
  | room + 1, u =>
      if u = 0 then .ok [] else (digit u :: ·) <$> digitLoop digit next room (next u)

/-- `'0' + d`. -/
def decDigit (d : UInt32) : UInt8 := ascii '0' + d.toUInt8

/-- `(d < 10) ? ('0' + d) : ('a' + d - 10)`. -/
def hexDigit (d : UInt32) : UInt8 :=
  if d < 10 then ascii '0' + d.toUInt8 else ascii 'a' + d.toUInt8 - 10

/-- `kprint_num`. -/
def kprintNum (num : UInt32) : Except Fault (List UInt8) :=
  if num = 0 then .ok [ascii '0']
  else if asInt num < 0 then
    (fun buf => ascii '-' :: buf.reverse) <$>
      digitLoop (fun u => decDigit (u % 10)) (· / 10) 12 (UInt32.ofInt (-asInt num))
  else List.reverse <$> digitLoop (fun u => decDigit (u % 10)) (· / 10) 12 num

/-- `kprint_hex`.  An `unsigned long` of the target has 32 bits. -/
def kprintHex (num : UInt32) : Except Fault (List UInt8) :=
  if num = 0 then .ok [ascii '0']
  else List.reverse <$> digitLoop (fun u => hexDigit (u &&& 15)) (· >>> 4) 17 num

/-- `kprint_ulong`. -/
def kprintUlong (num : UInt32) : Except Fault (List UInt8) :=
  if num = 0 then .ok [ascii '0']
  else List.reverse <$> digitLoop (fun u => decDigit (u % 10)) (· / 10) 21 num

/-! ### Formats -/

/-- An argument of `kprintf`: a word, or a pointer into the array that holds a string. -/
inductive Arg
  | word (w : UInt32)
  | str (s : Option (List UInt8))

/-- `va_arg` for a type of 32 bits that is no pointer. -/
def nextWord : List Arg → Except Fault (UInt32 × List Arg)
  | .word w :: args => .ok (w, args)
  | _ => .error .args

/-- `va_arg` for a string. -/
def nextStr : List Arg → Except Fault (Option (List UInt8) × List Arg)
  | .str s :: args => .ok (s, args)
  | _ => .error .args

/-- The `switch` of `kprintf` on the character behind a percent, the case `'l'` apart: what it
prints, and the arguments it leaves. -/
def convert (c : UInt8) (args : List Arg) : Except Fault (List UInt8 × List Arg) :=
  if c = ascii 'c' then
    nextWord args >>= fun (w, args) => .ok ([w.toUInt8], args)
  else if c = ascii 's' then
    nextStr args >>= fun (s, args) =>
    kprint (s.getD (utf8 "(null)" ++ [0])) >>= fun printed => .ok (printed, args)
  else if c = ascii 'd' then
    nextWord args >>= fun (w, args) => kprintNum w >>= fun printed => .ok (printed, args)
  else if c = ascii 'x' then
    nextWord args >>= fun (w, args) => kprintHex w >>= fun printed => .ok (printed, args)
  else if c = ascii '%' then .ok ([ascii '%'], args)
  else .ok ([ascii '%', c], args)

/-- The case `'l'` of that `switch`, with the character behind it. -/
def convertLong (c : UInt8) (args : List Arg) : Except Fault (List UInt8 × List Arg) :=
  if c = ascii 'x' then
    nextWord args >>= fun (w, args) => kprintHex w >>= fun printed => .ok (printed, args)
  else if c = ascii 'u' then
    nextWord args >>= fun (w, args) => kprintUlong w >>= fun printed => .ok (printed, args)
  else if c = ascii 'd' then
    nextWord args >>= fun (w, args) =>
    if asInt w < 0 then
      kprintUlong (-w) >>= fun printed => .ok (ascii '-' :: printed, args)
    else kprintUlong w >>= fun printed => .ok (printed, args)
  else .ok ([], args)

/-- `kprintf`, with the array that holds the format.  The loop goes on behind the character that
follows `%l`, whatever that is. -/
def kprintf : List UInt8 → List Arg → Except Fault (List UInt8)
  | [], _ => .error .string
  | c :: p, args =>
      if c = 0 then .ok []
      else if c ≠ ascii '%' then (c :: ·) <$> kprintf p args
      else
        match p with
        | [] => .error .string
        | c :: p =>
            if c = 0 then .ok []
            else if c = ascii 'l' then
              match p with
              | [] => .error .string
              | c :: p =>
                  convertLong c args >>= fun (printed, args) => (printed ++ ·) <$> kprintf p args
            else convert c args >>= fun (printed, args) => (printed ++ ·) <$> kprintf p args

/-! ### Numerals -/

/-- The numeral of `n` in the given base. -/
def numeral (base : ℕ) (digit : UInt32 → UInt8) (n : ℕ) : List UInt8 :=
  if n = 0 then [ascii '0']
  else ((Nat.digits base n).map fun d => digit (UInt32.ofNat d)).reverse

/-- The decimal numeral of an integer. -/
def signedNumeral (i : ℤ) : List UInt8 :=
  if i < 0 then ascii '-' :: numeral 10 decDigit i.natAbs else numeral 10 decDigit i.natAbs

/-- **The buffer holds the digits of the number, lowest first.** -/
theorem digitLoop_eq {base : ℕ} (hbase : 1 < base) {digit : UInt32 → UInt8}
    {next : UInt32 → UInt32} {char : ℕ → UInt8} (hdigit : ∀ u, digit u = char (u.toNat % base))
    (hnext : ∀ u, (next u).toNat = u.toNat / base) {room : ℕ} {u : UInt32}
    (h : u.toNat < base ^ room) :
    digitLoop digit next room u = .ok ((Nat.digits base u.toNat).map char) := by
  induction room generalizing u with
  | zero =>
      obtain rfl : u = 0 := UInt32.toNat_inj.1 (by simpa using h)
      simp [digitLoop]
  | succ room ih =>
      rw [digitLoop]
      rcases eq_or_ne u 0 with rfl | hu
      · simp
      · have hpos : 0 < u.toNat := Nat.pos_of_ne_zero fun h0 => hu (UInt32.toNat_inj.1 h0)
        -- one digit fewer is left, and one place less of the buffer
        have hlt : (next u).toNat < base ^ room := by
          rw [hnext, Nat.div_lt_iff_lt_mul (by omega), ← pow_succ]
          exact h
        rw [if_neg hu, ih hlt, map_ok, hdigit, hnext, Nat.digits_def' hbase hpos, List.map_cons]

/-- So, printed backwards, it gives the numeral. -/
theorem reverse_digitLoop {base : ℕ} (hbase : 1 < base) {digit stored : UInt32 → UInt8}
    {next : UInt32 → UInt32} (hstored : ∀ u, stored u = digit (UInt32.ofNat (u.toNat % base)))
    (hnext : ∀ u, (next u).toNat = u.toNat / base) {room : ℕ} {u : UInt32} (hu : u ≠ 0)
    (h : u.toNat < base ^ room) :
    List.reverse <$> digitLoop stored next room u = .ok (numeral base digit u.toNat) := by
  have hne : u.toNat ≠ 0 := fun h0 => hu (UInt32.toNat_inj.1 h0)
  have hbuf : digitLoop stored next room u =
      .ok ((Nat.digits base u.toNat).map fun d => digit (UInt32.ofNat d)) :=
    digitLoop_eq hbase hstored hnext h
  rw [hbuf, map_ok, numeral, if_neg hne]

theorem decDigit_mod (u : UInt32) : decDigit (u % 10) = decDigit (UInt32.ofNat (u.toNat % 10)) := by
  congr 1
  rw [← UInt32.toNat_inj, UInt32.toNat_mod, UInt32.toNat_ofNat',
    Nat.mod_eq_of_lt (by omega : u.toNat % 10 < 2 ^ 32)]
  rfl

theorem hexDigit_and (u : UInt32) :
    hexDigit (u &&& 15) = hexDigit (UInt32.ofNat (u.toNat % 16)) := by
  congr 1
  rw [← UInt32.toNat_inj, UInt32.toNat_and, UInt32.toNat_ofNat',
    Nat.mod_eq_of_lt (by omega : u.toNat % 16 < 2 ^ 32)]
  exact Nat.and_two_pow_sub_one_eq_mod u.toNat 4

/-- **`kprint_ulong` prints the decimal numeral of the number.** -/
theorem kprintUlong_eq (w : UInt32) : kprintUlong w = .ok (numeral 10 decDigit w.toNat) := by
  rw [kprintUlong]
  rcases eq_or_ne w 0 with rfl | hw
  · rfl
  · have hlt : w.toNat < 10 ^ 21 := w.toNat_lt.trans (by norm_num)
    rw [if_neg hw]
    exact reverse_digitLoop (by norm_num) decDigit_mod (fun u => UInt32.toNat_div u 10) hw hlt

/-- **`kprint_hex` prints the hexadecimal numeral of the number.** -/
theorem kprintHex_eq (w : UInt32) : kprintHex w = .ok (numeral 16 hexDigit w.toNat) := by
  have hnext : ∀ u : UInt32, (u >>> 4).toNat = u.toNat / 16 := by
    intro u
    rw [UInt32.toNat_shiftRight]
    exact Nat.shiftRight_eq_div_pow u.toNat 4
  rw [kprintHex]
  rcases eq_or_ne w 0 with rfl | hw
  · rfl
  · have hlt : w.toNat < 16 ^ 17 := w.toNat_lt.trans (by norm_num)
    rw [if_neg hw]
    exact reverse_digitLoop (by norm_num) hexDigit_and hnext hw hlt

/-- The cast back of the negated number is its absolute value, also for the least one. -/
theorem toNat_ofInt_neg_asInt {w : UInt32} (h : asInt w < 0) :
    (UInt32.ofInt (-asInt w)).toNat = (asInt w).natAbs := by
  have hlt := w.toNat_lt
  rw [asInt_eq] at h ⊢
  split_ifs at h ⊢ with hsmall
  · omega
  · rw [UInt32.ofInt, UInt32.toNat_ofNat']
    omega

/-- **`kprint_num` prints the decimal numeral of the number.** -/
theorem kprintNum_eq (w : UInt32) : kprintNum w = .ok (signedNumeral (asInt w)) := by
  have hstep : ∀ {u : UInt32}, u ≠ 0 →
      List.reverse <$> digitLoop (fun u => decDigit (u % 10)) (· / 10) 12 u =
        .ok (numeral 10 decDigit u.toNat) := by
    intro u hu
    have hlt : u.toNat < 10 ^ 12 := u.toNat_lt.trans (by norm_num)
    exact reverse_digitLoop (by norm_num) decDigit_mod (fun u => UInt32.toNat_div u 10) hu hlt
  rw [kprintNum, signedNumeral]
  rcases eq_or_ne w 0 with rfl | hw
  · rfl
  · rw [if_neg hw]
    split_ifs with hneg
    · have habs := toNat_ofInt_neg_asInt hneg
      have hne : UInt32.ofInt (-asInt w) ≠ 0 := by
        intro h0
        rw [h0, UInt32.toNat_zero] at habs
        omega
      have hdigits := hstep hne
      obtain ⟨buf, hbuf, hrev⟩ := map_eq_ok.1 hdigits
      rw [hbuf, map_ok, hrev, habs]
    · have hnat : w.toNat = (asInt w).natAbs := by
        have hlt := w.toNat_lt
        rw [asInt_eq] at hneg ⊢
        split_ifs at hneg ⊢ with hsmall <;> omega
      rw [hstep hw, hnat]

/-! ### Formats, piece by piece -/

@[simp] theorem kprintf_zero (p : List UInt8) (args : List Arg) : kprintf (0 :: p) args = .ok [] := by
  rw [kprintf.eq_def]
  exact if_pos rfl

theorem kprintf_of_ne {c : UInt8} (h0 : c ≠ 0) (hpercent : c ≠ ascii '%') (p : List UInt8)
    (args : List Arg) : kprintf (c :: p) args = (c :: ·) <$> kprintf p args := by
  rw [kprintf.eq_def]
  simp only [if_neg h0, if_pos hpercent]

/-- Characters that are neither a NUL nor a percent are printed as they are. -/
theorem kprintf_literal {s : List UInt8} (h0 : 0 ∉ s) (hpercent : ascii '%' ∉ s) (p : List UInt8)
    (args : List Arg) : kprintf (s ++ p) args = (s ++ ·) <$> kprintf p args := by
  induction s with
  | nil =>
      cases hp : kprintf p args with
      | ok printed => rw [List.nil_append, hp, map_ok, List.nil_append]
      | error e => rw [List.nil_append, hp, map_error]
  | cons c s ih =>
      have hc0 : c ≠ 0 := fun h => h0 (h ▸ List.mem_cons_self)
      have hc : c ≠ ascii '%' := fun h => hpercent (h ▸ List.mem_cons_self)
      rw [List.cons_append, kprintf_of_ne hc0 hc,
        ih (fun h => h0 (List.mem_cons_of_mem c h)) fun h => hpercent (List.mem_cons_of_mem c h)]
      cases hp : kprintf p args with
      | ok printed => rfl
      | error e => rfl

/-- A conversion of one letter. -/
theorem kprintf_convert {c : UInt8} {args args' : List Arg} {x : List UInt8} (h0 : c ≠ 0)
    (hl : c ≠ ascii 'l') (hx : convert c args = .ok (x, args')) (p : List UInt8) :
    kprintf (ascii '%' :: c :: p) args = (x ++ ·) <$> kprintf p args' := by
  have hpercent : ascii '%' ≠ 0 := by decide
  rw [kprintf.eq_def]
  simp only [if_neg hpercent, if_neg h0, if_neg hl, ne_eq, not_true_eq_false, if_false, hx, ok_bind]

/-- A format with two conversions. -/
theorem kprintf_two {s t u : List UInt8} {c d : UInt8} {a b : Arg} {x y : List UInt8}
    (hs : 0 ∉ s ∧ ascii '%' ∉ s) (ht : 0 ∉ t ∧ ascii '%' ∉ t) (hu : 0 ∉ u ∧ ascii '%' ∉ u)
    (hc : c ≠ 0 ∧ c ≠ ascii 'l') (hd : d ≠ 0 ∧ d ≠ ascii 'l')
    (hx : convert c [a, b] = .ok (x, [b])) (hy : convert d [b] = .ok (y, [])) :
    kprintf (s ++ ascii '%' :: c :: (t ++ ascii '%' :: d :: (u ++ [0]))) [a, b] =
      .ok (s ++ (x ++ (t ++ (y ++ (u ++ []))))) := by
  rw [kprintf_literal hs.1 hs.2, kprintf_convert hc.1 hc.2 hx, kprintf_literal ht.1 ht.2,
    kprintf_convert hd.1 hd.2 hy, kprintf_literal hu.1 hu.2, kprintf_zero]
  rfl

theorem convert_d (w : UInt32) (args : List Arg) :
    convert (ascii 'd') (.word w :: args) = .ok (signedNumeral (asInt w), args) := by
  change (nextWord _ >>= fun (w, args) => kprintNum w >>= fun printed => .ok (printed, args)) = _
  simp only [nextWord, ok_bind, kprintNum_eq]

theorem convert_x (w : UInt32) (args : List Arg) :
    convert (ascii 'x') (.word w :: args) = .ok (numeral 16 hexDigit w.toNat, args) := by
  change (nextWord _ >>= fun (w, args) => kprintHex w >>= fun printed => .ok (printed, args)) = _
  simp only [nextWord, ok_bind, kprintHex_eq]

end Anaga
