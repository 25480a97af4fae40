/-
**Numbers are printed exactly.**

What the three functions of `display/display.c` print is the canonical numeral of their argument:
nothing but digits, a minus sign in front exactly if the number is negative, and no leading zero.
The decimal and the hexadecimal alphabet are those of the numerals as everybody reads them, not
those of the source.

Main definitions:

* `Anaga.decimal`, `Anaga.hexadecimal` — the two alphabets;
* `Anaga.sign`, `Anaga.readInt` — the minus sign, and reading a numeral that may have one.

Main results:

* `Anaga.numeral_eq_write` — the numerals of the source are canonical ones;
* `Anaga.printed_numerals` — **what is printed is the canonical numeral, it reads back as the
  number, and it fits into the buffer**.
-/

import Anaga.Display
import Anaga.Numerals

set_option relaxedAutoImplicit false
set_option autoImplicit false

namespace Anaga

open Transition

/-! ### Alphabets -/

/-- The decimal digits `0` to `9`. -/
def decimal : Numerals.Alphabet UInt8 10 where
  digit d := UInt8.ofNat (48 + d)
  value c := if 48 ≤ c.toNat ∧ c.toNat < 58 then some (c.toNat - 48) else none
  one_lt := by decide
  value_digit := by decide
  digit_value := by
    intro c d h
    split_ifs at h with hc
    obtain rfl : c.toNat - 48 = d := Option.some.inj h
    refine ⟨by omega, ?_⟩
    rw [Nat.add_sub_cancel' hc.1, UInt8.ofNat_toNat]

/-- The hexadecimal digits `0` to `9` and `a` to `f`. -/
def hexadecimal : Numerals.Alphabet UInt8 16 where
  digit d := if d < 10 then UInt8.ofNat (48 + d) else UInt8.ofNat (87 + d)
  value c :=
    if 48 ≤ c.toNat ∧ c.toNat < 58 then some (c.toNat - 48)
    else if 97 ≤ c.toNat ∧ c.toNat < 103 then some (c.toNat - 87) else none
  one_lt := by decide
  value_digit := by decide
  digit_value := by
    intro c d h
    split_ifs at h with hc hl
    · obtain rfl : c.toNat - 48 = d := Option.some.inj h
      refine ⟨by omega, ?_⟩
      rw [if_pos (by omega), Nat.add_sub_cancel' hc.1, UInt8.ofNat_toNat]
    · obtain rfl : c.toNat - 87 = d := Option.some.inj h
      refine ⟨by omega, ?_⟩
      rw [if_neg (by omega), Nat.add_sub_cancel' (by omega), UInt8.ofNat_toNat]

/-- A minus sign, for negative numbers only. -/
def sign (i : ℤ) : List UInt8 := if i < 0 then [ascii '-'] else []

/-- The number that a decimal numeral with or without a minus sign stands for. -/
def readInt : List UInt8 → Option ℤ
  | [] => none
  | c :: l =>
      if c = ascii '-' then (decimal.read l).map fun n : ℕ => -(n : ℤ)
      else (decimal.read (c :: l)).map fun n : ℕ => (n : ℤ)

/-! ### The numerals of the source -/

/-- The numeral that the source prints is the canonical one, if its digits are those of the
alphabet. -/
theorem numeral_eq_write {base : ℕ} (A : Numerals.Alphabet UInt8 base) {digit : UInt32 → UInt8}
    (hdigit : ∀ d < base, digit (UInt32.ofNat d) = A.digit d) (hzero : A.digit 0 = ascii '0')
    (n : ℕ) : numeral base digit n = A.write n := by
  rw [numeral, Numerals.Alphabet.write, hzero]
  split_ifs with hn
  · rfl
  · refine congrArg List.reverse (List.map_congr_left fun d hd => ?_)
    exact hdigit d (Nat.digits_lt_base A.one_lt hd)

theorem decDigit_ofNat : ∀ d < 10, decDigit (UInt32.ofNat d) = decimal.digit d := by decide

theorem hexDigit_ofNat : ∀ d < 16, hexDigit (UInt32.ofNat d) = hexadecimal.digit d := by decide

theorem numeral_decimal (n : ℕ) : numeral 10 decDigit n = decimal.write n :=
  numeral_eq_write decimal decDigit_ofNat rfl n

theorem numeral_hexadecimal (n : ℕ) : numeral 16 hexDigit n = hexadecimal.write n :=
  numeral_eq_write hexadecimal hexDigit_ofNat rfl n

theorem signedNumeral_eq (i : ℤ) : signedNumeral i = sign i ++ decimal.write i.natAbs := by
  rw [signedNumeral, sign, numeral_decimal]
  split_ifs
  · rfl
  · rfl

/-! ### Reading them back -/

/-- A minus sign is no digit. -/
theorem readInt_of_canonical {l : List UInt8} (hl : decimal.Canonical l) :
    readInt l = (decimal.read l).map fun n : ℕ => (n : ℤ) := by
  cases l with
  | nil => exact absurd rfl hl.ne_nil
  | cons c l =>
      have hc : c ≠ ascii '-' := by
        rintro rfl
        exact Bool.false_ne_true hl.isSome
      rw [readInt, if_neg hc]

theorem readInt_sign (i : ℤ) : readInt (sign i ++ decimal.write i.natAbs) = some i := by
  rw [sign]
  split_ifs with hneg
  · rw [List.singleton_append, readInt, if_pos rfl, decimal.read_write, Option.map_some]
    exact congrArg some (by omega)
  · rw [List.nil_append, readInt_of_canonical (decimal.canonical_write _), decimal.read_write,
      Option.map_some]
    exact congrArg some (by omega)

/-- **Numbers are printed exactly**: `kprint_num`, `kprint_ulong` and `kprint_hex` print the one
canonical numeral of the number, with a minus sign in front of negative numbers only, the whole
reads back as the number, and the digits fit into the buffer. -/
theorem printed_numerals (w : UInt32) :
    (∃ ds, kprintNum w = .ok (sign (asInt w) ++ ds) ∧ ds.length ≤ 12 ∧
      readInt (sign (asInt w) ++ ds) = some (asInt w) ∧
      ∀ l, l = ds ↔ decimal.Canonical l ∧ decimal.read l = some (asInt w).natAbs) ∧
    (∃ ds, kprintUlong w = .ok ds ∧ ds.length ≤ 21 ∧
      ∀ l, l = ds ↔ decimal.Canonical l ∧ decimal.read l = some w.toNat) ∧
    ∃ ds, kprintHex w = .ok ds ∧ ds.length ≤ 17 ∧
      ∀ l, l = ds ↔ hexadecimal.Canonical l ∧ hexadecimal.read l = some w.toNat := by
  have hw := w.toNat_lt
  have habs : (asInt w).natAbs < 10 ^ 12 := by
    rw [asInt_eq]
    split_ifs <;> omega
  refine ⟨⟨decimal.write (asInt w).natAbs, ?_, decimal.length_write_le habs (by decide),
      readInt_sign _, fun l => decimal.eq_write_iff⟩,
    ⟨decimal.write w.toNat, ?_, decimal.length_write_le (hw.trans (by norm_num)) (by decide),
      fun l => decimal.eq_write_iff⟩,
    ⟨hexadecimal.write w.toNat, ?_,
      hexadecimal.length_write_le (hw.trans (by norm_num)) (by decide),
      fun l => hexadecimal.eq_write_iff⟩⟩
  · rw [kprintNum_eq, signedNumeral_eq]
  · rw [kprintUlong_eq, numeral_decimal]
  · rw [kprintHex_eq, numeral_hexadecimal]

/-- The least number has a sign and ten digits. -/
example : kprintNum 0x80000000 = .ok (utf8 "-2147483648") := by decide

end Anaga
