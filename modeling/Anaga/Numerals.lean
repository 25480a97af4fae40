/-
**Positional numerals.**

A numeral is a list of characters that stand for digits, highest first.  Reading it gives a number,
and every number has exactly one numeral that is not empty and has no superfluous zero in front.
The characters are those of any alphabet in which every digit has its own.

Main definitions:

* `Numerals.Alphabet` — the characters of the digits in a base;
* `Numerals.Alphabet.read` — the number that a numeral stands for;
* `Numerals.Alphabet.Canonical` — the numeral is not empty, and has no leading zero;
* `Numerals.Alphabet.write` — the canonical numeral of a number.

Main results:

* `Numerals.Alphabet.read_write` — what is written is read back;
* `Numerals.Alphabet.canonical_write` — it is canonical;
* `Numerals.Alphabet.eq_write_iff` — **there is no other canonical numeral of the number**.
-/

import Mathlib.Data.Nat.Digits.Lemmas

set_option relaxedAutoImplicit false
set_option autoImplicit false

namespace Numerals

universe u

/-- The characters of the digits in a base, and what a character is a digit of. -/
structure Alphabet (α : Type u) (base : ℕ) where
  digit : ℕ → α
  value : α → Option ℕ
  one_lt : 1 < base
  value_digit : ∀ d < base, value (digit d) = some d
  digit_value : ∀ c d, value c = some d → d < base ∧ digit d = c

namespace Alphabet

variable {α : Type u} {base : ℕ} (A : Alphabet α base)

/-- The digits of a list of characters, if all of them are digits. -/
def values : List α → Option (List ℕ)
  | [] => some []
  | c :: l => (A.value c).bind fun d => (values l).map (d :: ·)

/-- The number that a numeral stands for. -/
def read (l : List α) : Option ℕ := (A.values l).map fun ds => Nat.ofDigits base ds.reverse

/-- A numeral that is not empty and has no zero in front, unless it is that of zero. -/
structure Canonical (l : List α) : Prop where
  isSome : (A.values l).isSome
  ne_nil : l ≠ []
  lead : l.head? = some (A.digit 0) → l = [A.digit 0]

/-- The numeral of a number. -/
def write (n : ℕ) : List α :=
  if n = 0 then [A.digit 0] else ((Nat.digits base n).map A.digit).reverse

/-! ### Reading digits -/

variable {A}

theorem values_map {ds : List ℕ} (h : ∀ d ∈ ds, d < base) :
    A.values (ds.map A.digit) = some ds := by
  induction ds with
  | nil => rfl
  | cons d ds ih =>
      have hd : A.value (A.digit d) = some d := A.value_digit d (h d List.mem_cons_self)
      have hds := ih fun e he => h e (List.mem_cons_of_mem d he)
      simp only [List.map_cons, values, hd, hds, Option.bind_some, Option.map_some]

/-- A list of characters is the digits that it is read as. -/
theorem of_values {l : List α} {ds : List ℕ} (h : A.values l = some ds) :
    (∀ d ∈ ds, d < base) ∧ l = ds.map A.digit := by
  induction l generalizing ds with
  | nil =>
      obtain rfl : [] = ds := Option.some.inj h
      exact ⟨fun d hd => absurd hd List.not_mem_nil, rfl⟩
  | cons c l ih =>
      obtain ⟨d, hc, hl⟩ := Option.bind_eq_some_iff.1 h
      obtain ⟨es, hes, rfl⟩ := Option.map_eq_some_iff.1 hl
      obtain ⟨hlt, rfl⟩ := ih hes
      obtain ⟨hd, rfl⟩ := A.digit_value c d hc
      exact ⟨List.forall_mem_cons.2 ⟨hd, hlt⟩, rfl⟩

/-! ### Writing and reading -/

variable (A)

include A in
theorem zero_lt_base : 0 < base := Nat.zero_lt_of_lt A.one_lt

theorem values_write (n : ℕ) :
    A.values (A.write n) = some (if n = 0 then [0] else (Nat.digits base n).reverse) := by
  rw [write]
  split_ifs with hn
  · have hzero : ∀ d ∈ [0], d < base := by
      intro d hd
      rw [List.mem_singleton.1 hd]
      exact A.zero_lt_base
    exact values_map hzero
  · rw [← List.map_reverse]
    refine values_map fun d hd => ?_
    exact Nat.digits_lt_base A.one_lt (List.mem_reverse.1 hd)

/-- **A number is read back from its numeral.** -/
theorem read_write (n : ℕ) : A.read (A.write n) = some n := by
  rw [read, values_write, Option.map_some]
  split_ifs with hn
  · simp [hn]
  · rw [List.reverse_reverse, Nat.ofDigits_digits]

/-- The first digit of the numeral of a positive number is not zero. -/
theorem head?_write {n : ℕ} (hn : n ≠ 0) :
    ∃ d, d ≠ 0 ∧ d < base ∧ (A.write n).head? = some (A.digit d) := by
  have hne : Nat.digits base n ≠ [] := Nat.digits_ne_nil_iff_ne_zero.2 hn
  refine ⟨(Nat.digits base n).getLast hne, Nat.getLast_digit_ne_zero base hn,
    Nat.digits_lt_base A.one_lt (List.getLast_mem hne), ?_⟩
  rw [write, if_neg hn, List.head?_reverse, List.getLast?_map,
    List.getLast?_eq_some_getLast hne, Option.map_some]

/-- **The numeral of a number is canonical.** -/
theorem canonical_write (n : ℕ) : A.Canonical (A.write n) where
  isSome := by rw [values_write, Option.isSome_some]
  ne_nil := by
    rw [write]
    split_ifs with hn
    · exact List.cons_ne_nil _ _
    · rw [Ne, List.reverse_eq_nil_iff, List.map_eq_nil_iff]
      exact Nat.digits_ne_nil_iff_ne_zero.2 hn
  lead := by
    intro hlead
    by_cases hn : n = 0
    · rw [write, if_pos hn]
    · obtain ⟨d, hd, hlt, hhead⟩ := A.head?_write hn
      have hsame : A.digit d = A.digit 0 := Option.some.inj (hhead.symm.trans hlead)
      have hvalue := A.value_digit d hlt
      rw [hsame, A.value_digit 0 A.zero_lt_base] at hvalue
      exact absurd (Option.some.inj hvalue).symm hd

/-- A number below a power of the base has that many digits at most. -/
theorem length_write_le {n places : ℕ} (hn : n < base ^ places) (hpos : 0 < places) :
    (A.write n).length ≤ places := by
  rw [write]
  split_ifs
  · exact hpos
  · rw [List.length_reverse, List.length_map]
    exact (Nat.digits_length_le_iff A.one_lt n).2 hn

/-- **A number has no other canonical numeral.** -/
theorem eq_write_of_read {l : List α} {n : ℕ} (hl : A.Canonical l) (h : A.read l = some n) :
    l = A.write n := by
  obtain ⟨ds, hds, rfl⟩ := Option.map_eq_some_iff.1 h
  obtain ⟨hlt, rfl⟩ := of_values hds
  by_cases hzero : ds.head? = some 0
  · -- a zero in front is the whole numeral
    have hlead : (ds.map A.digit).head? = some (A.digit 0) := by
      rw [List.head?_map, hzero, Option.map_some]
    have hone := hl.lead hlead
    have hlen : ds.length = 1 := by simpa using congrArg List.length hone
    obtain ⟨d, rfl⟩ := List.length_eq_one_iff.1 hlen
    obtain rfl : d = 0 := by simpa using hzero
    simp [write]
  · have hnil : ds ≠ [] := fun he => hl.ne_nil (by rw [he, List.map_nil])
    have hrev : ds.reverse ≠ [] := fun he => hnil (List.reverse_eq_nil_iff.1 he)
    have hdigits : Nat.digits base (Nat.ofDigits base ds.reverse) = ds.reverse := by
      refine Nat.digits_ofDigits base A.one_lt _ (fun d hd => hlt d (List.mem_reverse.1 hd)) ?_
      intro hne hlast
      rw [List.getLast_reverse] at hlast
      exact hzero (by rw [← hlast, List.head?_eq_some_head])
    have hpos : Nat.ofDigits base ds.reverse ≠ 0 := by
      intro he
      rw [he, Nat.digits_zero] at hdigits
      exact hrev hdigits.symm
    rw [write, if_neg hpos, hdigits, List.map_reverse, List.reverse_reverse]

/-- **The canonical numeral of a number is the one that is written.** -/
theorem eq_write_iff {l : List α} {n : ℕ} :
    l = A.write n ↔ A.Canonical l ∧ A.read l = some n := by
  constructor
  · rintro rfl
    exact ⟨A.canonical_write n, A.read_write n⟩
  · rintro ⟨hl, h⟩
    exact A.eq_write_of_read hl h

end Alphabet

end Numerals
