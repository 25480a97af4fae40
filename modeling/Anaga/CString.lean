/-
**The strings of the kernel: `include/string.h`.**

A C string is passed as a pointer into some array, and the functions of `include/string.h` walk
along that array until they meet a NUL or a count runs out.  Here such a pointer is the list of
the bytes from it to the end of the array, and running off the end of the list is a fault, so that
the models of the loops say which bytes they touch.

Main definitions:

* `Anaga.Fault` — the ways in which the modelled code can leave an array;
* `Anaga.CString` — a NUL-terminated string, as passed by a caller;
* `Anaga.strcmp`, `Anaga.strlen`, `Anaga.strncpy`, `Anaga.kprint` — the loops over strings;
* `Anaga.cstr`, `Anaga.Overruns` — the string an array holds, and the strings whose comparison
  with an unterminated array runs off it;
* `Anaga.FillsExactly` — `strncpy` writes the `n` bytes that it should, and no other.

Main results:

* `Anaga.strcmp_of_not_overruns`, `Anaga.strcmp_of_overruns` — comparison, in both cases;
* `Anaga.strncpy_of_length_lt`, `Anaga.strncpy_of_le_length` — what `strncpy` writes: `n` bytes if
  the source is long enough, and **one byte more than `n`** otherwise;
* `Anaga.fillsExactly_iff` — so it fills exactly `n` bytes only from a string that is no shorter.
-/

import Mathlib.Data.List.TakeWhile
import Mathlib.Tactic.NormNum
import Anaga.Transition

set_option relaxedAutoImplicit false
set_option autoImplicit false

namespace Anaga

open Transition

/-- An access outside an array: the inode table, the entries of a directory, the `path` array of
`vfs_pwd`, the data of a file, an array that holds a string, the arguments of `kprintf`, an object
on the stack, the memory that a program can be loaded to, or the cells of the screen. -/
inductive Fault
  | inodeArray
  | dirEntries
  | path
  | data
  | string
  | args
  | stack
  | area
  | vga
deriving DecidableEq, Repr

/-- A NUL-terminated string.  An object of a 32-bit C program has fewer than `2 ^ 31` bytes, and
`strlen` counts them in an `int`. -/
@[ext]
structure CString where
  bytes : List UInt8
  noNul : 0 ∉ bytes
  length_lt : bytes.length < 2 ^ 31

/-- The array that holds the string, with its NUL. -/
def CString.region (s : CString) : List UInt8 := s.bytes ++ [0]

/-- The string that an array holds: its bytes before the first NUL. -/
def cstr (l : List UInt8) : List UInt8 := l.takeWhile (· ≠ 0)

/-- The bytes of a text in UTF-8; for a string literal of the kernel, its ASCII characters. -/
def utf8 (s : String) : List UInt8 := s.toUTF8.data.toList

/-! ### The loops -/

/-- `strcmp`: the difference of the first bytes that differ, or of the two NULs. -/
def strcmp : List UInt8 → List UInt8 → Except Fault ℤ
  | [], _ => .error .string
  | _ :: _, [] => .error .string
  | a :: s₁, b :: s₂ =>
      if a ≠ 0 ∧ a = b then strcmp s₁ s₂ else .ok ((a.toNat : ℤ) - (b.toNat : ℤ))

/-- `strlen`. -/
def strlen : List UInt8 → Except Fault ℕ
  | [] => .error .string
  | c :: s => if c = 0 then .ok 0 else (· + 1) <$> strlen s

/-- The second loop of `strncpy`, `while (n--) *dest++ = '\0'`. -/
def strncpyFill : ℕ → List UInt8 → Except Fault (List UInt8)
  | 0, dest => .ok dest
  | _ + 1, [] => .error .string
  | n + 1, _ :: dest => (0 :: ·) <$> strncpyFill n dest

/-- `strncpy`: the bytes of `dest` afterwards.  The first loop leaves `n` as it is when it copies
the NUL, so the second one then writes `n` more zeros behind it. -/
def strncpy : List UInt8 → List UInt8 → ℕ → Except Fault (List UInt8)
  | dest, _, 0 => .ok dest
  | [], _, _ + 1 => .error .string
  | _ :: _, [], _ + 1 => .error .string
  | _ :: dest, c :: src, n + 1 =>
      if c = 0 then (0 :: ·) <$> strncpyFill (n + 1) dest else (c :: ·) <$> strncpy dest src n

/-- `kprint`: the characters it passes to `kputc`. -/
def kprint : List UInt8 → Except Fault (List UInt8)
  | [] => .error .string
  | c :: s => if c = 0 then .ok [] else (c :: ·) <$> kprint s

/-! ### Strings in arrays -/

@[simp] theorem cstr_nil : cstr [] = [] := rfl

theorem cstr_cons (a : UInt8) (l : List UInt8) :
    cstr (a :: l) = if a = 0 then [] else a :: cstr l := by
  by_cases h : a = 0 <;> simp [cstr, h]

theorem noNul_cstr (l : List UInt8) : 0 ∉ cstr l := by
  intro h
  simpa using List.mem_takeWhile_imp h

theorem length_cstr_le (l : List UInt8) : (cstr l).length ≤ l.length :=
  (List.takeWhile_prefix _).length_le

/-- A string followed by a NUL is the string that the array holds. -/
theorem cstr_append_zero {s : List UInt8} (hs : 0 ∉ s) (t : List UInt8) :
    cstr (s ++ 0 :: t) = s := by
  induction s with
  | nil => rfl
  | cons a s ih =>
      have ha : a ≠ 0 := fun h => hs (h ▸ List.mem_cons_self)
      rw [List.cons_append, cstr_cons, if_neg ha, ih fun h => hs (List.mem_cons_of_mem a h)]

@[simp] theorem CString.cstr_region (s : CString) : cstr s.region = s.bytes :=
  cstr_append_zero s.noNul []

theorem CString.zero_mem_region (s : CString) : (0 : UInt8) ∈ s.region := by
  simp [CString.region]

/-! ### What the loops compute -/

/-- A comparison of the array `l` with the string `s` runs off `l`. -/
def Overruns (l s : List UInt8) : Prop := 0 ∉ l ∧ l <+: s

instance (l s : List UInt8) : Decidable (Overruns l s) :=
  inferInstanceAs (Decidable (_ ∧ _))

theorem not_overruns_of_zero_mem {l : List UInt8} (h : 0 ∈ l) (s : List UInt8) :
    ¬ Overruns l s := fun ho => ho.1 h

theorem overruns_cons {a b : UInt8} {l s : List UInt8} :
    Overruns (a :: l) (b :: s) ↔ a ≠ 0 ∧ a = b ∧ Overruns l s := by
  simp only [Overruns, List.mem_cons, not_or, List.cons_prefix_cons, ne_eq, eq_comm (a := (0 : UInt8))]
  constructor
  · rintro ⟨⟨ha, hl⟩, hab, hp⟩
    exact ⟨ha, hab, hl, hp⟩
  · rintro ⟨ha, hab, hl, hp⟩
    exact ⟨⟨ha, hl⟩, hab, hp⟩

theorem strcmp_of_overruns {l s : List UInt8} (h : Overruns l s) (t : List UInt8) :
    strcmp l (s ++ t) = .error .string := by
  induction l generalizing s with
  | nil => rw [strcmp]
  | cons a l ih =>
      cases s with
      | nil => exact absurd h.2 (by simp)
      | cons b s =>
          obtain ⟨ha, rfl, hl⟩ := overruns_cons.1 h
          rw [List.cons_append, strcmp, if_pos ⟨ha, rfl⟩, ih hl]

/-- Unless it runs off the array, a comparison tells whether the array holds the string. -/
theorem strcmp_of_not_overruns {l s : List UInt8} (hs : 0 ∉ s) (h : ¬ Overruns l s) :
    ∃ r, strcmp l (s ++ [0]) = .ok r ∧ (r = 0 ↔ cstr l = s) := by
  induction l generalizing s with
  | nil => exact absurd ⟨by simp, List.nil_prefix⟩ h
  | cons a l ih =>
      cases s with
      | nil =>
          refine ⟨(a.toNat : ℤ) - 0, ?_, ?_⟩
          · rw [List.nil_append, strcmp, if_neg fun hab => hab.1 hab.2]
            rfl
          · rw [cstr_cons]
            by_cases ha : a = 0
            · simp [ha]
            · have hne : a.toNat ≠ 0 := fun h => ha (UInt8.toNat_inj.1 h)
              simp [ha, hne]
      | cons b s =>
          have hb : b ≠ 0 := fun h => hs (h ▸ List.mem_cons_self)
          by_cases hab : a ≠ 0 ∧ a = b
          · obtain ⟨ha, rfl⟩ := hab
            obtain ⟨r, hr, hr0⟩ := ih (fun h => hs (List.mem_cons_of_mem a h))
              fun ho => h (overruns_cons.2 ⟨ha, rfl, ho⟩)
            refine ⟨r, by rw [List.cons_append, strcmp, if_pos ⟨ha, rfl⟩, hr], ?_⟩
            rw [hr0, cstr_cons, if_neg ha]
            simp
          · refine ⟨(a.toNat : ℤ) - (b.toNat : ℤ), by rw [List.cons_append, strcmp, if_neg hab], ?_⟩
            have hne : a ≠ b := fun he => hab ⟨he ▸ hb, he⟩
            have hne' : a.toNat ≠ b.toNat := fun he => hne (UInt8.toNat_inj.1 he)
            rw [cstr_cons]
            by_cases ha : a = 0
            · rw [if_pos ha]
              simp only [List.nil_eq, reduceCtorEq, iff_false]
              omega
            · rw [if_neg ha]
              simp only [List.cons.injEq, hne, false_and, iff_false]
              omega

/-- Comparing two strings tells whether they are equal. -/
theorem strcmp_region (s t : CString) :
    ∃ r, strcmp s.region t.region = .ok r ∧ (r = 0 ↔ s.bytes = t.bytes) := by
  obtain ⟨r, hr, hr0⟩ := strcmp_of_not_overruns t.noNul
    (not_overruns_of_zero_mem s.zero_mem_region t.bytes)
  exact ⟨r, hr, by rw [hr0, s.cstr_region]⟩

/-- An array with a NUL is the string it holds, the NUL and the rest. -/
theorem exists_eq_cstr_append {l : List UInt8} (h : 0 ∈ l) : ∃ rest, l = cstr l ++ 0 :: rest := by
  induction l with
  | nil => simp at h
  | cons a l ih =>
      rw [cstr_cons]
      rcases eq_or_ne a 0 with rfl | ha
      · exact ⟨l, by rw [if_pos rfl]; rfl⟩
      · obtain ⟨rest, hrest⟩ := ih (by simpa [ha.symm] using h)
        refine ⟨rest, ?_⟩
        rw [if_neg ha, List.cons_append, ← hrest]

/-- What stands behind the NUL of the second string does not matter. -/
theorem strcmp_append_zero (l : List UInt8) {s : List UInt8} (hs : 0 ∉ s) (rest : List UInt8) :
    strcmp l (s ++ 0 :: rest) = strcmp l (s ++ [0]) := by
  induction l generalizing s with
  | nil => rw [strcmp, strcmp]
  | cons a l ih =>
      cases s with
      | nil =>
          rw [List.nil_append, List.nil_append, strcmp, strcmp,
            if_neg fun hab => hab.1 hab.2, if_neg fun hab => hab.1 hab.2]
      | cons b s =>
          rw [List.cons_append, List.cons_append, strcmp, strcmp,
            ih fun h => hs (List.mem_cons_of_mem b h)]

/-- Comparing two arrays with NULs tells whether they hold the same string. -/
theorem strcmp_of_zero_mem {l l' : List UInt8} (h : 0 ∈ l) (h' : 0 ∈ l') :
    ∃ r, strcmp l l' = .ok r ∧ (r = 0 ↔ cstr l = cstr l') := by
  obtain ⟨rest, hrest⟩ := exists_eq_cstr_append h'
  obtain ⟨r, hr, hr0⟩ := strcmp_of_not_overruns (noNul_cstr l')
    (not_overruns_of_zero_mem h (cstr l'))
  refine ⟨r, ?_, hr0⟩
  rw [hrest, strcmp_append_zero l (noNul_cstr l') rest, hr]

@[simp] theorem strlen_append_zero {s : List UInt8} (hs : 0 ∉ s) :
    strlen (s ++ [0]) = .ok s.length := by
  induction s with
  | nil => rfl
  | cons a s ih =>
      have ha : a ≠ 0 := fun h => hs (h ▸ List.mem_cons_self)
      rw [List.cons_append, strlen, if_neg ha, ih fun h => hs (List.mem_cons_of_mem a h), map_ok,
        List.length_cons]

theorem kprint_of_zero_mem {l : List UInt8} (h : 0 ∈ l) : kprint l = .ok (cstr l) := by
  induction l with
  | nil => simp at h
  | cons a l ih =>
      rw [kprint, cstr_cons]
      by_cases ha : a = 0
      · rw [if_pos ha, if_pos ha]
      · rw [if_neg ha, if_neg ha, ih (by simpa [Ne.symm ha] using h), map_ok]

/-- Strings of the source are printed. -/
theorem exists_kprint (s : List UInt8) : ∃ printed, kprint (s ++ [0]) = .ok printed :=
  ⟨_, kprint_of_zero_mem (List.mem_append_right s (List.mem_singleton_self 0))⟩

theorem kprint_of_zero_not_mem {l : List UInt8} (h : 0 ∉ l) : kprint l = .error .string := by
  induction l with
  | nil => rfl
  | cons a l ih =>
      have ha : a ≠ 0 := fun e => h (e ▸ List.mem_cons_self)
      rw [kprint, if_neg ha, ih fun hm => h (List.mem_cons_of_mem a hm), map_error]

/-! ### What `strncpy` writes -/

theorem strncpyFill_of_le {n : ℕ} {dest : List UInt8} (h : n ≤ dest.length) :
    strncpyFill n dest = .ok (List.replicate n 0 ++ dest.drop n) := by
  induction n generalizing dest with
  | zero => rfl
  | succ n ih =>
      cases dest with
      | nil => simp at h
      | cons a dest =>
          rw [strncpyFill, ih (by simpa using h), map_ok, List.replicate_succ]
          rfl

/-- A source of at least `n` bytes: its first `n` bytes are copied, and no NUL. -/
theorem strncpy_of_le_length {n : ℕ} {dest src : List UInt8} (hs : 0 ∉ src) (h : n ≤ src.length)
    (hd : n ≤ dest.length) (t : List UInt8) :
    strncpy dest (src ++ t) n = .ok (src.take n ++ dest.drop n) := by
  induction n generalizing dest src with
  | zero => cases dest <;> rfl
  | succ n ih =>
      match dest, src with
      | [], _ => simp at hd
      | _ :: _, [] => simp at h
      | a :: dest, c :: src =>
          have hc : c ≠ 0 := fun e => hs (e ▸ List.mem_cons_self)
          rw [List.cons_append, strncpy, if_neg hc,
            ih (fun hm => hs (List.mem_cons_of_mem c hm)) (by simpa using h) (by simpa using hd),
            map_ok]
          rfl

/-- A source of fewer than `n` bytes: it is copied and padded with zeros, to `n + 1` bytes. -/
theorem strncpy_of_length_lt {n : ℕ} {dest src : List UInt8} (hs : 0 ∉ src) (h : src.length < n)
    (hd : n < dest.length) :
    strncpy dest (src ++ [0]) n =
      .ok (src ++ List.replicate (n + 1 - src.length) 0 ++ dest.drop (n + 1)) := by
  induction n generalizing dest src with
  | zero => simp at h
  | succ n ih =>
      match dest, src with
      | [], _ => simp at hd
      | a :: dest, [] =>
          have hd' : n + 1 ≤ dest.length := by rw [List.length_cons] at hd; omega
          rw [List.nil_append, strncpy, if_pos rfl, strncpyFill_of_le hd', map_ok]
          rfl
      | a :: dest, c :: src =>
          have hc : c ≠ 0 := fun e => hs (e ▸ List.mem_cons_self)
          rw [List.cons_append, strncpy, if_neg hc,
            ih (fun hm => hs (List.mem_cons_of_mem c hm)) (by simpa using h) (by simpa using hd),
            map_ok]
          simp

/-- `strncpy` stores `n` bytes, those of the string and then zeros, and no byte behind them: in
every array that has room for the `n` bytes, and whatever there is behind the NUL of the source. -/
def FillsExactly (src : List UInt8) (n : ℕ) : Prop :=
  ∀ dest rest : List UInt8, n ≤ dest.length →
    strncpy dest (src ++ 0 :: rest) n =
      .ok (src.take n ++ List.replicate (n - src.length) 0 ++ dest.drop n)

/-- **`strncpy` fills exactly `n` bytes only from a string of at least `n` bytes.** -/
theorem fillsExactly_iff (src : CString) (n : ℕ) :
    FillsExactly src.bytes n ↔ n ≤ src.bytes.length := by
  constructor
  · intro h
    by_contra hlt
    rw [not_le] at hlt
    -- the byte behind the `n` bytes is not zero, and becomes zero
    have hlen : (List.replicate (n + 1) (1 : UInt8)).length = n + 1 := List.length_replicate
    have hfill := h (List.replicate (n + 1) 1) [] (by omega)
    rw [strncpy_of_length_lt src.noNul hlt (by omega)] at hfill
    have hout := congrArg (·[n]?) (Except.ok.inj hfill)
    simp [List.getElem?_append, not_lt.2 hlt.le, hlt.le, Nat.sub_lt_sub_right] at hout
  · intro h dest rest hdest
    rw [strncpy_of_le_length src.noNul h hdest, Nat.sub_eq_zero_of_le h, List.replicate_zero,
      List.append_nil]

/-- One character into an array of two bytes: the call stores three. -/
theorem not_fillsExactly_short :
    strncpy [1, 1] [97, 0] 2 = .error .string ∧ ¬ FillsExactly [97] 2 := by
  have hrun : strncpy [1, 1] [97, 0] 2 = .error .string := rfl
  refine ⟨hrun, fun h => ?_⟩
  have hfill : strncpy [1, 1] [97, 0] 2 = .ok _ := h [1, 1] [] le_rfl
  exact nomatch hrun.symm.trans hfill

end Anaga
