/-
**What a format says, and what `kprintf` makes of it.**

A format is a sequence of pieces: characters that are printed as they are, and conversions behind
a percent, of one letter or of an `l` and a letter.  It can also end in the middle of a
conversion.  With the pieces one can say what a format asks for and what it prints, without
following the pointer of the loop.  `kprintf` does so up to the conversions that begin with `%l`:
there it steps over whatever comes next, be it the NUL.

Main definitions:

* `Anaga.Piece`, `Anaga.pieces` — the pieces of a format;
* `Anaga.Conversion`, `Anaga.Conversion.text` — the conversions, and what they make of a value;
* `Anaga.output` — what a format prints with the values it asks for, and no others;
* `Anaga.Follows`, `Anaga.FollowsFormat` — `kprintf` prints that, reads nothing behind the NUL, and
  takes exactly these values.

Main results:

* `Anaga.follows_of_complete` — a format whose long conversions are complete is followed;
* `Anaga.noLonger_pieces` — of any other, less is printed;
* `Anaga.followsFormat_iff` — **so a format is followed exactly if `%l` is always followed by `x`,
  `u` or `d`**.
-/

import Anaga.Printing

set_option relaxedAutoImplicit false
set_option autoImplicit false

namespace Anaga

open Transition

/-! ### Formats -/

/-- A piece of a format. -/
inductive Piece
  | literal (c : UInt8)
  /-- A percent and a character other than `l`. -/
  | short (c : UInt8)
  /-- A percent, an `l` and a character. -/
  | long (c : UInt8)
  /-- The format ends behind a percent. -/
  | cut
  /-- The format ends behind a percent and an `l`. -/
  | cutLong
deriving DecidableEq

/-- The pieces of a format. -/
def pieces : List UInt8 → List Piece
  | [] => []
  | c :: s =>
      if c ≠ ascii '%' then .literal c :: pieces s
      else
        match s with
        | [] => [.cut]
        | c :: s =>
            if c ≠ ascii 'l' then .short c :: pieces s
            else
              match s with
              | [] => [.cutLong]
              | c :: s => .long c :: pieces s

/-- The conversions that take a value. -/
inductive Conversion
  | char
  | string
  | int
  | hex
  | longHex
  | longUnsigned
  | longInt

/-- The text of a value, if it has the type that the conversion asks for.  A string is in an array
that holds a NUL, or it is `NULL`. -/
def Conversion.text : Conversion → Arg → Option (List UInt8)
  | .char, .word w => some [w.toUInt8]
  | .string, .str none => some (utf8 "(null)")
  | .string, .str (some l) => if 0 ∈ l then some (cstr l) else none
  | .int, .word w => some (sign (asInt w) ++ decimal.write (asInt w).natAbs)
  | .hex, .word w => some (hexadecimal.write w.toNat)
  | .longHex, .word w => some (hexadecimal.write w.toNat)
  | .longUnsigned, .word w => some (decimal.write w.toNat)
  | .longInt, .word w => some (sign (asInt w) ++ decimal.write (asInt w).natAbs)
  | _, _ => none

/-- The conversion that a piece is. -/
def Piece.conversion : Piece → Option Conversion
  | .short c =>
      if c = ascii 'c' then some .char
      else if c = ascii 's' then some .string
      else if c = ascii 'd' then some .int
      else if c = ascii 'x' then some .hex else none
  | .long c =>
      if c = ascii 'x' then some .longHex
      else if c = ascii 'u' then some .longUnsigned
      else if c = ascii 'd' then some .longInt else none
  | _ => none

/-- What a piece prints that takes no value: `%%` is one percent, and an unknown conversion is
echoed with its percent. -/
def Piece.echo : Piece → List UInt8
  | .literal c => [c]
  | .short c => if c = ascii '%' then [ascii '%'] else [ascii '%', c]
  | .long c => [ascii '%', ascii 'l', c]
  | .cut => []
  | .cutLong => []

/-- What the pieces print, if the values are exactly those that they ask for. -/
def output : List Piece → List Arg → Option (List UInt8)
  | [], [] => some []
  | [], _ :: _ => none
  | p :: ps, args =>
      match p.conversion with
      | none => (output ps args).map (p.echo ++ ·)
      | some k =>
          match args with
          | [] => none
          | a :: args => (k.text a).bind fun x => (output ps args).map (x ++ ·)

/-- `kprintf` on the array does what the pieces say: with the values they ask for it prints their
output, whatever other values are passed, and with fewer it goes on to take one that was not
passed. -/
structure Follows (array : List UInt8) (ps : List Piece) : Prop where
  prints : ∀ args out, output ps args = some out → ∀ extra,
    kprintf array (args ++ extra) = .ok out
  takes : ∀ args out, output ps args = some out → ∀ fewer, fewer <+: args → fewer ≠ args →
    kprintf array fewer = .error .args

/-- `kprintf` follows the format, whatever lies behind its NUL. -/
def FollowsFormat (s : List UInt8) : Prop := ∀ rest, Follows (s ++ 0 :: rest) (pieces s)

/-- A long conversion is one of `%lx`, `%lu` and `%ld`. -/
def Piece.Complete : Piece → Prop
  | .long c => c = ascii 'x' ∨ c = ascii 'u' ∨ c = ascii 'd'
  | .cutLong => False
  | _ => True

instance : (p : Piece) → Decidable p.Complete
  | .long c => inferInstanceAs (Decidable (c = ascii 'x' ∨ c = ascii 'u' ∨ c = ascii 'd'))
  | .cutLong => .isFalse id
  | .literal _ | .short _ | .cut => .isTrue trivial

theorem Piece.complete_long (c : UInt8) :
    (Piece.long c).Complete ↔ c = ascii 'x' ∨ c = ascii 'u' ∨ c = ascii 'd' :=
  Iff.rfl

/-! ### One piece -/

/-- The part `f` of `kprintf` does what the piece says. -/
structure Piece.RunsAs (p : Piece) (f : List Arg → Except Fault (List UInt8 × List Arg)) : Prop where
  echo : p.conversion = none → ∀ args, f args = .ok (p.echo, args)
  missing : ∀ k, p.conversion = some k → f [] = .error .args
  value : ∀ k a x args, p.conversion = some k → k.text a = some x → f (a :: args) = .ok (x, args)

theorem literal_runsAs (c : UInt8) : (Piece.literal c).RunsAs fun args => .ok ([c], args) where
  echo := fun _ _ => rfl
  missing := fun _ hk => absurd hk (Option.some_ne_none _).symm
  value := fun _ _ _ _ hk => absurd hk (Option.some_ne_none _).symm

/-- A conversion that takes a word. -/
theorem word_runsAs {p : Piece} {k : Conversion} {t : UInt32 → List UInt8}
    {f : List Arg → Except Fault (List UInt8 × List Arg)} (hp : p.conversion = some k)
    (htext : ∀ w, k.text (.word w) = some (t w)) (hstr : ∀ s, k.text (.str s) = none)
    (hnil : f [] = .error .args) (hword : ∀ w args, f (.word w :: args) = .ok (t w, args)) :
    p.RunsAs f where
  echo := by
    intro hnone
    exact absurd (hp.symm.trans hnone) (Option.some_ne_none k)
  missing := fun _ _ => hnil
  value := by
    intro k' a x args hk hx
    obtain rfl : k = k' := Option.some.inj (hp.symm.trans hk)
    cases a with
    | word w =>
        obtain rfl : t w = x := Option.some.inj ((htext w).symm.trans hx)
        exact hword w args
    | str s => exact absurd ((hstr s).symm.trans hx).symm (Option.some_ne_none x)

/-- The conversion that takes a string. -/
theorem string_runsAs : (Piece.short (ascii 's')).RunsAs (convert (ascii 's')) where
  echo := fun hnone => absurd hnone (by decide)
  missing := fun _ _ => rfl
  value := by
    intro k a x args hk hx
    obtain rfl : Conversion.string = k := Option.some.inj hk
    cases a with
    | word w => exact absurd hx.symm (Option.some_ne_none x)
    | str s =>
        cases s with
        | none =>
            obtain rfl : utf8 "(null)" = x := Option.some.inj hx
            rfl
        | some l =>
            rw [Conversion.text] at hx
            split_ifs at hx with hl
            obtain rfl : cstr l = x := Option.some.inj hx
            change (kprint l >>= fun printed => .ok (printed, args)) = _
            rw [kprint_of_zero_mem hl, ok_bind]

/-- **The conversions of one letter do what they say.** -/
theorem convert_runsAs (c : UInt8) : (Piece.short c).RunsAs (convert c) := by
  by_cases hc : c = ascii 'c'
  · subst hc
    exact word_runsAs (k := .char) rfl (fun _ => rfl) (fun _ => rfl) rfl fun _ _ => rfl
  by_cases hs : c = ascii 's'
  · subst hs
    exact string_runsAs
  by_cases hd : c = ascii 'd'
  · subst hd
    refine word_runsAs (k := .int) rfl (fun _ => rfl) (fun _ => rfl) rfl fun w args => ?_
    rw [convert_d, signedNumeral_eq]
  by_cases hx : c = ascii 'x'
  · subst hx
    refine word_runsAs (k := .hex) rfl (fun _ => rfl) (fun _ => rfl) rfl fun w args => ?_
    rw [convert_x, numeral_hexadecimal]
  -- the others take no value
  have hnone : (Piece.short c).conversion = none := by
    rw [Piece.conversion, if_neg hc, if_neg hs, if_neg hd, if_neg hx]
  refine ⟨fun _ args => ?_, fun k hk => ?_, fun k a x args hk => ?_⟩
  · rw [convert, if_neg hc, if_neg hs, if_neg hd, if_neg hx, Piece.echo]
    split_ifs
    · rfl
    · rfl
  · exact absurd (hnone.symm.trans hk) (Option.some_ne_none k).symm
  · exact absurd (hnone.symm.trans hk) (Option.some_ne_none k).symm

/-- `-v`, as an `unsigned long`, is the absolute value. -/
theorem toNat_neg_of_asInt_neg {w : UInt32} (h : asInt w < 0) :
    (-w).toNat = (asInt w).natAbs := by
  have hlt := w.toNat_lt
  rw [asInt_eq] at h ⊢
  split_ifs at h ⊢ with hsmall
  · omega
  · have hsize : UInt32.size = 2 ^ 32 := rfl
    rw [UInt32.toNat_neg, hsize]
    omega

theorem convertLong_d (w : UInt32) (args : List Arg) :
    convertLong (ascii 'd') (.word w :: args) =
      .ok (sign (asInt w) ++ decimal.write (asInt w).natAbs, args) := by
  change (if asInt w < 0 then
      kprintUlong (-w) >>= fun printed => .ok (ascii '-' :: printed, args)
    else kprintUlong w >>= fun printed => .ok (printed, args)) = _
  rw [sign, kprintUlong_eq, kprintUlong_eq, ok_bind, ok_bind, numeral_decimal, numeral_decimal]
  split_ifs with hneg
  · rw [toNat_neg_of_asInt_neg hneg]
    rfl
  · have hnat : w.toNat = (asInt w).natAbs := by
      have hlt := w.toNat_lt
      rw [asInt_eq] at hneg ⊢
      split_ifs at hneg ⊢ with hsmall <;> omega
    rw [hnat]
    rfl

/-- **So do the long conversions that are complete.** -/
theorem convertLong_runsAs {c : UInt8} (h : (Piece.long c).Complete) :
    (Piece.long c).RunsAs (convertLong c) := by
  rcases h with rfl | rfl | rfl
  · refine word_runsAs (k := .longHex) rfl (fun _ => rfl) (fun _ => rfl) rfl fun w args => ?_
    change (kprintHex w >>= fun printed => .ok (printed, args)) = _
    rw [kprintHex_eq, ok_bind, numeral_hexadecimal]
  · refine word_runsAs (k := .longUnsigned) rfl (fun _ => rfl) (fun _ => rfl) rfl
      fun w args => ?_
    change (kprintUlong w >>= fun printed => .ok (printed, args)) = _
    rw [kprintUlong_eq, ok_bind, numeral_decimal]
  · exact word_runsAs (k := .longInt) rfl (fun _ => rfl) (fun _ => rfl) rfl convertLong_d

/-- The others print nothing and take no value. -/
theorem convertLong_of_not_complete {c : UInt8} (h : ¬ (Piece.long c).Complete) (args : List Arg) :
    convertLong c args = .ok ([], args) ∧ (Piece.long c).conversion = none := by
  rw [Piece.complete_long, not_or, not_or] at h
  obtain ⟨hx, hu, hd⟩ := h
  constructor
  · rw [convertLong, if_neg hx, if_neg hu, if_neg hd]
  · rw [Piece.conversion, if_neg hx, if_neg hu, if_neg hd]

/-! ### Piece by piece -/

theorem kprintf_short {c : UInt8} (h0 : c ≠ 0) (hl : c ≠ ascii 'l') (q : List UInt8)
    (args : List Arg) : kprintf (ascii '%' :: c :: q) args =
      convert c args >>= fun (printed, args) => (printed ++ ·) <$> kprintf q args := by
  rw [kprintf.eq_def]
  have hpercent : ascii '%' ≠ 0 := by decide
  simp only [if_neg hpercent, ne_eq, not_true_eq_false, if_false, if_neg h0, if_neg hl]

theorem kprintf_long (c : UInt8) (q : List UInt8) (args : List Arg) :
    kprintf (ascii '%' :: ascii 'l' :: c :: q) args =
      convertLong c args >>= fun (printed, args) => (printed ++ ·) <$> kprintf q args := by
  rw [kprintf.eq_def]
  have hpercent : ascii '%' ≠ 0 := by decide
  have hl : ascii 'l' ≠ 0 := by decide
  simp only [if_neg hpercent, ne_eq, not_true_eq_false, if_false, if_neg hl, if_true]

section Cons

variable {p : Piece} {ps : List Piece} {f : List Arg → Except Fault (List UInt8 × List Arg)}
  {array q : List UInt8}

theorem output_of_none (hp : p.conversion = none) (args : List Arg) :
    output (p :: ps) args = (output ps args).map (p.echo ++ ·) := by
  rw [output, hp]

theorem output_of_some {k : Conversion} (hp : p.conversion = some k) {args : List Arg}
    {out : List UInt8} (h : output (p :: ps) args = some out) :
    ∃ a args' x out', args = a :: args' ∧ k.text a = some x ∧ output ps args' = some out' ∧
      out = x ++ out' := by
  rw [output, hp] at h
  cases args with
  | nil => exact absurd h.symm (Option.some_ne_none out)
  | cons a args' =>
      obtain ⟨x, hx, hrest⟩ := Option.bind_eq_some_iff.1 h
      obtain ⟨out', hout, rfl⟩ := Option.map_eq_some_iff.1 hrest
      exact ⟨a, args', x, out', rfl, hx, hout, rfl⟩

/-- **A piece that is run as it says is followed if what comes behind it is.** -/
theorem Follows.cons (hf : p.RunsAs f)
    (hk : ∀ args, kprintf array args =
      f args >>= fun (printed, args) => (printed ++ ·) <$> kprintf q args)
    (h : Follows q ps) : Follows array (p :: ps) := by
  cases hp : p.conversion with
  | none =>
      constructor
      · intro args out hout extra
        rw [output_of_none hp] at hout
        obtain ⟨out', hout', rfl⟩ := Option.map_eq_some_iff.1 hout
        rw [hk, hf.echo hp, ok_bind]
        dsimp only
        rw [h.prints args out' hout', map_ok]
      · intro args out hout fewer hpre hne
        rw [output_of_none hp] at hout
        obtain ⟨out', hout', -⟩ := Option.map_eq_some_iff.1 hout
        rw [hk, hf.echo hp, ok_bind]
        dsimp only
        rw [h.takes args out' hout' fewer hpre hne, map_error]
  | some k =>
      constructor
      · intro args out hout extra
        obtain ⟨a, args', x, out', rfl, hx, hout', rfl⟩ := output_of_some hp hout
        rw [hk, List.cons_append, hf.value k a x _ hp hx, ok_bind]
        dsimp only
        rw [h.prints args' out' hout', map_ok]
      · intro args out hout fewer hpre hne
        obtain ⟨a, args', x, out', rfl, hx, hout', -⟩ := output_of_some hp hout
        cases fewer with
        | nil => rw [hk, hf.missing k hp, error_bind]
        | cons b fewer =>
            obtain ⟨rfl, hpre'⟩ := List.cons_prefix_cons.1 hpre
            have hne' : fewer ≠ args' := fun he => hne (by rw [he])
            rw [hk, hf.value k b x _ hp hx, ok_bind]
            dsimp only
            rw [h.takes args' out' hout' fewer hpre' hne', map_error]

/-- The end of the format, where nothing is asked for. -/
theorem Follows.stop (hps : ∀ args, output ps args = output [] args)
    (hk : ∀ args, kprintf array args = .ok []) : Follows array ps := by
  constructor
  · intro args out hout extra
    rw [hps] at hout
    cases args with
    | nil =>
        obtain rfl : [] = out := Option.some.inj hout
        exact hk _
    | cons a args => exact absurd hout.symm (Option.some_ne_none out)
  · intro args out hout fewer hpre hne
    rw [hps] at hout
    cases args with
    | nil => exact absurd (List.prefix_nil.1 hpre) hne
    | cons a args => exact absurd hout.symm (Option.some_ne_none out)

/-- What `kprintf` prints for the array is not longer than what the pieces say, and as long only
if their long conversions are complete. -/
def NoLonger (array : List UInt8) (ps : List Piece) : Prop :=
  ∀ args o out, kprintf array args = .ok o → output ps args = some out →
    o.length ≤ out.length ∧ (o.length = out.length → ∀ p ∈ ps, p.Complete)

theorem NoLonger.cons (hc : p.Complete) (hf : p.RunsAs f)
    (hk : ∀ args, kprintf array args =
      f args >>= fun (printed, args) => (printed ++ ·) <$> kprintf q args)
    (h : NoLonger q ps) : NoLonger array (p :: ps) := by
  intro args o out ho hout
  -- what the piece prints is the same on both sides
  have hsame : ∃ x o' out', (∃ args', kprintf q args' = .ok o' ∧ output ps args' = some out') ∧
      o = x ++ o' ∧ out = x ++ out' := by
    rw [hk] at ho
    cases hp : p.conversion with
    | none =>
        rw [output_of_none hp] at hout
        obtain ⟨out', hout', rfl⟩ := Option.map_eq_some_iff.1 hout
        rw [hf.echo hp, ok_bind] at ho
        obtain ⟨o', ho', rfl⟩ := map_eq_ok.1 ho
        exact ⟨p.echo, o', out', ⟨args, ho', hout'⟩, rfl, rfl⟩
    | some k =>
        obtain ⟨a, args', x, out', rfl, hx, hout', rfl⟩ := output_of_some hp hout
        rw [hf.value k a x _ hp hx, ok_bind] at ho
        obtain ⟨o', ho', rfl⟩ := map_eq_ok.1 ho
        exact ⟨x, o', out', ⟨args', ho', hout'⟩, rfl, rfl⟩
  obtain ⟨x, o', out', ⟨args', ho', hout'⟩, rfl, rfl⟩ := hsame
  obtain ⟨hle, hall⟩ := h args' o' out' ho' hout'
  simp only [List.length_append]
  refine ⟨by omega, fun heq => List.forall_mem_cons.2 ⟨hc, hall (by omega)⟩⟩

end Cons

/-- **A format whose long conversions are complete is followed.** -/
theorem follows_of_complete {s : List UInt8} (hs : 0 ∉ s) (h : ∀ p ∈ pieces s, p.Complete)
    (rest : List UInt8) : Follows (s ++ 0 :: rest) (pieces s) := by
  fun_induction pieces s with
  | case1 => exact Follows.stop (fun _ => rfl) fun args => kprintf_zero rest args
  | case2 c s hc ih =>
      have hc0 : c ≠ 0 := fun he => hs (he ▸ List.mem_cons_self)
      obtain ⟨-, hps⟩ := List.forall_mem_cons.1 h
      refine Follows.cons (literal_runsAs c) (fun args => ?_)
        (ih (fun h0 => hs (List.mem_cons_of_mem c h0)) hps)
      rw [List.cons_append, kprintf_of_ne hc0 hc]
      rfl
  | case3 c hc =>
      obtain rfl : c = ascii '%' := not_not.1 hc
      refine Follows.stop (fun args => ?_) fun args => ?_
      · cases args with
        | nil => rfl
        | cons a args => rfl
      · rw [kprintf.eq_def]
        rfl
  | case4 c hc d s hl ih =>
      obtain rfl : c = ascii '%' := not_not.1 hc
      have hd0 : d ≠ 0 := fun he => hs (he ▸ List.mem_cons_of_mem _ List.mem_cons_self)
      obtain ⟨-, hps⟩ := List.forall_mem_cons.1 h
      exact Follows.cons (convert_runsAs d) (fun args => kprintf_short hd0 hl _ args)
        (ih (fun h0 => hs (List.mem_cons_of_mem _ (List.mem_cons_of_mem d h0))) hps)
  | case5 c hc d hl => exact absurd (h .cutLong List.mem_cons_self) id
  | case6 c hc d hl e s ih =>
      obtain rfl : c = ascii '%' := not_not.1 hc
      obtain rfl : d = ascii 'l' := not_not.1 hl
      obtain ⟨hcomplete, hps⟩ := List.forall_mem_cons.1 h
      have hs' : 0 ∉ s := fun h0 =>
        hs (List.mem_cons_of_mem _ (List.mem_cons_of_mem _ (List.mem_cons_of_mem e h0)))
      exact Follows.cons (convertLong_runsAs hcomplete) (fun args => kprintf_long e _ args)
        (ih hs' hps)

/-- **Of any other format, less is printed**, if printing ends at all. -/
theorem noLonger_pieces {s : List UInt8} (hs : 0 ∉ s) : NoLonger (s ++ [0]) (pieces s) := by
  fun_induction pieces s with
  | case1 =>
      intro args o out ho hout
      obtain rfl : [] = o := Except.ok.inj ((kprintf_zero [] args).symm.trans ho)
      exact ⟨Nat.zero_le _, fun _ p hp => absurd hp List.not_mem_nil⟩
  | case2 c s hc ih =>
      have hc0 : c ≠ 0 := fun he => hs (he ▸ List.mem_cons_self)
      refine NoLonger.cons trivial (literal_runsAs c) (fun args => ?_)
        (ih fun h0 => hs (List.mem_cons_of_mem c h0))
      rw [List.cons_append, kprintf_of_ne hc0 hc]
      rfl
  | case3 c hc =>
      intro args o out ho hout
      obtain rfl : c = ascii '%' := not_not.1 hc
      rw [kprintf.eq_def] at ho
      obtain rfl : [] = o := Except.ok.inj ho
      refine ⟨Nat.zero_le _, fun _ p hp => ?_⟩
      rw [List.mem_singleton.1 hp]
      trivial
  | case4 c hc d s hl ih =>
      obtain rfl : c = ascii '%' := not_not.1 hc
      have hd0 : d ≠ 0 := fun he => hs (he ▸ List.mem_cons_of_mem _ List.mem_cons_self)
      exact NoLonger.cons trivial (convert_runsAs d) (fun args => kprintf_short hd0 hl _ args)
        (ih fun h0 => hs (List.mem_cons_of_mem _ (List.mem_cons_of_mem d h0)))
  | case5 c hc d hl =>
      -- the loop steps over the NUL and reads on
      intro args o out ho hout
      obtain rfl : c = ascii '%' := not_not.1 hc
      obtain rfl : d = ascii 'l' := not_not.1 hl
      rw [List.cons_append, List.cons_append, List.nil_append, kprintf_long] at ho
      cases ho
  | case6 c hc d hl e s ih =>
      obtain rfl : c = ascii '%' := not_not.1 hc
      obtain rfl : d = ascii 'l' := not_not.1 hl
      have hs' : 0 ∉ s := fun h0 =>
        hs (List.mem_cons_of_mem _ (List.mem_cons_of_mem _ (List.mem_cons_of_mem e h0)))
      by_cases hcomplete : (Piece.long e).Complete
      · exact NoLonger.cons hcomplete (convertLong_runsAs hcomplete)
          (fun args => kprintf_long e _ args) (ih hs')
      · intro args o out ho hout
        obtain ⟨hnothing, hp⟩ := convertLong_of_not_complete hcomplete args
        rw [output_of_none hp] at hout
        obtain ⟨out', hout', rfl⟩ := Option.map_eq_some_iff.1 hout
        rw [List.cons_append, List.cons_append, List.cons_append, kprintf_long, hnothing,
          ok_bind] at ho
        obtain ⟨o', ho', rfl⟩ := map_eq_ok.1 ho
        have hle := (ih hs' args o' out' ho' hout').1
        simp only [List.nil_append, List.length_append, Piece.echo, List.length_cons,
          List.length_nil]
        exact ⟨by omega, fun heq => by omega⟩

/-! ### Formats that are followed -/

/-- Every conversion has a value that it can print. -/
theorem exists_text (k : Conversion) : ∃ a x, k.text a = some x := by
  cases k with
  | string => exact ⟨.str none, _, rfl⟩
  | _ => exact ⟨.word 0, _, rfl⟩

/-- The values that the conversions of the pieces can print have an output. -/
theorem exists_output_of_text {ps : List Piece} {args : List Arg}
    (h : List.Forall₂ (fun k a => ∃ x, Conversion.text k a = some x)
      (ps.filterMap Piece.conversion) args) : ∃ out, output ps args = some out := by
  induction ps generalizing args with
  | nil =>
      obtain rfl : args = [] := by simpa using h
      exact ⟨[], rfl⟩
  | cons p ps ih =>
      cases hp : p.conversion with
      | none =>
          rw [List.filterMap_cons_none hp] at h
          obtain ⟨out, hout⟩ := ih h
          exact ⟨p.echo ++ out, by rw [output_of_none hp, hout, Option.map_some]⟩
      | some k =>
          rw [List.filterMap_cons_some hp] at h
          cases h with
          | cons ha hargs =>
              obtain ⟨x, hx⟩ := ha
              obtain ⟨out, hout⟩ := ih hargs
              refine ⟨x ++ out, ?_⟩
              rw [output, hp]
              dsimp only
              rw [hx, Option.bind_some, hout, Option.map_some]

/-- Every format can be given values. -/
theorem exists_output (ps : List Piece) : ∃ args out, output ps args = some out := by
  choose sample hsample using exists_text
  refine ⟨(ps.filterMap Piece.conversion).map sample, exists_output_of_text ?_⟩
  rw [List.forall₂_map_right_iff, List.forall₂_same]
  exact fun k _ => hsample k

/-- A complete format is printed with such values, whatever other values are passed. -/
theorem kprintf_of_text_append {s : List UInt8} (hs : 0 ∉ s) (hc : ∀ p ∈ pieces s, p.Complete)
    {args : List Arg}
    (h : List.Forall₂ (fun k a => ∃ x, Conversion.text k a = some x)
      ((pieces s).filterMap Piece.conversion) args) (extra : List Arg) :
    ∃ printed, kprintf (s ++ [0]) (args ++ extra) = .ok printed := by
  obtain ⟨out, hout⟩ := exists_output_of_text h
  exact ⟨out, (follows_of_complete hs hc []).prints _ _ hout extra⟩

/-- A complete format is printed with such values. -/
theorem kprintf_of_text {s : List UInt8} (hs : 0 ∉ s) (hc : ∀ p ∈ pieces s, p.Complete)
    {args : List Arg}
    (h : List.Forall₂ (fun k a => ∃ x, Conversion.text k a = some x)
      ((pieces s).filterMap Piece.conversion) args) :
    ∃ printed, kprintf (s ++ [0]) args = .ok printed := by
  have hrun := kprintf_of_text_append hs hc h []
  rwa [List.append_nil] at hrun

/-- A complete format without strings is printed with words, if there are enough of them. -/
theorem kprintf_words (words : List UInt32) {s : List UInt8} (hs : 0 ∉ s)
    (hc : ∀ p ∈ pieces s, p.Complete)
    (hk : ∀ k ∈ (pieces s).filterMap Piece.conversion, (Conversion.text k (.word 0)).isSome)
    (hlen : ((pieces s).filterMap Piece.conversion).length ≤ words.length) :
    ∃ printed, kprintf (s ++ [0]) (words.map .word) = .ok printed := by
  set ks := (pieces s).filterMap Piece.conversion with hks
  have htext (k : Conversion) (h : (k.text (.word 0)).isSome) (w : UInt32) :
      ∃ x, k.text (.word w) = some x := by
    cases k with
    | string => cases h
    | _ => exact ⟨_, rfl⟩
  have hargs : List.Forall₂ (fun k a => ∃ x, Conversion.text k a = some x) ks
      ((words.take ks.length).map .word) := by
    refine List.forall₂_iff_get.2 ⟨by simp [hlen], fun i hi _ => ?_⟩
    simp only [List.get_eq_getElem, List.getElem_map]
    exact htext _ (hk _ (List.getElem_mem hi)) _
  have hrun := kprintf_of_text_append hs hc hargs ((words.drop ks.length).map .word)
  rwa [← List.map_append, List.take_append_drop] at hrun

/-- **`kprintf` follows a format exactly if `%l` is always followed by `x`, `u` or `d`.** -/
theorem followsFormat_iff {s : List UInt8} (hs : 0 ∉ s) :
    FollowsFormat s ↔ ∀ p ∈ pieces s, p.Complete := by
  constructor
  · intro h
    obtain ⟨args, out, hout⟩ := exists_output (pieces s)
    have hrun := (h []).prints args out hout []
    rw [List.append_nil] at hrun
    exact (noLonger_pieces hs args out out hrun hout).2 rfl
  · intro h rest
    exact follows_of_complete hs h rest

/-- A format with a long conversion, a percent and an unknown conversion. -/
theorem followsFormat_long : FollowsFormat (utf8 "%ld%%%q") :=
  (followsFormat_iff (by decide)).2 (by decide)

/-- **A format that ends behind `%l` is not followed**: what lies behind its NUL is printed. -/
theorem not_followsFormat_cut :
    0 ∉ utf8 "100%l" ∧ ¬ FollowsFormat (utf8 "100%l") ∧
      kprintf (utf8 "100%l" ++ 0 :: utf8 "key" ++ [0]) [] = .ok (utf8 "100key") := by
  refine ⟨by decide, fun h => ?_, by decide⟩
  have hrun := (h []).prints [] (utf8 "100") (by decide) []
  exact absurd hrun (by decide)

end Anaga
