/-
**The sleep type of S5: the package behind the name.**

The name `_S5_` in the DSDT is followed by a package: an opcode, the length of the package in one
to four bytes, the number of its elements, and the elements, of which the first is the value for
the power management port.  `acpi_get_s5_sleep_type` returns the byte behind the opcode, which is
the first one of the length.

Main definitions:

* `Anaga.Dsdt.FirstName`, `Anaga.Dsdt.Package` — the first name in the table, and the value of the
  package behind it;
* `Anaga.Decodes` — the function returns that value, or zero without a name;
* `Anaga.Dsdt.LengthIsValue` — the condition for that;
* `Anaga.systemShutdown` — what is done with the value.

Main results:

* `Anaga.acpiGetS5SleepType_of_package` — what the function returns, if there is a package;
* `Anaga.decodes_iff` — **it is the value exactly if the length of the package begins with it**, or
  the search stops too early and the value is zero;
* `Anaga.systemShutdown_of_package` — what is written to the port.
-/

import Anaga.Acpi

set_option relaxedAutoImplicit false
set_option autoImplicit false

namespace Anaga

open Transition

/-! ### Packages -/

namespace Dsdt

variable (t : Dsdt)

/-- The first name in a table of that length is at `o`. -/
def FirstName (length o : ℕ) : Prop :=
  t.Named o ∧ o + 4 ≤ length ∧ ∀ j < o, ¬ t.Named j

/-- The offset of the first element of the package behind a name at `o`.  The two high bits of the
byte behind the opcode are the number of further bytes of the length, and the number of elements
has one byte. -/
def firstElement (o : ℕ) : ℕ := o + 7 + (t.byte (o + 5) >>> 6).toNat

/-- Behind a name at `o` there is a package, its first element is `a`, and the table goes on as far
as that: the element is zero, one, or a prefix and a byte. -/
def Package (length o : ℕ) (a : UInt8) : Prop :=
  t.byte (o + 4) = 0x12 ∧
    ((t.byte (t.firstElement o) = a ∧ (a = 0 ∨ a = 1) ∧ t.firstElement o < length) ∨
      (t.byte (t.firstElement o) = 0x0A ∧ t.byte (t.firstElement o + 1) = a ∧
        t.firstElement o + 1 < length))

/-- What the function returns is the value: a package behind the first name in the table is tried,
and its length begins with the value, or it is not tried, and the value is zero; and without a name
in the table, none behind its end is taken, or only one with a length that begins with zero. -/
def LengthIsValue (length : ℕ) : Prop :=
  (∀ o a, t.FirstName length o → t.Package length o a →
      (o < t.tried.toNat ∧ t.byte (o + 5) = a) ∨ (t.tried.toNat ≤ o ∧ a = 0)) ∧
    ((∀ o, o + 4 ≤ length → ¬ t.Named o) →
      ∀ i < t.tried.toNat, t.Accepts i → (∀ j < i, ¬ t.Accepts j) → t.byte (i + 5) = 0)

end Dsdt

/-- `acpi_get_s5_sleep_type` returns the value of the package behind the first name in the DSDT, and
zero if there is no name. -/
def Decodes (m : Ram) (fadt : UInt32) : Prop :=
  (∀ o a, (dsdtOf m fadt).FirstName (sdtLength m (fadtDsdt m fadt)).toNat o →
      (dsdtOf m fadt).Package (sdtLength m (fadtDsdt m fadt)).toNat o a →
      acpiGetS5SleepType m = a) ∧
    ((∀ o, o + 4 ≤ (sdtLength m (fadtDsdt m fadt)).toNat → ¬ (dsdtOf m fadt).Named o) →
      acpiGetS5SleepType m = 0)

/-! ### What is returned -/

namespace Dsdt

variable {t : Dsdt} {length o : ℕ}

/-- In front of the first name nothing is taken. -/
theorem FirstName.not_accepts (h : t.FirstName length o) {j : ℕ} (hj : j < o) : ¬ t.Accepts j :=
  fun haccepts => h.2.2 j hj haccepts.1

theorem FirstName.unique (h : t.FirstName length o) {o' : ℕ} (h' : t.FirstName length o') :
    o = o' := by
  refine le_antisymm ?_ ?_
  · exact not_lt.1 fun hlt => h.2.2 o' hlt h'.1
  · exact not_lt.1 fun hlt => h'.2.2 o hlt h.1

/-- If there is a name, the condition is about the package behind it. -/
theorem FirstName.lengthIsValue_iff (h : t.FirstName length o) :
    t.LengthIsValue length ↔ ∀ a, t.Package length o a →
      (o < t.tried.toNat ∧ t.byte (o + 5) = a) ∨ (t.tried.toNat ≤ o ∧ a = 0) := by
  constructor
  · intro hvalue a hp
    exact hvalue.1 o a h hp
  · intro hvalue
    refine ⟨fun o' a h' hp => ?_, fun hnone => absurd h.1 (hnone o h.2.1)⟩
    obtain rfl := h.unique h'
    exact hvalue a hp

/-- The loop takes the first name, if it is tried. -/
theorem FirstName.found (h : t.FirstName length o) {a : UInt8} (hp : t.Package length o a) :
    t.s5Loop.found = if o < t.tried.toNat then some (t.byte (o + 5)) else none := by
  split_ifs with ho
  · exact t.s5Loop_found_eq_some_iff.2
      ⟨o, ho, ⟨h.1, Or.inl hp.1⟩, fun j hj => h.not_accepts hj, rfl⟩
  · refine t.s5Loop_found_eq_none_iff.2 fun i hi => h.not_accepts ?_
    omega

end Dsdt

theorem acpiGetS5SleepType_eq {m : Ram} {fadt : UInt32} (hfadt : acpiGetFadt m = some fadt) :
    acpiGetS5SleepType m = (dsdtOf m fadt).s5Loop.found.getD 0 := by
  rw [acpiGetS5SleepType, hfadt]

/-- **The byte behind the opcode is returned.** -/
theorem acpiGetS5SleepType_of_package {m : Ram} {fadt : UInt32} (hfadt : acpiGetFadt m = some fadt)
    {length o : ℕ} {a : UInt8} (h : (dsdtOf m fadt).FirstName length o)
    (hp : (dsdtOf m fadt).Package length o a) :
    acpiGetS5SleepType m =
      if o < (dsdtOf m fadt).tried.toNat then (dsdtOf m fadt).byte (o + 5) else 0 := by
  rw [acpiGetS5SleepType_eq hfadt, h.found hp, apply_ite (Option.getD · 0)]
  rfl

/-- What is returned is zero exactly if every name that could be returned is followed by zero. -/
theorem acpiGetS5SleepType_eq_zero_iff {m : Ram} {fadt : UInt32}
    (hfadt : acpiGetFadt m = some fadt) :
    acpiGetS5SleepType m = 0 ↔
      ∀ i < (dsdtOf m fadt).tried.toNat, (dsdtOf m fadt).Accepts i →
        (∀ j < i, ¬ (dsdtOf m fadt).Accepts j) → (dsdtOf m fadt).byte (i + 5) = 0 := by
  rw [acpiGetS5SleepType_eq hfadt]
  constructor
  · intro hzero i hi haccepts hfirst
    have hfound := (Dsdt.s5Loop_found_eq_some_iff _).2 ⟨i, hi, haccepts, hfirst, rfl⟩
    rwa [hfound] at hzero
  · intro hall
    cases hfound : (dsdtOf m fadt).s5Loop.found with
    | none => rfl
    | some a =>
        obtain ⟨i, hi, haccepts, hfirst, rfl⟩ := (Dsdt.s5Loop_found_eq_some_iff _).1 hfound
        exact hall i hi haccepts hfirst

/-- **The value is returned exactly if the length of the package begins with it**, or is zero and
the name is not tried. -/
theorem decodes_iff {m : Ram} {fadt : UInt32} (hfadt : acpiGetFadt m = some fadt) :
    Decodes m fadt ↔
      (dsdtOf m fadt).LengthIsValue (sdtLength m (fadtDsdt m fadt)).toNat := by
  rw [Decodes, Dsdt.LengthIsValue, acpiGetS5SleepType_eq_zero_iff hfadt]
  refine and_congr_left fun _ => ?_
  refine forall_congr' fun o => forall_congr' fun a => forall_congr' fun h => ?_
  refine forall_congr' fun hp => ?_
  rw [acpiGetS5SleepType_of_package hfadt h hp]
  split_ifs with ho
  · simp only [ho, not_le.2 ho, true_and, false_and, or_false]
  · simp only [ho, not_lt.1 ho, true_and, false_and, false_or]
    exact eq_comm

/-! ### Turning the machine off -/

/-- `SLP_EN`. -/
def slpEn : UInt16 := 0x2000

/-- `system_shutdown`, which halts: the characters it prints, and the words it writes to ports. -/
def systemShutdown (hypervisor : Bool) (m : Ram) :
    Except Fault (List UInt8 × List (UInt16 × UInt16)) :=
  if hypervisor then
    kprint (utf8 "Shutting down...\n" ++ [0]) >>= fun printed =>
    .ok (printed, [(0x604, 0x2000), (0xB004, 0x2000), (0x4004, 0x3400)])
  else
    kprint (utf8 "Shutting down (ACPI)...\n" ++ [0]) >>= fun printed =>
    match acpiGetFadt m with
    | none =>
        kprint (utf8 "ACPI FADT not found, cannot shutdown.\n" ++ [0]) >>= fun message =>
        .ok (printed ++ message, [])
    | some fadt =>
        let pm1aCnt := (fadtPm1aCntBlk m fadt).toUInt16
        let slpTypa := acpiGetS5SleepType m
        if pm1aCnt = 0 ∨ slpTypa = 0 then
          kprint (utf8 "Invalid PM1a_CNT or SLP_TYP, cannot shutdown.\n" ++ [0]) >>= fun message =>
          .ok (printed ++ message, [])
        else .ok (printed, [(pm1aCnt, (slpTypa.toUInt16 <<< 10) ||| slpEn)])

/-- **The length of the package goes to the port.** -/
theorem systemShutdown_of_package {m : Ram} {fadt : UInt32} (hfadt : acpiGetFadt m = some fadt)
    {length o : ℕ} {a : UInt8} (h : (dsdtOf m fadt).FirstName length o)
    (hp : (dsdtOf m fadt).Package length o a) (ho : o < (dsdtOf m fadt).tried.toNat)
    (hport : (fadtPm1aCntBlk m fadt).toUInt16 ≠ 0) (hlength : (dsdtOf m fadt).byte (o + 5) ≠ 0) :
    systemShutdown false m =
      .ok (utf8 "Shutting down (ACPI)...\n",
        [((fadtPm1aCntBlk m fadt).toUInt16,
          (((dsdtOf m fadt).byte (o + 5)).toUInt16 <<< 10) ||| slpEn)]) := by
  have htype := acpiGetS5SleepType_of_package hfadt h hp
  rw [if_pos ho] at htype
  have hzero : 0 ∉ utf8 "Shutting down (ACPI)...\n" := by decide +kernel
  have hprint : kprint (utf8 "Shutting down (ACPI)...\n" ++ [0]) =
      .ok (utf8 "Shutting down (ACPI)...\n") := by
    rw [kprint_of_zero_mem (by simp), cstr_append_zero hzero]
  rw [systemShutdown, if_neg Bool.false_ne_true, hprint, ok_bind, hfadt]
  dsimp only
  rw [htype, if_neg (not_or.2 ⟨hport, hlength⟩)]

/-! ### Two tables -/

/-- The value is five, and eight is returned. -/
theorem not_decodes_five :
    acpiGetFadt (firmware (namedDsdt 5)) = some 0xE2000 ∧
      acpiGetS5SleepType (firmware (namedDsdt 5)) = 8 ∧
      ¬ Decodes (firmware (namedDsdt 5)) 0xE2000 := by
  set m := firmware (namedDsdt 5)
  have hfadt : acpiGetFadt m = some 0xE2000 := acpiGetFadt_firmware (length_namedDsdt 5)
  have hlength : (sdtLength m (fadtDsdt m 0xE2000)).toNat = 64 := by decide +kernel
  have hname : (dsdtOf m 0xE2000).FirstName 64 36 :=
    ⟨by decide +kernel, by decide, by decide +kernel⟩
  have hpackage : (dsdtOf m 0xE2000).Package 64 36 5 :=
    ⟨by decide +kernel, Or.inr ⟨by decide +kernel, by decide +kernel, by decide +kernel⟩⟩
  have htype : acpiGetS5SleepType m = 8 := by
    rw [acpiGetS5SleepType_of_package hfadt hname hpackage]
    decide +kernel
  refine ⟨hfadt, htype, fun h => ?_⟩
  have hfive : acpiGetS5SleepType m = 5 := h.1 36 5 (hlength ▸ hname) (hlength ▸ hpackage)
  exact absurd (htype.symm.trans hfive) (by decide)

/-- The value is eight as well. -/
theorem decodes_eight : Decodes (firmware (namedDsdt 8)) 0xE2000 := by
  set m := firmware (namedDsdt 8)
  have hfadt : acpiGetFadt m = some 0xE2000 := acpiGetFadt_firmware (length_namedDsdt 8)
  have hlength : (sdtLength m (fadtDsdt m 0xE2000)).toNat = 64 := by decide +kernel
  have hname : (dsdtOf m 0xE2000).FirstName 64 36 :=
    ⟨by decide +kernel, by decide, by decide +kernel⟩
  refine (decodes_iff hfadt).2 ?_
  rw [hlength, hname.lengthIsValue_iff]
  rintro a ⟨-, hfirst⟩
  have hbyte : (dsdtOf m 0xE2000).byte ((dsdtOf m 0xE2000).firstElement 36) = 0x0A := by
    decide +kernel
  rcases hfirst with ⟨helement, hsmall, -⟩ | ⟨-, helement, -⟩
  · rw [hbyte] at helement
    subst helement
    exact absurd hsmall (by decide)
  · refine Or.inl ⟨by decide +kernel, ?_⟩
    rw [← helement]
    decide +kernel

end Anaga
