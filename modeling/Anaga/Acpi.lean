/-
**The tables of the firmware: `system/system.c`.**

To turn the machine off, the kernel looks for the root pointer of ACPI in the memory of the BIOS,
follows it to a table of pointers, and one of these to the table FADT, which says where the table
DSDT is; and there it looks for the name `_S5_`.  Lengths and pointers are those that the firmware
has put there.  The number of pointers is a difference of 32 bits, which is huge if the table is
shorter than its own header; and the extent in which the name is looked for is the length of the
FADT, not that of the DSDT.

The functions note which words and bytes of the two tables they read.  Addresses are physical.

Main definitions:

* `Anaga.acpiFindRsdp`, `Anaga.acpiGetFadt`, `Anaga.acpiGetS5SleepType` — the functions of the
  source;
* `Anaga.ReadsInside` — no read of a table is behind its end;
* `Anaga.Dsdt` — the table that is searched, with the extent of the search;
* `Anaga.Dsdt.Fits`, `Anaga.TablesFit` — what memory has to hold for that.

Main results:

* `Anaga.acpiGetFadt_eq_some_iff` — which table is the FADT;
* `Anaga.Dsdt.reads_inside_iff` — when the search stays inside the DSDT;
* `Anaga.readsInside_iff` — **the walks stay inside the tables exactly if the tables fit**.
-/

import Anaga.Display
import Anaga.Heap
import Anaga.Scan

set_option relaxedAutoImplicit false
set_option autoImplicit false

namespace Anaga

open Scan

/-! ### The tables -/

/-- `RSDP_SIGNATURE`. -/
def rsdpSignature : UInt64 := 0x2052545020445352

/-- `FADT_SIGNATURE`. -/
def fadtSignature : UInt32 := 0x50434146

/-- `sizeof(acpi_sdt_header_t)`. -/
def sizeofSdtHeader : UInt32 := 36

/-- `rsdp->RsdtAddress`. -/
def rsdtAddress (m : Ram) (rsdp : UInt32) : UInt32 := loadWord m (rsdp + 16)

/-- `header->Length`. -/
def sdtLength (m : Ram) (header : UInt32) : UInt32 := loadWord m (header + 4)

/-- `fadt->Dsdt`. -/
def fadtDsdt (m : Ram) (fadt : UInt32) : UInt32 := loadWord m (fadt + 40)

/-- `fadt->PM1aCntBlk`. -/
def fadtPm1aCntBlk (m : Ram) (fadt : UInt32) : UInt32 := loadWord m (fadt + 64)

/-- `*(uint64_t*)rsdp->Signature`. -/
def rsdpSignatureAt (m : Ram) (rsdp : UInt32) : UInt64 :=
  (loadWord m rsdp).toUInt64 ||| ((loadWord m (rsdp + 4)).toUInt64 <<< 32)

/-! ### The functions -/

/-- `acpi_find_rsdp`. -/
def acpiFindRsdp (m : Ram) : Option UInt32 :=
  (loop (fun i =>
    let addr : UInt32 := 0x000E0000 + 16 * UInt32.ofNat i
    (⟨[addr], if rsdpSignatureAt m addr = rsdpSignature then some addr else none⟩ :
      Round UInt32 UInt32)) ((0x00100000 - 0x000E0000) / 16)).found

/-- The number of pointers in the table at `rsdt`. -/
def rsdtEntries (m : Ram) (rsdt : UInt32) : UInt32 := (sdtLength m rsdt - sizeofSdtHeader) / 4

/-- Where the pointer `i` of that table is. -/
def rsdtEntryAddr (rsdt : UInt32) (i : ℕ) : UInt32 := rsdt + sizeofSdtHeader + 4 * UInt32.ofNat i

/-- The table that the pointer `i` leads to. -/
def rsdtEntry (m : Ram) (rsdt : UInt32) (i : ℕ) : UInt32 := loadWord m (rsdtEntryAddr rsdt i)

/-- `acpi_get_fadt`, behind the test for the RSDP, with the addresses of the pointers it reads. -/
def fadtLoop (m : Ram) (rsdt : UInt32) : Round UInt32 UInt32 :=
  loop (fun i =>
    let header := rsdtEntry m rsdt i
    ⟨[rsdtEntryAddr rsdt i], if loadWord m header = fadtSignature then some header else none⟩)
    (rsdtEntries m rsdt).toNat

/-- `acpi_get_fadt`. -/
def acpiGetFadt (m : Ram) : Option UInt32 :=
  match acpiFindRsdp m with
  | none => none
  | some rsdp => (fadtLoop m (rsdtAddress m rsdp)).found

/-- The DSDT, and the number of offsets that are tried. -/
structure Dsdt where
  memory : Ram
  start : UInt32
  tried : UInt32

/-- The DSDT of the table at `fadt`.  The source takes the length of that table for the length of
the DSDT. -/
def dsdtOf (m : Ram) (fadt : UInt32) : Dsdt := ⟨m, fadtDsdt m fadt, sdtLength m fadt - 4⟩

/-- `dsdt[i]`. -/
def Dsdt.at (t : Dsdt) (i : UInt32) : UInt8 := t.memory (t.start + i)

/-- A round of the loop of `acpi_get_s5_sleep_type`, with the offsets it reads. -/
def Dsdt.round (t : Dsdt) (i : UInt32) : Round UInt32 UInt8 :=
  if t.at i ≠ ascii '_' then ⟨[i], none⟩
  else if t.at (i + 1) ≠ ascii 'S' then ⟨[i, i + 1], none⟩
  else if t.at (i + 2) ≠ ascii '5' then ⟨[i, i + 1, i + 2], none⟩
  else if t.at (i + 3) ≠ ascii '_' then ⟨[i, i + 1, i + 2, i + 3], none⟩
  else if t.at (i + 4) = 0x12 then ⟨[i, i + 1, i + 2, i + 3, i + 4, i + 5], some (t.at (i + 5))⟩
  else if t.at (i + 5) = 0x12 then ⟨[i, i + 1, i + 2, i + 3, i + 4, i + 5], some (t.at (i + 5))⟩
  else ⟨[i, i + 1, i + 2, i + 3, i + 4, i + 5], none⟩

/-- The loop of `acpi_get_s5_sleep_type`, with the offsets it reads. -/
def Dsdt.s5Loop (t : Dsdt) : Round UInt32 UInt8 := wordLoop t.round t.tried

/-- `acpi_get_s5_sleep_type`. -/
def acpiGetS5SleepType (m : Ram) : UInt8 :=
  match acpiGetFadt m with
  | none => 0
  | some fadt => (dsdtOf m fadt).s5Loop.found.getD 0

/-! ### Staying inside -/

/-- Once there is an RSDP: the pointers are read inside the table they are in, as it states its
length, and the bytes of the DSDT inside the DSDT, as that states its own. -/
def ReadsInside (m : Ram) (rsdp : UInt32) : Prop :=
  (∀ p ∈ (fadtLoop m (rsdtAddress m rsdp)).reads,
      (p - rsdtAddress m rsdp).toNat + 4 ≤ (sdtLength m (rsdtAddress m rsdp)).toNat) ∧
    ∀ fadt, acpiGetFadt m = some fadt →
      ∀ i ∈ (dsdtOf m fadt).s5Loop.reads, i < sdtLength m (fadtDsdt m fadt)

/-- The first of the tables that has the signature of the FADT. -/
def FirstFadt (m : Ram) (rsdt fadt : UInt32) : Prop :=
  ∃ i < (rsdtEntries m rsdt).toNat, rsdtEntry m rsdt i = fadt ∧ loadWord m fadt = fadtSignature ∧
    ∀ j < i, loadWord m (rsdtEntry m rsdt j) ≠ fadtSignature

namespace Dsdt

variable (t : Dsdt)

/-- The byte at an offset. -/
def byte (i : ℕ) : UInt8 := t.at (UInt32.ofNat i)

/-- There is the name `_S5_` at the offset. -/
def Named (i : ℕ) : Prop :=
  t.byte i = ascii '_' ∧ t.byte (i + 1) = ascii 'S' ∧ t.byte (i + 2) = ascii '5' ∧
    t.byte (i + 3) = ascii '_'

/-- A name that the loop takes: the fifth or the sixth byte is that of a package. -/
def Accepts (i : ℕ) : Prop := t.Named i ∧ (t.byte (i + 4) = 0x12 ∨ t.byte (i + 5) = 0x12)

instance (i : ℕ) : Decidable (t.Named i) :=
  inferInstanceAs (Decidable (_ ∧ _ ∧ _ ∧ _))

instance (i : ℕ) : Decidable (t.Accepts i) :=
  inferInstanceAs (Decidable (_ ∧ _))

/-- How far ahead of the offset a round looks: as far as the name goes on, and two bytes behind it
if it is complete. -/
def ahead (i : ℕ) : ℕ :=
  if t.byte i ≠ ascii '_' then 0
  else if t.byte (i + 1) ≠ ascii 'S' then 1
  else if t.byte (i + 2) ≠ ascii '5' then 2
  else if t.byte (i + 3) ≠ ascii '_' then 3 else 5

/-- The table is long enough for the search: either it holds the first name that is taken, with
two bytes behind it, or there is no such name, and no offset is tried from which the table is too
short for the name, as far as it goes on. -/
def Fits (length : ℕ) : Prop :=
  (∃ i < t.tried.toNat, t.Accepts i ∧ (∀ j < i, ¬ t.Accepts j) ∧ i + 5 < length) ∨
    ∀ i < t.tried.toNat, ¬ t.Accepts i ∧ i + t.ahead i < length

end Dsdt

/-- Memory holds tables that the walks stay inside: the table of pointers is not shorter than its
header, and the DSDT is long enough. -/
def TablesFit (m : Ram) (rsdp : UInt32) : Prop :=
  sizeofSdtHeader ≤ sdtLength m (rsdtAddress m rsdp) ∧
    ∀ fadt, FirstFadt m (rsdtAddress m rsdp) fadt →
      (dsdtOf m fadt).Fits (sdtLength m (fadtDsdt m fadt)).toNat

/-! ### The pointers -/

/-- **The FADT is the first table with its signature.** -/
theorem fadtLoop_found_eq_some_iff {m : Ram} {rsdt fadt : UInt32} :
    (fadtLoop m rsdt).found = some fadt ↔ FirstFadt m rsdt fadt := by
  rw [fadtLoop, loop_found_eq_some_iff, FirstFadt]
  simp only [Reached, ite_eq_right_iff, Option.ite_none_right_eq_some, Option.some.injEq,
    reduceCtorEq, imp_false]
  refine exists_congr fun i => and_congr_right fun _ => ?_
  constructor
  · rintro ⟨⟨hsig, rfl⟩, hfirst⟩
    exact ⟨rfl, hsig, hfirst⟩
  · rintro ⟨rfl, hsig, hfirst⟩
    exact ⟨⟨hsig, rfl⟩, hfirst⟩

theorem acpiGetFadt_eq_some_iff {m : Ram} {rsdp fadt : UInt32}
    (hrsdp : acpiFindRsdp m = some rsdp) :
    acpiGetFadt m = some fadt ↔ FirstFadt m (rsdtAddress m rsdp) fadt := by
  rw [acpiGetFadt, hrsdp]
  exact fadtLoop_found_eq_some_iff

theorem mem_fadtLoop_reads {m : Ram} {rsdt p : UInt32} :
    p ∈ (fadtLoop m rsdt).reads ↔ ∃ i < (rsdtEntries m rsdt).toNat,
      (∀ j < i, loadWord m (rsdtEntry m rsdt j) ≠ fadtSignature) ∧ p = rsdtEntryAddr rsdt i := by
  rw [fadtLoop, mem_loop_reads]
  simp only [Reached, ite_eq_right_iff, reduceCtorEq, imp_false, List.mem_singleton]

/-- The offset of a pointer, unless it is behind all addresses. -/
theorem toNat_rsdtEntryAddr_sub (rsdt : UInt32) {i : ℕ} (hi : 36 + 4 * i < 2 ^ 32) :
    (rsdtEntryAddr rsdt i - rsdt).toNat = 36 + 4 * i := by
  have hrsdt := rsdt.toNat_lt
  simp only [rsdtEntryAddr, sizeofSdtHeader, UInt32.toNat_sub, UInt32.toNat_add, UInt32.toNat_mul,
    UInt32.toNat_ofNat', UInt32.reduceToNat]
  omega

/-- **The pointers are read inside their table exactly if it is not shorter than its header.** -/
theorem fadtLoop_reads_inside_iff (m : Ram) (rsdt : UInt32) :
    (∀ p ∈ (fadtLoop m rsdt).reads, (p - rsdt).toNat + 4 ≤ (sdtLength m rsdt).toNat) ↔
      sizeofSdtHeader ≤ sdtLength m rsdt := by
  have hlt := (sdtLength m rsdt).toNat_lt
  have hentries : (rsdtEntries m rsdt).toNat =
      (2 ^ 32 - 36 + (sdtLength m rsdt).toNat) % 2 ^ 32 / 4 := by
    rw [rsdtEntries, UInt32.toNat_div, UInt32.toNat_sub]
    rfl
  rw [UInt32.le_iff_toNat_le]
  change _ ↔ 36 ≤ (sdtLength m rsdt).toNat
  constructor
  · intro h
    by_contra hshort
    -- the difference has wrapped around, so the first pointer is read
    have hfirst := h (rsdtEntryAddr rsdt 0)
      (mem_fadtLoop_reads.2 ⟨0, by omega, fun j hj => absurd hj (Nat.not_lt_zero j), rfl⟩)
    rw [toNat_rsdtEntryAddr_sub rsdt (by omega)] at hfirst
    omega
  · intro hlen p hp
    obtain ⟨i, hi, -, rfl⟩ := mem_fadtLoop_reads.1 hp
    rw [toNat_rsdtEntryAddr_sub rsdt (by omega)]
    omega

/-! ### The name -/

namespace Dsdt

variable (t : Dsdt)

theorem at_add (i k : ℕ) : t.at (UInt32.ofNat i + UInt32.ofNat k) = t.byte (i + k) := by
  rw [byte, UInt32.ofNat_add]

/-- A round, in terms of the bytes behind its offset. -/
theorem round_eq (i : ℕ) :
    t.round (UInt32.ofNat i) =
      ⟨(List.range (t.ahead i + 1)).map fun k => UInt32.ofNat (i + k),
        if t.Accepts i then some (t.byte (i + 5)) else none⟩ := by
  have h0 : t.at (UInt32.ofNat i) = t.byte i := rfl
  have h1 : t.at (UInt32.ofNat i + 1) = t.byte (i + 1) := t.at_add i 1
  have h2 : t.at (UInt32.ofNat i + 2) = t.byte (i + 2) := t.at_add i 2
  have h3 : t.at (UInt32.ofNat i + 3) = t.byte (i + 3) := t.at_add i 3
  have h4 : t.at (UInt32.ofNat i + 4) = t.byte (i + 4) := t.at_add i 4
  have h5 : t.at (UInt32.ofNat i + 5) = t.byte (i + 5) := t.at_add i 5
  rw [round, ahead, h0, h1, h2, h3, h4, h5]
  simp only [Accepts, Named]
  split_ifs with c0 c1 c2 c3 c4 c5 <;> simp_all [List.range_succ, UInt32.ofNat_add]

theorem reached_iff (i : ℕ) :
    Reached (fun i => t.round (UInt32.ofNat i)) i ↔ ∀ j < i, ¬ t.Accepts j := by
  simp only [Reached, round_eq, ite_eq_right_iff, reduceCtorEq, imp_false]

/-- **The loop takes the first name that it can take.** -/
theorem s5Loop_found_eq_some_iff {a : UInt8} :
    t.s5Loop.found = some a ↔
      ∃ i < t.tried.toNat, t.Accepts i ∧ (∀ j < i, ¬ t.Accepts j) ∧ t.byte (i + 5) = a := by
  rw [s5Loop, wordLoop_eq, loop_found_eq_some_iff]
  refine exists_congr fun i => and_congr_right fun _ => ?_
  rw [reached_iff, round_eq, Option.ite_none_right_eq_some, Option.some.injEq, and_assoc,
    and_congr_right_iff]
  exact fun _ => and_comm

theorem s5Loop_found_eq_none_iff :
    t.s5Loop.found = none ↔ ∀ i < t.tried.toNat, ¬ t.Accepts i := by
  rw [s5Loop, wordLoop_eq, loop_found_eq_none_iff, reached_iff]

theorem mem_s5Loop_reads {r : UInt32} :
    r ∈ t.s5Loop.reads ↔ ∃ i < t.tried.toNat, (∀ j < i, ¬ t.Accepts j) ∧
      ∃ k ≤ t.ahead i, UInt32.ofNat (i + k) = r := by
  rw [s5Loop, wordLoop_eq, mem_loop_reads]
  refine exists_congr fun i => and_congr_right fun _ => and_congr (t.reached_iff i) ?_
  simp only [round_eq, List.mem_map, List.mem_range, Nat.lt_succ_iff]

variable {t}

theorem ahead_le (i : ℕ) : t.ahead i ≤ 5 := by
  rw [ahead]
  split_ifs <;> omega

theorem Named.ahead {i : ℕ} (h : t.Named i) : t.ahead i = 5 := by
  obtain ⟨h0, h1, h2, h3⟩ := h
  rw [Dsdt.ahead, if_neg (not_not.2 h0), if_neg (not_not.2 h1), if_neg (not_not.2 h2),
    if_neg (not_not.2 h3)]

/-- Offsets do not get past the end by wrapping around: the last one is not inside. -/
theorem forall_offset_lt_iff {i a : ℕ} (hi : i < 2 ^ 32) (length : UInt32) :
    (∀ k ≤ a, UInt32.ofNat (i + k) < length) ↔ i + a < length.toNat := by
  have hlength := length.toNat_lt
  simp only [UInt32.lt_iff_toNat_lt, UInt32.toNat_ofNat']
  constructor
  · intro h
    rcases Nat.lt_or_ge (i + a) (2 ^ 32) with hlt | hge
    · have hlast := h a le_rfl
      rwa [Nat.mod_eq_of_lt hlt] at hlast
    · have htop := h (2 ^ 32 - 1 - i) (by omega)
      omega
  · intro h k hk
    rw [Nat.mod_eq_of_lt (by omega)]
    omega

/-- What the rounds look at that are reached. -/
theorem s5Loop_reads_lt_iff (length : UInt32) :
    (∀ i ∈ t.s5Loop.reads, i < length) ↔
      ∀ i < t.tried.toNat, (∀ j < i, ¬ t.Accepts j) → i + t.ahead i < length.toNat := by
  simp only [mem_s5Loop_reads]
  constructor
  · intro h i hi hfirst
    refine (forall_offset_lt_iff (hi.trans t.tried.toNat_lt) length).1 fun k hk => ?_
    exact h _ ⟨i, hi, hfirst, k, hk, rfl⟩
  · rintro h r ⟨i, hi, hfirst, k, hk, rfl⟩
    exact (forall_offset_lt_iff (hi.trans t.tried.toNat_lt) length).2 (h i hi hfirst) k hk

/-- **The search stays inside a table of that length exactly if the table is long enough.** -/
theorem reads_inside_iff (length : UInt32) :
    (∀ i ∈ t.s5Loop.reads, i < length) ↔ t.Fits length.toNat := by
  rw [s5Loop_reads_lt_iff, Fits]
  constructor
  · intro h
    cases hfound : t.s5Loop.found with
    | none =>
        have hnone := t.s5Loop_found_eq_none_iff.1 hfound
        exact Or.inr fun i hi => ⟨hnone i hi, h i hi fun j hj => hnone j (hj.trans hi)⟩
    | some a =>
        obtain ⟨i, hi, haccepts, hfirst, -⟩ := t.s5Loop_found_eq_some_iff.1 hfound
        have hlt := h i hi hfirst
        rw [haccepts.1.ahead] at hlt
        exact Or.inl ⟨i, hi, haccepts, hfirst, hlt⟩
  · rintro (⟨i, hi, haccepts, hfirst, hlt⟩ | hnone) j hj hreached
    · -- no round behind the one that takes a name is reached
      have hle : j ≤ i := not_lt.1 fun hij => hreached i hij haccepts
      rcases Nat.eq_or_lt_of_le hle with rfl | hji
      · rwa [haccepts.1.ahead]
      · have hahead := ahead_le (t := t) j
        omega
    · exact (hnone j hj).2

end Dsdt

/-- **The walks stay inside the tables exactly if the tables fit.** -/
theorem readsInside_iff {m : Ram} {rsdp : UInt32} (hrsdp : acpiFindRsdp m = some rsdp) :
    ReadsInside m rsdp ↔ TablesFit m rsdp := by
  rw [ReadsInside, TablesFit, fadtLoop_reads_inside_iff]
  simp only [acpiGetFadt_eq_some_iff hrsdp, Dsdt.reads_inside_iff]

/-! ### A machine -/

/-- Memory with an array of bytes at an address. -/
def Ram.put (m : Ram) (p : UInt32) (bytes : List UInt8) : Ram :=
  fun x => bytes.getD (x - p).toNat (m x)

theorem loadWord_put_of_lt (m : Ram) {p q : UInt32} {bytes : List UInt8}
    (hq : q.toNat + 4 ≤ p.toNat) (hbytes : p.toNat + bytes.length ≤ 2 ^ 32) :
    loadWord (m.put p bytes) q = loadWord m q := by
  have hp := p.toNat_lt
  refine loadWord_congr (by omega) fun x hle hlt => List.getD_eq_default _ _ ?_
  rw [UInt32.toNat_sub]
  omega

/-- Tables in the memory of the BIOS: an RSDT with one pointer, and an FADT of 116 bytes. -/
def biosTables : Ram :=
  let header (signature : String) (length : UInt32) : List UInt8 :=
    utf8 signature ++ Bytes.wordBytes length ++ List.replicate 28 0
  let m := Ram.put (fun _ => 0) 0xE0000
    (utf8 "RSD PTR " ++ List.replicate 8 0 ++ Bytes.wordBytes 0xE1000)
  let m := m.put 0xE1000 (header "RSDT" 40 ++ Bytes.wordBytes 0xE2000)
  m.put 0xE2000 (header "FACP" 116 ++ Bytes.wordBytes 0 ++ Bytes.wordBytes 0xE3000)

/-- They are followed by the DSDT. -/
def firmware (dsdt : List UInt8) : Ram := biosTables.put 0xE3000 dsdt

section Firmware

variable {dsdt : List UInt8} (h : dsdt.length ≤ 0x1000)

include h

theorem loadWord_firmware {q : UInt32} (hq : q.toNat + 4 ≤ 0xE3000) :
    loadWord (firmware dsdt) q = loadWord biosTables q := by
  refine loadWord_put_of_lt biosTables hq ?_
  change 0xE3000 + dsdt.length ≤ 2 ^ 32
  omega

theorem acpiFindRsdp_firmware : acpiFindRsdp (firmware dsdt) = some 0xE0000 := by
  have hsig : rsdpSignatureAt (firmware dsdt) 0xE0000 = rsdpSignature := by
    rw [rsdpSignatureAt, loadWord_firmware h (by decide), loadWord_firmware h (by decide)]
    decide +kernel
  refine loop_found_eq_some_iff.2 ⟨0, by decide, if_pos hsig, fun j hj => ?_⟩
  exact absurd hj (Nat.not_lt_zero j)

theorem rsdtAddress_firmware : rsdtAddress (firmware dsdt) 0xE0000 = 0xE1000 := by
  rw [rsdtAddress, loadWord_firmware h (by decide)]
  decide +kernel

theorem sdtLength_firmware :
    sdtLength (firmware dsdt) 0xE1000 = 40 ∧ sdtLength (firmware dsdt) 0xE2000 = 116 := by
  rw [sdtLength, sdtLength, loadWord_firmware h (by decide), loadWord_firmware h (by decide)]
  exact ⟨by decide +kernel, by decide +kernel⟩

theorem acpiGetFadt_firmware : acpiGetFadt (firmware dsdt) = some 0xE2000 := by
  rw [acpiGetFadt_eq_some_iff (acpiFindRsdp_firmware h), rsdtAddress_firmware h]
  have hentry : rsdtEntry (firmware dsdt) 0xE1000 0 = 0xE2000 := by
    rw [rsdtEntry, loadWord_firmware h (by decide)]
    decide +kernel
  refine ⟨0, ?_, hentry, ?_, fun j hj => absurd hj (Nat.not_lt_zero j)⟩
  · rw [rsdtEntries, (sdtLength_firmware h).1]
    decide
  · rw [loadWord_firmware h (by decide)]
    decide +kernel

theorem dsdtOf_firmware : dsdtOf (firmware dsdt) 0xE2000 = ⟨firmware dsdt, 0xE3000, 112⟩ := by
  have hdsdt : loadWord biosTables (0xE2000 + 40) = 0xE3000 := by decide +kernel
  rw [dsdtOf, (sdtLength_firmware h).2, fadtDsdt, loadWord_firmware h (by decide), hdsdt]
  rfl

end Firmware

/-- A DSDT of 36 bytes, which is its header only. -/
def headerDsdt : List UInt8 := utf8 "DSDT" ++ Bytes.wordBytes 36

/-- The search goes on behind it. -/
theorem not_readsInside_header :
    acpiFindRsdp (firmware headerDsdt) = some 0xE0000 ∧
      ¬ ReadsInside (firmware headerDsdt) 0xE0000 := by
  have hlen : headerDsdt.length ≤ 0x1000 := by decide +kernel
  refine ⟨acpiFindRsdp_firmware hlen, fun h => ?_⟩
  have hread : (36 : UInt32) ∈ (dsdtOf (firmware headerDsdt) 0xE2000).s5Loop.reads := by
    rw [dsdtOf_firmware hlen, Dsdt.mem_s5Loop_reads]
    exact ⟨36, by decide, by decide +kernel, 0, Nat.zero_le _, rfl⟩
  exact absurd (h.2 _ (acpiGetFadt_firmware hlen) _ hread) (by decide +kernel)

/-- A DSDT of 64 bytes with a package of four elements behind its header, of which the first two are
`a`.  The length of the package is eight. -/
def namedDsdt (a : UInt8) : List UInt8 :=
  utf8 "DSDT" ++ Bytes.wordBytes 64 ++ List.replicate 28 0 ++ utf8 "_S5_" ++
    [0x12, 0x08, 0x04, 0x0A, a, 0x0A, a, 0x00, 0x00]

theorem length_namedDsdt (a : UInt8) : (namedDsdt a).length ≤ 0x1000 := by
  have hlen : (namedDsdt a).length = (namedDsdt 0).length := by simp [namedDsdt]
  rw [hlen]
  decide +kernel

/-- The search ends at the name. -/
theorem readsInside_named : ReadsInside (firmware (namedDsdt 5)) 0xE0000 := by
  have hlen := length_namedDsdt 5
  have hrsdp := acpiFindRsdp_firmware hlen
  refine (readsInside_iff hrsdp).2 ⟨?_, fun fadt h => ?_⟩
  · rw [rsdtAddress_firmware hlen, (sdtLength_firmware hlen).1]
    decide
  · rw [← acpiGetFadt_eq_some_iff hrsdp, acpiGetFadt_firmware hlen] at h
    obtain rfl := Option.some.inj h
    rw [dsdtOf_firmware hlen]
    exact Or.inl ⟨36, by decide, by decide +kernel, by decide +kernel, by decide +kernel⟩

end Anaga
