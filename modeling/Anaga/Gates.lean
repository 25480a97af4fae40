/-
**The tables of the processor: `boot/boot.asm`, `mm/tss.c` and `interrupts/idt.c`.**

The descriptors are in the image, but for the base of the task state segment, which is put in at the
start; the task state segment and the gates are filled by `kinit`.  What matters is what the
processor reads in these bytes when a program is interrupted: where it goes on, at which level, and
on which stack.

Main definitions:

* `Anaga.gdtStart`, `Anaga.setupTss`, `Anaga.tssInit`, `Anaga.idtSetGate`, `Anaga.idtInit` — the
  tables, as the source fills them;
* `Anaga.Places`, `Anaga.Places.store` — where they are, and memory with them;
* `Anaga.Places.Hold` — memory in which they are as they were filled.

Main results:

* `Anaga.Places.Hold.kernelStack`, `Anaga.Places.Hold.gate` — what the processor finds in them;
* `Anaga.interrupt_program` — **which interrupts of a program enter the kernel, and where**.
-/

import Anaga.Descriptor
import Anaga.Isr

set_option relaxedAutoImplicit false
set_option autoImplicit false

namespace Anaga

open X86

/-! ### Descriptors -/

/-- `gdt_start`. -/
def gdtStart : List UInt8 :=
  [0, 0, 0, 0, 0, 0, 0, 0,
    -- `gdt_code`
    0xFF, 0xFF, 0, 0, 0, 0x9A, 0xCF, 0,
    -- `gdt_data`
    0xFF, 0xFF, 0, 0, 0, 0x92, 0xCF, 0,
    -- `gdt_user_code`
    0xFF, 0xFF, 0, 0, 0, 0xFA, 0xCF, 0,
    -- `gdt_user_data`
    0xFF, 0xFF, 0, 0, 0, 0xF2, 0xCF, 0,
    -- `gdt_tss`
    0x68, 0, 0, 0, 0, 0x89, 0, 0]

/-- `CODE_SEG`. -/
abbrev codeSeg : UInt16 := 0x08

/-- `DATA_SEG`. -/
abbrev dataSeg : UInt16 := 0x10

/-- `USER_CODE_SEG`. -/
abbrev userCodeSeg : UInt16 := 0x18

/-- `USER_DATA_SEG`. -/
abbrev userDataSeg : UInt16 := 0x20

/-- `TSS_SEG`. -/
abbrev tssSeg : UInt16 := 0x28

/-- `setup_tss`. -/
def setupTss (gdt : List UInt8) (tss : UInt32) : List UInt8 :=
  let eax := tss
  let gdt := (gdt.set (0x28 + 2) eax.toUInt8).set (0x28 + 3) (eax >>> 8).toUInt8
  let eax := eax >>> 16
  let gdt := gdt.set (0x28 + 4) eax.toUInt8
  let eax := eax >>> 8
  gdt.set (0x28 + 7) eax.toUInt8

/-- `tss_flush`: `ltr` marks the descriptor as the one of a busy task. -/
def tssFlush (gdt : List UInt8) : List UInt8 := gdt.set (0x28 + 5) (gdt.getD (0x28 + 5) 0 ||| 2)

/-! ### The task state segment -/

/-- `tss_t`. -/
structure Tss where
  prevTss : UInt32
  esp0 : UInt32
  ss0 : UInt32
  esp1 : UInt32
  ss1 : UInt32
  esp2 : UInt32
  ss2 : UInt32
  cr3 : UInt32
  eip : UInt32
  eflags : UInt32
  eax : UInt32
  ecx : UInt32
  edx : UInt32
  ebx : UInt32
  esp : UInt32
  ebp : UInt32
  esi : UInt32
  edi : UInt32
  es : UInt32
  cs : UInt32
  ss : UInt32
  ds : UInt32
  fs : UInt32
  gs : UInt32
  ldt : UInt32
  trap : UInt16
  iomapBase : UInt16

/-- The words of a `tss_t`. -/
def Tss.words (t : Tss) : List UInt32 :=
  [t.prevTss, t.esp0, t.ss0, t.esp1, t.ss1, t.esp2, t.ss2, t.cr3, t.eip, t.eflags, t.eax, t.ecx,
    t.edx, t.ebx, t.esp, t.ebp, t.esi, t.edi, t.es, t.cs, t.ss, t.ds, t.fs, t.gs, t.ldt,
    t.trap.toUInt32 ||| t.iomapBase.toUInt32 <<< 16]

/-- The bytes of a `tss_t`. -/
def Tss.byte (t : Tss) (o : ℕ) : UInt8 := Bytes.byteOf (t.words.getD (o / 4) 0) (o % 4)

/-- `sizeof(tss)`. -/
def sizeofTss : ℕ := 104

/-- `tss_init`. -/
def tssInit (kernelStack : UInt32) : Tss where
  prevTss := 0
  esp0 := kernelStack
  ss0 := 0x10
  esp1 := 0
  ss1 := 0
  esp2 := 0
  ss2 := 0
  cr3 := 0
  eip := 0
  eflags := 0
  eax := 0
  ecx := 0
  edx := 0
  ebx := 0
  esp := 0
  ebp := 0
  esi := 0
  edi := 0
  es := 0x13
  cs := 0x0B
  ss := 0x13
  ds := 0x13
  fs := 0x13
  gs := 0x13
  ldt := 0
  trap := 0
  iomapBase := UInt16.ofNat sizeofTss

/-! ### Gates -/

/-- `idt_entry_t`. -/
structure IdtEntry where
  baseLow : UInt16
  selector : UInt16
  zero : UInt8
  flags : UInt8
  baseHigh : UInt16
deriving DecidableEq

/-- `idt`. -/
abbrev Idt := UInt8 → IdtEntry

/-- `IDT_ENTRIES`. -/
def idtEntries : ℕ := 256

/-- `IDT_FLAG_PRESENT`. -/
def idtFlagPresent : UInt8 := 0x80

/-- `IDT_FLAG_DPL0`. -/
def idtFlagDpl0 : UInt8 := 0x00

/-- `IDT_FLAG_DPL3`. -/
def idtFlagDpl3 : UInt8 := 0x60

/-- `IDT_FLAG_GATE_32`. -/
def idtFlagGate32 : UInt8 := 0x0E

/-- `INT_TIMER`. -/
def intTimer : UInt8 := 32

/-- `INT_SYSCALL`. -/
def intSyscall : UInt8 := 0x80

/-- The entry that `idt_set_gate` stores. -/
def IdtEntry.gate (base : UInt32) (selector : UInt16) (flags : UInt8) : IdtEntry where
  baseLow := (base &&& 0xFFFF).toUInt16
  baseHigh := ((base >>> 16) &&& 0xFFFF).toUInt16
  selector := selector
  zero := 0
  flags := flags ||| idtFlagPresent

/-- `idt_set_gate`. -/
def idtSetGate (idt : Idt) (num : UInt8) (base : UInt32) (selector : UInt16) (flags : UInt8) :
    Idt :=
  Function.update idt num (.gate base selector flags)

/-- The bytes of an `idt_entry_t`. -/
def IdtEntry.bytes (e : IdtEntry) : List UInt8 :=
  [e.baseLow.toUInt8, (e.baseLow >>> 8).toUInt8, e.selector.toUInt8, (e.selector >>> 8).toUInt8,
    e.zero, e.flags, e.baseHigh.toUInt8, (e.baseHigh >>> 8).toUInt8]

/-- The bytes of the table. -/
def Idt.byte (idt : Idt) (o : ℕ) : UInt8 := (idt (UInt8.ofNat (o / 8))).bytes.getD (o % 8) 0

/-- The addresses of the stubs. -/
structure Stubs where
  isr : Fin 32 → UInt32
  isrTimer : UInt32
  isrSyscall : UInt32

/-- The table that `idt_init` leaves. -/
def idtInit (s : Stubs) : Idt :=
  let idt : Idt := fun _ => ⟨0, 0, 0, 0, 0⟩
  let idt := (List.finRange 32).foldl (fun idt (i : Fin 32) =>
    idtSetGate idt (UInt8.ofNat i.val) (s.isr i) 0x08 (idtFlagGate32 ||| idtFlagDpl0)) idt
  let idt := idtSetGate idt intTimer s.isrTimer 0x08 (idtFlagGate32 ||| idtFlagDpl0)
  idtSetGate idt intSyscall s.isrSyscall 0x08 (idtFlagGate32 ||| idtFlagDpl3)

/-- The address of the stub that a vector has, and the level from which `int` may use its gate. -/
def Stubs.stub (s : Stubs) (vector : UInt8) : Option (UInt32 × UInt8) :=
  if h : vector.toNat < 32 then some (s.isr ⟨vector.toNat, h⟩, 0)
  else if vector = intTimer then some (s.isrTimer, 0)
  else if vector = intSyscall then some (s.isrSyscall, 3) else none

/-! ### Bytes of words -/

section Bytes

theorem toUInt8_eq_byteOf (w : UInt32) : w.toUInt8 = Bytes.byteOf w 0 := by
  rw [Bytes.byteOf, pow_zero, Nat.div_one, ← UInt8.toNat_inj, UInt32.toNat_toUInt8,
    UInt8.toNat_ofNat']

theorem shift_eq_byteOf (w : UInt32) {n : UInt32} {k : ℕ} (h : n.toNat = 8 * k) (hk : k < 4) :
    (w >>> n).toUInt8 = Bytes.byteOf w k := by
  have hpow : 2 ^ (8 * k % 32) = 256 ^ k := by
    rw [Nat.mod_eq_of_lt (by omega), pow_mul]
    rfl
  rw [Bytes.byteOf, ← UInt8.toNat_inj, UInt32.toNat_toUInt8, UInt8.toNat_ofNat',
    UInt32.toNat_shiftRight, h, Nat.shiftRight_eq_div_pow, hpow]

theorem and_low_half (w : UInt32) : (w &&& 0xFFFF).toUInt16 = w.toUInt16 := by
  rw [UInt32.toUInt16_and]
  exact UInt16.and_neg_one

/-- The bytes of the low half of a word. -/
theorem low_half_bytes (w : UInt32) :
    w.toUInt16.toUInt8 = Bytes.byteOf w 0 ∧ (w.toUInt16 >>> 8).toUInt8 = Bytes.byteOf w 1 := by
  have hlow : w.toUInt16.toNat = w.toNat % 65536 := UInt32.toNat_toUInt16 w
  constructor
  · rw [Bytes.byteOf, ← UInt8.toNat_inj, UInt16.toNat_toUInt8, UInt8.toNat_ofNat', hlow]
    omega
  · rw [Bytes.byteOf, ← UInt8.toNat_inj, UInt16.toNat_toUInt8, UInt8.toNat_ofNat',
      UInt16.toNat_shiftRight, hlow]
    change (w.toNat % 65536) >>> 8 % 2 ^ 8 = _
    rw [Nat.shiftRight_eq_div_pow]
    omega

/-- The bytes of the high half of a word. -/
theorem high_half_bytes (w : UInt32) :
    (w >>> 16).toUInt16.toUInt8 = Bytes.byteOf w 2 ∧
      ((w >>> 16).toUInt16 >>> 8).toUInt8 = Bytes.byteOf w 3 := by
  obtain ⟨h0, h1⟩ := low_half_bytes (w >>> 16)
  have hshift : (w >>> 16).toNat = w.toNat / 65536 := by
    rw [UInt32.toNat_shiftRight]
    exact Nat.shiftRight_eq_div_pow _ _
  rw [h0, h1]
  simp only [Bytes.byteOf, hshift, Nat.div_div_eq_div_mul]
  exact ⟨rfl, rfl⟩

theorem half_of_bytes {b : ℕ → UInt8} {o : ℕ} {h : UInt16} (h0 : b o = h.toUInt8)
    (h1 : b (o + 1) = (h >>> 8).toUInt8) : Bytes.half b o = h := by
  have hlt := h.toNat_lt
  rw [Bytes.half, h0, h1, ← UInt16.toNat_inj, UInt16.toNat_ofNat', UInt16.toNat_toUInt8,
    UInt16.toNat_toUInt8, UInt16.toNat_shiftRight]
  change (h.toNat % 2 ^ 8 + 256 * (h.toNat >>> 8 % 2 ^ 8)) % 2 ^ 16 = _
  rw [Nat.shiftRight_eq_div_pow]
  omega

end Bytes

/-! ### What the processor reads -/

/-- **The gate that `idt_set_gate` makes.** -/
theorem ofBytes_gate (base : UInt32) (selector : UInt16) (flags : UInt8) :
    Gate.ofBytes (fun j => (IdtEntry.gate base selector flags).bytes.getD j 0) =
      { offset := base
        selector := selector
        kind := (flags ||| idtFlagPresent) &&& 0x1F
        dpl := ((flags ||| idtFlagPresent) >>> 5) &&& 3
        present := (flags ||| idtFlagPresent) &&& 0x80 ≠ 0 } := by
  have hentry : IdtEntry.gate base selector flags =
      ⟨base.toUInt16, selector, 0, flags ||| idtFlagPresent, (base >>> 16).toUInt16⟩ := by
    rw [IdtEntry.gate, and_low_half, and_low_half]
  obtain ⟨h0, h1⟩ := low_half_bytes base
  obtain ⟨h2, h3⟩ := high_half_bytes base
  rw [hentry]
  refine Gate.ext (offset_eq h0 h1 h2 h3) ?_ rfl rfl rfl
  have hselector := half_of_bytes (b := fun j => (⟨base.toUInt16, selector, 0,
    flags ||| idtFlagPresent, (base >>> 16).toUInt16⟩ : IdtEntry).bytes.getD j 0) (o := 2)
    (h := selector) rfl rfl
  exact hselector

/-- The entries for `isr0` to `isr31`. -/
theorem foldl_idtSetGate (s : Stubs) (flags : UInt8) (idt : Idt) (vector : UInt8) :
    (List.finRange 32).foldl
        (fun idt (i : Fin 32) => idtSetGate idt (UInt8.ofNat i.val) (s.isr i) 0x08 flags) idt
        vector =
      if h : vector.toNat < 32 then .gate (s.isr ⟨vector.toNat, h⟩) 0x08 flags else idt vector := by
  have hval : ∀ i : Fin 32, (UInt8.ofNat i.val).toNat = i.val := fun i => by
    rw [UInt8.toNat_ofNat', Nat.mod_eq_of_lt (i.isLt.trans (by decide))]
  -- the entry of a vector depends on the vector only
  have hmap : (List.finRange 32).foldl
        (fun idt (i : Fin 32) => idtSetGate idt (UInt8.ofNat i.val) (s.isr i) 0x08 flags) idt =
      ((List.finRange 32).map fun i : Fin 32 => UInt8.ofNat i.val).foldl
        (fun idt num => Function.update idt num
          (if h : num.toNat < 32 then .gate (s.isr ⟨num.toNat, h⟩) 0x08 flags else idt num))
        idt := by
    rw [List.foldl_map]
    simp only [hval, Fin.is_lt, dif_pos, idtSetGate, Fin.eta]
  have hinj : Function.Injective fun i : Fin 32 => UInt8.ofNat i.val := fun i j hij =>
    Fin.ext (by rw [← hval i, ← hval j]; exact congrArg UInt8.toNat hij)
  have hmem : vector ∈ (List.finRange 32).map (fun i : Fin 32 => UInt8.ofNat i.val) ↔
      vector.toNat < 32 := by
    rw [List.mem_map]
    constructor
    · rintro ⟨i, -, rfl⟩
      rw [hval]
      exact i.isLt
    · intro h
      exact ⟨⟨vector.toNat, h⟩, List.mem_finRange _, UInt8.ofNat_toNat⟩
  have hfold := Bytes.foldl_update_of_nodup
    (fun (num : UInt8) (e : IdtEntry) =>
      if h : num.toNat < 32 then IdtEntry.gate (s.isr ⟨num.toNat, h⟩) 0x08 flags else e)
    ((List.nodup_finRange 32).map hinj) idt vector
  rw [hmap]
  refine hfold.trans ?_
  split_ifs with h h' h'
  · rfl
  · exact absurd (hmem.1 h) h'
  · exact absurd (hmem.2 h') h
  · rfl

/-- **The entries that `idt_init` leaves.** -/
theorem idtInit_apply (s : Stubs) (vector : UInt8) :
    idtInit s vector = (s.stub vector).elim ⟨0, 0, 0, 0, 0⟩ fun g =>
      .gate g.1 0x08 (idtFlagGate32 ||| g.2 <<< 5) := by
  rw [idtInit, Stubs.stub]
  by_cases hsys : vector = intSyscall
  · rw [hsys, idtSetGate, Function.update_self]
    rfl
  rw [idtSetGate, Function.update_of_ne hsys]
  by_cases htimer : vector = intTimer
  · rw [htimer, idtSetGate, Function.update_self]
    rfl
  rw [idtSetGate, Function.update_of_ne htimer, foldl_idtSetGate]
  split_ifs <;> rfl

/-- **The gates that the processor reads there.** -/
theorem ofBytes_idtInit (s : Stubs) (vector : UInt8) :
    (some (Gate.ofBytes fun j => (idtInit s vector).bytes.getD j 0)).filter (·.IsInterrupt) =
      (s.stub vector).map fun g => ⟨g.1, 0x08, 0x0E, g.2, true⟩ := by
  rw [idtInit_apply]
  have hdpl : ∀ g, s.stub vector = some g → g.2 = 0 ∨ g.2 = 3 := by
    intro g hg
    rw [Stubs.stub] at hg
    split_ifs at hg
    · exact Or.inl (congrArg Prod.snd (Option.some.inj hg)).symm
    · exact Or.inl (congrArg Prod.snd (Option.some.inj hg)).symm
    · exact Or.inr (congrArg Prod.snd (Option.some.inj hg)).symm
  cases hstub : s.stub vector with
  | none => rfl
  | some g =>
      rw [Option.elim_some, ofBytes_gate, Option.map_some]
      rcases hdpl g hstub with h | h
      · rw [h]
        rfl
      · rw [h]
        rfl

/-! ### Memory -/

/-- Memory with `n` bytes stored from an address on. -/
def storeRegion (m : Ram) (p : UInt32) (b : ℕ → UInt8) (n : ℕ) : Ram :=
  fun x => if (x - p).toNat < n then b (x - p).toNat else m x

theorem region_storeRegion (m : Ram) (p : UInt32) (b : ℕ → UInt8) {n o : ℕ} (ho : o < n)
    (hn : n ≤ 2 ^ 32) : region (storeRegion m p b n) p o = b o := by
  have hsub : (p + UInt32.ofNat o - p).toNat = o := by
    rw [UInt32.add_comm, UInt32.add_sub_cancel, UInt32.toNat_ofNat', Nat.mod_eq_of_lt (by omega)]
  rw [region, storeRegion, hsub, if_pos ho]

theorem storeRegion_of_apart (m : Ram) {p x : UInt32} (b : ℕ → UInt8) {n : ℕ}
    (hp : p.toNat + n ≤ 2 ^ 32) (h : x.toNat < p.toNat ∨ p.toNat + n ≤ x.toNat) :
    storeRegion m p b n x = m x := by
  have hx := x.toNat_lt
  have hsub : (x - p).toNat = (2 ^ 32 - p.toNat + x.toNat) % 2 ^ 32 := UInt32.toNat_sub x p
  rw [storeRegion, if_neg (by omega)]

/-- Where the tables are, the top of the stack for interrupts, and the stubs. -/
structure Places where
  gdt : UInt32
  tss : UInt32
  idt : UInt32
  stackTop : UInt32
  stubs : Stubs

namespace Places

variable (a : Places)

/-- The registers: `lgdt` and `ltr` of `boot/boot.asm`, and `lidt` of `idt_init`. -/
def tables : Tables where
  gdtr := ⟨a.gdt, UInt16.ofNat (gdtStart.length - 1)⟩
  idtr := ⟨a.idt, UInt16.ofNat (8 * idtEntries - 1)⟩
  tr := tssSeg ||| 3

/-- The bytes of the tables, and where they are. -/
def contents : List (UInt32 × (ℕ → UInt8) × ℕ) :=
  [(a.gdt, fun o => (tssFlush (setupTss gdtStart a.tss)).getD o 0, gdtStart.length),
    (a.tss, (tssInit a.stackTop).byte, sizeofTss),
    (a.idt, (idtInit a.stubs).byte, 8 * idtEntries)]

/-- The tables are apart. -/
def Apart : Prop :=
  a.contents.Pairwise (fun t t' =>
      t.1.toNat + t.2.2 ≤ t'.1.toNat ∨ t'.1.toNat + t'.2.2 ≤ t.1.toNat) ∧
    ∀ t ∈ a.contents, t.1.toNat + t.2.2 ≤ 2 ^ 32

/-- Memory after `kinit`. -/
def store (m : Ram) : Ram :=
  a.contents.foldl (fun m t => storeRegion m t.1 t.2.1 t.2.2) m

/-- Memory in which the tables are as they were filled. -/
def Hold (m : Ram) : Prop := ∀ t ∈ a.contents, ∀ o < t.2.2, region m t.1 o = t.2.1 o

/-- An address in one of the tables. -/
def InTable (x : UInt32) : Prop := ∃ t ∈ a.contents, (x - t.1).toNat < t.2.2

end Places

/-- What is stored last is there, and what was stored before it somewhere else. -/
theorem region_foldl_storeRegion {ts : List (UInt32 × (ℕ → UInt8) × ℕ)}
    (hapart : ts.Pairwise fun t t' =>
      t.1.toNat + t.2.2 ≤ t'.1.toNat ∨ t'.1.toNat + t'.2.2 ≤ t.1.toNat)
    (hfits : ∀ t ∈ ts, t.1.toNat + t.2.2 ≤ 2 ^ 32) (m : Ram) {t : UInt32 × (ℕ → UInt8) × ℕ}
    (ht : t ∈ ts) {o : ℕ} (ho : o < t.2.2) :
    region (ts.foldl (fun m t => storeRegion m t.1 t.2.1 t.2.2) m) t.1 o = t.2.1 o := by
  induction ts using List.reverseRecOn with
  | nil => exact absurd ht List.not_mem_nil
  | append_singleton ts t' ih =>
      rw [List.foldl_append, List.foldl_cons, List.foldl_nil]
      rw [List.pairwise_append] at hapart
      rcases List.mem_append.1 ht with hmem | hmem
      · have hne := hapart.2.2 t hmem t' (List.mem_singleton.2 rfl)
        have hfit := hfits t ht
        have hfit' := hfits t' (List.mem_append_right _ (List.mem_singleton.2 rfl))
        have haddr : (t.1 + UInt32.ofNat o).toNat = t.1.toNat + o := by
          rw [UInt32.toNat_add, UInt32.toNat_ofNat', Nat.mod_eq_of_lt (a := o) (by omega),
            Nat.mod_eq_of_lt (by omega)]
        rw [region, storeRegion_of_apart _ _ hfit' (by omega)]
        exact ih hapart.1 (fun t ht => hfits t (List.mem_append_left _ ht)) hmem
      · obtain rfl := List.mem_singleton.1 hmem
        exact region_storeRegion _ _ _ ho (by have := hfits t ht; omega)

theorem Places.hold_store {a : Places} (h : a.Apart) (m : Ram) : a.Hold (a.store m) :=
  fun _ ht _ ho => region_foldl_storeRegion h.1 h.2 m ht ho

theorem Places.Hold.congr {a : Places} {m m' : Ram} (h : a.Hold m)
    (heq : ∀ x, a.InTable x → m' x = m x) (hfits : ∀ t ∈ a.contents, t.2.2 ≤ 2 ^ 32) :
    a.Hold m' := by
  intro t ht o ho
  have hsub : (t.1 + UInt32.ofNat o - t.1).toNat = o := by
    have hlt := hfits t ht
    rw [UInt32.add_comm, UInt32.add_sub_cancel, UInt32.toNat_ofNat', Nat.mod_eq_of_lt (by omega)]
  rw [← h t ht o ho]
  exact heq _ ⟨t, ht, by rw [hsub]; exact ho⟩

/-! ### What is found in the tables -/

namespace Places

variable {a : Places} {m : Ram}

theorem Hold.gdtByte (h : a.Hold m) {o : ℕ} (ho : o < 48) :
    region m a.gdt o = (tssFlush (setupTss gdtStart a.tss)).getD o 0 :=
  h _ List.mem_cons_self o ho

theorem Hold.tssByte (h : a.Hold m) {o : ℕ} (ho : o < 104) :
    region m a.tss o = (tssInit a.stackTop).byte o :=
  h _ (List.mem_cons_of_mem _ List.mem_cons_self) o ho

theorem Hold.idtByte (h : a.Hold m) {o : ℕ} (ho : o < 2048) :
    region m a.idt o = (idtInit a.stubs).byte o :=
  h _ (List.mem_cons_of_mem _ (List.mem_cons_of_mem _ List.mem_cons_self)) o ho

/-- The descriptor of a selector, by the bytes that the source has for it. -/
theorem Hold.segment_eq (h : a.Hold m) {selector : UInt16} (h0 : selector.toNat / 8 ≠ 0)
    (hlt : selector.toNat / 8 < 6) :
    a.tables.segment m selector = some (Segment.ofBytes fun j =>
      (tssFlush (setupTss gdtStart a.tss)).getD (8 * (selector.toNat / 8) + j) 0) := by
  have hlimit : 8 * (selector.toNat / 8) + 7 ≤ a.tables.gdtr.limit.toNat := by
    change _ ≤ 47
    omega
  rw [Tables.segment, if_neg h0, Table.entry, if_pos hlimit, Option.map_some]
  exact congrArg some (Segment.ofBytes_congr fun j hj => h.gdtByte (by omega))

/-- The descriptors in front of the last one are as they are in the image. -/
theorem Hold.segment_of_lt (h : a.Hold m) {selector : UInt16} (h0 : selector.toNat / 8 ≠ 0)
    (hlt : selector.toNat / 8 < 5) :
    a.tables.segment m selector = some (Segment.ofBytes fun j =>
      gdtStart.getD (8 * (selector.toNat / 8) + j) 0) := by
  rw [h.segment_eq h0 (hlt.trans (by decide))]
  refine congrArg some (Segment.ofBytes_congr fun j hj => ?_)
  simp only [tssFlush, setupTss, List.getD_eq_getElem?_getD]
  rw [List.getElem?_set_ne (by omega), List.getElem?_set_ne (by omega),
    List.getElem?_set_ne (by omega),
    List.getElem?_set_ne (by omega), List.getElem?_set_ne (by omega)]

/-- The segments of the kernel and of programs are all of the memory. -/
theorem Hold.segments (h : a.Hold m) :
    a.tables.segment m codeSeg = some ⟨0, 0xFFFFFFFF, 0x1A, 0, true⟩ ∧
      a.tables.segment m dataSeg = some ⟨0, 0xFFFFFFFF, 0x12, 0, true⟩ ∧
      a.tables.segment m (userCodeSeg ||| 3) = some ⟨0, 0xFFFFFFFF, 0x1A, 3, true⟩ ∧
      a.tables.segment m (userDataSeg ||| 3) = some ⟨0, 0xFFFFFFFF, 0x12, 3, true⟩ := by
  refine ⟨?_, ?_, ?_, ?_⟩
  · rw [h.segment_of_lt (by decide) (by decide)]
    decide
  · rw [h.segment_of_lt (by decide) (by decide)]
    decide
  · rw [h.segment_of_lt (by decide) (by decide)]
    decide
  · rw [h.segment_of_lt (by decide) (by decide)]
    decide

/-- **The descriptor that `setup_tss` completes**, when it is in use. -/
theorem setupTss_tss (tss : UInt32) :
    (tssFlush (setupTss gdtStart tss)).drop 40 =
      [0x68, 0, Bytes.byteOf tss 0, Bytes.byteOf tss 1, Bytes.byteOf tss 2, 0x8B, 0,
        Bytes.byteOf tss 3] := by
  have hshift : (tss >>> 16) >>> 8 = tss >>> 24 := by
    rw [← UInt32.toNat_inj, UInt32.toNat_shiftRight, UInt32.toNat_shiftRight,
      UInt32.toNat_shiftRight]
    change tss.toNat >>> 16 >>> 8 = tss.toNat >>> 24
    rw [← Nat.shiftRight_add]
  rw [setupTss, toUInt8_eq_byteOf, shift_eq_byteOf tss (n := 8) (k := 1) rfl (by decide),
    shift_eq_byteOf tss (n := 16) (k := 2) rfl (by decide), hshift,
    shift_eq_byteOf tss (n := 24) (k := 3) rfl (by decide)]
  change [0x68, 0, Bytes.byteOf tss 0, Bytes.byteOf tss 1, Bytes.byteOf tss 2, 0x89 ||| 2, 0,
    Bytes.byteOf tss 3] = _
  rw [(by decide : (0x89 : UInt8) ||| 2 = 0x8B)]

/-- The descriptor of a task state segment. -/
theorem ofBytes_tss (tss : UInt32) :
    Segment.ofBytes (fun j => [0x68, 0, Bytes.byteOf tss 0, Bytes.byteOf tss 1,
      Bytes.byteOf tss 2, 0x8B, 0, Bytes.byteOf tss 3].getD j 0) =
      ⟨tss, 0x68, 0x0B, 0, true⟩ := by
  refine Segment.ext (base_eq rfl rfl rfl rfl) ?_ ?_ ?_ ?_
  · have hlimit : (Segment.ofBytes fun j => [0x68, 0].getD j 0).limit = 0x68 := by decide
    exact (Segment.limit_congr rfl rfl rfl).trans hlimit
  · exact (by decide : (0x8B : UInt8) &&& 0x1F = 0x0B)
  · exact (by decide : ((0x8B : UInt8) >>> 5) &&& 3 = 0)
  · exact decide_eq_true (show (0x8B : UInt8) &&& 0x80 ≠ 0 by decide)

theorem Hold.segment_tss (h : a.Hold m) :
    a.tables.segment m a.tables.tr = some ⟨a.tss, 0x68, 0x0B, 0, true⟩ := by
  have htr : a.tables.tr.toNat / 8 = 5 := by
    change (tssSeg ||| 3).toNat / 8 = 5
    decide
  rw [h.segment_eq (by omega) (by omega), htr, ← ofBytes_tss, ← setupTss_tss]
  refine congrArg some (Segment.ofBytes_congr fun j _ => ?_)
  rw [List.getD_eq_getElem?_getD, List.getD_eq_getElem?_getD, List.getElem?_drop]

/-- **The stack that the processor takes for an interrupt of a program.** -/
theorem Hold.kernelStack (h : a.Hold m) :
    a.tables.kernelStack m = some (dataSeg, a.stackTop) := by
  have hss : Bytes.half (region m a.tss) 8 = dataSeg := by
    have hbyte : ∀ k < 4, (tssInit a.stackTop).byte (8 + k) = Bytes.byteOf 0x10 k := by
      intro k hk
      have hdiv : (8 + k) / 4 = 2 := by omega
      have hmod : (8 + k) % 4 = k := by omega
      rw [Tss.byte, hdiv, hmod]
      rfl
    rw [Bytes.half, h.tssByte (by decide), h.tssByte (by decide), hbyte 0 (by decide),
      hbyte 1 (by decide)]
    decide
  have hesp : Bytes.word (region m a.tss) 4 = a.stackTop := by
    refine Bytes.word_eq_of_byteOf fun k hk => ?_
    have hdiv : (4 + k) / 4 = 1 := by omega
    have hmod : (4 + k) % 4 = k := by omega
    rw [h.tssByte (by omega), Tss.byte, hdiv, hmod]
    rfl
  rw [Tables.kernelStack, h.segment_tss, Option.bind_some, hss, hesp]
  exact if_pos ⟨show (0x0B : UInt8) &&& 0x1D = 0x09 by decide, rfl,
    show 12 ≤ (0x68 : UInt32).toNat by decide⟩

/-- **A program cannot access any port**, as `iomap_base` is the limit of the segment. -/
theorem Hold.allowsPorts (h : a.Hold m) (port : UInt16) (n : ℕ) :
    a.tables.allowsPorts m 3 0 port n = false := by
  refine Tables.allowsPorts_eq_false (by decide) h.segment_tss ?_ port n
  have hmap : Bytes.half (region m a.tss) 102 = 104 := by
    have hlow : (tssInit a.stackTop).byte 102 = 104 := by
      change Bytes.byteOf ((0 : UInt16).toUInt32 ||| (104 : UInt16).toUInt32 <<< 16) 2 = 104
      decide
    have hhigh : (tssInit a.stackTop).byte (102 + 1) = 0 := by
      change Bytes.byteOf ((0 : UInt16).toUInt32 ||| (104 : UInt16).toUInt32 <<< 16) 3 = 0
      decide
    rw [Bytes.half, h.tssByte (by decide), h.tssByte (by decide), hlow, hhigh]
    decide
  rw [hmap]
  exact (by decide : (0x68 : UInt32).toNat ≤ (104 : UInt16).toNat)

/-- **The gate of a vector.** -/
theorem Hold.gate (h : a.Hold m) (vector : UInt8) :
    a.tables.gate m vector =
      (a.stubs.stub vector).map fun g => ⟨g.1, codeSeg, 0x0E, g.2, true⟩ := by
  have hv := vector.toNat_lt
  have hlimit : 8 * vector.toNat + 7 ≤ a.tables.idtr.limit.toNat := by
    change _ ≤ 2047
    omega
  have hbytes : Gate.ofBytes (fun j => region m a.tables.idtr.base (8 * vector.toNat + j)) =
      Gate.ofBytes fun j => (idtInit a.stubs vector).bytes.getD j 0 := by
    refine Gate.ofBytes_congr fun j hj => ?_
    have hdiv : (8 * vector.toNat + j) / 8 = vector.toNat := by omega
    have hmod : (8 * vector.toNat + j) % 8 = j := by omega
    refine (h.idtByte (by omega)).trans ?_
    rw [Idt.byte, hdiv, hmod, UInt8.ofNat_toNat]
  rw [Tables.gate, Table.entry, if_pos hlimit, Option.map_some, hbytes]
  exact ofBytes_idtInit a.stubs vector

end Places

/-! ### Interrupts of a program -/

/-- The gates that a program may go through with `int`. -/
theorem Stubs.privilege (s : Stubs) {vector : UInt8} {g : UInt32 × UInt8}
    (hg : s.stub vector = some g) : g.2 = if vector = intSyscall then 3 else 0 := by
  rw [stub] at hg
  split_ifs at hg with hlt htimer hsys
  · have hne : vector ≠ intSyscall := by
      rintro rfl
      exact absurd hlt (by decide)
    rw [if_neg hne, ← Option.some.inj hg]
  · have hne : vector ≠ intSyscall := by
      rintro rfl
      exact absurd htimer (by decide)
    rw [if_neg hne, ← Option.some.inj hg]
  · rw [if_pos hsys, ← Option.some.inj hg]

theorem Places.Hold.interrupt {a : Places} {m : Ram} (h : a.Hold m) (software : Bool)
    (vector : UInt8) :
    a.tables.interrupt m 3 software vector =
      (a.stubs.stub vector).elim (.error ⟨13, Tables.gateCode software vector⟩) fun g =>
        if software ∧ vector ≠ intSyscall then .error ⟨13, Tables.gateCode software vector⟩
        else .ok ⟨g.1, codeSeg, some (dataSeg, a.stackTop)⟩ := by
  have hgate := h.gate vector
  obtain ⟨hcode, hdata, -, -⟩ := h.segments
  cases hstub : a.stubs.stub vector with
  | none =>
      rw [hstub] at hgate
      rw [Tables.interrupt, hgate]
      rfl
  | some g =>
      rw [hstub, Option.map_some] at hgate
      have hdpl := a.stubs.privilege hstub
      rw [Option.elim_some]
      split_ifs with hrefused
      · rw [if_neg hrefused.2] at hdpl
        rw [hrefused.1]
        refine Tables.interrupt_of_privilege fun g' hg' => ?_
        obtain rfl := Option.some.inj (hgate.symm.trans hg')
        exact hdpl.symm ▸ (by decide : (0 : UInt8) < 3)
      · refine Tables.interrupt_of_gate hgate rfl (fun hsoftware => ?_) hcode
          ⟨show (0x1A : UInt8) &&& 0x1C = 0x18 by decide, rfl, show (0 : UInt8) < 3 by decide⟩
          h.kernelStack hdata ⟨show (0x12 : UInt8) &&& 0x1A = 0x12 by decide, rfl, rfl⟩
        have hsys : vector = intSyscall := by
          by_contra hne
          exact hrefused ⟨hsoftware, hne⟩
        rw [if_pos hsys] at hdpl
        exact UInt8.le_of_eq hdpl.symm

/-- **Which interrupts of a program enter the kernel.**  After `kinit`, wherever the tables are: an
interrupt at level 3 that has a stub goes on there, in the code segment of the kernel and on the
stack that `tss_init` was called with; but of the instructions `int` only the one for system calls
does, and every other is a general protection fault that names its vector.  Interrupts without a
stub are such faults, too. -/
theorem interrupt_program {a : Places} (h : a.Apart) (m : Ram) (software : Bool) (vector : UInt8) :
    a.tables.interrupt (a.store m) 3 software vector =
      (a.stubs.stub vector).elim (.error ⟨13, Tables.gateCode software vector⟩) fun g =>
        if software ∧ vector ≠ intSyscall then .error ⟨13, Tables.gateCode software vector⟩
        else .ok ⟨g.1, codeSeg, some (dataSeg, a.stackTop)⟩ :=
  (Places.hold_store h m).interrupt software vector

/-- Tables, a stack and stubs at some addresses. -/
def samplePlaces : Places where
  gdt := 0x105000
  tss := 0x106000
  idt := 0x107000
  stackTop := 0x10C000
  stubs := ⟨fun i => 0x101000 + 16 * UInt32.ofNat i.val, 0x101300, 0x101310⟩

theorem samplePlaces_apart : samplePlaces.Apart := by
  rw [Places.Apart, Places.contents]
  simp only [List.pairwise_cons, List.mem_cons, List.not_mem_nil, forall_eq_or_imp, false_imp_iff,
    implies_true, and_true, or_false, forall_eq, List.Pairwise.nil]
  decide

/-- A program tries to get a timer interrupt with `int $0x20`, and makes a system call. -/
theorem interrupt_program_timer :
    samplePlaces.tables.interrupt (samplePlaces.store fun _ => 0) 3 true 0x20 =
        .error ⟨13, 0x102⟩ ∧
      samplePlaces.tables.interrupt (samplePlaces.store fun _ => 0) 3 true 0x80 =
        .ok ⟨0x101310, 0x08, some (0x10, 0x10C000)⟩ := by
  rw [interrupt_program samplePlaces_apart, interrupt_program samplePlaces_apart]
  exact ⟨rfl, rfl⟩

end Anaga
