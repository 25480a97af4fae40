/-
**Descriptors and gates of a 32-bit x86 processor.**

In protected mode a segment register holds a selector, which is a place in a table of descriptors,
and an interrupt has a gate in another table.  This module says what the processor reads in eight
bytes of these tables, and what it does when a program or a device interrupts: whether it may go
through the gate, and where it goes on.  Virtual-8086 mode, call gates, task gates and local tables
are left out.

Main definitions:

* `X86.Segment`, `X86.Gate` — a descriptor and a gate, and what eight bytes mean as one;
* `X86.Tables` — the registers that say where the tables are;
* `X86.Tables.interrupt` — what an interrupt leads to: an entry of the kernel, or a fault;
* `X86.Tables.allowsPorts` — the ports that a program can access.

Main results:

* `X86.offset_eq`, `X86.base_eq` — the scattered bytes of an address are put together;
* `X86.Tables.interrupt_of_gate` — **an interrupt goes through a gate of sufficient privilege**;
* `X86.Tables.interrupt_of_privilege` — **and a program cannot go through any other**.
-/

import Anaga.Bytes

set_option relaxedAutoImplicit false
set_option autoImplicit false

namespace X86

/-! ### Descriptors -/

/-- A segment descriptor. -/
@[ext]
structure Segment where
  base : UInt32
  /-- The last offset. -/
  limit : UInt32
  /-- The type, and the bit that tells code and data from system segments. -/
  kind : UInt8
  dpl : UInt8
  present : Bool
deriving DecidableEq

/-- The bytes of the base in a descriptor. -/
def baseByte (b : ℕ → UInt8) (k : ℕ) : UInt8 := if k < 3 then b (2 + k) else b 7

/-- A descriptor in eight bytes. -/
def Segment.ofBytes (b : ℕ → UInt8) : Segment where
  base := Bytes.word (baseByte b) 0
  limit :=
    let limit := (Bytes.half b 0).toUInt32 ||| (b 6 &&& 0x0F).toUInt32 <<< 16
    -- in pages or in bytes
    if b 6 &&& 0x80 = 0 then limit else limit <<< 12 ||| 0xFFF
  kind := b 5 &&& 0x1F
  dpl := (b 5 >>> 5) &&& 3
  present := b 5 &&& 0x80 ≠ 0

/-- A code segment that is run at its own level. -/
def Segment.IsCode (s : Segment) : Prop := s.kind &&& 0x1C = 0x18

/-- A data segment that can be written. -/
def Segment.IsWritable (s : Segment) : Prop := s.kind &&& 0x1A = 0x12

/-- A task state segment. -/
def Segment.IsTss (s : Segment) : Prop := s.kind &&& 0x1D = 0x09

instance (s : Segment) : Decidable s.IsCode := inferInstanceAs (Decidable (_ = _))

instance (s : Segment) : Decidable s.IsWritable := inferInstanceAs (Decidable (_ = _))

instance (s : Segment) : Decidable s.IsTss := inferInstanceAs (Decidable (_ = _))

/-- A gate. -/
@[ext]
structure Gate where
  offset : UInt32
  selector : UInt16
  kind : UInt8
  dpl : UInt8
  present : Bool
deriving DecidableEq

/-- The bytes of the offset in a gate. -/
def offsetByte (b : ℕ → UInt8) (k : ℕ) : UInt8 := if k < 2 then b k else b (4 + k)

/-- A gate in eight bytes. -/
def Gate.ofBytes (b : ℕ → UInt8) : Gate where
  offset := Bytes.word (offsetByte b) 0
  selector := Bytes.half b 2
  kind := b 5 &&& 0x1F
  dpl := (b 5 >>> 5) &&& 3
  present := b 5 &&& 0x80 ≠ 0

/-- An interrupt gate of 32 bits, which keeps further interrupts from coming. -/
def Gate.IsInterrupt (g : Gate) : Prop := g.kind = 0x0E

instance (g : Gate) : Decidable g.IsInterrupt := inferInstanceAs (Decidable (_ = _))

/-- The scattered bytes of an offset. -/
theorem offset_eq {b : ℕ → UInt8} {w : UInt32} (h0 : b 0 = Bytes.byteOf w 0)
    (h1 : b 1 = Bytes.byteOf w 1) (h2 : b 6 = Bytes.byteOf w 2) (h3 : b 7 = Bytes.byteOf w 3) :
    (Gate.ofBytes b).offset = w := by
  refine Bytes.word_eq_of_byteOf fun k hk => ?_
  match k, hk with
  | 0, _ => exact h0
  | 1, _ => exact h1
  | 2, _ => exact h2
  | 3, _ => exact h3

/-- The scattered bytes of a base. -/
theorem base_eq {b : ℕ → UInt8} {w : UInt32} (h0 : b 2 = Bytes.byteOf w 0)
    (h1 : b 3 = Bytes.byteOf w 1) (h2 : b 4 = Bytes.byteOf w 2) (h3 : b 7 = Bytes.byteOf w 3) :
    (Segment.ofBytes b).base = w := by
  refine Bytes.word_eq_of_byteOf fun k hk => ?_
  match k, hk with
  | 0, _ => exact h0
  | 1, _ => exact h1
  | 2, _ => exact h2
  | 3, _ => exact h3

theorem Segment.ofBytes_congr {b b' : ℕ → UInt8} (h : ∀ j < 8, b j = b' j) :
    Segment.ofBytes b = Segment.ofBytes b' := by
  have hbase : Bytes.word (baseByte b) 0 = Bytes.word (baseByte b') 0 := by
    refine Bytes.word_congr fun k hk => ?_
    simp only [baseByte]
    split_ifs
    · exact h _ (by omega)
    · exact h 7 (by decide)
  rw [ofBytes, ofBytes, hbase, Bytes.half, Bytes.half, h 0 (by decide), h (0 + 1) (by decide),
    h 5 (by decide), h 6 (by decide)]

theorem Segment.limit_congr {b b' : ℕ → UInt8} (h0 : b 0 = b' 0) (h1 : b 1 = b' 1)
    (h6 : b 6 = b' 6) : (ofBytes b).limit = (ofBytes b').limit := by
  simp only [ofBytes, Bytes.half, Nat.zero_add, h0, h1, h6]

theorem Gate.ofBytes_congr {b b' : ℕ → UInt8} (h : ∀ j < 8, b j = b' j) :
    Gate.ofBytes b = Gate.ofBytes b' := by
  have hoffset : Bytes.word (offsetByte b) 0 = Bytes.word (offsetByte b') 0 := by
    refine Bytes.word_congr fun k hk => ?_
    simp only [offsetByte]
    split_ifs
    · exact h _ (by omega)
    · exact h _ (by omega)
  rw [ofBytes, ofBytes, hoffset, Bytes.half, Bytes.half, h 2 (by decide), h (2 + 1) (by decide),
    h 5 (by decide)]

/-! ### Tables -/

/-- A table in memory: where it begins, and the offset of its last byte. -/
structure Table where
  base : UInt32
  limit : UInt16

/-- The bytes of memory from an address on. -/
def region (m : UInt32 → UInt8) (p : UInt32) : ℕ → UInt8 := fun o => m (p + UInt32.ofNat o)

/-- Entry `i` of a table, if it is in it. -/
def Table.entry (t : Table) (m : UInt32 → UInt8) (i : ℕ) : Option (ℕ → UInt8) :=
  if 8 * i + 7 ≤ t.limit.toNat then some fun j => region m t.base (8 * i + j) else none

/-- The registers for the tables of descriptors and gates, and the selector of the task. -/
structure Tables where
  gdtr : Table
  idtr : Table
  tr : UInt16

/-- Where an interrupt goes on: the address, the selectors of the code and the stack, and the stack
pointer, if it goes to another level. -/
structure Target where
  offset : UInt32
  cs : UInt16
  stack : Option (UInt16 × UInt32)
deriving DecidableEq

/-- What keeps an interrupt from going through: the vector of the fault, and its error code. -/
structure Refusal where
  vector : UInt8
  code : UInt32
deriving DecidableEq

namespace Tables

variable (t : Tables) (m : UInt32 → UInt8)

/-- The descriptor that a selector stands for.  The first one cannot be used. -/
def segment (selector : UInt16) : Option Segment :=
  if selector.toNat / 8 = 0 then none
  else (t.gdtr.entry m (selector.toNat / 8)).map Segment.ofBytes

/-- The stack for level 0 that the task state segment holds. -/
def kernelStack : Option (UInt16 × UInt32) :=
  (t.segment m t.tr).bind fun tss =>
    if tss.IsTss ∧ tss.present ∧ 12 ≤ tss.limit.toNat then
      some (Bytes.half (region m tss.base) 8, Bytes.word (region m tss.base) 4)
    else none

/-- The map of ports in the task state segment lets a program at the level `cpl` access the `n`
bytes from a port on, if it is not privileged for all ports.  Two bytes of the map are read, and
both have to be in the segment. -/
def allowsPorts (cpl iopl : UInt8) (port : UInt16) (n : ℕ) : Bool :=
  cpl ≤ iopl || (t.segment m t.tr).any fun tss =>
    let o := (Bytes.half (region m tss.base) 102).toNat + port.toNat / 8
    let bits := Bytes.half (region m tss.base) o >>> (port % 8)
    tss.IsTss ∧ tss.present ∧ 103 ≤ tss.limit.toNat ∧ o + 1 ≤ tss.limit.toNat ∧
      bits &&& (1 <<< UInt16.ofNat n - 1) = 0

/-- The gate of a vector, if it is in the table and one for interrupts. -/
def gate (vector : UInt8) : Option Gate :=
  ((t.idtr.entry m vector.toNat).map Gate.ofBytes).filter fun g => g.IsInterrupt

/-- The error code for what is at fault.  Its first bit says that the interrupt does not come from
an instruction `int`. -/
def errorCode (software : Bool) (code : UInt32) : UInt32 := if software then code else code ||| 1

/-- The error code that names a gate. -/
def gateCode (software : Bool) (vector : UInt8) : UInt32 :=
  errorCode software (vector.toUInt32 * 8 + 2)

/-- The error code that names a segment. -/
def segmentCode (software : Bool) (selector : UInt16) : UInt32 :=
  errorCode software (selector &&& 0xFFFC).toUInt32

/-- **What an interrupt leads to** at the level `cpl`, if it comes from an instruction `int` or not.
A gate, a segment or a stack that cannot be used is a fault that names it. -/
def interrupt (cpl : UInt8) (software : Bool) (vector : UInt8) : Except Refusal Target :=
  match t.gate m vector with
  | none => .error ⟨13, gateCode software vector⟩
  | some g =>
      if software ∧ g.dpl < cpl then .error ⟨13, gateCode software vector⟩
      else if ¬ g.present then .error ⟨11, gateCode software vector⟩
      else
        match t.segment m g.selector with
        | none => .error ⟨13, segmentCode software g.selector⟩
        | some code =>
            if ¬ (code.IsCode ∧ code.dpl ≤ cpl) then .error ⟨13, segmentCode software g.selector⟩
            else if ¬ code.present then .error ⟨11, segmentCode software g.selector⟩
            else if code.dpl = cpl then .ok ⟨g.offset, g.selector, none⟩
            else
              match t.kernelStack m with
              | none => .error ⟨10, segmentCode software t.tr⟩
              | some (ss, esp) =>
                  match t.segment m ss with
                  | none => .error ⟨10, segmentCode software ss⟩
                  | some stack =>
                      if ¬ (stack.IsWritable ∧ stack.dpl = code.dpl) then
                        .error ⟨10, segmentCode software ss⟩
                      else if ¬ stack.present then .error ⟨12, segmentCode software ss⟩
                      else .ok ⟨g.offset, g.selector, some (ss, esp)⟩

variable {t m} {cpl vector : UInt8} {software : Bool}

/-- A map that begins at the end of the segment has no bits. -/
theorem allowsPorts_eq_false {iopl : UInt8} (hcpl : iopl < cpl) {tss : Segment}
    (htss : t.segment m t.tr = some tss)
    (hmap : tss.limit.toNat ≤ (Bytes.half (region m tss.base) 102).toNat) (port : UInt16) (n : ℕ) :
    t.allowsPorts m cpl iopl port n = false := by
  rw [allowsPorts, decide_eq_false (UInt8.not_le.2 hcpl), htss, Bool.false_or, Option.any_some]
  refine decide_eq_false fun h => ?_
  have hle := h.2.2.2.1
  omega

/-- **An interrupt goes through a gate of sufficient privilege** to a more privileged level. -/
theorem interrupt_of_gate {g : Gate} {code stack : Segment} {ss : UInt16} {esp : UInt32}
    (hgate : t.gate m vector = some g) (hpresent : g.present) (hdpl : software → cpl ≤ g.dpl)
    (hcode : t.segment m g.selector = some code)
    (hrun : code.IsCode ∧ code.present ∧ code.dpl < cpl)
    (hkernel : t.kernelStack m = some (ss, esp))
    (hstack : t.segment m ss = some stack)
    (hwrite : stack.IsWritable ∧ stack.present ∧ stack.dpl = code.dpl) :
    t.interrupt m cpl software vector = .ok ⟨g.offset, g.selector, some (ss, esp)⟩ := by
  have hprivilege : ¬ (software ∧ g.dpl < cpl) := fun h => absurd (hdpl h.1) (UInt8.not_le.2 h.2)
  have hle : code.IsCode ∧ code.dpl ≤ cpl := ⟨hrun.1, UInt8.le_of_lt hrun.2.2⟩
  rw [interrupt, hgate]
  dsimp only
  rw [if_neg hprivilege, if_neg (not_not.2 hpresent), hcode]
  dsimp only
  rw [if_neg (not_not.2 hle), if_neg (not_not.2 hrun.2.1), if_neg (UInt8.ne_of_lt hrun.2.2),
    hkernel]
  dsimp only
  rw [hstack]
  dsimp only
  rw [if_neg (not_not.2 ⟨hwrite.1, hwrite.2.2⟩), if_neg (not_not.2 hwrite.2.1)]

/-- **A program cannot go through a gate that is too privileged for it.** -/
theorem interrupt_of_privilege (h : ∀ g, t.gate m vector = some g → g.dpl < cpl) :
    t.interrupt m cpl true vector = .error ⟨13, gateCode true vector⟩ := by
  rw [interrupt]
  cases hgate : t.gate m vector with
  | none => rfl
  | some g => exact if_pos ⟨rfl, h g hgate⟩

end Tables

end X86
