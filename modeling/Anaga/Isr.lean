/-
**Trap frames: `interrupts/isr.asm`.**

When an interrupt comes, the processor pushes where it was, and for some vectors an error code.
The stub of the vector pushes what is missing and all of the registers, so that the stack pointer
is a pointer to a `regs_t`, calls the handler with it, and takes everything back.  The stack is
described by its words, counted from the stack pointer: a push adds a word in front of them, and
addresses wrap around like registers do.

Main definitions:

* `Anaga.Cpu`, `Anaga.Instr`, `Anaga.runStub` — the registers, the instructions that the stubs are
  made of, and a run of a stub;
* `Anaga.Cpu.deliver`, `Anaga.Cpu.iret` — what the processor does in front of a stub and behind it;
* `Anaga.isrTable`, `Anaga.isrTimer`, `Anaga.isrSyscall`, `Anaga.idtGate` — the stubs, and the
  vectors that they are for;
* `Anaga.Regs.Saves`, `Anaga.Cpu.Restores` — the frame holds the interrupted state, and the stub
  restores it.

Main results:

* `Anaga.Cpu.word_push_succ` — a push moves the words of the stack by one;
* `Anaga.runStub_append`, `Anaga.runStub_isr`, `Anaga.runStub_isrCommonStub` — what a stub does;
* `Anaga.isr_saves_restores` — **the frame is the interrupted state, and it is restored**;
* `Anaga.Cpu.Restores.iret`, `Anaga.isr_resumes` — the interrupted code goes on, with the result of
  the handler;
* `Anaga.isrTimer_restores` — the same for the timer.
-/

import Anaga.Syscall

set_option relaxedAutoImplicit false
set_option autoImplicit false

namespace Anaga

open Transition

/-! ### The processor -/

/-- The general registers and the segment registers, memory, and the bytes that were written to
ports. -/
structure Cpu where
  eax : UInt32
  ecx : UInt32
  edx : UInt32
  ebx : UInt32
  esp : UInt32
  ebp : UInt32
  esi : UInt32
  edi : UInt32
  ds : UInt16
  es : UInt16
  fs : UInt16
  gs : UInt16
  ss : UInt16
  memory : Ram
  written : List (UInt16 × UInt8)

/-- The registers of the interrupted code that the processor saves by itself. -/
structure Interrupted where
  eip : UInt32
  cs : UInt16
  eflags : UInt32

namespace Cpu

/-- The word `k` of the stack. -/
def word (s : Cpu) (k : ℕ) : UInt32 := loadWord s.memory (s.esp + UInt32.ofNat (4 * k))

def push (s : Cpu) (w : UInt32) : Cpu :=
  { s with esp := s.esp - 4, memory := storeWord s.memory (s.esp - 4) w }

/-- The stack without its first `k` words. -/
def drop (s : Cpu) (k : ℕ) : Cpu := { s with esp := s.esp + UInt32.ofNat (4 * k) }

/-- The processor saves where it was, on the stack of the kernel if it was in a less privileged
segment. -/
def save (s : Cpu) (c : Interrupted) (esp0 : UInt32) : Cpu :=
  let t := if c.cs &&& 3 = 0 then s
    else ({ s with esp := esp0, ss := 0x10 }.push s.ss.toUInt32).push s.esp
  ((t.push c.eflags).push c.cs.toUInt32).push c.eip

/-- The vectors for which the processor pushes an error code. -/
def PushesCode (vector : UInt8) : Prop :=
  vector = 8 ∨ 10 ≤ vector ∧ vector ≤ 14 ∨ vector = 17 ∨ vector = 30

instance (vector : UInt8) : Decidable (PushesCode vector) :=
  inferInstanceAs (Decidable (vector = 8 ∨ 10 ≤ vector ∧ vector ≤ 14 ∨ vector = 17 ∨ vector = 30))

/-- What the processor does when an interrupt comes. -/
def deliver (s : Cpu) (c : Interrupted) (esp0 : UInt32) (vector : UInt8) (code : UInt32) : Cpu :=
  if PushesCode vector then (s.save c esp0).push code else s.save c esp0

/-- `iret`. -/
def iret (s : Cpu) : Interrupted × Cpu :=
  let c : Interrupted := ⟨s.word 0, (s.word 1).toUInt16, s.word 2⟩
  if c.cs &&& 3 = 0 then (c, s.drop 3)
  else (c, { s with esp := s.word 3, ss := (s.word 4).toUInt16 })

end Cpu

/-! ### The stubs -/

/-- The segment registers that the stubs name. -/
inductive Segment
  | ds
  | es
  | fs
  | gs
deriving DecidableEq

/-- The functions that the stubs call. -/
inductive Extern
  | exceptionHandler
  | timerHandler
deriving DecidableEq

/-- The instructions of the stubs. -/
inductive Instr
  | cli
  | push (w : UInt32)
  | pusha
  | pushSegment (r : Segment)
  | movAx (w : UInt16)
  | movSegmentAx (r : Segment)
  | pushEsp
  | call (f : Extern)
  | addEsp (w : UInt32)
  | popSegment (r : Segment)
  | popa
  | movAl (b : UInt8)
  | outAl (port : UInt16)
  | iret
deriving DecidableEq

/-- `isr_common_stub`. -/
def isrCommonStub : List Instr :=
  [.pusha, .pushSegment .ds, .pushSegment .es, .pushSegment .fs, .pushSegment .gs, .movAx 0x10,
    .movSegmentAx .ds, .movSegmentAx .es, .movSegmentAx .fs, .movSegmentAx .gs, .pushEsp,
    .call .exceptionHandler, .addEsp 4, .popSegment .gs, .popSegment .fs, .popSegment .es,
    .popSegment .ds, .popa, .addEsp 8, .iret]

/-- `ISR_NOERRCODE`. -/
def isrNoerrcode (vector : UInt32) : List Instr := [.push 0, .push vector] ++ isrCommonStub

/-- `ISR_ERRCODE`. -/
def isrErrcode (vector : UInt32) : List Instr := [.push vector] ++ isrCommonStub

/-- `isr0` to `isr31`. -/
def isrTable : List (List Instr) :=
  [isrNoerrcode 0, isrNoerrcode 1, isrNoerrcode 2, isrNoerrcode 3, isrNoerrcode 4, isrNoerrcode 5,
    isrNoerrcode 6, isrNoerrcode 7, isrErrcode 8, isrNoerrcode 9, isrErrcode 10, isrErrcode 11,
    isrErrcode 12, isrErrcode 13, isrErrcode 14, isrNoerrcode 15, isrNoerrcode 16, isrErrcode 17,
    isrNoerrcode 18, isrNoerrcode 19, isrNoerrcode 20, isrNoerrcode 21, isrNoerrcode 22,
    isrNoerrcode 23, isrNoerrcode 24, isrNoerrcode 25, isrNoerrcode 26, isrNoerrcode 27,
    isrNoerrcode 28, isrNoerrcode 29, isrErrcode 30, isrNoerrcode 31]

/-- `isr_timer`. -/
def isrTimer : List Instr := [.pusha, .call .timerHandler, .movAl 0x20, .outAl 0x20, .popa, .iret]

/-- `isr_syscall`. -/
def isrSyscall : List Instr := [.cli, .push 0, .push 0x80] ++ isrCommonStub

/-- The gates that `idt_init` sets. -/
def idtGate (vector : UInt8) : Option (List Instr) :=
  if vector < 32 then isrTable[vector.toNat]?
  else if vector = 32 then some isrTimer
  else if vector = 0x80 then some isrSyscall else none

/-! ### Running a stub -/

namespace Cpu

def segment (s : Cpu) : Segment → UInt16
  | .ds => s.ds
  | .es => s.es
  | .fs => s.fs
  | .gs => s.gs

def setSegment (s : Cpu) (r : Segment) (w : UInt16) : Cpu :=
  match r with
  | .ds => { s with ds := w }
  | .es => { s with es := w }
  | .fs => { s with fs := w }
  | .gs => { s with gs := w }

/-- `pusha`: of `esp` it pushes what it was in front of it. -/
def pushAll (s : Cpu) : Cpu :=
  (((((((s.push s.eax).push s.ecx).push s.edx).push s.ebx).push s.esp).push s.ebp).push s.esi).push
    s.edi

/-- `popa`, which leaves out the word for `esp`. -/
def popAll (s : Cpu) : Cpu :=
  { s.drop 8 with
    edi := s.word 0, esi := s.word 1, ebp := s.word 2, ebx := s.word 4, edx := s.word 5,
    ecx := s.word 6, eax := s.word 7 }

end Cpu

/-- An instruction that goes on to the next one.  A segment register is pushed as a word. -/
def Instr.exec (s : Cpu) : Instr → Cpu
  | .push w => s.push w
  | .pusha => s.pushAll
  | .pushSegment r => s.push (s.segment r).toUInt32
  | .movAx w => { s with eax := (s.eax &&& 0xFFFF0000) ||| w.toUInt32 }
  | .movSegmentAx r => s.setSegment r s.eax.toUInt16
  | .pushEsp => s.push s.esp
  | .addEsp w => { s with esp := s.esp + w }
  | .popSegment r => (s.drop 1).setSegment r (s.word 0).toUInt16
  | .popa => s.popAll
  | .movAl b => { s with eax := (s.eax &&& 0xFFFFFF00) ||| b.toUInt32 }
  | .outAl port => { s with written := s.written ++ [(port, s.eax.toUInt8)] }
  | .cli | .call _ | .iret => s

/-- The functions of the kernel, as what they leave when they return, and the addresses behind the
calls. -/
structure Functions where
  call : Extern → Cpu → Cpu
  behind : Extern → UInt32

/-- A run of a stub: the states in which functions are entered, and the one at `iret`. -/
structure StubRun where
  entered : List (Extern × Cpu)
  atIret : Option Cpu

/-- A run of a stub. -/
def runStub (f : Functions) : List Instr → Cpu → StubRun
  | [], _ => ⟨[], none⟩
  | .iret :: _, s => ⟨[], some s⟩
  | .call g :: stub, s =>
      let r := s.push (f.behind g)
      let rest := runStub f stub (f.call g r)
      ⟨(g, r) :: rest.entered, rest.atIret⟩
  | instr :: stub, s => runStub f stub (instr.exec s)

/-! ### Frames -/

/-- A `regs_t`, word by word. -/
def Regs.ofWords (word : ℕ → UInt32) : Regs :=
  ⟨word 0, word 1, word 2, word 3, word 4, word 5, word 6, word 7, word 8, word 9, word 10,
    word 11, word 12, word 13, word 14, word 15, word 16, word 17, word 18⟩

/-- The `regs_t` at an address. -/
def regsAt (m : Ram) (p : UInt32) : Regs :=
  .ofWords fun k => loadWord m (p + UInt32.ofNat (4 * k))

/-- What a function receives that takes a pointer to a `regs_t`: its argument is behind the return
address. -/
def Cpu.received (r : Cpu) : Regs := regsAt r.memory (r.word 1)

/-! ### The words of the stack -/

theorem Regs.ofWords_congr {word word' : ℕ → UInt32} (h : ∀ k < 19, word k = word' k) :
    Regs.ofWords word = Regs.ofWords word' := by
  simp only [Regs.ofWords, h, Nat.reduceLT]

namespace Cpu

variable (s : Cpu) (w : UInt32)

@[simp] theorem word_push_zero : (s.push w).word 0 = w := by
  change loadWord (storeWord s.memory (s.esp - 4) w) (s.esp - 4 + 0) = w
  rw [UInt32.add_zero, loadWord_storeWord]

/-- **A push moves the other words by one**, as long as they are not all the words there are. -/
@[simp] theorem word_push_succ {k : ℕ} (hk : k < 2 ^ 30 - 1) :
    (s.push w).word (k + 1) = s.word k := by
  have hsub : (s.esp - 4 + UInt32.ofNat (4 * (k + 1)) - (s.esp - 4)).toNat = 4 * (k + 1) := by
    rw [UInt32.add_comm, UInt32.add_sub_cancel, UInt32.toNat_ofNat']
    omega
  have haddr : s.esp - 4 + UInt32.ofNat (4 * (k + 1)) = s.esp + UInt32.ofNat (4 * k) := by
    have hfour : UInt32.ofNat (4 * (k + 1)) = UInt32.ofNat (4 * k) + 4 := UInt32.ofNat_add _ _
    rw [hfour, UInt32.add_comm _ 4, ← UInt32.add_assoc, UInt32.sub_add_cancel]
  change loadWord (storeWord s.memory (s.esp - 4) w) (s.esp - 4 + UInt32.ofNat (4 * (k + 1))) = _
  rw [loadWord_storeWord_of_sub _ _ (by omega), haddr]
  rfl

@[simp] theorem word_drop (n k : ℕ) : (s.drop n).word k = s.word (n + k) := by
  change loadWord s.memory (s.esp + UInt32.ofNat (4 * n) + UInt32.ofNat (4 * k)) = _
  rw [UInt32.add_assoc, ← UInt32.ofNat_add, ← Nat.mul_add]
  rfl

@[simp] theorem drop_drop (n k : ℕ) : (s.drop n).drop k = s.drop (n + k) := by
  change { s with esp := s.esp + UInt32.ofNat (4 * n) + UInt32.ofNat (4 * k) } = s.drop (n + k)
  rw [UInt32.add_assoc, ← UInt32.ofNat_add, ← Nat.mul_add]
  rfl

variable (r : Segment) (v : UInt16)

@[simp] theorem word_setSegment (k : ℕ) : (s.setSegment r v).word k = s.word k := by
  cases r <;> rfl

@[simp] theorem drop_setSegment (k : ℕ) :
    (s.setSegment r v).drop k = (s.drop k).setSegment r v := by
  cases r <;> rfl

theorem segment_push : (s.push w).segment r = s.segment r := by
  cases r <;> rfl

theorem segment_pushAll : s.pushAll.segment r = s.segment r := by
  simp only [pushAll, segment_push]

theorem popAll_setSegment : (s.setSegment r v).popAll = s.popAll.setSegment r v := by
  cases r <;> rfl

theorem drop_popAll (n : ℕ) :
    s.popAll.drop n =
      { s.drop (8 + n) with
        edi := s.word 0, esi := s.word 1, ebp := s.word 2, ebx := s.word 4, edx := s.word 5,
        ecx := s.word 6, eax := s.word 7 } := by
  rw [← drop_drop]
  rfl

/-- `pusha` puts the registers in front of what was on the stack. -/
theorem word_pushAll :
    s.pushAll.word 0 = s.edi ∧ s.pushAll.word 1 = s.esi ∧ s.pushAll.word 2 = s.ebp ∧
      s.pushAll.word 4 = s.ebx ∧ s.pushAll.word 5 = s.edx ∧ s.pushAll.word 6 = s.ecx ∧
        s.pushAll.word 7 = s.eax := by
  simp [pushAll]

theorem word_pushAll_add {k : ℕ} (hk : k < 2 ^ 20) : s.pushAll.word (k + 8) = s.word k := by
  unfold pushAll
  simp (disch := omega) only [word_push_succ]

/-! ### Frames on the stack -/

/-- The words from `n` on, as a `regs_t`. -/
def frame (n : ℕ) : Regs := .ofWords fun k => s.word (n + k)

theorem regsAt_esp (n : ℕ) : regsAt s.memory (s.esp + UInt32.ofNat (4 * n)) = s.frame n :=
  congrArg Regs.ofWords (funext fun k => s.word_drop n k)

theorem frame_push_succ {n : ℕ} (hn : n < 2 ^ 20) : (s.push w).frame (n + 1) = s.frame n := by
  refine Regs.ofWords_congr fun k hk => ?_
  rw [Nat.add_right_comm]
  exact s.word_push_succ w (by omega)

/-- The argument of a call is a pointer to the words that were there in front of it. -/
theorem received_push_push (ret : UInt32) : ((s.push s.esp).push ret).received = s.frame 0 := by
  have harg : ((s.push s.esp).push ret).word 1 = s.esp := by simp
  have hesp : ((s.push s.esp).push ret).esp + UInt32.ofNat (4 * 2) = s.esp := by
    change s.esp - 4 - 4 + (4 + 4) = s.esp
    rw [← UInt32.add_assoc, UInt32.sub_add_cancel, UInt32.sub_add_cancel]
  have hregs := ((s.push s.esp).push ret).regsAt_esp 2
  rw [hesp, frame_push_succ _ _ (by decide), frame_push_succ _ _ (by decide)] at hregs
  rw [received, harg, hregs]

/-- The stub saves all registers. -/
def saveRegisters : Cpu :=
  (((s.pushAll.push s.ds.toUInt32).push s.es.toUInt32).push s.fs.toUInt32).push s.gs.toUInt32

/-- In the frame, they are in front of what was on the stack. -/
theorem frame_saveRegisters :
    s.saveRegisters.frame 0 =
      { gs := s.gs.toUInt32, fs := s.fs.toUInt32, es := s.es.toUInt32, ds := s.ds.toUInt32,
        edi := s.edi, esi := s.esi, ebp := s.ebp, esp := s.esp, ebx := s.ebx, edx := s.edx,
        ecx := s.ecx, eax := s.eax, intNo := s.word 0, errCode := s.word 1, eip := s.word 2,
        cs := s.word 3, eflags := s.word 4, useresp := s.word 5, ss := s.word 6 } := by
  simp [frame, Regs.ofWords, saveRegisters, pushAll]

/-- The stub goes on with the segments of the kernel. -/
def kernelSegments : Cpu :=
  let t := { s with eax := (s.eax &&& 0xFFFF0000) ||| 0x10 }
  { t with ds := t.eax.toUInt16, es := t.eax.toUInt16, fs := t.eax.toUInt16, gs := t.eax.toUInt16 }

/-- The stub takes the registers back and drops the vector and the error code. -/
def restoreRegisters : Cpu :=
  { s.drop 14 with
    gs := (s.word 0).toUInt16, fs := (s.word 1).toUInt16, es := (s.word 2).toUInt16,
    ds := (s.word 3).toUInt16, edi := s.word 4, esi := s.word 5, ebp := s.word 6,
    ebx := s.word 8, edx := s.word 9, ecx := s.word 10, eax := s.word 11 }

/-- The state in which the handler is entered. -/
def enterHandler (f : Functions) : Cpu :=
  let t := s.saveRegisters.kernelSegments
  (t.push t.esp).push (f.behind .exceptionHandler)

/-- The state in which the stub reaches `iret`, if the handler leaves it the state `u`. -/
def leaveHandler (u : Cpu) : Cpu := (u.drop 1).restoreRegisters

end Cpu

/-! ### Runs -/

/-- The instructions that neither call a function nor end the stub. -/
def Instr.goesOn : Instr → Bool
  | .call _ | .iret => false
  | _ => true

/-- Such instructions are executed one after the other. -/
theorem runStub_append (f : Functions) (stub : List Instr) {instrs : List Instr}
    (h : ∀ i ∈ instrs, i.goesOn) (s : Cpu) :
    runStub f (instrs ++ stub) s = runStub f stub (instrs.foldl Instr.exec s) := by
  induction instrs generalizing s with
  | nil => rfl
  | cons i instrs ih =>
      obtain ⟨hi, hinstrs⟩ := List.forall_mem_cons.mp h
      have hstep : runStub f (i :: (instrs ++ stub)) s = runStub f (instrs ++ stub) (i.exec s) := by
        cases i <;> first | rfl | simp [Instr.goesOn] at hi
      rw [List.cons_append, hstep, ih hinstrs, List.foldl_cons]

/-- The instructions of the common part up to the call. -/
def callHandler : List Instr :=
  [.pusha, .pushSegment .ds, .pushSegment .es, .pushSegment .fs, .pushSegment .gs, .movAx 0x10,
    .movSegmentAx .ds, .movSegmentAx .es, .movSegmentAx .fs, .movSegmentAx .gs, .pushEsp]

/-- The instructions from the call to `iret`. -/
def returnFromHandler : List Instr :=
  [.addEsp 4, .popSegment .gs, .popSegment .fs, .popSegment .es, .popSegment .ds, .popa, .addEsp 8]

theorem exec_callHandler (s : Cpu) :
    callHandler.foldl Instr.exec s =
      s.saveRegisters.kernelSegments.push s.saveRegisters.kernelSegments.esp := by
  have hsave : [Instr.pusha, .pushSegment .ds, .pushSegment .es, .pushSegment .fs,
      .pushSegment .gs].foldl Instr.exec s = s.saveRegisters := by
    simp only [List.foldl_cons, List.foldl_nil, Instr.exec, Cpu.segment_push,
      Cpu.segment_pushAll]
    rfl
  have hkernel (t : Cpu) : [Instr.movAx 0x10, .movSegmentAx .ds, .movSegmentAx .es,
      .movSegmentAx .fs, .movSegmentAx .gs, .pushEsp].foldl Instr.exec t =
        t.kernelSegments.push t.kernelSegments.esp := rfl
  rw [← hkernel, ← hsave, ← List.foldl_append]
  rfl

theorem exec_returnFromHandler (u : Cpu) :
    returnFromHandler.foldl Instr.exec u = u.leaveHandler := by
  have hfour : ({ u with esp := u.esp + 4 } : Cpu) = u.drop 1 := rfl
  have height : ∀ t : Cpu, ({ t with esp := t.esp + 8 } : Cpu) = t.drop 2 := fun _ => rfl
  simp only [returnFromHandler, List.foldl_cons, List.foldl_nil, Instr.exec, hfour, height,
    Cpu.drop_setSegment, Cpu.word_setSegment, Cpu.popAll_setSegment, Cpu.drop_popAll,
    Cpu.drop_drop, Cpu.word_drop, Nat.reduceAdd, Cpu.leaveHandler, Cpu.restoreRegisters]
  rfl

/-- **What the common part of the stubs does.** -/
theorem runStub_isrCommonStub (f : Functions) (s : Cpu) :
    runStub f isrCommonStub s =
      ⟨[(.exceptionHandler, s.enterHandler f)],
        some (Cpu.leaveHandler (f.call .exceptionHandler (s.enterHandler f)))⟩ := by
  have hsplit : isrCommonStub =
      callHandler ++ (.call .exceptionHandler :: (returnFromHandler ++ [.iret])) := rfl
  rw [hsplit, runStub_append f _ (by decide), exec_callHandler]
  simp only [runStub]
  rw [runStub_append f _ (by decide), exec_returnFromHandler]
  rfl

/-! ### The gates -/

/-- The instructions of the stub of a vector, in front of the common part. -/
def isrEntry (vector : UInt8) : List Instr :=
  if Cpu.PushesCode vector then [.push vector.toUInt32]
  else if vector = 0x80 then [.cli, .push 0, .push 0x80] else [.push 0, .push vector.toUInt32]

theorem isrEntry_goesOn (vector : UInt8) : ∀ i ∈ isrEntry vector, i.goesOn := by
  unfold isrEntry
  split_ifs <;> simp [Instr.goesOn]

/-- The stubs have the same shape for all vectors that the handler is called for. -/
theorem idtGate_eq {vector : UInt8} (h : vector < 32 ∨ vector = 0x80) :
    idtGate vector = some (isrEntry vector ++ isrCommonStub) := by
  rcases h with h | rfl
  · have htable : ∀ n < 32, isrTable[n]? = some (isrEntry (UInt8.ofNat n) ++ isrCommonStub) := by
      decide
    rw [idtGate, if_pos h, htable vector.toNat h, UInt8.ofNat_toNat]
  · rfl

/-- The state in which the common part of the stubs is reached. -/
def Cpu.inCommonStub (s : Cpu) (c : Interrupted) (esp0 : UInt32) (vector : UInt8) (code : UInt32) :
    Cpu :=
  ((s.save c esp0).push (if Cpu.PushesCode vector then code else 0)).push vector.toUInt32

/-- The stub pushes the vector, and a zero if there is no error code. -/
theorem exec_isrEntry (s : Cpu) (c : Interrupted) (esp0 : UInt32) (vector : UInt8)
    (code : UInt32) :
    (isrEntry vector).foldl Instr.exec (s.deliver c esp0 vector code) =
      s.inCommonStub c esp0 vector code := by
  unfold isrEntry Cpu.deliver Cpu.inCommonStub
  by_cases hcode : Cpu.PushesCode vector
  · simp only [if_pos hcode]
    rfl
  · by_cases hsys : vector = 0x80
    · subst hsys
      simp only [if_neg hcode, if_pos]
      rfl
    · simp only [if_neg hcode, if_neg hsys]
      rfl

/-- **What a stub does in front of the common part.** -/
theorem runStub_isr (f : Functions) (s : Cpu) (c : Interrupted) (esp0 : UInt32) (vector : UInt8)
    (code : UInt32) :
    runStub f (isrEntry vector ++ isrCommonStub) (s.deliver c esp0 vector code) =
      runStub f isrCommonStub (s.inCommonStub c esp0 vector code) := by
  rw [runStub_append f _ (isrEntry_goesOn vector), exec_isrEntry]

/-! ### The interrupted state -/

/-- The frame holds the interrupted state. -/
structure Regs.Saves (r : Regs) (s : Cpu) (c : Interrupted) (vector : UInt8) (code : UInt32) :
    Prop where
  intNo : r.intNo = vector.toUInt32
  errCode : r.errCode = if Cpu.PushesCode vector then code else 0
  gs : r.gs = s.gs.toUInt32
  fs : r.fs = s.fs.toUInt32
  es : r.es = s.es.toUInt32
  ds : r.ds = s.ds.toUInt32
  edi : r.edi = s.edi
  esi : r.esi = s.esi
  ebp : r.ebp = s.ebp
  ebx : r.ebx = s.ebx
  edx : r.edx = s.edx
  ecx : r.ecx = s.ecx
  eax : r.eax = s.eax
  eip : r.eip = c.eip
  cs : r.cs = c.cs.toUInt32
  eflags : r.eflags = c.eflags

/-- The registers are the same, but for `eax` and the stack. -/
structure Cpu.SameRegisters (t s : Cpu) : Prop where
  gs : t.gs = s.gs
  fs : t.fs = s.fs
  es : t.es = s.es
  ds : t.ds = s.ds
  edi : t.edi = s.edi
  esi : t.esi = s.esi
  ebp : t.ebp = s.ebp
  ebx : t.ebx = s.ebx
  edx : t.edx = s.edx
  ecx : t.ecx = s.ecx

/-- The registers are as they were in the interrupted code, but for `eax`, and the stack is as the
processor left it. -/
structure Cpu.Restores (t s : Cpu) (c : Interrupted) (esp0 eax : UInt32) : Prop
    extends t.SameRegisters s where
  eax : t.eax = eax
  esp : t.esp = (s.save c esp0).esp
  eip : t.word 0 = c.eip
  cs : t.word 1 = c.cs.toUInt32
  eflags : t.word 2 = c.eflags
  useresp : t.word 3 = (s.save c esp0).word 3
  ss : t.word 4 = (s.save c esp0).word 4

/-- The function entered in `r` has changed the `eax` of its frame only and returned. -/
structure Cpu.ChangesEax (r u : Cpu) (eax : UInt32) : Prop where
  esp : u.esp = r.esp + 4
  frame : regsAt u.memory (r.word 1) = { r.received with eax := eax }

namespace Cpu

variable (s : Cpu) (c : Interrupted) (esp0 : UInt32)

variable {s} in
theorem SameRegisters.push {t : Cpu} (h : t.SameRegisters s) (w : UInt32) :
    (t.push w).SameRegisters s :=
  ⟨h.gs, h.fs, h.es, h.ds, h.edi, h.esi, h.ebp, h.ebx, h.edx, h.ecx⟩

variable {s} in
theorem SameRegisters.trans {t u : Cpu} (h : u.SameRegisters t) (h' : t.SameRegisters s) :
    u.SameRegisters s :=
  ⟨h.gs.trans h'.gs, h.fs.trans h'.fs, h.es.trans h'.es, h.ds.trans h'.ds, h.edi.trans h'.edi,
    h.esi.trans h'.esi, h.ebp.trans h'.ebp, h.ebx.trans h'.ebx, h.edx.trans h'.edx,
    h.ecx.trans h'.ecx⟩

theorem SameRegisters.refl : s.SameRegisters s :=
  ⟨rfl, rfl, rfl, rfl, rfl, rfl, rfl, rfl, rfl, rfl⟩

theorem sameRegisters_pushAll : s.pushAll.SameRegisters s :=
  ((((((((SameRegisters.refl s).push _).push _).push _).push _).push _).push _).push _).push _

/-- The processor changes the stack only. -/
theorem save_sameRegisters : (s.save c esp0).SameRegisters s := by
  have hstack : ({ s with esp := esp0, ss := 0x10 } : Cpu).SameRegisters s :=
    ⟨rfl, rfl, rfl, rfl, rfl, rfl, rfl, rfl, rfl, rfl⟩
  unfold save
  split_ifs
  · exact (((SameRegisters.refl s).push _).push _).push _
  · exact ((((hstack.push _).push _).push _).push _).push _

theorem push_eax (w : UInt32) : (s.push w).eax = s.eax := rfl

theorem save_eax : (s.save c esp0).eax = s.eax := by
  unfold save
  split_ifs <;> simp only [push_eax]

theorem save_word :
    (s.save c esp0).word 0 = c.eip ∧ (s.save c esp0).word 1 = c.cs.toUInt32 ∧
      (s.save c esp0).word 2 = c.eflags := by
  simp [save]

/-- What the handler receives. -/
theorem received_enterHandler (f : Functions) :
    (s.enterHandler f).received =
      { gs := s.gs.toUInt32, fs := s.fs.toUInt32, es := s.es.toUInt32, ds := s.ds.toUInt32,
        edi := s.edi, esi := s.esi, ebp := s.ebp, esp := s.esp, ebx := s.ebx, edx := s.edx,
        ecx := s.ecx, eax := s.eax, intNo := s.word 0, errCode := s.word 1, eip := s.word 2,
        cs := s.word 3, eflags := s.word 4, useresp := s.word 5, ss := s.word 6 } := by
  have hframe : s.saveRegisters.kernelSegments.frame 0 = s.saveRegisters.frame 0 := rfl
  rw [enterHandler, received_push_push, hframe, frame_saveRegisters]

variable {s} {f : Functions} {u : Cpu} {eax : UInt32}

/-- Behind the return address and the argument of the handler there is the frame. -/
theorem esp_of_changesEax (h : (s.enterHandler f).ChangesEax u eax) :
    (u.drop 1).esp = s.saveRegisters.esp := by
  change u.esp + 4 = _
  rw [h.esp]
  change s.saveRegisters.esp - 4 - 4 + 4 + 4 = _
  rw [UInt32.sub_add_cancel, UInt32.sub_add_cancel]

/-- The words of the frame, behind the handler. -/
theorem words_of_changesEax (h : (s.enterHandler f).ChangesEax u eax) :
    Regs.ofWords (u.drop 1).word =
      { gs := s.gs.toUInt32, fs := s.fs.toUInt32, es := s.es.toUInt32, ds := s.ds.toUInt32,
        edi := s.edi, esi := s.esi, ebp := s.ebp, esp := s.esp, ebx := s.ebx, edx := s.edx,
        ecx := s.ecx, eax := eax, intNo := s.word 0, errCode := s.word 1, eip := s.word 2,
        cs := s.word 3, eflags := s.word 4, useresp := s.word 5, ss := s.word 6 } := by
  have hframe := h.frame
  have hword : (s.enterHandler f).word 1 = s.saveRegisters.esp := by
    change ((s.saveRegisters.kernelSegments.push s.saveRegisters.esp).push _).word 1 = _
    simp
  rw [received_enterHandler, hword, ← esp_of_changesEax h] at hframe
  exact hframe

/-- The stub takes the registers back. -/
theorem leaveHandler_sameRegisters (h : (s.enterHandler f).ChangesEax u eax) :
    u.leaveHandler.SameRegisters s := by
  have hwords := words_of_changesEax h
  have hsegment {w : UInt32} {v : UInt16} (hw : w = v.toUInt32) : w.toUInt16 = v := by
    rw [hw, UInt16.toUInt16_toUInt32]
  exact
    { gs := hsegment (congrArg Regs.gs hwords)
      fs := hsegment (congrArg Regs.fs hwords)
      es := hsegment (congrArg Regs.es hwords)
      ds := hsegment (congrArg Regs.ds hwords)
      edi := congrArg Regs.edi hwords
      esi := congrArg Regs.esi hwords
      ebp := congrArg Regs.ebp hwords
      ebx := congrArg Regs.ebx hwords
      edx := congrArg Regs.edx hwords
      ecx := congrArg Regs.ecx hwords }

theorem leaveHandler_eax (h : (s.enterHandler f).ChangesEax u eax) : u.leaveHandler.eax = eax :=
  congrArg Regs.eax (words_of_changesEax h)

/-- It leaves the words behind the vector and the error code. -/
theorem leaveHandler_words (h : (s.enterHandler f).ChangesEax u eax) :
    u.leaveHandler.word 0 = s.word 2 ∧ u.leaveHandler.word 1 = s.word 3 ∧
      u.leaveHandler.word 2 = s.word 4 ∧ u.leaveHandler.word 3 = s.word 5 ∧
        u.leaveHandler.word 4 = s.word 6 := by
  have hwords := words_of_changesEax h
  have hword (k : ℕ) : u.leaveHandler.word k = (u.drop 1).word (14 + k) := word_drop (u.drop 1) 14 k
  simp only [hword]
  exact ⟨congrArg Regs.eip hwords, congrArg Regs.cs hwords, congrArg Regs.eflags hwords,
    congrArg Regs.useresp hwords, congrArg Regs.ss hwords⟩

/-- It takes back what it pushed, and the two words. -/
theorem leaveHandler_esp {w w' : UInt32}
    (h : (((s.push w).push w').enterHandler f).ChangesEax u eax) : u.leaveHandler.esp = s.esp := by
  change (u.drop 1).esp + 56 = s.esp
  rw [esp_of_changesEax h]
  change s.esp - 4 - 4 - 4 - 4 - 4 - 4 - 4 - 4 - 4 - 4 - 4 - 4 - 4 - 4 + 56 = s.esp
  grind

/-! ### Saving and restoring -/

variable (s) (vector : UInt8) (code : UInt32)

theorem inCommonStub_sameRegisters : (s.inCommonStub c esp0 vector code).SameRegisters s :=
  ((s.save_sameRegisters c esp0).push _).push _

theorem inCommonStub_eax : (s.inCommonStub c esp0 vector code).eax = s.eax := by
  rw [inCommonStub, push_eax, push_eax, save_eax]

theorem inCommonStub_vector : (s.inCommonStub c esp0 vector code).word 0 = vector.toUInt32 := by
  rw [inCommonStub, word_push_zero]

theorem inCommonStub_code :
    (s.inCommonStub c esp0 vector code).word 1 = if PushesCode vector then code else 0 := by
  rw [inCommonStub, word_push_succ _ _ (by decide), word_push_zero]

/-- Behind the vector and the error code there is what the processor saved. -/
theorem inCommonStub_word {k : ℕ} (hk : k < 5) :
    (s.inCommonStub c esp0 vector code).word (k + 2) = (s.save c esp0).word k := by
  rw [inCommonStub, word_push_succ _ _ (by omega), word_push_succ _ _ (by omega)]

variable {s c vector code} in
/-- In a state with the registers of the interrupted code, the words of the stack decide the rest
of the frame. -/
theorem saves_of_words {t : Cpu} (hregs : t.SameRegisters s) (heax : t.eax = s.eax)
    (hvector : t.word 0 = vector.toUInt32)
    (hcode : t.word 1 = if PushesCode vector then code else 0) (heip : t.word 2 = c.eip)
    (hcs : t.word 3 = c.cs.toUInt32) (heflags : t.word 4 = c.eflags) (f : Functions) :
    (t.enterHandler f).received.Saves s c vector code := by
  rw [received_enterHandler]
  exact
    { intNo := hvector
      errCode := hcode
      gs := congrArg UInt16.toUInt32 hregs.gs
      fs := congrArg UInt16.toUInt32 hregs.fs
      es := congrArg UInt16.toUInt32 hregs.es
      ds := congrArg UInt16.toUInt32 hregs.ds
      edi := hregs.edi
      esi := hregs.esi
      ebp := hregs.ebp
      ebx := hregs.ebx
      edx := hregs.edx
      ecx := hregs.ecx
      eax := heax
      eip := heip
      cs := hcs
      eflags := heflags }

/-- **The handler receives the interrupted state.** -/
theorem received_saves (f : Functions) :
    ((s.inCommonStub c esp0 vector code).enterHandler f).received.Saves s c vector code := by
  obtain ⟨heip, hcs, heflags⟩ := s.save_word c esp0
  refine saves_of_words (s.inCommonStub_sameRegisters c esp0 vector code)
    (s.inCommonStub_eax c esp0 vector code) (s.inCommonStub_vector c esp0 vector code)
    (s.inCommonStub_code c esp0 vector code) ?_ ?_ ?_ f
  · exact (s.inCommonStub_word c esp0 vector code (k := 0) (by decide)).trans heip
  · exact (s.inCommonStub_word c esp0 vector code (k := 1) (by decide)).trans hcs
  · exact (s.inCommonStub_word c esp0 vector code (k := 2) (by decide)).trans heflags

variable {s c esp0 vector code}

/-- **The stub restores the interrupted state.** -/
theorem leaveHandler_restores
    (h : ((s.inCommonStub c esp0 vector code).enterHandler f).ChangesEax u eax) :
    u.leaveHandler.Restores s c esp0 eax := by
  have hword {k : ℕ} (hk : k < 5) := s.inCommonStub_word c esp0 vector code hk
  obtain ⟨heip, hcs, heflags⟩ := s.save_word c esp0
  obtain ⟨hzero, hone, htwo, hthree, hfour⟩ := leaveHandler_words h
  exact
    { toSameRegisters :=
        (leaveHandler_sameRegisters h).trans (s.inCommonStub_sameRegisters c esp0 vector code)
      eax := leaveHandler_eax h
      esp := leaveHandler_esp h
      eip := (hzero.trans (hword (by decide))).trans heip
      cs := (hone.trans (hword (by decide))).trans hcs
      eflags := (htwo.trans (hword (by decide))).trans heflags
      useresp := hthree.trans (hword (by decide))
      ss := hfour.trans (hword (by decide)) }

end Cpu

/-! ### Storing the result -/

/-- A store into the word for `eax` changes the `eax` of the frame only. -/
theorem regsAt_storeWord_eax (m : Ram) (p eax : UInt32) :
    regsAt (storeWord m (p + UInt32.ofNat (4 * 11)) eax) p = { regsAt m p with eax := eax } := by
  have hword {k : ℕ} (hk : k < 19) (hne : k ≠ 11) :
      loadWord (storeWord m (p + UInt32.ofNat (4 * 11)) eax) (p + UInt32.ofNat (4 * k)) =
        loadWord m (p + UInt32.ofNat (4 * k)) := by
    apply loadWord_storeWord_of_sub
    have hp := p.toNat_lt
    rw [UInt32.toNat_sub, UInt32.toNat_add, UInt32.toNat_add, UInt32.toNat_ofNat',
      UInt32.toNat_ofNat']
    omega
  unfold regsAt Regs.ofWords
  simp (disch := decide) only [hword, loadWord_storeWord]

/-- Functions that return `eax` in the frame that they are called with. -/
def Functions.returning (eax : UInt32) : Functions where
  call _ r :=
    { r.drop 1 with memory := storeWord r.memory (r.word 1 + UInt32.ofNat (4 * 11)) eax }
  behind _ := 0x100000

theorem changesEax_returning (eax : UInt32) (g : Extern) (r : Cpu) :
    r.ChangesEax ((Functions.returning eax).call g r) eax :=
  ⟨rfl, regsAt_storeWord_eax r.memory (r.word 1) eax⟩

/-! ### Exceptions and system calls -/

/-- **The frame is the interrupted state, and it is restored.**  For every vector that
`exception_handler` is there for, it is entered once, with the interrupted state in its frame, and
if it changes no register but `eax` there, the stub reaches `iret` with the interrupted registers
and the stack as the processor left it. -/
theorem isr_saves_restores (f : Functions) (s : Cpu) (c : Interrupted) (esp0 code : UInt32)
    {vector : UInt8} (h : vector < 32 ∨ vector = 0x80) :
    ∃ stub r t, idtGate vector = some stub ∧
      runStub f stub (s.deliver c esp0 vector code) = ⟨[(.exceptionHandler, r)], some t⟩ ∧
      r.received.Saves s c vector code ∧
      ∀ eax, r.ChangesEax (f.call .exceptionHandler r) eax → t.Restores s c esp0 eax := by
  have hrun := runStub_isr f s c esp0 vector code
  rw [runStub_isrCommonStub] at hrun
  exact ⟨_, _, _, idtGate_eq h, hrun, s.received_saves c esp0 vector code f,
    fun eax hchanges => Cpu.leaveHandler_restores hchanges⟩

/-- User code with different values in all registers. -/
def userCpu : Cpu where
  eax := 1
  ecx := 2
  edx := 3
  ebx := 4
  esp := 0xBFFFFFF0
  ebp := 5
  esi := 6
  edi := 7
  ds := 0x23
  es := 0x33
  fs := 0x43
  gs := 0x53
  ss := 0x2B
  memory := fun _ => 0
  written := []

/-- A page fault in user code, and a handler that leaves a seven. -/
theorem isr_saves_restores_pageFault :
    ∃ stub r t, idtGate 14 = some stub ∧
      runStub (.returning 7) stub (userCpu.deliver ⟨0x400010, 0x1B, 0x202⟩ 0x9000 14 6) =
        ⟨[(.exceptionHandler, r)], some t⟩ ∧
      r.received.Saves userCpu ⟨0x400010, 0x1B, 0x202⟩ 14 6 ∧
      t.Restores userCpu ⟨0x400010, 0x1B, 0x202⟩ 0x9000 7 := by
  obtain ⟨stub, r, t, hgate, hrun, hsaves, hrestores⟩ :=
    isr_saves_restores (.returning 7) userCpu ⟨0x400010, 0x1B, 0x202⟩ 0x9000 6
      (Or.inl (by decide : (14 : UInt8) < 32))
  exact ⟨stub, r, t, hgate, hrun, hsaves, hrestores 7 (changesEax_returning 7 _ r)⟩

/-- **The interrupted code goes on.** -/
theorem Cpu.Restores.iret {t s : Cpu} {c : Interrupted} {esp0 eax : UInt32}
    (h : t.Restores s c esp0 eax) :
    t.iret.1 = c ∧ t.iret.2.SameRegisters s ∧ t.iret.2.eax = eax ∧ t.iret.2.esp = s.esp ∧
      (c.cs &&& 3 ≠ 0 → t.iret.2.ss = s.ss) := by
  have hc : (⟨t.word 0, (t.word 1).toUInt16, t.word 2⟩ : Interrupted) = c := by
    rw [h.eip, h.cs, h.eflags, UInt16.toUInt16_toUInt32]
  have hregs := h.toSameRegisters
  unfold Cpu.iret
  rw [hc]
  by_cases hkernel : c.cs &&& 3 = 0
  · have hesp : (s.save c esp0).esp + 12 = s.esp := by
      rw [Cpu.save, if_pos hkernel]
      change s.esp - 4 - 4 - 4 + 12 = s.esp
      grind
    rw [if_pos hkernel]
    refine ⟨rfl, ⟨hregs.gs, hregs.fs, hregs.es, hregs.ds, hregs.edi, hregs.esi, hregs.ebp,
      hregs.ebx, hregs.edx, hregs.ecx⟩, h.eax, ?_, fun hne => absurd hkernel hne⟩
    rw [← hesp, ← h.esp]
    rfl
  · have hstack : (s.save c esp0).word 3 = s.esp ∧ (s.save c esp0).word 4 = s.ss.toUInt32 := by
      simp [Cpu.save, hkernel]
    rw [if_neg hkernel]
    refine ⟨rfl, ⟨hregs.gs, hregs.fs, hregs.es, hregs.ds, hregs.edi, hregs.esi, hregs.ebp,
      hregs.ebx, hregs.edx, hregs.ecx⟩, h.eax, h.useresp.trans hstack.1, fun _ => ?_⟩
    change (t.word 4).toUInt16 = s.ss
    rw [h.ss, hstack.2, UInt16.toUInt16_toUInt32]

/-! ### The handler -/

/-- If the handler returns, it has changed the `eax` of the frame only. -/
theorem exceptionHandler_value {m : Ram} {r r' : Regs} {printed : List UInt8}
    (h : exceptionHandler m r = .ok ⟨printed, some r'⟩) : ∃ eax, r' = { r with eax := eax } := by
  unfold exceptionHandler at h
  split_ifs at h with hsys hvector
  · unfold syscallHandler at h
    split_ifs at h with hmax
    · cases h
      exact ⟨_, rfl⟩
    · split at h
      · cases h
      · obtain ⟨result, -, hresult⟩ := bind_eq_ok.mp h
        have hvalue := congrArg Returned.value (Except.ok.inj hresult)
        obtain ⟨eax, -, heax⟩ := Option.map_eq_some_iff.mp hvalue
        exact ⟨eax, heax.symm⟩
  · split at h
    · cases h
    · obtain ⟨_, -, hpanic⟩ := bind_eq_ok.mp h
      cases hpanic
  · cases h
    exact ⟨r.eax, rfl⟩

/-- The function that the stubs call is `exception_handler`: when that returns, it has left its
frame in the place of the one that it was called with. -/
def Functions.RunsHandler (f : Functions) : Prop :=
  ∀ r printed regs, exceptionHandler r.memory r.received = .ok ⟨printed, some regs⟩ →
    (f.call .exceptionHandler r).esp = r.esp + 4 ∧
      regsAt (f.call .exceptionHandler r).memory (r.word 1) = regs

/-- **An interrupt that the handler returns from** leaves the interrupted code with its registers
and the `eax` of the handler. -/
theorem isr_resumes {f : Functions} (hf : f.RunsHandler) (s : Cpu) (c : Interrupted)
    (esp0 code : UInt32) {vector : UInt8} (h : vector < 32 ∨ vector = 0x80) :
    ∃ stub r t, idtGate vector = some stub ∧
      runStub f stub (s.deliver c esp0 vector code) = ⟨[(.exceptionHandler, r)], some t⟩ ∧
      ∀ printed regs, exceptionHandler r.memory r.received = .ok ⟨printed, some regs⟩ →
        t.iret.1 = c ∧ t.iret.2.SameRegisters s ∧ t.iret.2.eax = regs.eax ∧
          t.iret.2.esp = s.esp := by
  have hrun := runStub_isr f s c esp0 vector code
  rw [runStub_isrCommonStub] at hrun
  refine ⟨_, _, _, idtGate_eq h, hrun, fun printed regs hregs => ?_⟩
  obtain ⟨hesp, hframe⟩ := hf _ printed regs hregs
  obtain ⟨eax, heax⟩ := exceptionHandler_value hregs
  have hrestores := Cpu.leaveHandler_restores ⟨hesp, hframe.trans heax⟩
  obtain ⟨hcode, hsame, hresult, hstack, -⟩ := hrestores.iret
  exact ⟨hcode, hsame, hresult.trans (congrArg Regs.eax heax.symm), hstack⟩

/-! ### The timer -/

/-- The function entered in `r` has returned and kept the stack and the segment registers, which
the stub of the timer does not save. -/
structure Cpu.Keeps (r u : Cpu) : Prop where
  gs : u.gs = r.gs
  fs : u.fs = r.fs
  es : u.es = r.es
  ds : u.ds = r.ds
  esp : u.esp = r.esp + 4
  stack : ∀ k < 13, u.word k = r.word (k + 1)

/-- The state in which the stub of the timer reaches `iret`, if the handler leaves it the state
`u`. -/
def Cpu.leaveTimer (u : Cpu) : Cpu := { u.popAll with written := u.written ++ [(0x20, 0x20)] }

theorem runStub_isrTimer (f : Functions) (s : Cpu) :
    runStub f isrTimer s =
      ⟨[(.timerHandler, s.pushAll.push (f.behind .timerHandler))],
        some (f.call .timerHandler (s.pushAll.push (f.behind .timerHandler))).leaveTimer⟩ := by
  have hout (u : Cpu) : ((u.eax &&& 0xFFFFFF00) ||| 0x20).toUInt8 = 0x20 := by
    rw [UInt32.toUInt8_or, UInt32.toUInt8_and]
    change (u.eax.toUInt8 &&& 0) ||| 0x20 = 0x20
    rw [UInt8.and_zero, UInt8.zero_or]
  have hleave (u : Cpu) :
      [Instr.movAl 0x20, .outAl 0x20, .popa].foldl Instr.exec u = u.leaveTimer := by
    have hexec : [Instr.movAl 0x20, .outAl 0x20, .popa].foldl Instr.exec u =
        { u.popAll with
          written := u.written ++ [(0x20, ((u.eax &&& 0xFFFFFF00) ||| 0x20).toUInt8)] } := rfl
    rw [hexec, hout, Cpu.leaveTimer]
  rw [← hleave]
  rfl

namespace Cpu

variable {s u : Cpu} {f : Functions}

/-- The words of the stack, behind the handler. -/
theorem Keeps.word (h : (s.pushAll.push (f.behind .timerHandler)).Keeps u) {k : ℕ} (hk : k < 13) :
    u.word k = s.pushAll.word k := by
  rw [h.stack k hk, word_push_succ _ _ (by omega)]

theorem Keeps.sameRegisters (h : (s.pushAll.push (f.behind .timerHandler)).Keeps u) :
    u.leaveTimer.SameRegisters s ∧ u.leaveTimer.eax = s.eax := by
  obtain ⟨hedi, hesi, hebp, hebx, hedx, hecx, heax⟩ := s.word_pushAll
  have hentry := s.sameRegisters_pushAll.push (f.behind .timerHandler)
  exact
    ⟨{ gs := h.gs.trans hentry.gs
       fs := h.fs.trans hentry.fs
       es := h.es.trans hentry.es
       ds := h.ds.trans hentry.ds
       edi := (h.word (by decide)).trans hedi
       esi := (h.word (by decide)).trans hesi
       ebp := (h.word (by decide)).trans hebp
       ebx := (h.word (by decide)).trans hebx
       edx := (h.word (by decide)).trans hedx
       ecx := (h.word (by decide)).trans hecx },
      (h.word (by decide)).trans heax⟩

theorem Keeps.word_leaveTimer (h : (s.pushAll.push (f.behind .timerHandler)).Keeps u) {k : ℕ}
    (hk : k < 5) : u.leaveTimer.word k = s.word k := by
  have hword : u.leaveTimer.word k = u.word (8 + k) := u.word_drop 8 k
  rw [hword, h.word (by omega), Nat.add_comm, s.word_pushAll_add (by omega)]

theorem Keeps.esp_leaveTimer (h : (s.pushAll.push (f.behind .timerHandler)).Keeps u) :
    u.leaveTimer.esp = s.esp := by
  change u.esp + 32 = s.esp
  rw [h.esp]
  change s.esp - 4 - 4 - 4 - 4 - 4 - 4 - 4 - 4 - 4 + 4 + 32 = s.esp
  grind

/-- The stub restores the interrupted state. -/
theorem leaveTimer_restores (c : Interrupted) (esp0 : UInt32)
    (h : ((s.save c esp0).pushAll.push (f.behind .timerHandler)).Keeps u) :
    u.leaveTimer.Restores s c esp0 s.eax := by
  obtain ⟨heip, hcs, heflags⟩ := s.save_word c esp0
  obtain ⟨hregs, heax⟩ := h.sameRegisters
  exact
    { toSameRegisters := hregs.trans (s.save_sameRegisters c esp0)
      eax := heax.trans (s.save_eax c esp0)
      esp := h.esp_leaveTimer
      eip := (h.word_leaveTimer (by decide)).trans heip
      cs := (h.word_leaveTimer (by decide)).trans hcs
      eflags := (h.word_leaveTimer (by decide)).trans heflags
      useresp := h.word_leaveTimer (by decide)
      ss := h.word_leaveTimer (by decide) }

end Cpu

/-- **The timer does not disturb the interrupted code.** -/
theorem isrTimer_restores (f : Functions) (s : Cpu) (c : Interrupted) (esp0 code : UInt32) :
    ∃ r t, idtGate 32 = some isrTimer ∧
      runStub f isrTimer (s.deliver c esp0 32 code) = ⟨[(.timerHandler, r)], some t⟩ ∧
      (r.Keeps (f.call .timerHandler r) →
        t.Restores s c esp0 s.eax ∧
          t.written = (f.call .timerHandler r).written ++ [(0x20, 0x20)]) := by
  have hdeliver : s.deliver c esp0 32 code = s.save c esp0 := if_neg (by decide)
  exact ⟨_, _, rfl, (congrArg _ hdeliver).trans (runStub_isrTimer f _), fun hkeeps =>
    ⟨Cpu.leaveTimer_restores c esp0 hkeeps, rfl⟩⟩

end Anaga
