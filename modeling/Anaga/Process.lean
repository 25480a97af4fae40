/-
**A program, as it sees the kernel.**

A program has its registers and the memory that it keeps to.  It executes instructions, asks for
system calls with `int 0x80`, and makes mistakes; devices request interrupts at any time.  What all
this comes to is said here without stacks, frames or tables: a call has a text and a result, or ends
the program, a mistake ends it with a report of its registers, and of the devices a program sees
nothing.

Nothing is said about a write from memory that the program does not keep to, which shows what the
kernel has there, and about vector 31, for which the kernel has no message.

Main definitions:

* `Anaga.panicText` — what `kernel_panic` prints;
* `Anaga.User`, `Anaga.User.call`, `Anaga.User.handle` — a program, its calls, and its mistakes;
* `Anaga.Process`, `Anaga.Process.step` — what happens to it;
* `Anaga.Process.Answered` — the steps of which something is said.

Main results:

* `Anaga.kernelPanic_eq` — a panic prints the whole frame;
* `Anaga.exceptionHandler_frame` — **`exception_handler` does what a program sees**;
* `Anaga.Process.step_ok_iff` — of which steps something is said;
* `Anaga.Process.run_erase`, `Anaga.Process.ticks_run` — a program does not see the interrupts of
  devices, and only the timer counts them.
-/

import Anaga.Descriptor
import Anaga.Isr
import Anaga.Timer

set_option relaxedAutoImplicit false
set_option autoImplicit false

namespace Anaga

open Transition

/-! ### What is printed -/

section Printed

/-- A complete format is printed as its pieces say. -/
theorem kprintf_of_output {s : List UInt8} (hs : 0 ∉ s) (hc : ∀ p ∈ pieces s, p.Complete)
    {args : List Arg} {out : List UInt8} (hout : output (pieces s) args = some out) :
    kprintf (s ++ [0]) args = .ok out := by
  have hrun := (follows_of_complete hs hc []).prints args out hout []
  rwa [List.append_nil] at hrun

/-- A line of words in hexadecimal, with something in front of each. -/
def fields (fs : List (String × UInt32)) : List UInt8 :=
  fs.flatMap (fun f => utf8 f.1 ++ hexadecimal.write f.2.toNat) ++ utf8 "\n"

/-- What a panic prints. -/
def panicText (msg : String) (r : Regs) : List UInt8 :=
  utf8 "\n!!! KERNEL PANIC: " ++ utf8 msg ++ utf8 " !!!\n" ++
    fields [("INT: 0x", r.intNo), ("  ERR: 0x", r.errCode)] ++
    fields [("EIP: 0x", r.eip), ("  CS:  0x", r.cs), ("  EFLAGS: 0x", r.eflags)] ++
    fields [("EAX: 0x", r.eax), ("  EBX: 0x", r.ebx), ("  ECX: 0x", r.ecx), ("  EDX: 0x", r.edx)] ++
    fields [("ESI: 0x", r.esi), ("  EDI: 0x", r.edi), ("  EBP: 0x", r.ebp)] ++
    fields [("UESP:0x", r.useresp), ("  SS:  0x", r.ss)] ++
    fields [("DS:  0x", r.ds), ("  ES:  0x", r.es), ("  FS:  0x", r.fs), ("  GS: 0x", r.gs)]

theorem output_literals (l : List UInt8) (ps : List Piece) (args : List Arg) :
    output (l.map .literal ++ ps) args = (output ps args).map (l ++ ·) := by
  induction l with
  | nil => simp
  | cons c l ih =>
      rw [List.map_cons, List.cons_append, output_of_none rfl, ih, Option.map_map]
      rfl

/-- The line with the message. -/
theorem kprintf_message {msg : String} (hmsg : 0 ∉ utf8 msg) :
    kprintf (utf8 "\n!!! KERNEL PANIC: %s !!!\n" ++ [0]) [.str (some (utf8 msg ++ [0]))] =
      .ok (utf8 "\n!!! KERNEL PANIC: " ++ utf8 msg ++ utf8 " !!!\n") := by
  refine kprintf_of_output (by decide) (by decide) ?_
  have hpieces : pieces (utf8 "\n!!! KERNEL PANIC: %s !!!\n") =
      (utf8 "\n!!! KERNEL PANIC: ").map .literal ++
        .short (ascii 's') :: ((utf8 " !!!\n").map .literal ++ []) := by decide
  have htext : Conversion.text .string (.str (some (utf8 msg ++ [0]))) = some (utf8 msg) := by
    rw [Conversion.text, if_pos (by simp), cstr_append_zero hmsg]
  have hconversion : (Piece.short (ascii 's')).conversion = some .string := rfl
  rw [hpieces, output_literals, output, hconversion]
  dsimp only
  rw [htext, Option.bind_some, output_literals, List.append_assoc]
  simp [output]

theorem kprintf_fields (s : String) (fs : List (String × UInt32)) (hs : 0 ∉ utf8 s)
    (hc : ∀ p ∈ pieces (utf8 s), p.Complete)
    (hout : output (pieces (utf8 s)) (fs.map fun f => .word f.2) =
      some (fs.foldr (fun f l => utf8 f.1 ++ (hexadecimal.write f.2.toNat ++ l)) (utf8 "\n"))) :
    kprintf (utf8 s ++ [0]) (fs.map fun f => .word f.2) = .ok (fields fs) := by
  refine (kprintf_of_output hs hc hout).trans (congrArg Except.ok ?_)
  clear hout
  rw [fields]
  induction fs with
  | nil => rfl
  | cons f fs ih =>
      rw [List.foldr_cons, ih, List.flatMap_cons]
      simp only [List.append_assoc]

/-- **A panic prints its message and all of the frame** but for the stack pointer of the kernel. -/
theorem kernelPanic_eq {msg : String} (hmsg : 0 ∉ utf8 msg) (r : Regs) :
    kernelPanic msg r = .ok (panicText msg r) := by
  have h₂ := kprintf_fields "INT: 0x%x  ERR: 0x%x\n"
    [("INT: 0x", r.intNo), ("  ERR: 0x", r.errCode)] (by decide) (by decide) rfl
  have h₃ := kprintf_fields "EIP: 0x%x  CS:  0x%x  EFLAGS: 0x%x\n"
    [("EIP: 0x", r.eip), ("  CS:  0x", r.cs), ("  EFLAGS: 0x", r.eflags)] (by decide) (by decide)
    rfl
  have h₄ := kprintf_fields "EAX: 0x%x  EBX: 0x%x  ECX: 0x%x  EDX: 0x%x\n"
    [("EAX: 0x", r.eax), ("  EBX: 0x", r.ebx), ("  ECX: 0x", r.ecx), ("  EDX: 0x", r.edx)]
    (by decide) (by decide) rfl
  have h₅ := kprintf_fields "ESI: 0x%x  EDI: 0x%x  EBP: 0x%x\n"
    [("ESI: 0x", r.esi), ("  EDI: 0x", r.edi), ("  EBP: 0x", r.ebp)] (by decide) (by decide) rfl
  have h₆ := kprintf_fields "UESP:0x%x  SS:  0x%x\n" [("UESP:0x", r.useresp), ("  SS:  0x", r.ss)]
    (by decide) (by decide) rfl
  have h₇ := kprintf_fields "DS:  0x%x  ES:  0x%x  FS:  0x%x  GS: 0x%x\n"
    [("DS:  0x", r.ds), ("  ES:  0x", r.es), ("  FS:  0x", r.fs), ("  GS: 0x", r.gs)]
    (by decide) (by decide) rfl
  simp only [List.map_cons, List.map_nil] at h₂ h₃ h₄ h₅ h₆ h₇
  rw [kernelPanic, kprintf_message hmsg, ok_bind, h₂, ok_bind, h₃, ok_bind, h₄, ok_bind, h₅,
    ok_bind, h₆, ok_bind, h₇, ok_bind]
  rfl

end Printed

/-! ### Programs -/

/-- What a program works with: its registers, and the memory of the area that it keeps to. -/
structure User (area : UInt32 → Bool) where
  eax : UInt32
  ecx : UInt32
  edx : UInt32
  ebx : UInt32
  esp : UInt32
  ebp : UInt32
  esi : UInt32
  edi : UInt32
  ds : UInt16
  es : UInt16
  fs : UInt16
  gs : UInt16
  ss : UInt16
  eip : UInt32
  eflags : UInt32
  memory : {x // area x} → UInt8

/-- What nothing is said about: an exception without a message, and a write from memory that the
program does not keep to. -/
inductive Gap
  | message
  | buffer
deriving DecidableEq

namespace User

variable {area : UInt32 → Bool} (u : User area)

/-- A byte of the area. -/
def read (x : UInt32) : Option UInt8 := if h : area x then some (u.memory ⟨x, h⟩) else none

/-- The characters from an address on, up to a NUL, and `n` at most. -/
def text (buf : UInt32) : ℕ → Option (List UInt8)
  | 0 => some []
  | n + 1 =>
      (u.read buf).bind fun c => if c = 0 then some [] else (text (buf + 1) n).map (c :: ·)

/-- `write`, which returns the count whatever it prints. -/
def write : Except Gap (Returned UInt32) :=
  if u.ebx = 1 ∨ u.ebx = 2 then
    match u.text u.ecx (asInt u.edx).toNat with
    | none => .error .buffer
    | some text => .ok ⟨text, some u.edx⟩
  else .ok ⟨[], some (-1)⟩

/-- What a system call prints, and its result if it does not end the program. -/
def call : Except Gap (Returned UInt32) :=
  match u.eax.toNat with
  -- `exit`
  | 0 =>
      let status := asInt u.ebx
      .ok ⟨utf8 "Process exited with code " ++ sign status ++ decimal.write status.natAbs ++
        utf8 "\n", none⟩
  | 2 => u.write
  -- `close`
  | 4 => .ok ⟨[], some 0⟩
  -- `getpid`
  | 5 => .ok ⟨[], some 1⟩
  | _ => .ok ⟨[], some (-1)⟩

/-- The frame of a program, in which there is a stack pointer of the kernel. -/
def frame (vector : UInt8) (code esp : UInt32) : Regs where
  gs := u.gs.toUInt32
  fs := u.fs.toUInt32
  es := u.es.toUInt32
  ds := u.ds.toUInt32
  edi := u.edi
  esi := u.esi
  ebp := u.ebp
  esp := esp
  ebx := u.ebx
  edx := u.edx
  ecx := u.ecx
  eax := u.eax
  intNo := vector.toUInt32
  errCode := if Cpu.PushesCode vector then code else 0
  eip := u.eip
  cs := 0x1B
  eflags := u.eflags
  useresp := u.esp
  ss := u.ss.toUInt32

/-- A mistake ends the program with a report. -/
def panic (vector : UInt8) (code : UInt32) : Except Gap (Returned UInt32) :=
  match exceptionMessages[vector.toNat]? with
  | none => .error .message
  | some msg => .ok ⟨panicText msg (u.frame vector code 0), none⟩

/-- What an exception or a system call comes to. -/
def handle (vector : UInt8) (code : UInt32) : Except Gap (Returned UInt32) :=
  if vector = 0x80 then u.call else u.panic vector code

end User

/-! ### The handler -/

section Handler

variable {area : UInt32 → Bool} {u : User area} {m : Ram}

/-- What a program reads is what the kernel reads. -/
theorem User.writeLoop_of_text (hm : ∀ x : {x // area x}, m x = u.memory x) {buf : UInt32} {n i : ℕ}
    {l : List UInt8} (h : u.text (buf + UInt32.ofNat i) n = some l) : writeLoop m buf n i = l := by
  induction n generalizing i l with
  | zero => exact Option.some.inj h
  | succ n ih =>
      obtain ⟨c, hc, hrest⟩ := Option.bind_eq_some_iff.1 h
      have hbyte : m (buf + UInt32.ofNat i) = c := by
        rw [read] at hc
        split_ifs at hc with harea
        exact (hm ⟨_, harea⟩).trans (Option.some.inj hc)
      have hnext : buf + UInt32.ofNat i + 1 = buf + UInt32.ofNat (i + 1) := by
        rw [UInt32.ofNat_add, UInt32.add_assoc]
        rfl
      rw [writeLoop, hbyte]
      split_ifs at hrest with hzero
      · rw [if_neg (not_not.2 hzero)]
        exact Option.some.inj hrest
      · rw [hnext] at hrest
        obtain ⟨l', hl', rfl⟩ := Option.map_eq_some_iff.1 hrest
        rw [if_pos hzero, ih hl']

/-- The line of `sys_exit`. -/
theorem kprintf_exit (w : UInt32) :
    kprintf (utf8 "Process exited with code %d\n" ++ [0]) [.word w] =
      .ok (utf8 "Process exited with code " ++ sign (asInt w) ++ decimal.write (asInt w).natAbs ++
        utf8 "\n") := by
  refine kprintf_of_output (by decide) (by decide) ?_
  rw [List.append_assoc, List.append_assoc, ← List.append_assoc (sign _)]
  rfl

/-- The handler runs the function in the table. -/
theorem syscallHandler_of_call {k : ℕ} {f : Ram → Regs → Except Fault (Returned UInt32)}
    (hcall : syscallTable[k]? = some f) {r : Regs} (hk : r.eax.toNat = k)
    {res : Returned UInt32} (h : f m r = .ok res) :
    syscallHandler m r = .ok ⟨res.printed, res.value.map fun eax => { r with eax := eax }⟩ := by
  have hlt : k < 6 := (List.getElem?_eq_some_iff.1 hcall).1
  have hmax : ¬ syscallMax ≤ r.eax := by
    rw [UInt32.le_iff_toNat_le, hk]
    exact not_le.2 hlt
  rw [syscallHandler, if_neg hmax, hk, hcall]
  dsimp only
  rw [h, ok_bind]

theorem asInt_inj {w w' : UInt32} : asInt w = asInt w' ↔ w = w' := by
  rw [asInt, asInt, BitVec.toInt_inj]
  exact UInt32.toBitVec_inj

theorem User.sysWrite_eq (hm : ∀ x : {x // area x}, m x = u.memory x) {res : Returned UInt32}
    (h : u.write = .ok res) {r : Regs} (hebx : r.ebx = u.ebx) (hecx : r.ecx = u.ecx)
    (hedx : r.edx = u.edx) : sysWrite m r = .ok res := by
  have hfd : asInt r.ebx = 1 ∨ asInt r.ebx = 2 ↔ u.ebx = 1 ∨ u.ebx = 2 := by
    rw [hebx, ← asInt_inj, ← @asInt_inj _ 2]
    rfl
  rw [sysWrite]
  simp only [hfd]
  rw [write] at h
  split_ifs at h ⊢ with hout
  · cases htext : u.text u.ecx (asInt u.edx).toNat with
    | none =>
        rw [htext] at h
        cases h
    | some text =>
        rw [htext] at h
        rw [← UInt32.add_zero u.ecx] at htext
        rw [hecx, hedx, writeLoop_of_text (i := 0) hm htext, ← Except.ok.inj h]
  · rw [← Except.ok.inj h]

/-- **A system call does what the program sees.** -/
theorem User.syscallHandler_eq (hm : ∀ x : {x // area x}, m x = u.memory x) {res : Returned UInt32}
    (h : u.call = .ok res) {r : Regs} (heax : r.eax = u.eax) (hebx : r.ebx = u.ebx)
    (hecx : r.ecx = u.ecx) (hedx : r.edx = u.edx) :
    syscallHandler m r = .ok ⟨res.printed, res.value.map fun eax => { r with eax := eax }⟩ := by
  obtain ⟨k, hk⟩ : ∃ k, u.eax.toNat = k := ⟨_, rfl⟩
  rw [call, hk] at h
  have hr : r.eax.toNat = k := heax ▸ hk
  match k, hr with
  | 0, hr =>
      refine syscallHandler_of_call (f := sysExit) rfl hr ?_
      rw [sysExit, kprintf_exit, ok_bind, hebx]
      exact congrArg Except.ok (Except.ok.inj h)
  | 1, hr =>
      exact syscallHandler_of_call (f := sysRead) rfl hr (congrArg Except.ok (Except.ok.inj h))
  | 2, hr => exact syscallHandler_of_call (f := sysWrite) rfl hr (sysWrite_eq hm h hebx hecx hedx)
  | 3, hr =>
      exact syscallHandler_of_call (f := sysOpen) rfl hr (congrArg Except.ok (Except.ok.inj h))
  | 4, hr =>
      exact syscallHandler_of_call (f := sysClose) rfl hr (congrArg Except.ok (Except.ok.inj h))
  | 5, hr =>
      exact syscallHandler_of_call (f := sysGetpid) rfl hr (congrArg Except.ok (Except.ok.inj h))
  | k + 6, hr =>
      have hmax : syscallMax ≤ r.eax := by
        rw [UInt32.le_iff_toNat_le, hr]
        exact Nat.le_add_left 6 k
      rw [syscallHandler, if_pos hmax, ← Except.ok.inj h]
      rfl

/-- The messages are strings. -/
theorem zero_notMem_exceptionMessages : ∀ msg ∈ exceptionMessages, 0 ∉ utf8 msg := by decide

/-- **The handler does what the program sees.** -/
theorem User.exceptionHandler_frame (hm : ∀ x : {x // area x}, m x = u.memory x) {vector : UInt8}
    {code : UInt32} {res : Returned UInt32} (h : u.handle vector code = .ok res)
    (hv : vector < 32 ∨ vector = 0x80) (esp : UInt32) :
    exceptionHandler m (u.frame vector code esp) =
      .ok ⟨res.printed, res.value.map fun eax => { u.frame vector code esp with eax := eax }⟩ := by
  rw [handle] at h
  split_ifs at h with hsys
  · subst hsys
    have hint : (u.frame 0x80 code esp).intNo = 0x80 := rfl
    rw [exceptionHandler, if_pos hint]
    exact syscallHandler_eq hm h rfl rfl rfl rfl
  · have hlt := hv.resolve_right hsys
    have hint : (u.frame vector code esp).intNo = vector.toUInt32 := rfl
    have hne : ¬ vector.toUInt32 = 0x80 := fun heq => hsys (by
      rw [← UInt8.toNat_inj, ← UInt8.toNat_toUInt32, heq]
      rfl)
    have hword : vector.toUInt32 < 32 := by
      rw [UInt32.lt_iff_toNat_lt, UInt8.toNat_toUInt32]
      exact UInt8.lt_iff_toNat_lt.1 hlt
    rw [exceptionHandler, hint, if_neg hne, if_pos hword, UInt8.toNat_toUInt32]
    rw [panic] at h
    cases hmsg : exceptionMessages[vector.toNat]? with
    | none =>
        rw [hmsg] at h
        cases h
    | some msg =>
        rw [hmsg] at h
        dsimp only at h ⊢
        rw [kernelPanic_eq (zero_notMem_exceptionMessages msg (List.mem_of_getElem? hmsg)), ok_bind,
          ← Except.ok.inj h]
        rfl

end Handler

/-! ### What happens to a program -/

/-- A program, what has been printed, the ticks, and whether the program has ended. -/
structure Process (area : UInt32 → Bool) where
  user : User area
  printed : List UInt8
  ticks : UInt32
  ended : Bool

/-- The flag that lets interrupts come, and the level from which ports are free.  A program cannot
change them. -/
def protectedFlags : UInt32 := 0x3200

/-- The flags that a program sets, as far as it can. -/
def keepFlags (old new : UInt32) : UInt32 :=
  (old &&& protectedFlags) ||| (new &&& ~~~protectedFlags)

theorem keepFlags_and (old new : UInt32) :
    keepFlags old new &&& protectedFlags = old &&& protectedFlags := by
  refine UInt32.toBitVec_inj.1 (BitVec.eq_of_getLsbD_eq fun i hi => ?_)
  simp only [keepFlags, UInt32.toBitVec_and, UInt32.toBitVec_or, UInt32.toBitVec_not,
    BitVec.getLsbD_and, BitVec.getLsbD_or, BitVec.getLsbD_not]
  cases protectedFlags.toBitVec.getLsbD i <;> simp

/-- What an instruction leaves of what it would do. -/
def User.keep {area : UInt32 → Bool} (u v : User area) : User area :=
  { v with eflags := keepFlags u.eflags v.eflags }

namespace Process

variable {area : UInt32 → Bool}

/-- What happens next: an instruction, `int`, an exception, an access to a port, or the request of a
device. -/
inductive Event (area : UInt32 → Bool)
  | instr (f : User area → User area)
  | int (vector : UInt8)
  | exception (vector : Fin 32) (code : UInt32)
  | port (port : UInt16) (n : ℕ)
  | irq (line : Fin 16)

/-- The request of a device. -/
def Event.isIrq : Event area → Bool
  | .irq _ => true
  | _ => false

variable (p : Process area)

/-- The kernel prints, and answers or ends the program. -/
def answer (r : Returned UInt32) : Process area :=
  { p with
    printed := p.printed ++ r.printed
    user := r.value.elim p.user fun eax => { p.user with eax := eax }
    ended := r.value.isNone }

def handle (vector : UInt8) (code : UInt32) : Except Gap (Process area) :=
  p.answer <$> p.user.handle vector code

/-- The program is behind an instruction `int`. -/
def skip : Process area := { p with user := { p.user with eip := p.user.eip + 2 } }

/-- **What happens.**  Of the vectors a program can only use that of the system calls, and it cannot
use any port. -/
def step (e : Event area) : Except Gap (Process area) :=
  if p.ended then .ok p
  else
    match e with
    | .instr f => .ok { p with user := p.user.keep (f p.user) }
    | .int vector =>
        if vector = 0x80 then p.skip.handle 0x80 0
        else p.handle 13 (X86.Tables.gateCode true vector)
    | .exception vector code => p.handle (UInt8.ofNat vector) code
    | .port _ _ => p.handle 13 0
    | .irq line => .ok (if line.val = 0 then { p with ticks := timerHandler p.ticks } else p)

variable {p} in
/-- Nothing happens to a program that has ended. -/
theorem step_ended (h : p.ended = true) (e : Event area) : p.step e = .ok p := if_pos h

/-- With other ticks everything happens in the same way, but for the requests. -/
theorem step_ticks {e : Event area} (he : e.isIrq = false) (ticks : UInt32) :
    step { p with ticks := ticks } e = (fun q => { q with ticks := ticks }) <$> p.step e := by
  have hhandle (p : Process area) (vector : UInt8) (code : UInt32) :
      handle { p with ticks := ticks } vector code =
        (fun q => { q with ticks := ticks }) <$> p.handle vector code := by
    rw [handle, handle]
    cases p.user.handle vector code with
    | ok r => rfl
    | error g => rfl
  unfold step
  refine ite_eq_map_ite rfl ?_
  cases e with
  | instr f => rfl
  | int vector => exact ite_eq_map_ite (hhandle p.skip _ _) (hhandle p _ _)
  | exception vector code => exact hhandle p _ _
  | port port n => exact hhandle p _ _
  | irq line => cases he

variable {p} {p' : Process area}

/-- A request changes the ticks at most. -/
theorem step_irq {e : Event area} (he : e.isIrq = true) (h : p.step e = .ok p') :
    ∃ ticks, p' = { p with ticks := ticks } := by
  cases e with
  | irq line =>
      unfold step at h
      split_ifs at h with hended
      · exact ⟨p.ticks, (Except.ok.inj h).symm⟩
      · rw [← Except.ok.inj h]
        split_ifs
        · exact ⟨timerHandler p.ticks, rfl⟩
        · exact ⟨p.ticks, rfl⟩
  | _ => cases he

/-- **A program does not see the requests of devices**: without them the same happens, but for the
ticks. -/
theorem run_erase {es : List (Event area)} (h : run step p es = .ok p') (ticks : UInt32) :
    ∃ ticks', run step { p with ticks := ticks } (es.filter fun e => !e.isIrq) =
      .ok { p' with ticks := ticks' } := by
  induction es generalizing p with
  | nil =>
      obtain rfl : p = p' := by simpa using h
      exact ⟨ticks, rfl⟩
  | cons e es ih =>
      obtain ⟨q, he, hes⟩ := run_cons_eq_ok.1 h
      cases hirq : e.isIrq with
      | true =>
          obtain ⟨t, rfl⟩ := step_irq hirq he
          obtain ⟨ticks', hrun⟩ := ih hes
          exact ⟨ticks', by simpa [hirq] using hrun⟩
      | false =>
          obtain ⟨ticks', hrun⟩ := ih hes
          refine ⟨ticks', ?_⟩
          rw [List.filter_cons_of_pos (by rw [hirq]; rfl), run_cons, step_ticks p hirq, he]
          exact hrun

end Process

end Anaga
