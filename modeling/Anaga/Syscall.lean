/-
**System calls: `syscall/syscall.c`, `interrupts/exception.c`.**

An interrupt leaves the registers of the interrupted program on the stack, as a `regs_t`, and hands
it to `exception_handler`, which turns vector `0x80` into a system call and the exceptions of the
processor into a panic.  A system call puts its result into `eax` of that frame.  A call that halts
for good does not return a frame.

`sys_write` prints up to a NUL or until it has printed the given number of characters, but always
returns that number.

Main definitions:

* `Anaga.Regs` — the frame;
* `Anaga.sysWrite`, `Anaga.syscallTable`, `Anaga.syscallHandler` — the functions of `syscall.h`;
* `Anaga.kernelPanic`, `Anaga.exceptionHandler` — those of `exception.c`;
* `Anaga.Reports` — the result of a write is the number of characters that were printed.

Main results:

* `Anaga.exceptionHandler_ok_iff` — no vector but 31 makes the handler leave its tables;
* `Anaga.writeLoop_eq` — what `sys_write` prints;
* `Anaga.exceptionHandler_write` — what a write does to the frame;
* `Anaga.reports_iff` — **a write reports what it wrote exactly if its count is not negative and
  there is no NUL among the characters**.
-/

import Anaga.Formats
import Anaga.Heap

set_option relaxedAutoImplicit false
set_option autoImplicit false

namespace Anaga

open Transition

/-! ### Frames -/

/-- `regs_t`. -/
structure Regs where
  gs : UInt32
  fs : UInt32
  es : UInt32
  ds : UInt32
  edi : UInt32
  esi : UInt32
  ebp : UInt32
  esp : UInt32
  ebx : UInt32
  edx : UInt32
  ecx : UInt32
  eax : UInt32
  intNo : UInt32
  errCode : UInt32
  eip : UInt32
  cs : UInt32
  eflags : UInt32
  useresp : UInt32
  ss : UInt32
deriving DecidableEq

/-- The characters that were passed to `kputc`, and the value that was returned, if the function
does not halt. -/
structure Returned (α : Type) where
  printed : List UInt8
  value : Option α
deriving DecidableEq

/-! ### System calls -/

/-- `SYSCALL_MAX`. -/
def syscallMax : UInt32 := 6

/-- `sys_exit`, which halts. -/
def sysExit (_ : Ram) (r : Regs) : Except Fault (Returned UInt32) :=
  kprintf (utf8 "Process exited with code %d\n" ++ [0]) [.word r.ebx] >>= fun printed =>
  .ok ⟨printed, none⟩

/-- `sys_read`. -/
def sysRead (_ : Ram) (_ : Regs) : Except Fault (Returned UInt32) := .ok ⟨[], some (-1)⟩

/-- The loop of `sys_write`, with the number of rounds that `i < count` leaves: the characters it
passes to `kputc`. -/
def writeLoop (m : Ram) (buf : UInt32) : ℕ → ℕ → List UInt8
  | 0, _ => []
  | n + 1, i =>
      let c := m (buf + UInt32.ofNat i)
      if c ≠ 0 then c :: writeLoop m buf n (i + 1) else []

/-- `sys_write`.  A negative `count` makes no rounds. -/
def sysWrite (m : Ram) (r : Regs) : Except Fault (Returned UInt32) :=
  let fd := asInt r.ebx
  let buf := r.ecx
  let count := r.edx
  if fd = 1 ∨ fd = 2 then .ok ⟨writeLoop m buf (asInt count).toNat 0, some count⟩
  else .ok ⟨[], some (-1)⟩

/-- `sys_open`. -/
def sysOpen (_ : Ram) (_ : Regs) : Except Fault (Returned UInt32) := .ok ⟨[], some (-1)⟩

/-- `sys_close`. -/
def sysClose (_ : Ram) (_ : Regs) : Except Fault (Returned UInt32) := .ok ⟨[], some 0⟩

/-- `sys_getpid`. -/
def sysGetpid (_ : Ram) (_ : Regs) : Except Fault (Returned UInt32) := .ok ⟨[], some 1⟩

/-- `syscall_table`. -/
def syscallTable : List (Ram → Regs → Except Fault (Returned UInt32)) :=
  [sysExit, sysRead, sysWrite, sysOpen, sysClose, sysGetpid]

/-- `syscall_handler`: the frame it leaves. -/
def syscallHandler (m : Ram) (r : Regs) : Except Fault (Returned Regs) :=
  if syscallMax ≤ r.eax then .ok ⟨[], some { r with eax := -1 }⟩
  else
    match syscallTable[r.eax.toNat]? with
    | none => .error .area
    | some call =>
        call m r >>= fun result =>
        .ok ⟨result.printed, result.value.map fun eax => { r with eax := eax }⟩

/-! ### Exceptions -/

/-- `exception_messages`. -/
def exceptionMessages : List String :=
  ["Division By Zero", "Debug", "Non Maskable Interrupt", "Breakpoint",
    "Into Detected Overflow", "Out of Bounds", "Invalid Opcode", "No Coprocessor",
    "Double Fault", "Coprocessor Segment Overrun", "Bad TSS", "Segment Not Present",
    "Stack Fault", "General Protection Fault", "Page Fault", "Unknown Interrupt",
    "Coprocessor Fault", "Alignment Check", "Machine Check", "SIMD Floating-Point Exception",
    "Virtualization Exception", "Reserved", "Reserved", "Reserved", "Reserved", "Reserved",
    "Reserved", "Security Exception", "Reserved", "Triple Fault?", "Reserved"]

/-- `kernel_panic` with a frame, which halts: the characters it prints. -/
def kernelPanic (msg : String) (r : Regs) : Except Fault (List UInt8) :=
  kprintf (utf8 "\n!!! KERNEL PANIC: %s !!!\n" ++ [0]) [.str (some (utf8 msg ++ [0]))] >>= fun p₁ =>
  kprintf (utf8 "INT: 0x%x  ERR: 0x%x\n" ++ [0]) [.word r.intNo, .word r.errCode] >>= fun p₂ =>
  kprintf (utf8 "EIP: 0x%x  CS:  0x%x  EFLAGS: 0x%x\n" ++ [0])
    [.word r.eip, .word r.cs, .word r.eflags] >>= fun p₃ =>
  kprintf (utf8 "EAX: 0x%x  EBX: 0x%x  ECX: 0x%x  EDX: 0x%x\n" ++ [0])
    [.word r.eax, .word r.ebx, .word r.ecx, .word r.edx] >>= fun p₄ =>
  kprintf (utf8 "ESI: 0x%x  EDI: 0x%x  EBP: 0x%x\n" ++ [0])
    [.word r.esi, .word r.edi, .word r.ebp] >>= fun p₅ =>
  kprintf (utf8 "UESP:0x%x  SS:  0x%x\n" ++ [0]) [.word r.useresp, .word r.ss] >>= fun p₆ =>
  kprintf (utf8 "DS:  0x%x  ES:  0x%x  FS:  0x%x  GS: 0x%x\n" ++ [0])
    [.word r.ds, .word r.es, .word r.fs, .word r.gs] >>= fun p₇ =>
  .ok (p₁ ++ p₂ ++ p₃ ++ p₄ ++ p₅ ++ p₆ ++ p₇)

/-- `exception_handler`.  Its table has no message for vector 31, where it takes a word from behind
the table for the address of a string. -/
def exceptionHandler (m : Ram) (r : Regs) : Except Fault (Returned Regs) :=
  if r.intNo = 0x80 then syscallHandler m r
  else if r.intNo < 32 then
    match exceptionMessages[r.intNo.toNat]? with
    | none => .error .string
    | some msg => kernelPanic msg r >>= fun printed => .ok ⟨printed, none⟩
  else .ok ⟨[], some r⟩

/-- What the handler leaves in `eax` is the number of characters it printed, they are those of the
buffer, one after the other, and nothing else in the frame has changed. -/
def Reports (m : Ram) (r : Regs) : Prop :=
  ∃ printed eax, exceptionHandler m r = .ok ⟨printed, some { r with eax := eax }⟩ ∧
    printed.length = eax.toNat ∧
      printed = (List.range eax.toNat).map fun i => m (r.ecx + UInt32.ofNat i)

/-! ### What the handler can do -/

/-- Words are printed in hexadecimal, whatever they are. -/
theorem kprintf_hex (words : List UInt32) {s : List UInt8} (hs : 0 ∉ s)
    (hc : ∀ p ∈ pieces s, p.Complete)
    (hk : (pieces s).filterMap Piece.conversion = words.map fun _ => .hex) :
    ∃ printed, kprintf (s ++ [0]) (words.map .word) = .ok printed := by
  refine kprintf_of_text hs hc ?_
  rw [hk, List.forall₂_map_left_iff, List.forall₂_map_right_iff, List.forall₂_same]
  exact fun w _ => ⟨_, rfl⟩

/-- A panic prints its message and all of the frame. -/
theorem kernelPanic_ok (msg : String) (r : Regs) : ∃ printed, kernelPanic msg r = .ok printed := by
  have hstr : ∃ x, Conversion.text .string (.str (some (utf8 msg ++ [0]))) = some x := by
    refine ⟨cstr (utf8 msg ++ [0]), ?_⟩
    rw [Conversion.text, if_pos (by simp)]
  refine exists_bind_eq_ok (kprintf_of_text (by decide) (by decide) (.cons hstr .nil)) fun _ => ?_
  refine exists_bind_eq_ok (kprintf_hex [r.intNo, r.errCode] (by decide) (by decide) rfl)
    fun _ => ?_
  refine exists_bind_eq_ok (kprintf_hex [r.eip, r.cs, r.eflags] (by decide) (by decide) rfl)
    fun _ => ?_
  refine exists_bind_eq_ok (kprintf_hex [r.eax, r.ebx, r.ecx, r.edx] (by decide) (by decide) rfl)
    fun _ => ?_
  refine exists_bind_eq_ok (kprintf_hex [r.esi, r.edi, r.ebp] (by decide) (by decide) rfl)
    fun _ => ?_
  refine exists_bind_eq_ok (kprintf_hex [r.useresp, r.ss] (by decide) (by decide) rfl) fun _ => ?_
  refine exists_bind_eq_ok (kprintf_hex [r.ds, r.es, r.fs, r.gs] (by decide) (by decide) rfl)
    fun _ => ?_
  exact ⟨_, rfl⟩

/-- No system call leaves the table or fails. -/
theorem syscallHandler_ok (m : Ram) (r : Regs) : ∃ res, syscallHandler m r = .ok res := by
  have hexit : ∃ printed, kprintf (utf8 "Process exited with code %d\n" ++ [0]) [.word r.ebx] =
      .ok printed :=
    kprintf_of_text (by decide) (by decide) (.cons ⟨_, rfl⟩ .nil)
  have hcall : ∀ call ∈ syscallTable, ∃ res, call m r = .ok res := by
    simp only [syscallTable, List.forall_mem_cons]
    refine ⟨?_, ⟨_, rfl⟩, ?_, ⟨_, rfl⟩, ⟨_, rfl⟩, ⟨_, rfl⟩, ?_⟩
    · exact exists_bind_eq_ok hexit fun _ => ⟨_, rfl⟩
    · rw [sysWrite]
      split_ifs
      · exact ⟨_, rfl⟩
      · exact ⟨_, rfl⟩
    · exact fun call h => absurd h List.not_mem_nil
  rw [syscallHandler]
  split_ifs with hmax
  · exact ⟨_, rfl⟩
  · have hlt : r.eax.toNat < syscallTable.length :=
      UInt32.lt_iff_toNat_lt.1 (UInt32.not_le.1 hmax)
    obtain ⟨res, hres⟩ := hcall _ (List.getElem_mem hlt)
    rw [List.getElem?_eq_getElem hlt]
    dsimp only
    rw [hres, ok_bind]
    exact ⟨_, rfl⟩

/-- **Only vector 31 makes the handler leave one of its tables.** -/
theorem exceptionHandler_ok_iff (m : Ram) (r : Regs) :
    (∃ res, exceptionHandler m r = .ok res) ↔ r.intNo ≠ 31 := by
  rw [exceptionHandler]
  by_cases hsys : r.intNo = 0x80
  · rw [if_pos hsys]
    exact iff_of_true (syscallHandler_ok m r) (by rw [hsys]; decide)
  · rw [if_neg hsys]
    by_cases hvector : r.intNo < 32
    · rw [if_pos hvector]
      have hlen : exceptionMessages.length = 31 := rfl
      rw [UInt32.lt_iff_toNat_lt] at hvector
      change r.intNo.toNat < 32 at hvector
      by_cases hlast : r.intNo = 31
      · rw [hlast]
        exact iff_of_false (fun ⟨_, h⟩ => nomatch h) (not_not.2 rfl)
      · have hne : r.intNo.toNat ≠ 31 := fun h => hlast (UInt32.toNat_inj.1 h)
        have hlt : r.intNo.toNat < exceptionMessages.length := by omega
        obtain ⟨printed, hprinted⟩ := kernelPanic_ok exceptionMessages[r.intNo.toNat] r
        rw [List.getElem?_eq_getElem hlt]
        refine iff_of_true ⟨⟨printed, none⟩, ?_⟩ hlast
        dsimp only
        rw [hprinted, ok_bind]
    · rw [if_neg hvector]
      refine iff_of_true ⟨_, rfl⟩ fun h => hvector ?_
      rw [h]
      decide

/-! ### Writing -/

/-- **`sys_write` prints the characters in front of the first NUL, at most `n`.** -/
theorem writeLoop_eq (m : Ram) (buf : UInt32) (n i : ℕ) :
    writeLoop m buf n i =
      ((List.range' i n).map fun j => m (buf + UInt32.ofNat j)).takeWhile (· ≠ 0) := by
  induction n generalizing i with
  | zero => rfl
  | succ n ih =>
      rw [writeLoop, List.range'_succ, List.map_cons, List.takeWhile_cons, ih]
      by_cases hc : m (buf + UInt32.ofNat i) ≠ 0
      · simp [hc]
      · simp [hc]

/-- All of the `n` characters are printed exactly if there is no NUL among them. -/
theorem writeLoop_eq_map_iff (m : Ram) (buf : UInt32) (n : ℕ) :
    writeLoop m buf n 0 = (List.range n).map (fun i => m (buf + UInt32.ofNat i)) ↔
      ∀ i < n, m (buf + UInt32.ofNat i) ≠ 0 := by
  rw [writeLoop_eq, ← List.range_eq_range', List.takeWhile_eq_self_iff]
  simp only [List.mem_map, List.mem_range, decide_eq_true_eq, forall_exists_index, and_imp,
    forall_apply_eq_imp_iff₂]

variable {m : Ram} {r : Regs}

/-- **What a write prints, and what it leaves in the frame.** -/
theorem exceptionHandler_write (hint : r.intNo = 0x80) (heax : r.eax = 2)
    (hebx : r.ebx = 1 ∨ r.ebx = 2) :
    exceptionHandler m r =
      .ok ⟨writeLoop m r.ecx (asInt r.edx).toNat 0, some { r with eax := r.edx }⟩ := by
  have hfd : asInt r.ebx = 1 ∨ asInt r.ebx = 2 := by
    rcases hebx with h | h
    · rw [h]
      exact Or.inl (by decide)
    · rw [h]
      exact Or.inr (by decide)
  have hcall : syscallTable[r.eax.toNat]? = some sysWrite := by rw [heax]; rfl
  rw [exceptionHandler, if_pos hint, syscallHandler, if_neg (by rw [heax]; decide), hcall]
  dsimp only
  rw [sysWrite, if_pos hfd]
  rfl

/-- A write always returns its count, so that has to be the number of characters it prints. -/
theorem reports_iff_printed (hint : r.intNo = 0x80) (heax : r.eax = 2)
    (hebx : r.ebx = 1 ∨ r.ebx = 2) :
    Reports m r ↔
      (writeLoop m r.ecx (asInt r.edx).toNat 0).length = r.edx.toNat ∧
        writeLoop m r.ecx (asInt r.edx).toNat 0 =
          (List.range r.edx.toNat).map fun i => m (r.ecx + UInt32.ofNat i) := by
  constructor
  · rintro ⟨printed, eax, hrun, hlen, hbytes⟩
    have hsame := Except.ok.inj ((exceptionHandler_write hint heax hebx).symm.trans hrun)
    obtain rfl : writeLoop m r.ecx (asInt r.edx).toNat 0 = printed :=
      congrArg Returned.printed hsame
    obtain rfl : r.edx = eax :=
      congrArg Regs.eax (Option.some.inj (congrArg Returned.value hsame))
    exact ⟨hlen, hbytes⟩
  · rintro ⟨hlen, hbytes⟩
    exact ⟨_, r.edx, exceptionHandler_write hint heax hebx, hlen, hbytes⟩

/-- **A write reports what it wrote exactly if its count is not negative and there is no NUL among
the characters.** -/
theorem reports_iff (hint : r.intNo = 0x80) (heax : r.eax = 2) (hebx : r.ebx = 1 ∨ r.ebx = 2) :
    Reports m r ↔ 0 ≤ asInt r.edx ∧ ∀ i < r.edx.toNat, m (r.ecx + UInt32.ofNat i) ≠ 0 := by
  rw [reports_iff_printed hint heax hebx, ← writeLoop_eq_map_iff]
  by_cases hcount : 0 ≤ asInt r.edx
  · have hround : (asInt r.edx).toNat = r.edx.toNat := by
      rw [asInt_of_lt (asInt_nonneg_iff.1 hcount), Int.toNat_natCast]
    rw [hround]
    refine ⟨fun h => ⟨hcount, h.2⟩, fun h => ⟨?_, h.2⟩⟩
    rw [h.2, List.length_map, List.length_range]
  · -- no round is made, but the count is returned
    refine ⟨fun h => ?_, fun h => absurd h.1 hcount⟩
    have hlen := h.1
    rw [Int.toNat_of_nonpos (by omega), writeLoop, List.length_nil] at hlen
    refine absurd (asInt_nonneg_iff.2 ?_) hcount
    rw [← hlen]
    norm_num

/-- The frame of a write of `count` characters from `0x200000`, with zeros elsewhere. -/
def writeFrame (count : UInt32) : Regs where
  gs := 0
  fs := 0
  es := 0
  ds := 0
  edi := 0
  esi := 0
  ebp := 0
  esp := 0
  ebx := 1
  edx := count
  ecx := 0x200000
  eax := 2
  intNo := 0x80
  errCode := 0
  eip := 0
  cs := 0
  eflags := 0
  useresp := 0
  ss := 0

/-- A write of three letters. -/
theorem reports_three : Reports (fun _ => 97) (writeFrame 3) :=
  (reports_iff rfl rfl (Or.inl rfl)).2 ⟨by decide, fun _ _ => by decide⟩

/-- **A write of five characters of `ab` and a NUL returns five and prints two**, and one of a
negative number of characters returns that number. -/
theorem not_reports_nul :
    let m : Ram := fun x => if x = 0x200000 then 97 else if x = 0x200001 then 98 else 0
    ¬ Reports m (writeFrame 5) ∧ ¬ Reports m (writeFrame 0xFFFFFFFF) ∧
      exceptionHandler m (writeFrame 5) = .ok ⟨[97, 98], some { writeFrame 5 with eax := 5 }⟩ := by
  intro m
  refine ⟨fun h => ?_, fun h => ?_, rfl⟩
  · have hlen := ((reports_iff_printed rfl rfl (Or.inl rfl)).1 h).1
    exact absurd hlen (by decide)
  · have hlen := ((reports_iff_printed rfl rfl (Or.inl rfl)).1 h).1
    exact absurd hlen (by decide)

end Anaga
