/-
**A program under the kernel.**

The processor runs a program, looks into the tables when something happens, pushes a frame on the
stack of the kernel and runs a stub, which calls the function for it; the timer comes in between.
This module puts these together and compares them with what a program sees.

A program can access all of the memory, so it has to keep to an area of its own.  The functions that
the stubs call are compiled: of them it is assumed that they return as the source says, and that
they do not write into the area of the program, the tables or the controllers.  Interrupts that
cannot be masked are left out.

Main definitions:

* `Anaga.Board`, `Anaga.Platform` — the state, and what does not change;
* `Anaga.Platform.enter`, `Anaga.Platform.step` — what the machine does;
* `Anaga.Platform.Proper` — the assumptions;
* `Anaga.processExec`, `Anaga.Platform.Ready` — the start of a program, and when it can be started;
* `Anaga.Platform.Shows` — the machine is where the program is.

Main results:

* `Anaga.Platform.Proper.step` — whatever happens, the machine follows the program;
* `Anaga.processExec_runs` — **so it does on every run, with all interrupts**;
* `Anaga.processExec_erase` — and a program does not see them.
-/

import Anaga.Pic
import Anaga.Process

set_option relaxedAutoImplicit false
set_option autoImplicit false

namespace Anaga

open Transition X86

/-! ### The machine -/

/-- The processor, where it is in the program, the controllers, what was printed, and whether the
processor has been halted for good. -/
structure Board where
  cpu : Cpu
  code : Interrupted
  pics : Pics
  printed : List UInt8
  halted : Bool

/-- What does not change: where the tables are, the code at the addresses of the stubs, the compiled
functions, the address of `timer_ticks`, and the area of the program. -/
structure Platform where
  places : Places
  text : UInt32 → Option (List Instr)
  functions : Functions
  timerTicks : UInt32
  area : UInt32 → Bool

/-- What the machine cannot do: a function leaves its arrays, an exception or a stub does not get
through, or a program accesses a port. -/
inductive Failure
  | fault (f : Fault)
  | refused
  | port
deriving DecidableEq

/-- What the functions that a stub calls print, and whether they all return. -/
def called : List (Extern × Cpu) → Except Fault (Returned Unit)
  | [] => .ok ⟨[], some ()⟩
  | (.timerHandler, _) :: calls => called calls
  | (.exceptionHandler, r) :: calls =>
      exceptionHandler r.memory r.received >>= fun res =>
      if res.value.isNone then .ok ⟨res.printed, none⟩
      else (fun rest => ⟨res.printed ++ rest.printed, rest.value⟩) <$> called calls

/-- The level of the program. -/
def Board.level (s : Board) : UInt8 := (s.code.cs &&& 3).toUInt8

/-- The machine is behind an instruction `int`. -/
def Board.skip (s : Board) : Board :=
  { s with code := { s.code with eip := s.code.eip + 2 } }

namespace Platform

variable (P : Platform) (s : Board)

/-- The program. -/
def user : User P.area where
  eax := s.cpu.eax
  ecx := s.cpu.ecx
  edx := s.cpu.edx
  ebx := s.cpu.ebx
  esp := s.cpu.esp
  ebp := s.cpu.ebp
  esi := s.cpu.esi
  edi := s.cpu.edi
  ds := s.cpu.ds
  es := s.cpu.es
  fs := s.cpu.fs
  gs := s.cpu.gs
  ss := s.cpu.ss
  eip := s.code.eip
  eflags := s.code.eflags
  memory := fun x => s.cpu.memory x

/-- The machine with another state of the program. -/
def setUser (u : User P.area) : Board :=
  { s with
    cpu :=
      { s.cpu with
        eax := u.eax, ecx := u.ecx, edx := u.edx, ebx := u.ebx, esp := u.esp, ebp := u.ebp,
        esi := u.esi, edi := u.edi, ds := u.ds, es := u.es, fs := u.fs, gs := u.gs, ss := u.ss,
        memory := fun x => if h : P.area x then u.memory ⟨x, h⟩ else s.cpu.memory x }
    code := { s.code with eip := u.eip, eflags := u.eflags } }

/-- The processor goes through a gate: it saves where it was and runs the stub. -/
def enter (target : Target) (vector : UInt8) (code : UInt32) : Except Failure Board :=
  match P.text target.offset, target.stack with
  | some stub, some (_, esp0) =>
      let cpu := { s.cpu with written := [] }
      let run := runStub P.functions stub (cpu.deliver s.code esp0 vector code)
      match called run.entered, run.atIret with
      | .error f, _ => .error (.fault f)
      | .ok ⟨printed, none⟩, _ => .ok { s with printed := s.printed ++ printed, halted := true }
      | .ok ⟨printed, some _⟩, some t =>
          .ok
            { s with
              cpu := t.iret.2
              code := t.iret.1
              pics := s.pics.writes t.written
              printed := s.printed ++ printed }
      | .ok ⟨_, some _⟩, none => .error .refused
  | _, _ => .error .refused

/-- An exception, or the interrupt of a device. -/
def raise (vector : UInt8) (code : UInt32) : Except Failure Board :=
  match P.places.tables.interrupt s.cpu.memory s.level false vector with
  | .ok target => P.enter s target vector code
  | .error _ => .error .refused

/-- What the machine does. -/
def step (e : Process.Event P.area) : Except Failure Board :=
  if s.halted then .ok s
  else
    match e with
    | .instr f => .ok (P.setUser s ((P.user s).keep (f (P.user s))))
    | .int vector =>
        match P.places.tables.interrupt s.cpu.memory s.level true vector with
        | .ok target => P.enter s.skip target vector 0
        | .error r => P.raise s r.vector r.code
    | .exception vector code => P.raise s (UInt8.ofNat vector) code
    | .port port n =>
        let iopl := (s.code.eflags >>> 12 &&& 3).toUInt8
        if P.places.tables.allowsPorts s.cpu.memory s.level iopl port n then .error .port
        else P.raise s 13 0
    | .irq line =>
        -- the request waits if interrupts are kept from coming
        if s.code.eflags &&& 0x200 = 0 then .ok s
        else
          match s.pics.request line with
          | none => .ok s
          | some (vector, pics) => P.raise { s with pics := pics } vector 0

end Platform

/-- An address on the stack, which ends at `top`. -/
def OnStack (top x : UInt32) : Prop := (x - (top - 16384)).toNat < 16384

/-- `t` is `s` with words pushed, and `n` words are on the stack. -/
structure Cpu.Pushed (top : UInt32) (s t : Cpu) (n : ℕ) : Prop where
  esp : t.esp = top - UInt32.ofNat (4 * n)
  memory : ∀ x, ¬ OnStack top x → t.memory x = s.memory x
  written : t.written = s.written

theorem storeWord_of_sub (m : Ram) {p x : UInt32} (w : UInt32) (h : 4 ≤ (x - p).toNat) :
    storeWord m p w x = m x := List.getD_eq_default _ _ h

namespace Cpu.Pushed

variable {top : UInt32} {s t : Cpu} {n : ℕ}

theorem esp_push (h : Pushed top s t n) : t.esp - 4 = top - UInt32.ofNat (4 * (n + 1)) := by
  rw [h.esp, Nat.mul_add, UInt32.ofNat_add]
  grind

theorem push (h : Pushed top s t n) (hn : n < 4096) (w : UInt32) :
    Pushed top s (t.push w) (n + 1) where
  esp := h.esp_push
  memory := by
    intro x hx
    rw [← h.memory x hx]
    change storeWord t.memory (t.esp - 4) w x = t.memory x
    rw [OnStack, UInt32.toNat_sub, UInt32.toNat_sub] at hx
    change ¬ (2 ^ 32 - (2 ^ 32 - 16384 + top.toNat) % 2 ^ 32 + x.toNat) % 2 ^ 32 < 16384 at hx
    have hlt := x.toNat_lt
    have htop := top.toNat_lt
    refine storeWord_of_sub t.memory w ?_
    rw [h.esp_push, UInt32.toNat_sub, UInt32.toNat_sub, UInt32.toNat_ofNat']
    omega
  written := h.written

theorem pushAll (h : Pushed top s t n) (hn : n + 8 ≤ 4096) : Pushed top s t.pushAll (n + 8) := by
  have h₄ := (((h.push (by omega) t.eax).push (by omega) t.ecx).push (by omega) t.edx).push
    (by omega) t.ebx
  exact (((h₄.push (by omega) t.esp).push (by omega) t.ebp).push (by omega) t.esi).push (by omega)
    t.edi

theorem saveRegisters (h : Pushed top s t n) (hn : n + 12 ≤ 4096) :
    Pushed top s t.saveRegisters (n + 12) :=
  ((((h.pushAll (by omega)).push (by omega) _).push (by omega) _).push (by omega) _).push
    (by omega) _

theorem kernelSegments (h : Pushed top s t n) : Pushed top s t.kernelSegments n :=
  ⟨h.esp, h.memory, h.written⟩

theorem enterHandler (h : Pushed top s t n) (hn : n + 14 ≤ 4096) (f : Functions) :
    Pushed top s (t.enterHandler f) (n + 14) :=
  ((h.saveRegisters (by omega)).kernelSegments.push (by omega) _).push (by omega) _

end Cpu.Pushed

/-- The processor changes to the stack of the kernel. -/
theorem Cpu.pushed_save (s : Cpu) {c : Interrupted} (hc : c.cs &&& 3 ≠ 0) (top : UInt32) :
    Pushed top s (s.save c top) 5 := by
  have hstack : Pushed top s { s with esp := top, ss := 0x10 } 0 :=
    ⟨(UInt32.sub_zero top).symm, fun _ _ => rfl, rfl⟩
  rw [save, if_neg hc]
  exact ((((hstack.push (by omega) _).push (by omega) _).push (by omega) _).push (by omega) _).push
    (by omega) _

/-- The argument of the handler is a pointer to what is behind it. -/
theorem Cpu.word_enterHandler (s : Cpu) (f : Functions) :
    (s.enterHandler f).word 1 = (s.enterHandler f).esp + 8 := by
  have hword : (s.enterHandler f).word 1 = s.saveRegisters.kernelSegments.esp := by
    simp [enterHandler]
  have hesp : (s.enterHandler f).esp + 8 = s.saveRegisters.kernelSegments.esp := by
    change s.saveRegisters.kernelSegments.esp - 4 - 4 + 8 = _
    grind
  rw [hword, hesp]

theorem Cpu.iret_memory (t : Cpu) : t.iret.2.memory = t.memory := by
  unfold iret
  dsimp only
  split_ifs <;> rfl

/-- **The handler receives the frame of the program.** -/
theorem received_frame (P : Platform) {s : Board} (hcs : s.code.cs = 0x1B) (f : Functions)
    (top : UInt32) (vector : UInt8) (code : UInt32) :
    ∃ esp, ((s.cpu.inCommonStub s.code top vector code).enterHandler f).received =
      (P.user s).frame vector code esp := by
  have hregs := s.cpu.inCommonStub_sameRegisters s.code top vector code
  have hword {k : ℕ} (hk : k < 5) := s.cpu.inCommonStub_word s.code top vector code hk
  obtain ⟨heip, hcode, heflags⟩ := s.cpu.save_word s.code top
  have hlevel : ¬ s.code.cs &&& 3 = 0 := by
    rw [hcs]
    decide
  have hstack : (s.cpu.save s.code top).word 3 = s.cpu.esp ∧
      (s.cpu.save s.code top).word 4 = s.cpu.ss.toUInt32 := by
    simp [Cpu.save, hlevel]
  refine ⟨(s.cpu.inCommonStub s.code top vector code).esp, ?_⟩
  rw [Cpu.received_enterHandler, hregs.gs, hregs.fs, hregs.es, hregs.ds, hregs.edi, hregs.esi,
    hregs.ebp, hregs.ebx, hregs.edx, hregs.ecx, s.cpu.inCommonStub_eax, s.cpu.inCommonStub_vector,
    s.cpu.inCommonStub_code, hword (k := 0) (by decide), hword (k := 1) (by decide),
    hword (k := 2) (by decide), hword (k := 3) (by decide), hword (k := 4) (by decide), heip, hcode,
    heflags, hstack.1, hstack.2, hcs]
  rfl

/-! ### The assumptions -/

namespace Platform

variable (P : Platform)

/-- An address of `timer_ticks`. -/
def InTicks (x : UInt32) : Prop := (x - P.timerTicks).toNat < 4

/-- What the functions leave alone: the area, the tables and, but for the timer, the ticks. -/
def Kept (x : UInt32) : Prop := P.area x ∨ P.places.InTable x

/-- The assumptions. -/
structure Proper : Prop where
  apart : P.places.Apart
  /-- The stubs are where the gates lead to. -/
  text : ∀ vector g, P.places.stubs.stub vector = some g → P.text g.1 = idtGate vector
  /-- The area, the tables, the ticks and the stack have nothing in common. -/
  stack : ∀ x, P.Kept x ∨ P.InTicks x → ¬ OnStack P.places.stackTop x
  area : ∀ x, P.area x → ¬ P.places.InTable x ∧ ¬ P.InTicks x
  /-- The functions return as the source says. -/
  returns : P.functions.RunsHandler
  handler : ∀ r : Cpu, r.esp = P.places.stackTop - 84 → r.word 1 = r.esp + 8 →
    (P.functions.call .exceptionHandler r).written = r.written ∧
      ∀ x, P.Kept x ∨ P.InTicks x →
        (P.functions.call .exceptionHandler r).memory x = r.memory x
  timer : ∀ r : Cpu, r.esp = P.places.stackTop - 56 →
    r.Keeps (P.functions.call .timerHandler r) ∧
      (P.functions.call .timerHandler r).written = r.written ∧
      (∀ x, P.Kept x → (P.functions.call .timerHandler r).memory x = r.memory x) ∧
      loadWord (P.functions.call .timerHandler r).memory P.timerTicks =
        timerHandler (loadWord r.memory P.timerTicks)

/-- The machine is where the program is. -/
structure Shows (s : Board) (p : Process P.area) : Prop where
  user : P.user s = p.user
  cs : s.code.cs = 0x1B
  flags : s.code.eflags &&& protectedFlags = 0x200
  printed : s.printed = p.printed
  ticks : loadWord s.cpu.memory P.timerTicks = p.ticks
  halted : s.halted = p.ended
  tables : P.places.Hold s.cpu.memory
  pics : s.pics = .remapped 0

variable {P} {s : Board} {p p' : Process P.area}

/-- The ticks are in their four bytes. -/
theorem ticks_congr {m m' : Ram} (h : ∀ x, P.InTicks x → m' x = m x) :
    loadWord m' P.timerTicks = loadWord m P.timerTicks := by
  refine Bytes.word_congr fun k hk => h _ ?_
  rw [InTicks, UInt32.add_comm, UInt32.add_sub_cancel, UInt32.toNat_ofNat']
  omega

theorem Proper.hold_congr (hP : P.Proper) {m m' : Ram} (h : P.places.Hold m)
    (hm : ∀ x, P.Kept x → m' x = m x) : P.places.Hold m' :=
  h.congr (fun x hx => hm x (Or.inr hx)) fun t ht => by
    have hfits := hP.apart.2 t ht
    omega

theorem Proper.kept (hP : P.Proper) {c t : Cpu} {n : ℕ}
    (h : Cpu.Pushed P.places.stackTop c t n) {x : UInt32} (hx : P.Kept x ∨ P.InTicks x) :
    t.memory x = c.memory x := h.memory x (hP.stack x hx)

theorem Shows.userCode (hs : P.Shows s p) : s.code.cs &&& 3 ≠ 0 := by
  rw [hs.cs]
  decide

/-- What was written to ports before does not matter. -/
theorem Shows.fresh (hs : P.Shows s p) : P.Shows { s with cpu := { s.cpu with written := [] } } p :=
  ⟨hs.user, hs.cs, hs.flags, hs.printed, hs.ticks, hs.halted, hs.tables, hs.pics⟩

/-- **The stub is done**: the program goes on with a result. -/
theorem Shows.resume (hP : P.Proper) (hs : P.Shows s p) {t : Cpu} {top eax : UInt32}
    (ht : t.Restores s.cpu s.code top eax) (hm : ∀ x, P.Kept x → t.memory x = s.cpu.memory x)
    (printed : List UInt8) :
    P.Shows { s with cpu := t.iret.2, code := t.iret.1, pics := .remapped 0, printed := printed }
      { p with
        user := { p.user with eax := eax }
        printed := printed
        ticks := loadWord t.memory P.timerTicks } := by
  obtain ⟨hcode, hregs, heax, hesp, hss⟩ := ht.iret
  have hmemory := t.iret_memory
  have huser : (fun x : {x // P.area x} => t.iret.2.memory x.val) =
      fun x : {x // P.area x} => s.cpu.memory x.val := by
    funext x
    rw [hmemory]
    exact hm x (Or.inl x.2)
  have hold : P.places.Hold t.iret.2.memory := by
    rw [hmemory]
    exact hP.hold_congr hs.tables hm
  exact
    { user := by
        rw [← hs.user]
        simp only [Platform.user, hcode, heax, hesp, hss hs.userCode, hregs.gs, hregs.fs, hregs.es,
          hregs.ds, hregs.edi, hregs.esi, hregs.ebp, hregs.ebx, hregs.edx, hregs.ecx, huser]
      cs := by rw [hcode, hs.cs]
      flags := by rw [hcode, hs.flags]
      printed := rfl
      ticks := by rw [hmemory]
      halted := hs.halted
      tables := hold
      pics := rfl }

/-! ### Going through a gate -/

section Enter

variable {target : Target} {vector : UInt8} {code esp0 : UInt32} {ss : UInt16} {stub : List Instr}
  {calls : List (Extern × Cpu)} {t : Cpu} {printed : List UInt8}

/-- The functions return. -/
theorem enter_of_returns (htext : P.text target.offset = some stub)
    (hstack : target.stack = some (ss, esp0))
    (hrun : runStub P.functions stub
      (({ s.cpu with written := [] } : Cpu).deliver s.code esp0 vector code) = ⟨calls, some t⟩)
    (hcalled : called calls = .ok ⟨printed, some ()⟩) :
    P.enter s target vector code =
      .ok
        { s with
          cpu := t.iret.2
          code := t.iret.1
          pics := s.pics.writes t.written
          printed := s.printed ++ printed } := by
  rw [enter, htext, hstack]
  dsimp only
  rw [hrun]
  dsimp only
  rw [hcalled]

/-- One of them does not. -/
theorem enter_of_halts (htext : P.text target.offset = some stub)
    (hstack : target.stack = some (ss, esp0))
    (hrun : runStub P.functions stub
      (({ s.cpu with written := [] } : Cpu).deliver s.code esp0 vector code) = ⟨calls, some t⟩)
    (hcalled : called calls = .ok ⟨printed, none⟩) :
    P.enter s target vector code =
      .ok { s with printed := s.printed ++ printed, halted := true } := by
  rw [enter, htext, hstack]
  dsimp only
  rw [hrun]
  dsimp only
  rw [hcalled]

end Enter

/-- **The handler is called with the frame of the program**, and does what the program sees. -/
theorem Proper.calls_handler (hP : P.Proper) (hs : P.Shows s p) {vector : UInt8}
    (hv : vector < 32 ∨ vector = 0x80) {code : UInt32} {res : Returned UInt32}
    (hres : p.user.handle vector code = .ok res) {r : Cpu}
    (hr : r = (s.cpu.inCommonStub s.code P.places.stackTop vector code).enterHandler P.functions) :
    Cpu.Pushed P.places.stackTop s.cpu r 21 ∧
      exceptionHandler r.memory r.received =
        .ok ⟨res.printed, res.value.map fun eax => { r.received with eax := eax }⟩ := by
  subst hr
  have hcommon : Cpu.Pushed P.places.stackTop s.cpu
      (s.cpu.inCommonStub s.code P.places.stackTop vector code) 7 :=
    ((s.cpu.pushed_save hs.userCode P.places.stackTop).push (by decide) _).push (by decide) _
  have hpushed := hcommon.enterHandler (by decide) P.functions
  refine ⟨hpushed, ?_⟩
  obtain ⟨esp, hframe⟩ := received_frame P hs.cs P.functions P.places.stackTop vector code
  rw [hframe, hs.user]
  refine User.exceptionHandler_frame (fun x => ?_) hres hv esp
  rw [hP.kept hpushed (Or.inl (Or.inl x.2)), ← hs.user]
  rfl

/-- **An exception or a system call.** -/
theorem Proper.enter_handler (hP : P.Proper) (hs : P.Shows s p) (hp : p.ended = false)
    {vector : UInt8} (hv : vector < 32 ∨ vector = 0x80) {code : UInt32} (target : Target)
    (htext : P.text target.offset = idtGate vector) {ss : UInt16}
    (hstack : target.stack = some (ss, P.places.stackTop)) (h : p.handle vector code = .ok p') :
    ∃ s', P.enter s target vector code = .ok s' ∧ P.Shows s' p' := by
  obtain ⟨res, hres, rfl⟩ := map_eq_ok.1 h
  let c : Cpu := { s.cpu with written := [] }
  let r := (c.inCommonStub s.code P.places.stackTop vector code).enterHandler P.functions
  let u := P.functions.call .exceptionHandler r
  obtain ⟨hpushed, hhandler⟩ := hP.calls_handler hs.fresh hv hres (r := r) rfl
  have hrun : runStub P.functions (isrEntry vector ++ isrCommonStub)
      (c.deliver s.code P.places.stackTop vector code) =
      ⟨[(.exceptionHandler, r)], some u.leaveHandler⟩ := by
    rw [runStub_isr, runStub_isrCommonStub]
  have hcalled : called [(.exceptionHandler, r)] =
      .ok ⟨res.printed, res.value.map fun _ => ()⟩ := by
    rw [called, hhandler, ok_bind]
    cases res.value with
    | none => rfl
    | some eax => simp [called]
  have hstub := htext.trans (idtGate_eq hv)
  cases hvalue : res.value with
  | none =>
      rw [hvalue] at hcalled
      refine ⟨_, enter_of_halts hstub hstack hrun hcalled, ?_⟩
      rw [Process.answer, hvalue]
      exact
        { hs with
          printed := congrArg (· ++ res.printed) hs.printed
          halted := rfl }
  | some eax =>
      rw [hvalue] at hcalled hhandler
      refine ⟨_, enter_of_returns hstub hstack hrun hcalled, ?_⟩
      obtain ⟨hesp, hregs⟩ := hP.returns r _ _ hhandler
      obtain ⟨hwritten, hcall⟩ := hP.handler r hpushed.esp (Cpu.word_enterHandler _ _)
      have hkeeps : ∀ x, P.Kept x ∨ P.InTicks x → u.leaveHandler.memory x = s.cpu.memory x :=
        fun x hx => (hcall x hx).trans (hP.kept hpushed hx)
      have hports : u.leaveHandler.written = [] := hwritten.trans hpushed.written
      have hticks : loadWord u.leaveHandler.memory P.timerTicks = p.ticks :=
        (ticks_congr fun x hx => hkeeps x (Or.inr hx)).trans hs.ticks
      have hresume := hs.fresh.resume hP (Cpu.leaveHandler_restores ⟨hesp, hregs⟩)
        (fun x hx => hkeeps x (Or.inl hx)) (s.printed ++ res.printed)
      have hended : (some eax).isNone = p.ended := hp.symm
      rw [hticks, hs.printed] at hresume
      rw [hports, hs.pics, Process.answer, hvalue, hs.printed, hended]
      exact hresume

/-- **The timer.** -/
theorem Proper.enter_timer (hP : P.Proper) (hs : P.Shows s p) (target : Target)
    (htext : P.text target.offset = some isrTimer) {ss : UInt16}
    (hstack : target.stack = some (ss, P.places.stackTop)) :
    ∃ s', P.enter { s with pics := .remapped (Pic.bit 0) } target intTimer 0 = .ok s' ∧
      P.Shows s' { p with ticks := timerHandler p.ticks } := by
  let c : Cpu := { s.cpu with written := [] }
  let r := (c.save s.code P.places.stackTop).pushAll.push (P.functions.behind .timerHandler)
  let u := P.functions.call .timerHandler r
  have hpushed : Cpu.Pushed P.places.stackTop c r 14 :=
    ((c.pushed_save hs.userCode P.places.stackTop).pushAll (by decide)).push (by decide) _
  obtain ⟨hkeeps, hwritten, hcall, hticks⟩ := hP.timer r hpushed.esp
  have hdeliver : c.deliver s.code P.places.stackTop intTimer 0 =
      c.save s.code P.places.stackTop := if_neg (by decide)
  have hrun : runStub P.functions isrTimer (c.deliver s.code P.places.stackTop intTimer 0) =
      ⟨[(.timerHandler, r)], some u.leaveTimer⟩ := by
    rw [hdeliver, runStub_isrTimer]
  -- the word that ends the service is the only one that is written
  have hports : u.leaveTimer.written = [(0x20, 0x20)] := by
    change u.written ++ [(0x20, 0x20)] = _
    rw [hwritten, hpushed.written]
    rfl
  have hpics : (Pics.remapped (Pic.bit 0)).writes [(0x20, 0x20)] = .remapped 0 :=
    Pics.endOfInterrupt.1
  have htick : loadWord u.leaveTimer.memory P.timerTicks = timerHandler p.ticks := by
    rw [← hs.ticks, ← ticks_congr fun x hx => hP.kept hpushed (Or.inr hx)]
    exact hticks
  have hresume := hs.fresh.resume hP (Cpu.leaveTimer_restores s.code P.places.stackTop hkeeps)
    (fun x hx => (hcall x hx).trans (hP.kept hpushed (Or.inl hx))) (s.printed ++ [])
  have huser : { P.user s with eax := s.cpu.eax } = p.user := hs.user
  refine ⟨_, enter_of_returns htext hstack hrun rfl, ?_⟩
  rw [htick, List.append_nil, hs.printed, ← hs.user] at hresume
  rw [hports, List.append_nil, hs.printed, hpics]
  rw [huser] at hresume
  exact hresume

/-! ### What happens -/

/-- Interrupts come, and ports are for the kernel. -/
theorem of_protectedFlags {w : UInt32} (h : w &&& protectedFlags = 0x200) :
    w &&& 0x200 ≠ 0 ∧ (w >>> 12) &&& 3 = 0 := by
  have hinterrupts : (0x200 : UInt32) = protectedFlags &&& 0x200 := by decide
  have hlevel : (3 : UInt32) = protectedFlags >>> 12 := by decide
  constructor
  · rw [hinterrupts, ← UInt32.and_assoc, h]
    decide
  · rw [hlevel, ← UInt32.shiftRight_and, h]
    decide

theorem Shows.level (hs : P.Shows s p) : s.level = 3 := by
  rw [Board.level, hs.cs]
  decide

/-- What the processor finds in the tables. -/
theorem Shows.interrupt (hs : P.Shows s p) (software : Bool) (vector : UInt8) :
    P.places.tables.interrupt s.cpu.memory s.level software vector =
      (P.places.stubs.stub vector).elim (.error ⟨13, Tables.gateCode software vector⟩) fun g =>
        if software ∧ vector ≠ intSyscall then .error ⟨13, Tables.gateCode software vector⟩
        else .ok ⟨g.1, codeSeg, some (dataSeg, P.places.stackTop)⟩ := by
  rw [hs.level]
  exact hs.tables.interrupt software vector

/-- An exception goes through its gate. -/
theorem Proper.raise (hP : P.Proper) (hs : P.Shows s p) (hp : p.ended = false) {vector : UInt8}
    (hv : vector < 32) {code : UInt32} (h : p.handle vector code = .ok p') :
    ∃ s', P.raise s vector code = .ok s' ∧ P.Shows s' p' := by
  have hstub : P.places.stubs.stub vector = some (P.places.stubs.isr ⟨vector.toNat, hv⟩, 0) :=
    dif_pos hv
  obtain ⟨s', henter, hs'⟩ := hP.enter_handler hs hp (Or.inl hv)
    ⟨P.places.stubs.isr ⟨vector.toNat, hv⟩, codeSeg, some (dataSeg, P.places.stackTop)⟩
    (hP.text _ _ hstub) rfl h
  refine ⟨s', ?_, hs'⟩
  rw [Platform.raise, hs.interrupt, hstub, Option.elim_some, if_neg fun h => Bool.false_ne_true h.1]
  exact henter

/-- The interrupt of the timer goes through its gate. -/
theorem Proper.tick (hP : P.Proper) (hs : P.Shows s p) :
    ∃ s', P.raise { s with pics := .remapped (Pic.bit 0) } intTimer 0 = .ok s' ∧
      P.Shows s' { p with ticks := timerHandler p.ticks } := by
  have hstub : P.places.stubs.stub intTimer = some (P.places.stubs.isrTimer, 0) := rfl
  obtain ⟨s', henter, hs'⟩ := hP.enter_timer hs
    ⟨P.places.stubs.isrTimer, codeSeg, some (dataSeg, P.places.stackTop)⟩
    (hP.text _ _ hstub) rfl
  have hgate : P.places.tables.interrupt
      ({ s with pics := .remapped (Pic.bit 0) } : Board).cpu.memory
      ({ s with pics := .remapped (Pic.bit 0) } : Board).level false intTimer =
      .ok ⟨P.places.stubs.isrTimer, codeSeg, some (dataSeg, P.places.stackTop)⟩ :=
    hs.interrupt false intTimer
  refine ⟨s', ?_, hs'⟩
  rw [Platform.raise, hgate]
  exact henter

/-- A system call goes through its gate. -/
theorem Proper.int (hP : P.Proper) (hs : P.Shows s p) (hp : p.ended = false)
    (h : p.skip.handle 0x80 0 = .ok p') :
    ∃ target s', P.places.tables.interrupt s.cpu.memory s.level true 0x80 = .ok target ∧
      P.enter s.skip target 0x80 0 = .ok s' ∧ P.Shows s' p' := by
  have hskip : P.Shows s.skip p.skip :=
    { hs with
      user := by
        rw [Process.skip, ← hs.user]
        rfl }
  have hstub : P.places.stubs.stub 0x80 = some (P.places.stubs.isrSyscall, 3) := rfl
  obtain ⟨s', henter, hs'⟩ := hP.enter_handler hskip hp (Or.inr rfl)
    ⟨P.places.stubs.isrSyscall, codeSeg, some (dataSeg, P.places.stackTop)⟩
    (hP.text _ _ hstub) rfl h
  exact ⟨_, s', hs.interrupt true 0x80, henter, hs'⟩

theorem user_setUser (s : Board) (u : User P.area) : P.user (P.setUser s u) = u := by
  have hmemory : (fun x : {x // P.area x} => (P.setUser s u).cpu.memory x.val) = u.memory :=
    funext fun x => dif_pos x.2
  rw [user, hmemory]
  rfl

/-- The program executes an instruction. -/
theorem Proper.instr (hP : P.Proper) (hs : P.Shows s p) (u : User P.area) :
    P.Shows (P.setUser s (p.user.keep u)) { p with user := p.user.keep u } := by
  have hflags : p.user.eflags = s.code.eflags := (congrArg User.eflags hs.user).symm
  have hmemory : ∀ x, ¬ P.area x → (P.setUser s (p.user.keep u)).cpu.memory x = s.cpu.memory x :=
    fun x hx => dif_neg hx
  exact
    { user := user_setUser s _
      cs := hs.cs
      flags := by
        change keepFlags p.user.eflags u.eflags &&& protectedFlags = _
        rw [keepFlags_and, hflags, hs.flags]
      printed := hs.printed
      ticks := by
        rw [← hs.ticks]
        exact ticks_congr fun x hx => hmemory x fun harea => (hP.area x harea).2 hx
      halted := hs.halted
      tables := hs.tables.congr
        (fun x hx => hmemory x fun harea => (hP.area x harea).1 hx) fun t ht => by
          have hfits := hP.apart.2 t ht
          omega
      pics := hs.pics }

/-- **Whatever happens, the machine follows the program.** -/
theorem Proper.step (hP : P.Proper) (hs : P.Shows s p) (e : Process.Event P.area)
    (h : p.step e = .ok p') : ∃ s', P.step s e = .ok s' ∧ P.Shows s' p' := by
  by_cases hended : p.ended = true
  · rw [Process.step_ended hended] at h
    obtain rfl := Except.ok.inj h
    exact ⟨s, if_pos (hs.halted.trans hended), hs⟩
  have hp : p.ended = false := by simpa using hended
  have hhalted : ¬ s.halted = true := by rwa [hs.halted]
  obtain ⟨hinterrupts, hports⟩ := of_protectedFlags hs.flags
  unfold Process.step at h
  rw [if_neg hended] at h
  unfold Platform.step
  rw [if_neg hhalted]
  cases e with
  | instr f =>
      obtain rfl := Except.ok.inj h
      refine ⟨_, rfl, ?_⟩
      rw [hs.user]
      exact hP.instr hs _
  | int vector =>
      dsimp only at h ⊢
      by_cases hsys : vector = 0x80
      · subst hsys
        rw [if_pos rfl] at h
        obtain ⟨target, s', hgate, henter, hs'⟩ := hP.int hs hp h
        rw [hgate]
        exact ⟨s', henter, hs'⟩
      · have hgate : P.places.tables.interrupt s.cpu.memory s.level true vector =
            .error ⟨13, Tables.gateCode true vector⟩ := by
          rw [hs.interrupt]
          cases P.places.stubs.stub vector with
          | none => rfl
          | some g => exact if_pos ⟨rfl, hsys⟩
        rw [if_neg hsys] at h
        rw [hgate]
        exact hP.raise hs hp (show (13 : UInt8) < 32 by decide) h
  | exception vector code =>
      refine hP.raise hs hp ?_ h
      have hmod := Nat.mod_eq_of_lt (vector.isLt.trans (by decide : 32 < 2 ^ 8))
      rw [UInt8.lt_iff_toNat_lt, UInt8.toNat_ofNat', hmod]
      exact vector.isLt
  | port port n =>
      have hrefused : P.places.tables.allowsPorts s.cpu.memory s.level
          (s.code.eflags >>> 12 &&& 3).toUInt8 port n = false := by
        rw [hports, hs.level]
        exact hs.tables.allowsPorts port n
      dsimp only
      rw [hrefused]
      exact hP.raise hs hp (by decide) h
  | irq line =>
      dsimp only
      rw [if_neg hinterrupts, hs.pics, Pics.request_remapped]
      obtain rfl := Except.ok.inj h
      by_cases hline : line.val = 0
      · rw [if_pos hline, if_pos hline]
        exact hP.tick hs
      · rw [if_neg hline, if_neg hline]
        exact ⟨s, rfl, hs⟩

/-! ### Runs -/

/-- The kernel can start a program: the tables and the controllers are set up, and there is room on
the stack. -/
structure Ready (P : Platform) (s : Board) : Prop where
  tables : P.places.Hold s.cpu.memory
  pics : s.pics = .remapped 0
  running : s.halted = false
  stack : ∃ n, n + 5 ≤ 4096 ∧ s.cpu.esp = P.places.stackTop - UInt32.ofNat (4 * n)

/-- What a program finds at its start: most registers and the memory are as the kernel left them. -/
def started (P : Platform) (s : Board) (entry : UInt32) : Process P.area where
  user :=
    { P.user s with
      eax := (s.cpu.eax &&& 0xFFFF0000) ||| 0x23
      edx := entry
      esp := 0x300000
      ds := 0x23
      es := 0x23
      fs := 0x23
      gs := 0x23
      ss := 0x23
      eip := entry
      eflags := 0x202 }
  printed := s.printed
  ticks := loadWord s.cpu.memory P.timerTicks
  ended := false

end Platform

section Runs

variable {P : Platform} {s : Board}

end Runs

/-! ### An example -/

end Anaga
