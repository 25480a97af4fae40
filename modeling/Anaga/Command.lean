/-
**The commands of the shell: `drivers/command/command.c`.**

The commands that work on the file system.  A command gets the rest of its line, which is missing
if nothing follows its name, and returns nothing.

Main definitions:

* `Anaga.cmdLs`, `Anaga.cmdPwd`, `Anaga.cmdCd`, `Anaga.cmdCat`, `Anaga.cmdMkdir`,
  `Anaga.cmdTouch` — the commands;
* `Anaga.Command`, `Anaga.Command.step` — a command with its argument, and the state it leaves.

Main results:

* `Anaga.Command.step_eq` — **a command is at most one call, and some output**.
-/

import Anaga.Vfs

set_option relaxedAutoImplicit false
set_option autoImplicit false

namespace Anaga

open Transition

/-- The test `a && *a`: the argument, if there is one and it is not empty. -/
def given (a : Option CString) : Option CString := a.filter fun s => s.bytes ≠ []

/-- A command that needs an argument, and otherwise prints how it is used. -/
def withArgument (usage : String) (call : Kernel → CString → Except Fault Result) (k : Kernel)
    (a : Option CString) : Except Fault Kernel :=
  match given a with
  | some s => Result.kernel <$> call k s
  | none => .ok (k.puts (utf8 usage))

/-- `cmd_ls`. -/
def cmdLs (k : Kernel) (_ : Option CString) : Except Fault Kernel := Result.kernel <$> vfsLs k

/-- `cmd_pwd`. -/
def cmdPwd (k : Kernel) (_ : Option CString) : Except Fault Kernel :=
  (fun r => r.kernel.puts (utf8 "\n")) <$> vfsPwd k

/-- `cmd_cd`. -/
def cmdCd (k : Kernel) (a : Option CString) : Except Fault Kernel :=
  Result.kernel <$> vfsCd k ((given a).getD slash)

/-- `cmd_cat`. -/
def cmdCat : Kernel → Option CString → Except Fault Kernel :=
  withArgument "Usage: cat <file>\n" vfsCat

/-- `cmd_mkdir`. -/
def cmdMkdir : Kernel → Option CString → Except Fault Kernel :=
  withArgument "Usage: mkdir <dir>\n" vfsMkdir

/-- `cmd_touch`. -/
def cmdTouch : Kernel → Option CString → Except Fault Kernel :=
  withArgument "Usage: touch <file>\n" vfsTouch

/-- A command with its argument. -/
inductive Command
  | ls (a : Option CString)
  | pwd (a : Option CString)
  | cd (a : Option CString)
  | cat (a : Option CString)
  | mkdir (a : Option CString)
  | touch (a : Option CString)

/-- The state that the command leaves. -/
def Command.step (k : Kernel) : Command → Except Fault Kernel
  | .ls a => cmdLs k a
  | .pwd a => cmdPwd k a
  | .cd a => cmdCd k a
  | .cat a => cmdCat k a
  | .mkdir a => cmdMkdir k a
  | .touch a => cmdTouch k a

/-- The call that the command makes. -/
def Command.call : Command → Option Op
  | .ls _ => some .ls
  | .pwd _ => some .pwd
  | .cd a => some (.cd ((given a).getD slash))
  | .cat a => (given a).map .cat
  | .mkdir a => (given a).map .mkdir
  | .touch a => (given a).map .touch

/-- A command that needs an argument makes its call, or prints. -/
theorem withArgument_eq (usage : String) (call : Kernel → CString → Except Fault Result)
    (mk : CString → Op) (hmk : ∀ k s, (mk s).exec k = call k s) (k : Kernel)
    (a : Option CString) :
    ∃ printed, withArgument usage call k a =
      (((given a).map mk).elim (.ok k) fun o => o.step k) >>= fun k' => .ok (k'.puts printed) := by
  unfold withArgument
  cases given a with
  | none => exact ⟨utf8 usage, rfl⟩
  | some s =>
      refine ⟨[], ?_⟩
      simp only [Option.map_some, Option.elim_some, Op.step, hmk]
      cases call k s with
      | ok r => simp [Kernel.puts]
      | error e => rfl

/-- **A command makes its call, if it has one, and prints something behind it.** -/
theorem Command.step_eq (k : Kernel) (c : Command) :
    ∃ printed, c.step k =
      (c.call.elim (.ok k) fun o => o.step k) >>= fun k' => .ok (k'.puts printed) := by
  have hnothing : ∀ x : Except Fault Result,
      Result.kernel <$> x = (Result.kernel <$> x) >>= fun k' => .ok (k'.puts []) := by
    intro x
    cases x with
    | ok r => simp [Kernel.puts]
    | error e => rfl
  cases c with
  | ls a => exact ⟨[], hnothing (vfsLs k)⟩
  | pwd a =>
      refine ⟨utf8 "\n", ?_⟩
      change (fun r : Result => r.kernel.puts (utf8 "\n")) <$> vfsPwd k =
        (Result.kernel <$> vfsPwd k) >>= fun k' => .ok (k'.puts (utf8 "\n"))
      cases vfsPwd k with
      | ok r => rfl
      | error e => rfl
  | cd a => exact ⟨[], hnothing (vfsCd k ((given a).getD slash))⟩
  | cat a => exact withArgument_eq _ vfsCat Op.cat (fun _ _ => rfl) k a
  | mkdir a => exact withArgument_eq _ vfsMkdir Op.mkdir (fun _ _ => rfl) k a
  | touch a => exact withArgument_eq _ vfsTouch Op.touch (fun _ _ => rfl) k a

end Anaga
