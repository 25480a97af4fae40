/-
**The drive and its ports: `drivers/drive/drive.c`.**

The driver reads and writes a sector through the ports of the drive: it waits until the drive is
not busy, writes the address and a command to the registers, waits until the drive has or wants
data, and moves 256 words.  The drive is the device at the other end: it takes a command only while
it is idle, is busy for a while after one, and counts the words.  How long it is busy, and what the
other bits of its status are, is not said; both are part of its state, as sequences.

The power can fail in front of every access to a port.

Main definitions:

* `Anaga.Ata` — the drive, and what an access to its ports does;
* `Anaga.Ata.driveReadSector`, `Anaga.Ata.driveWriteSector` — the functions of `drive.h`, on the
  ports;
* `Anaga.Ata.Request`, `Anaga.Ata.session` — calls of the driver, one after the other.

Main results:

* `Anaga.Ata.driveIssue_completes` — a command reaches an idle drive, and its data phase is awaited;
* `Anaga.Ata.driveReadSector_completes`, `Anaga.Ata.driveWriteSector_completes` — **the driver reads
  and writes the store of sectors**;
* `Anaga.Ata.session_refines` — **so do any number of calls, and where the power fails, some of the
  calls have been made and the next one has not**.
-/

import Anaga.Kernel
import Anaga.Power

set_option relaxedAutoImplicit false
set_option autoImplicit false

namespace Anaga

open Power

/-! ### The drive -/

/-- What the drive is doing. -/
inductive Transfer
  /-- It waits for a command. -/
  | idle
  /-- It has words for the host. -/
  | toHost (words : List UInt16)
  /-- It wants `count` sectors from `lba` on, and has got some words of the first one. -/
  | toDisk (lba count : ℕ) (words : List UInt16)
  deriving DecidableEq

/-- The drive, with its registers.  After a command, `busy` readings of its status find it busy, and
`stall` more find it neither busy nor ready; `delays` is how long that will be after the commands to
come, and `lines` are the bits of the status that the drive does not drive. -/
structure Ata where
  disk : Disk
  select : UInt8
  count : UInt8
  low : UInt8
  mid : UInt8
  high : UInt8
  transfer : Transfer
  busy : ℕ
  stall : ℕ
  delays : ℕ → ℕ × ℕ
  lines : ℕ → UInt8

/-- `ATA_DATA`. -/
abbrev ataData : UInt16 := 0x1F0
/-- `ATA_SECTOR_COUNT`. -/
abbrev ataSectorCount : UInt16 := 0x1F2
/-- `ATA_LBA_LOW`. -/
abbrev ataLbaLow : UInt16 := 0x1F3
/-- `ATA_LBA_MID`. -/
abbrev ataLbaMid : UInt16 := 0x1F4
/-- `ATA_LBA_HIGH`. -/
abbrev ataLbaHigh : UInt16 := 0x1F5
/-- `ATA_DRIVE_SELECT`. -/
abbrev ataDriveSelect : UInt16 := 0x1F6
/-- `ATA_STATUS`. -/
abbrev ataStatus : UInt16 := 0x1F7
/-- `ATA_COMMAND`. -/
abbrev ataCommand : UInt16 := 0x1F7

/-- `ATA_CMD_READ`. -/
abbrev ataCmdRead : UInt8 := 0x20
/-- `ATA_CMD_WRITE`. -/
abbrev ataCmdWrite : UInt8 := 0x30
/-- `ATA_STATUS_BSY`. -/
abbrev ataStatusBsy : UInt8 := 0x80
/-- `ATA_STATUS_DRQ`. -/
abbrev ataStatusDrq : UInt8 := 0x08
/-- `ATA_DRIVE_LBA_MODE`. -/
abbrev ataDriveLbaMode : UInt32 := 0xE0

/-- The words of a sector. -/
def sectorWords (sector : Sector) : List UInt16 :=
  Bytes.halves (fun o => if h : o < sectorSize then sector ⟨o, h⟩ else 0) 256

/-- The sector that words make. -/
def wordsSector (words : List UInt16) : Sector := fun o => Bytes.ofHalves words o

namespace Ata

/-- The address in the registers. -/
def lba (a : Ata) : ℕ :=
  (a.select.toNat % 16) * 16777216 + a.high.toNat * 65536 + a.mid.toNat * 256 + a.low.toNat

/-- The number of sectors in the register, where zero is 256. -/
def sectors (a : Ata) : ℕ := if a.count = 0 then 256 else a.count.toNat

/-- The drive is busy after this, for as long as the next delays say. -/
def works (a : Ata) : Ata :=
  { a with
    busy := (a.delays 0).1
    stall := (a.delays 0).2
    delays := fun n => a.delays (n + 1) }

/-- Reading the status. -/
def status (a : Ata) : UInt8 × Ata :=
  let a' := { a with lines := fun n => a.lines (n + 1) }
  if a.busy ≠ 0 then (a.lines 0 ||| ataStatusBsy, { a' with busy := a.busy - 1 })
  else if a.stall ≠ 0 then (a.lines 0 &&& 0x77, { a' with stall := a.stall - 1 })
  else if a.transfer = .idle then (a.lines 0 &&& 0x77, a')
  else (a.lines 0 &&& 0x77 ||| ataStatusDrq, a')

/-- A command.  It is for the drive if that is selected, with an address in the registers. -/
def command (cmd : UInt8) (a : Ata) : Ata :=
  if a.select &&& 0x50 ≠ 0x40 then a
  else if cmd = ataCmdRead then
    { a.works with
      transfer := .toHost
        ((List.range a.sectors).flatMap fun i => sectorWords (a.disk (a.lba + i))) }
  else if cmd = ataCmdWrite then { a.works with transfer := .toDisk a.lba a.sectors [] }
  else a

/-- What `inb` reads from a port. -/
def portInb (port : UInt16) (a : Ata) : UInt8 × Ata :=
  if port = ataStatus then a.status else (0xFF, a)

/-- The register of a port is written. -/
def register (port : UInt16) (val : UInt8) (a : Ata) : Ata :=
  if port = ataSectorCount then { a with count := val }
  else if port = ataLbaLow then { a with low := val }
  else if port = ataLbaMid then { a with mid := val }
  else if port = ataLbaHigh then { a with high := val }
  else if port = ataDriveSelect then { a with select := val }
  else if port = ataCommand then a.command val
  else a

/-- What `outb` does to the drive.  It takes nothing while it is busy or in the middle of a
transfer. -/
def portOutb (port : UInt16) (val : UInt8) (a : Ata) : Ata :=
  if a.busy ≠ 0 ∨ a.transfer ≠ .idle then a else a.register port val

/-- What `inw` reads from a port: the next word, once the drive is ready. -/
def portInw (port : UInt16) (a : Ata) : UInt16 × Ata :=
  match a.transfer with
  | .toHost (w :: ws) =>
      if port = ataData ∧ a.busy = 0 ∧ a.stall = 0 then
        (w, { a with transfer := if ws = [] then .idle else .toHost ws })
      else (0xFFFF, a)
  | _ => (0xFFFF, a)

/-- What `outw` does to the drive: it takes a word once it is ready, and the last word of a sector
makes it write that. -/
def portOutw (port : UInt16) (w : UInt16) (a : Ata) : Ata :=
  match a.transfer with
  | .toDisk lba count ws =>
      if port = ataData ∧ a.busy = 0 ∧ a.stall = 0 then
        if ws.length + 1 < 256 then { a with transfer := .toDisk lba count (ws ++ [w]) }
        else
          { a.works with
            disk := Function.update a.disk lba (wordsSector (ws ++ [w]))
            transfer := if count ≤ 1 then .idle else .toDisk (lba + 1) (count - 1) [] }
      else a
  | _ => a

/-! ### The driver -/

/-- `outb`. -/
def outb (port : UInt16) (val : UInt8) : Prog Ata Unit := access fun a => ((), a.portOutb port val)

/-- `inw`. -/
def inw (port : UInt16) : Prog Ata UInt16 := access (portInw port)

/-- `outw`. -/
def outw (port : UInt16) (val : UInt16) : Prog Ata Unit := access fun a => ((), a.portOutw port val)

/-- `ata_wait_bsy`. -/
def ataWaitBsy : Prog Ata Unit := poll (portInb ataStatus) fun v => v &&& ataStatusBsy != 0

/-- `ata_wait_drq`. -/
def ataWaitDrq : Prog Ata Unit := poll (portInb ataStatus) fun v => v &&& ataStatusDrq == 0

/-- What `drive_read_sector` and `drive_write_sector` do in front of their loops, each with its
command. -/
def driveIssue (lba : UInt32) (cmd : UInt8) : Prog Ata Unit := do
  ataWaitBsy
  outb ataDriveSelect (ataDriveLbaMode ||| ((lba >>> 24) &&& 0x0F)).toUInt8
  outb ataSectorCount 1
  outb ataLbaLow lba.toUInt8
  outb ataLbaMid (lba >>> 8).toUInt8
  outb ataLbaHigh (lba >>> 16).toUInt8
  outb ataCommand cmd
  ataWaitBsy
  ataWaitDrq

/-- `drive_read_sector`: the buffer afterwards. -/
def driveReadSector (lba : UInt32) : Prog Ata (ℕ → UInt8) := do
  driveIssue lba ataCmdRead
  let words ← each (fun _ => inw ataData) (List.range 256)
  pure (Bytes.ofHalves words)

/-- `drive_write_sector`, with the words of the buffer. -/
def driveWriteSector (lba : UInt32) (buffer : ℕ → UInt8) : Prog Ata Unit := do
  driveIssue lba ataCmdWrite
  let _ ← each (fun i => outw ataData (Bytes.half buffer (2 * i))) (List.range 256)
  pure ()

/-! ### Waiting for the drive -/

theorem or_bsy (x : UInt8) : (x ||| ataStatusBsy) &&& ataStatusBsy = ataStatusBsy := by
  obtain ⟨x⟩ := x
  revert x
  decide +kernel

theorem and_bsy (x : UInt8) : x &&& 0x77 &&& ataStatusBsy = 0 := by
  obtain ⟨x⟩ := x
  revert x
  decide +kernel

theorem or_drq_and_bsy (x : UInt8) : (x &&& 0x77 ||| ataStatusDrq) &&& ataStatusBsy = 0 := by
  obtain ⟨x⟩ := x
  revert x
  decide +kernel

theorem and_drq (x : UInt8) : x &&& 0x77 &&& ataStatusDrq = 0 := by
  obtain ⟨x⟩ := x
  revert x
  decide +kernel

theorem or_drq (x : UInt8) : (x &&& 0x77 ||| ataStatusDrq) &&& ataStatusDrq = ataStatusDrq := by
  obtain ⟨x⟩ := x
  revert x
  decide +kernel

/-- The drive after its status was read some times. -/
def waited (a : Ata) (busy stall : ℕ) (lines : ℕ → UInt8) : Ata :=
  { a with busy := busy, stall := stall, lines := lines }

variable {a : Ata} {C : Ata → Prop}

theorem portInb_of_busy (h : a.busy ≠ 0) :
    portInb ataStatus a =
      (a.lines 0 ||| ataStatusBsy, a.waited (a.busy - 1) a.stall fun n => a.lines (n + 1)) := by
  rw [portInb, if_pos rfl, status, if_pos h]
  rfl

theorem portInb_of_stall (hbusy : a.busy = 0) (h : a.stall ≠ 0) :
    portInb ataStatus a =
      (a.lines 0 &&& 0x77, a.waited 0 (a.stall - 1) fun n => a.lines (n + 1)) := by
  rw [portInb, if_pos rfl, status, if_neg (not_not.2 hbusy), if_pos h, waited, ← hbusy]

theorem portInb_of_idle (hbusy : a.busy = 0) (hstall : a.stall = 0) (h : a.transfer = .idle) :
    portInb ataStatus a = (a.lines 0 &&& 0x77, a.waited 0 0 fun n => a.lines (n + 1)) := by
  rw [portInb, if_pos rfl, status, if_neg (not_not.2 hbusy), if_neg (not_not.2 hstall), if_pos h]
  simp only [waited, hbusy, hstall]

theorem portInb_of_ready (hbusy : a.busy = 0) (hstall : a.stall = 0) (h : a.transfer ≠ .idle) :
    portInb ataStatus a =
      (a.lines 0 &&& 0x77 ||| ataStatusDrq, a.waited 0 0 fun n => a.lines (n + 1)) := by
  rw [portInb, if_pos rfl, status, if_neg (not_not.2 hbusy), if_neg (not_not.2 hstall), if_neg h]
  simp only [waited, hbusy, hstall]

/-- A drive that is not busy says so. -/
theorem portInb_not_busy (hbusy : a.busy = 0) :
    (portInb ataStatus a).1 &&& ataStatusBsy = 0 ∧
      ∃ s l, (portInb ataStatus a).2 = a.waited 0 s l := by
  by_cases hstall : a.stall = 0
  · by_cases hidle : a.transfer = .idle
    · rw [portInb_of_idle hbusy hstall hidle]
      exact ⟨and_bsy _, _, _, rfl⟩
    · rw [portInb_of_ready hbusy hstall hidle]
      exact ⟨or_drq_and_bsy _, _, _, rfl⟩
  · rw [portInb_of_stall hbusy hstall]
    exact ⟨and_bsy _, _, _, rfl⟩

/-- The drive while it is asked and is busy. -/
theorem asked_of_le_busy {k : ℕ} (hk : k ≤ a.busy) :
    asked (portInb ataStatus) k a = a.waited (a.busy - k) a.stall fun n => a.lines (n + k) := by
  induction k generalizing a with
  | zero => rfl
  | succ k ih =>
      rw [asked, portInb_of_busy (by omega), ih (by simp only [waited]; omega)]
      simp only [waited, Nat.sub_sub, Nat.add_comm 1 k, Nat.add_assoc]

/-- The drive while it is asked, is not busy and is not ready. -/
theorem asked_of_le_stall (hbusy : a.busy = 0) {k : ℕ} (hk : k ≤ a.stall) :
    asked (portInb ataStatus) k a = a.waited 0 (a.stall - k) fun n => a.lines (n + k) := by
  induction k generalizing a with
  | zero =>
      cases a
      subst hbusy
      rfl
  | succ k ih =>
      rw [asked, portInb_of_stall hbusy (by omega), ih rfl (by simp only [waited]; omega)]
      simp only [waited, Nat.sub_sub, Nat.add_comm 1 k, Nat.add_assoc]

/-- The driver waits until the drive is not busy. -/
theorem ataWaitBsy_completes (hC : ∀ b s l, C (a.waited b s l)) :
    ∃ s l, Completes ataWaitBsy a () (a.waited 0 s l) C := by
  have hlast := asked_of_le_busy (a := a) (le_refl a.busy)
  rw [Nat.sub_self] at hlast
  obtain ⟨hbsy, s, l, hend⟩ := portInb_not_busy
    (a := a.waited 0 a.stall fun n => a.lines (n + a.busy)) rfl
  have hpoll : Completes ataWaitBsy a ()
      (portInb ataStatus (asked (portInb ataStatus) a.busy a)).2 C := by
    refine Completes.poll (fun k hk => ?_) ?_ fun k hk => ?_
    · rw [asked_of_le_busy hk.le, portInb_of_busy (Nat.sub_ne_zero_of_lt hk), or_bsy]
      rfl
    · rw [hlast, hbsy]
      rfl
    · rw [asked_of_le_busy hk]
      exact hC _ _ _
  rw [hlast, hend] at hpoll
  exact ⟨s, l, hpoll⟩

/-- And then until it is ready. -/
theorem ataWaitDrq_completes (hbusy : a.busy = 0) (htransfer : a.transfer ≠ .idle)
    (hC : ∀ b s l, C (a.waited b s l)) :
    ∃ l, Completes ataWaitDrq a () (a.waited 0 0 l) C := by
  have hlast := asked_of_le_stall hbusy (le_refl a.stall)
  rw [Nat.sub_self] at hlast
  have hready := portInb_of_ready
    (a := a.waited 0 0 fun n => a.lines (n + a.stall)) rfl rfl htransfer
  have hpoll : Completes ataWaitDrq a ()
      (portInb ataStatus (asked (portInb ataStatus) a.stall a)).2 C := by
    refine Completes.poll (fun k hk => ?_) ?_ fun k hk => ?_
    · have hstall := portInb_of_stall
        (a := a.waited 0 (a.stall - k) fun n => a.lines (n + k)) rfl (Nat.sub_ne_zero_of_lt hk)
      rw [asked_of_le_stall hbusy hk.le, hstall, and_drq]
      rfl
    · rw [hlast, hready, or_drq]
      rfl
    · rw [asked_of_le_stall hbusy hk]
      exact hC _ _ _
  rw [hlast, hready] at hpoll
  exact ⟨_, hpoll⟩

/-! ### The registers -/

/-- The address that the driver writes is that of the sector, as far as it has bits for it. -/
theorem select_toNat (lba : UInt32) :
    (ataDriveLbaMode ||| ((lba >>> 24) &&& 0x0F)).toUInt8.toNat =
      224 + lba.toNat / 16777216 % 16 := by
  have hlt : lba.toNat / 16777216 % 16 < 2 ^ 4 := Nat.mod_lt _ (by decide)
  have hmask : (lba >>> 24 &&& 0x0F).toNat = lba.toNat / 16777216 % 16 := by
    rw [UInt32.toNat_and, UInt32.toNat_shiftRight]
    change lba.toNat >>> 24 &&& (2 ^ 4 - 1) = _
    rw [Nat.and_two_pow_sub_one_eq_mod, Nat.shiftRight_eq_div_pow]
  have hor : (ataDriveLbaMode ||| (lba >>> 24 &&& 0x0F)).toNat =
      224 + lba.toNat / 16777216 % 16 := by
    rw [UInt32.toNat_or, hmask]
    exact (Nat.two_pow_add_eq_or_of_lt hlt 14).symm
  rw [UInt32.toNat_toUInt8, hor]
  omega

/-- It selects the drive, with an address in the registers. -/
theorem select_and (lba : UInt32) :
    (ataDriveLbaMode ||| ((lba >>> 24) &&& 0x0F)).toUInt8 &&& 0x50 = 0x40 := by
  have hall : ∀ k < 16, UInt8.ofNat (224 + k) &&& 0x50 = 0x40 := by decide
  have heq := congrArg UInt8.ofNat (select_toNat lba)
  rw [UInt8.ofNat_toNat] at heq
  rw [heq]
  exact hall _ (Nat.mod_lt _ (by decide))

/-- The address in the registers that `driveIssue` writes. -/
theorem lba_eq {lba : UInt32}
    (hselect : a.select = (ataDriveLbaMode ||| ((lba >>> 24) &&& 0x0F)).toUInt8)
    (hlow : a.low = lba.toUInt8) (hmid : a.mid = (lba >>> 8).toUInt8)
    (hhigh : a.high = (lba >>> 16).toUInt8) : a.lba = lba.toNat % 2 ^ 28 := by
  have hlt := lba.toNat_lt
  rw [Ata.lba, hselect, select_toNat, hlow, hmid, hhigh]
  simp only [UInt32.toNat_toUInt8, UInt32.toNat_shiftRight]
  change (224 + lba.toNat / 16777216 % 16) % 16 * 16777216 + lba.toNat >>> 16 % 2 ^ 8 * 65536 +
    lba.toNat >>> 8 % 2 ^ 8 * 256 + lba.toNat % 2 ^ 8 = lba.toNat % 2 ^ 28
  simp only [Nat.shiftRight_eq_div_pow]
  omega

/-! ### A command -/

/-- The drive waits for a command, though it may still be busy. -/
def Idle (a : Ata) : Prop := a.transfer = .idle

/-- A drive that waits for a command takes what is written to its registers. -/
theorem outb_completes (port : UInt16) (val : UInt8) (hbusy : a.busy = 0) (ha : a.Idle)
    (hC : C a) : Completes (outb port val) a () (a.register port val) C := by
  have hport : a.portOutb port val = a.register port val :=
    if_neg (not_or.2 ⟨not_not.2 hbusy, not_not.2 ha⟩)
  rw [← hport]
  exact Completes.access _ hC

/-- What the drive has to do with the host after a command for one sector. -/
def commandTransfer (disk : Disk) (lba : ℕ) (cmd : UInt8) : Transfer :=
  if cmd = ataCmdRead then .toHost (sectorWords (disk lba))
  else if cmd = ataCmdWrite then .toDisk lba 1 []
  else .idle

/-- **A command reaches an idle drive, and the driver waits until the drive is ready for its
data.** -/
theorem driveIssue_completes (ha : a.Idle) (lba : UInt32) (cmd : UInt8)
    (hcmd : commandTransfer a.disk (lba.toNat % 2 ^ 28) cmd ≠ .idle) :
    ∃ a', Completes (driveIssue lba cmd) a () a' (fun c => c.disk = a.disk) ∧
      a'.disk = a.disk ∧ a'.busy = 0 ∧ a'.stall = 0 ∧
      a'.transfer = commandTransfer a.disk (lba.toNat % 2 ^ 28) cmd := by
  obtain ⟨s₀, l₀, hwait⟩ := ataWaitBsy_completes (a := a) (C := fun c => c.disk = a.disk)
    fun _ _ _ => rfl
  -- the registers are written to a drive that is not busy
  let b₀ := a.waited 0 s₀ l₀
  let b₁ := { b₀ with select := (ataDriveLbaMode ||| ((lba >>> 24) &&& 0x0F)).toUInt8 }
  let b₂ := { b₁ with count := 1 }
  let b₃ := { b₂ with low := lba.toUInt8 }
  let b₄ := { b₃ with mid := (lba >>> 8).toUInt8 }
  let a₁ := { b₄ with high := (lba >>> 16).toUInt8 }
  have hlba : a₁.lba = lba.toNat % 2 ^ 28 := lba_eq rfl rfl rfl rfl
  have hsectors : a₁.sectors = 1 := rfl
  have hselect : ¬ a₁.select &&& 0x50 ≠ 0x40 := not_not.2 (select_and lba)
  let a₂ := a₁.command cmd
  have hdisk : a₂.disk = a.disk := by
    change (a₁.command cmd).disk = a.disk
    rw [command, if_neg hselect]
    split_ifs <;> rfl
  have htransfer : a₂.transfer = commandTransfer a.disk (lba.toNat % 2 ^ 28) cmd := by
    change (a₁.command cmd).transfer = _
    rw [command, if_neg hselect, hlba, hsectors, commandTransfer]
    split_ifs
    · simp only [List.range_one, List.flatMap_singleton, Nat.add_zero]
      rfl
    · rfl
    · exact ha
  obtain ⟨s₂, l₂, hwait₂⟩ := ataWaitBsy_completes (a := a₂) (C := fun c => c.disk = a.disk)
    fun _ _ _ => hdisk
  obtain ⟨l₃, hwait₃⟩ := ataWaitDrq_completes (a := a₂.waited 0 s₂ l₂)
    (C := fun c => c.disk = a.disk) rfl (by rw [← htransfer] at hcmd; exact hcmd)
    fun _ _ _ => hdisk
  refine ⟨a₂.waited 0 0 l₃, ?_, hdisk, rfl, rfl, htransfer⟩
  have h₁ := outb_completes (a := b₀) (C := fun c => c.disk = a.disk) ataDriveSelect
    (ataDriveLbaMode ||| ((lba >>> 24) &&& 0x0F)).toUInt8 rfl ha rfl
  have h₂ := outb_completes (a := b₁) (C := fun c => c.disk = a.disk) ataSectorCount 1 rfl ha rfl
  have h₃ := outb_completes (a := b₂) (C := fun c => c.disk = a.disk) ataLbaLow lba.toUInt8
    rfl ha rfl
  have h₄ := outb_completes (a := b₃) (C := fun c => c.disk = a.disk) ataLbaMid
    (lba >>> 8).toUInt8 rfl ha rfl
  have h₅ := outb_completes (a := b₄) (C := fun c => c.disk = a.disk) ataLbaHigh
    (lba >>> 16).toUInt8 rfl ha rfl
  have h₆ := outb_completes (a := a₁) (C := fun c => c.disk = a.disk) ataCommand cmd rfl ha rfl
  exact hwait.seq (h₁.seq (h₂.seq (h₃.seq (h₄.seq (h₅.seq (h₆.seq (hwait₂.seq hwait₃)))))))

/-! ### A sector -/

/-- The bytes of the words of a sector are its bytes. -/
theorem ofHalves_sectorWords (disk : Disk) (lba : ℕ) :
    Bytes.ofHalves (sectorWords (disk lba)) = Anaga.driveReadSector disk lba := by
  funext o
  rcases Nat.lt_or_ge o sectorSize with ho | ho
  · exact Bytes.ofHalves_halves _ ho
  · have hlen : (sectorWords (disk lba)).length ≤ o / 2 := by
      simp only [sectorWords, Bytes.halves_length]
      simp only [sectorSize] at ho
      omega
    rw [Bytes.ofHalves, List.getD_eq_default _ _ hlen, Anaga.driveReadSector, dif_neg (not_lt.2 ho)]
    simp

/-- The sector that the words of a buffer make. -/
theorem wordsSector_halves (buffer : ℕ → UInt8) :
    wordsSector (Bytes.halves buffer 256) = fun o : Fin sectorSize => buffer o :=
  funext fun o => Bytes.ofHalves_halves buffer o.isLt

/-- What the drive is doing when `i` of its words have been fetched. -/
def fetched (words : List UInt16) (i : ℕ) : Transfer :=
  if words.drop i = [] then .idle else .toHost (words.drop i)

theorem inw_completes {words : List UInt16} {i : ℕ} (hi : i < words.length) (hbusy : a.busy = 0)
    (hstall : a.stall = 0) (ha : a.transfer = fetched words i) (hC : C a) :
    Completes (inw ataData) a (words.getD i 0) { a with transfer := fetched words (i + 1) } C := by
  have hdrop : words.drop i = words.getD i 0 :: words.drop (i + 1) := by
    rw [List.getD_eq_getElem _ _ hi]
    exact List.drop_eq_getElem_cons hi
  rw [fetched, hdrop, if_neg (List.cons_ne_nil _ _)] at ha
  have hport :
      portInw ataData a = (words.getD i 0, { a with transfer := fetched words (i + 1) }) := by
    simp only [portInw, ha, hbusy, hstall, and_self, if_true, fetched]
  have hacc := Completes.access (portInw ataData) hC
  rwa [hport] at hacc

/-- **The driver reads a sector of the store.** -/
theorem driveReadSector_completes (ha : a.Idle) (lba : UInt32) :
    ∃ a', Completes (driveReadSector lba) a
        (Anaga.driveReadSector a.disk (lba.toNat % 2 ^ 28)) a' (fun c => c.disk = a.disk) ∧
      a'.Idle ∧ a'.disk = a.disk := by
  have hcmd : ∀ disk lba, commandTransfer disk lba ataCmdRead = .toHost (sectorWords (disk lba)) :=
    fun _ _ => if_pos rfl
  obtain ⟨a₁, hissue, hdisk, hbusy, hstall, htransfer⟩ :=
    driveIssue_completes ha lba ataCmdRead (by rw [hcmd]; exact Transfer.noConfusion)
  rw [hcmd] at htransfer
  generalize hwords : sectorWords (a.disk (lba.toNat % 2 ^ 28)) = words at htransfer
  have hlen : words.length = 256 := by rw [← hwords, sectorWords, Bytes.halves_length]
  obtain ⟨a', hloop, hdisk', -, -, hidle⟩ := Completes.each (C := fun c : Ata => c.disk = a.disk)
    (f := fun _ => inw ataData) (g := fun i => words.getD i 0) (l := List.range 256)
    (P := fun i c => c.disk = a.disk ∧ c.busy = 0 ∧ c.stall = 0 ∧ c.transfer = fetched words i)
    (s := a₁) (by
      rintro i hi c ⟨hd, hb, hs, ht⟩
      rw [List.length_range] at hi
      rw [List.getElem_range]
      exact ⟨_, inw_completes (by omega) hb hs ht hd, hd, hb, hs, rfl⟩)
    ⟨hdisk, hbusy, hstall, by
      rw [htransfer, fetched, List.drop_zero, if_neg]
      rintro rfl
      cases hlen⟩
  have hout : (List.range 256).map (fun i => words.getD i 0) = words := by
    refine List.ext_getElem (by rw [List.length_map, List.length_range, hlen]) ?_
    intro i h₁ h₂
    rw [List.getElem_map, List.getElem_range, List.getD_eq_getElem _ _ h₂]
  rw [hout] at hloop
  refine ⟨a', hissue.seq (hloop.bind ?_), ?_, hdisk'⟩
  · rw [← hwords, ofHalves_sectorWords]
    exact Completes.pure _ _ _
  · rw [Idle, hidle, fetched, if_pos]
    rw [List.drop_eq_nil_iff, hlen, List.length_range]

/-- The words of a buffer, up to the word `i`. -/
theorem halves_succ (buffer : ℕ → UInt8) (i : ℕ) :
    Bytes.halves buffer (i + 1) = Bytes.halves buffer i ++ [Bytes.half buffer (2 * i)] := by
  rw [Bytes.halves, List.range_succ, List.map_append]
  rfl

/-- The states of the drive between the words of a write. -/
structure Taking (disk : Disk) (lba : ℕ) (buffer : ℕ → UInt8) (i : ℕ) (a : Ata) : Prop where
  /-- It wants more words. -/
  more : i < 256 → a.disk = disk ∧ a.busy = 0 ∧ a.stall = 0 ∧
    a.transfer = .toDisk lba 1 (Bytes.halves buffer i)
  /-- It has all of them. -/
  all : i = 256 → a.Idle ∧ a.disk = Anaga.driveWriteSector disk lba buffer

/-- A word is taken; the last one makes the drive write the sector. -/
theorem outw_completes {disk : Disk} {lba : ℕ} {buffer : ℕ → UInt8} {i : ℕ} (hi : i < 256)
    (ha : Taking disk lba buffer i a) :
    ∃ a', Completes (outw ataData (Bytes.half buffer (2 * i))) a () a' (fun c => c.disk = disk) ∧
      Taking disk lba buffer (i + 1) a' := by
  obtain ⟨hdisk, hbusy, hstall, htransfer⟩ := ha.more hi
  refine ⟨_, Completes.access _ hdisk, ?_⟩
  dsimp only
  rw [portOutw, htransfer]
  dsimp only
  rw [if_pos ⟨rfl, hbusy, hstall⟩, Bytes.halves_length, ← halves_succ]
  rcases Nat.lt_or_ge (i + 1) 256 with hlt | hge
  · rw [if_pos hlt]
    exact ⟨fun _ => ⟨hdisk, hbusy, hstall, rfl⟩, fun h => absurd h hlt.ne⟩
  · rw [if_neg (not_lt.2 hge)]
    refine ⟨fun h => absurd h (not_lt.2 hge), fun h => ⟨rfl, ?_⟩⟩
    rw [h, wordsSector_halves, hdisk]
    rfl

/-- **The driver writes a sector of the store, and if the power fails in front of its last word,
nothing has been written.** -/
theorem driveWriteSector_completes (ha : a.Idle) (lba : UInt32) (buffer : ℕ → UInt8) :
    ∃ a', Completes (driveWriteSector lba buffer) a () a' (fun c => c.disk = a.disk) ∧
      a'.Idle ∧ a'.disk = Anaga.driveWriteSector a.disk (lba.toNat % 2 ^ 28) buffer := by
  have hcmd : ∀ disk lba, commandTransfer disk lba ataCmdWrite = .toDisk lba 1 [] := fun _ _ => rfl
  obtain ⟨a₁, hissue, hdisk, hbusy, hstall, htransfer⟩ :=
    driveIssue_completes ha lba ataCmdWrite (by rw [hcmd]; exact Transfer.noConfusion)
  rw [hcmd] at htransfer
  have hstart : Taking a.disk (lba.toNat % 2 ^ 28) buffer 0 a₁ :=
    ⟨fun _ => ⟨hdisk, hbusy, hstall, htransfer⟩, fun h => absurd h (Nat.zero_ne_add_one 255)⟩
  obtain ⟨a', hloop, hend⟩ := Completes.each (C := fun c : Ata => c.disk = a.disk)
    (f := fun i => outw ataData (Bytes.half buffer (2 * i))) (g := fun _ => ())
    (l := List.range 256) (P := Taking a.disk (lba.toNat % 2 ^ 28) buffer) (s := a₁) (by
      intro i hi c hc
      rw [List.length_range] at hi
      rw [List.getElem_range]
      exact outw_completes hi hc) hstart
  exact ⟨a', hissue.seq (hloop.bind (Completes.pure _ _ _)), hend.all List.length_range⟩

/-! ### Calls of the driver -/

/-- A call of the driver. -/
inductive Request
  | read (lba : UInt32)
  | write (lba : UInt32) (buffer : ℕ → UInt8)

/-- The call, with the buffer afterwards where it is read. -/
def Request.exec : Request → Prog Ata (Option (ℕ → UInt8))
  | .read lba => do
      let buffer ← driveReadSector lba
      pure (some buffer)
  | .write lba buffer => do
      driveWriteSector lba buffer
      pure none

/-- Calls, one after the other. -/
def session (rs : List Request) : Prog Ata (List (Option (ℕ → UInt8))) := each Request.exec rs

/-- The store after a call. -/
def Request.store (disk : Disk) : Request → Disk
  | .read _ => disk
  | .write lba buffer => Anaga.driveWriteSector disk (lba.toNat % 2 ^ 28) buffer

/-- What a call reads from the store. -/
def Request.answer (disk : Disk) : Request → Option (ℕ → UInt8)
  | .read lba => some (Anaga.driveReadSector disk (lba.toNat % 2 ^ 28))
  | .write _ _ => none

/-- The store after calls. -/
def store (disk : Disk) (rs : List Request) : Disk := rs.foldl Request.store disk

/-- What calls read from the store. -/
def answers (disk : Disk) : List Request → List (Option (ℕ → UInt8))
  | [] => []
  | r :: rs => r.answer disk :: answers (r.store disk) rs

/-- A call leaves the store as it is until it is done. -/
theorem Request.exec_completes (ha : a.Idle) (r : Request) :
    ∃ a', Completes r.exec a (r.answer a.disk) a' (fun c => c.disk = a.disk) ∧
      a'.Idle ∧ a'.disk = r.store a.disk := by
  cases r with
  | read lba =>
      obtain ⟨a', hread, hidle, hdisk⟩ := driveReadSector_completes ha lba
      exact ⟨a', hread.bind (Completes.pure _ _ _), hidle, hdisk⟩
  | write lba buffer =>
      obtain ⟨a', hwrite, hidle, hdisk⟩ := driveWriteSector_completes ha lba buffer
      exact ⟨a', hwrite.bind (Completes.pure _ _ _), hidle, hdisk⟩

/-- **However long the drive is busy, calls of the driver return what the store of sectors says, and
leave it as that says; and where the power fails, some of the calls have been made and the next one
has not.** -/
theorem session_refines (ha : a.Idle) (rs : List Request) :
    ∃ a', Completes (session rs) a (answers a.disk rs) a'
        (fun c => ∃ ps, ps <+: rs ∧ c.disk = store a.disk ps) ∧
      a'.Idle ∧ a'.disk = store a.disk rs := by
  induction rs generalizing a with
  | nil => exact ⟨a, Completes.pure _ _ _, ha, rfl⟩
  | cons r rs ih =>
      obtain ⟨a₁, hcall, hidle, hdisk⟩ := Request.exec_completes ha r
      obtain ⟨a', hrest, hidle', hdisk'⟩ := ih hidle
      rw [hdisk] at hrest hdisk'
      have hhead : Completes r.exec a (r.answer a.disk) a₁
          (fun c => ∃ ps, ps <+: r :: rs ∧ c.disk = store a.disk ps) :=
        hcall.mono fun c hc => ⟨[], List.nil_prefix, hc⟩
      have htail : Completes (session rs) a₁ (answers (r.store a.disk) rs) a'
          (fun c => ∃ ps, ps <+: r :: rs ∧ c.disk = store a.disk ps) := by
        refine hrest.mono ?_
        rintro c ⟨ps, hps, hc⟩
        exact ⟨r :: ps, List.cons_prefix_cons.2 ⟨rfl, hps⟩, hc⟩
      exact ⟨a', hhead.bind (htail.bind (Completes.pure _ _ _)), hidle', hdisk'⟩

/-- A drive that is busy for some time after every command. -/
def slow (disk : Disk) : Ata where
  disk := disk
  select := 0
  count := 0
  low := 0
  mid := 0
  high := 0
  transfer := .idle
  busy := 3
  stall := 0
  delays := fun n => (n, 2)
  lines := fun _ => 0xFF

/-- A sector is written, and read again. -/
theorem session_refines_slow :
    ∃ a', Completes (session [.write 7 fun _ => 1, .read 7]) (slow fun _ _ => 0)
        [none, some fun o => if o < sectorSize then 1 else 0] a'
        (fun c => ∃ ps, ps <+: [.write 7 fun _ => 1, .read 7] ∧
          c.disk = store (fun _ _ => 0) ps) := by
  obtain ⟨a', h, -⟩ :=
    session_refines (a := slow fun _ _ => 0) rfl [.write 7 fun _ => 1, .read 7]
  refine ⟨a', ?_⟩
  have hanswers : answers (slow fun _ _ => 0).disk [.write 7 fun _ => 1, .read 7] =
      [none, some fun o => if o < sectorSize then 1 else 0] := by
    simp only [answers, Request.answer, Request.store]
    congr 3
  rwa [hanswers] at h

end Ata

end Anaga
