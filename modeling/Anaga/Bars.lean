/-
**The address of the network card.**

A base address register holds the address of a range, and its low bits say what kind of range it
is; only an address of 64 bits goes on in the next register.  The scan takes the next register for
the upper half of every address in memory, so that for an address of 32 bits it depends on a
register that has nothing to do with it.

Main definitions:

* `Anaga.BarKind`, `Anaga.barKind`, `Anaga.BarKind.address` — what the registers mean;
* `Anaga.PassesAddress` — the card is initialised at an address, and the address is stored;
* `Anaga.ConfigSpace.single` — a bus with one function.

Main results:

* `Anaga.passesAddress_iff_eq` — the address that is passed is the one that is computed;
* `Anaga.passesAddress_iff` — **it is the one that the registers hold, unless that has 32 bits and
  the next register is not zero**.
-/

import Anaga.Pci

set_option relaxedAutoImplicit false
set_option autoImplicit false

namespace Anaga

/-! ### Base address registers -/

/-- The kinds of ranges. -/
inductive BarKind
  | io
  | memory32
  | memory64
deriving DecidableEq

/-- The kind of a register, unless its bits are reserved. -/
def barKind (bar : UInt32) : Option BarKind :=
  if bar &&& 1 ≠ 0 then some .io
  else if (bar >>> 1) &&& 3 = 0 then some .memory32
  else if (bar >>> 1) &&& 3 = 2 then some .memory64 else none

/-- The address that a register holds, with the next one. -/
def BarKind.address (bar next : UInt32) : BarKind → UInt64
  | .io => (bar &&& 0xFFFFFFFC).toUInt64
  | .memory32 => (bar &&& 0xFFFFFFF0).toUInt64
  | .memory64 => (bar &&& 0xFFFFFFF0).toUInt64 ||| (next.toUInt64 <<< 32)

theorem toNat_halves (low high : UInt32) :
    (low.toUInt64 ||| high.toUInt64 <<< 32).toNat = low.toNat + 2 ^ 32 * high.toNat := by
  have hlow := low.toNat_lt
  have hhigh := high.toNat_lt
  have hshift : (high.toUInt64 <<< 32).toNat = 2 ^ 32 * high.toNat := by
    rw [UInt64.toNat_shiftLeft, UInt32.toNat_toUInt64, Nat.shiftLeft_eq]
    change high.toNat * 2 ^ 32 % 2 ^ 64 = _
    omega
  rw [UInt64.toNat_or, hshift, UInt32.toNat_toUInt64, Nat.or_comm,
    or_eq_add_of_dvd 32 (Nat.dvd_mul_right _ _) hlow, Nat.add_comm]

/-- An upper half changes the address unless it is zero. -/
theorem halves_eq_low_iff (low high : UInt32) :
    low.toUInt64 ||| high.toUInt64 <<< 32 = low.toUInt64 ↔ high = 0 := by
  rw [← UInt64.toNat_inj, toNat_halves, UInt32.toNat_toUInt64, ← UInt32.toNat_inj]
  change _ ↔ high.toNat = 0
  omega

/-- **When the code computes the address that the registers hold.** -/
theorem mmioBase_eq_address_iff {bar0 bar1 : UInt32} {k : BarKind} (hk : barKind bar0 = some k) :
    mmioBase bar0 bar1 = k.address bar0 bar1 ↔ k ≠ .memory32 ∨ bar1 = 0 := by
  have hmask : bar1 &&& 0xFFFFFFFF = bar1 := UInt32.and_neg_one
  unfold barKind at hk
  unfold mmioBase
  rw [hmask]
  split_ifs at hk with hio h32 h64
  · obtain rfl := Option.some.inj hk
    rw [if_pos hio]
    exact iff_of_true rfl (.inl (by decide))
  · obtain rfl := Option.some.inj hk
    rw [if_neg hio, BarKind.address, halves_eq_low_iff, or_iff_right (by decide)]
  · obtain rfl := Option.some.inj hk
    rw [if_neg hio]
    exact iff_of_true rfl (.inl (by decide))

/-! ### The card -/

/-- There is a card at the place that the code has a driver for. -/
def ConfigSpace.Card (c : ConfigSpace) (bus slot func : UInt8) : Prop :=
  slot < 32 ∧ func < 8 ∧
    isQemuNetworkDevice (c.read bus slot func 0x00).toUInt16
      (c.read bus slot func 0x00 >>> 16).toUInt16 = true

/-- The handler calls `e1000_init` with the address, which stores it. -/
def PassesAddress (c : ConfigSpace) (l : Locals) (bus slot func : UInt8) (address : UInt64) :
    Prop :=
  ∃ found init dev rings result,
    pciHandleNetwork c l bus slot func =
      .ok [.printed found, .e1000Init address init, .printed result] ∧
    init.filled = some (dev, rings) ∧ dev.mmioBase = address

variable {c : ConfigSpace} {bus slot func : UInt8}

theorem ConfigSpace.Card.present (h : c.Card bus slot func) : c.Present bus slot func := by
  refine ⟨0x00, rfl, fun hones => ?_⟩
  have hcard := h.2.2
  rw [hones] at hcard
  exact absurd hcard (by decide)

/-- The scan calls the handler for the card. -/
theorem ConfigSpace.Card.visits (h : c.Card bus slot func) {l : Locals} {trace : List BusEvent}
    (hscan : pciScan c l = .ok trace) : Anaga.visits .handleNetwork bus slot func trace = 1 :=
  (visits_pciScan hscan).1 ⟨h.1, h.2.1, h.present⟩

/-- **The address that is passed is the one that is computed.** -/
theorem passesAddress_iff_eq (h : c.Card bus slot func) (l : Locals) (address : UInt64) :
    PassesAddress c l bus slot func address ↔
      mmioBase (c.read bus slot func 0x10) (c.read bus slot func 0x14) = address := by
  obtain ⟨hs, hf, hcard⟩ := h
  have hid : pciReadConfig c bus slot func pciVendorId = c.read bus slot func 0x00 :=
    pciReadConfig_eq c bus pciVendorId hs hf
  have hbar0 : pciReadConfig c bus slot func pciBar0 = c.read bus slot func 0x10 :=
    pciReadConfig_eq c bus pciBar0 hs hf
  have hbar1 : pciReadConfig c bus slot func pciBar1 = c.read bus slot func 0x14 :=
    pciReadConfig_eq c bus pciBar1 hs hf
  rw [← hid] at hcard
  obtain ⟨found, printed, result, hrun⟩ := pciHandleNetwork_of_supported l hcard rfl
  rw [hbar0, hbar1] at hrun
  constructor
  · rintro ⟨found', init, dev, rings, result', hrun', -, -⟩
    have heffects := Except.ok.inj (hrun.symm.trans hrun')
    injection heffects with _ htail
    injection htail with hinit _
    injection hinit
  · rintro rfl
    exact ⟨found, _, _, _, result, hrun, rfl, rfl⟩

/-- **The address is the one that the registers hold, unless that has 32 bits and the next register
is not zero.** -/
theorem passesAddress_iff (h : c.Card bus slot func) (l : Locals) {k : BarKind}
    (hk : barKind (c.read bus slot func 0x10) = some k) :
    PassesAddress c l bus slot func
        (k.address (c.read bus slot func 0x10) (c.read bus slot func 0x14)) ↔
      k ≠ .memory32 ∨ c.read bus slot func 0x14 = 0 :=
  (passesAddress_iff_eq h l _).trans (mmioBase_eq_address_iff hk)

/-! ### Two cards -/

/-- A bus with one function, in the first slot. -/
def ConfigSpace.single (registers : UInt8 → UInt32) (h : registers 0 &&& 0xFFFF ≠ 0xFFFF) :
    ConfigSpace where
  read bus slot func r := if bus = 0 ∧ slot = 0 ∧ func = 0 then registers r else 0xFFFFFFFF
  absent {bus slot func} _ _ hvendor r _ := by
    split_ifs at hvendor with hplace
    · exact absurd hvendor h
    · rw [if_neg hplace]
  multifunction {bus slot func r} _ _ hne _ hones :=
    absurd (if_neg fun hplace => hne hplace.2.2) hones

/-- The registers of a card with two base address registers. -/
def cardRegisters (bar0 bar1 : UInt32) (r : UInt8) : UInt32 :=
  if r = 0x00 then 0x100E8086 else if r = 0x10 then bar0 else if r = 0x14 then bar1 else 0

/-- A bus with a card. -/
def cardSpace (bar0 bar1 : UInt32) : ConfigSpace :=
  .single (cardRegisters bar0 bar1) (show (0x100E8086 : UInt32) &&& 0xFFFF ≠ 0xFFFF by decide)

theorem card_cardSpace (bar0 bar1 : UInt32) : (cardSpace bar0 bar1).Card 0 0 0 := by
  have hid : (cardSpace bar0 bar1).read 0 0 0 0x00 = 0x100E8086 := rfl
  rw [ConfigSpace.Card, hid]
  decide

/-- Local variables at the top of a stack. -/
def stackLocals : Locals where
  dev := 0x9FF00
  rxRingMem := 0x9F700
  txRingMem := 0x9EF00
  dev_ne := by decide
  rxRingMem_ne := by decide
  txRingMem_ne := by decide

/-- A card whose address has 64 bits. -/
theorem passesAddress_memory64 :
    PassesAddress (cardSpace 0xFEBC0004 1) stackLocals 0 0 0 0x1FEBC0000 :=
  (passesAddress_iff (k := .memory64) (card_cardSpace 0xFEBC0004 1) stackLocals rfl).2
    (.inl (by decide))

/-- **A card with an address of 32 bits and ports**: the number of the ports goes to the upper half
of the address. -/
theorem not_passesAddress_ports :
    (cardSpace 0xFEBC0000 0xC001).Card 0 0 0 ∧
      barKind ((cardSpace 0xFEBC0000 0xC001).read 0 0 0 0x10) = some .memory32 ∧
      PassesAddress (cardSpace 0xFEBC0000 0xC001) stackLocals 0 0 0 0xC001FEBC0000 ∧
      ¬ PassesAddress (cardSpace 0xFEBC0000 0xC001) stackLocals 0 0 0
        (BarKind.memory32.address ((cardSpace 0xFEBC0000 0xC001).read 0 0 0 0x10)
          ((cardSpace 0xFEBC0000 0xC001).read 0 0 0 0x14)) := by
  have hcard := card_cardSpace 0xFEBC0000 0xC001
  refine ⟨hcard, rfl, (passesAddress_iff_eq hcard stackLocals _).2 rfl, ?_⟩
  rw [passesAddress_iff_eq hcard]
  decide

end Anaga
