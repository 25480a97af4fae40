/-
**The bus: `drivers/pci/pci.c`, `drivers/usb/usb.c` and `drivers/usb/uhci.c`.**

The configuration space of the bus is any function from the places of functions and their registers
to words, in which nothing but ones is read where no function is, and in which a slot has further
functions only if its first one says so.  A word of it is read by writing its address to one port
and reading another one, so the bridge takes the address apart that the code has put together.  The
scan leaves a trace of what it prints and which handler it calls for which place.

Main definitions:

* `Anaga.ConfigSpace`, `Anaga.ConfigSpace.data` — the configuration space, and what the bridge
  answers to an address;
* `Anaga.pciAddress`, `Anaga.pciReadConfig`, `Anaga.pciScan` — the functions of the source;
* `Anaga.BusEvent`, `Anaga.Effect` — what the scan does, and what a handler does.

Main results:

* `Anaga.pciReadConfig_eq` — the bridge reads what was asked for;
* `Anaga.pciScan_visits` — **every function is visited exactly once**, and addresses differ.
-/

import Anaga.E1000
import Anaga.Trace
import Mathlib.Data.Nat.Bitwise

set_option relaxedAutoImplicit false
set_option autoImplicit false

namespace Anaga

open Transition Trace

/-! ### Configuration space -/

/-- The words of the configuration space, by bus, slot, function and the offset of the register,
a multiple of four. -/
structure ConfigSpace where
  read : UInt8 → UInt8 → UInt8 → UInt8 → UInt32
  /-- No vendor has the number `0xFFFF`: it is read where no function is, and there all registers
  are ones. -/
  absent : ∀ {bus slot func : UInt8}, slot < 32 → func < 8 →
    read bus slot func 0 &&& 0xFFFF = 0xFFFF →
    ∀ r : UInt8, r &&& 3 = 0 → read bus slot func r = 0xFFFFFFFF
  /-- Functions behind the first one are there only if that one is, with bit 7 in its header
  type. -/
  multifunction : ∀ {bus slot func r : UInt8}, slot < 32 → func < 8 → func ≠ 0 → r &&& 3 = 0 →
    read bus slot func r ≠ 0xFFFFFFFF →
    (∃ r' : UInt8, r' &&& 3 = 0 ∧ read bus slot 0 r' ≠ 0xFFFFFFFF) ∧
      (read bus slot 0 0x0C >>> 16).toUInt8 &&& 0x80 ≠ 0

namespace ConfigSpace

variable (c : ConfigSpace)

/-- There is a function: not all of its registers are ones. -/
def Present (bus slot func : UInt8) : Prop :=
  ∃ r : UInt8, r &&& 3 = 0 ∧ c.read bus slot func r ≠ 0xFFFFFFFF

/-- What is read from the port for data behind an address.  The bridge takes it apart. -/
def data (address : UInt32) : UInt32 :=
  if address &&& 0x80000000 ≠ 0 then
    c.read (address >>> 16).toUInt8 ((address >>> 11).toUInt8 &&& 0x1F)
      ((address >>> 8).toUInt8 &&& 7) (address.toUInt8 &&& 0xFC)
  else 0xFFFFFFFF

end ConfigSpace

/-- The address that `pci_read_config` writes. -/
def pciAddress (bus slot func offset : UInt8) : UInt32 :=
  (bus.toUInt32 <<< 16) ||| (slot.toUInt32 <<< 11) ||| (func.toUInt32 <<< 8) |||
    (offset &&& 0xFC).toUInt32 ||| 0x80000000

/-- `pci_read_config`. -/
def pciReadConfig (c : ConfigSpace) (bus slot func offset : UInt8) : UInt32 :=
  c.data (pciAddress bus slot func offset)

/-! ### What handlers do -/

/-- What a handler does: it prints, it writes to ports, and it calls `e1000_init`. -/
inductive Effect
  | printed (cs : List UInt8)
  | outw (port value : UInt16)
  | e1000Init (mmioBase : UInt64) (init : Initialized)

/-- The handlers of a function of a slot. -/
inductive Handler
  | printDevice
  | handleUsb
  | handleNetwork
deriving DecidableEq

/-- What the scan does: it prints, and it calls handlers. -/
inductive BusEvent
  | printed (cs : List UInt8)
  | call (h : Handler) (bus slot func : UInt8) (effects : List Effect)

/-- What is printed, as an effect. -/
def printing (x : Except Fault (List UInt8)) : Except Fault (List Effect) :=
  x >>= fun cs => .ok [.printed cs]

/-- `kprint` of a text. -/
def printText (s : String) : Except Fault (List Effect) := printing (kprint (utf8 s ++ [0]))

/-! ### Controllers of the universal serial bus -/

/-- `usb_controller_type_t`. -/
inductive UsbType
  | uhci
  | ohci
  | ehci
  | xhci
deriving DecidableEq

/-- `UHCI_USBCMD`. -/
def uhciUsbcmd : UInt32 := 0x00

/-- `UHCI_USBSTS`. -/
def uhciUsbsts : UInt32 := 0x02

/-- `uhci_init`, but for the loop that only waits. -/
def uhciInit (ioBase : UInt32) : Except Fault (List Effect) :=
  Trace.seq
    [printText "UHCI: Resetting controller at 0x", printing (kprintNum ioBase), printText "\n",
      .ok [.outw (ioBase + uhciUsbcmd).toUInt16 0x0004],
      .ok [.outw (ioBase + uhciUsbcmd).toUInt16 0x0000],
      .ok [.outw (ioBase + uhciUsbsts).toUInt16 0x003F], printText "UHCI: Reset complete.\n"]

/-- `usb_init`. -/
def usbInit (type : UsbType) (baseAddr : UInt32) : Except Fault (List Effect) :=
  Trace.seq
    [printText "USB: Found ",
      match type with
      | .uhci => Trace.seq [printText "UHCI\n", uhciInit baseAddr]
      | .ohci => printText "OHCI (Not implemented)\n"
      | .ehci => printText "EHCI (Not implemented)\n"
      | .xhci => printText "XHCI (Not implemented)\n"]

/-! ### Handlers -/

/-- `PCI_VENDOR_ID`. -/
def pciVendorId : UInt8 := 0x00

/-- `PCI_CLASS_REVISION`. -/
def pciClassRevision : UInt8 := 0x08

/-- `PCI_HEADER_TYPE`, the offset of a byte. -/
def pciHeaderType : UInt8 := 0x0E

/-- `PCI_BAR0`. -/
def pciBar0 : UInt8 := 0x10

/-- `PCI_BAR1`. -/
def pciBar1 : UInt8 := 0x14

/-- `PCI_VENDOR_NONE`. -/
def pciVendorNone : UInt32 := 0xFFFF

/-- `PCI_MULTIFUNCTION_FLAG`. -/
def pciMultifunctionFlag : UInt8 := 0x80

/-- `MAX_PCI_BUS`. -/
def maxPciBus : BitVec 16 := 256

/-- `MAX_PCI_SLOT`. -/
def maxPciSlot : BitVec 8 := 32

section

variable (c : ConfigSpace) (bus slot func : UInt8)

/-- `pci_device_exists`. -/
def pciDeviceExists : Bool :=
  pciReadConfig c bus slot func pciVendorId &&& 0xFFFF ≠ pciVendorNone

/-- `pci_print_device`. -/
def pciPrintDevice : Except Fault (List Effect) :=
  let vd := pciReadConfig c bus slot func pciVendorId
  let vendor := vd.toUInt16
  let device := (vd >>> 16).toUInt16
  printing <| kprintf
    (utf8 "PCI Device: bus=%d slot=%d func=%d vendor=0x%x device=0x%x\n" ++ [0])
    ([bus.toUInt32, slot.toUInt32, func.toUInt32, vendor.toUInt32, device.toUInt32].map .word)

/-- The `switch` of `pci_handle_usb`. -/
def usbType (progIf : UInt8) : Option UsbType :=
  if progIf = 0x00 then some .uhci
  else if progIf = 0x10 then some .ohci
  else if progIf = 0x20 then some .ehci
  else if progIf = 0x30 then some .xhci else none

/-- `pci_handle_usb`. -/
def pciHandleUsb : Except Fault (List Effect) :=
  let classRev := pciReadConfig c bus slot func pciClassRevision
  let baseClass := (classRev >>> 24).toUInt8
  let subClass := (classRev >>> 16).toUInt8
  let progIf := (classRev >>> 8).toUInt8
  if baseClass ≠ 0x0C ∨ subClass ≠ 0x03 then .ok []
  else
    let bar0 := pciReadConfig c bus slot func pciBar0
    let baseAddr := bar0 &&& 0xFFFFFFFC
    match usbType progIf with
    | none => .ok []
    | some type => usbInit type baseAddr

/-- `PCI_VENDOR_INTEL`. -/
def pciVendorIntel : UInt16 := 0x8086

/-- `E1000_DEV_82540EM`. -/
def e1000Dev82540em : UInt16 := 0x100E

/-- `E1000_DEV_82545EM`. -/
def e1000Dev82545em : UInt16 := 0x100F

/-- `E1000_DEV_82543GC`. -/
def e1000Dev82543gc : UInt16 := 0x1004

/-- `E1000_DEV_82574L`. -/
def e1000Dev82574l : UInt16 := 0x10D3

/-- `E1000_DEV_I217`. -/
def e1000DevI217 : UInt16 := 0x153A

/-- `is_qemu_network_device`. -/
def isQemuNetworkDevice (vendor device : UInt16) : Bool :=
  if vendor ≠ pciVendorIntel then false
  else
    device = e1000Dev82540em ∨ device = e1000Dev82545em ∨ device = e1000Dev82543gc ∨
      device = e1000Dev82574l ∨ device = e1000DevI217

/-- The `switch` of `pci_handle_network`: the format that is printed. -/
def foundFormat (device : UInt16) : Option String :=
  if device = e1000Dev82540em then some "Found Intel 82540EM at bus %d, slot %d, func %d\n"
  else if device = e1000Dev82545em then some "Found Intel 82545EM at bus %d, slot %d, func %d\n"
  else if device = e1000Dev82543gc then some "Found Intel 82543GC at bus %d, slot %d, func %d\n"
  else if device = e1000Dev82574l then some "Found Intel 82574L at bus %d, slot %d, func %d\n"
  else if device = e1000DevI217 then some "Found Intel I217 at bus %d, slot %d, func %d\n"
  else none

end

/-- The addresses of the local variables of `pci_handle_network`. -/
structure Locals where
  dev : UInt32
  rxRingMem : UInt32
  txRingMem : UInt32
  dev_ne : dev ≠ 0
  rxRingMem_ne : rxRingMem ≠ 0
  txRingMem_ne : txRingMem ≠ 0

/-- The address that `pci_handle_network` takes from two registers. -/
def mmioBase (bar0 bar1 : UInt32) : UInt64 :=
  if bar0 &&& 0x1 ≠ 0 then (bar0 &&& 0xFFFFFFFC).toUInt64
  else (bar0 &&& 0xFFFFFFF0).toUInt64 ||| ((bar1 &&& 0xFFFFFFFF).toUInt64 <<< 32)

section

variable (c : ConfigSpace) (l : Locals)

/-- `pci_handle_network`. -/
def pciHandleNetwork (bus slot func : UInt8) : Except Fault (List Effect) :=
  let vd := pciReadConfig c bus slot func pciVendorId
  let vendor := vd.toUInt16
  let device := (vd >>> 16).toUInt16
  if isQemuNetworkDevice vendor device = false then .ok []
  else
    match foundFormat device with
    | none => .ok []
    | some format =>
        kprintf (utf8 format ++ [0])
          ([bus.toUInt32, slot.toUInt32, func.toUInt32].map .word) >>= fun found =>
        let bar0 := pciReadConfig c bus slot func pciBar0
        let bar1 := pciReadConfig c bus slot func pciBar1
        e1000Init l.dev (mmioBase bar0 bar1) l.rxRingMem l.txRingMem >>= fun init =>
        kprint (utf8 (if init.ret ≠ 0 then "Failed to initialize e1000\n"
          else "e1000 initialized successfully\n") ++ [0]) >>= fun result =>
        .ok [.printed found, .e1000Init (mmioBase bar0 bar1) init, .printed result]

/-! ### The scan -/

/-- A call of a handler. -/
def calling (h : Handler) (bus slot func : UInt8) (x : Except Fault (List Effect)) :
    Except Fault (List BusEvent) :=
  x >>= fun effects => .ok [.call h bus slot func effects]

/-- `kprint` of a text, in the scan. -/
def announcing (s : String) : Except Fault (List BusEvent) :=
  kprint (utf8 s ++ [0]) >>= fun cs => .ok [.printed cs]

/-- `pci_scan_function`. -/
def pciScanFunction (bus slot func : UInt8) : Except Fault (List BusEvent) :=
  if pciDeviceExists c bus slot func = false then .ok []
  else
    Trace.seq
      [calling .printDevice bus slot func (pciPrintDevice c bus slot func),
        calling .handleUsb bus slot func (pciHandleUsb c bus slot func),
        calling .handleNetwork bus slot func (pciHandleNetwork c l bus slot func)]

/-- `pci_scan_slot`. -/
def pciScanSlot (bus : UInt16) (slot : UInt8) : Except Fault (List BusEvent) :=
  let headerType := (pciReadConfig c bus.toUInt8 slot 0 pciHeaderType >>> 16).toUInt8
  Trace.seq
    [pciScanFunction c l bus.toUInt8 slot 0,
      if headerType &&& pciMultifunctionFlag ≠ 0 then
        Trace.loop (fun func => pciScanFunction c l bus.toUInt8 slot (.ofBitVec func)) 8 1
      else .ok []]

/-- `pci_scan`. -/
def pciScan : Except Fault (List BusEvent) :=
  Trace.seq
    [announcing "Scanning PCI bus...\n",
      Trace.loop
        (fun bus => Trace.loop (fun slot => pciScanSlot c l (.ofBitVec bus) (.ofBitVec slot))
          maxPciSlot 0) maxPciBus 0,
      announcing "PCI scan complete.\n"]

end

/-! ### Addresses -/

theorem or_and_self (x y : UInt32) : (x ||| y) &&& y = y := by
  rw [← UInt32.toBitVec_inj]
  ext i hi
  simp +contextual

/-- Numbers whose bits do not overlap. -/
theorem or_eq_add_of_dvd {a b : ℕ} (k : ℕ) (ha : 2 ^ k ∣ a) (hb : b < 2 ^ k) : a ||| b = a + b := by
  obtain ⟨q, rfl⟩ := ha
  exact (Nat.two_pow_add_eq_or_of_lt hb q).symm

theorem toNat_toUInt32_shiftLeft (x : UInt8) {k : ℕ} (hk : k < 24) :
    (x.toUInt32 <<< UInt32.ofNat k).toNat = 2 ^ k * x.toNat := by
  have hx := x.toNat_lt
  have hpow : 2 ^ k * x.toNat < 2 ^ 32 := by
    calc 2 ^ k * x.toNat < 2 ^ k * 2 ^ 8 := Nat.mul_lt_mul_of_pos_left hx (Nat.two_pow_pos k)
      _ = 2 ^ (k + 8) := (Nat.pow_add 2 k 8).symm
      _ ≤ 2 ^ 32 := Nat.pow_le_pow_right (by decide) (by omega)
  have hmod : (UInt32.ofNat k).toNat % 32 = k := by
    rw [UInt32.toNat_ofNat']
    omega
  rw [UInt32.toNat_shiftLeft, UInt8.toNat_toUInt32, hmod, Nat.shiftLeft_eq, Nat.mul_comm]
  exact Nat.mod_eq_of_lt hpow

/-- **The parts of an address do not overlap.** -/
theorem toNat_pciAddress {bus slot func : UInt8} (offset : UInt8) (hs : slot < 32) (hf : func < 8) :
    (pciAddress bus slot func offset).toNat =
      2 ^ 31 + 2 ^ 16 * bus.toNat + 2 ^ 11 * slot.toNat + 2 ^ 8 * func.toNat +
        (offset &&& 0xFC).toNat := by
  have hb := bus.toNat_lt
  have hr := (offset &&& 0xFC).toNat_lt
  rw [UInt8.lt_iff_toNat_lt] at hs hf
  change slot.toNat < 32 at hs
  change func.toNat < 8 at hf
  have hbus : (bus.toUInt32 <<< 16).toNat = 2 ^ 16 * bus.toNat :=
    toNat_toUInt32_shiftLeft bus (by decide)
  have hslot : (slot.toUInt32 <<< 11).toNat = 2 ^ 11 * slot.toNat :=
    toNat_toUInt32_shiftLeft slot (by decide)
  have hfunc : (func.toUInt32 <<< 8).toNat = 2 ^ 8 * func.toNat :=
    toNat_toUInt32_shiftLeft func (by decide)
  simp only [pciAddress, UInt32.toNat_or, UInt8.toNat_toUInt32, hbus, hslot, hfunc]
  change 2 ^ 16 * bus.toNat ||| 2 ^ 11 * slot.toNat ||| 2 ^ 8 * func.toNat |||
    (offset &&& 0xFC).toNat ||| 2 ^ 31 = _
  rw [or_eq_add_of_dvd (a := 2 ^ 16 * bus.toNat) 16 (by omega) (by omega),
    or_eq_add_of_dvd (b := 2 ^ 8 * func.toNat) 11 (by omega) (by omega),
    or_eq_add_of_dvd (b := (offset &&& 0xFC).toNat) 8 (by omega) (by omega), Nat.or_comm,
    or_eq_add_of_dvd 31 (by omega) (by omega)]
  omega

/-- **The bridge reads what was asked for.** -/
theorem pciReadConfig_eq (c : ConfigSpace) (bus : UInt8) {slot func : UInt8} (offset : UInt8)
    (hs : slot < 32) (hf : func < 8) :
    pciReadConfig c bus slot func offset = c.read bus slot func (offset &&& 0xFC) := by
  have haddr : (pciAddress bus slot func offset).toNat = _ := toNat_pciAddress offset hs hf
  have hb := bus.toNat_lt
  have hr := (offset &&& 0xFC).toNat_lt
  have hs' : slot.toNat < 32 := UInt8.lt_iff_toNat_lt.1 hs
  have hf' : func.toNat < 8 := UInt8.lt_iff_toNat_lt.1 hf
  set address := pciAddress bus slot func offset with haddress
  have henable : address &&& 0x80000000 ≠ 0 := by
    rw [haddress, pciAddress, or_and_self]
    decide
  have hbus : (address >>> 16).toUInt8 = bus := by
    rw [← UInt8.toNat_inj, UInt32.toNat_toUInt8, UInt32.toNat_shiftRight, haddr,
      Nat.shiftRight_eq_div_pow]
    change _ / 2 ^ 16 % 2 ^ 8 = _
    omega
  have hslot : (address >>> 11).toUInt8 &&& 0x1F = slot := by
    rw [← UInt8.toNat_inj, UInt8.toNat_and, UInt32.toNat_toUInt8, UInt32.toNat_shiftRight, haddr,
      Nat.shiftRight_eq_div_pow]
    change (_ / 2 ^ 11 % 2 ^ 8) &&& (2 ^ 5 - 1) = _
    rw [Nat.and_two_pow_sub_one_eq_mod]
    omega
  have hfunc : (address >>> 8).toUInt8 &&& 7 = func := by
    rw [← UInt8.toNat_inj, UInt8.toNat_and, UInt32.toNat_toUInt8, UInt32.toNat_shiftRight, haddr,
      Nat.shiftRight_eq_div_pow]
    change (_ / 2 ^ 8 % 2 ^ 8) &&& (2 ^ 3 - 1) = _
    rw [Nat.and_two_pow_sub_one_eq_mod]
    omega
  have hreg : address.toUInt8 &&& 0xFC = offset &&& 0xFC := by
    have hlow : address.toUInt8 = offset &&& 0xFC := by
      rw [← UInt8.toNat_inj, UInt32.toNat_toUInt8, haddr]
      omega
    rw [hlow, UInt8.and_assoc, UInt8.and_self]
  rw [pciReadConfig, ConfigSpace.data, ← haddress, if_pos henable, hbus, hslot, hfunc, hreg]

/-- **Different registers have different addresses.** -/
theorem pciAddress_inj {bus slot func offset bus' slot' func' offset' : UInt8} (hs : slot < 32)
    (hf : func < 8) (hs' : slot' < 32) (hf' : func' < 8)
    (h : pciAddress bus slot func offset = pciAddress bus' slot' func' offset') :
    bus = bus' ∧ slot = slot' ∧ func = func' ∧ offset &&& 0xFC = offset' &&& 0xFC := by
  have heq := congrArg UInt32.toNat h
  rw [toNat_pciAddress offset hs hf, toNat_pciAddress offset' hs' hf'] at heq
  have hr := (offset &&& 0xFC).toNat_lt
  have hr' := (offset' &&& 0xFC).toNat_lt
  rw [UInt8.lt_iff_toNat_lt] at hs hf hs' hf'
  change slot.toNat < 32 at hs
  change func.toNat < 8 at hf
  change slot'.toNat < 32 at hs'
  change func'.toNat < 8 at hf'
  simp only [← UInt8.toNat_inj]
  omega

/-! ### Places -/

variable (c : ConfigSpace) (l : Locals)

/-- **A function is found exactly if it is there.** -/
theorem pciDeviceExists_iff (bus : UInt8) {slot func : UInt8} (hs : slot < 32) (hf : func < 8) :
    pciDeviceExists c bus slot func = true ↔ c.Present bus slot func := by
  have hread : pciReadConfig c bus slot func pciVendorId = c.read bus slot func 0 :=
    pciReadConfig_eq c bus pciVendorId hs hf
  rw [pciDeviceExists, decide_eq_true_iff, hread]
  constructor
  · intro hvendor
    refine ⟨0, rfl, fun hones => hvendor ?_⟩
    rw [hones]
    rfl
  · rintro ⟨r, hr, hne⟩ hvendor
    exact hne (c.absent hs hf hvendor r hr)

/-! ### No handler fails -/

theorem exists_printing {x : Except Fault (List UInt8)} (h : ∃ cs, x = .ok cs) :
    ∃ t, printing x = .ok t :=
  exists_bind_eq_ok h fun _ => ⟨_, rfl⟩

theorem exists_printText (s : String) : ∃ t, printText s = .ok t :=
  exists_printing (exists_kprint (utf8 s))

theorem exists_uhciInit (ioBase : UInt32) : ∃ t, uhciInit ioBase = .ok t := by
  refine exists_seq_cons (exists_printText _) ?_
  refine exists_seq_cons (exists_printing ⟨_, kprintNum_eq ioBase⟩) ?_
  refine exists_seq_cons (exists_printText _) ?_
  refine exists_seq_cons ⟨_, rfl⟩ (exists_seq_cons ⟨_, rfl⟩ (exists_seq_cons ⟨_, rfl⟩ ?_))
  exact exists_seq_cons (exists_printText _) exists_seq_nil

theorem exists_usbInit (type : UsbType) (baseAddr : UInt32) :
    ∃ t, usbInit type baseAddr = .ok t := by
  refine exists_seq_cons (exists_printText _) (exists_seq_cons ?_ exists_seq_nil)
  cases type with
  | uhci =>
      exact exists_seq_cons (exists_printText _)
        (exists_seq_cons (exists_uhciInit baseAddr) exists_seq_nil)
  | ohci => exact exists_printText _
  | ehci => exact exists_printText _
  | xhci => exact exists_printText _

theorem exists_pciPrintDevice (bus slot func : UInt8) :
    ∃ t, pciPrintDevice c bus slot func = .ok t :=
  exists_printing
    (kprintf_words _ (s := utf8 "PCI Device: bus=%d slot=%d func=%d vendor=0x%x device=0x%x\n")
      (by decide) (by decide) (by decide) (Nat.le_of_ble_eq_true rfl))

theorem exists_pciHandleUsb (bus slot func : UInt8) :
    ∃ t, pciHandleUsb c bus slot func = .ok t := by
  unfold pciHandleUsb
  dsimp only
  split_ifs
  · exact ⟨_, rfl⟩
  · split
    · exact ⟨_, rfl⟩
    · exact exists_usbInit _ _

theorem exists_foundFormat {vendor device : UInt16} (h : isQemuNetworkDevice vendor device = true) :
    ∃ format, foundFormat device = some format := by
  unfold isQemuNetworkDevice at h
  split_ifs at h
  rcases of_decide_eq_true h with rfl | rfl | rfl | rfl | rfl
  all_goals exact ⟨_, rfl⟩

theorem kprintf_foundFormat {device : UInt16} {format : String}
    (h : foundFormat device = some format) (bus slot func : UInt32) :
    ∃ printed, kprintf (utf8 format ++ [0]) ([bus, slot, func].map .word) = .ok printed := by
  unfold foundFormat at h
  split_ifs at h
  all_goals
    obtain rfl := Option.some.inj h
    exact kprintf_words _ (by decide) (by decide) (by decide) (Nat.le_of_ble_eq_true rfl)

/-- The vendor and the device in the first register of a function. -/
def vendorDevice (bus slot func : UInt8) : UInt16 × UInt16 :=
  ((pciReadConfig c bus slot func pciVendorId).toUInt16,
    (pciReadConfig c bus slot func pciVendorId >>> 16).toUInt16)

variable {c} in
/-- What a card that is not supported makes the handler do. -/
theorem pciHandleNetwork_of_not_supported {bus slot func : UInt8}
    (h : isQemuNetworkDevice (vendorDevice c bus slot func).1 (vendorDevice c bus slot func).2 =
      false) : pciHandleNetwork c l bus slot func = .ok [] :=
  if_pos h

variable {c} in
/-- **What a supported card makes the handler do**: it initialises the card at the address that it
takes from the registers. -/
theorem pciHandleNetwork_of_supported {bus slot func : UInt8}
    (h : isQemuNetworkDevice (vendorDevice c bus slot func).1 (vendorDevice c bus slot func).2 =
      true) {base : UInt64}
    (hbase : base =
      mmioBase (pciReadConfig c bus slot func pciBar0) (pciReadConfig c bus slot func pciBar1)) :
    ∃ found printed result, pciHandleNetwork c l bus slot func =
      .ok [.printed found,
        .e1000Init base ⟨printed, 0, some (e1000Filled base l.rxRingMem l.txRingMem)⟩,
        .printed result] := by
  obtain ⟨format, hformat⟩ := exists_foundFormat h
  obtain ⟨found, hfound⟩ :=
    kprintf_foundFormat hformat bus.toUInt32 slot.toUInt32 func.toUInt32
  obtain ⟨printed, hinit⟩ := e1000Init_of_ne base l.dev_ne l.rxRingMem_ne l.txRingMem_ne
  obtain ⟨result, hresult⟩ := exists_kprint (utf8 "e1000 initialized successfully\n")
  refine ⟨found, printed, result, ?_⟩
  unfold pciHandleNetwork
  unfold vendorDevice at h hformat
  dsimp only at h hformat ⊢
  rw [if_neg (by rw [h]; decide), hformat]
  dsimp only
  rw [hfound, ok_bind, ← hbase, hinit, ok_bind]
  dsimp only
  rw [if_neg (by decide), hresult, ok_bind]

theorem exists_pciHandleNetwork (bus slot func : UInt8) :
    ∃ t, pciHandleNetwork c l bus slot func = .ok t := by
  cases h : isQemuNetworkDevice (vendorDevice c bus slot func).1
      (vendorDevice c bus slot func).2 with
  | false => exact ⟨_, pciHandleNetwork_of_not_supported l h⟩
  | true =>
      obtain ⟨_, _, _, hrun⟩ := pciHandleNetwork_of_supported l h rfl
      exact ⟨_, hrun⟩

/-! ### Visits -/

/-- The event is a call of the handler for the place. -/
def BusEvent.calls (h : Handler) (bus slot func : UInt8) : BusEvent → Bool
  | .printed _ => false
  | .call h' bus' slot' func' _ => h' = h ∧ bus' = bus ∧ slot' = slot ∧ func' = func

/-- How often a handler is called for a place. -/
def visits (h : Handler) (bus slot func : UInt8) (trace : List BusEvent) : ℕ :=
  trace.countP (BusEvent.calls h bus slot func)

theorem exists_calling {h : Handler} {bus slot func : UInt8} {x : Except Fault (List Effect)}
    (hx : ∃ t, x = .ok t) : ∃ t, calling h bus slot func x = .ok t :=
  exists_bind_eq_ok hx fun _ => ⟨_, rfl⟩

theorem exists_announcing (s : String) : ∃ t, announcing s = .ok t :=
  exists_bind_eq_ok (exists_kprint (utf8 s)) fun _ => ⟨_, rfl⟩

theorem exists_pciScanFunction (bus slot func : UInt8) :
    ∃ t, pciScanFunction c l bus slot func = .ok t := by
  unfold pciScanFunction
  split_ifs
  · exact ⟨_, rfl⟩
  · refine exists_seq_cons (exists_calling (exists_pciPrintDevice c bus slot func)) ?_
    refine exists_seq_cons (exists_calling (exists_pciHandleUsb c bus slot func)) ?_
    exact exists_seq_cons (exists_calling (exists_pciHandleNetwork c l bus slot func))
      exists_seq_nil

theorem exists_pciScanSlot (bus : UInt16) (slot : UInt8) :
    ∃ t, pciScanSlot c l bus slot = .ok t := by
  refine exists_seq_cons (exists_pciScanFunction c l _ _ _) (exists_seq_cons ?_ exists_seq_nil)
  split_ifs
  · exact exists_loop fun func _ _ => exists_pciScanFunction c l _ _ _
  · exact ⟨_, rfl⟩

/-- The scan does not fail. -/
theorem exists_pciScan : ∃ trace, pciScan c l = .ok trace := by
  refine exists_seq_cons (exists_announcing _) (exists_seq_cons ?_ ?_)
  · exact exists_loop fun bus _ _ => exists_loop fun slot _ _ => exists_pciScanSlot c l _ _
  · exact exists_seq_cons (exists_announcing _) exists_seq_nil

variable {c l} {h : Handler} {b s f : UInt8}

theorem visits_nil : visits h b s f [] = 0 := rfl

theorem visits_append (t t' : List BusEvent) :
    visits h b s f (t ++ t') = visits h b s f t + visits h b s f t' :=
  List.countP_append

/-- What is visited in one round of a loop only is visited once. -/
theorem visits_loop {w : ℕ} {body : BitVec w → Except Fault (List BusEvent)} {n i₀ j : BitVec w}
    {m : ℕ} {ts : List BusEvent} (hloop : Trace.loop body n i₀ = .ok ts)
    (hround : ∀ i t, i < n → body i = .ok t → visits h b s f t = if i = j then m else 0) :
    visits h b s f ts = if i₀ ≤ j ∧ j < n then m else 0 :=
  loop_countP hloop fun i t _ => hround i t

/-- What is printed is no visit. -/
theorem announcing_visits {text : String} {t : List BusEvent} (ht : announcing text = .ok t) :
    visits h b s f t = 0 := by
  obtain ⟨cs, -, hcs⟩ := bind_eq_ok.mp ht
  cases hcs
  rfl

/-- **A function that is found is visited once by every handler.** -/
theorem pciScanFunction_visits {bus slot func : UInt8} {t : List BusEvent}
    (ht : pciScanFunction c l bus slot func = .ok t) :
    visits h b s f t =
      if pciDeviceExists c bus slot func = true ∧ bus = b ∧ slot = s ∧ func = f then 1 else 0 := by
  unfold pciScanFunction at ht
  split_ifs at ht with hexists
  · cases ht
    rw [if_neg fun hp => Bool.eq_false_iff.1 hexists hp.1]
    rfl
  · rw [Bool.not_eq_false] at hexists
    simp only [seq_cons_eq_ok, seq_nil_eq_ok, calling, bind_eq_ok] at ht
    obtain ⟨_, ⟨e₁, -, h₁⟩, _, ⟨_, ⟨e₂, -, h₂⟩, _, ⟨_, ⟨e₃, -, h₃⟩, _, rfl, rfl⟩, rfl⟩, rfl⟩ := ht
    cases h₁
    cases h₂
    cases h₃
    simp only [hexists, true_and, visits, List.singleton_append, List.append_nil]
    cases h <;> simp [List.countP_cons, BusEvent.calls]

/-- A function behind the first one is only there if the header type says so. -/
theorem headerType_of_exists {bus slot func : UInt8} (hs : slot < 32) (hf : func < 8)
    (hne : func ≠ 0) (hexists : pciDeviceExists c bus slot func = true) :
    (pciReadConfig c bus slot 0 pciHeaderType >>> 16).toUInt8 &&& pciMultifunctionFlag ≠ 0 := by
  obtain ⟨r, hr, hones⟩ := (pciDeviceExists_iff c bus hs hf).1 hexists
  rw [pciReadConfig_eq c bus pciHeaderType hs (by decide)]
  exact (c.multifunction hs hf hne hr hones).2

/-- The functions behind the first one are visited once, whatever the header type is. -/
theorem functions_visits {bus slot : UInt8} (hslot : slot < 32) {t : List BusEvent}
    (ht : (if (pciReadConfig c bus slot 0 pciHeaderType >>> 16).toUInt8 &&& pciMultifunctionFlag ≠ 0
      then Trace.loop (fun func => pciScanFunction c l bus slot (.ofBitVec func)) 8 1
      else .ok []) = .ok t) :
    visits h b s f t =
      if f ≠ 0 ∧ f < 8 ∧ pciDeviceExists c bus slot f = true ∧ bus = b ∧ slot = s then 1
      else 0 := by
  split_ifs at ht with hflag
  · -- the counter starts behind function 0
    have hrange : 1 ≤ f.toBitVec ∧ f.toBitVec < 8 ↔ f ≠ 0 ∧ f < 8 := by
      refine and_congr_left' ?_
      rw [BitVec.le_def, Ne, ← UInt8.toNat_inj]
      exact Nat.one_le_iff_ne_zero
    have hround (func : BitVec 8) (t : List BusEvent)
        (hfunc : pciScanFunction c l bus slot (.ofBitVec func) = .ok t) :
        visits h b s f t =
          if func = f.toBitVec then
            if pciDeviceExists c bus slot f = true ∧ bus = b ∧ slot = s then 1 else 0
          else 0 := by
      have hplace : UInt8.ofBitVec func = f ↔ func = f.toBitVec := UInt8.toBitVec_inj.symm
      rw [pciScanFunction_visits hfunc, ← ite_and]
      by_cases hf : func = f.toBitVec
      · subst hf
        simp
      · simp [hplace, hf]
    rw [visits_loop ht fun func t _ => hround func t, ← ite_and]
    simp only [hrange, and_assoc]
  · -- no other function is there if the flag is not set
    cases ht
    refine (if_neg ?_).symm
    rintro ⟨hne, hf, hexists, -, -⟩
    exact hflag (headerType_of_exists hslot hf hne hexists)

/-- **The functions of a slot are visited once.** -/
theorem pciScanSlot_visits {bus : UInt16} {slot : UInt8} (hslot : slot < 32) {t : List BusEvent}
    (ht : pciScanSlot c l bus slot = .ok t) :
    visits h b s f t =
      if slot = s then
        if bus.toUInt8 = b ∧ f < 8 ∧ pciDeviceExists c b s f = true then 1 else 0
      else 0 := by
  unfold pciScanSlot at ht
  simp only [seq_cons_eq_ok, seq_nil_eq_ok] at ht
  obtain ⟨first, hfirst, _, ⟨others, hothers, _, rfl, rfl⟩, rfl⟩ := ht
  rw [List.append_nil, visits_append, pciScanFunction_visits hfirst,
    functions_visits hslot hothers, ← ite_and]
  by_cases hplace : bus.toUInt8 = b ∧ slot = s
  · -- function 0 is visited in front of the loop, the other ones in it
    obtain ⟨rfl, rfl⟩ := hplace
    by_cases hf : f = 0
    · subst hf
      simp
    · simp [hf, Ne.symm hf]
  · rw [if_neg fun hp => hplace ⟨hp.2.1, hp.2.2.1⟩,
      if_neg fun hp => hplace ⟨hp.2.2.2.1, hp.2.2.2.2⟩, if_neg fun hp => hplace ⟨hp.2.1, hp.1⟩]

/-- **The slots of a bus are visited once.** -/
theorem slots_visits {bus : UInt16} {t : List BusEvent}
    (ht : Trace.loop (fun slot => pciScanSlot c l bus (.ofBitVec slot)) maxPciSlot 0 = .ok t) :
    visits h b s f t =
      if s < 32 then if bus.toUInt8 = b ∧ f < 8 ∧ pciDeviceExists c b s f = true then 1 else 0
      else 0 := by
  have hround (slot : BitVec 8) (t : List BusEvent) (hlt : slot < maxPciSlot)
      (hslot : pciScanSlot c l bus (.ofBitVec slot) = .ok t) :
      visits h b s f t =
        if slot = s.toBitVec then
          if bus.toUInt8 = b ∧ f < 8 ∧ pciDeviceExists c b s f = true then 1 else 0
        else 0 := by
    have hslot' : UInt8.ofBitVec slot < 32 := hlt
    have hplace : UInt8.ofBitVec slot = s ↔ slot = s.toBitVec := UInt8.toBitVec_inj.symm
    simp only [pciScanSlot_visits hslot' hslot, hplace]
  have hrange : (0 ≤ s.toBitVec ∧ s.toBitVec < maxPciSlot) ↔ s < 32 :=
    and_iff_right (Nat.zero_le _)
  rw [visits_loop ht hround]
  simp only [hrange]

/-- **The buses are visited once.** -/
theorem buses_visits {t : List BusEvent}
    (ht : Trace.loop (fun bus => Trace.loop (fun slot => pciScanSlot c l (.ofBitVec bus)
      (.ofBitVec slot)) maxPciSlot 0) maxPciBus 0 = .ok t) :
    visits h b s f t =
      if s < 32 ∧ f < 8 ∧ pciDeviceExists c b s f = true then 1 else 0 := by
  have hround (bus : BitVec 16) (t : List BusEvent) (hlt : bus < maxPciBus)
      (hbus : Trace.loop (fun slot => pciScanSlot c l (.ofBitVec bus) (.ofBitVec slot))
        maxPciSlot 0 = .ok t) :
      visits h b s f t =
        if bus = b.toUInt16.toBitVec then
          if s < 32 ∧ f < 8 ∧ pciDeviceExists c b s f = true then 1 else 0
        else 0 := by
    have hplace : (UInt16.ofBitVec bus).toUInt8 = b ↔ bus = b.toUInt16.toBitVec := by
      -- the counter has 16 bits, and what is passed on has 8, but it stays below 256
      rw [BitVec.lt_def] at hlt
      change bus.toNat < 256 at hlt
      have hb := b.toNat_lt
      rw [← UInt8.toNat_inj, UInt16.toNat_toUInt8, ← BitVec.toNat_inj]
      change bus.toNat % 2 ^ 8 = b.toNat ↔ bus.toNat = b.toUInt16.toNat
      rw [UInt8.toNat_toUInt16, Nat.mod_eq_of_lt hlt]
    rw [slots_visits hbus, ← ite_and, ← ite_and]
    simp only [hplace]
    exact if_congr (by tauto) rfl rfl
  have hrange : 0 ≤ b.toUInt16.toBitVec ∧ b.toUInt16.toBitVec < maxPciBus := by
    have hb := b.toNat_lt
    refine ⟨Nat.zero_le _, ?_⟩
    rw [BitVec.lt_def, UInt16.toNat_toBitVec, UInt8.toNat_toUInt16]
    exact hb
  rw [visits_loop ht hround, if_pos hrange]

/-- What the scan visits. -/
theorem visits_pciScan {trace : List BusEvent} (hscan : pciScan c l = .ok trace) :
    (s < 32 ∧ f < 8 ∧ c.Present b s f → visits h b s f trace = 1) ∧
      (¬ (s < 32 ∧ f < 8 ∧ c.Present b s f) → visits h b s f trace = 0) := by
  simp only [pciScan, seq_cons_eq_ok, seq_nil_eq_ok] at hscan
  obtain ⟨before, hbefore, _, ⟨buses, hbuses, _, ⟨after, hafter, _, rfl, rfl⟩, rfl⟩, rfl⟩ := hscan
  have hplace : s < 32 ∧ f < 8 ∧ pciDeviceExists c b s f = true ↔
      s < 32 ∧ f < 8 ∧ c.Present b s f :=
    and_congr_right fun hs => and_congr_right fun hf => pciDeviceExists_iff c b hs hf
  simp only [visits_append, announcing_visits hbefore, announcing_visits hafter, visits_nil,
    Nat.zero_add, Nat.add_zero, buses_visits hbuses]
  exact ⟨fun hp => if_pos (hplace.2 hp), fun hp => if_neg fun hp' => hp (hplace.1 hp')⟩

/-- **Every function is visited exactly once.**  The scan of any bus calls every handler once for
every function that is there and for no other one, and the addresses that are written for different
registers are different. -/
theorem pciScan_visits (c : ConfigSpace) (l : Locals) :
    (∃ trace, pciScan c l = .ok trace ∧
      ∀ h bus slot func,
        (slot < 32 ∧ func < 8 ∧ c.Present bus slot func → visits h bus slot func trace = 1) ∧
        (¬ (slot < 32 ∧ func < 8 ∧ c.Present bus slot func) →
          visits h bus slot func trace = 0)) ∧
    ∀ {bus slot func offset bus' slot' func' offset' : UInt8}, slot < 32 → func < 8 →
      slot' < 32 → func' < 8 →
      (bus, slot, func, offset &&& 0xFC) ≠ (bus', slot', func', offset' &&& 0xFC) →
      pciAddress bus slot func offset ≠ pciAddress bus' slot' func' offset' := by
  constructor
  · obtain ⟨trace, hscan⟩ := exists_pciScan c l
    exact ⟨trace, hscan, fun h bus slot func => visits_pciScan hscan⟩
  · intro bus slot func offset bus' slot' func' offset' hs hf hs' hf' hne heq
    obtain ⟨rfl, rfl, rfl, hoffset⟩ := pciAddress_inj hs hf hs' hf' heq
    exact hne (by rw [hoffset])

end Anaga
