/-
**The network card: `drivers/network/e1000.c`.**

`e1000_init` fills in the structure of a device and the two rings of descriptors that its caller
has memory for.  It prints the addresses with `%lx`, which takes one word, and passes two for each
of them.

Main definitions:

* `Anaga.E1000`, `Anaga.RxDesc`, `Anaga.TxDesc` — the structures of `e1000.h`;
* `Anaga.e1000Init`, `Anaga.Initialized` — the function, and what it leaves.

Main results:

* `Anaga.e1000Init_of_ne` — **the address that is passed is the one that is stored**;
* `Anaga.e1000Init_of_null` — a null pointer is refused.
-/

import Anaga.Formats

set_option relaxedAutoImplicit false
set_option autoImplicit false

namespace Anaga

open Transition

/-! ### The structures -/

/-- `RX_RING_SIZE`. -/
def rxRingSize : ℕ := 128

/-- `TX_RING_SIZE`. -/
def txRingSize : ℕ := 128

/-- `struct e1000_rx_desc`. -/
structure RxDesc where
  bufferAddr : UInt64
  length : UInt16
  checksum : UInt16
  status : UInt8
  errors : UInt8
  special : UInt16
deriving DecidableEq

/-- `struct e1000_tx_desc`. -/
structure TxDesc where
  bufferAddr : UInt64
  length : UInt16
  cso : UInt8
  cmd : UInt8
  status : UInt8
  css : UInt8
  special : UInt16
deriving DecidableEq

/-- `struct ring`. -/
structure Ring where
  base : UInt64
  size : UInt32
  head : UInt32
  tail : UInt32
deriving DecidableEq

/-- `struct e1000`. -/
structure E1000 where
  rxRing : Ring
  txRing : Ring
  mmioBase : UInt64
  rxDescMem : UInt32
  txDescMem : UInt32
deriving DecidableEq

/-- What `e1000_init` leaves: the characters it prints, what it returns, and the structure and the
two rings, if it fills them in. -/
structure Initialized where
  printed : List UInt8
  ret : UInt32
  filled : Option (E1000 × List RxDesc × List TxDesc)
deriving DecidableEq

/-! ### The function -/

/-- A value of 64 bits is two words on the stack. -/
def longWords (w : UInt64) : List UInt32 := [w.toUInt32, (w >>> 32).toUInt32]

/-- The structure that `e1000_init` fills in, and the descriptors: every field of them is set. -/
def e1000Filled (mmioBase : UInt64) (rxPhysMem txPhysMem : UInt32) :
    E1000 × List RxDesc × List TxDesc :=
  ({ rxRing := ⟨rxPhysMem.toUInt64, UInt32.ofNat rxRingSize, 0, 0⟩
     txRing := ⟨txPhysMem.toUInt64, UInt32.ofNat txRingSize, 0, 0⟩
     mmioBase := mmioBase
     rxDescMem := rxPhysMem
     txDescMem := txPhysMem },
    List.replicate rxRingSize
      { bufferAddr := 0, length := 0, checksum := 0, status := 0, errors := 0, special := 0 },
    List.replicate txRingSize
      { bufferAddr := 0, length := 0, cso := 0, cmd := 0, status := 1, css := 0, special := 0 })

/-- `e1000_init`. -/
def e1000Init (dev : UInt32) (mmioBase : UInt64) (rxPhysMem txPhysMem : UInt32) :
    Except Fault Initialized :=
  if dev = 0 ∨ rxPhysMem = 0 ∨ txPhysMem = 0 then
    kprint (utf8 "e1000_init error: invalid pointer(s) provided\n" ++ [0]) >>= fun printed =>
    .ok ⟨printed, -1, none⟩
  else
    let rxBase := rxPhysMem.toUInt64
    let txBase := txPhysMem.toUInt64
    kprint (utf8 "e1000_init: Starting initialization...\n" ++ [0]) >>= fun p₁ =>
    kprintf (utf8 "MMIO Base set to 0x0%lx\n" ++ [0]) ((longWords mmioBase).map .word) >>= fun p₂ =>
    kprintf (utf8 "RX Ring initialized: base=0x%lx, size=%d\n" ++ [0])
      ((longWords rxBase ++ [UInt32.ofNat rxRingSize]).map .word) >>= fun p₃ =>
    kprintf (utf8 "TX Ring initialized: base=0x%lx, size=%d\n" ++ [0])
      ((longWords txBase ++ [UInt32.ofNat txRingSize]).map .word) >>= fun p₄ =>
    kprint (utf8 "e1000_init: Initialization complete\n" ++ [0]) >>= fun p₅ =>
    kprintf (utf8 "Final state: MMIO=0x%lx, RX base=0x%lx, TX base=0x%lx\n" ++ [0])
      ((longWords mmioBase ++ longWords rxBase ++ longWords txBase).map .word) >>= fun p₆ =>
    .ok ⟨p₁ ++ p₂ ++ p₃ ++ p₄ ++ p₅ ++ p₆, 0, some (e1000Filled mmioBase rxPhysMem txPhysMem)⟩

/-! ### What it leaves -/

variable {dev rxPhysMem txPhysMem : UInt32} (mmioBase : UInt64)

/-- **The address that is passed is the one that is stored**, and the rings are those of the
caller. -/
theorem e1000Init_of_ne (hdev : dev ≠ 0) (hrx : rxPhysMem ≠ 0) (htx : txPhysMem ≠ 0) :
    ∃ printed, e1000Init dev mmioBase rxPhysMem txPhysMem =
      .ok ⟨printed, 0, some (e1000Filled mmioBase rxPhysMem txPhysMem)⟩ := by
  have hptr : ¬ (dev = 0 ∨ rxPhysMem = 0 ∨ txPhysMem = 0) := by
    simp only [hdev, hrx, htx, or_self, not_false_eq_true]
  obtain ⟨p₁, h₁⟩ := exists_kprint (utf8 "e1000_init: Starting initialization...\n")
  obtain ⟨p₂, h₂⟩ := kprintf_words (longWords mmioBase) (s := utf8 "MMIO Base set to 0x0%lx\n")
    (by decide) (by decide) (by decide) (Nat.le_of_ble_eq_true rfl)
  obtain ⟨p₃, h₃⟩ := kprintf_words (longWords rxPhysMem.toUInt64 ++ [UInt32.ofNat rxRingSize])
    (s := utf8 "RX Ring initialized: base=0x%lx, size=%d\n") (by decide) (by decide) (by decide)
    (Nat.le_of_ble_eq_true rfl)
  obtain ⟨p₄, h₄⟩ := kprintf_words (longWords txPhysMem.toUInt64 ++ [UInt32.ofNat txRingSize])
    (s := utf8 "TX Ring initialized: base=0x%lx, size=%d\n") (by decide) (by decide) (by decide)
    (Nat.le_of_ble_eq_true rfl)
  obtain ⟨p₅, h₅⟩ := exists_kprint (utf8 "e1000_init: Initialization complete\n")
  obtain ⟨p₆, h₆⟩ := kprintf_words
    (longWords mmioBase ++ longWords rxPhysMem.toUInt64 ++ longWords txPhysMem.toUInt64)
    (s := utf8 "Final state: MMIO=0x%lx, RX base=0x%lx, TX base=0x%lx\n") (by decide) (by decide)
    (by decide) (Nat.le_of_ble_eq_true rfl)
  refine ⟨p₁ ++ p₂ ++ p₃ ++ p₄ ++ p₅ ++ p₆, ?_⟩
  rw [e1000Init, if_neg hptr]
  dsimp only
  rw [h₁, ok_bind, h₂, ok_bind, h₃, ok_bind, h₄, ok_bind, h₅, ok_bind, h₆, ok_bind]

/-- A null pointer is refused. -/
theorem e1000Init_of_null (h : dev = 0 ∨ rxPhysMem = 0 ∨ txPhysMem = 0) :
    ∃ printed, e1000Init dev mmioBase rxPhysMem txPhysMem = .ok ⟨printed, -1, none⟩ := by
  obtain ⟨printed, hprint⟩ := exists_kprint (utf8 "e1000_init error: invalid pointer(s) provided\n")
  exact ⟨printed, by rw [e1000Init, if_pos h, hprint, ok_bind]⟩

end Anaga
