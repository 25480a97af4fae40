/-
**The file system: `fs/vfs.c`.**

The upper half of the file system: the inode table in memory and on disk, the current directory,
and the operations behind the shell commands.  The functions are those of the source; a fault is
an access outside one of the arrays of the file system.

Main definitions:

* `Anaga.vfsLoad`, `Anaga.vfsSync` — the inode table from and to the disk;
* `Anaga.vfsInit`, `Anaga.boot` — bringing the file system up, in any state and after power-on;
* `Anaga.vfsMkdir`, `Anaga.vfsLs`, `Anaga.vfsCd`, `Anaga.vfsPwd`, `Anaga.vfsTouch`,
  `Anaga.vfsCat`, `Anaga.vfsWriteFile`, `Anaga.vfsRead`, `Anaga.vfsReadAt` — the functions of
  `fs/vfs.h`;
* `Anaga.Op`, `Anaga.Op.exec`, `Anaga.Op.step` — a call with its arguments, its result, and the
  state it leaves.
-/

import Anaga.Kernel

set_option relaxedAutoImplicit false
set_option autoImplicit false

namespace Anaga

open Transition

/-! ### The inode table on disk -/

/-- `INODE_TABLE_SECTOR`. -/
abbrev inodeTableSector : ℕ := 0

/-- `inode_sectors`, the sectors of an inode. -/
abbrev inodeSectors : ℕ := (sizeofInode + sectorSize - 1) / sectorSize

/-- `copy_size`: the bytes of an inode in its sector `s`. -/
def copySize (s : ℕ) : ℕ :=
  if s = inodeSectors - 1 then sizeofInode - s * sectorSize else sectorSize

/-- `vfs_load`: the inode table afterwards. -/
def vfsLoad (disk : Disk) (t : InodeTable) : InodeTable := fun i =>
  Inode.ofBytes
    ((List.range inodeSectors).foldl
      (fun raw s => Bytes.splice raw (s * sectorSize)
        (driveReadSector disk (inodeTableSector + i * inodeSectors + s)) (copySize s))
      (t i).byte)

/-- The buffer that `vfs_sync` writes to sector `s` of an inode. -/
def syncBuffer (n : Inode) (s : ℕ) : ℕ → UInt8 :=
  Bytes.splice (fun _ => 0) 0 (fun o => n.byte (s * sectorSize + o)) (copySize s)

/-- `vfs_sync`: the disk afterwards. -/
def vfsSync (t : InodeTable) (disk : Disk) : Disk :=
  (List.range maxInodes).foldl
    (fun disk i => (List.range inodeSectors).foldl
      (fun disk s => driveWriteSector disk (inodeTableSector + i * inodeSectors + s)
        (syncBuffer (t (Fin.ofNat maxInodes i)) s)) disk) disk

/-- `vfs_init`. -/
def vfsInit (k : Kernel) : Kernel :=
  let t := vfsLoad k.disk k.inodeArray
  if (t 0).type ≠ inodeDir then
    let t := Function.update t 0 { Inode.zero with type := inodeDir }
    { k with inodeArray := t, disk := vfsSync t k.disk, currentDir := 0 }
  else { k with inodeArray := t, currentDir := 0 }

/-- The state in which `kmain` calls `vfs_init`: the statics are zero. -/
def powerOn (disk : Disk) (memory : Memory) : Kernel where
  inodeArray := fun _ => Inode.zero
  currentDir := 0
  fdTable := fun _ => ⟨false, 0, 0⟩
  disk := disk
  memory := memory
  console := []

/-- The state after booting from a disk. -/
def boot (disk : Disk) (memory : Memory) : Kernel := vfsInit (powerOn disk memory)

/-! ### Directories -/

/-- `vfs_mkdir`. -/
def vfsMkdir (k : Kernel) (name : CString) : Except Fault Result :=
  match findFreeInode k.inodeArray with
  | none => .ok (k.fail "No free inodes\n")
  | some idx =>
      inodeAt k.inodeArray k.currentDir >>= fun parent =>
      if maxDirEntries ≤ parent.numEntries.toNat then .ok (k.fail "Directory full\n")
      else
        findInodeInDir k.inodeArray k.currentDir name >>= fun found =>
        match found with
        | some _ => .ok (k.fail "Already exists\n")
        | none =>
            strncpy Inode.zero.nameRegion name.region (maxFilename - 1) >>= fun copied =>
            let dir : Inode :=
              { Inode.zero with
                name := nameField copied
                type := inodeDir
                parentInode := UInt32.ofNat k.currentDir }
            appendEntry (Function.update k.inodeArray idx dir) k.currentDir idx >>= fun t =>
            .ok ⟨idx, none, { k with inodeArray := t, disk := vfsSync t k.disk }⟩

/-- The loop of `vfs_ls`, with the slots from the current one on and the number of entries still
to be visited: the characters it prints. -/
def lsLoop (t : InodeTable) : List UInt32 → ℕ → Except Fault (List UInt8)
  | _, 0 => .ok []
  | [], _ + 1 => .error .dirEntries
  | childIdx :: slots, n + 1 =>
      inodeAt t childIdx.toNat >>= fun child =>
      kprint child.nameRegion >>= fun printed =>
      lsLoop t slots n >>= fun rest => .ok (printed ++ utf8 "\n" ++ rest)

/-- `vfs_ls`. -/
def vfsLs (k : Kernel) : Except Fault Result :=
  inodeAt k.inodeArray k.currentDir >>= fun dir =>
  if dir.numEntries = 0 then .ok ⟨0, none, k.puts (utf8 "(empty)\n")⟩
  else
    lsLoop k.inodeArray (List.ofFn dir.dirEntries) dir.numEntries.toNat >>= fun printed =>
    .ok ⟨0, none, k.puts printed⟩

/-- The path `..`. -/
def dotDot : CString := ⟨[46, 46], by decide, by decide⟩

/-- The path `/`. -/
def slash : CString := ⟨[47], by decide, by decide⟩

/-- `vfs_cd`. -/
def vfsCd (k : Kernel) (path : CString) : Except Fault Result :=
  strcmp path.region dotDot.region >>= fun r =>
  if r = 0 then
    if k.currentDir ≠ 0 then
      inodeAt k.inodeArray k.currentDir >>= fun dir =>
      .ok ⟨0, none, { k with currentDir := dir.parentInode.toNat }⟩
    else .ok ⟨0, none, k⟩
  else
    strcmp path.region slash.region >>= fun r =>
    if r = 0 then .ok ⟨0, none, { k with currentDir := 0 }⟩
    else
      findInodeInDir k.inodeArray k.currentDir path >>= fun found =>
      match found with
      | none => .ok (k.fail "Not found\n")
      | some idx =>
          if (k.inodeArray idx).type ≠ inodeDir then .ok (k.fail "Not a directory\n")
          else .ok ⟨0, none, { k with currentDir := idx }⟩

/-- The first loop of `vfs_pwd`, with the room left in `path`: the indices it stores. -/
def pwdLoop (t : InodeTable) : ℕ → ℕ → Except Fault (List (Fin maxInodes))
  | 0, _ => .error .path
  | room + 1, idx =>
      if idx = 0 then .ok [0]
      else if h : idx < maxInodes then
        (⟨idx, h⟩ :: ·) <$> pwdLoop t room (t ⟨idx, h⟩).parentInode.toNat
      else .error .inodeArray

/-- The second loop of `vfs_pwd`, over the stored indices from the last to the first: the
characters it prints. -/
def pwdPrint (t : InodeTable) : List (Fin maxInodes) → Except Fault (List UInt8)
  | [] => .ok []
  | i :: rest =>
      kprint (t i).nameRegion >>= fun printed =>
      pwdPrint t rest >>= fun more => .ok (utf8 "/" ++ printed ++ more)

/-- `vfs_pwd`. -/
def vfsPwd (k : Kernel) : Except Fault Result :=
  pwdLoop k.inodeArray 32 k.currentDir >>= fun path =>
  pwdPrint k.inodeArray path.reverse >>= fun printed => .ok ⟨0, none, k.puts printed⟩

/-! ### Files -/

/-- `vfs_touch`. -/
def vfsTouch (k : Kernel) (name : CString) : Except Fault Result :=
  fileCreate name k.currentDir k.inodeArray >>= fun (idx, t) =>
  match idx with
  | none => .ok ({ k with inodeArray := t }.fail "Cannot create file\n")
  | some _ => .ok ⟨0, none, { k with inodeArray := t, disk := vfsSync t k.disk }⟩

/-- `vfs_cat`.  Its buffer has room for `MAX_FILE_SIZE` bytes and a NUL behind them. -/
def vfsCat (k : Kernel) (name : CString) : Except Fault Result :=
  findInodeInDir k.inodeArray k.currentDir name >>= fun found =>
  match found with
  | none => .ok (k.fail "File not found\n")
  | some idx =>
      if (k.inodeArray idx).type = inodeDir then .ok (k.fail "Is a directory\n")
      else
        match fileOpen idx k.inodeArray k.fdTable with
        | (none, fds) => .ok ({ k with fdTable := fds }.fail "Cannot open\n")
        | (some fd, fds) =>
            match fileRead fd (UInt32.ofNat maxFileSize) k.inodeArray fds with
            | (none, fds) => .ok ⟨0, none, { k with fdTable := fileClose fd fds }⟩
            | (some c, fds) =>
                let k' := { k with fdTable := fileClose fd fds }
                if 0 < asInt c.len then
                  let buf := k.buffer c
                  kprint (buf ++ [0]) >>= fun printed =>
                  let newline := if buf.getLast? = some 10 then [] else utf8 "\n"
                  .ok ⟨0, some c, k'.puts (printed ++ newline)⟩
                else .ok ⟨0, some c, k'⟩

/-- `vfs_write_file`. -/
def vfsWriteFile (k : Kernel) (name content : CString) : Except Fault Result :=
  findInodeInDir k.inodeArray k.currentDir name >>= fun found =>
  (match found with
    | some idx => .ok (some idx, k.inodeArray)
    | none => fileCreate name k.currentDir k.inodeArray) >>= fun (idx, t) =>
  match idx with
  | none => .ok ({ k with inodeArray := t }.fail "Cannot create\n")
  | some idx =>
      match fileOpen idx t k.fdTable with
      | (none, fds) => .ok ({ k with inodeArray := t, fdTable := fds }.fail "Cannot open\n")
      | (some fd, fds) =>
          strlen content.region >>= fun len =>
          fileWrite fd (fun i => content.region.getD i 0) (UInt32.ofNat len) t fds >>=
            fun (written, t, fds) =>
          let k' := { k with inodeArray := t, fdTable := fileClose fd fds }
          if (written.elim (-1) asInt) < (len : ℤ) then .ok (k'.fail "Write incomplete\n")
          else .ok ⟨0, none, { k' with disk := vfsSync t k.disk }⟩

/-- `vfs_read_at`. -/
def vfsReadAt (k : Kernel) (name : CString) (size offset : UInt32) : Except Fault Result :=
  findInodeInDir k.inodeArray k.currentDir name >>= fun found =>
  match found with
  | none => .ok ⟨-1, none, k⟩
  | some idx =>
      if (k.inodeArray idx).type = inodeDir then .ok ⟨-1, none, k⟩
      else
        match fileOpen idx k.inodeArray k.fdTable with
        | (none, fds) => .ok ⟨-1, none, { k with fdTable := fds }⟩
        | (some fd, fds) =>
            let (_, fds) := fileSeek fd offset fds
            let (c, fds) := fileRead fd size k.inodeArray fds
            .ok ⟨c.elim (-1) fun c => asInt c.len, c, { k with fdTable := fileClose fd fds }⟩

/-- `vfs_read`. -/
def vfsRead (k : Kernel) (name : CString) (size : UInt32) : Except Fault Result :=
  findInodeInDir k.inodeArray k.currentDir name >>= fun found =>
  match found with
  | none => .ok ⟨-1, none, k⟩
  | some idx =>
      if (k.inodeArray idx).type = inodeDir then .ok ⟨-1, none, k⟩
      else
        match fileOpen idx k.inodeArray k.fdTable with
        | (none, fds) => .ok ⟨-1, none, { k with fdTable := fds }⟩
        | (some fd, fds) =>
            let (c, fds) := fileRead fd size k.inodeArray fds
            .ok ⟨c.elim (-1) fun c => asInt c.len, c, { k with fdTable := fileClose fd fds }⟩

/-! ### Calls -/

/-- A call of a function of `fs/vfs.h`, or a reboot. -/
inductive Op
  | mkdir (name : CString)
  | touch (name : CString)
  | writeFile (name content : CString)
  | cd (path : CString)
  | ls
  | pwd
  | cat (name : CString)
  | read (name : CString) (size : UInt32)
  | readAt (name : CString) (size offset : UInt32)
  | init

/-- What the call returns and leaves. -/
def Op.exec (k : Kernel) : Op → Except Fault Result
  | .mkdir name => vfsMkdir k name
  | .touch name => vfsTouch k name
  | .writeFile name content => vfsWriteFile k name content
  | .cd path => vfsCd k path
  | .ls => vfsLs k
  | .pwd => vfsPwd k
  | .cat name => vfsCat k name
  | .read name size => vfsRead k name size
  | .readAt name size offset => vfsReadAt k name size offset
  | .init => .ok ⟨0, none, vfsInit k⟩

/-- The state that the call leaves. -/
def Op.step (k : Kernel) (o : Op) : Except Fault Kernel := Result.kernel <$> o.exec k

end Anaga
