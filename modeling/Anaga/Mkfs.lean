/-
**The image builder: `tools/mkfs.py`.**

The host tool writes a root directory and one file into a disk image, from its own description of
the inode record.  The model follows the script with images and records as lists of bytes; this
module then computes what inode table the kernel finds on the image.

Main definitions:

* `Anaga.Mkfs.packInode`, `Anaga.Mkfs.writeInode`, `Anaga.Mkfs.main` — the functions of the
  script;
* `Anaga.imageDisk` — an image as a disk;
* `Anaga.Mkfs.rootInode`, `Anaga.Mkfs.fileInode` — the two inodes as records.

Main results:

* `Anaga.Mkfs.ofBytes_packInode` — **the record that `pack_inode` packs is the inode it
  describes**;
* `Anaga.Mkfs.diskTable_writeInode` — writing an inode to an image changes one inode of the table;
* `Anaga.Mkfs.diskTable_main` — the table on an image after the script has run.
-/

import Mathlib.Data.List.GetD
import Anaga.Persist

set_option relaxedAutoImplicit false
set_option autoImplicit false

namespace Anaga

/-- The disk that an image is; behind its end there is nothing but zeros. -/
def imageDisk (img : List UInt8) : Disk := fun lba o => img.getD (lba * sectorSize + o) 0

namespace Mkfs

/-! ### The script -/

/-- `bytes.ljust(n, b'\x00')`. -/
def ljust (l : List UInt8) (n : ℕ) : List UInt8 := l ++ List.replicate (n - l.length) 0

/-- The image after `f.seek(off)` and `f.write(b)`. -/
def writeAt (img : List UInt8) (off : ℕ) (b : List UInt8) : List UInt8 :=
  img.take off ++ List.replicate (off - img.length) 0 ++ b ++ img.drop (off + b.length)

/-- `INODE_SIZE`. -/
def inodeSize : ℕ := 32 + 4 + 4 + 4 + 4 + maxDirEntries * 4 + maxFileSize

/-- `INODE_SECTORS`. -/
def inodeSectors : ℕ := (inodeSize + sectorSize - 1) / sectorSize

/-- `write_inode`. -/
def writeInode (img : List UInt8) (index : ℕ) (inodeData : List UInt8) : List UInt8 :=
  writeAt img (index * inodeSectors * sectorSize) inodeData

/-- `pack_inode`. -/
def packInode (name : String) (itype size parent numEntries : UInt32) (dirEntries : List UInt32)
    (data : List UInt8) : List UInt8 :=
  let nameBytes := ljust ((utf8 name).take (maxFilename - 1)) maxFilename
  let de := dirEntries ++ List.replicate (maxDirEntries - dirEntries.length) 0
  let d := ljust (data.take maxFileSize) maxFileSize
  nameBytes ++ (Bytes.wordBytes itype ++ (Bytes.wordBytes size ++ (Bytes.wordBytes parent ++
    (Bytes.wordBytes numEntries ++ (de.flatMap Bytes.wordBytes ++ d)))))

/-- `main`, with the command line, the files of the host and the image: what it prints, and the
image afterwards. -/
def main (argv : List String) (hostFiles : String → Option (List UInt8)) (img : List UInt8) :
    List String × List UInt8 :=
  match argv with
  | _ :: _ :: hostFile :: vfsPath :: _ =>
      match hostFiles hostFile with
      | none => (["Error: " ++ hostFile ++ " not found"], img)
      | some content =>
          let warning :=
            if maxFileSize < content.length then
              ["Warning: File too large (" ++ toString content.length ++ "). Truncating to " ++
                toString maxFileSize]
            else []
          let content :=
            if maxFileSize < content.length then content.take maxFileSize else content
          let root := packInode "" inodeDir 0 0 1 [1] []
          let img := writeInode img 0 root
          let fileNode :=
            packInode vfsPath inodeFile (UInt32.ofNat content.length) 0 0 [] content
          let img := writeInode img 1 fileNode
          (warning ++ ["Installed " ++ vfsPath ++ " at inode 1"], img)
  | _ => (["Usage: python3 mkfs.py <disk_img> <file_in_host> <path_in_vfs>"], img)

/-! ### Bytes of a list -/

/-- Zeros behind the end of a list are what `getD` gives there anyway. -/
theorem getD_append_replicate {α : Type*} (l : List α) (n : ℕ) (a : α) (i : ℕ) :
    (l ++ List.replicate n a).getD i a = l.getD i a := by
  simp only [List.getD_eq_getElem?_getD, List.getElem?_append, List.getElem?_replicate]
  split_ifs with h₁ h₂
  · rfl
  · simp [List.getElem?_eq_none (not_lt.1 h₁)]
  · simp [List.getElem?_eq_none (not_lt.1 h₁)]

theorem ljust_getD (l : List UInt8) (n i : ℕ) : (ljust l n).getD i 0 = l.getD i 0 :=
  getD_append_replicate l _ 0 i

theorem ljust_length {l : List UInt8} {n : ℕ} (h : l.length ≤ n) : (ljust l n).length = n := by
  simp [ljust, h]

theorem writeAt_getD (img : List UInt8) (off : ℕ) (b : List UInt8) (x : ℕ) :
    (writeAt img off b).getD x 0 =
      if off ≤ x ∧ x < off + b.length then b.getD (x - off) 0 else img.getD x 0 := by
  have hpre : (img.take off ++ List.replicate (off - img.length) 0).length = off := by
    simp only [List.length_append, List.length_take, List.length_replicate]
    omega
  have hb : (img.take off ++ List.replicate (off - img.length) 0 ++ b).length = off + b.length := by
    rw [List.length_append, hpre]
  rw [writeAt]
  rcases Nat.lt_or_ge x off with hlt | hge
  · -- in front of what is written; the image may end before it
    rw [if_neg (by omega), List.getD_append _ _ _ _ (by omega),
      List.getD_append _ _ _ _ (by omega)]
    simp only [List.getD_eq_getElem?_getD, List.getElem?_append, List.length_take,
      List.getElem?_take, List.getElem?_replicate, if_pos hlt]
    split_ifs with h₁ h₂
    · rfl
    · simp [List.getElem?_eq_none (show img.length ≤ x by omega)]
    · simp [List.getElem?_eq_none (show img.length ≤ x by omega)]
  · rcases Nat.lt_or_ge x (off + b.length) with hlt' | hge'
    · rw [if_pos ⟨hge, hlt'⟩, List.getD_append _ _ _ _ (by omega),
        List.getD_append_right _ _ _ _ (by omega), hpre]
    · rw [if_neg (by omega), List.getD_append_right _ _ _ _ (by omega), hb]
      simp only [List.getD_eq_getElem?_getD, List.getElem?_drop]
      rw [Nat.add_sub_cancel' hge']

/-- What is packed behind `pre` is found at the offset `pre.length`. -/
theorem getD_packed {pre : List UInt8} {o : ℕ} (ho : pre.length = o) (post : List UInt8) (j : ℕ) :
    (pre ++ post).getD (o + j) 0 = post.getD j 0 := by
  rw [← ho, List.getD_append_right _ _ _ _ (Nat.le_add_right _ _), Nat.add_sub_cancel_left]

/-- A word packed there. -/
theorem word_packed {pre : List UInt8} {o : ℕ} (ho : pre.length = o) (w : UInt32)
    (post : List UInt8) :
    Bytes.word (fun j => (pre ++ (Bytes.wordBytes w ++ post)).getD j 0) o = w := by
  refine Bytes.word_eq_of_byteOf fun k hk => ?_
  rw [getD_packed ho, List.getD_append _ _ _ _ (by simpa using hk), Bytes.wordBytes_getD w hk]

/-- The entry `i` of a packed list of words. -/
theorem word_flatMap (ws : List UInt32) (post : List UInt8) {i : ℕ} (hi : i < ws.length) :
    Bytes.word (fun o => (ws.flatMap Bytes.wordBytes ++ post).getD o 0) (4 * i) = ws.getD i 0 := by
  induction ws generalizing i with
  | nil => simp at hi
  | cons w ws ih =>
      rw [List.flatMap_cons, List.append_assoc]
      cases i with
      | zero => exact word_packed (show ([] : List UInt8).length = 4 * 0 from rfl) w _
      | succ i =>
          rw [List.getD_cons_succ, ← ih (by simpa using hi)]
          refine Bytes.word_congr fun k _ => ?_
          have hoff : 4 * (i + 1) + k = 4 + (4 * i + k) := by omega
          rw [hoff, getD_packed (Bytes.wordBytes_length w)]

theorem flatMap_wordBytes_length (ws : List UInt32) :
    (ws.flatMap Bytes.wordBytes).length = 4 * ws.length := by
  induction ws with
  | nil => rfl
  | cons w ws ih =>
      rw [List.flatMap_cons, List.length_append, Bytes.wordBytes_length, ih, List.length_cons]
      omega

/-! ### The packed record -/

section Pack

variable (name : String) (itype size parent numEntries : UInt32) (dirEntries : List UInt32)
  (data : List UInt8)

/-- The inode that `pack_inode` describes. -/
def inodeOf : Inode where
  name := fun i => ((utf8 name).take (maxFilename - 1)).getD i 0
  type := itype
  size := size
  parentInode := parent
  numEntries := numEntries
  dirEntries := fun i => dirEntries.getD i 0
  data := fun i => (data.take maxFileSize).getD i 0

theorem packInode_length (h : dirEntries.length ≤ maxDirEntries) :
    (packInode name itype size parent numEntries dirEntries data).length = sizeofInode := by
  have hname : (ljust ((utf8 name).take (maxFilename - 1)) maxFilename).length = maxFilename :=
    ljust_length ((List.length_take_le _ _).trans (by decide))
  have hdata : (ljust (data.take maxFileSize) maxFileSize).length = maxFileSize :=
    ljust_length (List.length_take_le _ _)
  simp only [packInode, List.length_append, hname, hdata, Bytes.wordBytes_length,
    flatMap_wordBytes_length, List.length_replicate]
  simp only [maxDirEntries, maxFilename, maxFileSize, sizeofInode] at h ⊢
  omega

/-- **The record that `pack_inode` packs is the inode it describes.** -/
theorem ofBytes_packInode (h : dirEntries.length ≤ maxDirEntries) :
    (Inode.ofBytes fun o =>
      (packInode name itype size parent numEntries dirEntries data).getD o 0) =
      inodeOf name itype size parent numEntries dirEntries data := by
  have hname : (ljust ((utf8 name).take (maxFilename - 1)) maxFilename).length = 32 :=
    ljust_length ((List.length_take_le _ _).trans (by decide))
  have hentries : (dirEntries ++ List.replicate (maxDirEntries - dirEntries.length) 0).length =
      16 := by
    simp only [maxDirEntries] at h ⊢
    rw [List.length_append, List.length_replicate]
    omega
  -- where each of the words ends
  generalize hnameField : ljust ((utf8 name).take (maxFilename - 1)) maxFilename = f₀ at hname
  have h₁ : (f₀ ++ Bytes.wordBytes itype).length = 36 := by
    rw [List.length_append, hname, Bytes.wordBytes_length]
  have h₂ : (f₀ ++ Bytes.wordBytes itype ++ Bytes.wordBytes size).length = 40 := by
    rw [List.length_append, h₁, Bytes.wordBytes_length]
  have h₃ : (f₀ ++ Bytes.wordBytes itype ++ Bytes.wordBytes size ++
      Bytes.wordBytes parent).length = 44 := by
    rw [List.length_append, h₂, Bytes.wordBytes_length]
  have h₄ : (f₀ ++ Bytes.wordBytes itype ++ Bytes.wordBytes size ++
      Bytes.wordBytes parent ++ Bytes.wordBytes numEntries).length = 48 := by
    rw [List.length_append, h₃, Bytes.wordBytes_length]
  have h₅ : (f₀ ++ Bytes.wordBytes itype ++ Bytes.wordBytes size ++
      Bytes.wordBytes parent ++ Bytes.wordBytes numEntries ++
        (dirEntries ++ List.replicate (maxDirEntries - dirEntries.length) 0).flatMap
          Bytes.wordBytes).length = 112 := by
    rw [List.length_append, h₄, flatMap_wordBytes_length, hentries]
  apply Inode.ext
  all_goals simp only [Inode.ofBytes, packInode, inodeOf, hnameField, ← List.append_assoc]
  · funext i
    have hi : i.val < f₀.length := by rw [hname]; exact i.isLt
    simp only [List.append_assoc]
    rw [List.getD_append _ _ _ _ hi, ← hnameField, ljust_getD]
  · simp only [List.append_assoc]
    exact word_packed hname _ _
  · rw [List.append_assoc, List.append_assoc, List.append_assoc, List.append_assoc]
    exact word_packed h₁ _ _
  · rw [List.append_assoc, List.append_assoc, List.append_assoc]
    exact word_packed h₂ _ _
  · rw [List.append_assoc, List.append_assoc]
    exact word_packed h₃ _ _
  · funext i
    have hi : i.val < (dirEntries ++ List.replicate (maxDirEntries - dirEntries.length)
        (0 : UInt32)).length := by rw [hentries]; exact i.isLt
    rw [← getD_append_replicate dirEntries (maxDirEntries - dirEntries.length) 0,
      ← word_flatMap _ (ljust (data.take maxFileSize) maxFileSize) hi]
    refine Bytes.word_congr fun k _ => ?_
    rw [List.append_assoc, Nat.add_assoc, getD_packed h₄]
  · funext i
    rw [getD_packed h₅, ljust_getD]

end Pack

/-! ### The table on the image -/

/-- The inode table on an image, byte by byte. -/
theorem diskTable_imageDisk (img : List UInt8) (i : Fin maxInodes) :
    diskTable (imageDisk img) i = Inode.ofBytes fun o => img.getD (i * 8704 + o) 0 := by
  refine Inode.ofBytes_congr fun o _ => ?_
  have hlt : o % sectorSize < sectorSize := Nat.mod_lt _ (by decide)
  have hoff : (inodeTableSector + i * Anaga.inodeSectors + o / sectorSize) * sectorSize +
      o % sectorSize = i * 8704 + o := by
    have hs : Anaga.inodeSectors = 17 := rfl
    simp only [hs, inodeTableSector, sectorSize]
    omega
  rw [driveReadSector_of_lt _ _ hlt, imageDisk]
  simp only [hoff]

/-- **Writing an inode to an image changes one inode of its table.** -/
theorem diskTable_writeInode (img : List UInt8) (index : Fin maxInodes) {inodeData : List UInt8}
    (hlen : inodeData.length = sizeofInode) :
    diskTable (imageDisk (writeInode img index inodeData)) =
      Function.update (diskTable (imageDisk img)) index
        (Inode.ofBytes fun o => inodeData.getD o 0) := by
  have hoff : index.val * inodeSectors * sectorSize = index * 8704 := by
    rw [Nat.mul_assoc]
    rfl
  funext i
  simp only [sizeofInode] at hlen
  rw [Function.update_apply, diskTable_imageDisk]
  split_ifs with hi
  · refine Inode.ofBytes_congr fun o ho => ?_
    simp only [sizeofInode] at ho
    rw [writeInode, writeAt_getD, hoff, hi, if_pos (by omega), Nat.add_sub_cancel_left]
  · rw [diskTable_imageDisk]
    refine Inode.ofBytes_congr fun o ho => ?_
    simp only [sizeofInode] at ho
    have hne : i.val ≠ index.val := fun h => hi (Fin.ext h)
    rw [writeInode, writeAt_getD, hoff, if_neg (by omega)]

/-- The root directory that the script writes. -/
def rootInode : Inode := inodeOf "" inodeDir 0 0 1 [1] []

/-- The file that the script writes, for the given name and content. -/
def fileInode (vfsPath : String) (content : List UInt8) : Inode :=
  inodeOf vfsPath inodeFile (UInt32.ofNat (content.take maxFileSize).length) 0 0 []
    (content.take maxFileSize)

/-- **The table on an image after the script has run.** -/
theorem diskTable_main {argv : List String} {hostFiles : String → Option (List UInt8)}
    {img : List UInt8} {prog diskImg hostFile vfsPath : String} {rest : List String}
    (hargv : argv = prog :: diskImg :: hostFile :: vfsPath :: rest) {content : List UInt8}
    (hfile : hostFiles hostFile = some content) :
    diskTable (imageDisk (main argv hostFiles img).2) =
      Function.update (Function.update (diskTable (imageDisk img)) 0 rootInode) 1
        (fileInode vfsPath content) := by
  have htake : (if maxFileSize < content.length then content.take maxFileSize else content) =
      content.take maxFileSize := by
    split_ifs with h
    · rfl
    · rw [List.take_of_length_le (not_lt.1 h)]
  have himg : (main argv hostFiles img).2 =
      writeInode (writeInode img 0 (packInode "" inodeDir 0 0 1 [1] [])) 1
        (packInode vfsPath inodeFile (UInt32.ofNat (content.take maxFileSize).length) 0 0 []
          (content.take maxFileSize)) := by
    simp only [main, hargv, hfile, htake]
  have h1 : [(1 : UInt32)].length ≤ maxDirEntries := by decide
  have h0 : ([] : List UInt32).length ≤ maxDirEntries := by decide
  have hroot : diskTable (imageDisk (writeInode img 0 (packInode "" inodeDir 0 0 1 [1] []))) =
      Function.update (diskTable (imageDisk img)) 0 rootInode := by
    rw [rootInode, ← ofBytes_packInode _ _ _ _ _ _ _ h1]
    exact diskTable_writeInode img 0 (packInode_length _ _ _ _ _ _ _ h1)
  rw [himg, ← hroot, fileInode, ← ofBytes_packInode _ _ _ _ _ _ _ h0]
  exact diskTable_writeInode _ 1 (packInode_length _ _ _ _ _ _ _ h0)

/-- The script leaves the image alone when it is called with too few arguments or for a file that
does not exist. -/
theorem main_eq_or (argv : List String) (hostFiles : String → Option (List UInt8))
    (img : List UInt8) :
    (main argv hostFiles img).2 = img ∨
      ∃ prog diskImg hostFile vfsPath rest content,
        argv = prog :: diskImg :: hostFile :: vfsPath :: rest ∧
          hostFiles hostFile = some content := by
  match argv with
  | [] => exact Or.inl rfl
  | [_] => exact Or.inl rfl
  | [_, _] => exact Or.inl rfl
  | [_, _, _] => exact Or.inl rfl
  | prog :: diskImg :: hostFile :: vfsPath :: rest =>
      cases hfile : hostFiles hostFile with
      | none => exact Or.inl (by simp only [main, hfile])
      | some content =>
          exact Or.inr ⟨prog, diskImg, hostFile, vfsPath, rest, content, rfl, hfile⟩

/-- The table on an image of zeros. -/
theorem diskTable_replicate_zero (n : ℕ) :
    diskTable (imageDisk (List.replicate n 0)) = fun _ => Inode.zero := by
  funext i
  rw [diskTable_imageDisk, ← Inode.ofBytes_zero]
  refine Inode.ofBytes_congr fun o _ => ?_
  simp only [List.getD_eq_getElem?_getD, List.getElem?_replicate]
  split_ifs <;> rfl

end Mkfs

end Anaga
