/-
**What the file system is for.**

A volume is a tree of named files, of which there is a copy on the disk, with a place in it where
the user is.  This module says what the calls of `fs/vfs.h` do to a volume and what they answer,
without inodes, sectors, descriptors or parent pointers, and shows that the kernel does and answers
the same in every run: a state of the kernel shows a volume if the inode table in memory and the one
on disk unfold to its two trees, and every call keeps it so.

What a read behind the end of a file answers is left open.

Main definitions:

* `Anaga.Volume`, `Anaga.Volume.exec` — a volume, and what a call does to it;
* `Anaga.HoldsFiles` — a table holds a tree of files;
* `Anaga.Kernel.Shows` — a state of the kernel shows a volume.

Main results:

* `Anaga.HoldsFiles.created`, `Anaga.HoldsFiles.write` — what the two changes of a table are in the
  tree;
* `Anaga.Kernel.Shows.exec` — **every call does and answers what it does to the volume**;
* `Anaga.run_shows` — **and so does every run from a formatted disk**.
-/

import Anaga.Constructors
import Anaga.Hierarchy
import Anaga.Persistence
import Anaga.Reading

set_option relaxedAutoImplicit false
set_option autoImplicit false

namespace Anaga

open Transition

/-! ### Volumes -/

/-- A tree of files: names and contents are bytes. -/
abbrev Files := Hierarchy (List UInt8) (List UInt8)

/-- The files in memory and on disk, the address of the current directory, and what has been
printed. -/
structure Volume where
  live : Files
  saved : Files
  cwd : List ℕ
  text : List UInt8

/-- What a call returns, and the bytes that its caller gets. -/
structure Reply where
  ret : ℤ
  data : List UInt8

namespace Volume

variable (v : Volume)

/-- The names in the current directory. -/
def names : List (List UInt8) :=
  match v.live.view v.cwd with
  | some (.node names) => names
  | _ => []

/-- The address of the first entry of a name. -/
def find (name : List UInt8) : Option (List ℕ) :=
  (v.names.findIdx? fun n => n = name).map fun j => v.cwd ++ [j]

/-- There is room for another node in the volume and in the current directory, and the name is
new. -/
def Admits (name : List UInt8) : Prop :=
  v.live.size < maxInodes ∧ v.names.length < maxDirEntries ∧ v.find name = none

instance (name : List UInt8) : Decidable (v.Admits name) := inferInstanceAs (Decidable (_ ∧ _ ∧ _))

/-- The files with a new entry in the current directory, whose name is cut. -/
def enter (name : List UInt8) (x : Files) : Files :=
  v.live.append v.cwd (name.take (maxFilename - 1)) x

/-- Text is printed. -/
def puts (s : List UInt8) : Volume := { v with text := v.text ++ s }

/-- The files are changed, in memory and on disk. -/
def store (live : Files) : Volume := { v with live := live, saved := live }

/-- A call that fails with a message. -/
def fail (msg : String) : Option Reply × Volume := (some ⟨-1, []⟩, v.puts (utf8 msg))

/-- A call that returns 0. -/
def done : Option Reply × Volume := (some ⟨0, []⟩, v)

/-- Making a directory returns its number. -/
def mkdir (name : List UInt8) : Option Reply × Volume :=
  if maxInodes ≤ v.live.size then v.fail "No free inodes\n"
  else if maxDirEntries ≤ v.names.length then v.fail "Directory full\n"
  else if (v.find name).isSome then v.fail "Already exists\n"
  else (some ⟨v.live.size, []⟩, v.store (v.enter name (.node [])))

/-- Making an empty file. -/
def touch (name : List UInt8) : Option Reply × Volume :=
  if v.Admits name then (v.store (v.enter name (.leaf []))).done else v.fail "Cannot create file\n"

/-- What is in a file after something has been written over its beginning. -/
def overwrite (old content : List UInt8) : List UInt8 :=
  content.take maxFileSize ++ old.drop content.length

/-- Writing into the file at an address of the tree.  What does not fit is left out, and then the
files on disk stay as they are. -/
def put (live : Files) (p : List ℕ) (content : List UInt8) : Option Reply × Volume :=
  match live.view p with
  | some (.leaf old) =>
      let live := live.replace p (.leaf (overwrite old content))
      if maxFileSize < content.length then { v with live := live }.fail "Write incomplete\n"
      else (v.store live).done
  | _ => v.fail "Cannot open\n"

/-- Writing a file, which is made first if there is none. -/
def writeFile (name content : List UInt8) : Option Reply × Volume :=
  match v.find name with
  | some p => v.put v.live p content
  | none =>
      if v.Admits name then
        v.put (v.enter name (.leaf [])) (v.cwd ++ [v.names.length]) content
      else v.fail "Cannot create\n"

/-- Going to another directory. -/
def cd (path : List UInt8) : Option Reply × Volume :=
  if path = dotDot.bytes then { v with cwd := v.cwd.dropLast }.done
  else if path = slash.bytes then { v with cwd := [] }.done
  else
    match v.find path with
    | none => v.fail "Not found\n"
    | some p =>
        match v.live.view p with
        | some (.node _) => { v with cwd := p }.done
        | _ => v.fail "Not a directory\n"

/-- Listing the current directory. -/
def ls : Option Reply × Volume :=
  (v.puts (if v.names = [] then utf8 "(empty)\n" else v.names.flatMap fun n => n ++ utf8 "\n")).done

/-- Printing the names on the way to the current directory. -/
def pwd : Option Reply × Volume :=
  (v.puts (utf8 "/" ++ (v.live.namesTo v.cwd).flatMap fun n => utf8 "/" ++ n)).done

/-- What is printed of a file: the part in front of the first NUL, and a newline if the file does
not end with one. -/
def shown (bytes : List UInt8) : List UInt8 :=
  if bytes = [] then []
  else cstr (bytes ++ [0]) ++ if bytes.getLast? = some 10 then [] else utf8 "\n"

/-- Printing a file. -/
def cat (name : List UInt8) : Option Reply × Volume :=
  match v.find name with
  | none => v.fail "File not found\n"
  | some p =>
      match v.live.view p with
      | some (.leaf bytes) => (some ⟨0, bytes⟩, v.puts (shown bytes))
      | _ => v.fail "Is a directory\n"

/-- Reading a part of a file that does not begin behind its end. -/
def readAt (name : List UInt8) (size offset : UInt32) : Option Reply × Volume :=
  match v.find name with
  | none => (some ⟨-1, []⟩, v)
  | some p =>
      match v.live.view p with
      | some (.leaf bytes) =>
          if offset.toNat ≤ bytes.length ∧ offset.toNat + size.toNat < 2 ^ 32 then
            let data := (bytes.drop offset.toNat).take size.toNat
            (some ⟨data.length, data⟩, v)
          else (none, v)
      | _ => (some ⟨-1, []⟩, v)

/-- Starting again with the files on disk. -/
def init : Option Reply × Volume := { v with live := v.saved, cwd := [] }.done

/-- **What a call does to a volume, and what it answers.** -/
def exec (v : Volume) : Op → Option Reply × Volume
  | .mkdir name => v.mkdir name.bytes
  | .touch name => v.touch name.bytes
  | .writeFile name content => v.writeFile name.bytes content.bytes
  | .cd path => v.cd path.bytes
  | .ls => v.ls
  | .pwd => v.pwd
  | .cat name => v.cat name.bytes
  | .read name size => v.readAt name.bytes size 0
  | .readAt name size offset => v.readAt name.bytes size offset
  | .init => v.init

/-- The volume after a call. -/
def step (v : Volume) (o : Op) : Volume := (v.exec o).2

end Volume

/-! ### Tables of inodes -/

/-- The table is sound and unfolds to the files; its first inodes are used, one for each node; and
the top has no name. -/
structure HoldsFiles (t : InodeTable) (h : Files) : Prop where
  sound : SoundTable t
  unfolds : (tree t).Unfolds (fun i => contents (t i)) 0 h
  free_iff : ∀ i, (t i).type = inodeFree ↔ h.size ≤ i.val
  top : (t 0).fileName = []

section HoldsFiles

variable {t t' : InodeTable} {h : Files} {d idx : Fin maxInodes} {p : List ℕ} {name : CString}
  {type : UInt32}

/-- A directory has as many children as entries. -/
theorem SoundTable.length_children (ht : SoundTable t) (hd : (t d).type = inodeDir) :
    ((tree t).children d).length = (t d).numEntries.toNat := by
  have hall : ∀ {l : List UInt32}, (∀ e ∈ l, e.toNat < maxInodes) →
      (l.filterMap toIndex).length = l.length := by
    intro l hl
    induction l with
    | nil => rfl
    | cons e l ih =>
        rw [List.filterMap_cons, toIndex_of_lt (hl e List.mem_cons_self)]
        exact congrArg (· + 1) (ih fun e' he' => hl e' (List.mem_cons_of_mem e he'))
  have hle := ht.numEntries_le d hd
  change ((usedSlots (t d)).filterMap toIndex).length = _
  rw [hall (ht.slots_lt d hd), usedSlots, List.length_take, List.length_ofFn, Nat.min_eq_left hle]

theorem HoldsFiles.size_pos (ht : HoldsFiles t h) : 0 < h.size := by
  rw [Nat.pos_iff_ne_zero]
  intro h0
  have hfree := (ht.free_iff 0).2 (by rw [h0]; exact Nat.zero_le _)
  rw [ht.sound.groundedTable.root_dir] at hfree
  exact inodeDir_ne_free hfree

/-- **The next inode that is handed out has the number of the nodes there are.** -/
theorem HoldsFiles.findFreeInode_eq (ht : HoldsFiles t h) :
    findFreeInode t = if hs : h.size < maxInodes then some ⟨h.size, hs⟩ else none := by
  split_ifs with hs
  · cases hfree : findFreeInode t with
    | none =>
        exact absurd ((ht.free_iff ⟨h.size, hs⟩).2 le_rfl) (findFreeInode_eq_none_iff.1 hfree _)
    | some idx =>
        have hle : h.size ≤ idx.val := (ht.free_iff idx).1 (type_of_findFreeInode hfree)
        have hge : ¬ h.size < idx.val := fun hlt =>
          lt_findFreeInode hfree ⟨h.size, hs⟩ hlt ((ht.free_iff _).2 le_rfl)
        exact congrArg some (Fin.ext (le_antisymm (not_lt.1 hge) hle))
  · refine findFreeInode_eq_none_iff.2 fun i hi => hs ?_
    exact ((ht.free_iff i).1 hi).trans_lt i.isLt

/-- **A new inode is a new entry in the tree.** -/
theorem HoldsFiles.link (ht : HoldsFiles t h) (hd : (t d).type = inodeDir)
    (hp : (tree t).walk 0 p = some d) (hidx : idx.val = h.size)
    (hroom : (t d).numEntries.toNat < maxDirEntries) {node : Inode} (hnode : NewNode node d)
    {x : Files}
    (hx : node.type = inodeDir ∧ x = .node [] ∨ node.type = inodeFile ∧ x = .leaf (contents node)) :
    HoldsFiles (linkInode t d idx node) (h.append p node.fileName x) := by
  have hfree : (t idx).type = inodeFree := (ht.free_iff idx).2 hidx.ge
  have hne : d ≠ idx := by
    rintro rfl
    exact inodeDir_ne_free (hd ▸ hfree)
  have hdir : (tree t).kind d = .dir := by simpa using hd
  have hempty : x.entries = [] := by
    rcases hx with ⟨-, rfl⟩ | ⟨-, rfl⟩ <;> rfl
  have hsize : (h.append p node.fileName x).size = h.size + 1 := by
    rw [Hierarchy.size_append (ht.unfolds.view_dir hp hdir)]
    rcases hx with ⟨-, rfl⟩ | ⟨-, rfl⟩ <;> rfl
  refine ⟨ht.sound.linkInode hd hfree hroom hnode, ?_, fun i => ?_, ?_⟩
  · rw [tree_linkInode hne hroom hnode]
    refine ht.unfolds.addChild ht.sound.wellFormed hdir (by simpa using hfree) hp (fun i hi => ?_)
      hempty ?_
    · rw [contents, contents, (linkInode_old hi).2.2.1, (linkInode_old hi).2.2.2.2]
    · rw [NamedTree.outline, NamedTree.addChild_kind, if_pos rfl, NamedTree.addChild_children,
        if_neg hne.symm, if_pos rfl, linkInode_new hne]
      rcases hx with ⟨htype, rfl⟩ | ⟨htype, rfl⟩
      · rw [htype]
        rfl
      · rw [htype]
        rfl
  · rw [hsize]
    by_cases hi : i = idx
    · rw [hi, linkInode_new hne, hidx]
      exact iff_of_false hnode.type_ne_free (by omega)
    · have hval : i.val ≠ h.size := fun he => hi (Fin.ext (he.trans hidx.symm))
      rw [(linkInode_old hi).1, ht.free_iff i]
      omega
  · have h0 : (0 : Fin maxInodes) ≠ idx := by
      rintro rfl
      exact absurd ht.size_pos (hidx ▸ Nat.lt_irrefl 0)
    rw [Inode.fileName, Inode.nameRegion, (linkInode_old h0).2.1]
    exact ht.top

/-- **Creating an inode is a new entry in the tree.** -/
theorem HoldsFiles.created (ht : HoldsFiles t h) (hd : (t d).type = inodeDir)
    (hp : (tree t).walk 0 p = some d) {x : Files}
    (hx : type = inodeDir ∧ x = .node [] ∨ type = inodeFile ∧ x = .leaf [])
    (hc : created t d name type = some (idx, t')) :
    idx.val = h.size ∧ HoldsFiles t' (h.append p (name.bytes.take 31) x) := by
  obtain ⟨hfind, hroom, -, rfl⟩ := created_eq_some_iff.1 hc
  have hidx : idx.val = h.size := by
    rw [ht.findFreeInode_eq] at hfind
    split_ifs at hfind
    exact congrArg Fin.val (Option.some.inj hfind).symm
  rw [← freshInode_fileName name type d]
  exact ⟨hidx, ht.link hd hp hidx hroom (newNode_freshInode name d (by tauto)) hx⟩

/-- The bytes of a file after a write. -/
theorem contents_overwrite {n : Inode} (hn : n.size.toNat ≤ maxFileSize) (content : CString) :
    contents (written n content) = Volume.overwrite (contents n) content.bytes := by
  have hlength : (contents n).length = n.size.toNat := by
    rw [contents, List.length_take, List.length_ofFn, Nat.min_eq_left hn]
  have hlen : (Volume.overwrite (contents n) content.bytes).length =
      max n.size.toNat (fitting content) := by
    rw [Volume.overwrite, List.length_append, List.length_take, List.length_drop, hlength, fitting]
    omega
  refine contents_eq ((written_size n content).trans hlen.symm) ?_ fun i hi => ?_
  · rw [hlen]
    exact max_le hn (Nat.min_le_right _ _)
  · have hi' : i.val < maxFileSize := i.isLt
    rw [hlen, fitting] at hi
    change (if i.val < content.bytes.length then content.bytes.getD i 0 else n.data i) = _
    simp only [Volume.overwrite, List.getD_eq_getElem?_getD]
    split_ifs with hin
    · have htake : i.val < (content.bytes.take maxFileSize).length := by
        rw [List.length_take]
        exact lt_min hi' hin
      rw [List.getElem?_append_left htake, List.getElem?_take_of_lt hi']
    · -- the content ends before the byte, so all of it has been written
      have hfits : (content.bytes.take maxFileSize).length = content.bytes.length := by
        rw [List.length_take]
        omega
      have hold : i.val < n.size.toNat := by omega
      have hge : (content.bytes.take maxFileSize).length ≤ i.val := by omega
      rw [List.getElem?_append_right hge, hfits, List.getElem?_drop,
        Nat.add_sub_cancel' (not_lt.1 hin), contents, List.getElem?_take_of_lt hold,
        List.getElem?_ofFn, dif_pos hi']
      rfl

/-- **Writing a file is another leaf in the tree.** -/
theorem HoldsFiles.write (ht : HoldsFiles t h) (hfile : (t idx).type = inodeFile)
    (hp : (tree t).walk 0 p = some idx) (content : CString) :
    HoldsFiles (writeTable t idx content)
      (h.replace p (.leaf (Volume.overwrite (contents (t idx)) content.bytes))) := by
  have hleaf : (tree t).kind idx = .leaf := by
    rw [tree_kind, hfile]
    rfl
  have hndir : (tree t).kind idx ≠ .dir := by
    rw [hleaf]
    exact NodeKind.noConfusion
  have hcontents : (fun i => contents (writeTable t idx content i)) =
      Function.update (fun i => contents (t i)) idx
        (Volume.overwrite (contents (t idx)) content.bytes) := by
    funext i
    rw [Function.update_apply]
    split_ifs with hi
    · rw [hi, writeTable_self, contents_overwrite (ht.sound.file idx hfile).2]
    · rw [writeTable_of_ne _ _ _ hi]
  refine ⟨ht.sound.write hfile content, ?_, fun i => ?_, ?_⟩
  · rw [tree_write, hcontents]
    exact ht.unfolds.update ht.sound.wellFormed hleaf hp _
  · rw [(write_old t idx content i).2.1, Hierarchy.size_replace (ht.unfolds.view_leaf hp hndir)]
    exact ht.free_iff i
  · rw [Inode.fileName, Inode.nameRegion, (write_old t idx content 0).1]
    exact ht.top

end HoldsFiles

/-! ### States of the kernel -/

/-- **The state shows the volume**: the tables in memory and on disk hold its files, the current
directory is at its address, no descriptor is open, and the same text has been printed. -/
structure Kernel.Shows (k : Kernel) (v : Volume) : Prop where
  live : HoldsFiles k.inodeArray v.live
  saved : HoldsFiles (diskTable k.disk) v.saved
  cwd : ∃ d, Cwd k d ∧ (tree k.inodeArray).walk 0 v.cwd = some d
  closed : AllClosed k.fdTable
  text : k.console = v.text

/-- The call has answered what was expected, where something was expected, and shows what is left
of the volume. -/
structure Result.Answers (r : Result) (a : Option Reply × Volume) : Prop where
  reply : ∀ reply, a.1 = some reply → r.ret = reply.ret ∧ r.buffer = reply.data
  shows : r.kernel.Shows a.2

section Shows

variable {k k' : Kernel} {v v' : Volume} {d idx : Fin maxInodes} {p : List ℕ} {name : CString}

theorem Kernel.Shows.puts (h : k.Shows v) (s : List UInt8) : (k.puts s).Shows (v.puts s) := by
  obtain ⟨d, hd, hp⟩ := h.cwd
  refine ⟨h.live, h.saved, ⟨d, ⟨hd.val, hd.dir⟩, hp⟩, h.closed, ?_⟩
  change k.console ++ s = v.text ++ s
  rw [h.text]

theorem Kernel.Shows.fail (h : k.Shows v) (msg : String) : (k.fail msg).Answers (v.fail msg) where
  reply := by
    intro reply hreply
    obtain rfl := Option.some.inj hreply
    exact ⟨rfl, rfl⟩
  shows := h.puts (utf8 msg)

theorem Kernel.Shows.done (h : k.Shows v) : (⟨0, none, k⟩ : Result).Answers v.done where
  reply := by
    intro reply hreply
    obtain rfl := Option.some.inj hreply
    exact ⟨rfl, rfl⟩
  shows := h

/-- What only uses a descriptor. -/
theorem Kernel.Shows.usedFd (h : k.Shows v) (fd : Fin maxOpenFiles) (idx : Fin maxInodes)
    (pos : UInt32) : { k with fdTable := Anaga.usedFd k.fdTable fd idx pos }.Shows v := by
  obtain ⟨d, hd, hp⟩ := h.cwd
  exact ⟨h.live, h.saved, ⟨d, ⟨hd.val, hd.dir⟩, hp⟩, h.closed.usedFd fd idx pos, h.text⟩

/-! ### Looking -/

/-- What is at an address that leads to a used inode. -/
theorem Kernel.Shows.view_of_walk (h : k.Shows v)
    (hwalk : (tree k.inodeArray).walk 0 p = some idx) :
    ((k.inodeArray idx).type = inodeDir ∧ ∃ names, v.live.view p = some (.node names)) ∨
      ((k.inodeArray idx).type = inodeFile ∧
        v.live.view p = some (.leaf (contents (k.inodeArray idx)))) := by
  rcases h.live.sound.type_cases idx with htype | htype | htype
  · exact absurd (by simpa using htype) (NamedTree.walk_used h.live.sound.wellFormed hwalk)
  · refine Or.inr ⟨htype, h.live.unfolds.view_leaf hwalk ?_⟩
    rw [tree_kind, htype]
    exact NodeKind.noConfusion
  · exact Or.inl ⟨htype, _, h.live.unfolds.view_dir hwalk (by simpa using htype)⟩

section Look

variable (h : k.Shows v) (hd : Cwd k d) (hp : (tree k.inodeArray).walk 0 v.cwd = some d)

include h hd hp

theorem Kernel.Shows.view_cwd :
    v.live.view v.cwd =
      some (.node (((tree k.inodeArray).children d).map (tree k.inodeArray).name)) :=
  h.live.unfolds.view_dir hp (by simpa using hd.dir)

theorem Kernel.Shows.names_eq :
    v.names = ((tree k.inodeArray).children d).map (tree k.inodeArray).name := by
  rw [Volume.names, h.view_cwd hd hp]

theorem Kernel.Shows.length_names : v.names.length = (k.inodeArray d).numEntries.toNat := by
  rw [h.names_eq hd hp, List.length_map, h.live.sound.length_children hd.dir]

/-- **A name means what is at its address.** -/
theorem Kernel.Shows.lookup_eq (name : List UInt8) :
    (tree k.inodeArray).lookup d name =
      (v.find name).bind ((tree k.inodeArray).walk 0) := by
  rw [NamedTree.lookup_eq_walk hp (by simpa using hd.dir), Volume.find, h.names_eq hd hp,
    Option.bind_map]
  rfl

/-- The address of a name leads somewhere. -/
theorem Kernel.Shows.find_cases (name : List UInt8) :
    (v.find name = none ∧ (tree k.inodeArray).lookup d name = none) ∨
      ∃ p idx, v.find name = some p ∧ (tree k.inodeArray).walk 0 p = some idx ∧
        (tree k.inodeArray).lookup d name = some idx := by
  have hlookup := h.lookup_eq hd hp name
  cases hfind : v.find name with
  | none =>
      rw [hfind] at hlookup
      exact Or.inl ⟨rfl, hlookup⟩
  | some p =>
      rw [hfind, Option.bind_some] at hlookup
      obtain ⟨j, hj, rfl⟩ := Option.map_eq_some_iff.1 hfind
      obtain ⟨hlt, -⟩ := List.findIdx?_eq_some_iff_getElem.1 hj
      rw [h.names_eq hd hp, List.length_map] at hlt
      have hwalk : (tree k.inodeArray).walk 0 (v.cwd ++ [j]) =
          some ((tree k.inodeArray).children d)[j] :=
        NamedTree.walk_concat_eq_some.2
          ⟨d, hp, by simpa using hd.dir, List.getElem?_eq_getElem hlt⟩
      exact Or.inr ⟨_, _, rfl, hwalk, hlookup.trans hwalk⟩

/-- **An inode can be created exactly if the volume admits the name.** -/
theorem Kernel.Shows.created_isSome_iff (name : CString) (type : UInt32) :
    (created k.inodeArray d name type).isSome ↔ v.Admits name.bytes := by
  have hfree : (∃ i, (k.inodeArray i).type = inodeFree) ↔ v.live.size < maxInodes := by
    constructor
    · rintro ⟨i, hi⟩
      exact ((h.live.free_iff i).1 hi).trans_lt i.isLt
    · exact fun hs => ⟨⟨v.live.size, hs⟩, (h.live.free_iff _).2 le_rfl⟩
  have hfind : (tree k.inodeArray).lookup d name.bytes = none ↔ v.find name.bytes = none := by
    rcases h.find_cases hd hp name.bytes with ⟨hf, hl⟩ | ⟨p, idx, hf, -, hl⟩
    · simp [hf, hl]
    · simp [hf, hl]
  rw [Anaga.created_isSome_iff, Anaga.Creatable, Volume.Admits, hfree, hfind, h.length_names hd hp]

end Look

/-! ### Creating -/

section Create

variable {t : InodeTable} {type : UInt32}

/-- A new inode that was synced is in both trees. -/
theorem Kernel.Shows.created (h : k.Shows v) (hd : Cwd k d)
    (hp : (tree k.inodeArray).walk 0 v.cwd = some d) {x : Files}
    (hx : type = inodeDir ∧ x = .node [] ∨ type = inodeFile ∧ x = .leaf [])
    (hc : Anaga.created k.inodeArray d name type = some (idx, t)) :
    idx.val = v.live.size ∧
      { k with inodeArray := t, disk := vfsSync t k.disk }.Shows
        (v.store (v.enter name.bytes x)) := by
  have hf := Fresh.of_created hd.dir hc
  have htype : type = inodeFile ∨ type = inodeDir := by tauto
  obtain ⟨hidx, hholds⟩ := h.live.created hd.dir hp hx hc
  have hwalk : (tree t).walk 0 v.cwd = some d := by
    rw [hf.tree_eq htype, NamedTree.walk_addChild h.live.sound.wellFormed
      (by simpa using hd.dir) (by simpa using hf.free) hp, if_neg (by simp), hp]
  refine ⟨hidx, hholds, ?_, ⟨d, ⟨hd.val, hf.dir hd.dir⟩, hwalk⟩, h.closed, h.text⟩
  rw [diskTable_vfsSync]
  exact hholds

theorem Kernel.Shows.mkdir (h : k.Shows v) (name : CString) :
    ∃ r, vfsMkdir k name = .ok r ∧ r.Answers (v.mkdir name.bytes) := by
  obtain ⟨d, hd, hp⟩ := h.cwd
  have hlen := h.length_names hd hp
  rw [Volume.mkdir]
  by_cases hsize : maxInodes ≤ v.live.size
  · refine ⟨k.fail "No free inodes\n", ?_, ?_⟩
    · rw [vfsMkdir, h.live.findFreeInode_eq, dif_neg (not_lt.2 hsize)]
    · rw [if_pos hsize]
      exact h.fail _
  have hfree : findFreeInode k.inodeArray = some ⟨v.live.size, not_le.1 hsize⟩ := by
    rw [h.live.findFreeInode_eq, dif_pos (not_le.1 hsize)]
  rw [if_neg hsize]
  by_cases hfull : maxDirEntries ≤ v.names.length
  · refine ⟨k.fail "Directory full\n", ?_, ?_⟩
    · simp only [vfsMkdir, hfree, hd.inodeAt, ok_bind, if_pos (hlen ▸ hfull)]
    · rw [if_pos hfull]
      exact h.fail _
  rw [if_neg hfull]
  rcases h.find_cases hd hp name.bytes with ⟨hfind, hl⟩ | ⟨p, idx, hfind, -, hl⟩
  · have hadmits : v.Admits name.bytes := ⟨not_le.1 hsize, not_le.1 hfull, hfind⟩
    obtain ⟨⟨idx, t⟩, hc⟩ := Option.isSome_iff_exists.1
      ((h.created_isSome_iff hd hp name inodeDir).2 hadmits)
    obtain ⟨hidx, hshows⟩ := h.created hd hp (Or.inl ⟨rfl, rfl⟩) hc
    refine ⟨_, vfsMkdir_of_some h.live.sound hd hc, ?_⟩
    rw [hfind, Option.isSome_none, if_neg Bool.false_ne_true]
    refine ⟨fun reply hreply => ?_, hshows⟩
    obtain rfl := Option.some.inj hreply
    exact ⟨congrArg Nat.cast hidx, rfl⟩
  · refine ⟨k.fail "Already exists\n", ?_, ?_⟩
    · simp only [vfsMkdir, hfree, hd.inodeAt, ok_bind, if_neg (hlen ▸ hfull),
        hd.find h.live.sound, hl]
    · rw [hfind, Option.isSome_some, if_pos rfl]
      exact h.fail _

theorem Kernel.Shows.touch (h : k.Shows v) (name : CString) :
    ∃ r, vfsTouch k name = .ok r ∧ r.Answers (v.touch name.bytes) := by
  obtain ⟨d, hd, hp⟩ := h.cwd
  rw [Volume.touch]
  cases hc : Anaga.created k.inodeArray d name inodeFile with
  | none =>
      have hadmits : ¬ v.Admits name.bytes := by
        rw [← h.created_isSome_iff hd hp name inodeFile, hc]
        exact Bool.false_ne_true
      refine ⟨k.fail "Cannot create file\n", ?_, ?_⟩
      · rw [vfsTouch, hd.fileCreate h.live.sound, hc]
        rfl
      · rw [if_neg hadmits]
        exact h.fail _
  | some p =>
      have hadmits : v.Admits name.bytes := by
        rw [← h.created_isSome_iff hd hp name inodeFile, hc]
        rfl
      obtain ⟨-, hshows⟩ := h.created hd hp (Or.inr ⟨rfl, rfl⟩) hc
      refine ⟨_, vfsTouch_of_some h.live.sound hd hc, ?_⟩
      rw [if_pos hadmits]
      exact hshows.done

end Create

/-! ### Writing -/

section Write

variable {t : InodeTable} {live : Files}

/-- Writing into the file that has been found or made. -/
theorem Kernel.Shows.put (h : k.Shows v) (hd : Cwd k d) (ht : HoldsFiles t live)
    (hp : (tree t).walk 0 p = some idx) (hcwd : (tree t).walk 0 v.cwd = some d)
    (hdir : (t d).type = inodeDir)
    (hc : writeTarget k.inodeArray d name = some (idx, t)) (content : CString) :
    ∃ r, vfsWriteFile k name content = .ok r ∧ r.Answers (v.put live p content.bytes) := by
  have hfile := writeTarget_file hd.dir hc
  obtain ⟨fd, hfd⟩ := findFreeFd_of_allClosed h.closed
  have hview : live.view p = some (.leaf (contents (t idx))) := by
    refine ht.unfolds.view_leaf hp ?_
    rw [tree_kind, hfile]
    exact NodeKind.noConfusion
  have hholds := ht.write hfile hp content
  have hafter : ∃ d', Cwd (k.afterWrite t idx fd content) d' ∧
      (tree (writeTable t idx content)).walk 0 v.cwd = some d' := by
    refine ⟨d, ⟨hd.val, ?_⟩, ?_⟩
    · change (writeTable t idx content d).type = inodeDir
      rw [(write_old t idx content d).2.1, hdir]
    · rw [tree_write, hcwd]
  have hclosed : AllClosed (k.afterWrite t idx fd content).fdTable := h.closed.usedFd fd idx _
  rw [Volume.put, hview]
  dsimp only
  split_ifs with hlen
  · -- the disk keeps the old files
    refine ⟨_, vfsWriteFile_of_lt h.live.sound hd hfd hc hlen, Kernel.Shows.fail ?_ _⟩
    exact ⟨hholds, h.saved, hafter, hclosed, h.text⟩
  · refine ⟨_, vfsWriteFile_of_le h.live.sound hd hfd hc (not_lt.1 hlen), Kernel.Shows.done ?_⟩
    obtain ⟨d', hd', hwalk⟩ := hafter
    refine ⟨hholds, ?_, ⟨d', ⟨hd'.val, hd'.dir⟩, hwalk⟩, hclosed, h.text⟩
    rw [diskTable_vfsSync]
    exact hholds

theorem Kernel.Shows.writeFile (h : k.Shows v) (name content : CString) :
    ∃ r, vfsWriteFile k name content = .ok r ∧
      r.Answers (v.writeFile name.bytes content.bytes) := by
  obtain ⟨d, hd, hp⟩ := h.cwd
  have hsound := h.live.sound
  rw [Volume.writeFile]
  rcases h.find_cases hd hp name.bytes with ⟨hfind, hl⟩ | ⟨p, idx, hfind, hwalk, hl⟩
  · rw [hfind]
    dsimp only
    cases hc : Anaga.created k.inodeArray d name inodeFile with
    | none =>
        have hadmits : ¬ v.Admits name.bytes := by
          rw [← h.created_isSome_iff hd hp name inodeFile, hc]
          exact Bool.false_ne_true
        refine ⟨k.fail "Cannot create\n", ?_, ?_⟩
        · rw [vfsWriteFile, hd.find hsound, ok_bind]
          simp only [hl, hd.fileCreate hsound, hc, Option.elim_none, ok_bind]
        · rw [if_neg hadmits]
          exact h.fail _
    | some q =>
        have hadmits : v.Admits name.bytes := by
          rw [← h.created_isSome_iff hd hp name inodeFile, hc]
          rfl
        have hf := Fresh.of_created hd.dir hc
        obtain ⟨-, hholds⟩ := h.live.created hd.dir hp (Or.inr ⟨rfl, rfl⟩) hc
        have hgrown := NamedTree.walk_addChild (n := name.bytes.take 31) (k := kindOf inodeFile)
          hsound.wellFormed (by simpa using hd.dir) (by simpa using hf.free) hp
        rw [← hf.tree_eq (Or.inl rfl)] at hgrown
        rw [if_pos hadmits]
        refine h.put hd hholds ?_ ?_ (hf.dir hd.dir)
          (writeTarget_eq_some_iff.2 (Or.inr ⟨hl, hc⟩)) content
        · rw [hgrown, h.length_names hd hp, ← hsound.length_children hd.dir, if_pos rfl]
        · rw [hgrown, if_neg (by simp), hp]
  · rw [hfind]
    dsimp only
    rcases h.view_of_walk hwalk with ⟨hdir, names, hview⟩ | ⟨hfile, hview⟩
    · have hfile : (k.inodeArray idx).type ≠ inodeFile := by
        rw [hdir]
        exact inodeFile_ne_dir.symm
      refine ⟨k.fail "Cannot open\n", ?_, ?_⟩
      · rw [vfsWriteFile, hd.find hsound, hl, ok_bind]
        simp only [ok_bind, fileOpen_of_not_file hfile]
      · rw [Volume.put, hview]
        exact h.fail _
    · exact h.put hd h.live hwalk hp hd.dir
        (writeTarget_eq_some_iff.2 (Or.inl ⟨hl, hfile, rfl⟩)) content

end Write

/-! ### Moving -/

/-- Going where there is a directory. -/
theorem Kernel.Shows.moved (h : k.Shows v) {c : Fin maxInodes}
    (hwalk : (tree k.inodeArray).walk 0 p = some c) (hdir : (k.inodeArray c).type = inodeDir) :
    { k with currentDir := c.val }.Shows { v with cwd := p } :=
  ⟨h.live, h.saved, ⟨c, ⟨rfl, hdir⟩, hwalk⟩, h.closed, h.text⟩

/-- One step up is the address without its last number. -/
theorem Kernel.Shows.walk_dropLast (h : k.Shows v) (hd : Cwd k d)
    (hp : (tree k.inodeArray).walk 0 v.cwd = some d) :
    (tree k.inodeArray).walk 0 v.cwd.dropLast =
      some (if d = 0 then 0 else (tree k.inodeArray).parent d) := by
  have hwf := h.live.sound.wellFormed
  rcases List.eq_nil_or_concat' v.cwd with hnil | ⟨q, j, hq⟩
  · rw [hnil] at hp ⊢
    obtain rfl := Option.some.inj hp
    rfl
  · rw [hq] at hp ⊢
    obtain ⟨e, he, hdir, hmem⟩ := NamedTree.walk_concat_eq_some.1 hp
    obtain ⟨-, h0, hparent⟩ := hwf.child e d hdir (List.mem_of_getElem? hmem)
    rw [List.dropLast_concat, he, if_neg h0, hparent]

theorem Kernel.Shows.cd (h : k.Shows v) (path : CString) :
    ∃ r, vfsCd k path = .ok r ∧ r.Answers (v.cd path.bytes) := by
  obtain ⟨d, hd, hp⟩ := h.cwd
  have hsound := h.live.sound
  -- a move to the target, wherever it is
  have hmove : ∀ {q : List ℕ} {c : Fin maxInodes}, cdTarget k.inodeArray d path.bytes = some c →
      (tree k.inodeArray).walk 0 q = some c →
      ∃ r, vfsCd k path = .ok r ∧ r.Answers ({ v with cwd := q } : Volume).done :=
    fun hc hq => ⟨_, vfsCd_of_some hsound hd hc,
      (h.moved hq (cdTarget_dir hsound hd.dir hc)).done⟩
  rw [Volume.cd]
  by_cases hdot : path.bytes = dotDot.bytes
  · rw [if_pos hdot]
    exact hmove (by rw [cdTarget, if_pos hdot]) (h.walk_dropLast hd hp)
  by_cases hslash : path.bytes = slash.bytes
  · rw [if_neg hdot, if_pos hslash]
    exact hmove (by rw [cdTarget, if_neg hdot, if_pos hslash]) rfl
  rw [if_neg hdot, if_neg hslash]
  obtain ⟨r, hr, hr0⟩ := strcmp_region path dotDot
  obtain ⟨r', hr', hr0'⟩ := strcmp_region path slash
  rcases h.find_cases hd hp path.bytes with ⟨hfind, hl⟩ | ⟨p, idx, hfind, hwalk, hl⟩
  · refine ⟨k.fail "Not found\n", ?_, ?_⟩
    · rw [vfsCd, hr, ok_bind, if_neg fun he => hdot (hr0.1 he), hr', ok_bind,
        if_neg fun he => hslash (hr0'.1 he), hd.find hsound, hl, ok_bind]
    · rw [hfind]
      exact h.fail _
  · rw [hfind]
    dsimp only
    rcases h.view_of_walk hwalk with ⟨hdir, names, hview⟩ | ⟨hfile, hview⟩
    · rw [hview]
      refine hmove ?_ hwalk
      rw [cdTarget, if_neg hdot, if_neg hslash, hl]
      simp [hdir]
    · have hndir : (k.inodeArray idx).type ≠ inodeDir := by
        rw [hfile]
        exact inodeFile_ne_dir
      refine ⟨k.fail "Not a directory\n", ?_, ?_⟩
      · rw [vfsCd, hr, ok_bind, if_neg fun he => hdot (hr0.1 he), hr', ok_bind,
          if_neg fun he => hslash (hr0'.1 he), hd.find hsound, hl, ok_bind]
        exact if_pos hndir
      · rw [hview]
        exact h.fail _

/-! ### Printing -/

/-- The loop of `vfs_ls` prints the names of the entries. -/
theorem lsLoop_eq {t : InodeTable} (hterm : ∀ i, 0 ∈ (t i).nameRegion) {slots : List UInt32} {n : ℕ}
    (hn : n ≤ slots.length) (hslots : ∀ e ∈ slots.take n, e.toNat < maxInodes) :
    lsLoop t slots n =
      .ok (((slots.take n).filterMap toIndex).flatMap fun i => (t i).fileName ++ utf8 "\n") := by
  induction slots generalizing n with
  | nil =>
      obtain rfl : n = 0 := by simpa using hn
      rfl
  | cons e slots ih =>
      cases n with
      | zero => rfl
      | succ n =>
          have he : e.toNat < maxInodes := hslots e (by simp)
          have hrest := ih (n := n) (by simpa using hn)
            fun x hx => hslots x (by rw [List.take_succ_cons]; exact List.mem_cons_of_mem e hx)
          rw [lsLoop, inodeAt_of_lt t he, ok_bind, kprint_of_zero_mem (hterm _), ok_bind, hrest,
            ok_bind, List.take_succ_cons, List.filterMap_cons, toIndex_of_lt he]
          rfl

theorem Kernel.Shows.ls (h : k.Shows v) : ∃ r, vfsLs k = .ok r ∧ r.Answers v.ls := by
  obtain ⟨d, hd, hp⟩ := h.cwd
  have hsound := h.live.sound
  have hlen := h.length_names hd hp
  have hempty : (k.inodeArray d).numEntries = 0 ↔ v.names = [] := by
    rw [← List.length_eq_zero_iff, hlen, ← UInt32.toNat_inj]
    rfl
  rw [Volume.ls]
  refine ⟨⟨0, none, k.puts _⟩, ?_, (h.puts _).done⟩
  rw [vfsLs, hd.inodeAt, ok_bind]
  split_ifs with h0 hnames hnames
  · rfl
  · exact absurd (hempty.1 h0) hnames
  · exact absurd (hempty.2 hnames) h0
  · have hle : (k.inodeArray d).numEntries.toNat ≤ (List.ofFn (k.inodeArray d).dirEntries).length :=
      by rw [List.length_ofFn]; exact hsound.numEntries_le d hd.dir
    rw [lsLoop_eq hsound.terminated hle (hsound.slots_lt d hd.dir), ok_bind, h.names_eq hd hp,
      List.flatMap_map]
    rfl

theorem pwdPrint_append {t : InodeTable} {path : List (Fin maxInodes)} {printed : List UInt8}
    (h : pwdPrint t path = .ok printed) {i : Fin maxInodes} (hi : 0 ∈ (t i).nameRegion) :
    pwdPrint t (path ++ [i]) = .ok (printed ++ (utf8 "/" ++ (t i).fileName)) := by
  induction path generalizing printed with
  | nil =>
      obtain rfl := Except.ok.inj h
      rw [List.nil_append, pwdPrint, kprint_of_zero_mem hi, ok_bind, pwdPrint, ok_bind,
        List.append_nil]
      rfl
  | cons j path ih =>
      obtain ⟨name, hname, h⟩ := bind_eq_ok.1 h
      obtain ⟨more, hmore, h⟩ := bind_eq_ok.1 h
      obtain rfl := Except.ok.inj h
      rw [List.cons_append, pwdPrint, hname, ok_bind, ih hmore, ok_bind, List.append_assoc,
        List.append_assoc]
      simp only [List.append_assoc]

/-- **The climb of `vfs_pwd` goes the way back that the address describes**, and what is printed are
the names on the way. -/
theorem HoldsFiles.pwd_eq {t : InodeTable} {h : Files} (ht : HoldsFiles t h) {c : Fin maxInodes}
    (hp : (tree t).walk 0 p = some c) {room : ℕ} (hroom : p.length < room) :
    ∃ path, pwdLoop t room c = .ok path ∧
      pwdPrint t path.reverse =
        .ok (utf8 "/" ++ (h.namesTo p).flatMap fun n => utf8 "/" ++ n) := by
  induction p using List.reverseRecOn generalizing c room with
  | nil =>
      obtain ⟨room, rfl⟩ : ∃ m, room = m + 1 := ⟨room - 1, by omega⟩
      obtain rfl := Option.some.inj hp
      refine ⟨[0], rfl, ?_⟩
      have htop := ht.top
      rw [Inode.fileName] at htop
      rw [List.reverse_singleton, pwdPrint, kprint_of_zero_mem (ht.sound.terminated 0), ok_bind,
        pwdPrint, ok_bind, htop]
      rfl
  | append_singleton p j ih =>
      obtain ⟨room, rfl⟩ : ∃ m, room = m + 1 := ⟨room - 1, by omega⟩
      rw [List.length_append, List.length_singleton] at hroom
      obtain ⟨d, hd, hdir, hmem⟩ := NamedTree.walk_concat_eq_some.1 hp
      obtain ⟨hused, h0, hparent⟩ := ht.sound.wellFormed.child d c hdir (List.mem_of_getElem? hmem)
      obtain ⟨path, hpath, hprint⟩ := ih hd (show p.length < room by omega)
      have hne : c.val ≠ 0 := fun he => h0 (Fin.ext he)
      refine ⟨c :: path, ?_, ?_⟩
      · rw [pwdLoop, if_neg hne, dif_pos c.isLt]
        simp only [Fin.eta, ← ht.sound.parent_val (by simpa using hused), hparent, hpath, map_ok]
      · rw [List.reverse_cons, pwdPrint_append hprint (ht.sound.terminated c),
          ht.unfolds.namesTo_concat hd hdir hmem, List.flatMap_append, List.append_assoc]
        simp [List.flatMap_cons]

theorem Kernel.Shows.pwd (h : k.Shows v) : ∃ r, vfsPwd k = .ok r ∧ r.Answers v.pwd := by
  obtain ⟨d, hd, hp⟩ := h.cwd
  have hlt := NamedTree.length_lt_card h.live.sound.wellFormed hp
  rw [Fintype.card_fin] at hlt
  obtain ⟨path, hpath, hprint⟩ := h.live.pwd_eq hp hlt
  refine ⟨⟨0, none, k.puts _⟩, ?_, (h.puts _).done⟩
  rw [vfsPwd, hd.val, hpath, ok_bind, hprint, ok_bind]

theorem Kernel.Shows.cat (h : k.Shows v) (name : CString) :
    ∃ r, vfsCat k name = .ok r ∧ r.Answers (v.cat name.bytes) := by
  obtain ⟨d, hd, hp⟩ := h.cwd
  have hsound := h.live.sound
  rw [Volume.cat]
  rcases h.find_cases hd hp name.bytes with ⟨hfind, hl⟩ | ⟨p, idx, hfind, hwalk, hl⟩
  · refine ⟨k.fail "File not found\n", ?_, ?_⟩
    · rw [vfsCat, hd.find hsound, hl, ok_bind]
    · rw [hfind]
      exact h.fail _
  rw [hfind]
  dsimp only
  rcases h.view_of_walk hwalk with ⟨hdir, names, hview⟩ | ⟨hfile, hview⟩
  · refine ⟨k.fail "Is a directory\n", ?_, ?_⟩
    · simp only [vfsCat, hd.find hsound, hl, ok_bind, if_pos hdir]
    · rw [hview]
      exact h.fail _
  · obtain ⟨fd, hfd⟩ := findFreeFd_of_allClosed h.closed
    have hsize := (hsound.file idx hfile).2
    have hndir : (k.inodeArray idx).type ≠ inodeDir := by rw [hfile]; exact inodeFile_ne_dir
    have hwhole : fileCopy k.inodeArray idx 0 (UInt32.ofNat maxFileSize) =
        ⟨idx, 0, (k.inodeArray idx).size⟩ := fileCopy_whole hsize
    have hbuf : ∀ k₁ : Kernel, k₁.inodeArray = k.inodeArray →
        k₁.buffer ⟨idx, 0, (k.inodeArray idx).size⟩ = contents (k.inodeArray idx) := by
      intro k₁ hk₁
      rw [Kernel.buffer_start k₁ hsize, hk₁, contents]
    have hprint : ∀ l : List UInt8, kprint (l ++ [0]) = .ok (cstr (l ++ [0])) := fun l =>
      kprint_of_zero_mem (by simp)
    have hpos : 0 < asInt (k.inodeArray idx).size ↔ contents (k.inodeArray idx) ≠ [] := by
      rw [asInt_of_lt (hsize.trans_lt (by decide)), ← List.length_pos_iff, contents,
        List.length_take, List.length_ofFn, Nat.min_eq_left hsize]
      exact Nat.cast_pos
    rw [hview]
    refine ⟨⟨0, some ⟨idx, 0, (k.inodeArray idx).size⟩,
      ({ k with fdTable := Anaga.usedFd k.fdTable fd idx (0 + (k.inodeArray idx).size) } :
        Kernel).puts (Volume.shown (contents (k.inodeArray idx)))⟩, ?_, ?_, ?_⟩
    · rw [vfsCat, hd.find hsound, hl, ok_bind]
      simp only [if_neg hndir, fileOpen_of_file hfile hfd, fileRead_update, fileClose_update,
        hprint, ok_bind, hwhole, hpos, hbuf k rfl, Volume.shown]
      by_cases hempty : contents (k.inodeArray idx) = []
      · simp only [hempty, ne_eq, not_true_eq_false, if_false, if_true, Kernel.puts,
          List.append_nil]
      · simp only [hempty, ne_eq, not_false_eq_true, if_true, if_false]
    · intro reply hreply
      obtain rfl := Option.some.inj hreply
      exact ⟨rfl, hbuf _ rfl⟩
    · exact (h.usedFd fd idx _).puts _

/-! ### Reading -/

/-- **Where a read begins in the file, it copies what is there.** -/
theorem buffer_fileCopy {t : InodeTable} {offset size : UInt32}
    (hsize : (t idx).size.toNat ≤ maxFileSize)
    (hrange : offset.toNat ≤ (contents (t idx)).length ∧ offset.toNat + size.toNat < 2 ^ 32)
    {k₁ : Kernel} (hk₁ : k₁.inodeArray = t) :
    asInt (fileCopy t idx offset size).len =
        (((contents (t idx)).drop offset.toNat).take size.toNat).length ∧
      k₁.buffer (fileCopy t idx offset size) =
        ((contents (t idx)).drop offset.toNat).take size.toNat := by
  have hlength : (contents (t idx)).length = (t idx).size.toNat := by
    rw [contents, List.length_take, List.length_ofFn, Nat.min_eq_left hsize]
  rw [hlength] at hrange
  have hlen := (fileCopy_len_eq_clampedLength_iff hsize).2 hrange
  have hclamp : clampedLength (t idx) offset size =
      min size.toNat ((t idx).size.toNat - offset.toNat) := rfl
  have hnat : (fileCopy t idx offset size).len.toNat = clampedLength (t idx) offset size := by
    have hnonneg : 0 ≤ asInt (fileCopy t idx offset size).len := by
      rw [hlen]
      exact Nat.cast_nonneg _
    rw [asInt_of_lt (asInt_nonneg_iff.1 hnonneg)] at hlen
    exact Nat.cast_injective hlen
  have hpos : (fileCopy t idx offset size).pos = offset := rfl
  have hinode : (fileCopy t idx offset size).inode = idx := rfl
  constructor
  · rw [hlen, List.length_take, List.length_drop, hlength, hclamp]
  · rw [Kernel.buffer_of_le k₁ (by rw [hpos, hnat, hclamp]; omega), hpos, hinode, hk₁, hnat, hclamp,
      contents, List.drop_take, List.take_take]

theorem Kernel.Shows.readAt (h : k.Shows v) (name : CString) (size offset : UInt32) :
    ∃ r, vfsReadAt k name size offset = .ok r ∧
      r.Answers (v.readAt name.bytes size offset) := by
  obtain ⟨d, hd, hp⟩ := h.cwd
  have hsound := h.live.sound
  have hfails : (⟨-1, none, k⟩ : Result).Answers (some ⟨-1, []⟩, v) := by
    refine ⟨fun reply hreply => ?_, h⟩
    obtain rfl := Option.some.inj hreply
    exact ⟨rfl, rfl⟩
  rw [Volume.readAt]
  rcases h.find_cases hd hp name.bytes with ⟨hfind, hl⟩ | ⟨p, idx, hfind, hwalk, hl⟩
  · refine ⟨⟨-1, none, k⟩, ?_, ?_⟩
    · rw [vfsReadAt, hd.find hsound, hl, ok_bind]
    · rw [hfind]
      exact hfails
  rw [hfind]
  dsimp only
  rcases h.view_of_walk hwalk with ⟨hdir, names, hview⟩ | ⟨hfile, hview⟩
  · refine ⟨⟨-1, none, k⟩, ?_, ?_⟩
    · simp only [vfsReadAt, hd.find hsound, hl, ok_bind, if_pos hdir]
    · rw [hview]
      exact hfails
  · obtain ⟨fd, hfd⟩ := findFreeFd_of_allClosed h.closed
    refine ⟨_, vfsReadAt_of_find ((hd.find hsound name).trans (congrArg _ hl)) hfile hfd, ?_⟩
    rw [hview]
    dsimp only
    split_ifs with hrange
    · refine ⟨fun reply hreply => ?_, h.usedFd fd idx _⟩
      obtain rfl := Option.some.inj hreply
      obtain ⟨hret, hbuf⟩ := buffer_fileCopy (hsound.file idx hfile).2 hrange rfl
      exact ⟨hret, hbuf⟩
    · exact ⟨fun reply hreply => (Option.some_ne_none reply hreply.symm).elim, h.usedFd fd idx _⟩

/-- `vfs_read` is `vfs_read_at` from the beginning. -/
theorem Kernel.Shows.read_eq (h : k.Shows v) (name : CString) (size : UInt32) :
    vfsRead k name size = vfsReadAt k name size 0 := by
  obtain ⟨d, hd, hp⟩ := h.cwd
  rcases Anaga.find_cases h.live.sound hd h.closed name with
    hf | ⟨idx, hf, hdir⟩ | ⟨idx, hf, hfree⟩ | ⟨idx, fd, hf, hfile, hfd⟩
  · rw [vfsRead, vfsReadAt, hf, ok_bind, ok_bind]
  · simp only [vfsRead, vfsReadAt, hf, ok_bind, if_pos hdir]
  · simp only [vfsRead, vfsReadAt, hf, ok_bind, hfree, if_neg inodeDir_ne_free.symm,
      fileOpen_of_free hfree]
  · rw [vfsRead_of_find hf hfile hfd, vfsReadAt_of_find hf hfile hfd]

/-! ### All calls -/

theorem Kernel.Shows.init (h : k.Shows v) : (⟨0, none, vfsInit k⟩ : Result).Answers v.init := by
  have hroot := h.saved.sound.groundedTable.root_dir
  refine Kernel.Shows.done ?_
  rw [vfsInit_of_dir hroot]
  exact ⟨h.saved, h.saved, ⟨0, ⟨rfl, hroot⟩, rfl⟩, h.closed, h.text⟩

/-- **Every call does and answers what it does to the volume.** -/
theorem Kernel.Shows.exec (h : k.Shows v) (o : Op) :
    ∃ r, o.exec k = .ok r ∧ r.Answers (v.exec o) := by
  cases o with
  | mkdir name => exact h.mkdir name
  | touch name => exact h.touch name
  | writeFile name content => exact h.writeFile name content
  | cd path => exact h.cd path
  | ls => exact h.ls
  | pwd => exact h.pwd
  | cat name => exact h.cat name
  | read name size =>
      obtain ⟨r, hr, hanswers⟩ := h.readAt name size 0
      exact ⟨r, (h.read_eq name size).trans hr, hanswers⟩
  | readAt name size offset => exact h.readAt name size offset
  | init => exact ⟨_, rfl, h.init⟩

theorem Kernel.Shows.step (h : k.Shows v) (o : Op) :
    ∃ k', o.step k = .ok k' ∧ k'.Shows (v.step o) := by
  obtain ⟨r, hr, hanswers⟩ := h.exec o
  exact ⟨r.kernel, Op.step_of_exec hr, hanswers.shows⟩

theorem Kernel.Shows.run (h : k.Shows v) (ops : List Op) :
    ∃ k', Transition.run Op.step k ops = .ok k' ∧ k'.Shows (ops.foldl Volume.step v) := by
  induction ops generalizing k v with
  | nil => exact ⟨k, rfl, h⟩
  | cons o ops ih =>
      obtain ⟨k₁, hk₁, hshows⟩ := h.step o
      obtain ⟨k', hk', hshows'⟩ := ih hshows
      exact ⟨k', run_cons_eq_ok.2 ⟨k₁, hk₁, hk'⟩, hshows'⟩

end Shows

/-! ### Formatted disks -/

/-- The volume after a start with these files. -/
def Volume.start (h : Files) : Volume := ⟨h, h, [], []⟩

/-- An empty disk holds nothing. -/
theorem holdsFiles_emptyTable : HoldsFiles emptyTable (.node []) where
  sound := soundTable_emptyTable
  unfolds := by
    have hchildren : (tree emptyTable).children 0 = [] := by
      change (usedSlots (emptyTable 0)).filterMap toIndex = []
      rw [usedSlots_emptyTable]
      rfl
    intro p
    cases p with
    | nil =>
        rw [Hierarchy.view_nil, NamedTree.walk, Option.map_some, NamedTree.outline,
          if_pos wellFormed_emptyTable.root_dir, hchildren]
        rfl
    | cons j p =>
        rw [Hierarchy.view_cons, NamedTree.walk,
          NamedTree.child_of_dir wellFormed_emptyTable.root_dir, hchildren]
        rfl
  free_iff := by
    intro i
    change (emptyTable i).type = inodeFree ↔ 1 ≤ i.val
    by_cases hi : i = 0
    · rw [hi, emptyTable_zero]
      decide
    · rw [emptyTable_of_ne hi]
      exact iff_of_true rfl (Nat.one_le_iff_ne_zero.2 fun he => hi (Fin.ext he))
  top := by
    rw [Inode.fileName, nameRegion_emptyTable]
    decide

/-- The files that a table has in its top directory. -/
def topFiles (t : InodeTable) : Files :=
  .node (((tree t).children 0).map fun i => ((t i).fileName, .leaf (contents (t i))))

theorem topFiles_of_slots {t : InodeTable} {slots : List UInt32} (h : usedSlots (t 0) = slots) :
    topFiles t =
      .node ((slots.filterMap toIndex).map fun i => ((t i).fileName, .leaf (contents (t i)))) := by
  rw [← h]
  rfl

/-- A disk with an installed file holds this file. -/
theorem holdsFiles_installed (vfsPath : String) (content : List UInt8) {t : InodeTable}
    (ht : t = linkInode emptyTable 0 1 (Mkfs.fileInode vfsPath content)) :
    HoldsFiles t (topFiles t) := by
  have hroot : (emptyTable 0).type = inodeDir := congrArg Inode.type emptyTable_zero
  have hroom : (emptyTable 0).numEntries.toNat < maxDirEntries := by
    rw [emptyTable_numEntries]
    decide
  have hslots : usedSlots (t 0) = [1] := by
    rw [ht, linkInode_self, usedSlots_addEntry hroom, usedSlots_emptyTable]
    rfl
  have hfile : t 1 = Mkfs.fileInode vfsPath content := by
    rw [ht, linkInode_new (by decide)]
  have hfiles : topFiles t =
      .node [((Mkfs.fileInode vfsPath content).fileName,
        .leaf (contents (Mkfs.fileInode vfsPath content)))] := by
    rw [topFiles_of_slots hslots, ← hfile]
    rfl
  rw [hfiles, ht]
  exact holdsFiles_emptyTable.link (p := []) hroot rfl rfl hroom
    (newNode_fileInode vfsPath content) (Or.inr ⟨rfl, rfl⟩)

theorem topFiles_zero : topFiles (fun _ => Inode.zero) = .node [] := by
  have hslots : usedSlots Inode.zero = [] := rfl
  rw [topFiles_of_slots hslots]
  rfl

/-- **A start from a formatted disk shows its files.** -/
theorem Kernel.Shows.boot {disk : Disk} (h : Formatted disk) (memory : Memory) :
    (boot disk memory).Shows (.start (topFiles (diskTable disk))) := by
  have hclosed : AllClosed (powerOn disk memory).fdTable := fun _ => rfl
  rcases h.diskTable_eq with hzero | ⟨vfsPath, content, htable⟩
  · have hroot : (diskTable (powerOn disk memory).disk 0).type ≠ inodeDir := by
      change (diskTable disk 0).type ≠ inodeDir
      rw [hzero]
      exact inodeDir_ne_free.symm
    have htable : Function.update (diskTable (powerOn disk memory).disk) 0 emptyRoot =
        emptyTable := by
      change Function.update (diskTable disk) 0 emptyRoot = _
      rw [hzero]
      rfl
    rw [Anaga.boot, vfsInit_of_not_dir hroot, htable, hzero, topFiles_zero]
    refine ⟨holdsFiles_emptyTable, ?_, ⟨0, ⟨rfl, congrArg Inode.type emptyTable_zero⟩, rfl⟩,
      hclosed, rfl⟩
    rw [diskTable_vfsSync]
    exact holdsFiles_emptyTable
  · have hholds := holdsFiles_installed vfsPath content htable
    have hroot := hholds.sound.groundedTable.root_dir
    rw [Anaga.boot, vfsInit_of_dir (k := powerOn disk memory) hroot]
    exact ⟨hholds, hholds, ⟨0, ⟨rfl, hroot⟩, rfl⟩, hclosed, rfl⟩

end Anaga
