/-
**`pwd` inverts `cd`.**

`vfs_pwd` climbs from the current directory along the parent pointers, and `vfs_cd` descends along
names, always into the first entry of a name.  On a sound table the two agree for every directory
that can be the current one: it was entered through its name, and an inode that is created later
comes behind the entries that are there, so a name never changes its meaning.

Main definitions:

* `Anaga.Enterable` — the names that `vfs_cd` looks up;
* `Anaga.Anchored` — the current directory is at the end of a path of such names;
* `Anaga.Replays` — a sequence of moves, all of which succeed.

Main results:

* `Anaga.Anchored.exec` — **every call keeps the current directory anchored**;
* `Anaga.pwdLoop_of_reaches` — the climb collects the path;
* `Anaga.replays_of_reaches` — the descent along the path leads back;
* `Anaga.pwd_inverts_cd` — **both, after any sequence of commands**.
-/

import Anaga.Command
import Anaga.Growth

set_option relaxedAutoImplicit false
set_option autoImplicit false

namespace Anaga

open Transition

/-- The names that `vfs_cd` looks up in the current directory. -/
def Enterable (n : List UInt8) : Prop := n ≠ dotDot.bytes ∧ n ≠ slash.bytes

/-- The invariant, and a path of names from the root to the current directory. -/
structure Anchored (k : Kernel) : Prop where
  invariant : Invariant k
  path : ∃ d ns, Cwd k d ∧ (tree k.inodeArray).Reaches 0 Enterable d ns

section Anchored

variable {k : Kernel} {d c : Fin maxInodes}

/-- A move leads to the end of a path. -/
theorem reaches_cdTarget {t : InodeTable} (h : SoundTable t) {path : List UInt8}
    {ns : List (List UInt8)} (hr : (tree t).Reaches 0 Enterable d ns)
    (hc : cdTarget t d path = some c) : ∃ ns', (tree t).Reaches 0 Enterable c ns' := by
  unfold cdTarget at hc
  split_ifs at hc with hdot hzero hslash
  · obtain rfl : 0 = c := by simpa using hc
    exact ⟨[], NamedTree.Reaches.root⟩
  · -- the path to the parent is the path without its last name
    obtain rfl : (tree t).parent d = c := by simpa using hc
    exact hr.parent h.wellFormed hzero
  · obtain rfl : 0 = c := by simpa using hc
    exact ⟨[], NamedTree.Reaches.root⟩
  · obtain ⟨hl, hdir⟩ := Option.filter_eq_some_iff.1 hc
    refine ⟨ns ++ [path], hr.child hl ?_ ⟨hdot, hslash⟩⟩
    simpa using hdir

/-- No call but a reboot makes a path lead elsewhere. -/
theorem Invariant.reaches_exec (h : Invariant k) (hd : Cwd k d) {o : Op} (ho : o ≠ .init)
    {r : Result} (hr : o.exec k = .ok r) {ns : List (List UInt8)}
    (hreach : (tree k.inodeArray).Reaches 0 Enterable c ns) :
    (tree r.kernel.inodeArray).Reaches 0 Enterable c ns := by
  cases h.treeStep hd ho hr with
  | same hnone htree => rwa [htree]
  | grow name idx κ hname hc hfree hκ htree =>
      rw [htree]
      exact hreach.addChild h.sound.wellFormed hfree

/-- **Every call keeps the current directory anchored.** -/
theorem Anchored.exec (h : Anchored k) (o : Op) :
    ∃ r, o.exec k = .ok r ∧ Anchored r.kernel := by
  obtain ⟨hinv, d, ns, hd, hreach⟩ := h
  obtain ⟨r, hr, hinv'⟩ := hinv.exec o
  obtain ⟨d', hd'⟩ := hinv'.cwd
  refine ⟨r, hr, hinv', ?_⟩
  rcases eq_or_ne o .init with rfl | ho
  · -- a reboot starts over in the root
    have hroot : d' = 0 := by
      cases hr
      exact Fin.ext (hd'.val.symm.trans (vfsInit_currentDir k))
    exact ⟨d', [], hd', hroot ▸ NamedTree.Reaches.root⟩
  · rcases hinv.exec_currentDir hd hr with hsame | ⟨hinit, -⟩ | ⟨path, c, rfl, hc, hcur⟩
    · obtain rfl : d = d' := Fin.ext (hd.val.symm.trans (hsame.symm.trans hd'.val))
      exact ⟨d, ns, hd', hinv.reaches_exec hd ho hr hreach⟩
    · exact absurd hinit ho
    · obtain rfl : c = d' := Fin.ext (hcur.symm.trans hd'.val)
      obtain ⟨ns', hreach'⟩ := reaches_cdTarget hinv.sound hreach hc
      exact ⟨c, ns', hd', hinv.reaches_exec hd ho hr hreach'⟩

theorem Anchored.puts (h : Anchored k) (s : List UInt8) : Anchored (k.puts s) := by
  obtain ⟨hinv, d, ns, hd, hreach⟩ := h
  exact ⟨hinv.keeps ((Keeps.refl k).puts s), d, ns, ⟨hd.val, hd.dir⟩, hreach⟩

/-- Every command keeps the current directory anchored. -/
theorem Anchored.command (h : Anchored k) (c : Command) :
    ∃ k', c.step k = .ok k' ∧ Anchored k' := by
  obtain ⟨printed, hstep⟩ := c.step_eq k
  rw [hstep]
  cases c.call with
  | none => exact ⟨_, rfl, h.puts printed⟩
  | some o =>
      obtain ⟨r, hr, hr'⟩ := h.exec o
      refine ⟨_, ?_, hr'.puts printed⟩
      rw [Option.elim_some, Op.step_of_exec hr, ok_bind]

theorem Anchored.boot {disk : Disk} (h : Formatted disk) (memory : Memory) :
    Anchored (boot disk memory) := by
  have hinv := Invariant.boot h memory
  have hroot : ((Anaga.boot disk memory).inodeArray 0).type = inodeDir := by
    simpa using hinv.sound.wellFormed.root_dir
  exact ⟨hinv, 0, [], ⟨vfsInit_currentDir _, hroot⟩, NamedTree.Reaches.root⟩

end Anchored

/-! ### Climbing -/

/-- **The climb of `vfs_pwd` collects the inodes of the path**, if there is room for all of them. -/
theorem pwdLoop_of_reaches {t : InodeTable} (h : SoundTable t) {c : Fin maxInodes}
    {ns : List (List UInt8)} (hr : (tree t).Reaches 0 Enterable c ns) {room : ℕ}
    (hroom : ns.length < room) :
    ∃ path, pwdLoop t room c = .ok path ∧ path.length = ns.length + 1 ∧
      (path.reverse.tail.map fun i => (t i).fileName) = ns := by
  induction hr generalizing room with
  | root =>
      obtain ⟨room, rfl⟩ : ∃ m, room = m + 1 := ⟨room - 1, by omega⟩
      exact ⟨[0], rfl, rfl, rfl⟩
  | @child d c ns n hd hl hk hn ih =>
      obtain ⟨room, rfl⟩ : ∃ m, room = m + 1 := ⟨room - 1, by omega⟩
      rw [List.length_append, List.length_singleton] at hroom
      obtain ⟨path, hpath, hlen, hnames⟩ := ih (show ns.length < room by omega)
      have hddir : (t d).type = inodeDir := by simpa using hd.kind_eq h.wellFormed
      obtain ⟨hused, h0, hparent, hname⟩ := h.of_lookup hddir hl
      have hne : c.val ≠ 0 := fun he => h0 (Fin.ext he)
      refine ⟨c :: path, ?_, ?_, ?_⟩
      · rw [pwdLoop, if_neg hne, dif_pos c.isLt]
        simp only [Fin.eta, ← h.parent_val hused, hparent, hpath, map_ok]
      · simp [hlen]
      · have hcons : path.reverse ≠ [] := by
          intro he
          have := congrArg List.length he
          simp [hlen] at this
        rw [List.reverse_cons, List.tail_append_of_ne_nil hcons, List.map_append, hnames,
          List.map_singleton, hname]

/-! ### Descending -/

/-- A sequence of moves, all of which succeed. -/
def Replays : Kernel → List CString → Kernel → Prop
  | k, [], k' => k = k'
  | k, p :: ps, k' => ∃ r, vfsCd k p = .ok r ∧ r.ret = 0 ∧ Replays r.kernel ps k'

theorem Replays.concat {k k' : Kernel} {ps : List CString} (h : Replays k ps k') {p : CString}
    {r : Result} (hr : vfsCd k' p = .ok r) (hret : r.ret = 0) :
    Replays k (ps ++ [p]) r.kernel := by
  induction ps generalizing k with
  | nil =>
      obtain rfl : k = k' := h
      exact ⟨r, hr, hret, rfl⟩
  | cons q ps ih =>
      obtain ⟨r', hr', hret', hrest⟩ := h
      exact ⟨r', hr', hret', ih hrest⟩

/-- **The descent along a path of names ends where the path does.** -/
theorem replays_of_reaches {k : Kernel} (h : SoundTable k.inodeArray) {c : Fin maxInodes}
    {ns : List (List UInt8)} (hr : (tree k.inodeArray).Reaches 0 Enterable c ns) :
    ∀ ps : List CString, ps.map CString.bytes = ns →
      Replays { k with currentDir := 0 } ps { k with currentDir := c } := by
  induction hr with
  | root =>
      intro ps hps
      obtain rfl : ps = [] := by simpa using hps
      rfl
  | @child d c ns n hd hl hk hn ih =>
      intro ps hps
      obtain ⟨ps', p, rfl, hps', hp⟩ : ∃ ps' p, ps = ps' ++ [p] ∧ ps'.map CString.bytes = ns ∧
          p.bytes = n := by
        obtain ⟨ps', p', rfl, hps', hp⟩ := List.map_eq_append_iff.1 hps
        obtain ⟨p, rfl, hpn⟩ := List.map_eq_singleton_iff.1 hp
        exact ⟨ps', p, rfl, hps', hpn⟩
      have hddir : (k.inodeArray d).type = inodeDir := by simpa using hd.kind_eq h.wellFormed
      have hcdir : (k.inodeArray c).type = inodeDir := by simpa using hk
      have htarget : cdTarget k.inodeArray d p.bytes = some c := by
        rw [cdTarget, hp, if_neg hn.1, if_neg hn.2, hl]
        simp [hcdir]
      have hcd := vfsCd_of_some (k := { k with currentDir := d }) h ⟨rfl, hddir⟩ htarget
      exact (ih ps' hps').concat hcd rfl

/-! ### The two together -/

/-- **After any sequence of commands, the climb of `vfs_pwd` ends with at most 32 indices, and
replaying the names of the inodes it has collected, from the root on, leads back to the current
directory without changing the inode table.** -/
theorem pwd_inverts_cd {disk : Disk} (hdisk : Formatted disk) (memory : Memory)
    (commands : List Command) :
    ∃ k path, run Command.step (boot disk memory) commands = .ok k ∧
      pwdLoop k.inodeArray 32 k.currentDir = .ok path ∧ path.length ≤ 32 ∧
      ∃ k', Replays k (slash :: path.reverse.tail.map fun i => (k.inodeArray i).nameString) k' ∧
        k'.currentDir = k.currentDir ∧ k'.inodeArray = k.inodeArray := by
  obtain ⟨k, hrun, hinv, d, ns, hd, hreach⟩ :=
    run_total (fun s c hs => Anchored.command hs c) commands (Anchored.boot hdisk memory)
  have hlen := hreach.length_lt_card hinv.sound.wellFormed
  rw [Fintype.card_fin] at hlen
  simp only [maxInodes] at hlen
  obtain ⟨path, hpath, hlength, hnames⟩ := pwdLoop_of_reaches hinv.sound hreach hlen
  rw [← hd.val] at hpath
  refine ⟨k, path, hrun, hpath, by omega, { k with currentDir := d }, ?_, hd.val.symm, rfl⟩
  have hroot : cdTarget k.inodeArray d slash.bytes = some 0 := by
    rw [cdTarget, if_neg (by decide), if_pos rfl]
  refine ⟨_, vfsCd_of_some hinv.sound hd hroot, rfl, ?_⟩
  refine replays_of_reaches hinv.sound hreach _ ?_
  rw [← hnames, List.map_map]
  rfl

/-- Two directories are made, one in the other, under a name that is then given again. -/
theorem pwd_inverts_cd_zero :
    ∃ k path, run Command.step (boot (fun _ _ => 0) ⟨0, fun _ => 0⟩)
        [.mkdir (some nameA), .cd (some nameA), .mkdir (some nameA), .cd (some nameA),
          .mkdir none] = .ok k ∧
      pwdLoop k.inodeArray 32 k.currentDir = .ok path ∧ path.length ≤ 32 := by
  obtain ⟨k, path, hrun, hpath, hlen, -⟩ :=
    pwd_inverts_cd (Formatted.zero fun _ _ => rfl) ⟨0, fun _ => 0⟩
      [.mkdir (some nameA), .cd (some nameA), .mkdir (some nameA), .cd (some nameA), .mkdir none]
  exact ⟨k, path, hrun, hpath, hlen⟩

end Anaga
