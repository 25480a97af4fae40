/-
**Rooted trees of named nodes stored in a table.**

A hierarchy of named nodes is usually kept as a table: every entry of the table has a kind, a
name and the index of its parent, and a directory lists the indices of its children.  Nothing in
such a table says that it is a tree.  This module states when it is one, and proves the facts
about the one operation that makes it grow, adding a fresh leaf at the end of a directory.

Lookup takes the *first* child of the given name, so it makes sense also where names are repeated.

Main definitions:

* `NamedTree` — a table of named nodes;
* `NamedTree.WellFormed` — the table is a tree: children and parents agree, nothing is listed
  twice, and climbing from any used node ends in the root;
* `NamedTree.lookup`, `NamedTree.addChild` — the first child of a name, and adding a fresh child;
* `NamedTree.Compact`, `NamedTree.Extends` — the used nodes come first, and one tree has grown from
  another;
* `NamedTree.Distinct` — the children of a directory have different names;
* `NamedTree.Reaches` — a path of names leads from the root to a directory.

Main results:

* `iterate_lt_card` — a climb that meets its goal for the first time after `n` steps has `n` less
  than the number of nodes;
* `NamedTree.WellFormed.addChild` — **adding a fresh child keeps a tree a tree**;
* `NamedTree.WellFormed.climb_lt_card` — the root is met in fewer steps than there are nodes;
* `NamedTree.Extends.lookup_of_cut` — **where a tree has grown in part, a name means what it meant
  before or what it means afterwards**;
* `NamedTree.distinct_addChild_iff` — names stay different exactly when the new one is new;
* `NamedTree.Reaches.addChild` — a path that leads somewhere leads there for ever;
* `NamedTree.Reaches.length_lt_card` — no path is as long as there are nodes.
-/

import Mathlib.Data.Fintype.Card
import Mathlib.Data.List.Find
import Mathlib.Logic.Function.Iterate
import Mathlib.Tactic.Tauto

set_option relaxedAutoImplicit false
set_option autoImplicit false

/-! ### First hits of an iteration -/

/-- Before its first hit of `r` an iteration does not repeat itself, so the first hit comes after
fewer steps than there are points. -/
theorem iterate_lt_card {ι : Type*} [Fintype ι] (f : ι → ι) {i r : ι} {n : ℕ}
    (hn : f^[n] i = r) (hlt : ∀ k < n, f^[k] i ≠ r) : n < Fintype.card ι := by
  have hne : ∀ a b, a < b → b ≤ n → f^[a] i ≠ f^[b] i := by
    intro a b hab hbn h
    apply hlt (n - b + a) (by omega)
    calc f^[n - b + a] i = f^[n - b] (f^[a] i) := Function.iterate_add_apply f _ _ i
      _ = f^[n - b] (f^[b] i) := by rw [h]
      _ = f^[n - b + b] i := (Function.iterate_add_apply f _ _ i).symm
      _ = r := by rw [Nat.sub_add_cancel hbn, hn]
  have hinj : Function.Injective fun k : Fin (n + 1) => f^[k.val] i := by
    intro a b hab
    rcases Nat.lt_trichotomy a.val b.val with h | h | h
    · exact absurd hab (hne _ _ h (by omega))
    · exact Fin.ext h
    · exact absurd hab.symm (hne _ _ h (by omega))
  have hcard := Fintype.card_le_of_injective _ hinj
  rw [Fintype.card_fin] at hcard
  omega

/-- An iteration that hits `r` hits it within fewer steps than there are points. -/
theorem exists_iterate_lt_card {ι : Type*} [Fintype ι] [DecidableEq ι] (f : ι → ι) {i r : ι}
    (h : ∃ n, f^[n] i = r) : ∃ n < Fintype.card ι, f^[n] i = r :=
  ⟨Nat.find h, iterate_lt_card f (Nat.find_spec h) fun _ hk => Nat.find_min h hk, Nat.find_spec h⟩

/-- Where `g` agrees with `f` until `r` is hit, an iteration of `g` hits `r` if one of `f` does. -/
theorem exists_iterate_of_agree {ι : Type*} {f g : ι → ι} {P : ι → Prop} {r : ι}
    (hagree : ∀ x, P x → x ≠ r → g x = f x ∧ P (f x)) {n : ℕ} {x : ι} (hx : P x)
    (hn : f^[n] x = r) : ∃ m, g^[m] x = r := by
  induction n generalizing x with
  | zero => exact ⟨0, hn⟩
  | succ n ih =>
      by_cases hr : x = r
      · exact ⟨0, hr⟩
      · obtain ⟨hg, hP⟩ := hagree x hx hr
        obtain ⟨m, hm⟩ := ih hP hn
        exact ⟨m + 1, by rw [Function.iterate_succ_apply, hg, hm]⟩

/-! ### Tables of named nodes -/

/-- What a table entry holds: nothing, a node without children, or a directory. -/
inductive NodeKind
  | free
  | leaf
  | dir
deriving DecidableEq, Repr

/-- A table of named nodes with parent pointers and lists of children. -/
structure NamedTree (ι ν : Type*) where
  kind : ι → NodeKind
  name : ι → ν
  parent : ι → ι
  children : ι → List ι

namespace NamedTree

variable {ι ν : Type*}

/-- The table is a tree with the given root. -/
structure WellFormed (T : NamedTree ι ν) (root : ι) : Prop where
  /-- The root is a directory. -/
  root_dir : T.kind root = .dir
  /-- What a directory lists is in use, is not the root, and points back at the directory. -/
  child : ∀ d c, T.kind d = .dir → c ∈ T.children d →
    T.kind c ≠ .free ∧ c ≠ root ∧ T.parent c = d
  /-- No directory lists a node twice. -/
  nodup : ∀ d, T.kind d = .dir → (T.children d).Nodup
  /-- Every used node but the root is listed by its parent, which is a directory. -/
  listed : ∀ c, T.kind c ≠ .free → c ≠ root →
    T.kind (T.parent c) = .dir ∧ c ∈ T.children (T.parent c)
  /-- Climbing from a used node ends in the root. -/
  grounded : ∀ c, T.kind c ≠ .free → ∃ n, T.parent^[n] c = root

/-- The first child of `d` that is called `n`. -/
def lookup [DecidableEq ν] (T : NamedTree ι ν) (d : ι) (n : ν) : Option ι :=
  (T.children d).find? fun c => T.name c = n

/-- The children of every directory have different names. -/
def Distinct (T : NamedTree ι ν) : Prop :=
  ∀ d, T.kind d = .dir → ((T.children d).map T.name).Nodup

/-- The table with the entry `c` made a node of kind `k` and name `n`, the last child of `d`. -/
def addChild [DecidableEq ι] (T : NamedTree ι ν) (d c : ι) (n : ν) (k : NodeKind) :
    NamedTree ι ν where
  kind := Function.update T.kind c k
  name := Function.update T.name c n
  parent := Function.update T.parent c d
  children := Function.update (Function.update T.children c []) d (T.children d ++ [c])

/-! ### Lookup -/

section Lookup

variable [DecidableEq ν] {T : NamedTree ι ν} {d c : ι} {n : ν}

theorem mem_of_lookup (h : T.lookup d n = some c) : c ∈ T.children d :=
  List.mem_of_find?_eq_some h

theorem name_of_lookup (h : T.lookup d n = some c) : T.name c = n := by
  simpa using List.find?_some h

theorem lookup_eq_none_iff : T.lookup d n = none ↔ ∀ c ∈ T.children d, T.name c ≠ n := by
  simp [lookup]

end Lookup

/-! ### The consequences of being a tree -/

section Tree

variable {T : NamedTree ι ν} {root : ι}

theorem WellFormed.parent_eq (h : T.WellFormed root) {d c : ι} (hd : T.kind d = .dir)
    (hc : c ∈ T.children d) : T.parent c = d := (h.child d c hd hc).2.2

theorem WellFormed.ne_of_mem (h : T.WellFormed root) {d c x : ι} (hd : T.kind d = .dir)
    (hc : c ∈ T.children d) (hx : T.kind x = .free) : c ≠ x := by
  rintro rfl
  exact (h.child d c hd hc).1 hx

/-- A used node meets the root in fewer steps than there are nodes. -/
theorem WellFormed.climb_lt_card [Fintype ι] [DecidableEq ι] (h : T.WellFormed root) {c : ι}
    (hc : T.kind c ≠ .free) : ∃ n < Fintype.card ι, T.parent^[n] c = root :=
  exists_iterate_lt_card T.parent (h.grounded c hc)

/-- The parent of a used node is used, so a climb never leaves the used nodes before the root. -/
theorem WellFormed.parent_used (h : T.WellFormed root) {c : ι} (hc : T.kind c ≠ .free)
    (hr : c ≠ root) : T.kind (T.parent c) ≠ .free := by
  rw [(h.listed c hc hr).1]
  exact NodeKind.noConfusion

end Tree

/-! ### Adding a child -/

section AddChild

variable [DecidableEq ι] {T : NamedTree ι ν} {root d c : ι} {n : ν} {k : NodeKind}

@[simp] theorem addChild_kind (x : ι) :
    (T.addChild d c n k).kind x = if x = c then k else T.kind x := by
  simp [addChild, Function.update_apply]

@[simp] theorem addChild_name (x : ι) :
    (T.addChild d c n k).name x = if x = c then n else T.name x := by
  simp [addChild, Function.update_apply]

@[simp] theorem addChild_parent (x : ι) :
    (T.addChild d c n k).parent x = if x = c then d else T.parent x := by
  simp [addChild, Function.update_apply]

@[simp] theorem addChild_children (x : ι) : (T.addChild d c n k).children x =
    if x = d then T.children d ++ [c] else if x = c then [] else T.children x := by
  simp [addChild, Function.update_apply]

/-- A climb from an old node is not disturbed by the new one. -/
theorem iterate_parent_addChild (h : T.WellFormed root) (hc : T.kind c = .free) :
    ∀ (m : ℕ) (x : ι), T.kind x ≠ .free → T.parent^[m] x = root →
      ∃ m', (T.addChild d c n k).parent^[m'] x = root := by
  intro m x hx hm
  refine exists_iterate_of_agree (P := fun x => T.kind x ≠ .free) ?_ hx hm
  intro y hy hr
  have hyc : y ≠ c := by rintro rfl; exact hy hc
  exact ⟨by simp [hyc], h.parent_used hy hr⟩

/-- **Adding a fresh child keeps a tree a tree.** -/
theorem WellFormed.addChild (h : T.WellFormed root) (hd : T.kind d = .dir)
    (hc : T.kind c = .free) (hk : k ≠ .free) : (T.addChild d c n k).WellFormed root := by
  have hdc : d ≠ c := by rintro rfl; simp [hd] at hc
  have hrc : root ≠ c := by rintro rfl; simp [h.root_dir] at hc
  have hdir : ∀ x, x ≠ c → (T.addChild d c n k).kind x = T.kind x := fun x hx => by simp [hx]
  constructor
  case root_dir => rw [hdir root hrc, h.root_dir]
  case child =>
    intro x y hx hy
    by_cases hxd : x = d
    · subst hxd
      rw [addChild_children, if_pos rfl, List.mem_append] at hy
      rcases hy with hy | hy
      · have hyc := h.ne_of_mem hd hy hc
        simpa [hyc] using h.child x y hd hy
      · obtain rfl : y = c := by simpa using hy
        exact ⟨by simpa using hk, hrc.symm, by simp⟩
    · by_cases hxc : x = c
      · simp [hxc, hdc.symm] at hy
      · have hx' : T.kind x = .dir := by rwa [hdir x hxc] at hx
        have hy' : y ∈ T.children x := by simpa [hxd, hxc] using hy
        have hyc := h.ne_of_mem hx' hy' hc
        simpa [hyc] using h.child x y hx' hy'
  case nodup =>
    intro x hx
    by_cases hxd : x = d
    · subst hxd
      have hnot : ∀ y ∈ T.children x, ¬y = c := fun y hy => h.ne_of_mem hd hy hc
      simpa [List.nodup_append, h.nodup x hd] using hnot
    · by_cases hxc : x = c
      · simp [hxc, hdc.symm]
      · simpa [hxd, hxc] using h.nodup x (by rwa [hdir x hxc] at hx)
  case listed =>
    intro y hy hyr
    by_cases hyc : y = c
    · subst hyc
      simp [hdc, hd]
    · have hy' : T.kind y ≠ .free := by rwa [hdir y hyc] at hy
      obtain ⟨hp, hmem⟩ := h.listed y hy' hyr
      have hpc : T.parent y ≠ c := fun e => by simp [e, hc] at hp
      refine ⟨by simpa [hyc, hpc] using hp, ?_⟩
      by_cases hpd : T.parent y = d
      · rw [hpd] at hmem
        simp [hyc, hpd, hmem]
      · simpa [hyc, hpd, hpc] using hmem
  case grounded =>
    intro y hy
    by_cases hyc : y = c
    · obtain ⟨m, hm⟩ := h.grounded d (by simp [hd])
      obtain ⟨m', hm'⟩ := iterate_parent_addChild (n := n) (k := k) (d := d) h hc m d
        (by simp [hd]) hm
      exact ⟨m' + 1, by simpa [hyc] using hm'⟩
    · have hy' : T.kind y ≠ .free := by rwa [hdir y hyc] at hy
      obtain ⟨m, hm⟩ := h.grounded y hy'
      exact iterate_parent_addChild h hc m y hy' hm

/-- The names of the old children are not touched. -/
theorem map_name_addChild (h : T.WellFormed root) (hc : T.kind c = .free) {x : ι}
    (hx : T.kind x = .dir) :
    (T.children x).map (T.addChild d c n k).name = (T.children x).map T.name :=
  List.map_congr_left fun y hy => by simp [h.ne_of_mem hx hy hc]

/-- **Names stay different exactly when the new name is new in its directory.** -/
theorem distinct_addChild_iff (h : T.WellFormed root) (hd : T.kind d = .dir)
    (hc : T.kind c = .free) (hT : T.Distinct) :
    (T.addChild d c n k).Distinct ↔ ∀ x ∈ T.children d, T.name x ≠ n := by
  have hdc : d ≠ c := by rintro rfl; simp [hd] at hc
  have hnew : (((T.addChild d c n k).children d).map (T.addChild d c n k).name).Nodup ↔
      ∀ x ∈ T.children d, T.name x ≠ n := by
    have hold := map_name_addChild (d := d) (c := c) (n := n) (k := k) h hc hd
    simp only [addChild_children, if_true, List.map_append, hold, List.map_cons, List.map_nil,
      addChild_name]
    rw [List.nodup_append]
    simp [hT d hd]
  rw [← hnew]
  refine ⟨fun hall => hall d (by simpa [hdc] using hd), fun hnd x hx => ?_⟩
  by_cases hxd : x = d
  · rwa [hxd]
  · by_cases hxc : x = c
    · simp [hxc, hdc.symm]
    · have hx' : T.kind x = .dir := by simpa [hxc] using hx
      have := map_name_addChild (d := d) (c := c) (n := n) (k := k) h hc hx'
      simpa only [addChild_children, if_neg hxd, if_neg hxc, this] using hT x hx'

/-- Names that are different with a new child were different without it. -/
theorem Distinct.of_addChild (h : T.WellFormed root) (hd : T.kind d = .dir)
    (hc : T.kind c = .free) (hT : (T.addChild d c n k).Distinct) : T.Distinct := by
  intro x hx
  have hxc : x ≠ c := by rintro rfl; simp [hx] at hc
  have hnew := hT x (by simpa [hxc] using hx)
  have hold := map_name_addChild (d := d) (c := c) (n := n) (k := k) h hc hx
  rcases eq_or_ne x d with rfl | hxd
  · rw [addChild_children, if_pos rfl, List.map_append, hold] at hnew
    exact hnew.of_append_left
  · rwa [addChild_children, if_neg hxd, if_neg hxc, hold] at hnew

variable [DecidableEq ν]

/-- Whatever a name meant before a child is added, it means afterwards. -/
theorem lookup_addChild_of_some (h : T.WellFormed root) (hc : T.kind c = .free) {x y : ι} {m : ν}
    (hx : T.kind x = .dir) (hy : T.lookup x m = some y) :
    (T.addChild d c n k).lookup x m = some y := by
  have hxc : x ≠ c := by rintro rfl; simp [hx] at hc
  have hold : (T.children x).find? (fun z => (T.addChild d c n k).name z = m) = some y := by
    rw [← hy, lookup]
    refine List.find?_congr fun z hz => ?_
    simp [h.ne_of_mem hx hz hc]
  by_cases hxd : x = d
  · subst hxd
    rw [lookup, addChild_children, if_pos rfl, List.find?_append, hold]
    rfl
  · rw [lookup, addChild_children, if_neg hxd, if_neg hxc, hold]

/-- A name that meant nothing means the new child, if it is the name of the new child. -/
theorem lookup_addChild_of_none (h : T.WellFormed root) (hd : T.kind d = .dir)
    (hc : T.kind c = .free) {m : ν} (hm : T.lookup d m = none) :
    (T.addChild d c n k).lookup d m = if n = m then some c else none := by
  have hold : (T.children d).find? (fun z => (T.addChild d c n k).name z = m) = none := by
    rw [← hm, lookup]
    refine List.find?_congr fun z hz => ?_
    simp [h.ne_of_mem hd hz hc]
  rw [lookup, addChild_children, if_pos rfl, List.find?_append, hold]
  by_cases hnm : n = m <;> simp [hnm]

end AddChild

/-! ### Trees that grow -/

section Extends

variable [LinearOrder ι] {T T' : NamedTree ι ν} {root d c : ι} {n : ν} {k : NodeKind}

/-- The used nodes come first. -/
def Compact (T : NamedTree ι ν) : Prop := ∀ i j, i ≤ j → T.kind j ≠ .free → T.kind i ≠ .free

theorem Compact.lt_of_free (h : T.Compact) (hc : T.kind c = .free) {i : ι} (hi : T.kind i ≠ .free) :
    i < c :=
  lt_of_not_ge fun hle => h c i hle hi hc

theorem Compact.addChild (h : T.Compact)
    (hfirst : ∀ i < c, T.kind i ≠ .free) (hk : k ≠ .free) : (T.addChild d c n k).Compact := by
  intro i j hij hj
  rw [addChild_kind] at hj ⊢
  split_ifs with hi
  · exact hk
  · split_ifs at hj with hjc
    · exact hfirst i (lt_of_le_of_ne (hij.trans hjc.le) hi)
    · exact h i j hij hj

/-- The tree `T'` has grown from `T`: what was in use is what it was, and at the end of the
directories there are new children, in their order. -/
structure Extends (T T' : NamedTree ι ν) : Prop where
  kind_eq : ∀ i, T.kind i ≠ .free → T'.kind i = T.kind i
  name_eq : ∀ i, T.kind i ≠ .free → T'.name i = T.name i
  children_eq : ∀ x, T.kind x = .dir → ∃ added, T'.children x = T.children x ++ added ∧
    (∀ y ∈ added, T.kind y = .free) ∧ added.Pairwise (· < ·)

theorem Extends.refl (T : NamedTree ι ν) : T.Extends T :=
  ⟨fun _ _ => rfl, fun _ _ => rfl, fun x _ => ⟨[], (List.append_nil _).symm, by simp, .nil⟩⟩

/-- A tree that has grown grows by one more child. -/
theorem Extends.addChild (h : T.Extends T') (hT' : T'.WellFormed root) (hd : T'.kind d = .dir)
    (hc : T'.kind c = .free) (hcompact : T'.Compact) : T.Extends (T'.addChild d c n k) := by
  have hfree : T.kind c = .free := by
    by_contra hne
    rw [h.kind_eq c hne] at hc
    exact hne hc
  have hne : ∀ i, T.kind i ≠ .free → i ≠ c := by
    rintro i hi rfl
    exact hi hfree
  constructor
  case kind_eq =>
    intro i hi
    rw [addChild_kind, if_neg (hne i hi), h.kind_eq i hi]
  case name_eq =>
    intro i hi
    rw [addChild_name, if_neg (hne i hi), h.name_eq i hi]
  case children_eq =>
    intro x hx
    have hused : T.kind x ≠ .free := by simp [hx]
    obtain ⟨added, hadded, hold, hsorted⟩ := h.children_eq x hx
    by_cases hxd : x = d
    · refine ⟨added ++ [c], ?_, ?_, ?_⟩
      · rw [addChild_children, if_pos hxd, ← hxd, hadded, List.append_assoc]
      · intro y hy
        rcases List.mem_append.1 hy with hy | hy
        · exact hold y hy
        · rw [List.mem_singleton.1 hy]
          exact hfree
      · refine List.pairwise_append.2 ⟨hsorted, List.pairwise_singleton _ _, fun y hy z hz => ?_⟩
        have hmem : y ∈ T'.children d := by
          rw [← hxd, hadded]
          exact List.mem_append_right _ hy
        rw [List.mem_singleton.1 hz]
        exact hcompact.lt_of_free hc (hT'.child d y hd hmem).1
    · exact ⟨added, by rw [addChild_children, if_neg hxd, if_neg (hne x hused), hadded], hold,
        hsorted⟩

/-- **Where the first nodes are those of the tree that has grown, and the others are those of the
tree that it has grown from, every name that no free node had means what it meant before, or what it
means afterwards.** -/
theorem Extends.lookup_of_cut [DecidableEq ν] (h : T.Extends T') (hT : T.WellFormed root)
    {M : NamedTree ι ν} {P : ι → Prop} (hP : ∀ i j, i ≤ j → P j → P i)
    (hnew : ∀ i, P i → M.name i = T'.name i ∧ M.children i = T'.children i)
    (hold : ∀ i, ¬ P i → M.name i = T.name i ∧ M.children i = T.children i) {x : ι}
    (hx : T.kind x = .dir) {m : ν} (hm : ∀ i, T.kind i = .free → T.name i ≠ m) :
    M.lookup x m = T.lookup x m ∨ M.lookup x m = T'.lookup x m := by
  have hname : ∀ y, T.kind y ≠ .free → M.name y = T.name y := by
    intro y hy
    by_cases hPy : P y
    · rw [(hnew y hPy).1, h.name_eq y hy]
    · exact (hold y hPy).1
  have hchildren : (T.children x).find? (fun y => M.name y = m) = T.lookup x m :=
    List.find?_congr fun y hy => by rw [hname y (hT.child x y hx hy).1]
  by_cases hPx : P x
  · obtain ⟨added, hadded, hfree, hsorted⟩ := h.children_eq x hx
    have hM : M.lookup x m = (T.lookup x m).or (added.find? fun y => M.name y = m) := by
      rw [lookup, (hnew x hPx).2, hadded, List.find?_append, hchildren]
    have hT' : T'.lookup x m = (T.lookup x m).or (added.find? fun y => T'.name y = m) := by
      rw [lookup, hadded, List.find?_append, lookup]
      congr 1
      exact List.find?_congr fun y hy => by rw [h.name_eq y (hT.child x y hx hy).1]
    -- a new child is found if and only if it is there, and is of this name
    have hfound : ∀ y ∈ added, M.name y = m → P y ∧ T'.name y = m := by
      intro y hy hmy
      by_cases hPy : P y
      · exact ⟨hPy, (hnew y hPy).1 ▸ hmy⟩
      · rw [(hold y hPy).1] at hmy
        exact absurd hmy (hm y (hfree y hy))
    rw [hM, hT']
    cases hsome : added.find? fun y => T'.name y = m with
    | none =>
        left
        have hnone : (added.find? fun y => M.name y = m) = none := by
          rw [List.find?_eq_none] at hsome ⊢
          intro y hy hmy
          exact hsome y hy (by simpa using (hfound y hy (by simpa using hmy)).2)
        rw [hnone, Option.or_none]
    | some z =>
        obtain ⟨hz, before, after, hsplit, hbefore⟩ := List.find?_eq_some_iff_append.1 hsome
        have hzm : T'.name z = m := by simpa using hz
        have hnot : ∀ y ∈ before, M.name y ≠ m := by
          intro y hy hmy
          have hmem : y ∈ added := by simp [hsplit, hy]
          simpa [(hfound y hmem hmy).2] using hbefore y hy
        by_cases hPz : P z
        · right
          have hfind : (added.find? fun y => M.name y = m) = some z := by
            refine List.find?_eq_some_iff_append.2 ⟨?_, before, after, hsplit, ?_⟩
            · simpa [(hnew z hPz).1] using hzm
            · intro y hy
              simpa using hnot y hy
          rw [hfind]
        · -- the nodes behind `z` are not there either
          left
          have hnone : (added.find? fun y => M.name y = m) = none := by
            rw [List.find?_eq_none]
            intro y hy hmy
            have hPy : P y := (hfound y hy (by simpa using hmy)).1
            rw [hsplit] at hy hsorted
            rcases List.mem_append.1 hy with hb | ha
            · exact hnot y hb (by simpa using hmy)
            · rcases List.mem_cons.1 ha with rfl | ha
              · exact hPz hPy
              · have hlt : z < y := List.rel_of_pairwise_cons (List.pairwise_append.1 hsorted).2.1 ha
                exact hPz (hP z y hlt.le hPy)
          rw [hnone, Option.or_none]
  · left
    rw [lookup, (hold x hPx).2, hchildren]

end Extends

/-! ### Paths of names -/

section Path

variable [DecidableEq ν] {T : NamedTree ι ν} {root : ι} {ok : ν → Prop}

/-- The path `ns` of acceptable names leads from the root, through directories, to a directory. -/
inductive Reaches (T : NamedTree ι ν) (root : ι) (ok : ν → Prop) : ι → List ν → Prop
  | root : Reaches T root ok root []
  | child {d c : ι} {ns : List ν} {n : ν} : Reaches T root ok d ns → T.lookup d n = some c →
      T.kind c = .dir → ok n → Reaches T root ok c (ns ++ [n])

theorem Reaches.kind_eq (h : T.WellFormed root) {c : ι} {ns : List ν}
    (hr : Reaches T root ok c ns) : T.kind c = .dir := by
  cases hr with
  | root => exact h.root_dir
  | child _ _ hk _ => exact hk

/-- The last name of a path belongs to its end, and the rest of it leads to the parent. -/
theorem Reaches.parent (h : T.WellFormed root) {c : ι} {ns : List ν}
    (hr : Reaches T root ok c ns) (hc : c ≠ root) : ∃ ns', Reaches T root ok (T.parent c) ns' := by
  cases hr with
  | root => exact absurd rfl hc
  | @child d _ ns _ hd hl _ _ =>
      rw [h.parent_eq (hd.kind_eq h) (mem_of_lookup hl)]
      exact ⟨ns, hd⟩

/-- A path of `n` names is a climb of `n` steps that meets the root only at its end. -/
theorem Reaches.iterate (h : T.WellFormed root) {c : ι} {ns : List ν}
    (hr : Reaches T root ok c ns) :
    T.parent^[ns.length] c = root ∧ ∀ m < ns.length, T.parent^[m] c ≠ root := by
  induction hr with
  | root => exact ⟨rfl, fun m hm => by simp at hm⟩
  | @child d c ns n hd hl hk hn ih =>
      have hchild := h.child d c (hd.kind_eq h) (mem_of_lookup hl)
      rw [List.length_append, List.length_singleton]
      refine ⟨by rw [Function.iterate_succ_apply, hchild.2.2]; exact ih.1, fun m hm => ?_⟩
      cases m with
      | zero => exact hchild.2.1
      | succ m =>
          rw [Function.iterate_succ_apply, hchild.2.2]
          exact ih.2 m (by omega)

/-- **No path is as long as there are nodes.** -/
theorem Reaches.length_lt_card [Fintype ι] (h : T.WellFormed root) {c : ι} {ns : List ν}
    (hr : Reaches T root ok c ns) : ns.length < Fintype.card ι :=
  iterate_lt_card T.parent (hr.iterate h).1 (hr.iterate h).2

/-- **A path that leads somewhere still leads there when a child is added anywhere.** -/
theorem Reaches.addChild [DecidableEq ι] (h : T.WellFormed root) {d c x : ι} {n : ν}
    {k : NodeKind} (hc : T.kind c = .free) {ns : List ν} (hr : Reaches T root ok x ns) :
    Reaches (T.addChild d c n k) root ok x ns := by
  induction hr with
  | root => exact Reaches.root
  | @child e x ns m he hl hk hm ih =>
      have hxc : x ≠ c := by rintro rfl; simp [hk] at hc
      exact ih.child (lookup_addChild_of_some h hc (he.kind_eq h) hl) (by simpa [hxc] using hk) hm

end Path

end NamedTree
