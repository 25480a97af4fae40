/-
**Hierarchies of named nodes, and the tables that hold them.**

A hierarchy is a leaf, or a list of named hierarchies.  What is in it is found by an address, the
numbers of the entries on the way from the top, and it is changed at one address at a time.  As
everything below an address can be seen from the addresses that continue it, a hierarchy is known
from its outlines: what is seen at an address without going further down.

A table of named nodes unfolds to the hierarchy that has the same outlines, at the addresses that
lead through its lists of children.  Names may be repeated: no address does what another one does.

Main definitions:

* `Hierarchy`, `Hierarchy.descend`, `Hierarchy.view` — a hierarchy, what is at an address, and its
  outline;
* `Hierarchy.append`, `Hierarchy.replace` — a new entry at the end, and another leaf;
* `Hierarchy.size`, `Hierarchy.namesTo` — the number of its nodes, and the names on the way;
* `NamedTree.walk`, `NamedTree.Unfolds` — the same way through a table, and the hierarchy that the
  table holds.

Main results:

* `Hierarchy.view_append`, `Hierarchy.view_replace` — **what a change does to the outlines**;
* `NamedTree.walk_inj` — no two addresses lead to one node of a tree;
* `NamedTree.Unfolds.addChild`, `NamedTree.Unfolds.update` — **a table that grows, or in which one
  leaf is written, unfolds to the hierarchy that is changed in the same way**;
* `NamedTree.lookup_eq_walk` — a lookup finds what is at the address of the first entry of the name.
-/

import Anaga.NamedTree
import Mathlib.Data.List.Infix

set_option relaxedAutoImplicit false
set_option autoImplicit false

/-- A leaf, or a list of named hierarchies. -/
inductive Hierarchy (ν α : Type*)
  | leaf (a : α)
  | node (entries : List (ν × Hierarchy ν α))

/-- What is seen of a hierarchy without going further down: a leaf, or the names of the entries. -/
inductive Outline (ν α : Type*)
  | leaf (a : α)
  | node (names : List ν)
deriving DecidableEq, Repr

namespace Hierarchy

variable {ν α : Type*}

/-! ### Looking -/

/-- The entries of a hierarchy. -/
def entries : Hierarchy ν α → List (ν × Hierarchy ν α)
  | .leaf _ => []
  | .node es => es

/-- The outline at the top. -/
def outline : Hierarchy ν α → Outline ν α
  | .leaf a => .leaf a
  | .node es => .node (es.map Prod.fst)

/-- What is at an address. -/
def descend (h : Hierarchy ν α) : List ℕ → Option (Hierarchy ν α)
  | [] => some h
  | i :: p => h.entries[i]?.bind fun e => e.2.descend p

/-- The outline at an address. -/
def view (h : Hierarchy ν α) (p : List ℕ) : Option (Outline ν α) := (h.descend p).map outline

/-- The names on the way to an address. -/
def namesTo (h : Hierarchy ν α) : List ℕ → List ν
  | [] => []
  | i :: p => h.entries[i]?.elim [] fun e => e.1 :: e.2.namesTo p

mutual

/-- The number of nodes. -/
def size : Hierarchy ν α → ℕ
  | .leaf _ => 1
  | .node es => sizeAll es + 1

/-- The number of nodes of a list of entries. -/
def sizeAll : List (ν × Hierarchy ν α) → ℕ
  | [] => 0
  | (_, h) :: es => h.size + sizeAll es

end

/-! ### Changing -/

/-- The hierarchy in which `f` has been applied to what is at the address. -/
def modify (f : Hierarchy ν α → Hierarchy ν α) : List ℕ → Hierarchy ν α → Hierarchy ν α
  | [], h => f h
  | _ :: _, .leaf a => .leaf a
  | i :: p, .node es => .node (es.modify i fun e => (e.1, modify f p e.2))

/-- The hierarchy with a new entry at the end of those at the address. -/
def append (h : Hierarchy ν α) (p : List ℕ) (n : ν) (x : Hierarchy ν α) : Hierarchy ν α :=
  h.modify (fun g => .node (g.entries ++ [(n, x)])) p

/-- The hierarchy with something else at the address. -/
def replace (h : Hierarchy ν α) (p : List ℕ) (x : Hierarchy ν α) : Hierarchy ν α :=
  h.modify (fun _ => x) p

/-! ### Addresses -/

section View

variable {h g : Hierarchy ν α} {f : Hierarchy ν α → Hierarchy ν α} {p q : List ℕ} {i : ℕ}

@[simp] theorem view_nil (h : Hierarchy ν α) : h.view [] = some h.outline := rfl

theorem view_cons (h : Hierarchy ν α) (i : ℕ) (p : List ℕ) :
    h.view (i :: p) = h.entries[i]?.bind fun e => e.2.view p := by
  rw [view, descend, Option.map_bind]
  rfl

theorem descend_append (h : Hierarchy ν α) (p q : List ℕ) :
    h.descend (p ++ q) = (h.descend p).bind fun g => g.descend q := by
  induction p generalizing h with
  | nil => rfl
  | cons i p ih =>
      rw [List.cons_append, descend, descend, Option.bind_assoc]
      exact congrArg _ (funext fun e => ih e.2)

theorem view_append_of_descend (hg : h.descend p = some g) (q : List ℕ) :
    h.view (p ++ q) = g.view q := by
  rw [view, descend_append, hg]
  rfl

/-- What is below a directory. -/
theorem exists_of_view {names : List ν} (hp : h.view p = some (.node names)) :
    ∃ es, h.descend p = some (.node es) ∧ es.map Prod.fst = names := by
  obtain ⟨g, hg, hout⟩ := Option.map_eq_some_iff.1 hp
  cases g with
  | leaf a => cases hout
  | node es => exact ⟨es, hg, Outline.node.inj hout⟩

theorem exists_of_view_leaf {a : α} (hp : h.view p = some (.leaf a)) :
    h.descend p = some (.leaf a) := by
  obtain ⟨g, hg, hout⟩ := Option.map_eq_some_iff.1 hp
  cases g with
  | leaf b =>
      rw [hg, Outline.leaf.inj hout]
  | node es => cases hout

/-- The names on the way to an entry. -/
theorem namesTo_concat {es : List (ν × Hierarchy ν α)} {e : ν × Hierarchy ν α}
    (hp : h.descend p = some (.node es)) (he : es[i]? = some e) :
    h.namesTo (p ++ [i]) = h.namesTo p ++ [e.1] := by
  induction p generalizing h with
  | nil =>
      obtain rfl := Option.some.inj hp
      change es[i]?.elim [] (fun e => e.1 :: e.2.namesTo []) = [e.1]
      rw [he]
      rfl
  | cons j p ih =>
      obtain ⟨e', he', hp⟩ := Option.bind_eq_some_iff.1 hp
      rw [List.cons_append, namesTo, namesTo, he', Option.elim_some, Option.elim_some, ih hp]
      rfl

/-! ### What a change does -/

/-- What is seen from the changed address on. -/
theorem view_modify_append (hg : h.descend p = some g) (q : List ℕ) :
    (h.modify f p).view (p ++ q) = (f g).view q := by
  induction p generalizing h with
  | nil =>
      obtain rfl := Option.some.inj hg
      rfl
  | cons i p ih =>
      obtain ⟨e, he, hsub⟩ := Option.bind_eq_some_iff.1 hg
      cases h with
      | leaf a => cases he
      | node es =>
          rw [entries] at he
          rw [modify, List.cons_append, view_cons, entries, List.getElem?_modify_eq, he]
          exact ih hsub

/-- What is seen anywhere else. -/
theorem view_modify_of_not_prefix (hq : ¬ p <+: q) : (h.modify f p).view q = h.view q := by
  induction p generalizing h q with
  | nil => exact absurd List.nil_prefix hq
  | cons i p ih =>
      cases h with
      | leaf a => rfl
      | node es =>
          cases q with
          | nil =>
              -- the names of the entries are what they were
              have hnames : (es.modify i fun e => (e.1, modify f p e.2)).map Prod.fst =
                  es.map Prod.fst := by
                refine List.ext_getElem? fun j => ?_
                rw [List.getElem?_map, List.getElem?_map, List.getElem?_modify]
                cases es[j]? with
                | none => rfl
                | some e =>
                    dsimp only [Option.map_eq_map, Option.map_some]
                    split_ifs <;> rfl
              rw [modify, view_nil, view_nil, outline, outline, hnames]
          | cons j q =>
              rw [modify, view_cons, view_cons, entries, entries]
              by_cases hij : i = j
              · subst hij
                have hpq : ¬ p <+: q := fun hp => hq (List.cons_prefix_cons.2 ⟨rfl, hp⟩)
                rw [List.getElem?_modify_eq]
                cases es[i]? with
                | none => rfl
                | some e => exact ih hpq
              · rw [List.getElem?_modify_ne _ _ hij]

/-- **What a new entry does to the outlines.**  There is nothing in what is entered. -/
theorem view_append {names : List ν} (hp : h.view p = some (.node names)) (n : ν)
    {x : Hierarchy ν α} (hx : x.entries = []) (q : List ℕ) :
    (h.append p n x).view q =
      if q = p then some (.node (names ++ [n]))
      else if q = p ++ [names.length] then some x.outline
      else h.view q := by
  obtain ⟨es, hg, rfl⟩ := exists_of_view hp
  rw [List.length_map]
  by_cases hpq : p <+: q
  · obtain ⟨r, rfl⟩ := hpq
    rw [append, view_modify_append hg, view_append_of_descend hg]
    cases r with
    | nil => simp [outline, entries]
    | cons i r =>
        have hne : ¬ p ++ i :: r = p := by simp
        rw [if_neg hne, view_cons, view_cons]
        simp only [entries, List.append_cancel_left_eq, List.cons.injEq]
        rcases Nat.lt_trichotomy i es.length with hi | rfl | hi
        · rw [List.getElem?_append_left hi, if_neg fun hc => hi.ne hc.1]
        · rw [List.getElem?_append_right le_rfl, Nat.sub_self]
          cases r with
          | nil => simp
          | cons j r => simp [view_cons, hx]
        · have hlen : (es ++ [(n, x)]).length ≤ i := by
            rw [List.length_append]
            exact hi
          rw [List.getElem?_eq_none hlen, List.getElem?_eq_none hi.le,
            if_neg fun hc => hi.ne' hc.1]
  · have hne : q ≠ p := by
      rintro rfl
      exact hpq List.prefix_rfl
    have hne' : q ≠ p ++ [es.length] := by
      rintro rfl
      exact hpq (List.prefix_append p _)
    rw [if_neg hne, if_neg hne', append, view_modify_of_not_prefix hpq]

/-- **What another leaf does to the outlines.** -/
theorem view_replace {a b : α} (hp : h.view p = some (.leaf a)) (q : List ℕ) :
    (h.replace p (.leaf b)).view q = if q = p then some (.leaf b) else h.view q := by
  have hg := exists_of_view_leaf hp
  by_cases hpq : p <+: q
  · obtain ⟨r, rfl⟩ := hpq
    rw [replace, view_modify_append hg, view_append_of_descend hg]
    cases r with
    | nil => simp [outline]
    | cons i r => simp [view_cons, entries]
  · have hne : q ≠ p := by
      rintro rfl
      exact hpq List.prefix_rfl
    rw [if_neg hne, replace, view_modify_of_not_prefix hpq]

/-! ### Counting -/

theorem sizeAll_append (es es' : List (ν × Hierarchy ν α)) :
    sizeAll (es ++ es') = sizeAll es + sizeAll es' := by
  induction es with
  | nil => simp [sizeAll]
  | cons e es ih => rw [List.cons_append, sizeAll, sizeAll, ih, Nat.add_assoc]

theorem size_modify (hg : h.descend p = some g) :
    (h.modify f p).size + g.size = h.size + (f g).size := by
  induction p generalizing h with
  | nil =>
      obtain rfl := Option.some.inj hg
      rw [modify, Nat.add_comm]
  | cons i p ih =>
      obtain ⟨e, he, hsub⟩ := Option.bind_eq_some_iff.1 hg
      cases h with
      | leaf a => cases he
      | node es =>
          rw [entries] at he
          have hall : ∀ (es : List (ν × Hierarchy ν α)) (i : ℕ), es[i]? = some e →
              sizeAll (es.modify i fun e => (e.1, modify f p e.2)) + g.size =
                sizeAll es + (f g).size := by
            intro es
            induction es with
            | nil => intro i hi; cases hi
            | cons e' es ihes =>
                intro i hi
                cases i with
                | zero =>
                    obtain rfl := Option.some.inj hi
                    rw [List.modify_zero_cons, sizeAll, sizeAll]
                    have := ih hsub
                    omega
                | succ i =>
                    rw [List.modify_succ_cons, sizeAll, sizeAll]
                    have := ihes i hi
                    omega
          have := hall es i he
          rw [modify, size, size]
          omega

theorem size_append {names : List ν} (hp : h.view p = some (.node names)) (n : ν)
    (x : Hierarchy ν α) : (h.append p n x).size = h.size + x.size := by
  obtain ⟨es, hg, -⟩ := exists_of_view hp
  have hsize : (h.append p n x).size + (node es).size =
      h.size + (node (es ++ [(n, x)])).size := size_modify hg
  rw [size, size, sizeAll_append, sizeAll, sizeAll] at hsize
  omega

theorem size_replace {a b : α} (hp : h.view p = some (.leaf a)) :
    (h.replace p (.leaf b)).size = h.size := by
  have hsize : (h.replace p (leaf b)).size + (leaf a : Hierarchy ν α).size =
      h.size + (leaf b : Hierarchy ν α).size := size_modify (exists_of_view_leaf hp)
  rw [size, size] at hsize
  omega

end View

end Hierarchy

/-! ### Tables that hold a hierarchy -/

namespace NamedTree

variable {ι ν α : Type*}

/-- The child of a directory with the number `j`. -/
def child (T : NamedTree ι ν) (i : ι) (j : ℕ) : Option ι :=
  if T.kind i = .dir then (T.children i)[j]? else none

/-- What an address leads to, from the node `i` on. -/
def walk (T : NamedTree ι ν) (i : ι) : List ℕ → Option ι
  | [] => some i
  | j :: p => (T.child i j).bind fun c => T.walk c p

/-- What is seen of a node, if the leaves hold what `content` says. -/
def outline (T : NamedTree ι ν) (content : ι → α) (i : ι) : Outline ν α :=
  if T.kind i = .dir then .node ((T.children i).map T.name) else .leaf (content i)

/-- **The table unfolds to the hierarchy**: the same addresses lead to the same outlines. -/
def Unfolds (T : NamedTree ι ν) (content : ι → α) (root : ι) (h : Hierarchy ν α) : Prop :=
  ∀ p, h.view p = (T.walk root p).map (T.outline content)

section Walk

variable {T : NamedTree ι ν} {root d c i : ι} {p q : List ℕ} {j : ℕ}

theorem child_eq_some : T.child d j = some c ↔ T.kind d = .dir ∧ (T.children d)[j]? = some c := by
  rw [child]
  split_ifs with hd
  · exact (and_iff_right hd).symm
  · exact ⟨False.elim, fun h => absurd h.1 hd⟩

theorem child_of_dir (hd : T.kind d = .dir) (j : ℕ) : T.child d j = (T.children d)[j]? := if_pos hd

theorem walk_concat (i : ι) (p : List ℕ) (j : ℕ) :
    T.walk i (p ++ [j]) = (T.walk i p).bind fun d => T.child d j := by
  induction p generalizing i with
  | nil => exact Option.bind_fun_some _
  | cons j' p ih =>
      rw [List.cons_append, walk, walk, Option.bind_assoc]
      exact congrArg _ (funext fun c => ih c)

/-- The last step of a way. -/
theorem walk_concat_eq_some :
    T.walk root (p ++ [j]) = some c ↔
      ∃ d, T.walk root p = some d ∧ T.kind d = .dir ∧ (T.children d)[j]? = some c := by
  simp only [walk_concat, Option.bind_eq_some_iff, child_eq_some]

theorem walk_used (hT : T.WellFormed root) (hp : T.walk root p = some i) : T.kind i ≠ .free := by
  rcases List.eq_nil_or_concat' p with rfl | ⟨q, j, rfl⟩
  · obtain rfl := Option.some.inj hp
    rw [hT.root_dir]
    exact NodeKind.noConfusion
  · obtain ⟨d, -, hd, hc⟩ := walk_concat_eq_some.1 hp
    exact (hT.child d i hd (List.mem_of_getElem? hc)).1

/-- The parents go the way back, and meet the root only at its beginning. -/
theorem iterate_of_walk (hT : T.WellFormed root) (hp : T.walk root p = some i) :
    T.parent^[p.length] i = root ∧ ∀ m < p.length, T.parent^[m] i ≠ root := by
  induction p using List.reverseRecOn generalizing i with
  | nil =>
      obtain rfl := Option.some.inj hp
      exact ⟨rfl, fun m hm => absurd hm (Nat.not_lt_zero m)⟩
  | append_singleton p j ih =>
      obtain ⟨d, hp, hd, hc⟩ := walk_concat_eq_some.1 hp
      obtain ⟨hroot, hlt⟩ := ih hp
      have hchild := hT.child d i hd (List.mem_of_getElem? hc)
      rw [List.length_append, List.length_singleton]
      refine ⟨by rw [Function.iterate_succ_apply, hchild.2.2, hroot], fun m hm => ?_⟩
      cases m with
      | zero => exact hchild.2.1
      | succ m =>
          rw [Function.iterate_succ_apply, hchild.2.2]
          exact hlt m (Nat.lt_of_succ_lt_succ hm)

/-- No address is as long as there are nodes. -/
theorem length_lt_card [Fintype ι] (hT : T.WellFormed root) (hp : T.walk root p = some i) :
    p.length < Fintype.card ι :=
  iterate_lt_card T.parent (iterate_of_walk hT hp).1 (iterate_of_walk hT hp).2

/-- **No two addresses lead to one node of a tree.** -/
theorem walk_inj (hT : T.WellFormed root) (hp : T.walk root p = some i)
    (hq : T.walk root q = some i) : p = q := by
  induction p using List.reverseRecOn generalizing i q with
  | nil =>
      obtain rfl := Option.some.inj hp
      rcases List.eq_nil_or_concat' q with rfl | ⟨q, j, rfl⟩
      · rfl
      · obtain ⟨d, -, hd, hc⟩ := walk_concat_eq_some.1 hq
        exact absurd rfl (hT.child d root hd (List.mem_of_getElem? hc)).2.1
  | append_singleton p j ih =>
      obtain ⟨d, hp, hd, hc⟩ := walk_concat_eq_some.1 hp
      have hmem := List.mem_of_getElem? hc
      rcases List.eq_nil_or_concat' q with rfl | ⟨q, j', rfl⟩
      · obtain rfl := Option.some.inj hq
        exact absurd rfl (hT.child d root hd hmem).2.1
      · obtain ⟨d', hq, hd', hc'⟩ := walk_concat_eq_some.1 hq
        -- both ways come from the parent, which has the node among its children only once
        obtain rfl : d = d' := by
          rw [← hT.parent_eq hd hmem, ← hT.parent_eq hd' (List.mem_of_getElem? hc')]
        obtain rfl := ih hp hq
        obtain ⟨hj, -⟩ := List.getElem?_eq_some_iff.1 hc
        rw [(List.getElem?_inj hj (hT.nodup d hd)).1 (hc.trans hc'.symm)]

end Walk

/-! ### A table that grows -/

section Grow

variable [DecidableEq ι] {T : NamedTree ι ν} {root d c i : ι} {n : ν} {k : NodeKind} {p : List ℕ}

/-- The children of old nodes. -/
theorem child_addChild (hd : T.kind d = .dir) {x : ι} (hx : x ≠ c) (j : ℕ) :
    (T.addChild d c n k).child x j =
      if x = d ∧ j = (T.children d).length then some c else T.child x j := by
  simp only [child, addChild_kind, if_neg hx, addChild_children]
  by_cases hxd : x = d
  · subst hxd
    rw [if_pos hd, if_pos hd, if_pos rfl]
    rcases Nat.lt_trichotomy j (T.children x).length with hj | rfl | hj
    · rw [if_neg fun h => hj.ne h.2, List.getElem?_append_left hj]
    · rw [if_pos ⟨rfl, rfl⟩, List.getElem?_append_right le_rfl, Nat.sub_self]
      rfl
    · have hlen : (T.children x ++ [c]).length ≤ j := by
        rw [List.length_append]
        exact hj
      rw [if_neg fun h => hj.ne' h.2, List.getElem?_eq_none hlen, List.getElem?_eq_none hj.le]
  · simp only [hxd, if_false, false_and]

/-- The new node has no children. -/
theorem child_addChild_new (hdc : d ≠ c) (j : ℕ) : (T.addChild d c n k).child c j = none := by
  rw [child, addChild_children, if_neg hdc.symm, if_pos rfl]
  split_ifs <;> rfl

/-- **A new child is at the end of the directory, and everything else is where it was.** -/
theorem walk_addChild (hT : T.WellFormed root) (hd : T.kind d = .dir) (hc : T.kind c = .free)
    (hp : T.walk root p = some d) (q : List ℕ) :
    (T.addChild d c n k).walk root q =
      if q = p ++ [(T.children d).length] then some c else T.walk root q := by
  have hdc : d ≠ c := by rintro rfl; simp [hd] at hc
  have hend : T.walk root (p ++ [(T.children d).length]) = none := by
    rw [walk_concat, hp, Option.bind_some, child_of_dir hd, List.getElem?_eq_none le_rfl]
  induction q using List.reverseRecOn with
  | nil =>
      rw [if_neg (by simp)]
      rfl
  | append_singleton q j ih =>
      rw [walk_concat, walk_concat, ih]
      by_cases hq : q = p ++ [(T.children d).length]
      · have hne : q ++ [j] ≠ p ++ [(T.children d).length] := by
          rw [hq]
          simp
        rw [if_pos hq, if_neg hne, Option.bind_some, child_addChild_new hdc, hq, hend]
        rfl
      · rw [if_neg hq]
        cases hx : T.walk root q with
        | none =>
            have hne : q ++ [j] ≠ p ++ [(T.children d).length] := by
              intro he
              rw [(List.append_inj' he rfl).1, hp] at hx
              cases hx
            rw [if_neg hne]
            rfl
        | some x =>
            have hxc : x ≠ c := by
              rintro rfl
              exact walk_used hT hx hc
            have hplace : x = d ∧ j = (T.children d).length ↔
                q ++ [j] = p ++ [(T.children d).length] := by
              constructor
              · rintro ⟨rfl, rfl⟩
                rw [walk_inj hT hx hp]
              · intro he
                obtain ⟨rfl, hj⟩ := List.append_inj' he rfl
                exact ⟨Option.some.inj (hx.symm.trans hp), List.singleton_inj.1 hj⟩
            rw [Option.bind_some, Option.bind_some, child_addChild hd hxc]
            exact if_congr hplace rfl rfl

/-- **A table that grows unfolds to the hierarchy with a new entry.** -/
theorem Unfolds.addChild {content content' : ι → α} {h : Hierarchy ν α}
    (hu : T.Unfolds content root h) (hT : T.WellFormed root) (hd : T.kind d = .dir)
    (hc : T.kind c = .free) (hp : T.walk root p = some d)
    (hcontent : ∀ i, i ≠ c → content' i = content i) {x : Hierarchy ν α} (hx : x.entries = [])
    (hout : x.outline = (T.addChild d c n k).outline content' c) :
    (T.addChild d c n k).Unfolds content' root (h.append p n x) := by
  have hdc : d ≠ c := by rintro rfl; simp [hd] at hc
  have hview : h.view p = some (.node ((T.children d).map T.name)) := by
    rw [hu p, hp, Option.map_some, outline, if_pos hd]
  -- what is seen of the old nodes is what was seen of them, but for the new name in `d`
  have hold : ∀ i, T.kind i ≠ .free → i ≠ d →
      (T.addChild d c n k).outline content' i = T.outline content i := by
    intro i hi hid
    have hic : i ≠ c := by rintro rfl; exact hi hc
    rw [outline, outline, addChild_kind, if_neg hic, addChild_children, if_neg hid, if_neg hic,
      hcontent i hic]
    split_ifs with hdir
    · rw [map_name_addChild hT hc hdir]
    · rfl
  have hdir : (T.addChild d c n k).outline content' d =
      .node ((T.children d).map T.name ++ [n]) := by
    rw [outline, addChild_kind, if_neg hdc, if_pos hd, addChild_children, if_pos rfl,
      List.map_append, map_name_addChild hT hc hd, List.map_singleton, addChild_name, if_pos rfl]
  intro q
  rw [Hierarchy.view_append hview n hx, walk_addChild hT hd hc hp, List.length_map]
  by_cases hqp : q = p
  · have hne : q ≠ p ++ [(T.children d).length] := by
      rw [hqp]
      simp
    rw [if_pos hqp, if_neg hne, hqp, hp, Option.map_some, hdir]
  · rw [if_neg hqp]
    split_ifs with hend
    · rw [Option.map_some, hout]
    · rw [hu q]
      cases hq : T.walk root q with
      | none => rfl
      | some i =>
          have hid : i ≠ d := by
            rintro rfl
            exact hqp (walk_inj hT hq hp)
          rw [Option.map_some, Option.map_some, hold i (walk_used hT hq) hid]

/-- **A table in which one leaf is written unfolds to the hierarchy with this leaf.** -/
theorem Unfolds.update {content : ι → α} {h : Hierarchy ν α} (hu : T.Unfolds content root h)
    (hT : T.WellFormed root) (hc : T.kind c = .leaf) (hp : T.walk root p = some c) (a : α) :
    T.Unfolds (Function.update content c a) root (h.replace p (.leaf a)) := by
  have hndir : T.kind c ≠ .dir := by rw [hc]; exact NodeKind.noConfusion
  have hview : h.view p = some (.leaf (content c)) := by
    rw [hu p, hp, Option.map_some, outline, if_neg hndir]
  intro q
  rw [Hierarchy.view_replace hview]
  split_ifs with hq
  · rw [hq, hp, Option.map_some, outline, if_neg hndir, Function.update_self]
  · rw [hu q]
    cases hi : T.walk root q with
    | none => rfl
    | some i =>
        have hic : i ≠ c := by
          rintro rfl
          exact hq (walk_inj hT hi hp)
        rw [Option.map_some, Option.map_some, outline, outline, Function.update_of_ne hic]

end Grow

/-! ### Looking into a table -/

section Look

variable {T : NamedTree ι ν} {root d c : ι} {content : ι → α} {h : Hierarchy ν α} {p : List ℕ}
  {n : ν} {j : ℕ}

theorem Unfolds.view_dir (hu : T.Unfolds content root h) (hp : T.walk root p = some d)
    (hd : T.kind d = .dir) : h.view p = some (.node ((T.children d).map T.name)) := by
  rw [hu p, hp, Option.map_some, outline, if_pos hd]

theorem Unfolds.view_leaf (hu : T.Unfolds content root h) (hp : T.walk root p = some c)
    (hc : T.kind c ≠ .dir) : h.view p = some (.leaf (content c)) := by
  rw [hu p, hp, Option.map_some, outline, if_neg hc]

/-- **A lookup finds what is at the address of the first entry of the name.** -/
theorem lookup_eq_walk [DecidableEq ν] (hp : T.walk root p = some d) (hd : T.kind d = .dir)
    (n : ν) :
    T.lookup d n =
      (((T.children d).map T.name).findIdx? fun m => m = n).bind fun j =>
        T.walk root (p ++ [j]) := by
  simp only [walk_concat, hp, Option.bind_some, child_of_dir hd]
  rw [NamedTree.lookup, List.find?_eq_bind_findIdx?_getElem?, List.findIdx?_map]
  rfl

/-- The names on the way to a child. -/
theorem Unfolds.namesTo_concat (hu : T.Unfolds content root h) (hp : T.walk root p = some d)
    (hd : T.kind d = .dir) (hc : (T.children d)[j]? = some c) :
    h.namesTo (p ++ [j]) = h.namesTo p ++ [T.name c] := by
  obtain ⟨es, hes, hnames⟩ := Hierarchy.exists_of_view (hu.view_dir hp hd)
  have hname : (es.map Prod.fst)[j]? = some (T.name c) := by
    rw [hnames, List.getElem?_map, hc]
    rfl
  rw [List.getElem?_map] at hname
  obtain ⟨e, he, hen⟩ := Option.map_eq_some_iff.1 hname
  rw [Hierarchy.namesTo_concat hes he, hen]

end Look

end NamedTree
