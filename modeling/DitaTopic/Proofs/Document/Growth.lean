import Mathlib.Data.List.Nodup
import DitaTopic.Document.Walk
import DitaTopic.Proofs.Document.Tree

/-!
# Growing trees

The links of a document describe the tree that grows from its root when the nodes are added in the
order of their creation, each as the last child of its parent. Walks over the links come to an
end on every document: along siblings they give the children of a node, and down from a node its
subtree, each node once and before those below it.
-/

namespace DitaTopic.Document

namespace Gives

variable {σ α : Type} {next : σ → Option (α × σ)}

/-- A walk gives one list and no other. -/
theorem unique {s : σ} {first second : List α} (h : Gives next s first) (h' : Gives next s second) :
    first = second := by
  induction h generalizing second with
  | done ends =>
    cases h' with
    | done => rfl
    | item goes => rw [ends] at goes; cases goes
  | item goes _ ih =>
    cases h' with
    | done ends => rw [ends] at goes; cases goes
    | item goes' others =>
      rw [goes] at goes'
      cases goes'
      rw [ih others]

end Gives

namespace Tree

mutual
/-- The numbers of all nodes, each before those of its children. -/
def ids : Tree → List Nat
  | node id _ children => id :: idsOf children

/-- The numbers of all nodes of trees in turn. -/
def idsOf : List Tree → List Nat
  | [] => []
  | t :: rest => t.ids ++ idsOf rest
end

theorem idsOf_eq (ts : List Tree) : idsOf ts = ts.flatMap ids := by
  induction ts with
  | nil => rfl
  | cons t rest ih => rw [idsOf, ih, List.flatMap_cons]

mutual
/-- The tree with another one added as the last child of the node with a number. -/
def graft : Tree → Nat → Tree → Tree
  | node id kind children, parent, new =>
    node id kind (graftEach children parent new ++ if id = parent then [new] else [])

/-- Trees with another one added as the last child of the node with a number. -/
def graftEach : List Tree → Nat → Tree → List Tree
  | [], _, _ => []
  | t :: rest, parent, new => t.graft parent new :: graftEach rest parent new
end

theorem graftEach_eq (ts : List Tree) (parent : Nat) (new : Tree) :
    graftEach ts parent new = ts.map fun t => t.graft parent new := by
  induction ts with
  | nil => rfl
  | cons t rest ih => rw [graftEach, ih, List.map_cons]

end Tree

namespace Arena

/-- A node without its children. -/
def leafAt (a : Arena) (id : Nat) : Tree := .node id ((a.kind? id).getD .document) []

/-- Adds a node to a tree as the last child of its parent. -/
def grow (a : Arena) (t : Tree) (id : Nat) : Tree :=
  (a.parent? id).elim t fun p => t.graft p (a.leafAt id)

/-- The tree that comes from the root by adding the nodes in the order of their creation. -/
def grown (a : Arena) : Tree := (List.range a.size).foldl a.grow (a.leafAt 0)

/-- The part of a node's tree that the first `count` nodes of the arena make up. -/
def treeAmong (a : Arena) (count id : Nat) : Tree :=
  .node id ((a.kind? id).getD .document)
    (((a.children id).filter (· < count)).attach.map fun c => a.treeAmong count c.1)
termination_by a.size - id
decreasing_by
  have := mem_children (List.mem_of_mem_filter c.2)
  omega

theorem treeAmong_eq (a : Arena) (count id : Nat) :
    a.treeAmong count id = .node id ((a.kind? id).getD .document)
      (((a.children id).filter (· < count)).map (a.treeAmong count)) := by
  rw [treeAmong, List.map_subtype (g := a.treeAmong count) fun _ _ => rfl, List.unattach_attach]

variable {a : Arena}

theorem Built.parent?_root (h : Built a) : a.parent? 0 = none := by
  cases hp : a.parent? 0 with
  | none => rfl
  | some p => exact absurd (h.linked.parent_lt hp) (Nat.not_lt_zero p)

theorem treeAmong_size (id : Nat) : a.treeAmong a.size id = a.tree id := by
  induction id using descent a with
  | step id ih =>
    have hall : (a.children id).filter (· < a.size) = a.children id := by
      rw [List.filter_eq_self]
      intro c hc
      exact decide_eq_true (mem_children hc).2
    rw [treeAmong_eq, tree_eq, hall]
    congr 1
    exact List.map_congr_left ih

/-- A node that comes after all nodes under consideration has no children among them. -/
theorem treeAmong_of_le {count id : Nat} (h : count ≤ id + 1) :
    a.treeAmong count id = a.leafAt id := by
  have hnone : (a.children id).filter (· < count) = [] := by
    rw [List.filter_eq_nil_iff]
    intro c hc
    have := (mem_children hc).1
    simp only [decide_eq_true_eq]
    omega
  rw [treeAmong_eq, hnone, List.map_nil, leafAt]

/-- The children of a node among the first nodes of an arena, found by their parent. -/
theorem Built.filter_children (h : Built a) {count : Nat} (inside : count ≤ a.size) (id : Nat) :
    (a.children id).filter (· < count) =
      (List.range count).filter fun c => a.parent? c == some id := by
  have hrange : (List.range a.size).filter (· < count) = List.range count := by
    obtain ⟨more, hsize⟩ := Nat.exists_eq_add_of_le inside
    have hfirst : (List.range count).filter (· < count) = List.range count := by
      rw [List.filter_eq_self]
      intro c hc
      exact decide_eq_true (List.mem_range.mp hc)
    have hmore : ((List.range more).map (count + ·)).filter (· < count) = [] := by
      rw [List.filter_eq_nil_iff]
      intro c hc
      obtain ⟨n, -, rfl⟩ := List.mem_map.mp hc
      simp
    rw [hsize, List.range_add, List.filter_append, hfirst, hmore, List.append_nil]
  rw [h.children_eq, kids, List.filter_comm, hrange]

/-- The next node is grafted onto its parent. -/
theorem Built.treeAmong_succ (h : Built a) {count p id : Nat} (inside : count < a.size)
    (hp : a.parent? count = some p) (hid : id < count) :
    a.treeAmong (count + 1) id = (a.treeAmong count id).graft p (a.leafAt count) := by
  induction id using descent a with
  | step id ih =>
    have hmore : (a.children id).filter (· < count + 1) =
        (a.children id).filter (· < count) ++ if id = p then [count] else [] := by
      rw [h.filter_children inside, h.filter_children (Nat.le_of_lt inside), List.range_succ,
        List.filter_append]
      by_cases hidp : id = p
      · simp [hp, hidp]
      · simp [hp, hidp, Ne.symm hidp]
    have hold : ((a.children id).filter (· < count)).map (a.treeAmong (count + 1)) =
        ((a.children id).filter (· < count)).map fun c =>
          (a.treeAmong count c).graft p (a.leafAt count) := by
      apply List.map_congr_left
      intro c hc
      obtain ⟨hchild, hlt⟩ := List.mem_filter.mp hc
      exact ih c hchild (of_decide_eq_true hlt)
    rw [treeAmong_eq, treeAmong_eq a count, Tree.graft, Tree.graftEach_eq, hmore, List.map_append,
      hold, List.map_map]
    split
    · rw [List.map_singleton, treeAmong_of_le (Nat.le_refl _)]
      rfl
    · rfl

theorem Built.foldl_grow (h : Built a) {count : Nat} (inside : count ≤ a.size) (hpos : 0 < count) :
    (List.range count).foldl a.grow (a.leafAt 0) = a.treeAmong count 0 := by
  induction count with
  | zero => cases hpos
  | succ count ih =>
    rw [List.range_succ, List.foldl_append, List.foldl_cons, List.foldl_nil]
    by_cases hzero : count = 0
    · subst hzero
      rw [List.range_zero, List.foldl_nil, grow, h.parent?_root, treeAmong_of_le (Nat.le_refl _)]
      rfl
    · obtain ⟨p, hp⟩ := h.exists_parent inside hzero
      have hcount : 0 < count := Nat.pos_of_ne_zero hzero
      rw [ih (Nat.le_of_lt inside) hcount, grow, hp, h.treeAmong_succ inside hp hcount]
      rfl

/-- The links describe the tree that grows node by node. -/
theorem Built.tree_eq_grown (h : Built a) : a.tree 0 = a.grown := by
  rw [grown, h.foldl_grow (Nat.le_refl _) h.size_pos, treeAmong_size]

/-- Appending a node grafts it onto its parent. -/
theorem Built.tree_append (h : Built a) {parent : Nat} (inside : parent < a.size) (kind : NodeKind)
    {id : Nat} (hid : id < a.size) :
    (a.append parent kind).tree id = (a.tree id).graft parent (.node a.size kind []) := by
  obtain ⟨n, hn⟩ : ∃ n, a.node? parent = some n := ⟨_, Array.getElem?_eq_getElem inside⟩
  have hlast := h.linked.lastChild_lt hn
  have happended : Built (a.append parent kind) := h.append inside kind
  have hsize : (a.append parent kind).size = a.size + 1 := size_append ..
  have hparent : (a.append parent kind).parent? a.size = some parent := by
    rw [parent?_append hn hlast, if_pos rfl]
  have hleaf : (a.append parent kind).leafAt a.size = .node a.size kind [] := by
    rw [leafAt, kind?_append hn hlast, if_pos rfl]
    rfl
  have hold : ∀ id < a.size, (a.append parent kind).treeAmong a.size id = a.tree id := by
    intro id
    induction id using descent a with
    | step id ih =>
      intro hid
      have hchildren : ((a.append parent kind).children id).filter (· < a.size) = a.children id := by
        rw [happended.filter_children (by omega), h.children_eq, kids]
        apply List.filter_congr
        intro c hc
        rw [parent?_append hn hlast, if_neg (Nat.ne_of_lt (List.mem_range.mp hc))]
      rw [treeAmong_eq, tree_eq, hchildren, kind?_append hn hlast, if_neg (Nat.ne_of_lt hid)]
      congr 1
      exact List.map_congr_left fun c hc => ih c hc (Arena.mem_children hc).2
  rw [← treeAmong_size, hsize, happended.treeAmong_succ (by omega) hparent hid, hleaf, hold id hid]

theorem lt_of_mem_ancestors {id p : Nat} (h : p ∈ a.ancestors id) : p < id := by
  fun_induction ancestors a id with
  | case1 => cases h
  | case2 id q _ hlt ih =>
    rcases List.mem_cons.mp h with rfl | h
    · exact hlt
    · exact Nat.lt_trans (ih h) hlt
  | case3 => cases h

theorem ancestors_trans {id c n : Nat} (hc : id ∈ a.ancestors c)
    (hn : c ∈ a.ancestors n) : id ∈ a.ancestors n := by
  fun_induction ancestors a n with
  | case1 => cases hn
  | case2 n p hp hlt ih =>
    rcases List.mem_cons.mp hn with rfl | hn
    · exact List.mem_cons_of_mem _ hc
    · exact List.mem_cons_of_mem _ (ih hn)
  | case3 => cases hn

/-- Of the children of a node at most one is a given node or above it. -/
theorem Linked.eq_of_above (h : Linked a) {p c d n : Nat} (hc : a.parent? c = some p)
    (hd : a.parent? d = some p) (hcn : n = c ∨ c ∈ a.ancestors n) (hdn : n = d ∨ d ∈ a.ancestors n) :
    c = d := by
  have above {x y : Nat} (hx : a.parent? x = some p) (hy : a.parent? y = some p) :
      y ∉ a.ancestors x := by
    intro hmem
    have hlt := h.parent_lt hy
    rw [h.ancestors_eq hx] at hmem
    rcases List.mem_cons.mp hmem with rfl | hmem
    · omega
    · have := lt_of_mem_ancestors hmem
      omega
  fun_induction ancestors a n with
  | case1 n _ =>
    rcases hcn with rfl | hcn
    · rcases hdn with rfl | hdn
      · rfl
      · cases hdn
    · cases hcn
  | case2 n q hq _ ih =>
    rcases hcn with rfl | hcn
    · rcases hdn with rfl | hdn
      · rfl
      · rw [← h.ancestors_eq hq] at hdn
        exact absurd hdn (above hc hd)
    · rcases hdn with rfl | hdn
      · rw [← h.ancestors_eq hq] at hcn
        exact absurd hcn (above hd hc)
      · exact ih (by simpa [eq_comm] using hcn) (by simpa [eq_comm] using hdn)
  | case3 n q hq hlt => exact absurd (h.parent_lt hq) hlt

/-- A node is in the subtrees of itself and of the nodes above it. -/
theorem Built.mem_subtree_iff (h : Built a) {id n : Nat} :
    n ∈ a.subtree id ↔ n < a.size ∧ (n = id ∨ id ∈ a.ancestors n) := by
  constructor
  · intro hn
    refine ⟨lt_size_of_mem_subtree hn, ?_⟩
    induction id using descent a with
    | step id ih =>
      rw [subtree_eq] at hn
      split at hn
      · rcases List.mem_cons.mp hn with rfl | hn
        · exact .inl rfl
        · obtain ⟨c, hc, hn⟩ := List.mem_flatMap.mp hn
          have hid : id ∈ a.ancestors c := by
            rw [h.linked.ancestors_eq (h.parent?_of_mem_children hc)]
            exact List.mem_cons_self ..
          rcases ih c hc hn with rfl | hcn
          · exact .inr hid
          · exact .inr (ancestors_trans hid hcn)
      · cases hn
  · rintro ⟨inside, rfl | hid⟩
    · rw [subtree_eq, if_pos inside]
      exact List.mem_cons_self ..
    · fun_induction ancestors a n with
      | case1 => cases hid
      | case2 n p hp hlt ih =>
        have hchild := h.mem_children hp
        rcases List.mem_cons.mp hid with rfl | hid
        · apply mem_subtree_of_mem_children _ hchild
          rw [subtree_eq, if_pos (by omega)]
          exact List.mem_cons_self ..
        · exact mem_subtree_of_mem_children (ih (by omega) hid) hchild
      | case3 => cases hid

theorem Built.nodup_subtree (h : Built a) (id : Nat) : (a.subtree id).Nodup := by
  induction id using descent a with
  | step id ih =>
    rw [subtree_eq]
    split
    · rw [List.nodup_cons, List.nodup_flatMap]
      refine ⟨?_, ih, ?_⟩
      · intro hid
        obtain ⟨c, hc, hid⟩ := List.mem_flatMap.mp hid
        have hle := le_of_mem_subtree hid
        have hlt := Arena.mem_children hc
        omega
      · refine (h.nodup_children id).imp_of_mem fun {c d} hc hd hne n hcn hdn => hne ?_
        exact h.linked.eq_of_above (h.parent?_of_mem_children hc) (h.parent?_of_mem_children hd)
          (h.mem_subtree_iff.mp hcn).2 (h.mem_subtree_iff.mp hdn).2
    · exact List.nodup_nil

/-- From the root a subtree walk meets every node once. -/
theorem Built.subtree_perm (h : Built a) : (a.subtree 0).Perm (List.range a.size) := by
  rw [List.perm_ext_iff_of_nodup (h.nodup_subtree 0) List.nodup_range]
  intro n
  rw [List.mem_range]
  exact ⟨lt_size_of_mem_subtree, h.mem_subtree n⟩

theorem ids_tree {id : Nat} (inside : id < a.size) : (a.tree id).ids = a.subtree id := by
  induction id using descent a with
  | step id ih =>
    rw [tree_eq, subtree_eq, if_pos inside, Tree.ids, Tree.idsOf_eq, List.flatMap_map]
    congr 1
    exact List.flatMap_congr fun c hc => ih c hc (mem_children hc).2

/-- From a child of a node on, a walk along siblings gives that child and those behind it. -/
theorem Linked.gives_siblings (h : Linked a) {p : Nat} (before : List Nat) {behind : List Nat}
    (hkids : a.kids p = before ++ behind) : Gives a.nextSibling behind.head? behind := by
  induction behind generalizing before with
  | nil => exact .done rfl
  | cons c behind ih =>
    obtain ⟨n, hn, hnext⟩ := h.next_eq hkids
    have hgoes : a.nextSibling (some c) = some (c, behind.head?) := by
      rw [nextSibling, hn, Option.map_some, hnext]
    have hrest : a.kids p = (before ++ [c]) ++ behind := by
      rw [hkids, List.append_assoc, List.singleton_append]
    exact .item hgoes (ih (before ++ [c]) hrest)

/-- With a node on top of the stack, a walk down gives the subtree of the node and then what the
stack below gives. -/
theorem gives_subtree {id : Nat} (inside : id < a.size) (below : List Nat) {others : List Nat}
    (h : Gives a.nextBelow below.reverse.toArray others) :
    Gives a.nextBelow (id :: below).reverse.toArray (a.subtree id ++ others) := by
  induction id using descent a generalizing below others with
  | step id ih =>
    have hgoes : a.nextBelow (id :: below).reverse.toArray =
        some (id, (a.children id ++ below).reverse.toArray) := by
      simp [nextBelow]
    have hchildren : ∀ cs, (∀ c ∈ cs, c ∈ a.children id) →
        Gives a.nextBelow (cs ++ below).reverse.toArray (cs.flatMap a.subtree ++ others) := by
      intro cs hcs
      induction cs with
      | nil => exact h
      | cons c rest ihcs =>
        have hc := hcs c (List.mem_cons_self ..)
        rw [List.flatMap_cons, List.append_assoc]
        exact ih c hc (mem_children hc).2 _ (ihcs fun d hd => hcs d (List.mem_cons_of_mem _ hd))
    rw [subtree_eq, if_pos inside]
    exact .item hgoes (hchildren _ fun _ hc => hc)

/-- An arena whose links describe a tree, and whose walks run through that tree. -/
structure IsTree (a : Arena) : Prop where
  root : a.parent? 0 = none
  parent : ∀ id < a.size, id ≠ 0 → ∃ p < id, a.parent? id = some p
  tree_eq : a.tree 0 = a.grown
  /-- The sibling links run through the nodes that name a node as their parent, in the order of
  their creation, and end at its last child. -/
  siblings : ∀ id n, a.node? id = some n →
    Gives a.nextSibling n.firstChild (a.kids id) ∧ n.lastChild = (a.kids id).getLast? ∧
      a.children id = a.kids id
  /-- A walk down from a node ends and gives its subtree, each node before those below it. -/
  below : ∀ id < a.size, Gives a.nextBelow #[id] (a.tree id).ids ∧ (a.tree id).ids.Nodup ∧
    ∀ n, n ∈ (a.tree id).ids ↔ n < a.size ∧ (n = id ∨ id ∈ a.ancestors n)
  all : (a.tree 0).ids.Perm (List.range a.size)

theorem Built.isTree (h : Built a) : IsTree a where
  root := h.parent?_root
  parent id inside hid := by
    obtain ⟨p, hp⟩ := h.exists_parent inside hid
    exact ⟨p, h.linked.parent_lt hp, hp⟩
  tree_eq := h.tree_eq_grown
  siblings id n hn := by
    have hgives : Gives a.nextSibling (a.kids id).head? (a.kids id) :=
      h.linked.gives_siblings [] rfl
    rw [← h.linked.firstChild hn] at hgives
    exact ⟨hgives, h.linked.lastChild hn, h.children_eq id⟩
  below id inside := by
    rw [ids_tree inside]
    have hgives := gives_subtree inside [] (.done rfl)
    rw [List.append_nil] at hgives
    exact ⟨hgives, h.nodup_subtree id, fun n => h.mem_subtree_iff⟩
  all := by
    rw [ids_tree h.size_pos]
    exact h.subtree_perm

end Arena

theorem nodup_preorder (doc : Document) : doc.preorder.Nodup := doc.built.nodup_subtree 0

theorem mem_preorder {doc : Document} {id : Nat} : id ∈ doc.preorder ↔ id < doc.size :=
  ⟨Arena.lt_size_of_mem_subtree, doc.built.mem_subtree id⟩

theorem children_attach {doc : Document} {parent : Nat} (inside : parent < doc.size)
    (kind : NodeKind) (id : Nat) :
    (doc.attach parent kind).children id =
      doc.children id ++ if id = parent then [doc.size] else [] := by
  obtain ⟨n, hn⟩ : ∃ n, doc.arena.node? parent = some n := ⟨_, Array.getElem?_eq_getElem inside⟩
  rw [children, (doc.attach parent kind).built.children_eq, children, doc.built.children_eq, attach,
    dif_pos inside]
  exact Arena.kids_append hn (doc.built.linked.lastChild_lt hn) kind id

/-- Every document is a tree: its links describe what grows from the root when each node is added
as the last child of its parent, and walks over them end. Appending a node to any other grafts it
there and leaves all other children as they are. -/
theorem arena_is_tree (doc : Document) :
    doc.arena.IsTree ∧
    ∀ parent kind, parent < doc.size → ∃ later, doc.append parent kind = .ok (doc.size, later) ∧
      later.tree = doc.tree.graft parent (.node doc.size kind []) ∧
      (∀ id, later.children id = doc.children id ++ if id = parent then [doc.size] else []) ∧
      ∀ id < doc.size, later.kind? id = doc.kind? id := by
  refine ⟨doc.built.isTree, fun parent kind inside => ?_⟩
  refine ⟨doc.attach parent kind, if_pos inside, ?_, children_attach inside kind, fun id hid => ?_⟩
  · rw [tree, attach, dif_pos inside]
    exact doc.built.tree_append inside kind doc.built.size_pos
  · rw [kind?_attach inside, if_neg (Nat.ne_of_lt hid)]

end DitaTopic.Document
