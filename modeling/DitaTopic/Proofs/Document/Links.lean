import DitaTopic.Document.Basic

/-!
# The links of an arena

In a built arena the links say no more than the parents do: the children of a node are the
nodes that name it as their parent, in the order of their creation. `Linked` states this for
each kind of link, and appending and extending preserve it.
-/

namespace DitaTopic.Document

theorem le_of_getLast? {l : List Nat} (h : l.Pairwise (· < ·)) {c x : Nat}
    (hc : l.getLast? = some c) (hx : x ∈ l) : x ≤ c := by
  obtain ⟨before, rfl⟩ := List.getLast?_eq_some_iff.mp hc
  rcases List.mem_append.mp hx with hx | hx
  · exact Nat.le_of_lt ((List.pairwise_append.mp h).2.2 x hx c (List.mem_cons_self ..))
  · exact Nat.le_of_eq (List.mem_singleton.mp hx)

theorem find?_append_of_last {l : List Nat} (h : l.Pairwise (· < ·)) {c m : Nat}
    (hc : l.getLast? = some c) (hm : c < m) : (l ++ [m]).find? (c < ·) = some m := by
  have hnone : l.find? (c < ·) = none := by
    rw [List.find?_eq_none]
    intro x hx
    simpa using le_of_getLast? h hc hx
  rw [List.find?_append, hnone]
  simp [hm]

/-- What is added behind the last number is the next one to that alone. -/
theorem find?_append_of_not_last {l : List Nat} (h : l.Pairwise (· < ·)) {c : Nat} (hc : c ∈ l)
    (hlast : l.getLast? ≠ some c) (m : Nat) : (l ++ [m]).find? (c < ·) = l.find? (c < ·) := by
  obtain ⟨last, hl⟩ : ∃ last, l.getLast? = some last := by
    cases hk : l.getLast? with
    | none => rw [List.getLast?_eq_none_iff.mp hk] at hc; cases hc
    | some last => exact ⟨last, rfl⟩
  have hle := le_of_getLast? h hl hc
  have hne : c ≠ last := fun e => hlast (e ▸ hl)
  have hlt : c < last := by omega
  have hsome : (l.find? (c < ·)).isSome :=
    List.find?_isSome.mpr ⟨last, List.mem_of_getLast? hl, decide_eq_true hlt⟩
  obtain ⟨following, hf⟩ := Option.isSome_iff_exists.mp hsome
  rw [List.find?_append, hf]
  rfl

namespace Arena

def parent? (a : Arena) (id : Nat) : Option Nat := (a.node? id).bind Node.parent

/-- The nodes that name a node as their parent, in the order of their creation. -/
def kids (a : Arena) (id : Nat) : List Nat := (List.range a.size).filter fun c => a.parent? c == some id

theorem mem_kids {a : Arena} {id c : Nat} : c ∈ a.kids id ↔ c < a.size ∧ a.parent? c = some id := by
  rw [kids, List.mem_filter, List.mem_range, beq_iff_eq]

theorem kids_ascending (a : Arena) (id : Nat) : (a.kids id).Pairwise (· < ·) :=
  List.Pairwise.filter _ List.pairwise_lt_range

/-- What the links of an arena say, in terms of the parents. -/
structure Linked (a : Arena) : Prop where
  parent_lt : ∀ {c p : Nat}, a.parent? c = some p → p < c
  firstChild : ∀ {id : Nat} {n : Node}, a.node? id = some n → n.firstChild = (a.kids id).head?
  lastChild : ∀ {id : Nat} {n : Node}, a.node? id = some n → n.lastChild = (a.kids id).getLast?
  next : ∀ {id : Nat} {n : Node}, a.node? id = some n →
    n.next = n.parent.bind fun p => (a.kids p).find? (id < ·)

theorem node?_modify (a : Arena) (id c : Nat) (f : Node → Node) :
    (a.modify id f).node? c = if id = c then (a.node? c).map f else a.node? c := by
  simp only [node?, modify, Array.getElem?_modify]

theorem node?_push (a : Arena) (n : Node) (c : Nat) :
    Arena.node? ⟨a.nodes.push n⟩ c = if c = a.size then some n else a.node? c := by
  simp only [node?, size, Array.getElem?_push]
  rfl

/-- A node of an arena after appending below `parent`, whose last child was `last`. -/
def relinked (size parent : Nat) (last : Option Nat) (id : Nat) (n : Node) : Node :=
  { n with
    firstChild := if id = parent ∧ last = none then some size else n.firstChild
    lastChild := if id = parent then some size else n.lastChild
    next := if last = some id then some size else n.next }

theorem node?_append {a : Arena} {parent : Nat} {n : Node} (hn : a.node? parent = some n)
    (hlast : ∀ l, n.lastChild = some l → l < a.size) (kind : NodeKind) (id : Nat) :
    (a.append parent kind).node? id =
      if id = a.size then some { kind, parent := some parent }
      else (a.node? id).map (relinked a.size parent n.lastChild id) := by
  have hparent : parent < a.size := lt_size_of_node? hn
  have hgrown : Arena.node? ⟨a.nodes.push { kind, parent := some parent }⟩ parent = some n := by
    rw [node?_push, if_neg (by omega), hn]
  rw [append, node?_modify, link, hgrown, Option.bind_some]
  by_cases hid : id = a.size
  · subst hid
    have hp : ¬ parent = a.size := by omega
    cases hl : n.lastChild with
    | none => simp [node?_modify, node?_push, hp]
    | some l =>
      have hne : ¬ l = a.size := Nat.ne_of_lt (hlast l hl)
      simp [node?_modify, node?_push, hp, hne]
  · cases hm : a.node? id with
    | none => cases n.lastChild <;> simp [node?_modify, node?_push, hid, hm]
    | some m =>
      cases n.lastChild with
      | none =>
        by_cases hp : parent = id
        · simp [node?_modify, node?_push, hid, hm, hp, relinked]
        · simp [node?_modify, node?_push, hid, hm, hp, Ne.symm hp, relinked]
      | some l =>
        by_cases hp : parent = id
        · by_cases hne : l = id <;>
            simp [node?_modify, node?_push, hid, hm, hp, hne, relinked]
        · by_cases hne : l = id <;>
            simp [node?_modify, node?_push, hid, hm, hp, Ne.symm hp, hne, relinked]

theorem parent?_append {a : Arena} {parent : Nat} {n : Node} (hn : a.node? parent = some n)
    (hlast : ∀ l, n.lastChild = some l → l < a.size) (kind : NodeKind) (id : Nat) :
    (a.append parent kind).parent? id = if id = a.size then some parent else a.parent? id := by
  rw [parent?, node?_append hn hlast]
  split
  · rfl
  · rw [parent?]
    cases a.node? id <;> rfl

theorem kind?_append {a : Arena} {parent : Nat} {n : Node} (hn : a.node? parent = some n)
    (hlast : ∀ l, n.lastChild = some l → l < a.size) (kind : NodeKind) (id : Nat) :
    (a.append parent kind).kind? id = if id = a.size then some kind else a.kind? id := by
  rw [kind?, node?_append hn hlast]
  split
  · rfl
  · rw [kind?]
    cases a.node? id <;> rfl

/-- Appending makes the new node the last child of its parent and changes no other children. -/
theorem kids_append {a : Arena} {parent : Nat} {n : Node} (hn : a.node? parent = some n)
    (hlast : ∀ l, n.lastChild = some l → l < a.size) (kind : NodeKind) (id : Nat) :
    (a.append parent kind).kids id = a.kids id ++ if id = parent then [a.size] else [] := by
  have hold : (List.range a.size).filter (fun c => (a.append parent kind).parent? c == some id) =
      a.kids id := by
    apply List.filter_congr
    intro c hc
    rw [parent?_append hn hlast, if_neg (Nat.ne_of_lt (List.mem_range.mp hc))]
  rw [kids, size_append, List.range_succ, List.filter_append, hold]
  by_cases hid : id = parent
  · simp [parent?_append hn hlast, hid]
  · simp [parent?_append hn hlast, hid, Ne.symm hid]

theorem parent?_extend (a : Arena) (id c : Nat) (more : String) :
    (a.extend id more).parent? c = a.parent? c := by
  rw [parent?, extend, node?_modify, parent?]
  split
  · cases a.node? c <;> rfl
  · rfl

theorem kind?_extend (a : Arena) (id c : Nat) (more : String) :
    (a.extend id more).kind? c =
      if id = c then (a.kind? c).map fun kind => kind.extend more else a.kind? c := by
  rw [kind?, extend, node?_modify, kind?]
  split
  · cases a.node? c <;> rfl
  · rfl

theorem kids_extend (a : Arena) (id c : Nat) (more : String) :
    (a.extend id more).kids c = a.kids c := by
  simp only [kids, size_extend, parent?_extend]

namespace Linked

theorem root : Linked Arena.root where
  parent_lt {c p} h := by
    cases c <;> simp [parent?, node?, Arena.root] at h
  firstChild {id n} h := by
    cases id <;> simp [node?, Arena.root] at h
    subst h
    rfl
  lastChild {id n} h := by
    cases id <;> simp [node?, Arena.root] at h
    subst h
    rfl
  next {id n} h := by
    cases id <;> simp [node?, Arena.root] at h
    subst h
    rfl

variable {a : Arena}

theorem lastChild_lt (h : Linked a) {id : Nat} {n : Node} (hn : a.node? id = some n) (l : Nat)
    (hl : n.lastChild = some l) : l < a.size := by
  rw [h.lastChild hn] at hl
  exact (mem_kids.mp (List.mem_of_getLast? hl)).1

theorem kids_size (h : Linked a) : a.kids a.size = [] := by
  apply List.eq_nil_iff_forall_not_mem.mpr
  intro c hc
  obtain ⟨hlt, hparent⟩ := mem_kids.mp hc
  have := h.parent_lt hparent
  omega

theorem append (h : Linked a) {parent : Nat} (inside : parent < a.size) (kind : NodeKind) :
    Linked (a.append parent kind) := by
  obtain ⟨n, hn⟩ : ∃ n, a.node? parent = some n := ⟨_, Array.getElem?_eq_getElem inside⟩
  have hlast := h.lastChild_lt hn
  have hkids := kids_append hn hlast kind
  constructor
  case parent_lt =>
    intro c p hc
    rw [parent?_append hn hlast] at hc
    split at hc
    · obtain rfl := Option.some.inj hc
      omega
    · exact h.parent_lt hc
  all_goals
    intro id m hm
    rw [node?_append hn hlast] at hm
    split at hm
  case firstChild.isTrue hid =>
    obtain rfl := Option.some.inj hm
    rw [hkids, hid, h.kids_size, if_neg (by omega)]
    rfl
  case lastChild.isTrue hid =>
    obtain rfl := Option.some.inj hm
    rw [hkids, hid, h.kids_size, if_neg (by omega)]
    rfl
  case next.isTrue hid =>
    obtain rfl := Option.some.inj hm
    symm
    rw [Option.bind_some, hkids, if_pos rfl, List.find?_eq_none]
    intro c hc
    rcases List.mem_append.mp hc with hc | hc
    · have := (mem_kids.mp hc).1
      simp only [decide_eq_true_eq]
      omega
    · simp only [List.mem_singleton] at hc
      simp [hid, hc]
  all_goals obtain ⟨old, hold, rfl⟩ := Option.map_eq_some_iff.mp hm
  case firstChild.isFalse hid =>
    show (if id = parent ∧ n.lastChild = none then some a.size else old.firstChild) = _
    rw [hkids, List.head?_append, h.firstChild hold, h.lastChild hn]
    by_cases hp : id = parent
    · subst hp
      cases a.kids id <;> simp
    · simp [hp]
  case lastChild.isFalse hid =>
    show (if id = parent then some a.size else old.lastChild) = _
    rw [hkids, List.getLast?_append, h.lastChild hold]
    by_cases hp : id = parent <;> simp [hp]
  case next.isFalse hid =>
    show (if n.lastChild = some id then some a.size else old.next) =
      old.parent.bind fun p => ((a.append parent kind).kids p).find? (id < ·)
    rw [h.next hold, h.lastChild hn]
    have hparent : a.parent? id = old.parent := by rw [parent?, hold, Option.bind_some]
    have hlt : id < a.size := lt_size_of_node? hold
    have hsorted := a.kids_ascending parent
    -- The node before the new one is the last child so far: no other node gets a new neighbour.
    by_cases hid' : (a.kids parent).getLast? = some id
    · have hmem := (mem_kids.mp (List.mem_of_getLast? hid')).2
      rw [if_pos hid', ← hparent, hmem, Option.bind_some, hkids, if_pos rfl]
      exact (find?_append_of_last hsorted hid' hlt).symm
    · rw [if_neg hid']
      cases hp : old.parent with
      | none => rfl
      | some p =>
        rw [Option.bind_some, Option.bind_some, hkids]
        by_cases hpp : p = parent
        · subst hpp
          have hmem : id ∈ a.kids p := mem_kids.mpr ⟨hlt, hparent.trans hp⟩
          rw [if_pos rfl]
          exact (find?_append_of_not_last hsorted hmem hid' a.size).symm
        · rw [if_neg hpp, List.append_nil]

theorem extend (h : Linked a) (id : Nat) (more : String) : Linked (a.extend id more) := by
  have old {c : Nat} {n : Node} (hn : (a.extend id more).node? c = some n) :
      ∃ m, a.node? c = some m ∧ m.parent = n.parent ∧ m.firstChild = n.firstChild ∧
        m.lastChild = n.lastChild ∧ m.next = n.next := by
    rw [Arena.extend, node?_modify] at hn
    split at hn
    · obtain ⟨m, hm, rfl⟩ := Option.map_eq_some_iff.mp hn
      exact ⟨m, hm, rfl, rfl, rfl, rfl⟩
    · exact ⟨n, hn, rfl, rfl, rfl, rfl⟩
  constructor
  case parent_lt =>
    intro c p hc
    rw [parent?_extend] at hc
    exact h.parent_lt hc
  all_goals
    intro c n hn
    obtain ⟨m, hm, hparent, hfirst, hlast, hnext⟩ := old hn
  case firstChild => rw [kids_extend, ← hfirst, h.firstChild hm]
  case lastChild => rw [kids_extend, ← hlast, h.lastChild hm]
  case next =>
    rw [← hnext, h.next hm, hparent]
    simp only [kids_extend]

end Linked

theorem Linked.next_eq {a : Arena} (h : Linked a) {p c : Nat} {before behind : List Nat}
    (hkids : a.kids p = before ++ c :: behind) :
    ∃ n, a.node? c = some n ∧ n.next = behind.head? := by
  have hc : c ∈ a.kids p := hkids ▸ List.mem_append_right _ (List.mem_cons_self ..)
  obtain ⟨hlt, hparent⟩ := mem_kids.mp hc
  obtain ⟨n, hn⟩ : ∃ n, a.node? c = some n := ⟨_, Array.getElem?_eq_getElem hlt⟩
  refine ⟨n, hn, ?_⟩
  have hp : n.parent = some p := by rwa [parent?, hn, Option.bind_some] at hparent
  have hsorted := a.kids_ascending p
  rw [hkids] at hsorted
  have hsplit := List.pairwise_append.mp hsorted
  rw [h.next hn, hp, Option.bind_some, hkids, List.find?_append]
  have hbefore : before.find? (c < ·) = none := by
    rw [List.find?_eq_none]
    intro x hx
    have := hsplit.2.2 x hx c (List.mem_cons_self ..)
    simp only [decide_eq_true_eq]
    omega
  rw [hbefore, Option.none_or, List.find?_cons_of_neg (by simp)]
  cases behind with
  | nil => rfl
  | cons d behind =>
    have : c < d := (List.pairwise_cons.mp hsplit.2.1).1 d (List.mem_cons_self ..)
    rw [List.find?_cons_of_pos (by simpa using this), List.head?_cons]

theorem Built.linked {a : Arena} (h : Built a) : Linked a := by
  induction h with
  | root => exact .root
  | append _ inside kind ih => exact ih.append inside kind
  | extend _ id more ih => exact ih.extend id more

/-- The root of every built arena is a document node. -/
theorem Built.kind?_root {a : Arena} (h : Built a) : a.kind? 0 = some .document := by
  induction h with
  | root => rfl
  | @append a built parent inside kind ih =>
    have hpos := built.size_pos
    obtain ⟨n, hn⟩ : ∃ n, a.node? parent = some n := ⟨_, Array.getElem?_eq_getElem inside⟩
    rw [kind?_append hn (built.linked.lastChild_lt hn), if_neg (by omega), ih]
  | extend _ id more ih =>
    rw [kind?_extend, ih]
    split <;> rfl

/-- The siblings from a node on are the node and, where its link leads forward, those from there. -/
theorem siblingsFrom_of_node {a : Arena} {c : Nat} {n : Node} (hn : a.node? c = some n) :
    a.siblingsFrom c =
      match n.next with
      | none => [c]
      | some d => if c < d then c :: a.siblingsFrom d else [c] := by
  rw [siblingsFrom]
  split
  · next hnone =>
    rw [hn] at hnone
    cases hnone
  · next m hm =>
    obtain rfl := Option.some.inj (hn.symm.trans hm)
    cases n.next <;> rfl

/-- Following the sibling links from a child runs through the children after it. -/
theorem Linked.siblingsFrom_eq {a : Arena} (h : Linked a) {p c : Nat} {before behind : List Nat}
    (hkids : a.kids p = before ++ c :: behind) : a.siblingsFrom c = c :: behind := by
  induction behind generalizing before c with
  | nil =>
    obtain ⟨n, hn, hnext⟩ := h.next_eq hkids
    rw [siblingsFrom_of_node hn, hnext]
    rfl
  | cons d behind ih =>
    obtain ⟨n, hn, hnext⟩ := h.next_eq hkids
    have hsorted := a.kids_ascending p
    rw [hkids] at hsorted
    have hlt : c < d :=
      (List.pairwise_cons.mp (List.pairwise_append.mp hsorted).2.1).1 d (List.mem_cons_self ..)
    have hkids' : a.kids p = (before ++ [c]) ++ d :: behind := by
      rw [hkids, List.append_assoc, List.singleton_append]
    have hrest : a.siblingsFrom d = d :: behind := ih hkids'
    rw [siblingsFrom_of_node hn, hnext, List.head?_cons]
    show (if c < d then c :: a.siblingsFrom d else [c]) = _
    rw [if_pos hlt, hrest]

/-- The children of a node of a built arena are the nodes that name it as their parent. -/
theorem Built.children_eq {a : Arena} (h : Built a) (id : Nat) : a.children id = a.kids id := by
  have hlinked := h.linked
  rw [children]
  cases hn : a.node? id with
  | none =>
    symm
    apply List.eq_nil_iff_forall_not_mem.mpr
    intro c hc
    obtain ⟨hlt, hparent⟩ := mem_kids.mp hc
    have hsize : id < a.size := Nat.lt_trans (hlinked.parent_lt hparent) hlt
    rw [node?, Array.getElem?_eq_none_iff] at hn
    exact absurd hsize (Nat.not_lt.mpr hn)
  | some n =>
    rw [Option.bind_some, hlinked.firstChild hn]
    cases hk : a.kids id with
    | nil => rfl
    | cons first rest =>
      have hfirst : first ∈ a.kids id := hk ▸ List.mem_cons_self ..
      rw [List.head?_cons]
      show (if id < first then a.siblingsFrom first else []) = _
      have hk' : a.kids id = [] ++ first :: rest := hk
      rw [if_pos (hlinked.parent_lt (mem_kids.mp hfirst).2), hlinked.siblingsFrom_eq hk']

theorem Built.nodup_children {a : Arena} (h : Built a) (id : Nat) : (a.children id).Nodup := by
  rw [h.children_eq]
  exact (a.kids_ascending id).imp Nat.ne_of_lt

theorem Built.parent?_of_mem_children {a : Arena} (h : Built a) {id c : Nat}
    (hc : c ∈ a.children id) : a.parent? c = some id := by
  rw [h.children_eq] at hc
  exact (mem_kids.mp hc).2

theorem lt_size_of_parent? {a : Arena} {id p : Nat} (h : a.parent? id = some p) : id < a.size := by
  obtain ⟨n, hn, -⟩ := Option.bind_eq_some_iff.mp h
  exact lt_size_of_node? hn

theorem Built.mem_children {a : Arena} (h : Built a) {id p : Nat} (hp : a.parent? id = some p) :
    id ∈ a.children p := by
  rw [h.children_eq]
  exact mem_kids.mpr ⟨lt_size_of_parent? hp, hp⟩

/-- Every node but the root of a built arena has a parent. -/
theorem Built.exists_parent {a : Arena} (h : Built a) {id : Nat} (inside : id < a.size)
    (hid : id ≠ 0) : ∃ p, a.parent? id = some p := by
  induction h with
  | root => exact absurd (Nat.lt_one_iff.mp inside) hid
  | @append a built parent hparent kind ih =>
    obtain ⟨n, hn⟩ : ∃ n, a.node? parent = some n := ⟨_, Array.getElem?_eq_getElem hparent⟩
    rw [parent?_append hn (built.linked.lastChild_lt hn)]
    split
    · exact ⟨parent, rfl⟩
    · next hne =>
      rw [size_append] at inside
      exact ih (by omega)
  | extend _ _ more ih =>
    rw [size_extend] at inside
    rw [parent?_extend]
    exact ih inside

end Arena

variable {doc : Document} {parent : Nat}

theorem lt_size_of_kind? {id : Nat} {kind : NodeKind} (h : doc.kind? id = some kind) :
    id < doc.size := by
  obtain ⟨n, hn, -⟩ := Option.map_eq_some_iff.mp h
  exact Arena.lt_size_of_node? hn

theorem kind?_attach (inside : parent < doc.size) (kind : NodeKind) (id : Nat) :
    (doc.attach parent kind).kind? id = if id = doc.size then some kind else doc.kind? id := by
  obtain ⟨n, hn⟩ : ∃ n, doc.arena.node? parent = some n := ⟨_, Array.getElem?_eq_getElem inside⟩
  rw [attach, dif_pos inside]
  exact Arena.kind?_append hn (doc.built.linked.lastChild_lt hn) kind id

theorem parent?_attach (inside : parent < doc.size) (kind : NodeKind) (id : Nat) :
    (doc.attach parent kind).arena.parent? id =
      if id = doc.size then some parent else doc.arena.parent? id := by
  obtain ⟨n, hn⟩ : ∃ n, doc.arena.node? parent = some n := ⟨_, Array.getElem?_eq_getElem inside⟩
  rw [attach, dif_pos inside]
  exact Arena.parent?_append hn (doc.built.linked.lastChild_lt hn) kind id

end DitaTopic.Document
