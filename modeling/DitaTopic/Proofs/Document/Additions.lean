import DitaTopic.Proofs.Document.RoundTrip

/-!
# Documents with nodes added

What stays as it was when nodes are added to a document, in whatever places: the kinds of the nodes
that were there, their order among themselves, and the text of every node below which nothing was
added.
-/

namespace DitaTopic.Document

/-- A document with the nodes of another one and more of them, which come last among their
siblings. -/
structure Extends (doc later : Document) : Prop where
  size : doc.size ≤ later.size
  kind : ∀ id < doc.size, later.kind? id = doc.kind? id
  children : ∀ id, (later.children id).filter (· < doc.size) = doc.children id

/-- Only the items that pass a test count, if the others give nothing. -/
theorem flatMap_eq_of_filter {α β : Type} {p : α → Bool} {f g : α → List β} {l : List α}
    (hpass : ∀ c ∈ l, p c = true → f c = g c) (hfail : ∀ c ∈ l, p c = false → f c = []) :
    l.flatMap f = (l.filter p).flatMap g := by
  induction l with
  | nil => rfl
  | cons c rest ih =>
    have hrest := ih (fun d hd => hpass d (List.mem_cons_of_mem _ hd))
      fun d hd => hfail d (List.mem_cons_of_mem _ hd)
    have hc : c ∈ c :: rest := List.mem_cons_self ..
    cases hp : p c with
    | true => rw [List.flatMap_cons, hpass c hc hp, hrest, List.filter_cons_of_pos hp,
        List.flatMap_cons]
    | false => rw [List.flatMap_cons, hfail c hc hp, hrest, List.filter_cons_of_neg (by simp [hp]),
        List.nil_append]

variable {doc later last : Document}

theorem subtree_of_lt_size {id : Nat} (h : id < doc.size) :
    doc.subtree id = id :: (doc.children id).flatMap doc.subtree := by
  rw [subtree, Arena.subtree_eq]
  exact if_pos h

theorem subtree_of_size_le {id : Nat} (h : doc.size ≤ id) : doc.subtree id = [] := by
  rw [subtree, Arena.subtree_eq]
  exact if_neg (Nat.not_lt.mpr h)

/-- The text that a node contributes itself, its children apart. -/
def ownText (doc : Document) (id : Nat) : String := ((doc.kind? id).map NodeKind.ownText).getD ""

/-- The own texts of nodes one after the other. -/
def textOf (doc : Document) (ids : List Nat) : String := String.join (ids.map doc.ownText)

theorem textContent_eq_textOf (doc : Document) (id : Nat) :
    doc.textContent id = doc.textOf (doc.subtree id) := rfl

namespace Extends

theorem refl (doc : Document) : Extends doc doc where
  size := Nat.le_refl _
  kind _ _ := rfl
  children id := by
    rw [List.filter_eq_self]
    intro c hc
    exact decide_eq_true (Arena.mem_children hc).2

theorem trans (h : Extends doc later) (h' : Extends later last) : Extends doc last where
  size := Nat.le_trans h.size h'.size
  kind id hid := (h'.kind id (Nat.lt_of_lt_of_le hid h.size)).trans (h.kind id hid)
  children id := by
    rw [← h.children, ← h'.children, List.filter_filter]
    apply List.filter_congr
    intro c _
    have hsize := h.size
    rw [← Bool.decide_and, decide_eq_decide]
    omega

theorem of_attach {parent : Nat} (inside : parent < doc.size) (kind : NodeKind) :
    Extends doc (doc.attach parent kind) where
  size := by
    rw [size_attach inside]
    exact Nat.le_succ _
  kind id hid := by rw [kind?_attach inside, if_neg (Nat.ne_of_lt hid)]
  children id := by
    have hnone : (if id = parent then [doc.size] else []).filter (· < doc.size) = [] := by
      split <;> simp
    rw [children_attach inside, List.filter_append, hnone, List.append_nil]
    exact (refl doc).children id

theorem of_appendAll {nodes : List (Nat × NodeKind)} (h : doc.appendAll nodes = .ok later) :
    Extends doc later := by
  induction nodes generalizing doc with
  | nil =>
    cases h
    exact refl _
  | cons node rest ih =>
    by_cases inside : node.1 < doc.size
    · have hnode : doc.append node.1 node.2 = .ok (doc.size, doc.attach node.1 node.2) :=
        if_pos inside
      rw [appendAll, List.foldlM_cons, hnode] at h
      exact (of_attach inside node.2).trans (ih h)
    · have hnode : doc.append node.1 node.2 = .error ⟨node.1⟩ := if_neg inside
      rw [appendAll, List.foldlM_cons, hnode] at h
      cases h

/-- Of the nodes below a node, those that were there before are met in the same order. -/
theorem filter_subtree (h : Extends doc later) (id : Nat) :
    (later.subtree id).filter (· < doc.size) = doc.subtree id := by
  induction id using Arena.descent later.arena with
  | step id ih =>
    by_cases hid : id < doc.size
    · have hchildren : ((later.children id).flatMap later.subtree).filter (· < doc.size) =
          (doc.children id).flatMap doc.subtree := by
        rw [List.filter_flatMap, ← h.children]
        refine flatMap_eq_of_filter (fun c hc _ => ih c hc) fun c hc hnew => ?_
        rw [ih c hc]
        exact subtree_of_size_le (Nat.le_of_not_lt (of_decide_eq_false hnew))
      rw [subtree_of_lt_size (Nat.lt_of_lt_of_le hid h.size), subtree_of_lt_size hid,
        List.filter_cons, if_pos (decide_eq_true hid), hchildren]
    · rw [subtree_of_size_le (Nat.le_of_not_lt hid), List.filter_eq_nil_iff]
      intro n hn
      have hle := Arena.le_of_mem_subtree hn
      simp only [decide_eq_true_eq]
      omega

theorem filter_preorder (h : Extends doc later) :
    later.preorder.filter (· < doc.size) = doc.preorder := h.filter_subtree rootId

/-- Nodes that were there before have the texts they had. -/
theorem textOf_eq (h : Extends doc later) {ids : List Nat} (hids : ∀ n ∈ ids, n < doc.size) :
    later.textOf ids = doc.textOf ids := by
  have hown : ids.map later.ownText = ids.map doc.ownText := by
    apply List.map_congr_left
    intro n hn
    rw [ownText, h.kind n (hids n hn), ownText]
  rw [textOf, hown, textOf]

/-- Where nothing was added below a node, its text is as it was. -/
theorem textContent_eq (h : Extends doc later) {id : Nat}
    (hbelow : ∀ n ∈ later.subtree id, n < doc.size) :
    later.textContent id = doc.textContent id := by
  have hsubtree : later.subtree id = doc.subtree id := by
    rw [← h.filter_subtree, List.filter_eq_self.mpr fun n hn => decide_eq_true (hbelow n hn)]
  rw [textContent_eq_textOf, h.textOf_eq hbelow, hsubtree, textContent_eq_textOf]

end Extends

end DitaTopic.Document
