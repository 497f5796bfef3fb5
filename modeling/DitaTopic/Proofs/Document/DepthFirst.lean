import DitaTopic.Proofs.Document.RoundTrip

/-!
# Nodes created depth first

Reading events puts each new node below the node created just before it or below one above that,
since the open nodes are the path from the innermost of them up to the root. In an arena that grows
in this way the nodes of a subtree follow each other without a gap, and the order of the document
is the order of creation.
-/

namespace DitaTopic.Document

namespace Arena

/-- A node and the nodes above it, nearest first. -/
def path (a : Arena) (id : Nat) : List Nat := id :: a.ancestors id

/-- Each node was put below the one created before it, or below one above that. -/
def DepthFirst (a : Arena) : Prop := ∀ id p, a.parent? (id + 1) = some p → p ∈ a.path id

variable {a b : Arena} {id c d m n p : Nat}

theorem le_of_mem_path (h : p ∈ a.path id) : p ≤ id := by
  rcases List.mem_cons.mp h with rfl | h
  · exact Nat.le_refl p
  · exact Nat.le_of_lt (lt_of_mem_ancestors h)

theorem mem_path_trans (h : id ∈ a.path c) (h' : c ∈ a.path n) : id ∈ a.path n := by
  rcases List.mem_cons.mp h with rfl | h
  · exact h'
  · rcases List.mem_cons.mp h' with rfl | h'
    · exact List.mem_cons_of_mem _ h
    · exact List.mem_cons_of_mem _ (ancestors_trans h h')

theorem ancestors_congr (h : ∀ c ≤ id, a.parent? c = b.parent? c) :
    a.ancestors id = b.ancestors id := by
  induction id using Nat.strongRecOn with
  | ind id ih =>
    rw [ancestors, ancestors, h id (Nat.le_refl id)]
    cases b.parent? id with
    | none => rfl
    | some p =>
      show (if _up : p < id then p :: a.ancestors p else []) =
        if _up : p < id then p :: b.ancestors p else []
      split
      · next hlt => rw [ih p hlt fun c hc => h c (by omega)]
      · rfl

/-- What is above a node is the path of its parent. -/
theorem eq_ancestors_of_cons {rest : List Nat} (h : a.ancestors id = p :: rest) :
    a.path p = p :: rest := by
  fun_cases ancestors a id with
  | case1 hp => rw [ancestors, hp] at h; cases h
  | case2 q hp hlt =>
    rw [ancestors, hp] at h
    obtain ⟨rfl, rfl⟩ := List.cons.inj ((dif_pos hlt).symm.trans h)
    rfl
  | case3 q hp hlt =>
    rw [ancestors, hp] at h
    cases (dif_neg hlt).symm.trans h

/-- Above a node there is a child of each node above it. -/
theorem Linked.exists_child (h : Linked a) (hp : p ∈ a.ancestors n) :
    ∃ c ∈ a.path n, a.parent? c = some p := by
  fun_induction ancestors a n with
  | case1 => cases hp
  | case2 n q hq _ ih =>
    rcases List.mem_cons.mp hp with rfl | hp
    · exact ⟨n, List.mem_cons_self .., hq⟩
    · obtain ⟨c, hc, hparent⟩ := ih hp
      refine ⟨c, List.mem_cons_of_mem _ ?_, hparent⟩
      rwa [h.ancestors_eq hq]
  | case3 => cases hp

/-- The nodes below a node follow it without a gap. -/
theorem DepthFirst.mem_path (h : a.DepthFirst) (hbuilt : Built a) (hid : id ∈ a.path n)
    (hm : id ≤ m) (hn : m ≤ n) (inside : n < a.size) : id ∈ a.path m := by
  induction n with
  | zero =>
    obtain rfl : m = 0 := Nat.le_zero.mp hn
    exact hid
  | succ n ih =>
    by_cases hlast : m = n + 1
    · rwa [hlast]
    · rcases List.mem_cons.mp hid with rfl | habove
      · omega
      · obtain ⟨q, hq⟩ := hbuilt.exists_parent inside (Nat.succ_ne_zero n)
        rw [hbuilt.linked.ancestors_eq hq] at habove
        exact ih (mem_path_trans habove (h n q hq)) (by omega) (by omega)

/-- What is below a node comes before the siblings behind it. -/
theorem DepthFirst.lt_of_siblings (h : a.DepthFirst) (hbuilt : Built a) (hc : a.parent? c = some p)
    (hd : a.parent? d = some p) (hcd : c < d) (hn : c ∈ a.path n) (inside : n < a.size) : n < d := by
  by_contra hle
  have hpath := h.mem_path hbuilt hn (Nat.le_of_lt hcd) (Nat.le_of_not_lt hle) inside
  rcases List.mem_cons.mp hpath with rfl | habove
  · exact Nat.lt_irrefl c hcd
  · rw [hbuilt.linked.ancestors_eq hd] at habove
    have hcp := le_of_mem_path habove
    have hpc := hbuilt.linked.parent_lt hc
    omega

theorem Built.mem_path_of_mem_subtree (h : Built a) (hn : n ∈ a.subtree id) : id ∈ a.path n := by
  rcases (h.mem_subtree_iff.mp hn).2 with rfl | habove
  · exact List.mem_cons_self ..
  · exact List.mem_cons_of_mem _ habove

theorem DepthFirst.subtree_ascending (h : a.DepthFirst) (hbuilt : Built a) (id : Nat) :
    (a.subtree id).Pairwise (· < ·) := by
  induction id using descent a with
  | step id ih =>
    rw [subtree_eq]
    split
    · refine List.pairwise_cons.mpr ⟨?_, List.pairwise_flatMap.mpr ⟨ih, ?_⟩⟩
      · intro n hn
        obtain ⟨c, hc, hn⟩ := List.mem_flatMap.mp hn
        exact Nat.lt_of_lt_of_le (mem_children hc).1 (le_of_mem_subtree hn)
      · have hascending : (a.children id).Pairwise (· < ·) :=
          hbuilt.children_eq id ▸ a.kids_ascending id
        refine hascending.imp_of_mem fun {c d} hc hd hcd n hn m hm => ?_
        have hbefore := h.lt_of_siblings hbuilt (hbuilt.parent?_of_mem_children hc)
          (hbuilt.parent?_of_mem_children hd) hcd (hbuilt.mem_path_of_mem_subtree hn)
          (lt_size_of_mem_subtree hn)
        exact Nat.lt_of_lt_of_le hbefore (le_of_mem_subtree hm)
    · exact List.Pairwise.nil

/-- From the root the nodes are met in the order of their creation. -/
theorem DepthFirst.subtree_root (h : a.DepthFirst) (hbuilt : Built a) :
    a.subtree 0 = List.range a.size :=
  hbuilt.subtree_perm.eq_of_pairwise (fun _ _ _ _ hlt hgt => absurd hlt (Nat.lt_asymm hgt))
    (h.subtree_ascending hbuilt 0) List.pairwise_lt_range

/-- A walk down from the root meets the nodes in the order of their creation. -/
theorem DepthFirst.gives_range (h : a.DepthFirst) (hbuilt : Built a) :
    Gives a.nextBelow #[0] (List.range a.size) := by
  have hgives := gives_subtree hbuilt.size_pos [] (.done rfl)
  rwa [List.append_nil, h.subtree_root hbuilt] at hgives

end Arena

/-- The node created last. -/
def newest (doc : Document) : Nat := doc.size - 1

section Changes

variable {doc : Document} {parent : Nat} {kind : NodeKind}

theorem newest_succ (doc : Document) : doc.newest + 1 = doc.size :=
  Nat.succ_pred_eq_of_pos doc.built.size_pos

theorem newest_lt (doc : Document) : doc.newest < doc.size := by
  rw [← newest_succ]
  exact Nat.lt_succ_self _

theorem ancestors_attach (inside : parent < doc.size) (kind : NodeKind) {id : Nat}
    (hid : id < doc.size) :
    (doc.attach parent kind).arena.ancestors id = doc.arena.ancestors id := by
  apply Arena.ancestors_congr
  intro c hc
  rw [parent?_attach inside, if_neg (by omega)]

theorem path_attach (inside : parent < doc.size) (kind : NodeKind) {id : Nat}
    (hid : id < doc.size) : (doc.attach parent kind).arena.path id = doc.arena.path id := by
  rw [Arena.path, ancestors_attach inside kind hid, Arena.path]

/-- The path of a new node goes through its parent. -/
theorem path_attach_new (inside : parent < doc.size) (kind : NodeKind) :
    (doc.attach parent kind).arena.path doc.size = doc.size :: doc.arena.path parent := by
  have hparent : (doc.attach parent kind).arena.parent? doc.size = some parent := by
    rw [parent?_attach inside, if_pos rfl]
  rw [Arena.path, (doc.attach parent kind).built.linked.ancestors_eq hparent,
    ancestors_attach inside kind inside, Arena.path]

theorem path_extendText (doc : Document) (id c : Nat) (more : String) :
    (doc.extendText id more).arena.path c = doc.arena.path c := by
  rw [Arena.path, Arena.path]
  congr 1
  exact Arena.ancestors_congr fun c _ => Arena.parent?_extend ..

theorem depthFirst_empty : Document.empty.arena.DepthFirst := by
  intro id p hp
  cases hp

theorem depthFirst_attach (h : doc.arena.DepthFirst)
    (hparent : parent ∈ doc.arena.path doc.newest) (kind : NodeKind) :
    (doc.attach parent kind).arena.DepthFirst := by
  have hnewest := doc.newest_lt
  have inside : parent < doc.size := Nat.lt_of_le_of_lt (Arena.le_of_mem_path hparent) hnewest
  intro id p hp
  have hid : id + 1 < (doc.attach parent kind).size := Arena.lt_size_of_parent? hp
  rw [size_attach inside] at hid
  rw [parent?_attach inside] at hp
  rw [path_attach inside kind (by omega)]
  split at hp
  · next hnew =>
    obtain rfl := Option.some.inj hp
    have hid : id = doc.newest := by rw [newest]; omega
    rwa [hid]
  · exact h id p hp

theorem depthFirst_extendText (h : doc.arena.DepthFirst) (id : Nat) (more : String) :
    (doc.extendText id more).arena.DepthFirst := by
  intro c p hp
  rw [path_extendText]
  exact h c p ((Arena.parent?_extend ..).symm.trans hp)

theorem newest_attach (inside : parent < doc.size) (kind : NodeKind) :
    (doc.attach parent kind).newest = doc.size := by
  rw [newest, size_attach inside, Nat.add_sub_cancel]

theorem newest_extendText (doc : Document) (id : Nat) (more : String) :
    (doc.extendText id more).newest = doc.newest := by
  have hsize : (doc.extendText id more).size = doc.size := Arena.size_extend ..
  rw [newest, hsize, newest]

end Changes

namespace Outline

variable {o : Outline} {event : MarkdownEvent}

/-- The open nodes are the path from the innermost of them to the root, and what was created last
stands below the innermost or is that node itself. -/
structure AtEdge (o : Outline) : Prop where
  depthFirst : o.doc.arena.DepthFirst
  newest : o.innermost ∈ o.doc.arena.path o.doc.newest
  openNodes : o.openNodes ++ [rootId] = o.doc.arena.path o.innermost

namespace AtEdge

theorem empty : AtEdge { doc := Document.empty } where
  depthFirst := depthFirst_empty
  newest := List.mem_cons_self ..
  openNodes := by
    show [0] = Document.empty.arena.path 0
    rw [Arena.path, Arena.ancestors]
    rfl

theorem lt_size (h : o.AtEdge) : o.innermost < o.doc.size :=
  Nat.lt_of_le_of_lt (Arena.le_of_mem_path h.newest) o.doc.newest_lt

theorem add (h : o.AtEdge) (kind : NodeKind) : (o.add kind).AtEdge where
  depthFirst := depthFirst_attach h.depthFirst h.newest kind
  newest := by
    show o.innermost ∈ (o.doc.attach o.innermost kind).arena.path
      (o.doc.attach o.innermost kind).newest
    rw [newest_attach h.lt_size, path_attach_new h.lt_size]
    exact List.mem_cons_of_mem _ (List.mem_cons_self ..)
  openNodes := h.openNodes.trans (path_attach h.lt_size kind h.lt_size).symm

theorem openNode (h : o.AtEdge) (kind : NodeKind) : (o.openNode kind).AtEdge where
  depthFirst := depthFirst_attach h.depthFirst h.newest kind
  newest := by
    show o.doc.size ∈ (o.doc.attach o.innermost kind).arena.path
      (o.doc.attach o.innermost kind).newest
    rw [newest_attach h.lt_size]
    exact List.mem_cons_self ..
  openNodes := by
    show o.doc.size :: (o.openNodes ++ [rootId]) =
      (o.doc.attach o.innermost kind).arena.path o.doc.size
    rw [path_attach_new h.lt_size, h.openNodes]

/-- With an end the path is left at its lower end; with nothing open but the root it stays. -/
theorem close (h : o.AtEdge) : AtEdge { o with openNodes := o.openNodes.tail } := by
  obtain ⟨doc, openNodes, inMetadata⟩ := o
  cases openNodes with
  | nil => exact h
  | cons inner outer =>
    have habove : doc.arena.ancestors inner = outer ++ [rootId] :=
      (List.cons.inj h.openNodes).2.symm
    have hpath : doc.arena.path (outer.headD rootId) = outer ++ [rootId] := by
      cases outer with
      | nil => exact Arena.eq_ancestors_of_cons habove
      | cons next rest => exact Arena.eq_ancestors_of_cons habove
    have hnext : outer.headD rootId ∈ doc.arena.path inner := by
      apply List.mem_cons_of_mem
      rw [habove, ← hpath]
      exact List.mem_cons_self ..
    exact ⟨h.depthFirst, Arena.mem_path_trans hnext h.newest, hpath.symm⟩

theorem extendText (h : o.AtEdge) (id : Nat) (more : String) :
    AtEdge { o with doc := o.doc.extendText id more } where
  depthFirst := depthFirst_extendText h.depthFirst id more
  newest := by
    show o.innermost ∈ (o.doc.extendText id more).arena.path (o.doc.extendText id more).newest
    rw [newest_extendText, path_extendText]
    exact h.newest
  openNodes := h.openNodes.trans (path_extendText ..).symm

theorem addText (h : o.AtEdge) (text : String) :
    AtEdge { o with doc := o.doc.addText o.innermost text } := by
  rcases o.doc.addText_cases o.innermost text with ⟨id, htext⟩ | ⟨htext, -⟩
  · rw [htext]
    exact h.extendText id text
  · rw [htext]
    exact h.add (.text text)

/-- Every event leaves the open nodes at the edge of the document. -/
theorem take (h : o.AtEdge) (event : MarkdownEvent) : (o.take event).AtEdge := by
  cases event with
  | start tag =>
    rw [Outline.take]
    split
    · exact h.openNode _
    · exact ⟨h.depthFirst, h.newest, h.openNodes⟩
  | close ofMetadata => exact h.close
  | text content | html content => exact h.addText content
  | _ => exact h.add _

theorem foldl (h : o.AtEdge) (events : List MarkdownEvent) : (events.foldl Outline.take o).AtEdge := by
  induction events generalizing o with
  | nil => exact h
  | cons event rest ih => exact ih (h.take event)

end AtEdge

end Outline

theorem depthFirst_ofEvents (events : List MarkdownEvent) : (ofEvents events).arena.DepthFirst := by
  rw [ofEvents_eq]
  exact (Outline.AtEdge.empty.foldl _).depthFirst

end DitaTopic.Document
