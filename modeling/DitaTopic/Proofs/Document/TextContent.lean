import DitaTopic.Proofs.Document.Additions

/-!
# The text of a node

The text of a node is its own text followed by the texts of its children, and it is what a walk down
from the node collects. A node that is added puts its own text behind all that its parent had until
then. The nodes above the parent have the text of the parent as a part of theirs, and it is that
part which grows; no other text does.
-/

namespace DitaTopic.Document

variable {doc : Document} {parent id : Nat}

theorem ownText_of_kind? {kind : NodeKind} (h : doc.kind? id = some kind) :
    doc.ownText id = kind.ownText := by
  rw [ownText, h, Option.map_some, Option.getD_some]

theorem textOf_cons (doc : Document) (id : Nat) (ids : List Nat) :
    doc.textOf (id :: ids) = doc.ownText id ++ doc.textOf ids := by
  rw [textOf, List.map_cons, String.join_cons, textOf]

theorem textOf_append (doc : Document) (before behind : List Nat) :
    doc.textOf (before ++ behind) = doc.textOf before ++ doc.textOf behind := by
  rw [textOf, List.map_append, String.join_append, textOf, textOf]

theorem textOf_flatMap (doc : Document) (ids : List Nat) (below : Nat → List Nat) :
    doc.textOf (ids.flatMap below) = String.join (ids.map fun id => doc.textOf (below id)) := by
  induction ids with
  | nil => rfl
  | cons id rest ih =>
    rw [List.flatMap_cons, textOf_append, ih, List.map_cons, String.join_cons]

/-- Texts that are added to a buffer one by one are joined in the end. -/
theorem foldl_ownText (doc : Document) (ids : List Nat) :
    ids.foldl (fun text id => text ++ doc.ownText id) "" = doc.textOf ids :=
  List.foldl_map.symm

theorem textContent_eq_append (inside : id < doc.size) :
    doc.textContent id =
      doc.ownText id ++ String.join ((doc.children id).map doc.textContent) := by
  rw [textContent_eq_textOf, subtree_of_lt_size inside, textOf_cons, textOf_flatMap]
  rfl

/-- A walk down from a node collects the text of the node. -/
theorem collects_textContent (inside : id < doc.size) :
    ∃ nodes, Gives doc.arena.nextBelow #[id] nodes ∧
      nodes.foldl (fun text n => text ++ doc.ownText n) "" = doc.textContent id := by
  have hgives := Arena.gives_subtree inside [] (.done rfl)
  rw [List.append_nil] at hgives
  exact ⟨doc.subtree id, hgives, foldl_ownText doc _⟩

/-! ## Subtrees with a node added -/

theorem mem_subtree_self (inside : id < doc.size) : id ∈ doc.subtree id := by
  rw [subtree_of_lt_size inside]
  exact List.mem_cons_self ..

/-- Of siblings at most one has a given node below it. -/
theorem not_mem_subtree_of_sibling {c d n : Nat} (hc : c ∈ doc.children id)
    (hd : d ∈ doc.children id) (hne : d ≠ c) (hn : n ∈ doc.subtree c) : n ∉ doc.subtree d := by
  intro hn'
  exact hne (doc.built.linked.eq_of_above (doc.built.parent?_of_mem_children hd)
    (doc.built.parent?_of_mem_children hc) (doc.built.mem_subtree_iff.mp hn').2
    (doc.built.mem_subtree_iff.mp hn).2)

theorem subtree_attach_new (inside : parent < doc.size) (kind : NodeKind) :
    (doc.attach parent kind).subtree doc.size = [doc.size] := by
  have hattached := attached_attach inside kind
  have hnew : doc.size < (doc.attach parent kind).size := by
    rw [size_attach inside]
    exact Nat.lt_succ_self _
  rw [subtree_of_lt_size hnew, hattached.children_new inside, List.flatMap_nil]

/-- Where the parent of a new node is not below a node, nothing is added there. -/
theorem subtree_attach_elsewhere (inside : parent < doc.size) (kind : NodeKind)
    (hid : id < doc.size) (hparent : parent ∉ doc.subtree id) :
    (doc.attach parent kind).subtree id = doc.subtree id := by
  have hextends : Extends doc (doc.attach parent kind) := .of_attach inside kind
  induction id using Arena.descent doc.arena with
  | step id ih =>
    have hne : id ≠ parent := by
      rintro rfl
      exact hparent (mem_subtree_self hid)
    have hbelow : ∀ c ∈ doc.children id, parent ∉ doc.subtree c := by
      intro c hc hmem
      apply hparent
      rw [subtree_of_lt_size hid]
      exact List.mem_cons_of_mem _ (List.mem_flatMap.mpr ⟨c, hc, hmem⟩)
    rw [subtree_of_lt_size (Nat.lt_of_lt_of_le hid hextends.size), subtree_of_lt_size hid,
      children_attach inside, if_neg hne, List.append_nil]
    congr 1
    exact List.flatMap_congr fun c hc => ih c hc (Arena.mem_children hc).2 (hbelow c hc)

/-- Nodes that are not above the parent, one after the other. -/
theorem flatMap_subtree_attach (inside : parent < doc.size) (kind : NodeKind) {ids : List Nat}
    (hids : ∀ c ∈ ids, c < doc.size ∧ parent ∉ doc.subtree c) :
    ids.flatMap (doc.attach parent kind).subtree = ids.flatMap doc.subtree := by
  apply List.flatMap_congr
  intro c hc
  obtain ⟨hsize, hparent⟩ := hids c hc
  exact subtree_attach_elsewhere inside kind hsize hparent

/-- A new node comes behind everything else below its parent. -/
theorem subtree_attach_parent (inside : parent < doc.size) (kind : NodeKind) :
    (doc.attach parent kind).subtree parent = doc.subtree parent ++ [doc.size] := by
  have hextends : Extends doc (doc.attach parent kind) := .of_attach inside kind
  have hbelow : ∀ c ∈ doc.children parent, c < doc.size ∧ parent ∉ doc.subtree c := by
    intro c hc
    obtain ⟨hlt, hsize⟩ := Arena.mem_children hc
    exact ⟨hsize, fun hmem => absurd (Arena.le_of_mem_subtree hmem) (Nat.not_le.mpr hlt)⟩
  rw [subtree_of_lt_size (Nat.lt_of_lt_of_le inside hextends.size), subtree_of_lt_size inside,
    children_attach inside, if_pos rfl, List.flatMap_append,
    flatMap_subtree_attach inside kind hbelow, List.flatMap_singleton, subtree_attach_new inside,
    List.cons_append]

/-- A node below another one is that node or is below one of its children, and the children before
and behind that one are not above it. -/
theorem exists_child_above (hid : id ≠ parent) (hparent : parent ∈ doc.subtree id) :
    ∃ left c right, doc.children id = left ++ c :: right ∧ parent ∈ doc.subtree c ∧
      (∀ d ∈ left, d < doc.size ∧ parent ∉ doc.subtree d) ∧
      ∀ d ∈ right, d < doc.size ∧ parent ∉ doc.subtree d := by
  have hsize : id < doc.size := by
    by_contra hle
    rw [subtree_of_size_le (Nat.not_lt.mp hle)] at hparent
    cases hparent
  rw [subtree_of_lt_size hsize] at hparent
  obtain ⟨c, hc, hmem⟩ :=
    List.mem_flatMap.mp ((List.mem_cons.mp hparent).resolve_left (Ne.symm hid))
  obtain ⟨left, right, hchildren⟩ := List.append_of_mem hc
  have hnodup : (left ++ c :: right).Nodup := hchildren ▸ doc.built.nodup_children id
  obtain ⟨-, hright, hleft⟩ := List.nodup_append.mp hnodup
  have hother : ∀ d ∈ doc.children id, d ≠ c → d < doc.size ∧ parent ∉ doc.subtree d :=
    fun d hd hne => ⟨(Arena.mem_children hd).2, not_mem_subtree_of_sibling hc hd hne hmem⟩
  refine ⟨left, c, right, hchildren, hmem, fun d hd => ?_, fun d hd => ?_⟩
  · exact hother d (hchildren ▸ List.mem_append_left _ hd) (hleft d hd c (List.mem_cons_self ..))
  · refine hother d (hchildren ▸ List.mem_append_right _ (List.mem_cons_of_mem _ hd)) ?_
    rintro rfl
    exact (List.nodup_cons.mp hright).1 hd

/-- Below a node above the parent the new node comes right behind what is below the parent. -/
theorem subtree_attach_above (inside : parent < doc.size) (kind : NodeKind)
    (hparent : parent ∈ doc.subtree id) :
    ∃ before behind, doc.subtree id = before ++ doc.subtree parent ++ behind ∧
      (doc.attach parent kind).subtree id =
        before ++ (doc.subtree parent ++ [doc.size]) ++ behind := by
  have hextends : Extends doc (doc.attach parent kind) := .of_attach inside kind
  induction id using Arena.descent doc.arena with
  | step id ih =>
    by_cases hid : id = parent
    · subst hid
      refine ⟨[], [], ?_, ?_⟩
      · rw [List.nil_append, List.append_nil]
      · rw [subtree_attach_parent inside, List.nil_append, List.append_nil]
    · obtain ⟨left, c, right, hchildren, hmem, hleft, hright⟩ := exists_child_above hid hparent
      have hc : c ∈ doc.children id :=
        hchildren ▸ List.mem_append_right _ (List.mem_cons_self ..)
      have hsize : id < doc.size := Nat.lt_trans (Arena.mem_children hc).1 (Arena.mem_children hc).2
      obtain ⟨before, behind, hold, hnew⟩ := ih c hc hmem
      refine ⟨id :: left.flatMap doc.subtree ++ before, behind ++ right.flatMap doc.subtree, ?_, ?_⟩
      · rw [subtree_of_lt_size hsize, hchildren, List.flatMap_append, List.flatMap_cons, hold]
        simp only [List.append_assoc, List.cons_append]
      · rw [subtree_of_lt_size (Nat.lt_of_lt_of_le hsize hextends.size), children_attach inside,
          if_neg hid, List.append_nil, hchildren, List.flatMap_append, List.flatMap_cons,
          flatMap_subtree_attach inside kind hleft, flatMap_subtree_attach inside kind hright, hnew]
        simp only [List.append_assoc, List.cons_append]

/-! ## Texts with a node added -/

/-- What stands around the new node is what stood there before. -/
theorem textOf_attach_around (inside : parent < doc.size) (kind : NodeKind)
    {before behind : List Nat} (hids : ∀ n ∈ before ++ behind, n < doc.size) :
    (doc.attach parent kind).textOf (before ++ doc.size :: behind) =
      doc.textOf before ++ kind.ownText ++ doc.textOf behind := by
  have hextends : Extends doc (doc.attach parent kind) := .of_attach inside kind
  have hnew := (attached_attach inside kind).kind?_new
  rw [textOf_append, textOf_cons, ownText_of_kind? hnew,
    hextends.textOf_eq fun n hn => hids n (List.mem_append_left _ hn),
    hextends.textOf_eq fun n hn => hids n (List.mem_append_right _ hn), String.append_assoc]

/-- One document has the text `more` at the end of what another one has at the node `parent`, and
all other texts are the same. -/
structure TextGrows (doc later : Document) (parent : Nat) (more : String) : Prop where
  atParent : later.textContent parent = doc.textContent parent ++ more
  /-- The nodes below `parent` follow each other among those below a node above it, so there is one
  place in the text of that node where the text of `parent` stands. -/
  above : ∀ id ∈ doc.arena.ancestors parent, ∃ before behind,
    doc.subtree id = before ++ doc.subtree parent ++ behind ∧
    doc.textContent id = doc.textOf before ++ doc.textContent parent ++ doc.textOf behind ∧
    later.textContent id =
      doc.textOf before ++ (doc.textContent parent ++ more) ++ doc.textOf behind
  elsewhere : ∀ id < doc.size, id ≠ parent → id ∉ doc.arena.ancestors parent →
    later.textContent id = doc.textContent id

theorem textGrows_attach (inside : parent < doc.size) (kind : NodeKind) :
    TextGrows doc (doc.attach parent kind) parent kind.ownText where
  atParent := by
    have hids : ∀ n ∈ doc.subtree parent ++ [], n < doc.size := by
      intro n hn
      rw [List.append_nil] at hn
      exact Arena.lt_size_of_mem_subtree hn
    rw [textContent_eq_textOf, subtree_attach_parent inside, textOf_attach_around inside kind hids]
    exact String.append_empty
  above id hid := by
    have hmem : parent ∈ doc.subtree id := doc.built.mem_subtree_iff.mpr ⟨inside, .inr hid⟩
    obtain ⟨before, behind, hold, hnew⟩ := subtree_attach_above inside kind hmem
    have hids : ∀ n ∈ (before ++ doc.subtree parent) ++ behind, n < doc.size := by
      intro n hn
      rw [← hold] at hn
      exact Arena.lt_size_of_mem_subtree hn
    have hplace : before ++ (doc.subtree parent ++ [doc.size]) ++ behind =
        (before ++ doc.subtree parent) ++ doc.size :: behind := by
      simp only [List.append_assoc, List.cons_append, List.nil_append]
    refine ⟨before, behind, hold, ?_, ?_⟩
    · rw [textContent_eq_textOf, hold, textOf_append, textOf_append, ← textContent_eq_textOf]
    · rw [textContent_eq_textOf, hnew, hplace, textOf_attach_around inside kind hids, textOf_append,
        ← textContent_eq_textOf]
      simp only [String.append_assoc]
  elsewhere id hid hne habove := by
    have hparent : parent ∉ doc.subtree id := by
      intro hmem
      rcases (doc.built.mem_subtree_iff.mp hmem).2 with rfl | hmem
      · exact hne rfl
      · exact habove hmem
    have hsubtree := subtree_attach_elsewhere inside kind hid hparent
    apply (Extends.of_attach inside kind).textContent_eq
    intro n hn
    rw [hsubtree] at hn
    exact Arena.lt_size_of_mem_subtree hn

/-- The text of a node, which a walk down from it collects, is its own text followed by the texts of
its children. A node added below it has its text at the end of that text, also where that is a part
of the text of a node above; the texts of all other nodes stay as they are. -/
theorem text_compositional {kind : NodeKind} (hkind : doc.kind? id = some kind) :
    doc.textContent id = kind.ownText ++ String.join ((doc.children id).map doc.textContent) ∧
    (∃ nodes, Gives doc.arena.nextBelow #[id] nodes ∧
      nodes.foldl (fun text n => text ++ doc.ownText n) "" = doc.textContent id) ∧
    ∀ new, ∃ later, doc.append id new = .ok (doc.size, later) ∧
      TextGrows doc later id new.ownText := by
  have inside : id < doc.size := lt_size_of_kind? hkind
  refine ⟨?_, collects_textContent inside, fun new => ?_⟩
  · rw [textContent_eq_append inside, ownText_of_kind? hkind]
  · exact ⟨doc.attach id new, if_pos inside, textGrows_attach inside new⟩

/-- A heading with an emphasised part and a break behind it, and a paragraph. -/
def stressed : Document :=
  ofEvents
    [.start (.heading 1 none), .text "a", .start .emphasis, .text "b", .close false, .softBreak,
      .close false, .start .paragraph, .text "z", .close false]

/-- Code that is added to the emphasised part comes before the break behind that part. -/
theorem text_compositional_stressed :
    stressed.kind? 3 = some .emphasis ∧ stressed.arena.ancestors 3 = [1, 0] ∧
      stressed.textContent 1 = "" ++ String.join ["a", "b", " "] ∧
      ∃ later, stressed.append 3 (.code "c") = .ok (8, later) ∧
        TextGrows stressed later 3 "c" ∧ later.textContent 3 = "bc" ∧
        (∃ before behind, stressed.subtree 1 = before ++ [3, 4] ++ behind ∧
          later.textContent 1 = stressed.textOf before ++ "bc" ++ stressed.textOf behind) ∧
        later.textContent 6 = "z" := by
  have hkind : stressed.kind? 3 = some .emphasis := by decide +kernel
  have hheading : stressed.kind? 1 = some (.heading 1 none) := by decide +kernel
  have habove : stressed.arena.ancestors 3 = [1, 0] := by decide +kernel
  have hpart : stressed.textContent 3 = "b" := by decide +kernel
  have hbelow : stressed.subtree 3 = [3, 4] := by decide +kernel
  have hchildren : (stressed.children 1).map stressed.textContent = ["a", "b", " "] := by
    decide +kernel
  have hother : stressed.textContent 6 = "z" := by decide +kernel
  obtain ⟨htext, -⟩ := text_compositional hheading
  obtain ⟨-, -, happend⟩ := text_compositional hkind
  obtain ⟨later, hlater, hgrows⟩ := happend (.code "c")
  obtain ⟨before, behind, hplace, -, hgrown⟩ := hgrows.above 1 (by rw [habove]; decide)
  have hatParent := hgrows.atParent
  rw [hpart] at hatParent hgrown
  rw [hbelow] at hplace
  rw [hchildren] at htext
  refine ⟨hkind, habove, htext, later, hlater, hgrows, hatParent,
    ⟨before, behind, hplace, hgrown⟩, ?_⟩
  have hsize : 6 < stressed.size := by decide +kernel
  exact (hgrows.elsewhere 6 hsize (by decide) (by rw [habove]; decide)).trans hother

end DitaTopic.Document
