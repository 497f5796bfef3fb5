import DitaTopic.Proofs.Document.Growth
import DitaTopic.Proofs.Document.Shape
import DitaTopic.Proofs.Document.Stream

/-!
# Reading back what was written

Reading the events of a tree in normal form gives the tree back, its texts in as many parts as one
likes. Events are read into a document that is there already: `Adds` says that trees become the
last children of the innermost open node and that nothing else changes.
-/

namespace DitaTopic.Document

section Reading

variable {doc later last : Document} {parent : Nat} {kind : NodeKind}

theorem children_extendText (doc : Document) (id c : Nat) (more : String) :
    (doc.extendText id more).children c = doc.children c := by
  rw [children, (doc.extendText id more).built.children_eq, children, doc.built.children_eq]
  exact Arena.kids_extend ..

theorem children_of_size_le {id : Nat} (h : doc.size ≤ id) : doc.children id = [] := by
  apply List.eq_nil_iff_forall_not_mem.mpr
  intro c hc
  obtain ⟨hlt, inside⟩ := Arena.mem_children hc
  have : c < doc.size := inside
  omega

theorem lastChild_eq (inside : parent < doc.size) :
    (doc.node? parent).bind Node.lastChild = (doc.children parent).getLast? := by
  obtain ⟨n, hn⟩ : ∃ n, doc.arena.node? parent = some n := ⟨_, Array.getElem?_eq_getElem inside⟩
  have hn' : doc.node? parent = some n := hn
  rw [hn', Option.bind_some, doc.built.linked.lastChild hn, children, doc.built.children_eq]

/-- The last child of a node is a text. -/
def EndsInText (doc : Document) (parent : Nat) : Prop :=
  ∃ last content, (doc.children parent).getLast? = some last ∧
    doc.kind? last = some (.text content)

theorem addText_of_literal (hkind : doc.kind? parent = some kind) (hliteral : kind.isLiteral = true)
    (text : String) : doc.addText parent text = doc.extendText parent text := by
  rw [addText, hkind]
  cases kind with
  | codeBlock | htmlBlock => rfl
  | _ => cases hliteral

theorem addText_of_not_literal (hliteral : (doc.kind? parent).any NodeKind.isLiteral = false)
    (inside : parent < doc.size) (text : String) :
    doc.addText parent text =
      match (doc.children parent).getLast? with
      | none => doc.attach parent (.text text)
      | some last =>
        match doc.kind? last with
        | some (.text _) => doc.extendText last text
        | _ => doc.attach parent (.text text) := by
  rw [addText, lastChild_eq inside]
  split
  · next hkind => rw [hkind] at hliteral; cases hliteral
  · next hkind => rw [hkind] at hliteral; cases hliteral
  · rfl

theorem addText_of_not_endsInText (hliteral : (doc.kind? parent).any NodeKind.isLiteral = false)
    (inside : parent < doc.size) (hlast : ¬ doc.EndsInText parent) (text : String) :
    doc.addText parent text = doc.attach parent (.text text) := by
  rw [addText_of_not_literal hliteral inside]
  split
  · rfl
  · next last hchild =>
    split
    · next content hkind => exact absurd ⟨last, content, hchild, hkind⟩ hlast
    · rfl

/-- A document with one node more, which is the last child of `parent`. -/
structure Attached (doc later : Document) (parent : Nat) (kind : NodeKind) : Prop where
  size : later.size = doc.size + 1
  kind : ∀ id, later.kind? id = if id = doc.size then some kind else doc.kind? id
  children : ∀ id, later.children id = doc.children id ++ if id = parent then [doc.size] else []

theorem size_attach (inside : parent < doc.size) (kind : NodeKind) :
    (doc.attach parent kind).size = doc.size + 1 := by
  rw [attach, dif_pos inside]
  exact Arena.size_append ..

theorem attached_attach (inside : parent < doc.size) (kind : NodeKind) :
    Attached doc (doc.attach parent kind) parent kind :=
  ⟨size_attach inside kind, kind?_attach inside kind, children_attach inside kind⟩

namespace Attached

theorem kind?_new (h : Attached doc later parent kind) : later.kind? doc.size = some kind := by
  rw [h.kind, if_pos rfl]

theorem children_new (h : Attached doc later parent kind) (inside : parent < doc.size) :
    later.children doc.size = [] := by
  rw [h.children, children_of_size_le (Nat.le_refl _), if_neg (by omega)]
  rfl

theorem extendText (h : Attached doc later parent kind) (more : String) :
    Attached doc (later.extendText doc.size more) parent (kind.extend more) where
  size := (Arena.size_extend ..).trans h.size
  kind id := by
    rw [kind?_extendText, h.kind]
    by_cases hid : id = doc.size
    · simp [hid]
    · simp [hid, Ne.symm hid]
  children id := by rw [children_extendText, h.children]

/-- Parts of a text that all go to the new node extend it by the whole text. -/
theorem exists_spelled (h : Attached doc later parent kind) {openNodes : List Nat}
    (hadd : ∀ more between, Attached doc between parent (kind.extend more) → ∀ text,
      between.addText (openNodes.headD rootId) text = between.extendText doc.size text)
    {events : List MarkdownEvent} {parts : List String}
    (hparts : events.map MarkdownEvent.part? = parts.map some) :
    ∃ last, events.foldl Outline.step ⟨later, openNodes, false⟩ = ⟨last, openNodes, false⟩ ∧
      Attached doc last parent (kind.extend (String.join parts)) := by
  induction events generalizing later kind parts with
  | nil =>
    obtain rfl : parts = [] := by simpa using hparts
    refine ⟨later, rfl, ?_⟩
    rwa [String.join_nil, kind.extend_empty]
  | cons event rest ih =>
    cases parts with
    | nil => cases hparts
    | cons part parts =>
      obtain ⟨hpart, hrest⟩ := List.cons.inj hparts
      have hstep : Outline.step ⟨later, openNodes, false⟩ event =
          ⟨later.extendText doc.size part, openNodes, false⟩ := by
        have hfirst := hadd "" later (by rwa [kind.extend_empty]) part
        rw [← hfirst]
        cases event with
        | text content | html content => cases hpart; rfl
        | _ => cases hpart
      have hadd' : ∀ more between, Attached doc between parent ((kind.extend part).extend more) →
          ∀ text, between.addText (openNodes.headD rootId) text = between.extendText doc.size text := by
        intro more between
        rw [kind.extend_extend]
        exact hadd (part ++ more) between
      obtain ⟨last, hfold, hlast⟩ := ih (h.extendText part) hadd' hrest
      rw [kind.extend_extend, ← String.join_cons] at hlast
      rw [List.foldl_cons, hstep]
      exact ⟨last, hfold, hlast⟩

end Attached

/-- A document with trees more, which are the last children of `parent`. -/
structure Extended (doc later : Document) (parent : Nat) (shapes : List Shape) : Prop where
  size_le : doc.size ≤ later.size
  kind : ∀ id < doc.size, later.kind? id = doc.kind? id
  children : ∀ id < doc.size, id ≠ parent → later.children id = doc.children id
  added : ∃ ids, later.children parent = doc.children parent ++ ids ∧
    (∀ id ∈ ids, doc.size ≤ id) ∧ ids.map (fun id => (later.arena.tree id).shape) = shapes

theorem shape_tree (hkind : doc.kind? parent = some kind) :
    (doc.arena.tree parent).shape =
      .node kind ((doc.children parent).map fun c => (doc.arena.tree c).shape) := by
  have hkind' : doc.arena.kind? parent = some kind := hkind
  rw [Arena.tree_eq, hkind', Tree.shape, Tree.shapes_eq, List.map_map]
  rfl

namespace Extended

variable {first second : List Shape}

theorem refl (doc : Document) (parent : Nat) : Extended doc doc parent [] where
  size_le := Nat.le_refl _
  kind _ _ := rfl
  children _ _ _ := rfl
  added := ⟨[], (List.append_nil _).symm, nofun, rfl⟩

/-- What was added before keeps its tree. -/
theorem tree_eq (h : Extended doc later parent second) {id : Nat} (inside : id < doc.size)
    (hid : parent < id) : later.arena.tree id = doc.arena.tree id := by
  induction id using Arena.descent doc.arena with
  | step id ih =>
    have hchildren : later.arena.children id = doc.arena.children id :=
      h.children id inside (Nat.ne_of_gt hid)
    have hkind : later.arena.kind? id = doc.arena.kind? id := h.kind id inside
    rw [Arena.tree_eq, Arena.tree_eq, hchildren, hkind]
    congr 1
    apply List.map_congr_left
    intro c hc
    obtain ⟨hlt, hsize⟩ := Arena.mem_children hc
    exact ih c hc hsize (Nat.lt_trans hid hlt)

theorem trans (hfirst : Extended doc later parent first) (hsecond : Extended later last parent second)
    (inside : parent < doc.size) : Extended doc last parent (first ++ second) where
  size_le := Nat.le_trans hfirst.size_le hsecond.size_le
  kind id hid := by
    rw [hsecond.kind id (Nat.lt_of_lt_of_le hid hfirst.size_le), hfirst.kind id hid]
  children id hid hne := by
    rw [hsecond.children id (Nat.lt_of_lt_of_le hid hfirst.size_le) hne, hfirst.children id hid hne]
  added := by
    obtain ⟨ids, hids, hge, hshapes⟩ := hfirst.added
    obtain ⟨ids', hids', hge', hshapes'⟩ := hsecond.added
    refine ⟨ids ++ ids', by rw [hids', hids, List.append_assoc], ?_, ?_⟩
    · intro id hid
      rcases List.mem_append.mp hid with hid | hid
      · exact hge id hid
      · exact Nat.le_trans hfirst.size_le (hge' id hid)
    · rw [List.map_append, hshapes', ← hshapes]
      congr 1
      apply List.map_congr_left
      intro id hid
      have hchild : id ∈ later.children parent := hids ▸ List.mem_append_right _ hid
      have hge := hge id hid
      rw [hsecond.tree_eq (Arena.mem_children hchild).2 (by omega)]

/-- After a tree was added, the last child is a text exactly if the root of that tree is. -/
theorem endsInText_iff {s : Shape} (h : Extended doc later parent [s]) :
    later.EndsInText parent ↔ s.isText = true := by
  obtain ⟨ids, hids, -, hshapes⟩ := h.added
  obtain ⟨id, rfl, hshape⟩ := List.map_eq_singleton_iff.mp hshapes
  have hlast : (later.children parent).getLast? = some id := by rw [hids, List.getLast?_concat]
  have inside : id < later.size := by
    have hchild : id ∈ later.children parent := List.mem_of_getLast? hlast
    exact (Arena.mem_children hchild).2
  obtain ⟨kind, hkind⟩ : ∃ kind, later.kind? id = some kind :=
    ⟨_, Arena.kind?_eq_some inside⟩
  rw [shape_tree hkind] at hshape
  subst hshape
  constructor
  · rintro ⟨last, content, hlast', hcontent⟩
    rw [hlast] at hlast'
    cases hlast'
    rw [hkind] at hcontent
    cases hcontent
    rfl
  · intro htext
    cases kind with
    | text content => exact ⟨id, content, hlast, hkind⟩
    | _ => cases htext

end Extended

/-- Trees added below a new node make one tree with it. -/
theorem Attached.nest {shapes : List Shape} (h : Attached doc later parent kind)
    (inside : parent < doc.size) (hbelow : Extended later last doc.size shapes) :
    Extended doc last parent [.node kind shapes] where
  size_le := by
    have := hbelow.size_le
    have := h.size
    omega
  kind id hid := by
    have hsize := h.size
    rw [hbelow.kind id (by omega), h.kind, if_neg (Nat.ne_of_lt hid)]
  children id hid hne := by
    have hsize := h.size
    rw [hbelow.children id (by omega) (Nat.ne_of_lt hid), h.children, if_neg hne, List.append_nil]
  added := by
    have hsize := h.size
    obtain ⟨ids, hids, -, hshapes⟩ := hbelow.added
    rw [h.children_new inside, List.nil_append] at hids
    have hkind : last.kind? doc.size = some kind := by
      rw [hbelow.kind doc.size (by omega), h.kind?_new]
    refine ⟨[doc.size], ?_, by simp, ?_⟩
    · rw [hbelow.children parent (by omega) (Nat.ne_of_lt inside), h.children, if_pos rfl]
    · rw [List.map_singleton, shape_tree hkind, hids, hshapes]

/-- Reading events, their texts in whatever parts, adds trees below the innermost open node, where
that is no literal block and the first tree does not run into the text before it. -/
def Adds (events : List MarkdownEvent) (shapes : List Shape) : Prop :=
  ∀ stream, Recut events stream → ∀ (doc : Document) (openNodes : List Nat),
    openNodes.headD rootId < doc.size →
    (doc.kind? (openNodes.headD rootId)).any NodeKind.isLiteral = false →
    (shapes.head?.any Shape.isText = true → ¬ doc.EndsInText (openNodes.headD rootId)) →
    ∃ later, stream.foldl Outline.step ⟨doc, openNodes, false⟩ = ⟨later, openNodes, false⟩ ∧
      Extended doc later (openNodes.headD rootId) shapes

theorem Adds.nil : Adds [] [] := by
  intro stream hcut doc openNodes _ _ _
  rw [hcut.of_nil]
  exact ⟨doc, rfl, .refl doc _⟩

theorem Adds.cons {first second : List MarkdownEvent} {s : Shape} {shapes : List Shape}
    (hfirst : Adds first [s]) (hsecond : Adds second shapes) (hapart : Shape.Apart (s :: shapes)) :
    Adds (first ++ second) (s :: shapes) := by
  intro stream hcut doc openNodes inside hopen hfits
  obtain ⟨before, behind, rfl, hbefore, hbehind⟩ := hcut.exists_append
  obtain ⟨middle, hfold, hextended⟩ := hfirst before hbefore doc openNodes inside hopen hfits
  have hsize := hextended.size_le
  have hopen' : (middle.kind? (openNodes.headD rootId)).any NodeKind.isLiteral = false := by
    rw [hextended.kind _ inside, hopen]
  have hfits' : shapes.head?.any Shape.isText = true →
      ¬ middle.EndsInText (openNodes.headD rootId) := by
    intro htext
    rw [hextended.endsInText_iff]
    intro hs
    cases shapes with
    | nil => cases htext
    | cons t rest =>
      have ht : t.isText = true := htext
      have hpair := (List.isChain_cons_cons.mp hapart).1
      rw [hs, ht] at hpair
      cases hpair
  obtain ⟨later, hfold', hextended'⟩ :=
    hsecond behind hbehind middle openNodes (by omega) hopen' hfits'
  refine ⟨later, ?_, hextended.trans hextended' inside⟩
  rw [List.foldl_append, hfold, hfold']

theorem adds_eventsOf {shapes : List Shape} (h : ∀ s ∈ shapes, Adds s.events [s])
    (hapart : Shape.Apart shapes) : Adds (Shape.eventsOf shapes) shapes := by
  induction shapes with
  | nil => exact Adds.nil
  | cons s rest ih =>
    have hrest := ih (fun t ht => h t (List.mem_cons_of_mem _ ht)) (List.IsChain.tail hapart)
    exact (h s (List.mem_cons_self ..)).cons hrest hapart

theorem adds_text (content : String) :
    Adds (Shape.node (.text content) []).events [.node (.text content) []] := by
  intro stream hcut doc openNodes inside hopen hfits
  obtain ⟨parts, rest, rfl, ⟨hparts, texts, htexts, rfl⟩, hrest⟩ := Recut.of_text hcut
  rw [hrest.of_nil, List.append_nil]
  cases parts with
  | nil => exact absurd rfl hparts
  | cons event parts =>
    cases texts with
    | nil => cases htexts
    | cons first texts =>
      obtain ⟨hevent, htexts⟩ := List.cons.inj htexts
      have hfirst := addText_of_not_endsInText hopen inside (hfits rfl) first
      have hstep : Outline.step ⟨doc, openNodes, false⟩ event =
          ⟨doc.attach (openNodes.headD rootId) (.text first), openNodes, false⟩ := by
        rw [← hfirst]
        cases event with
        | text | html => cases hevent; rfl
        | _ => cases hevent
      have hattached := attached_attach inside (.text first)
      -- the later parts find the text that the first one made
      have hadd : ∀ more between,
          Attached doc between (openNodes.headD rootId) (NodeKind.extend more (.text first)) →
          ∀ text, between.addText (openNodes.headD rootId) text =
            between.extendText doc.size text := by
        intro more between hbetween text
        have hkind : (between.kind? (openNodes.headD rootId)).any NodeKind.isLiteral = false := by
          rw [hbetween.kind, if_neg (Nat.ne_of_lt inside), hopen]
        have hlast : (between.children (openNodes.headD rootId)).getLast? = some doc.size := by
          rw [hbetween.children, if_pos rfl, List.getLast?_concat]
        rw [addText_of_not_literal hkind (by rw [hbetween.size]; omega), hlast]
        simp only [hbetween.kind?_new, NodeKind.extend]
      obtain ⟨later, hfold, hlater⟩ := hattached.exists_spelled hadd htexts
      rw [NodeKind.extend, ← String.join_cons] at hlater
      rw [List.foldl_cons, hstep]
      exact ⟨later, hfold, hlater.nest inside (.refl later _)⟩

theorem adds_leaf {event : MarkdownEvent} (hevents : (Shape.node kind []).events = [event])
    (hevent : event.part? = none)
    (hstep : ∀ doc openNodes, Outline.step ⟨doc, openNodes, false⟩ event =
      ⟨doc.attach (openNodes.headD rootId) kind, openNodes, false⟩) :
    Adds (Shape.node kind []).events [.node kind []] := by
  intro stream hcut doc openNodes inside _ _
  rw [hevents] at hcut
  obtain ⟨rest, rfl, hrest⟩ := Recut.of_keep hevent hcut
  rw [hrest.of_nil, List.foldl_cons, hstep]
  exact ⟨_, rfl, (attached_attach inside kind).nest inside (.refl _ _)⟩

theorem step_start {tag : Tag} (htag : tag.kind? = some kind) (doc : Document)
    (openNodes : List Nat) :
    Outline.step ⟨doc, openNodes, false⟩ (.start tag) =
      ⟨doc.attach (openNodes.headD rootId) kind, doc.size :: openNodes, false⟩ := by
  show Outline.take ⟨doc, openNodes, false⟩ (.start tag) = _
  rw [Outline.take, htag]
  rfl

theorem adds_container (tag : Tag) {children : List Shape} {inner : List MarkdownEvent}
    (htag : tag.kind? = some kind) (hkind : kind.isLiteral = false) (h : Adds inner children) :
    Adds (.start tag :: (inner ++ [.close false])) [.node kind children] := by
  intro stream hcut doc openNodes inside _ _
  obtain ⟨rest, rfl, hrest⟩ := Recut.of_keep rfl hcut
  obtain ⟨between, ends, rfl, hbetween, hends⟩ := hrest.exists_append
  obtain ⟨nothing, rfl, hnothing⟩ := Recut.of_keep rfl hends
  obtain rfl := hnothing.of_nil
  have hattached := attached_attach inside kind
  have hempty : ¬ (doc.attach (openNodes.headD rootId) kind).EndsInText doc.size := by
    rintro ⟨last, content, hlast, -⟩
    rw [hattached.children_new inside] at hlast
    cases hlast
  obtain ⟨later, hfold, hextended⟩ := h between hbetween _ (doc.size :: openNodes)
    (by rw [List.headD_cons, hattached.size]; omega)
    (by rw [List.headD_cons, hattached.kind?_new]; exact hkind) (fun _ => hempty)
  refine ⟨later, ?_, hattached.nest inside hextended⟩
  rw [List.foldl_cons, step_start htag, List.foldl_append, hfold]
  rfl

theorem adds_block (tag : Tag) (htag : tag.kind? = some kind) (hkind : kind.isLiteral = true)
    (literal : String) :
    Adds [.start tag, .text literal, .close false] [.node (kind.extend literal) []] := by
  intro stream hcut doc openNodes inside _ _
  obtain ⟨rest, rfl, hrest⟩ := Recut.of_keep rfl hcut
  obtain ⟨parts, ends, rfl, ⟨-, texts, htexts, rfl⟩, hends⟩ := hrest.of_text
  obtain ⟨nothing, rfl, hnothing⟩ := Recut.of_keep rfl hends
  obtain rfl := hnothing.of_nil
  have hadd : ∀ more between, Attached doc between (openNodes.headD rootId) (kind.extend more) →
      ∀ text, between.addText ((doc.size :: openNodes).headD rootId) text =
        between.extendText doc.size text := by
    intro more between hbetween text
    exact addText_of_literal hbetween.kind?_new ((kind.isLiteral_extend more).trans hkind) text
  obtain ⟨later, hfold, hlater⟩ := (attached_attach inside kind).exists_spelled hadd htexts
  refine ⟨later, ?_, hlater.nest inside (.refl later _)⟩
  rw [List.foldl_cons, step_start htag, List.foldl_append, hfold]
  rfl

theorem adds_custom {name literal : String} {children : List Shape}
    (hread : (NodeKind.custom name literal).IsRead)
    (hclosed : (NodeKind.custom name literal).isClosed = true → children = [])
    (hinner : Adds (Shape.eventsOf children) children) :
    Adds (Shape.node (.custom name literal) children).events
      [.node (.custom name literal) children] := by
  simp only [NodeKind.IsRead, List.mem_cons, List.not_mem_nil, or_false] at hread
  rcases hread with hname | ⟨rfl, hliteral⟩ | ⟨hname, rfl⟩
  · rcases hname with rfl | rfl | rfl | rfl
    case inr.inr.inr => exact adds_container (.footnoteDefinition literal) rfl rfl hinner
    all_goals
      rw [hclosed rfl]
      exact adds_leaf rfl rfl fun _ _ => rfl
  · rcases hliteral with rfl | rfl
    all_goals
      rw [hclosed rfl]
      exact adds_leaf rfl rfl fun _ _ => rfl
  · rcases hname with rfl | rfl | rfl | rfl | rfl
    · exact adds_container .definitionList rfl rfl hinner
    · exact adds_container .definitionListTitle rfl rfl hinner
    · exact adds_container .definitionListDefinition rfl rfl hinner
    · exact adds_container .superscript rfl rfl hinner
    · exact adds_container .subscript rfl rfl hinner

/-- Reading the events of a tree in normal form adds the tree. -/
theorem adds_events {s : Shape} (h : s.Normal) : Adds s.events [s] := by
  induction s with
  | node kind children ih =>
    obtain ⟨hread, hclosed, hapart, hbelow⟩ := h
    have hinner : Adds (Shape.eventsOf children) children :=
      adds_eventsOf (fun s hs => ih s hs (hbelow s hs)) hapart
    cases kind with
    | document => exact hread.elim
    | text content => rw [hclosed rfl]; exact adds_text content
    | code content => rw [hclosed rfl]; exact adds_leaf rfl rfl fun _ _ => rfl
    | inlineHtml content => rw [hclosed rfl]; exact adds_leaf rfl rfl fun _ _ => rfl
    | softBreak => rw [hclosed rfl]; exact adds_leaf rfl rfl fun _ _ => rfl
    | hardBreak => rw [hclosed rfl]; exact adds_leaf rfl rfl fun _ _ => rfl
    | thematicBreak => rw [hclosed rfl]; exact adds_leaf rfl rfl fun _ _ => rfl
    | codeBlock info literal =>
      rw [hclosed rfl]
      have hblock := adds_block (.codeBlock info) rfl rfl literal
      rwa [NodeKind.extend, String.empty_append] at hblock
    | htmlBlock literal =>
      rw [hclosed rfl]
      have hblock := adds_block .htmlBlock rfl rfl literal
      rwa [NodeKind.extend, String.empty_append] at hblock
    | custom name literal => exact adds_custom hread hclosed hinner
    | _ => exact adds_container _ rfl rfl hinner

end Reading

theorem doc_foldl_closes {ends : List MarkdownEvent} (h : ∀ event ∈ ends, event.isClose = true)
    (o : Outline) : (ends.foldl Outline.step o).doc = o.doc := by
  induction ends generalizing o with
  | nil => rfl
  | cons event rest ih =>
    have hstep : (o.step event).doc = o.doc := by
      have hclose := h event (List.mem_cons_self ..)
      cases event with
      | close ofMetadata => rw [Outline.step]; split <;> rfl
      | _ => cases hclose
    rw [List.foldl_cons, ih fun event hevent => h event (List.mem_cons_of_mem _ hevent), hstep]

/-- Ends at the end of a stream have no effect on the document. -/
theorem ofEvents_append_closes (events : List MarkdownEvent) {ends : List MarkdownEvent}
    (h : ∀ event ∈ ends, event.isClose = true) : ofEvents (events ++ ends) = ofEvents events := by
  rw [ofEvents, List.foldl_append, doc_foldl_closes h, ofEvents]

theorem shape_ofEvents {s : Shape} (h : s.NormalRoot) {stream : List MarkdownEvent}
    (hcut : Recut s.events stream) : (ofEvents stream).tree.shape = s := by
  cases h with
  | @node children hapart hbelow =>
  have hnot : ¬ Document.empty.EndsInText rootId := by
    rintro ⟨last, content, hlast, -⟩
    cases hlast
  obtain ⟨later, hfold, hextended⟩ := adds_eventsOf (fun s hs => adds_events (hbelow s hs)) hapart
    stream hcut .empty [] Nat.one_pos rfl (fun _ => hnot)
  obtain ⟨ids, hids, -, hshapes⟩ := hextended.added
  have hkind : later.kind? rootId = some .document := hextended.kind rootId Nat.one_pos
  have hchildren : later.children rootId = ids := hids
  rw [ofEvents, hfold, tree, shape_tree hkind, hchildren, hshapes]

/-- A tree in normal form is what reading its events gives, whatever parts its texts come in, and
also when ends at the end of the stream are missing or more of them follow. -/
theorem ofEvents_rebuilds {s : Shape} (h : s.NormalRoot) :
    (ofEvents s.events).tree.shape = s ∧
    ∀ stream, Recut s.events stream → ∀ body ends more, stream = body ++ ends →
      (∀ event ∈ ends, event.isClose = true) → (∀ event ∈ more, event.isClose = true) →
      (ofEvents (body ++ more)).tree.shape = s := by
  refine ⟨shape_ofEvents h (.refl _), ?_⟩
  rintro _ hcut body ends more rfl hends hmore
  rw [ofEvents_append_closes body hmore, ← ofEvents_append_closes body hends]
  exact shape_ofEvents h hcut

/-- A heading, a code block and a definition list with a formula in it. -/
def glossary : Shape :=
  .node .document [
    .node (.heading 2 (some "terms")) [.node (.text "Terms") []],
    .node (.codeBlock (some "rust") "let x;\n") [],
    .node (.custom "definition-list" "") [
      .node (.custom "definition-list-title" "") [
        .node (.text "x") [], .node (.custom "inline-math" "y^2") []]]]

/-- The events of the glossary with two of its texts in parts. The last two ends are missing. -/
def glossaryStream : List MarkdownEvent :=
  [.start (.heading 2 (some "terms")), .text "Ter", .html "ms", .close false,
    .start (.codeBlock (some "rust")), .html "let x;", .text "\n", .close false,
    .start .definitionList, .start .definitionListTitle, .text "x", .inlineMath "y^2"]

theorem normalRoot_glossary : glossary.NormalRoot := by
  have leaf : ∀ kind : NodeKind, kind.IsRead → (Shape.node kind []).Normal :=
    fun kind hread => .node hread (fun _ => rfl) .nil nofun
  have heading : (Shape.node (.heading 2 (some "terms")) [.node (.text "Terms") []]).Normal := by
    refine .node ⟨by decide, by decide⟩ nofun (.singleton _) ?_
    simpa using leaf (.text "Terms") trivial
  have title : (Shape.node (.custom "definition-list-title" "")
      [.node (.text "x") [], .node (.custom "inline-math" "y^2") []]).Normal := by
    refine .node (.inr (.inr (by simp))) nofun (.cons_cons rfl (.singleton _)) ?_
    simpa using ⟨leaf (.text "x") trivial, leaf (.custom "inline-math" "y^2") (.inl (by simp))⟩
  have list : (Shape.node (.custom "definition-list" "") [.node (.custom "definition-list-title" "")
      [.node (.text "x") [], .node (.custom "inline-math" "y^2") []]]).Normal := by
    refine .node (.inr (.inr (by simp))) nofun (.singleton _) ?_
    simpa using title
  refine .node (.cons_cons rfl (.cons_cons rfl (.singleton _))) ?_
  simpa using ⟨heading, leaf (.codeBlock (some "rust") "let x;\n") trivial, list⟩

theorem ofEvents_rebuilds_glossary :
    glossary.NormalRoot ∧ (ofEvents glossaryStream).tree.shape = glossary := by
  have hname : Spells "Terms" [.text "Ter", .html "ms"] :=
    ⟨by simp, ["Ter", "ms"], rfl, by decide⟩
  have hcode : Spells "let x;\n" [.html "let x;", .text "\n"] :=
    ⟨by simp, ["let x;", "\n"], rfl, by decide⟩
  have hlist := Recut.refl [.close false, .start .definitionList, .start .definitionListTitle,
    .text "x", .inlineMath "y^2", .close false, .close false]
  have hblock := Recut.keep (.close false) (.keep (.start (.codeBlock (some "rust")))
    (.spell hcode hlist))
  have hheading := Recut.keep (.start (.heading 2 (some "terms"))) (.spell hname hblock)
  have hcut : Recut glossary.events (glossaryStream ++ [.close false, .close false]) := hheading
  have hends : ∀ event ∈ [MarkdownEvent.close false, .close false], event.isClose = true := by
    decide
  have hread := (ofEvents_rebuilds normalRoot_glossary).2 _ hcut glossaryStream _ [] rfl hends nofun
  rw [List.append_nil] at hread
  exact ⟨normalRoot_glossary, hread⟩

end DitaTopic.Document
