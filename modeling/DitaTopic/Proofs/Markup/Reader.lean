import DitaTopic.Proofs.Markup.Limit

/-!
# Reading XML back

A reader for what an XML sink without indentation writes: it takes markup from `<`, ends an
instruction at the first `?>`, decodes the five predefined entities and joins adjacent text. What
it finds in the bytes of the sink are the events the sink was offered, but for what their text
cannot show. Whatever an instruction says, it does not end before its own end.

Each part of the text is read in front of an arbitrary rest, so that the events follow from each
other by induction.
-/

namespace DitaTopic.Markup.Xml

/-- Whether a character may stand in a name. -/
def isNameChar (c : Char) : Bool :=
  !c.isWhitespace && !(['<', '>', '/', '=', '?', '&', '\'', '"'].contains c)

/-- A name of an element, an attribute, a namespace or an instruction. -/
def IsName (name : String) : Prop := name.toList ≠ [] ∧ ∀ c ∈ name.toList, isNameChar c = true

instance (name : String) : Decidable (IsName name) :=
  inferInstanceAs (Decidable (name.toList ≠ [] ∧ ∀ c ∈ name.toList, isNameChar c = true))

/-- The names in an event are names, and an instruction is not called like the declaration. -/
def HasNames : MarkupEvent → Prop
  | .startElement name attributes => IsName name ∧ ∀ p ∈ attributes.items, IsName p.1
  | .endElement name => IsName name
  | .bindNamespace short _ => IsName short
  | .instruction target _ => IsName target ∧ target ≠ "xml"
  | _ => True

instance : DecidablePred HasNames
  | .startElement name attributes =>
    inferInstanceAs (Decidable (IsName name ∧ ∀ p ∈ attributes.items, IsName p.1))
  | .endElement name => inferInstanceAs (Decidable (IsName name))
  | .bindNamespace short _ => inferInstanceAs (Decidable (IsName short))
  | .instruction target _ => inferInstanceAs (Decidable (IsName target ∧ target ≠ "xml"))
  | .startDocument => isTrue trivial
  | .endDocument => isTrue trivial
  | .unbindNamespace _ => isTrue trivial
  | .characters _ => isTrue trivial

/-! ### The reader -/

/-- The character that a text begins with, where an entity stands for one, and what follows it. -/
def decode : List Char → Option (Char × List Char)
  | [] => none
  | '<' :: _ => none
  | '&' :: 'l' :: 't' :: ';' :: rest => some ('<', rest)
  | '&' :: 'g' :: 't' :: ';' :: rest => some ('>', rest)
  | '&' :: 'a' :: 'm' :: 'p' :: ';' :: rest => some ('&', rest)
  | '&' :: 'a' :: 'p' :: 'o' :: 's' :: ';' :: rest => some ('\'', rest)
  | '&' :: 'q' :: 'u' :: 'o' :: 't' :: ';' :: rest => some ('"', rest)
  | '&' :: _ => none
  | c :: rest => some (c, rest)

theorem length_decode {text rest : List Char} {c : Char} (h : decode text = some (c, rest)) :
    rest.length < text.length := by
  unfold decode at h
  split at h <;> cases h <;> simp only [List.length_cons] <;> omega

/-- The longest name that a text begins with. -/
def readName (text : List Char) : String × List Char :=
  (String.ofList (text.takeWhile isNameChar), text.dropWhile isNameChar)

theorem length_readName (text : List Char) : (readName text).2.length ≤ text.length :=
  (List.dropWhile_sublist isNameChar).length_le

/-- The value of an attribute, up to the quote that ends it. -/
def readValue (text : List Char) : Option (List Char × List Char) :=
  match text with
  | '"' :: rest => some ([], rest)
  | text =>
    match _h : decode text with
    | none => none
    | some (c, rest) => (readValue rest).map fun (value, rest) => (c :: value, rest)
termination_by text.length
decreasing_by exact length_decode _h

theorem length_readValue {text value rest : List Char} (h : readValue text = some (value, rest)) :
    rest.length < text.length := by
  induction text using readValue.induct generalizing value with
  | case1 rest' =>
    rw [readValue] at h
    cases h
    exact Nat.lt_succ_self _
  | case2 text hquote hdecode =>
    rw [readValue, hdecode] at h
    · cases h
    · exact hquote
  | case3 text hquote c rest' hdecode ih =>
    rw [readValue, hdecode] at h
    · obtain ⟨⟨value', rest''⟩, hvalue, heq⟩ := Option.map_eq_some_iff.mp h
      cases heq
      exact Nat.lt_trans (ih hvalue) (length_decode hdecode)
    · exact hquote

/-- A name and, after `=`, a value between quotes. -/
def readAttribute (text : List Char) : Option ((String × String) × List Char) :=
  match readName text with
  | (name, '=' :: '"' :: rest) =>
    (readValue rest).map fun (value, rest) => ((name, String.ofList value), rest)
  | _ => none

theorem length_readAttribute {text rest : List Char} {p : String × String}
    (h : readAttribute text = some (p, rest)) : rest.length < text.length := by
  have hname := length_readName text
  unfold readAttribute at h
  split at h
  · next name rest' heq =>
    obtain ⟨⟨value, rest''⟩, hvalue, hpair⟩ := Option.map_eq_some_iff.mp h
    cases hpair
    have hlt := length_readValue hvalue
    rw [heq] at hname
    simp only [List.length_cons] at hname
    omega
  · cases h

/-- The attributes of a start tag, up to the `>` that ends it. -/
def readAttributes (text : List Char) : Option (List (String × String) × List Char) :=
  match text with
  | '>' :: rest => some ([], rest)
  | ' ' :: rest =>
    match _h : readAttribute rest with
    | none => none
    | some (p, rest) =>
      (readAttributes rest).map fun (attributes, rest) => (p :: attributes, rest)
  | _ => none
termination_by text.length
decreasing_by exact Nat.lt_succ_of_lt (length_readAttribute _h)

/-- What stands in an instruction, up to the first `?>`. -/
def readInstruction : List Char → Option (List Char × List Char)
  | [] => none
  | '?' :: '>' :: rest => some ([], rest)
  | c :: rest => (readInstruction rest).map fun (content, rest) => (c :: content, rest)

/-- The instruction with some content, unless it is the declaration. One character parts the
target from the data. -/
def instructionOf (content : List Char) : Option MarkupEvent :=
  let (target, data) := readName content
  if target = "xml" then none else some (.instruction target (String.ofList data.tail))

/-- One tag, instruction or character, and what follows it. -/
def readOne : List Char → Option (Option MarkupEvent × List Char)
  | '<' :: '?' :: rest =>
    (readInstruction rest).map fun (content, rest) => (instructionOf content, rest)
  | '<' :: '/' :: rest =>
    match readName rest with
    | (name, '>' :: rest) => some (some (.endElement name), rest)
    | _ => none
  | '<' :: rest =>
    (readAttributes (readName rest).2).map fun (attributes, rest') =>
      (some (.startElement (readName rest).1 ⟨attributes⟩), rest')
  | text => (decode text).map fun (c, rest) => (some (.characters (String.singleton c)), rest)

/-- An event before others. Text joins the text that follows it, and empty text is left out. -/
def joined : MarkupEvent → List MarkupEvent → List MarkupEvent
  | .characters text, .characters more :: rest => .characters (text ++ more) :: rest
  | .characters text, rest => if text = "" then rest else .characters text :: rest
  | event, rest => event :: rest

theorem length_readAttributes {text rest : List Char} {attributes : List (String × String)}
    (h : readAttributes text = some (attributes, rest)) : rest.length < text.length := by
  induction text using readAttributes.induct generalizing attributes with
  | case1 rest' =>
    rw [readAttributes] at h
    cases h
    exact Nat.lt_succ_self _
  | case2 rest' hattribute =>
    rw [readAttributes, hattribute] at h
    cases h
  | case3 rest' p rest'' hattribute ih =>
    rw [readAttributes, hattribute] at h
    obtain ⟨⟨attributes', rest'''⟩, hrest, heq⟩ := Option.map_eq_some_iff.mp h
    cases heq
    exact Nat.lt_succ_of_lt (Nat.lt_trans (ih hrest) (length_readAttribute hattribute))
  | case4 text hend hblank =>
    rw [readAttributes] at h
    · cases h
    · exact hend
    · exact hblank

theorem length_readInstruction {text content rest : List Char}
    (h : readInstruction text = some (content, rest)) : rest.length < text.length := by
  induction text using readInstruction.induct generalizing content with
  | case1 => cases h
  | case2 rest' =>
    rw [readInstruction] at h
    cases h
    exact Nat.lt_succ_of_lt (Nat.lt_succ_self _)
  | case3 c rest' hend ih =>
    rw [readInstruction] at h
    · obtain ⟨⟨content', rest''⟩, hrest, heq⟩ := Option.map_eq_some_iff.mp h
      cases heq
      exact Nat.lt_succ_of_lt (ih hrest)
    · exact hend

theorem length_readOne {text rest : List Char} {event : Option MarkupEvent}
    (h : readOne text = some (event, rest)) : rest.length < text.length := by
  unfold readOne at h
  split at h
  · obtain ⟨⟨content, rest'⟩, hcontent, heq⟩ := Option.map_eq_some_iff.mp h
    cases heq
    exact Nat.lt_succ_of_lt (Nat.lt_succ_of_lt (length_readInstruction hcontent))
  · next behind =>
    have hname := length_readName behind
    split at h
    · next heq =>
      cases h
      rw [heq] at hname
      simp only [List.length_cons] at hname ⊢
      omega
    · cases h
  · next behind _ _ =>
    have hname := length_readName behind
    obtain ⟨⟨attributes, rest'⟩, hattributes, heq⟩ := Option.map_eq_some_iff.mp h
    cases heq
    have hlt := length_readAttributes hattributes
    simp only [List.length_cons]
    omega
  · obtain ⟨⟨c, rest'⟩, hdecode, heq⟩ := Option.map_eq_some_iff.mp h
    cases heq
    exact length_decode hdecode

/-- The events that a text shows, if it can be read to its end. -/
def read (text : List Char) : Option (List MarkupEvent) :=
  match text with
  | [] => some []
  | c :: text =>
    match _h : readOne (c :: text) with
    | none => none
    | some (event, rest) => (read rest).map fun events => event.elim events (joined · events)
termination_by text.length
decreasing_by exact length_readOne _h

/-- The events that a sequence of bytes shows. -/
def readBytes (bytes : ByteArray) : Option (List MarkupEvent) :=
  (String.fromUTF8? bytes).bind fun text => read text.toList

/-! ### What the text can show -/

/-- The data with a space between each `?` and a `>` directly behind it. -/
def spaced (data : List Char) : List Char :=
  (data.zip (data.tail ++ [' '])).flatMap fun (c, next) =>
    if c = '?' ∧ next = '>' then ['?', ' '] else [c]

/-- The events as their text shows them. Namespaces are attributes of the next start tag, in front
of its own; `namespaces` are those that wait for one. -/
def shown : List (String × String) → List MarkupEvent → List MarkupEvent
  | _, [] => []
  | namespaces, .bindNamespace short uri :: rest =>
    shown (namespaces ++ [("xmlns:" ++ short, uri)]) rest
  | namespaces, .startElement name attributes :: rest =>
    .startElement name ⟨namespaces ++ attributes.items⟩ :: shown [] rest
  | namespaces, .endElement name :: rest => .endElement name :: shown namespaces rest
  | namespaces, .characters text :: rest => joined (.characters text) (shown namespaces rest)
  | namespaces, .instruction target data :: rest =>
    .instruction target (String.ofList (spaced data.toList)) :: shown namespaces rest
  | namespaces, .startDocument :: rest => shown namespaces rest
  | namespaces, .endDocument :: rest => shown namespaces rest
  | namespaces, .unbindNamespace _ :: rest => shown namespaces rest

theorem spaced_cons (c : Char) (rest : List Char) :
    spaced (c :: rest) =
      (if c = '?' ∧ rest.head? = some '>' then ['?', ' '] else [c]) ++ spaced rest := by
  cases rest with
  | nil => simp [spaced]
  | cons next rest => simp [spaced]

theorem breakPiEnds_eq_spaced (data : List Char) : breakPiEnds data = spaced data := by
  induction data using breakPiEnds.induct with
  | case1 rest ih =>
    rw [breakPiEnds, spaced_cons, spaced_cons, if_pos ⟨rfl, rfl⟩, if_neg (by simp), ih]
    rfl
  | case2 c rest hend ih =>
    have hc : ¬ (c = '?' ∧ rest.head? = some '>') := by
      rintro ⟨rfl, hhead⟩
      obtain ⟨rest', rfl⟩ := List.head?_eq_some_iff.mp hhead
      exact hend rest' rfl rfl
    rw [breakPiEnds, spaced_cons, if_neg hc, ih]
    · rfl
    · exact hend
  | case3 => rfl

/-! ### Text -/

theorem decode_escapeChar (c : Char) (rest : List Char) :
    decode (escapeChar c ++ rest) = some (c, rest) := by
  unfold escapeChar
  split
  · rfl
  · rfl
  · rfl
  · rfl
  · rfl
  · next hlt _ hamp _ _ =>
    rw [List.singleton_append]
    unfold decode
    split <;> simp_all

@[simp] theorem joined_empty (events : List MarkupEvent) :
    joined (.characters "") events = events := by
  unfold joined
  split <;> simp_all

theorem joined_append (first second : String) (events : List MarkupEvent) :
    joined (.characters (first ++ second)) events =
      joined (.characters first) (joined (.characters second) events) := by
  by_cases htext : ∃ more rest, events = .characters more :: rest
  · obtain ⟨more, rest, rfl⟩ := htext
    simp only [joined, String.append_assoc]
  · have hjoined : ∀ text, joined (.characters text) events =
        if text = "" then events else .characters text :: events := by
      intro text
      rw [joined]
      exact fun more rest heq => htext ⟨more, rest, heq⟩
    rw [hjoined, hjoined]
    by_cases hsecond : second = ""
    · rw [if_pos hsecond, hjoined, hsecond, String.append_empty]
    · have hboth : first ++ second ≠ "" := fun h => hsecond (String.append_eq_empty_iff.mp h).2
      rw [if_neg hsecond, if_neg hboth, joined]

theorem read_of_readOne {text rest : List Char} {event : Option MarkupEvent}
    (h : readOne text = some (event, rest)) :
    read text = (read rest).map fun events => event.elim events (joined · events) := by
  cases text with
  | nil => cases h
  | cons c text => rw [read, h]

theorem readOne_of_decode {text rest : List Char} {c : Char}
    (h : decode text = some (c, rest)) :
    readOne text = some (some (.characters (String.singleton c)), rest) := by
  unfold readOne
  split
  · cases h
  · cases h
  · cases h
  · rw [h]
    rfl

/-- Text is read as it was before it was escaped. -/
theorem read_escape (text : String) (rest : List Char) :
    read ((escape text).toList ++ rest) = (read rest).map (joined (.characters text)) := by
  have hchars : ∀ chars : List Char, read (chars.flatMap escapeChar ++ rest) =
      (read rest).map (joined (.characters (String.ofList chars))) := by
    intro chars
    induction chars with
    | nil =>
      rw [List.flatMap_nil, List.nil_append, String.ofList_nil]
      have hid : joined (.characters "") = id := funext joined_empty
      rw [hid, Option.map_id, id]
    | cons c chars ih =>
      have hchar := readOne_of_decode (decode_escapeChar c (chars.flatMap escapeChar ++ rest))
      have hcons : String.ofList (c :: chars) = String.singleton c ++ String.ofList chars := by
        rw [← String.toList_inj]
        simp
      have hjoin : joined (.characters (String.ofList (c :: chars))) =
          joined (.characters (String.singleton c)) ∘ joined (.characters (String.ofList chars)) :=
        funext fun events => hcons ▸ joined_append _ _ events
      rw [List.flatMap_cons, List.append_assoc, read_of_readOne hchar, ih, hjoin, ← Option.map_map]
      rfl
  rw [escape, String.toList_ofList, hchars, String.ofList_toList]

/-! ### Tags -/

theorem readName_append {name : String} (h : IsName name) {rest : List Char}
    (hrest : ∀ c ∈ rest.head?, isNameChar c = false) :
    readName (name.toList ++ rest) = (name, rest) := by
  have htake : rest.takeWhile isNameChar = [] := by
    cases rest with
    | nil => rfl
    | cons c rest => exact List.takeWhile_cons_of_neg (by simp [hrest c rfl])
  have hdrop : rest.dropWhile isNameChar = rest := by
    cases rest with
    | nil => rfl
    | cons c rest => exact List.dropWhile_cons_of_neg (by simp [hrest c rfl])
  rw [readName, List.takeWhile_append_of_pos h.2, List.dropWhile_append_of_pos h.2, htake, hdrop,
    List.append_nil, String.ofList_toList]

theorem readValue_escape (value : List Char) (rest : List Char) :
    readValue (value.flatMap escapeChar ++ '"' :: rest) = some (value, rest) := by
  induction value with
  | nil => rw [List.flatMap_nil, List.nil_append, readValue]
  | cons c value ih =>
    have hquote : ∀ behind, escapeChar c ++ (value.flatMap escapeChar ++ '"' :: rest) ≠
        '"' :: behind := by
      intro behind
      unfold escapeChar
      split <;> simp_all
    rw [List.flatMap_cons, List.append_assoc, readValue, decode_escapeChar]
    · simp only [ih, Option.map_some]
    · exact fun behind => hquote behind

/-- What an attribute is read from, after the space before it. -/
theorem toList_attributeText (p : String × String) :
    (attributeText p).toList =
      ' ' :: (p.1.toList ++ '=' :: '"' :: (p.2.toList.flatMap escapeChar ++ ['"'])) := by
  simp [attributeText, escape]

theorem readAttribute_append {p : String × String} (h : IsName p.1) (rest : List Char) :
    readAttribute (p.1.toList ++ '=' :: '"' :: (p.2.toList.flatMap escapeChar ++ '"' :: rest)) =
      some (p, rest) := by
  rw [readAttribute, readName_append h (by simp [isNameChar])]
  simp only [readValue_escape, Option.map_some, String.ofList_toList]

theorem readAttributes_attributeText (attributes : List (String × String))
    (h : ∀ p ∈ attributes, IsName p.1) (rest : List Char) :
    readAttributes ((String.join (attributes.map attributeText)).toList ++ '>' :: rest) =
      some (attributes, rest) := by
  rw [String.toList_join]
  induction attributes with
  | nil => rw [List.map_nil, List.flatMap_nil, List.nil_append, readAttributes]
  | cons p attributes ih =>
    have hfirst := readAttribute_append (h p List.mem_cons_self)
      ((attributes.map attributeText).flatMap String.toList ++ '>' :: rest)
    rw [List.map_cons, List.flatMap_cons, toList_attributeText]
    simp only [List.append_assoc, List.cons_append, List.nil_append]
    rw [readAttributes, hfirst]
    simp only [ih fun q hq => h q (List.mem_cons_of_mem p hq), Option.map_some]

theorem isName_append {first second : String} (hfirst : IsName first) (hsecond : IsName second) :
    IsName (first ++ second) := by
  refine ⟨by simp [hfirst.1], fun c hc => ?_⟩
  rw [String.toList_append] at hc
  exact (List.mem_append.mp hc).elim (hfirst.2 c) (hsecond.2 c)

/-- The first character of a name tells it from the mark of an end tag or an instruction. -/
theorem exists_cons_of_isName {name : String} (h : IsName name) :
    ∃ c chars, name.toList = c :: chars ∧ c ≠ '?' ∧ c ≠ '/' := by
  obtain ⟨c, chars, hchars⟩ := List.exists_cons_of_ne_nil h.1
  have hc : isNameChar c = true := h.2 c (hchars ▸ List.mem_cons_self)
  refine ⟨c, chars, hchars, ?_, ?_⟩
  · rintro rfl
    cases hc
  · rintro rfl
    cases hc

theorem readOne_startTag {name : String} {attributes : List (String × String)} (h : IsName name)
    (hattributes : ∀ p ∈ attributes, IsName p.1) (rest : List Char) :
    readOne ((startTag name attributes).toList ++ rest) =
      some (some (.startElement name ⟨attributes⟩), rest) := by
  have htext : (startTag name attributes).toList ++ rest = '<' :: (name.toList ++
      ((String.join (attributes.map attributeText)).toList ++ '>' :: rest)) := by
    simp [startTag]
  have hstop : ∀ c ∈ ((String.join (attributes.map attributeText)).toList ++ '>' :: rest).head?,
      isNameChar c = false := by
    intro c hc
    cases attributes with
    | nil => cases hc; rfl
    | cons p attributes =>
      have hblank : c = ' ' := by
        simpa [attributeText, eq_comm] using hc
      rw [hblank]
      rfl
  have hone : ∀ text, text.head? ≠ some '?' → text.head? ≠ some '/' → readOne ('<' :: text) =
      (readAttributes (readName text).2).map fun (attributes, rest') =>
        (some (.startElement (readName text).1 ⟨attributes⟩), rest') := by
    intro text hquestion hslash
    rw [readOne]
    · exact fun rest h => hquestion (h ▸ rfl)
    · exact fun rest h => hslash (h ▸ rfl)
  obtain ⟨c, chars, hchars, hquestion, hslash⟩ := exists_cons_of_isName h
  rw [htext, hone, readName_append h hstop]
  · simp only [readAttributes_attributeText attributes hattributes, Option.map_some]
  · simpa [hchars] using hquestion
  · simpa [hchars] using hslash

theorem readOne_endTag {name : String} (h : IsName name) (rest : List Char) :
    readOne ((endTag name).toList ++ rest) = some (some (.endElement name), rest) := by
  have htext : (endTag name).toList ++ rest = '<' :: '/' :: (name.toList ++ '>' :: rest) := by
    simp [endTag]
  rw [htext, readOne, readName_append h (by simp [isNameChar])]
  rfl

/-! ### Instructions -/

theorem head?_breakPiEnds (data : List Char) : (breakPiEnds data).head? = data.head? := by
  induction data using breakPiEnds.induct with
  | case1 rest => rfl
  | case2 c rest hend =>
    rw [breakPiEnds]
    · rfl
    · exact hend
  | case3 => rfl

/-- The end of an instruction is not found before the end of its data. -/
theorem readInstruction_breakPiEnds (data rest : List Char) :
    readInstruction (breakPiEnds data ++ '?' :: '>' :: rest) = some (breakPiEnds data, rest) := by
  induction data using breakPiEnds.induct with
  | case1 data ih =>
    rw [breakPiEnds]
    simp [readInstruction, ih]
  | case2 c data hend ih =>
    have hskip : ∀ behind, c = '?' →
        breakPiEnds data ++ '?' :: '>' :: rest = '>' :: behind → False := by
      intro behind hc heq
      have hhead := congrArg List.head? heq
      cases data with
      | nil => cases hhead
      | cons d data =>
        rw [List.head?_append, head?_breakPiEnds] at hhead
        cases hhead
        exact hend data hc rfl
    rw [breakPiEnds, List.cons_append, readInstruction, ih]
    · rfl
    · exact hskip
    · exact hend
  | case3 => rfl

theorem readInstruction_append {chars : List Char} (h : '?' ∉ chars) (text : List Char) :
    readInstruction (chars ++ text) =
      (readInstruction text).map fun (content, rest) => (chars ++ content, rest) := by
  induction chars with
  | nil => exact (congrFun Option.map_id _).symm
  | cons c chars ih =>
    rw [List.cons_append, readInstruction, ih (List.not_mem_of_not_mem_cons h), Option.map_map]
    · rfl
    · intro rest hc
      exact absurd (hc ▸ List.mem_cons_self) h

theorem toList_instruction (target data : String) :
    (instruction target data).toList =
      '<' :: '?' :: ((instructionContent target data).toList ++ ['?', '>']) := by
  simp [instruction]

theorem readInstruction_instructionContent {target : String} (h : IsName target) (data : String)
    (rest : List Char) :
    readInstruction ((instructionContent target data).toList ++ '?' :: '>' :: rest) =
      some ((instructionContent target data).toList, rest) := by
  have htarget : '?' ∉ target.toList := fun hmem => by cases h.2 _ hmem
  unfold instructionContent
  split
  · rw [readInstruction_append htarget]
    simp [readInstruction]
  · simp only [String.toList_append, String.toList_ofList, List.append_assoc]
    have hblank : '?' ∉ " ".toList := by decide
    rw [readInstruction_append htarget, readInstruction_append hblank, readInstruction_breakPiEnds]
    rfl

theorem instructionOf_append {target : String} (h : IsName target) (hdeclaration : target ≠ "xml")
    {behind : List Char} (hbehind : ∀ c ∈ behind.head?, isNameChar c = false) :
    instructionOf (target.toList ++ behind) =
      some (.instruction target (String.ofList behind.tail)) := by
  rw [instructionOf, readName_append h hbehind]
  exact if_neg hdeclaration

theorem instructionOf_instructionContent {target : String} (h : IsName target)
    (hdeclaration : target ≠ "xml") (data : String) :
    instructionOf (instructionContent target data).toList =
      some (.instruction target (String.ofList (spaced data.toList))) := by
  unfold instructionContent
  split
  · next hempty =>
    have hnothing : ∀ c ∈ ([] : List Char).head?, isNameChar c = false := nofun
    have hread := instructionOf_append h hdeclaration hnothing
    rw [List.append_nil] at hread
    rw [hread, String.isEmpty_iff.mp hempty]
    rfl
  · have hblank : ∀ c ∈ (' ' :: spaced data.toList).head?, isNameChar c = false := by
      simp [isNameChar]
    have htext : (target ++ " " ++ String.ofList (breakPiEnds data.toList)).toList =
        target.toList ++ ' ' :: spaced data.toList := by
      simp [breakPiEnds_eq_spaced]
    rw [htext]
    exact instructionOf_append h hdeclaration hblank

theorem readOne_instruction {target : String} (h : IsName target) (hdeclaration : target ≠ "xml")
    (data : String) (rest : List Char) :
    readOne ((instruction target data).toList ++ rest) =
      some (some (.instruction target (String.ofList (spaced data.toList))), rest) := by
  rw [toList_instruction]
  simp only [List.cons_append, List.append_assoc, List.nil_append]
  rw [readOne, readInstruction_instructionContent h, Option.map_some]
  simp only [instructionOf_instructionContent h hdeclaration]

theorem readOne_declaration (rest : List Char) :
    readOne (declaration.toList ++ rest) = some (none, rest) := by
  have htext : declaration.toList ++ rest = '<' :: '?' ::
      ("xml version=\"1.0\" encoding=\"UTF-8\"".toList ++ '?' :: '>' :: rest) := by
    rfl
  have hcontent : '?' ∉ "xml version=\"1.0\" encoding=\"UTF-8\"".toList := by decide
  rw [htext, readOne, readInstruction_append hcontent]
  rfl

/-- An instruction that is read ends at the first `?>`. -/
theorem exists_readInstruction (before behind : List Char) :
    ∃ content rest, readInstruction (before ++ '?' :: '>' :: behind) = some (content, rest) ∧
      behind.length ≤ rest.length := by
  generalize htext : before ++ '?' :: '>' :: behind = text
  induction text using readInstruction.induct generalizing before with
  | case1 => simp at htext
  | case2 rest =>
    refine ⟨[], rest, rfl, ?_⟩
    have hlength := congrArg List.length htext
    simp only [List.length_append, List.length_cons] at hlength
    omega
  | case3 c rest hend ih =>
    cases before with
    | nil =>
      cases htext
      exact (hend behind rfl rfl).elim
    | cons d before =>
      obtain ⟨rfl, hrest⟩ := List.cons.inj htext
      obtain ⟨content, last, hread, hle⟩ := ih before hrest
      refine ⟨d :: content, last, ?_, hle⟩
      rw [readInstruction, hread]
      · rfl
      · exact hend

/-- The first `?>` in an instruction is its end. -/
theorem eq_nil_of_instruction {target data : String} (h : IsName target)
    {before behind : List Char}
    (htext : (instruction target data).toList = '<' :: '?' :: (before ++ '?' :: '>' :: behind)) :
    behind = [] := by
  rw [toList_instruction] at htext
  have hcontent : (instructionContent target data).toList ++ '?' :: '>' :: [] =
      before ++ '?' :: '>' :: behind := (List.cons.inj (List.cons.inj htext).2).2
  obtain ⟨content, rest, hread, hle⟩ := exists_readInstruction before behind
  rw [← hcontent, readInstruction_instructionContent h] at hread
  cases hread
  exact List.eq_nil_of_length_eq_zero (Nat.le_zero.mp hle)

/-! ### Events -/

theorem lead_zero (layout : Layout) : layout.lead 0 = "" := if_neg fun h => h.1 rfl

/-- An event that is read in one go is read before the events behind it. -/
theorem read_append {text : String} {event : MarkupEvent} {rest : List Char}
    {events : List MarkupEvent} (hone : readOne (text.toList ++ rest) = some (some event, rest))
    (hrest : read rest = some events) :
    read (text.toList ++ rest) = some (joined event events) := by
  rw [read_of_readOne hone, hrest]
  rfl

/-- Written events are read as their text shows them. -/
theorem read_writeAll (events : List MarkupEvent) (layout : Layout)
    (h : ∀ event ∈ events, HasNames event) (hnamespaces : ∀ p ∈ layout.namespaces, IsName p.1) :
    read (writeAll 0 layout events).toList = some (shown layout.namespaces events) := by
  induction events generalizing layout with
  | nil =>
    rw [writeAll, String.toList_empty, read]
    rfl
  | cons event rest ih =>
    have hevent := h event List.mem_cons_self
    replace ih := fun layout => ih layout fun e he => h e (List.mem_cons_of_mem event he)
    rw [writeAll]
    cases event with
    | startDocument =>
      simp only [write, lead_zero, String.empty_append, String.toList_append]
      have hrest := ih { layout with newLine := true } hnamespaces
      rw [read_of_readOne (readOne_declaration _), hrest]
      rfl
    | endDocument =>
      simp only [write, String.empty_append]
      exact ih layout hnamespaces
    | unbindNamespace short =>
      simp only [write, String.empty_append]
      exact ih layout hnamespaces
    | bindNamespace short uri =>
      simp only [write, String.empty_append]
      refine ih _ fun p hp => ?_
      rcases List.mem_append.mp hp with hp | hp
      · exact hnamespaces p hp
      · cases List.mem_singleton.mp hp
        exact isName_append (by simp [IsName, isNameChar]) hevent
    | startElement name attributes =>
      have hattributes : ∀ p ∈ layout.namespaces ++ attributes.items, IsName p.1 := by
        intro p hp
        exact (List.mem_append.mp hp).elim (hnamespaces p) (hevent.2 p)
      simp only [write, lead_zero, String.empty_append, String.toList_append]
      exact read_append (readOne_startTag hevent.1 hattributes _)
        (ih _ fun _ hp => absurd hp List.not_mem_nil)
    | endElement name =>
      simp only [write, lead_zero, String.empty_append, String.toList_append]
      exact read_append (readOne_endTag hevent _) (ih _ hnamespaces)
    | characters text =>
      have hrest := ih { layout with newLine := false } hnamespaces
      simp only [write, String.toList_append]
      rw [read_escape, hrest]
      rfl
    | instruction target data =>
      simp only [write, lead_zero, String.empty_append, String.toList_append]
      exact read_append (readOne_instruction hevent.1 hevent.2 data _) (ih _ hnamespaces)

theorem readBytes_toUTF8 (text : String) : readBytes text.toUTF8 = read text.toList := by
  have htext : String.fromUTF8? text.toUTF8 = some text := dif_pos text.isValidUTF8
  rw [readBytes, htext, Option.bind_some]

/-- An XML sink without indentation takes up every event, and from its bytes the events are read
as their text shows them. No data ends its instruction early. -/
theorem readBytes_sink (events : List MarkupEvent) (h : ∀ event ∈ events, HasNames event) :
    (sink 0).Accepts events (State.start none) ∧
      readBytes ((sink 0).after events (State.start none)).output.bytes = some (shown [] events) ∧
      ∀ target data before behind, IsName target →
        (instruction target data).toList = '<' :: '?' :: (before ++ '?' :: '>' :: behind) →
          behind = [] := by
  refine ⟨accepts_unlimited 0 events _ _, ?_, fun _ _ _ _ htarget => eq_nil_of_instruction htarget⟩
  rw [bytes_unlimited, text, readBytes_toUTF8]
  exact read_writeAll events {} h fun _ hp => absurd hp List.not_mem_nil

/-- A page with a namespace, text in two parts and an instruction that holds the mark of its end
after another question mark. -/
def page : List MarkupEvent :=
  [.startDocument, .bindNamespace "ditaarch" "urn:x", .startElement "p" ⟨[("title", "a \"b\"")]⟩,
    .characters "x <", .characters "", .characters " y & z", .instruction "html" "a ??> b?",
    .endElement "p", .unbindNamespace "ditaarch", .endDocument]

theorem readBytes_page :
    (∀ event ∈ page, HasNames event) ∧
      readBytes ((sink 0).after page (State.start none)).output.bytes =
        some [.startElement "p" ⟨[("xmlns:ditaarch", "urn:x"), ("title", "a \"b\"")]⟩,
          .characters "x < y & z", .instruction "html" "a ?? > b?", .endElement "p"] := by
  have hnames : ∀ event ∈ page, HasNames event := by simp [page, HasNames, IsName, isNameChar]
  obtain ⟨-, hread, -⟩ := readBytes_sink page hnames
  exact ⟨hnames, hread⟩

end DitaTopic.Markup.Xml
