import DitaTopic.Options.Key

/-!
# Reading a key along its inheritance

A key is read under its own name, then under the name of the key that it inherits from, and so on.
The first name that holds a value of the type decides. A value of another type does not, so it
might as well not be there; in particular an unset string is no string. If no name decides, the
constant at the end does, or the fallback of the type if that constant has another type too.

What is held under names outside the chain is never looked at.
-/

namespace DitaTopic.Options

/-! ## What converts -/

theorem ofValue?_eq_some_bool {value : OptionValue} {b : Bool} :
    OptionType.ofValue? value = some b ↔ value = .bool b := by
  cases value <;> simp [OptionType.ofValue?]

theorem ofValue?_eq_some_int {value : OptionValue} {i : Int} :
    OptionType.ofValue? value = some i ↔ value = .int i := by
  cases value <;> simp [OptionType.ofValue?]

theorem ofValue?_eq_some_str {value : OptionValue} {s : String} :
    OptionType.ofValue? value = some s ↔ value = .str s := by
  cases value <;> simp [OptionType.ofValue?]

/-- An optional string is given by a string or by an explicitly unset one. -/
theorem ofValue?_eq_some_optional {value : OptionValue} {s : Option String} :
    OptionType.ofValue? value = some s ↔
      (∃ text, value = .str text ∧ s = some text) ∨ value = .null ∧ s = none := by
  cases value <;> simp [OptionType.ofValue?, eq_comm]

namespace OptionKey

variable {α : Type} [OptionType α] {view v w : OptionView} {name : String} {content : α}

/-- The constant at the end of a key's inheritance. -/
def lastDefault {α : Type} : OptionKey α → OptionValue
  | constant _ value => value
  | inherit _ parent => parent.lastDefault

/-- A view holds a value under a name that reads as the content. -/
def Holds (view : OptionView) (name : String) (content : α) : Prop :=
  ∃ value, view.lookup name = some value ∧ OptionType.ofValue? value = some content

/-- A view holds nothing of the type under any of the names. -/
def HoldsNone (α : Type) [OptionType α] (view : OptionView) (names : List String) : Prop :=
  ∀ name ∈ names, ∀ content : α, ¬ Holds view name content

/-- What names in the order of inheritance, with a default behind the last, are read as. -/
inductive ReadsAs (view : OptionView) (default : OptionValue) (names : List String) : α → Prop where
  | held {before behind : List String} {name : String} {content : α}
      (split : names = before ++ name :: behind) (skipped : HoldsNone α view before)
      (h : Holds view name content) : ReadsAs view default names content
  | default {content : α} (skipped : HoldsNone α view names)
      (h : OptionType.ofValue? default = some content) : ReadsAs view default names content
  | fallback (skipped : HoldsNone α view names)
      (h : ∀ content : α, OptionType.ofValue? default ≠ some content) :
      ReadsAs view default names OptionType.fallback

theorem explicit?_eq_some_iff : explicit? view name = some content ↔ Holds view name content := by
  rw [explicit?, Option.bind_eq_some_iff]
  rfl

theorem explicit?_eq_none_iff :
    (explicit? view name : Option α) = none ↔ ∀ content : α, ¬ Holds view name content := by
  simp only [Option.eq_none_iff_forall_ne_some, ne_eq, explicit?_eq_some_iff]

theorem holdsNone_nil : HoldsNone α view [] := by
  intro name hname
  cases hname

theorem holdsNone_cons {names : List String} :
    HoldsNone α view (name :: names) ↔
      (explicit? view name : Option α) = none ∧ HoldsNone α view names := by
  rw [HoldsNone, List.forall_mem_cons, explicit?_eq_none_iff, HoldsNone]

/-- Without names there is the default to read, or the fallback. -/
theorem readsAs_nil_iff {default : OptionValue} :
    ReadsAs view default [] content ↔
      (OptionType.ofValue? default).getD OptionType.fallback = content := by
  rw [Option.getD_eq_iff]
  constructor
  · intro h
    cases h with
    | held split => simp at split
    | default skipped h => exact .inl h
    | fallback skipped h => exact .inr ⟨Option.eq_none_iff_forall_ne_some.mpr h, rfl⟩
  · rintro (h | ⟨h, rfl⟩)
    · exact .default holdsNone_nil h
    · exact .fallback holdsNone_nil (Option.eq_none_iff_forall_ne_some.mp h)

/-- The first name decides if it holds something of the type, and makes no difference otherwise. -/
theorem readsAs_cons_iff {default : OptionValue} {names : List String} :
    ReadsAs view default (name :: names) content ↔
      explicit? view name = some content ∨
        (explicit? view name : Option α) = none ∧ ReadsAs view default names content := by
  constructor
  · intro h
    cases h with
    | held split skipped h =>
      rcases List.cons_eq_append_iff.mp split with ⟨rfl, hcons⟩ | ⟨before, rfl, hnames⟩
      · obtain ⟨rfl, rfl⟩ := List.cons.inj hcons
        exact .inl (explicit?_eq_some_iff.mpr h)
      · obtain ⟨hnone, skipped⟩ := holdsNone_cons.mp skipped
        exact .inr ⟨hnone, .held hnames skipped h⟩
    | default skipped h =>
      obtain ⟨hnone, skipped⟩ := holdsNone_cons.mp skipped
      exact .inr ⟨hnone, .default skipped h⟩
    | fallback skipped h =>
      obtain ⟨hnone, skipped⟩ := holdsNone_cons.mp skipped
      exact .inr ⟨hnone, .fallback skipped h⟩
  · rintro (h | ⟨hnone, h⟩)
    · exact .held rfl holdsNone_nil (explicit?_eq_some_iff.mp h)
    · cases h with
      | held split skipped h =>
        subst split
        exact .held rfl (holdsNone_cons.mpr ⟨hnone, skipped⟩) h
      | default skipped h => exact .default (holdsNone_cons.mpr ⟨hnone, skipped⟩) h
      | fallback skipped h => exact .fallback (holdsNone_cons.mpr ⟨hnone, skipped⟩) h

/-- The induction is on the keys that are inherited from. -/
theorem readsAs_iff {key : OptionKey α} :
    ReadsAs view key.lastDefault key.names content ↔ key.resolve view = content := by
  induction key with
  | constant name value =>
    rw [names, lastDefault, resolve, readsAs_cons_iff, Option.getD_eq_iff, readsAs_nil_iff]
  | inherit name parent ih =>
    rw [names, lastDefault, resolve, readsAs_cons_iff, ih, Option.getD_eq_iff]

/-- Views that hold the same contents of the type under a name are read alike there. -/
theorem explicit?_congr (h : ∀ content : α, Holds v name content ↔ Holds w name content) :
    (explicit? v name : Option α) = explicit? w name := by
  apply Option.ext
  intro content
  rw [explicit?_eq_some_iff, explicit?_eq_some_iff]
  exact h content

/-- A key resolves alike where the same contents of its type are held under the names of its
chain. -/
theorem resolve_congr_holds {key : OptionKey α}
    (h : ∀ name ∈ key.names, ∀ content : α, Holds v name content ↔ Holds w name content) :
    key.resolve v = key.resolve w := by
  induction key with
  | constant name value =>
    have hname := explicit?_congr (h name (List.mem_singleton_self name))
    rw [resolve, resolve, hname]
  | inherit name parent ih =>
    obtain ⟨hfirst, hrest⟩ := List.forall_mem_cons.mp h
    rw [resolve, resolve, explicit?_congr hfirst, ih hrest]

theorem resolve_congr_names {key : OptionKey α}
    (h : ∀ name ∈ key.names, v.lookup name = w.lookup name) : key.resolve v = key.resolve w := by
  apply resolve_congr_holds
  intro name hname content
  rw [Holds, Holds, h name hname]

end OptionKey

/-- How a key of any type is read in any view. The first name of its chain that holds a value which
converts to the type decides, then the constant at the end, then the fallback of the type. A value
that does not convert counts as absent, and values under other names do not count. -/
theorem resolve_follows_inheritance :
    (∀ (value : OptionValue) (b : Bool), OptionType.ofValue? value = some b ↔ value = .bool b) ∧
    (∀ (value : OptionValue) (i : Int), OptionType.ofValue? value = some i ↔ value = .int i) ∧
    (∀ (value : OptionValue) (s : String), OptionType.ofValue? value = some s ↔ value = .str s) ∧
    (∀ (value : OptionValue) (s : Option String), OptionType.ofValue? value = some s ↔
      (∃ text, value = .str text ∧ s = some text) ∨ value = .null ∧ s = none) ∧
    ((OptionType.fallback : Bool) = false ∧ (OptionType.fallback : Int) = 0 ∧
      (OptionType.fallback : String) = "" ∧ (OptionType.fallback : Option String) = none) ∧
    ∀ {α : Type} [OptionType α] (key : OptionKey α) (view : OptionView),
      (∀ content, key.resolve view = content ↔
        OptionKey.ReadsAs view key.lastDefault key.names content) ∧
      (∀ other : OptionView,
        (∀ name ∈ key.names, ∀ content : α,
          OptionKey.Holds view name content ↔ OptionKey.Holds other name content) →
        key.resolve view = key.resolve other) ∧
      ∀ (other : OptionView) (name : String), name ∉ key.names →
        (∀ kept, kept ≠ name → other.lookup kept = view.lookup kept) →
        key.resolve other = key.resolve view := by
  refine ⟨fun _ _ => ofValue?_eq_some_bool, fun _ _ => ofValue?_eq_some_int,
    fun _ _ => ofValue?_eq_some_str, fun _ _ => ofValue?_eq_some_optional,
    ⟨rfl, rfl, rfl, rfl⟩, ?_⟩
  intro α _ key view
  refine ⟨fun content => OptionKey.readsAs_iff.symm, fun other => OptionKey.resolve_congr_holds, ?_⟩
  intro other name houtside hkept
  apply OptionKey.resolve_congr_names
  intro inside hinside
  apply hkept
  rintro rfl
  exact houtside hinside

/-- A switch that follows another one, which follows a third. -/
def follower : OptionKey Bool :=
  .inherit "GRANDCHILD" (.inherit "CHILD" (.constant "BASE" (.bool true)))

def baseOff : OptionView := .ofSet (KeyedList.empty.insert "BASE" (.bool false))

/-- A text stands where the second switch would be. -/
def childText : OptionView := .layer baseOff (.ofSet (KeyedList.empty.insert "CHILD" (.str "yes")))

/-- The text is passed over as if it were not there, and so is an option that is none of the
three. -/
theorem resolve_follows_inheritance_mistyped :
    childText.lookup "CHILD" = some (.str "yes") ∧ follower.resolve childText = false ∧
    follower.resolve childText = follower.resolve baseOff ∧ "OTHER" ∉ follower.names ∧
    follower.resolve (.layer childText (.ofSet (KeyedList.empty.insert "OTHER" (.bool true)))) =
      false := by
  obtain ⟨-, -, -, -, -, hresolve⟩ := resolve_follows_inheritance
  obtain ⟨hreads, habsent, hframe⟩ := hresolve follower childText
  have hsplit : follower.names = ["GRANDCHILD", "CHILD"] ++ "BASE" :: [] := rfl
  have hskipped : OptionKey.HoldsNone Bool childText ["GRANDCHILD", "CHILD"] :=
    OptionKey.holdsNone_cons.mpr ⟨rfl, OptionKey.holdsNone_cons.mpr ⟨rfl, OptionKey.holdsNone_nil⟩⟩
  have hbase : OptionKey.Holds childText "BASE" false := ⟨.bool false, rfl, rfl⟩
  have hoff : follower.resolve childText = false :=
    (hreads false).mpr (.held hsplit hskipped hbase)
  have hsame : ∀ name ∈ follower.names,
      (OptionKey.explicit? childText name : Option Bool) = OptionKey.explicit? baseOff name := by
    decide
  have hremoved : follower.resolve childText = follower.resolve baseOff := by
    apply habsent
    intro name hname content
    rw [← OptionKey.explicit?_eq_some_iff, ← OptionKey.explicit?_eq_some_iff, hsame name hname]
  have houtside : "OTHER" ∉ follower.names := by decide
  refine ⟨rfl, hoff, hremoved, houtside, (hframe _ "OTHER" houtside ?_).trans hoff⟩
  intro kept hkept
  rw [OptionView.lookup_layer, OptionView.lookup_ofSet, KeyedList.find?_insert, if_neg hkept.symm,
    KeyedList.find?_empty, Option.none_or]

end DitaTopic.Options
