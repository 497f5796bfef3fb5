import Mathlib
import DitaTopic.Proofs.Config.Effective
import DitaTopic.Proofs.Text.ByteOrder

/-!
# Render tables

Which render tables are accepted, what the options of an accepted one are, and which error another
one gives. The table decides this by its entries alone: they are taken up in the byte order of
their names, wherever they stand in the file.

Names that differ in case only are names of one option. Of their entries the last one counts.
-/

namespace DitaTopic.Config

open DitaTopic.Options
open DitaTopic.Text

/-- The booleans, integers and strings of a file, with the option values they give. -/
inductive Gives : Toml.Value → OptionValue → Prop where
  | boolean (b : Bool) : Gives (.boolean b) (.bool b)
  | integer (i : Int) : Gives (.integer i) (.int i)
  | string (s : String) : Gives (.string s) (.str s)

/-- The option that an entry of a file is for: its name in ASCII upper case. -/
def optionName (name : String) : String := name.map Char.toUpper

/-- An entry gives a value of the kind that the schema has for its option. -/
structure Suits (entry : String × Toml.Value) (value : OptionValue) : Prop where
  gives : Gives entry.2 value
  known : ∃ key ∈ schema, key.name = optionName entry.1 ∧ key.kind.Admits value

/-- What is wrong with an entry. Its value comes first, then its name, then whether they fit. -/
inductive Offends : String × Toml.Value → ConfigError → Prop where
  | unsupported {name : String} {value : Toml.Value} (h : ∀ option, ¬ Gives value option) :
      Offends (name, value) (.unsupportedType name value.typeName)
  | unknown {name : String} {value : Toml.Value} {option : OptionValue} (h : Gives value option)
      (unknown : ∀ key ∈ schema, key.name ≠ optionName name) :
      Offends (name, value) (.refused (.unknown (optionName name)))
  | mismatch {name : String} {value : Toml.Value} {option : OptionValue} {key : SchemaKey}
      (h : Gives value option) (known : key ∈ schema) (hname : key.name = optionName name)
      (kind : ¬ key.kind.Admits option) :
      Offends (name, value) (.refused (.kindMismatch (optionName name) key.kind))

/-- The entries of the render table of a file that has nothing else at its top. -/
inductive RenderTable : List (String × Toml.Written) → List (String × Toml.Value) → Prop where
  | absent : RenderTable [] []
  | present {table : Toml.Written} {entries : List (String × Toml.Value)}
      (h : table.entries? = some entries) : RenderTable [("render", table)] entries

variable {options later : OptionSet} {entry : String × Toml.Value} {value : OptionValue}
  {error : ConfigError}

theorem Gives.unique {content : Toml.Value} {first second : OptionValue} (h : Gives content first)
    (h' : Gives content second) : first = second := by
  cases h <;> cases h' <;> rfl

/-- No entry is both right and wrong. -/
theorem Offends.not_suits (h : Offends entry error) : ¬ Suits entry value := by
  rintro ⟨hgives, key, hkey, hname, hadmits⟩
  cases h with
  | unsupported hnone => exact hnone value hgives
  | unknown _ hunknown => exact hunknown key hkey hname
  | @mismatch name content option key' hgives' hkey' hname' hkind =>
    obtain rfl := hgives.unique hgives'
    obtain rfl := List.inj_on_of_nodup_map names_nodup hkey' hkey (hname'.trans hname.symm)
    exact hkind hadmits

/-! ## One entry -/

theorem optionValue_eq_ok_iff {name : String} {content : Toml.Value} :
    optionValue name content = .ok value ↔ Gives content value := by
  constructor
  · intro h
    cases content <;> cases h <;> constructor
  · rintro (_ | _ | _) <;> rfl

theorem optionValue_eq_error {name : String} {content : Toml.Value}
    (h : optionValue name content = .error error) :
    error = .unsupportedType name content.typeName ∧ ∀ value, ¬ Gives content value := by
  cases content with
  | boolean | integer | string => cases h
  | float | datetime | array | table =>
    cases h
    exact ⟨rfl, nofun⟩

theorem accepts_iff {kind : ValueKind} : kind.accepts value = true ↔ kind.Admits value := by
  refine ⟨ValueKind.admits_of_accepts, ?_⟩
  rintro (_ | _ | _ | _) <;> rfl

/-- A checked value is stored under the name of a key of its kind, or else refused for the name or
for the kind. -/
theorem setChecked_cases (options : OptionSet) (name : String) (value : OptionValue) :
    (∃ key ∈ schema, key.name = name ∧ key.kind.Admits value ∧
      OptionSet.setChecked options name value = .ok (options.insert name value)) ∨
    ((∀ key ∈ schema, key.name ≠ name) ∧
      OptionSet.setChecked options name value = .error (.unknown name)) ∨
    ∃ key ∈ schema, key.name = name ∧ ¬ key.kind.Admits value ∧
      OptionSet.setChecked options name value = .error (.kindMismatch name key.kind) := by
  rw [OptionSet.setChecked]
  cases hfind : schemaKey? name with
  | none =>
    have hunknown := List.find?_eq_none.mp hfind
    exact .inr (.inl ⟨fun key hkey hname => hunknown key hkey (beq_iff_eq.mpr hname), rfl⟩)
  | some key =>
    have hkey := List.mem_of_find?_eq_some hfind
    have hname : key.name = name := beq_iff_eq.mp (List.find?_some hfind :)
    by_cases hkind : key.kind.Admits value
    · exact .inl ⟨key, hkey, hname, hkind, if_pos (accepts_iff.mpr hkind)⟩
    · exact .inr (.inr ⟨key, hkey, hname, hkind, if_neg fun h => hkind (accepts_iff.mp h)⟩)

/-- An entry that suits is stored under the name of its option, and one that does not is refused for
what is wrong with it. What is stored so far plays no part in this. -/
theorem addEntry_cases (options : OptionSet) (entry : String × Toml.Value) :
    (∃ value, Suits entry value ∧
      addEntry options entry = .ok (options.insert (optionName entry.1) value)) ∨
    ∃ error, Offends entry error ∧ addEntry options entry = .error error := by
  obtain ⟨name, content⟩ := entry
  cases hvalue : optionValue name content with
  | error error =>
    obtain ⟨rfl, hnone⟩ := optionValue_eq_error hvalue
    refine .inr ⟨_, .unsupported hnone, ?_⟩
    rw [addEntry, hvalue]
    rfl
  | ok value =>
    have hgives := optionValue_eq_ok_iff.mp hvalue
    have hadd : addEntry options (name, content) =
        (OptionSet.setChecked options (optionName name) value).mapError .refused := by
      rw [addEntry, hvalue]
      rfl
    rw [hadd]
    rcases setChecked_cases options (optionName name) value with
      ⟨key, hkey, hname, hkind, hset⟩ | ⟨hunknown, hset⟩ | ⟨key, hkey, hname, hkind, hset⟩
    · exact .inl ⟨value, ⟨hgives, key, hkey, hname, hkind⟩, by rw [hset]; rfl⟩
    · exact .inr ⟨_, .unknown hgives hunknown, by rw [hset]; rfl⟩
    · exact .inr ⟨_, .mismatch hgives hkey hname hkind, by rw [hset]; rfl⟩

theorem addEntry_eq_ok (h : addEntry options entry = .ok later) :
    ∃ value, Suits entry value ∧ later = options.insert (optionName entry.1) value := by
  rcases addEntry_cases options entry with ⟨value, hsuits, hadd⟩ | ⟨error, -, hadd⟩
  · rw [hadd] at h
    exact ⟨value, hsuits, (Except.ok.inj h).symm⟩
  · rw [hadd] at h
    cases h

/-! ## Entries in turn -/

/-- If all entries suit, they are taken up. -/
theorem exists_foldlM_eq_ok {entries : List (String × Toml.Value)}
    (h : ∀ entry ∈ entries, ∃ value, Suits entry value) (options : OptionSet) :
    ∃ later, entries.foldlM addEntry options = .ok later := by
  induction entries generalizing options with
  | nil => exact ⟨options, rfl⟩
  | cons entry rest ih =>
    obtain ⟨value, hsuits⟩ := h entry (List.mem_cons_self ..)
    rw [List.foldlM_cons]
    rcases addEntry_cases options entry with ⟨value', -, hadd⟩ | ⟨error, hoffends, -⟩
    · rw [hadd]
      exact ih (fun other hother => h other (List.mem_cons_of_mem _ hother)) _
    · exact absurd hsuits hoffends.not_suits

theorem forall_suits_of_foldlM {entries : List (String × Toml.Value)}
    (h : entries.foldlM addEntry options = .ok later) :
    ∀ entry ∈ entries, ∃ value, Suits entry value := by
  induction entries generalizing options with
  | nil => exact fun entry hentry => absurd hentry List.not_mem_nil
  | cons entry rest ih =>
    rw [List.foldlM_cons] at h
    obtain ⟨next, hadd, hrest⟩ := exists_ok_of_bind h
    obtain ⟨value, hsuits, -⟩ := addEntry_eq_ok hadd
    exact List.forall_mem_cons.mpr ⟨⟨value, hsuits⟩, ih hrest⟩

/-- The first entry that is wrong is what is complained about. -/
theorem foldlM_eq_error {entries : List (String × Toml.Value)}
    (h : entries.foldlM addEntry options = .error error) :
    ∃ before entry after, entries = before ++ entry :: after ∧ Offends entry error ∧
      ∀ other ∈ before, ∃ value, Suits other value := by
  induction entries generalizing options with
  | nil => cases h
  | cons entry rest ih =>
    rw [List.foldlM_cons] at h
    rcases addEntry_cases options entry with ⟨value, hsuits, hadd⟩ | ⟨error', hoffends, hadd⟩
    · rw [hadd] at h
      obtain ⟨before, wrong, after, rfl, hoffends, hbefore⟩ := ih h
      refine ⟨entry :: before, wrong, after, rfl, hoffends, ?_⟩
      exact List.forall_mem_cons.mpr ⟨⟨value, hsuits⟩, hbefore⟩
    · rw [hadd] at h
      obtain rfl := Except.error.inj h
      exact ⟨[], entry, rest, rfl, hoffends, fun other hother => absurd hother List.not_mem_nil⟩

/-- What is stored under a name is what the last entry for that option gives, or else what was there
before. -/
theorem find?_foldlM {entries : List (String × Toml.Value)}
    (h : entries.foldlM addEntry options = .ok later) (name : String) :
    (∃ before entry after, entries = before ++ entry :: after ∧ optionName entry.1 = name ∧
      (∀ other ∈ after, optionName other.1 ≠ name) ∧
      ∃ value, Suits entry value ∧ later.find? name = some value) ∨
    (∀ entry ∈ entries, optionName entry.1 ≠ name) ∧ later.find? name = options.find? name := by
  induction entries generalizing options with
  | nil =>
    cases h
    exact .inr ⟨fun entry hentry => absurd hentry List.not_mem_nil, rfl⟩
  | cons entry rest ih =>
    rw [List.foldlM_cons] at h
    obtain ⟨next, hadd, hrest⟩ := exists_ok_of_bind h
    obtain ⟨value, hsuits, rfl⟩ := addEntry_eq_ok hadd
    rcases ih hrest with ⟨before, last, after, rfl, hlast⟩ | ⟨hnone, hfind⟩
    · exact .inl ⟨entry :: before, last, after, rfl, hlast⟩
    · rw [KeyedList.find?_insert] at hfind
      split at hfind
      · next hname => exact .inl ⟨[], entry, rest, rfl, hname, hnone, value, hsuits, hfind⟩
      · next hname => exact .inr ⟨List.forall_mem_cons.mpr ⟨hname, hnone⟩, hfind⟩

/-! ## A table -/

section Table

variable {entries : List (String × Toml.Value)}

theorem mem_sortEntries : entry ∈ sortEntries entries ↔ entry ∈ entries :=
  (List.mergeSort_perm entries _).mem_iff

theorem pairwise_sortEntries (entries : List (String × Toml.Value)) :
    (sortEntries entries).Pairwise fun a b => a.1 ≤ b.1 := by
  let le (a b : String × Toml.Value) : Bool := decide (a.1 ≤ b.1)
  have htrans (a b c : String × Toml.Value) (hab : le a b) (hbc : le b c) : le a c :=
    decide_eq_true (String.le_trans (of_decide_eq_true hab) (of_decide_eq_true hbc))
  have htotal (a b : String × Toml.Value) : le a b || le b a := by
    simpa [le] using String.le_total a.1 b.1
  exact (List.pairwise_mergeSort htrans htotal entries).imp of_decide_eq_true

/-- Entries whose names differ have one order. -/
theorem sortEntries_eq {ordered : List (String × Toml.Value)} (hperm : ordered.Perm entries)
    (hnames : (entries.map Prod.fst).Nodup) (hordered : ordered.Pairwise fun a b => a.1 ≤ b.1) :
    sortEntries entries = ordered := by
  refine ((List.mergeSort_perm entries _).trans hperm.symm).eq_of_pairwise ?_
    (pairwise_sortEntries entries) hordered
  intro a b ha hb hab hba
  exact List.inj_on_of_nodup_map hnames (mem_sortEntries.mp ha) (hperm.mem_iff.mp hb)
    (String.le_antisymm hab hba)

/-- The order in which a file has its entries does not matter. -/
theorem ofTable_perm {others : List (String × Toml.Value)} (hperm : others.Perm entries)
    (hnames : (entries.map Prod.fst).Nodup) : ofTable others = ofTable entries := by
  have hsorted : sortEntries entries = sortEntries others :=
    sortEntries_eq ((List.mergeSort_perm others _).trans hperm) hnames (pairwise_sortEntries others)
  rw [ofTable, ofTable, hsorted]

theorem exists_ofTable_iff : (∃ options, ofTable entries = .ok options) ↔
    ∀ entry ∈ entries, ∃ value, Suits entry value := by
  constructor
  · rintro ⟨options, h⟩ entry hentry
    exact forall_suits_of_foldlM h entry (mem_sortEntries.mpr hentry)
  · intro h
    exact exists_foldlM_eq_ok (fun entry hentry => h entry (mem_sortEntries.mp hentry)) _

/-- Where an entry stands among the others when they are taken up. -/
theorem le_of_sortEntries_eq {before after : List (String × Toml.Value)}
    (hsplit : sortEntries entries = before ++ entry :: after) :
    entry ∈ entries ∧ ∀ other ∈ entries,
      (other ∈ before ∧ utf8 other.1 ≤ utf8 entry.1) ∨ other = entry ∨
        (other ∈ after ∧ utf8 entry.1 ≤ utf8 other.1) := by
  have hsorted := pairwise_sortEntries entries
  rw [hsplit, List.pairwise_append, List.pairwise_cons] at hsorted
  obtain ⟨-, ⟨hafter, -⟩, hbefore⟩ := hsorted
  have hmem (other : String × Toml.Value) :
      other ∈ entries ↔ other ∈ before ∨ other = entry ∨ other ∈ after := by
    rw [← mem_sortEntries, hsplit, List.mem_append, List.mem_cons]
  refine ⟨(hmem entry).mpr (.inr (.inl rfl)), fun other hother => ?_⟩
  rw [utf8_le_iff, utf8_le_iff]
  rcases (hmem other).mp hother with hother | rfl | hother
  · exact .inl ⟨hother, hbefore other hother entry (List.mem_cons_self ..)⟩
  · exact .inr (.inl rfl)
  · exact .inr (.inr ⟨hother, hafter other hother⟩)

/-- Of the entries that are wrong the least one is complained about. -/
theorem ofTable_eq_error (h : ofTable entries = .error error) :
    ∃ entry ∈ entries, Offends entry error ∧
      ∀ other ∈ entries, ∀ error', Offends other error' → utf8 entry.1 ≤ utf8 other.1 := by
  obtain ⟨before, entry, after, hsplit, hoffends, hbefore⟩ := foldlM_eq_error h
  obtain ⟨hentry, horder⟩ := le_of_sortEntries_eq hsplit
  refine ⟨entry, hentry, hoffends, fun other hother error' hwrong => ?_⟩
  rcases horder other hother with ⟨hother, -⟩ | rfl | ⟨-, hle⟩
  · obtain ⟨value, hsuits⟩ := hbefore other hother
    exact absurd hsuits hwrong.not_suits
  · exact List.le_refl _
  · exact hle

/-- An option is set if an entry is for it, and then by the last such entry. -/
theorem find?_ofTable (h : ofTable entries = .ok options) (name : String) :
    (∃ entry ∈ entries, optionName entry.1 = name ∧
      (∀ other ∈ entries, optionName other.1 = name → utf8 other.1 ≤ utf8 entry.1) ∧
      ∃ value, Suits entry value ∧ options.find? name = some value) ∨
    (∀ entry ∈ entries, optionName entry.1 ≠ name) ∧ options.find? name = none := by
  rcases find?_foldlM h name with
    ⟨before, entry, after, hsplit, hname, hafter, hvalue⟩ | ⟨hnone, hfind⟩
  · obtain ⟨hentry, horder⟩ := le_of_sortEntries_eq hsplit
    refine .inl ⟨entry, hentry, hname, fun other hother hname' => ?_, hvalue⟩
    rcases horder other hother with ⟨-, hle⟩ | rfl | ⟨hother, -⟩
    · exact hle
    · exact List.le_refl _
    · exact absurd hname' (hafter other hother)
  · exact .inr ⟨fun entry hentry => hnone entry (mem_sortEntries.mpr hentry), hfind⟩

theorem mem_keys_ofTable (h : ofTable entries = .ok options) {name : String} :
    name ∈ options.keys ↔ ∃ entry ∈ entries, optionName entry.1 = name := by
  rw [KeyedList.mem_keys]
  rcases find?_ofTable h name with ⟨entry, hentry, hname, -, value, -, hfind⟩ | ⟨hnone, hfind⟩
  · rw [hfind]
    exact iff_of_true rfl ⟨entry, hentry, hname⟩
  · rw [hfind]
    exact iff_of_false nofun fun ⟨entry, hentry, hname⟩ => hnone entry hentry hname

/-- What is read from a file is decided by the entries of its table. -/
theorem RenderTable.ofText_eq {text : String} {top : List (String × Toml.Written)}
    (h : RenderTable top entries) (hparse : Toml.parse? text = some top) :
    ofText text = ofTable entries := by
  have htop : ofText text = ofTopTable top := by rw [ofText, hparse]
  rw [htop]
  cases h with
  | absent =>
    rw [ofTable, sortEntries, List.mergeSort_nil]
    rfl
  | present h => simp only [ofTopTable, h]

end Table

/-- A file with a render table alone is accepted if each entry gives a value that its option takes,
and otherwise refused for the least entry that is wrong. What is accepted sets the options that
entries are for, each to the value of such an entry. As long as the names differ it makes no
difference where the entries stand. -/
theorem render_table_accepted {text : String} {top : List (String × Toml.Written)}
    {entries : List (String × Toml.Value)} (hparse : Toml.parse? text = some top)
    (htable : RenderTable top entries) :
    ((∃ options, ofText text = .ok options) ↔ ∀ entry ∈ entries, ∃ value, Suits entry value) ∧
    (∀ error, ofText text = .error error →
      ∃ entry ∈ entries, Offends entry error ∧
        ∀ other ∈ entries, ∀ error', Offends other error' → utf8 entry.1 ≤ utf8 other.1) ∧
    (∀ options, ofText text = .ok options →
      (∀ name, name ∈ options.keys ↔ ∃ entry ∈ entries, optionName entry.1 = name) ∧
      ∀ name value, options.find? name = some value →
        ∃ entry ∈ entries, optionName entry.1 = name ∧ Gives entry.2 value) ∧
    ∀ text' top' entries', Toml.parse? text' = some top' → RenderTable top' entries' →
      entries'.Perm entries → (entries.map Prod.fst).Nodup → ofText text' = ofText text := by
  rw [htable.ofText_eq hparse]
  refine ⟨exists_ofTable_iff, fun error h => ofTable_eq_error h, fun options h =>
    ⟨fun name => mem_keys_ofTable h, fun name value hvalue => ?_⟩,
    fun text' top' entries' hparse' htable' hperm hnames =>
      (htable'.ofText_eq hparse').trans (ofTable_perm hperm hnames)⟩
  rcases find?_ofTable h name with
    ⟨entry, hentry, hname, -, value', hsuits, hfind⟩ | ⟨-, hfind⟩
  · rw [hfind] at hvalue
    obtain rfl := Option.some.inj hvalue
    exact ⟨entry, hentry, hname, hsuits.gives⟩
  · rw [hfind] at hvalue
    cases hvalue

/-- A file with three wrong entries, the least of which is the last. -/
def wrongFile : String := "[render]\nsoft_break = [1]\nindent = 1\nINDENT_SIZE = \"wide\"\n"

def wrongEntries : List (String × Toml.Value) :=
  [("soft_break", .array [.integer 1]), ("indent", .integer 1), ("INDENT_SIZE", .string "wide")]

theorem parse_wrongFile :
    ∃ top, Toml.parse? wrongFile = some top ∧ RenderTable top wrongEntries := by
  have hparse : Toml.parse? wrongFile = some [("render", .table
      [("soft_break", .array [.integer ⟨10, false, ['1']⟩]),
        ("indent", .integer ⟨10, false, ['1']⟩), ("INDENT_SIZE", .string "wide")])] := by cbv
  exact ⟨_, hparse, .present (by cbv)⟩

theorem ofTable_wrongEntries :
    ofTable wrongEntries = .error (.refused (.kindMismatch "INDENT_SIZE" .int)) := by
  have hsorted : sortEntries wrongEntries = wrongEntries.reverse :=
    sortEntries_eq (List.reverse_perm _) (by decide) (by decide)
  have hfirst : addEntry KeyedList.empty ("INDENT_SIZE", .string "wide") =
      .error (.refused (.kindMismatch "INDENT_SIZE" .int)) := by with_unfolding_all rfl
  rw [ofTable, hsorted]
  exact congrArg (· >>= _) hfirst

theorem render_table_accepted_wrongFile :
    (∃ top, Toml.parse? wrongFile = some top ∧ RenderTable top wrongEntries) ∧
    (¬ ∃ options, ofText wrongFile = .ok options) ∧
    ofText wrongFile = .error (.refused (.kindMismatch "INDENT_SIZE" .int)) ∧
    ∃ entry ∈ wrongEntries, Offends entry (.refused (.kindMismatch "INDENT_SIZE" .int)) ∧
      ∀ other ∈ wrongEntries, ∀ error, Offends other error → utf8 entry.1 ≤ utf8 other.1 := by
  obtain ⟨top, hparse, htable⟩ := parse_wrongFile
  have herror : ofText wrongFile = .error (.refused (.kindMismatch "INDENT_SIZE" .int)) :=
    (htable.ofText_eq hparse).trans ofTable_wrongEntries
  refine ⟨⟨top, hparse, htable⟩, ?_, herror, (render_table_accepted hparse htable).2.1 _ herror⟩
  rintro ⟨options, hoptions⟩
  rw [herror] at hoptions
  cases hoptions

/-- The value of an entry is what is stored for its option. -/
def Kept (options : OptionSet) (entry : String × Toml.Value) : Prop :=
  ∃ value, Gives entry.2 value ∧ options.find? (optionName entry.1) = some value

/-- The entry whose name is the last of those for its option is kept. -/
theorem kept_of_last {entries : List (String × Toml.Value)} (h : ofTable entries = .ok options)
    (hentry : entry ∈ entries) (hlast : ∀ other ∈ entries,
      optionName other.1 = optionName entry.1 → other = entry ∨ utf8 other.1 < utf8 entry.1) :
    Kept options entry := by
  rcases find?_ofTable h (optionName entry.1) with
    ⟨last, hmem, hname, hle, value, hsuits, hfind⟩ | ⟨hnone, -⟩
  · rcases hlast last hmem hname with rfl | hlt
    · exact ⟨value, hsuits.gives, hfind⟩
    · exact absurd hlt (hle entry hentry rfl)
  · exact absurd rfl (hnone entry hentry)

theorem size_ofTable_eq_iff {entries : List (String × Toml.Value)}
    (h : ofTable entries = .ok options) :
    options.size = entries.length ↔ (entries.map fun entry => optionName entry.1).Nodup := by
  have hsize : options.size = options.keys.length := (List.length_map ..).symm
  have hlength : entries.length = (entries.map fun entry => optionName entry.1).length :=
    (List.length_map ..).symm
  have hmem (name : String) :
      name ∈ options.keys ↔ name ∈ entries.map fun entry => optionName entry.1 :=
    (mem_keys_ofTable h).trans List.mem_map.symm
  rw [hsize, hlength]
  constructor
  · intro heq
    have hsubperm := options.keys_nodup.subperm fun name => (hmem name).mp
    exact (hsubperm.perm_of_length_le (Nat.le_of_eq heq.symm)).nodup_iff.mp options.keys_nodup
  · intro hnodup
    exact ((List.perm_ext_iff_of_nodup options.keys_nodup hnodup).mpr hmem).length_eq

/-- An accepted table sets as many options as it has entries if no two of them are for one option,
and only then. All entries are kept then, and otherwise the last one for each option. -/
theorem entries_kept {text : String} {top : List (String × Toml.Written)}
    {entries : List (String × Toml.Value)} (hparse : Toml.parse? text = some top)
    (htable : RenderTable top entries) (h : ofText text = .ok options) :
    (options.size = entries.length ↔ (entries.map fun entry => optionName entry.1).Nodup) ∧
    ((entries.map fun entry => optionName entry.1).Nodup →
      ∀ entry ∈ entries, Kept options entry) ∧
    ∀ entry ∈ entries,
      (∀ other ∈ entries, optionName other.1 = optionName entry.1 →
        other = entry ∨ utf8 other.1 < utf8 entry.1) →
      Kept options entry := by
  rw [htable.ofText_eq hparse] at h
  refine ⟨size_ofTable_eq_iff h, fun hnodup entry hentry => ?_, fun entry => kept_of_last h⟩
  exact kept_of_last h hentry fun other hother hname =>
    .inl (List.inj_on_of_nodup_map hnodup hother hentry hname)

def plainFile : String := "[render]\nindent_size = 2\nescape_html = true\n"

def plainEntries : List (String × Toml.Value) :=
  [("indent_size", .integer 2), ("escape_html", .boolean true)]

theorem parse_plainFile :
    ∃ top, Toml.parse? plainFile = some top ∧ RenderTable top plainEntries := by
  have hparse : Toml.parse? plainFile = some [("render", .table
      [("indent_size", .integer ⟨10, false, ['2']⟩), ("escape_html", .boolean true)])] := by cbv
  exact ⟨_, hparse, .present (by cbv)⟩

theorem optionName_lower : optionName "indent_size" = "INDENT_SIZE" := by decide +kernel

theorem suits_plainEntries : ∀ entry ∈ plainEntries, ∃ value, Suits entry value := by
  refine List.forall_mem_cons.mpr
    ⟨⟨.int 2, .integer 2, .int Key.indentSize, ?_, optionName_lower.symm, .int 2⟩,
      List.forall_mem_singleton.mpr
        ⟨.bool true, .boolean true, .bool Key.escapeHtml, ?_, ?_, .bool true⟩⟩
  · simp [schema]
  · simp [schema]
  · decide +kernel

theorem entries_kept_plainFile :
    ∃ top options, Toml.parse? plainFile = some top ∧ RenderTable top plainEntries ∧
      ofText plainFile = .ok options ∧ options.size = 2 ∧
      ∀ entry ∈ plainEntries, Kept options entry := by
  obtain ⟨top, hparse, htable⟩ := parse_plainFile
  obtain ⟨options, hoptions⟩ := exists_ofTable_iff.mpr suits_plainEntries
  have htext : ofText plainFile = .ok options := (htable.ofText_eq hparse).trans hoptions
  have hnodup : (plainEntries.map fun entry => optionName entry.1).Nodup := by
    decide +kernel
  obtain ⟨hsize, hkept, -⟩ := entries_kept hparse htable htext
  exact ⟨top, options, hparse, htable, htext, hsize.mpr hnodup, hkept hnodup⟩

/-- One option under two spellings of its name. -/
def twiceFile : String := "[render]\nindent_size = 2\nINDENT_SIZE = 4\n"

def twiceEntries : List (String × Toml.Value) :=
  [("indent_size", .integer 2), ("INDENT_SIZE", .integer 4)]

theorem parse_twiceFile :
    ∃ top, Toml.parse? twiceFile = some top ∧ RenderTable top twiceEntries := by
  have hparse : Toml.parse? twiceFile = some [("render", .table
      [("indent_size", .integer ⟨10, false, ['2']⟩),
        ("INDENT_SIZE", .integer ⟨10, false, ['4']⟩)])] := by cbv
  exact ⟨_, hparse, .present (by cbv)⟩

theorem optionName_upper : optionName "INDENT_SIZE" = "INDENT_SIZE" := by decide +kernel

theorem suits_twiceEntries : ∀ entry ∈ twiceEntries, ∃ value, Suits entry value := by
  have hknown : .int Key.indentSize ∈ schema := by simp [schema]
  exact List.forall_mem_cons.mpr
    ⟨⟨.int 2, .integer 2, _, hknown, optionName_lower.symm, .int 2⟩,
      List.forall_mem_singleton.mpr
        ⟨.int 4, .integer 4, _, hknown, optionName_upper.symm, .int 4⟩⟩

theorem not_nodup_twiceEntries :
    ¬ (twiceEntries.map fun entry => optionName entry.1).Nodup := by
  simp [twiceEntries, optionName_lower, optionName_upper]

/-- The file is accepted, but the entry in upper case sets nothing. -/
theorem entry_dropped :
    ∃ top options, Toml.parse? twiceFile = some top ∧ RenderTable top twiceEntries ∧
      ofText twiceFile = .ok options ∧ options.size ≠ twiceEntries.length ∧
      ∃ entry ∈ twiceEntries, ¬ Kept options entry := by
  obtain ⟨top, hparse, htable⟩ := parse_twiceFile
  obtain ⟨options, hoptions⟩ := exists_ofTable_iff.mpr suits_twiceEntries
  have hlast : Kept options ("indent_size", .integer 2) := by
    refine kept_of_last hoptions (List.mem_cons_self ..) ?_
    exact List.forall_mem_cons.mpr ⟨fun _ => .inl rfl,
      List.forall_mem_singleton.mpr fun _ => .inr (utf8_lt_of_lt (by decide))⟩
  refine ⟨top, options, hparse, htable, (htable.ofText_eq hparse).trans hoptions,
    fun hsize => not_nodup_twiceEntries ((size_ofTable_eq_iff hoptions).mp hsize),
    ("INDENT_SIZE", .integer 4), by simp [twiceEntries], ?_⟩
  rintro ⟨value, hgives, hfour⟩
  obtain ⟨value', hgives', htwo⟩ := hlast
  cases hgives
  cases hgives'
  rw [optionName_upper, ← optionName_lower, htwo] at hfour
  cases hfour

end DitaTopic.Config
