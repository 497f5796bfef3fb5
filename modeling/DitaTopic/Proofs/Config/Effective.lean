import Mathlib.Data.List.Nodup
import DitaTopic.Config.Load

/-!
# Options that were accepted have an effect

Two tables say which values belong to an option: the kinds that untyped values are checked against
when they are stored, and the types that options are read at. They agree, so that a value which was
accepted is the one that is read, however the sets were come by and layered. An unset string is
the exception; it reads as the default.
-/

namespace DitaTopic

namespace Options

/-- The values of each kind. A string may be unset. -/
inductive ValueKind.Admits : ValueKind → OptionValue → Prop where
  | bool (b : Bool) : Admits .bool (.bool b)
  | int (i : Int) : Admits .int (.int i)
  | str (s : String) : Admits .str (.str s)
  | unset : Admits .str .null

theorem ValueKind.admits_of_accepts {kind : ValueKind} {value : OptionValue}
    (h : kind.accepts value = true) : kind.Admits value := by
  cases kind <;> cases value <;> first | constructor | cases h

/-- Every stored name is in the schema, with a value of the kind that the schema has for it. -/
def OptionSet.WellTyped (options : OptionSet) : Prop :=
  ∀ name value, options.find? name = some value →
    ∃ key ∈ schema, key.name = name ∧ key.kind.Admits value

namespace OptionSet

variable {options other later : OptionSet} {name : String} {value : OptionValue}

/-- What is stored is a value that the schema has the name and the kind of. -/
theorem setChecked_eq_ok (h : setChecked options name value = .ok later) :
    later = options.insert name value ∧
      ∃ key ∈ schema, key.name = name ∧ key.kind.Admits value := by
  rw [setChecked] at h
  split at h
  · cases h
  · next key hkey =>
    split at h
    · next haccepts =>
      cases h
      exact ⟨rfl, key, List.mem_of_find?_eq_some hkey, beq_iff_eq.mp (List.find?_some hkey :),
        ValueKind.admits_of_accepts haccepts⟩
    · cases h

theorem wellTyped_empty : WellTyped KeyedList.empty := by
  intro name value h
  rw [KeyedList.find?_empty] at h
  cases h

theorem WellTyped.setChecked (h : WellTyped options)
    (hset : OptionSet.setChecked options name value = .ok later) : WellTyped later := by
  obtain ⟨rfl, hkey⟩ := setChecked_eq_ok hset
  intro stored content hfind
  rw [KeyedList.find?_insert] at hfind
  split at hfind
  · next hname =>
    obtain rfl := Option.some.inj hfind
    rwa [← hname]
  · exact h stored content hfind

theorem WellTyped.extend (h : WellTyped options) (h' : WellTyped other) :
    WellTyped (options.extend other) := by
  intro name value hfind
  rw [KeyedList.find?_extend, Option.or_eq_some_iff] at hfind
  rcases hfind with hfind | ⟨-, hfind⟩
  · exact h' name value hfind
  · exact h name value hfind

end OptionSet

theorem names_nodup : (schema.map SchemaKey.name).Nodup := by decide

/-- What a view holds is held by one of its sets. -/
theorem OptionView.exists_find? {view : OptionView} {name : String} {value : OptionValue}
    (h : view.lookup name = some value) : ∃ set ∈ view.sets, set.find? name = some value := by
  induction view with
  | ofSet set => exact ⟨set, List.mem_singleton_self set, h⟩
  | layer broad narrow ihBroad ihNarrow =>
    rw [lookup_layer, Option.or_eq_some_iff] at h
    rcases h with h | ⟨-, h⟩
    · obtain ⟨set, hset, hfind⟩ := ihNarrow h
      exact ⟨set, List.mem_append_right _ hset, hfind⟩
    · obtain ⟨set, hset, hfind⟩ := ihBroad h
      exact ⟨set, List.mem_append_left _ hset, hfind⟩

/-- A value that can be read is what its key resolves to, not a default and not the value of
another key. -/
theorem OptionKey.resolve_of_lookup {α : Type} [OptionType α] {view : OptionView}
    {key : OptionKey α} {value : OptionValue} {content : α}
    (hlookup : view.lookup key.name = some value)
    (hread : OptionType.ofValue? value = some content) : key.resolve view = content := by
  have hexplicit : explicit? view key.name = some content := by
    rw [explicit?, hlookup, Option.bind_some, hread]
  cases key with
  | constant name default =>
    have hname : explicit? view name = some content := hexplicit
    rw [resolve, hname, Option.getD_some]
  | inherit name parent =>
    have hname : explicit? view name = some content := hexplicit
    rw [resolve, hname, Option.getD_some]

/-- Values of the kind of a key are values of the type that the key is read at. -/
theorem SchemaKey.resolve_of_admits {view : OptionView} {key : SchemaKey} {value : OptionValue}
    (hlookup : view.lookup key.name = some value) (hkind : key.kind.Admits value)
    (hset : value ≠ .null) : key.resolve view = value := by
  cases key with
  | bool key =>
    have hkind : ValueKind.Admits .bool value := hkind
    cases hkind with
    | bool b => rw [resolve, OptionKey.resolve_of_lookup hlookup rfl]
  | int key =>
    have hkind : ValueKind.Admits .int value := hkind
    cases hkind with
    | int i => rw [resolve, OptionKey.resolve_of_lookup hlookup rfl]
  | str key =>
    have hkind : ValueKind.Admits .str value := hkind
    cases hkind with
    | str s => rw [resolve, OptionKey.resolve_of_lookup hlookup rfl]
    | unset => exact absurd rfl hset

/-- Over sets that are well typed every key resolves to the value that is there for it. -/
theorem SchemaKey.resolve_of_lookup {view : OptionView}
    (h : ∀ set ∈ view.sets, OptionSet.WellTyped set) {key : SchemaKey} (hkey : key ∈ schema)
    {value : OptionValue} (hset : value ≠ .null) (hlookup : view.lookup key.name = some value) :
    key.resolve view = value := by
  obtain ⟨set, hmem, hfind⟩ := OptionView.exists_find? hlookup
  obtain ⟨stored, hstored, hname, hkind⟩ := h set hmem key.name value hfind
  obtain rfl := List.inj_on_of_nodup_map names_nodup hstored hkey hname
  exact resolve_of_admits hlookup hkind hset

end Options

namespace Config

open DitaTopic.Options

theorem exists_ok_of_bind {ε α β : Type} {x : Except ε α} {f : α → Except ε β} {b : β}
    (h : x >>= f = .ok b) : ∃ a, x = .ok a ∧ f a = .ok b := by
  cases x with
  | error e => cases h
  | ok a => exact ⟨a, rfl, h⟩

theorem ok_of_mapError {ε δ α : Type} {x : Except ε α} {wrap : ε → δ} {a : α}
    (h : x.mapError wrap = .ok a) : x = .ok a := by
  cases x with
  | error e => cases h
  | ok b => rw [Except.ok.inj h]

/-- The option sets that checked values, files and configurations give, and what is put together
from them. -/
inductive Obtained : OptionSet → Prop where
  | empty : Obtained KeyedList.empty
  | setChecked {options later : OptionSet} {name : String} {value : OptionValue}
      (h : Obtained options) (accepted : OptionSet.setChecked options name value = .ok later) :
      Obtained later
  | extend {options other : OptionSet} (h : Obtained options) (h' : Obtained other) :
      Obtained (options.extend other)
  | ofText {text : String} {options : OptionSet} (read : Config.ofText text = .ok options) :
      Obtained options
  | load {tree : FileTree} {directory : Place} {path : Option String}
      {overrides : Option OptionSet} {config : Configuration}
      (h : ∀ options, overrides = some options → Obtained options)
      (loaded : Config.load tree directory path overrides = .ok config) : Obtained config.options

variable {options later : OptionSet} {config : Configuration}

theorem wellTyped_addEntry (h : OptionSet.WellTyped options) {entry : String × Toml.Value}
    (hadd : addEntry options entry = .ok later) : OptionSet.WellTyped later := by
  obtain ⟨value, -, hset⟩ := exists_ok_of_bind hadd
  exact h.setChecked (ok_of_mapError hset)

theorem wellTyped_foldlM (h : OptionSet.WellTyped options) {entries : List (String × Toml.Value)}
    (hfold : entries.foldlM addEntry options = .ok later) : OptionSet.WellTyped later := by
  induction entries generalizing options with
  | nil =>
    cases hfold
    exact h
  | cons entry rest ih =>
    rw [List.foldlM_cons] at hfold
    obtain ⟨next, hadd, hrest⟩ := exists_ok_of_bind hfold
    exact ih (wellTyped_addEntry h hadd) hrest

theorem wellTyped_ofTopTable {entries : List (String × Toml.Written)}
    (h : ofTopTable entries = .ok options) : OptionSet.WellTyped options := by
  rw [ofTopTable.eq_def] at h
  split at h
  · cases h
    exact OptionSet.wellTyped_empty
  · split at h
    · cases h
    · exact wellTyped_foldlM OptionSet.wellTyped_empty h
  · cases h

theorem wellTyped_ofText {text : String} (h : ofText text = .ok options) :
    OptionSet.WellTyped options := by
  rw [ofText] at h
  split at h
  · cases h
  · exact wellTyped_ofTopTable h

theorem wellTyped_ofEntry {path : String} {entry : FileEntry}
    (h : ofEntry path entry = .ok config) : OptionSet.WellTyped config.options := by
  obtain ⟨text, -, h⟩ := exists_ok_of_bind h
  obtain ⟨options, hread, h⟩ := exists_ok_of_bind h
  cases h
  exact wellTyped_ofText hread

theorem wellTyped_loadFile {tree : FileTree} {directory : Place} {path : Option String}
    (h : loadFile tree directory path = .ok config) : OptionSet.WellTyped config.options := by
  rw [loadFile.eq_def] at h
  split at h
  · split at h
    · cases h
    · exact wellTyped_ofEntry h
  · split at h
    · cases h
      exact OptionSet.wellTyped_empty
    · exact wellTyped_ofEntry h

theorem Obtained.wellTyped (h : Obtained options) : OptionSet.WellTyped options := by
  induction h with
  | empty => exact OptionSet.wellTyped_empty
  | setChecked _ accepted ih => exact ih.setChecked accepted
  | extend _ _ ih ih' => exact ih.extend ih'
  | ofText read => exact wellTyped_ofText read
  | load _ loaded ih =>
    obtain ⟨file, hfile, hover⟩ := exists_ok_of_bind loaded
    have htyped := wellTyped_loadFile hfile
    split at hover
    · cases hover
      exact htyped
    · cases hover
      exact htyped.extend (ih _ rfl)

/-- Options that were checked, read or loaded are well typed, and over any layers of them a key of
the schema resolves to the value that is there for it, unless that value is an unset string. -/
theorem obtained_options_effective :
    (∀ options, Obtained options → OptionSet.WellTyped options) ∧
    ∀ view : OptionView, (∀ set ∈ view.sets, Obtained set) → ∀ key ∈ schema, ∀ value,
      value ≠ .null → view.lookup key.name = some value → key.resolve view = value := by
  refine ⟨fun options h => h.wellTyped, fun view h key hkey value hset hlookup => ?_⟩
  exact SchemaKey.resolve_of_lookup (fun set hmem => (h set hmem).wellTyped) hkey hset hlookup

/-- A set with one checked option. -/
def escaping : OptionSet := KeyedList.empty.insert "ESCAPE_HTML" (.bool true)

def indentFile : String := "[render]\nindent_size = 2\n"

/-- The options of the file. -/
def indenting : OptionSet := (ofText indentFile).toOption.getD KeyedList.empty

theorem ofText_indentFile : ofText indentFile = .ok indenting := by
  have hread : (ofText indentFile).isOk = true := by decide +kernel
  rw [indenting]
  cases hfile : ofText indentFile with
  | error e =>
    rw [hfile] at hread
    cases hread
  | ok options => rfl

theorem obtained_options_effective_indenting :
    Obtained escaping ∧ Obtained indenting ∧ OptionSet.WellTyped indenting ∧
    (SchemaKey.int Key.indentSize).resolve (.layer escaping indenting) = .int 2 ∧
    (SchemaKey.bool Key.escapeHtml).resolve (.layer escaping indenting) = .bool true := by
  have haccepted : OptionSet.setChecked KeyedList.empty "ESCAPE_HTML" (.bool true) =
      .ok escaping := by rfl
  have hescaping : Obtained escaping := .setChecked .empty haccepted
  have hindenting : Obtained indenting := .ofText ofText_indentFile
  have hlayers : ∀ set ∈ OptionView.sets (.layer escaping indenting), Obtained set := by
    intro set hset
    rcases List.mem_cons.mp hset with rfl | hset
    · exact hescaping
    · rw [List.mem_singleton.mp hset]
      exact hindenting
  obtain ⟨htyped, hresolve⟩ := obtained_options_effective
  have hindent := hresolve (.layer escaping indenting) hlayers (.int Key.indentSize)
    (by simp [schema]) (.int 2) nofun (by decide +kernel)
  have hescape := hresolve (.layer escaping indenting) hlayers (.bool Key.escapeHtml)
    (by simp [schema]) (.bool true) nofun (by decide +kernel)
  exact ⟨hescaping, hindenting, htyped indenting hindenting, hindent, hescape⟩

end Config

end DitaTopic
