import Mathlib.Data.List.Induction
import Mathlib.Data.List.Infix
import DitaTopic.Config.Load

/-!
# Looking for a configuration file

Without a path, the configuration file is looked for in the current directory, then in the one
above it, and so on up to the top. The first directory that has an entry of the right name decides,
whatever the entry is: if it cannot be read, or not as a configuration, loading fails with its
error, and files further up are not made use of. Without such a directory the file options are
empty.

What lies above the top of the tree has no configuration files.
-/

namespace DitaTopic.Config

open DitaTopic.Options

/-- What an entry gives when it is read as a configuration file. -/
inductive Yields : FileEntry → Except ConfigError OptionSet → Prop where
  | directory : Yields .directory (.error .unreadable)
  | locked : Yields .locked (.error .unreadable)
  | noText {bytes : ByteArray} (h : ∀ text : String, text.toUTF8 ≠ bytes) :
      Yields (.file bytes) (.error .unreadable)
  | text (text : String) : Yields (.file text.toUTF8) (ofText text)

/-- The search for a configuration file from a directory upwards: the directories that are looked
into, one after the other, and the file that is found. -/
inductive Search (tree : FileTree) :
    List String → List (List String) → Option (List String × FileEntry) → Prop where
  | here {directory : List String} {entry : FileEntry}
      (h : tree.find? (directory ++ [fileName]) = some entry) :
      Search tree directory [directory] (some (directory ++ [fileName], entry))
  | top (absent : tree.find? ([] ++ [fileName]) = none) : Search tree [] [[]] none
  | up {above : List String} {name : String} {looked : List (List String)}
      {found : Option (List String × FileEntry)}
      (absent : tree.find? ((above ++ [name]) ++ [fileName]) = none)
      (rest : Search tree above looked found) :
      Search tree (above ++ [name]) ((above ++ [name]) :: looked) found

/-- The nearest directory with a configuration file, and what stands there under that name. -/
structure Nearest (tree : FileTree) (directory nearest : List String) (entry : FileEntry) :
    Prop where
  upwards : nearest <+: directory
  has : tree.find? (nearest ++ [fileName]) = some entry
  first : ∀ d, d <+: directory → nearest.length < d.length → tree.find? (d ++ [fileName]) = none

/-- Neither the directory nor one above it has a configuration file. -/
def Lacking (tree : FileTree) (directory : List String) : Prop :=
  ∀ d, d <+: directory → tree.find? (d ++ [fileName]) = none

/-- What loading makes of the options of a file: a failure stays one, and otherwise overrides lie
over them. -/
inductive Overridden (path : Option String) (overrides : Option OptionSet) :
    Except ConfigError OptionSet → Except ConfigError Configuration → Prop where
  | failed (error : ConfigError) : Overridden path overrides (.error error) (.error error)
  | loaded {file : OptionSet} {config : Configuration} (hpath : config.path = path)
      (options : ∀ name, config.options.find? name =
        (overrides.bind fun set => set.find? name).or (file.find? name)) :
      Overridden path overrides (.ok file) (.ok config)

variable {tree other : FileTree} {directory nearest above : List String} {name : String}
  {entry : FileEntry} {result : Except ConfigError OptionSet} {looked : List (List String)}
  {found : Option (List String × FileEntry)}

/-! ## Reading an entry -/

theorem exists_yields (entry : FileEntry) : ∃ result, Yields entry result := by
  cases entry with
  | directory => exact ⟨_, .directory⟩
  | locked => exact ⟨_, .locked⟩
  | file bytes =>
    by_cases h : ∃ text : String, text.toUTF8 = bytes
    · obtain ⟨text, rfl⟩ := h
      exact ⟨_, .text text⟩
    · exact ⟨_, .noText (not_exists.mp h)⟩

theorem Yields.readText_bind (h : Yields entry result) : (readText entry).bind ofText = result := by
  cases h with
  | directory => rfl
  | locked => rfl
  | @noText bytes h =>
    have hnone : String.fromUTF8? bytes = none := dif_neg fun hvalid => h ⟨bytes, hvalid⟩ rfl
    rw [readText, hnone]
    rfl
  | text text =>
    have htext : String.fromUTF8? text.toUTF8 = some text := dif_pos text.isValidUTF8
    rw [readText, htext]
    rfl

theorem Yields.ofEntry_eq (h : Yields entry result) (path : String) :
    ofEntry path entry = result.map fun options => ⟨options, some path⟩ := by
  rw [← h.readText_bind, ofEntry]
  cases readText entry with
  | error e => rfl
  | ok text => cases hread : ofText text <;> simp [bind, Except.bind, hread] <;> rfl

/-! ## The search -/

theorem ancestors_nil : ancestors [] = [[]] := rfl

theorem ancestors_append (above : List String) (name : String) :
    ancestors (above ++ [name]) = (above ++ [name]) :: ancestors above := by
  have hlength : (above ++ [name]).length = above.length + 1 := List.length_append
  rw [ancestors, hlength, List.range_succ_eq_map, List.map_cons, List.map_map, ancestors]
  congr 1
  · rw [Nat.sub_zero, ← hlength, List.take_length]
  · apply List.map_congr_left
    intro n hn
    have hle : above.length + 1 - (n + 1) ≤ above.length := by omega
    rw [Function.comp_apply, Nat.succ_eq_add_one, List.take_append_of_le_length hle,
      Nat.add_sub_add_right]

theorem exists_ancestors_eq (directory : List String) :
    ∃ further, ancestors directory = directory :: further := by
  rcases List.eq_nil_or_concat' directory with rfl | ⟨above, name, rfl⟩
  · exact ⟨[], ancestors_nil⟩
  · exact ⟨ancestors above, ancestors_append above name⟩

/-! What is found from a directory follows from the directory itself and the one above it. -/

theorem discover_here (h : tree.find? (directory ++ [fileName]) = some entry) :
    discover tree (.inside directory) = some (directory ++ [fileName], entry) := by
  obtain ⟨further, hancestors⟩ := exists_ancestors_eq directory
  simp only [discover, hancestors, List.findSome?_cons, h, Option.map_some]

theorem discover_top (absent : tree.find? ([] ++ [fileName]) = none) :
    discover tree (.inside []) = none := by
  simp only [discover, ancestors_nil, List.findSome?_cons, absent, Option.map_none,
    List.findSome?_nil]

theorem discover_up (absent : tree.find? ((above ++ [name]) ++ [fileName]) = none) :
    discover tree (.inside (above ++ [name])) = discover tree (.inside above) := by
  simp only [discover, ancestors_append, List.findSome?_cons, absent, Option.map_none]

/-- From every directory the search comes to an end. -/
theorem exists_search (tree : FileTree) (directory : List String) :
    ∃ looked found, Search tree directory looked found := by
  -- the directory above is the one without the last name
  induction directory using List.reverseRecOn with
  | nil =>
    cases h : tree.find? ([] ++ [fileName]) with
    | none => exact ⟨_, _, .top h⟩
    | some entry => exact ⟨_, _, .here h⟩
  | append_singleton above name ih =>
    obtain ⟨looked, found, rest⟩ := ih
    cases h : tree.find? ((above ++ [name]) ++ [fileName]) with
    | none => exact ⟨_, _, .up h rest⟩
    | some entry => exact ⟨_, _, .here h⟩

/-- A directory with a configuration file is the nearest one to itself. -/
theorem nearest_here (h : tree.find? (directory ++ [fileName]) = some entry) :
    Nearest tree directory directory entry where
  upwards := List.prefix_rfl
  has := h
  first d hd hlt := by
    have hle := hd.length_le
    omega

theorem Nearest.up (absent : tree.find? ((above ++ [name]) ++ [fileName]) = none)
    (h : Nearest tree above nearest entry) : Nearest tree (above ++ [name]) nearest entry where
  upwards := h.upwards.trans (List.prefix_append above [name])
  has := h.has
  first d hd hlt := by
    rcases List.prefix_concat_iff.mp hd with rfl | hd
    · exact absent
    · exact h.first d hd hlt

namespace Search

theorem discover_eq (h : Search tree directory looked found) :
    discover tree (.inside directory) = found := by
  induction h with
  | here h => exact discover_here h
  | top absent => exact discover_top absent
  | up absent rest ih => exact (discover_up absent).trans ih

/-- The search takes no more steps than there are directories from its start up to the top. -/
theorem length_le (h : Search tree directory looked found) :
    looked.length ≤ directory.length + 1 := by
  induction h with
  | here h => simp
  | top absent => simp
  | up absent rest ih => simpa using ih

/-- It looks into directories from its start upwards only, and not beyond one that has the file. -/
theorem between (h : Search tree directory looked found) (hnearest : nearest <+: directory)
    (has : tree.find? (nearest ++ [fileName]) = some entry) :
    ∀ d ∈ looked, d <+: directory ∧ nearest <+: d := by
  induction h with
  | here h =>
    intro d hd
    obtain rfl := List.mem_singleton.mp hd
    exact ⟨List.prefix_rfl, hnearest⟩
  | top absent =>
    obtain rfl := List.prefix_nil.mp hnearest
    cases absent.symm.trans has
  | up absent rest ih =>
    intro d hd
    rcases List.prefix_concat_iff.mp hnearest with rfl | habove
    · cases absent.symm.trans has
    rcases List.mem_cons.mp hd with rfl | hd
    · exact ⟨List.prefix_rfl, hnearest⟩
    · obtain ⟨hupwards, hbeyond⟩ := ih habove d hd
      exact ⟨hupwards.trans (List.prefix_append _ _), hbeyond⟩

/-- What the search finds stands in the nearest directory with the file. -/
theorem nearest_or_lacking (h : Search tree directory looked found) :
    (∃ nearest entry, found = some (nearest ++ [fileName], entry) ∧
      Nearest tree directory nearest entry) ∨ found = none ∧ Lacking tree directory := by
  induction h with
  | here h => exact .inl ⟨_, _, rfl, nearest_here h⟩
  | top absent =>
    refine .inr ⟨rfl, fun d hd => ?_⟩
    rw [List.prefix_nil.mp hd, absent]
  | up absent rest ih =>
    rcases ih with ⟨nearest, entry, hfound, hnearest⟩ | ⟨hfound, hlacking⟩
    · exact .inl ⟨nearest, entry, hfound, hnearest.up absent⟩
    · refine .inr ⟨hfound, fun d hd => ?_⟩
      rcases List.prefix_concat_iff.mp hd with rfl | hd
      · exact absent
      · exact hlacking d hd

end Search

namespace Nearest

/-- Only one directory is the nearest. -/
theorem unique {further : List String} {entry' : FileEntry}
    (h : Nearest tree directory nearest entry) (h' : Nearest tree directory further entry') :
    nearest = further ∧ entry = entry' := by
  -- if one were closer, the other would have no file by the first one's account
  have hle : further.length ≤ nearest.length := by
    by_contra hlt
    have absent := h.first further h'.upwards (by omega)
    cases absent.symm.trans h'.has
  have hge : nearest.length ≤ further.length := by
    by_contra hlt
    have absent := h'.first nearest h.upwards (by omega)
    cases absent.symm.trans h.has
  obtain rfl : nearest = further :=
    (List.prefix_of_prefix_length_le h.upwards h'.upwards hge).eq_of_length (by omega)
  exact ⟨rfl, Option.some.inj (h.has.symm.trans h'.has)⟩

theorem not_lacking (h : Nearest tree directory nearest entry) : ¬ Lacking tree directory := by
  intro hlacking
  cases (hlacking nearest h.upwards).symm.trans h.has

theorem discover_eq (h : Nearest tree directory nearest entry) :
    discover tree (.inside directory) = some (nearest ++ [fileName], entry) := by
  obtain ⟨looked, found, hsearch⟩ := exists_search tree directory
  rw [hsearch.discover_eq]
  rcases hsearch.nearest_or_lacking with ⟨nearest', entry', rfl, h'⟩ | ⟨-, hlacking⟩
  · obtain ⟨rfl, rfl⟩ := h.unique h'
    rfl
  · exact absurd hlacking h.not_lacking

/-- A tree with the same entries up to the nearest file has the same nearest file. -/
theorem congr (h : Nearest tree directory nearest entry)
    (hsame : ∀ d, d <+: directory → nearest <+: d →
      other.find? (d ++ [fileName]) = tree.find? (d ++ [fileName])) :
    Nearest other directory nearest entry where
  upwards := h.upwards
  has := (hsame nearest h.upwards List.prefix_rfl).trans h.has
  first d hd hlt := by
    have hbelow : nearest <+: d := List.prefix_of_prefix_length_le h.upwards hd (by omega)
    rw [hsame d hd hbelow, h.first d hd hlt]

end Nearest

theorem Lacking.discover_eq (h : Lacking tree directory) :
    discover tree (.inside directory) = none := by
  obtain ⟨looked, found, hsearch⟩ := exists_search tree directory
  rw [hsearch.discover_eq]
  rcases hsearch.nearest_or_lacking with ⟨nearest, entry, -, hnearest⟩ | ⟨rfl, -⟩
  · exact absurd h hnearest.not_lacking
  · rfl

/-! ## Loading without a path -/

variable {place : Place} {path : Option String} {overrides : Option OptionSet}

theorem loadFile_of_none (h : discover tree place = none) :
    loadFile tree place none = .ok ⟨KeyedList.empty, none⟩ := by
  rw [loadFile, h]

theorem loadFile_of_some {location : List String}
    (h : discover tree place = some (location, entry)) :
    loadFile tree place none = ofEntry ("/".intercalate location) entry := by
  rw [loadFile, h]

/-- Overrides lie over what the file gives, and do not touch where it came from. -/
theorem overridden_load
    (h : loadFile tree place none = result.map fun options => ⟨options, path⟩) :
    Overridden path overrides result (load tree place none overrides) := by
  rw [load, h]
  cases result with
  | error e => exact .failed e
  | ok options =>
    cases overrides with
    | none => exact .loaded rfl fun name => rfl
    | some set => exact .loaded rfl fun name => KeyedList.find?_extend options set name

theorem Overridden.eq_error {error : ConfigError} {loaded : Except ConfigError Configuration}
    (h : Overridden path overrides (.error error) loaded) : loaded = .error error := by
  cases h
  rfl

theorem Overridden.exists_path {file : OptionSet} {loaded : Except ConfigError Configuration}
    (h : Overridden path overrides (.ok file) loaded) :
    ∃ config, loaded = .ok config ∧ config.path = path := by
  cases h with
  | loaded hpath options => exact ⟨_, rfl, hpath⟩

/-- What is loaded without a path depends on the file that is found and on nothing else of the
tree. -/
theorem load_congr (h : discover other place = discover tree place) :
    load other place none overrides = load tree place none overrides := by
  rw [load, load, loadFile, loadFile, h]

/-- Whether a configuration is loaded, and where it comes from, does not depend on overrides. -/
theorem map_path_load (tree : FileTree) (place : Place) (overrides : Option OptionSet) :
    (load tree place none overrides).map Configuration.path =
      (loadFile tree place none).map Configuration.path := by
  rw [load]
  cases loadFile tree place none with
  | error e => rfl
  | ok config => cases overrides <;> rfl

/-- Loading without a path uses the nearest file from the current directory upwards and only that
one. The search for it ends at the top at the latest. The file decides whether loading succeeds and
with which options; overrides lie over these. Without a file there are no options, and above the
top of the tree there is none. -/
theorem nearest_file_decides (tree : FileTree) :
    (∀ directory : List String,
      (∃ looked found, Search tree directory looked found ∧
        discover tree (.inside directory) = found ∧ looked.length ≤ directory.length + 1 ∧
        ∀ nearest entry, Nearest tree directory nearest entry →
          ∀ d ∈ looked, d <+: directory ∧ nearest <+: d) ∧
      ((∃ nearest entry result, Nearest tree directory nearest entry ∧ Yields entry result) ∨
        Lacking tree directory) ∧
      (∀ nearest entry result, Nearest tree directory nearest entry → Yields entry result →
        ∀ overrides, Overridden (some ("/".intercalate (nearest ++ [fileName]))) overrides result
          (load tree (.inside directory) none overrides)) ∧
      (∀ nearest entry, Nearest tree directory nearest entry → ∀ other : FileTree,
        (∀ d, d <+: directory → nearest <+: d →
          other.find? (d ++ [fileName]) = tree.find? (d ++ [fileName])) →
        ∀ overrides, load other (.inside directory) none overrides =
          load tree (.inside directory) none overrides) ∧
      (Lacking tree directory → ∀ overrides, Overridden none overrides (.ok KeyedList.empty)
        (load tree (.inside directory) none overrides))) ∧
    (∀ place, (∀ directory, place ≠ .inside directory) → ∀ overrides,
      Overridden none overrides (.ok KeyedList.empty) (load tree place none overrides)) ∧
    ∀ place overrides overrides',
      (load tree place none overrides).map Configuration.path =
        (load tree place none overrides').map Configuration.path := by
  refine ⟨fun directory => ⟨?_, ?_, ?_, ?_, ?_⟩, ?_, ?_⟩
  · obtain ⟨looked, found, hsearch⟩ := exists_search tree directory
    exact ⟨looked, found, hsearch, hsearch.discover_eq, hsearch.length_le,
      fun nearest entry h => hsearch.between h.upwards h.has⟩
  · obtain ⟨looked, found, hsearch⟩ := exists_search tree directory
    rcases hsearch.nearest_or_lacking with ⟨nearest, entry, -, h⟩ | ⟨-, hlacking⟩
    · obtain ⟨result, hyields⟩ := exists_yields entry
      exact .inl ⟨nearest, entry, result, h, hyields⟩
    · exact .inr hlacking
  · intro nearest entry result h hyields overrides
    exact overridden_load ((loadFile_of_some h.discover_eq).trans (hyields.ofEntry_eq _))
  · intro nearest entry h other hsame overrides
    exact load_congr ((h.congr hsame).discover_eq.trans h.discover_eq.symm)
  · intro hlacking overrides
    exact overridden_load (loadFile_of_none hlacking.discover_eq)
  · intro place hplace overrides
    cases place with
    | inside directory => exact absurd rfl (hplace directory)
    | above levels => exact overridden_load (loadFile_of_none rfl)
    | root => exact overridden_load (loadFile_of_none rfl)
  · intro place overrides overrides'
    rw [map_path_load, map_path_load]

/-- A file at the top and, further down, one that may not be read. -/
def docsTree : FileTree :=
  ⟨[([fileName], .file "".toUTF8), (["docs", fileName], .locked), (["docs", "guide"], .directory)]⟩

/-- The same without the file at the top. -/
def topless : FileTree := ⟨docsTree.entries.tail⟩

theorem nearest_docsTree : Nearest docsTree ["docs", "guide"] ["docs"] .locked where
  upwards := List.prefix_append ["docs"] ["guide"]
  has := rfl
  first d hd hlt := by
    have hle : ["docs", "guide"].length ≤ d.length := hlt
    rw [hd.eq_of_length_le hle]
    rfl

/-- The file at the top is not made use of where one further down cannot be read. -/
theorem nearest_file_decides_locked :
    Nearest docsTree ["docs", "guide"] ["docs"] .locked ∧
    load docsTree (.inside ["docs", "guide"]) none none = .error .unreadable ∧
    load topless (.inside ["docs", "guide"]) none none =
      load docsTree (.inside ["docs", "guide"]) none none ∧
    (∃ config, load docsTree (.inside []) none none = .ok config ∧
      config.path = some "mdita.toml") ∧
    (∃ config, load ⟨[]⟩ (.inside ["docs"]) none none = .ok config ∧ config.path = none) ∧
    ∃ config, load docsTree .root none none = .ok config ∧ config.path = none := by
  obtain ⟨hinside, houtside, -⟩ := nearest_file_decides docsTree
  obtain ⟨-, -, hdecides, hframe, -⟩ := hinside ["docs", "guide"]
  obtain ⟨-, -, htop, -, -⟩ := hinside []
  obtain ⟨hempty, -, -⟩ := nearest_file_decides ⟨[]⟩
  obtain ⟨-, -, -, -, hnothing⟩ := hempty ["docs"]
  have hsame : ∀ d, d <+: ["docs", "guide"] → ["docs"] <+: d →
      topless.find? (d ++ [fileName]) = docsTree.find? (d ++ [fileName]) := by
    intro d hd hdocs
    rcases List.prefix_concat_iff.mp (show d <+: ["docs"] ++ ["guide"] from hd) with rfl | hd
    · rfl
    · rw [hd.eq_of_length_le hdocs.length_le]
      rfl
  have hlacking : Lacking ⟨[]⟩ ["docs"] := by
    intro d hd
    simp [FileTree.find?]
  have hlocked := hdecides ["docs"] .locked _ nearest_docsTree .locked none
  have hfile := htop [] (.file "".toUTF8) _ (nearest_here rfl) (.text "") none
  exact ⟨nearest_docsTree, hlocked.eq_error,
    hframe ["docs"] .locked nearest_docsTree topless hsame none, hfile.exists_path,
    (hnothing hlacking none).exists_path, (houtside .root nofun none).exists_path⟩

end DitaTopic.Config
