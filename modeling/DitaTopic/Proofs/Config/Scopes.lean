import Mathlib.Data.List.Induction
import DitaTopic.Config.Load
import DitaTopic.Proofs.Options.Layering

/-!
# Scopes and merged sets

There are two ways to let options win over others: to look names up in narrower scopes first, and to
merge the sets, broader ones before narrower ones. Under each name both give what the narrowest set
that has the name says, so it does not matter how scopes are nested, and loading a configuration
with overrides, which merges, does what a scope would do.
-/

namespace DitaTopic

namespace Options

/-- What the last of some sets that hold a name holds under it. -/
def lastValue? (sets : List OptionSet) (name : String) : Option OptionValue :=
  sets.reverse.findSome? fun set => set.find? name

/-- The sets put together, each one extending what those before it make. -/
def merged (sets : List OptionSet) : OptionSet := sets.foldl KeyedList.extend KeyedList.empty

theorem lastValue?_singleton (set : OptionSet) (name : String) :
    lastValue? [set] name = set.find? name := by
  rw [lastValue?, List.reverse_singleton, List.findSome?_singleton]

theorem lastValue?_append (first second : List OptionSet) (name : String) :
    lastValue? (first ++ second) name = (lastValue? second name).or (lastValue? first name) := by
  rw [lastValue?, List.reverse_append, List.findSome?_append, lastValue?, lastValue?]

theorem find?_merged (sets : List OptionSet) (name : String) :
    (merged sets).find? name = lastValue? sets name := by
  induction sets using List.reverseRecOn with
  | nil => rfl
  | append_singleton sets set ih =>
    rw [merged, List.foldl_append, List.foldl_cons, List.foldl_nil, KeyedList.find?_extend,
      lastValue?_append, lastValue?_singleton, ← ih, merged]

namespace OptionView

/-- Looking a name up through scopes finds what the narrowest set with the name holds. -/
theorem lookup_eq_lastValue? (view : OptionView) (name : String) :
    view.lookup name = lastValue? view.sets name := by
  induction view with
  | ofSet set => rw [lookup_ofSet, sets, lastValue?_singleton]
  | layer broad narrow ihBroad ihNarrow =>
    rw [lookup_layer, sets, lastValue?_append, ihBroad, ihNarrow]

theorem agrees_merged (view : OptionView) : view.Agrees (ofSet (merged view.sets)) := by
  intro name
  rw [lookup_eq_lastValue?, lookup_ofSet, find?_merged]

theorem agrees_of_sets {v w : OptionView} (h : v.sets = w.sets) : v.Agrees w := by
  intro name
  rw [lookup_eq_lastValue?, h, ← lookup_eq_lastValue?]

end OptionView

end Options

namespace Config

open DitaTopic.Options

/-- Two outcomes of loading the same file: a failure is the same failure, and otherwise the second
has the options of the first as they are seen through a scope of overrides. -/
inductive SeenThrough (overrides : OptionSet) :
    Except ConfigError Configuration → Except ConfigError Configuration → Prop where
  | failed (error : ConfigError) : SeenThrough overrides (.error error) (.error error)
  | loaded {file config : Configuration} (path : config.path = file.path)
      (options : (OptionView.ofSet config.options).Agrees (.layer file.options overrides)) :
      SeenThrough overrides (.ok file) (.ok config)

theorem load_none (tree : FileTree) (directory : Place) (path : Option String) :
    load tree directory path none = loadFile tree directory path := by
  rw [load]
  cases loadFile tree directory path <;> rfl

theorem seenThrough_load (tree : FileTree) (directory : Place) (path : Option String)
    (overrides : OptionSet) :
    SeenThrough overrides (load tree directory path none)
      (load tree directory path (some overrides)) := by
  rw [load_none, load]
  cases loadFile tree directory path with
  | error e => exact .failed e
  | ok file => exact .loaded rfl (OptionView.agrees_layer file.options overrides).symm

/-- Looking up through scopes, however they are nested, is looking up in the sets merged from the
broadest to the narrowest: under every name there is what the last set with that name holds, and
every key is read alike. Overrides that a configuration is loaded with lie over its file in this
way. -/
theorem scopes_eq_merged :
    (∀ (view : OptionView) (name : String),
      view.lookup name = (merged view.sets).find? name ∧
        view.lookup name = lastValue? view.sets name) ∧
    (∀ v w : OptionView, v.sets = w.sets → ∀ name, v.lookup name = w.lookup name) ∧
    (∀ (view : OptionView) {α : Type} [OptionType α] (key : OptionKey α),
      key.resolve view = key.resolve (.ofSet (merged view.sets))) ∧
    ∀ (tree : FileTree) (directory : Place) (path : Option String) (overrides : OptionSet),
      SeenThrough overrides (load tree directory path none)
        (load tree directory path (some overrides)) := by
  refine ⟨fun view name => ⟨view.agrees_merged name, view.lookup_eq_lastValue? name⟩,
    fun v w h => OptionView.agrees_of_sets h, fun view α _ key => ?_, seenThrough_load⟩
  exact OptionKey.resolve_congr view.agrees_merged key

end Config

end DitaTopic
