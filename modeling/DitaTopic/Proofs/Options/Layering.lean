import DitaTopic.Identifier.Assignment
import DitaTopic.Proofs.Options.Inheritance
import DitaTopic.Render.Settings
import DitaTopic.Topic.Settings

/-!
# Views that agree

Two views agree when they hold the same value, or none, under every name. All that is read from a
view is found by looking names up, so views that agree give the same settings, whatever the types
of the values they hold. A set layered over another agrees with the two sets merged.
-/

namespace DitaTopic

namespace Options

/-- Two views hold the same values. -/
def OptionView.Agrees (v w : OptionView) : Prop := ∀ name, v.lookup name = w.lookup name

namespace OptionView

theorem Agrees.symm {v w : OptionView} (h : v.Agrees w) : w.Agrees v := fun name => (h name).symm

theorem Agrees.trans {u v w : OptionView} (h : u.Agrees v) (h' : v.Agrees w) : u.Agrees w :=
  fun name => (h name).trans (h' name)

theorem agrees_layer (broad narrow : OptionSet) :
    (layer (ofSet broad) (ofSet narrow)).Agrees (ofSet (broad.extend narrow)) := by
  intro name
  rw [lookup_layer, lookup_ofSet, lookup_ofSet, lookup_ofSet, KeyedList.find?_extend]

theorem agrees_layer_empty (broad : OptionSet) :
    (layer (ofSet broad) (ofSet KeyedList.empty)).Agrees (ofSet broad) := by
  intro name
  rw [lookup_layer, lookup_ofSet, lookup_ofSet, KeyedList.find?_empty, Option.none_or]

theorem agrees_empty_layer (narrow : OptionSet) :
    (layer (ofSet KeyedList.empty) (ofSet narrow)).Agrees (ofSet narrow) := by
  intro name
  rw [lookup_layer, lookup_ofSet, lookup_ofSet, KeyedList.find?_empty, Option.or_none]

end OptionView

variable {v w : OptionView}

/-- A key resolves alike in both views, at every step of its inheritance. -/
theorem OptionKey.resolve_congr {α : Type} [OptionType α] (h : v.Agrees w) (key : OptionKey α) :
    key.resolve v = key.resolve w := by
  apply resolve_congr_names
  intro name _
  exact h name

end Options

open DitaTopic.Options

variable {v w : OptionView}

theorem Render.Settings.ofView_congr (h : v.Agrees w) : ofView v = ofView w := by
  simp only [ofView, OptionKey.resolve_congr h]

theorem Topic.Settings.ofView_congr (h : v.Agrees w) : ofView v = ofView w := by
  simp only [ofView, OptionKey.resolve_congr h]

theorem Identifier.HeadingRule.ofView_congr (h : v.Agrees w) : ofView v = ofView w := by
  simp only [ofView, OptionKey.resolve_congr h]

end DitaTopic
