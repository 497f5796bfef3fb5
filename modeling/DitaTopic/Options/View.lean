import DitaTopic.Data.KeyedList
import DitaTopic.Options.Value

/-!
# Option sets and views

An option set holds the explicitly set options. A view is what options are read
through: one set, or a narrower view layered over a broader one. Layering changes
neither side.
-/

namespace DitaTopic.Options

/-- The explicitly set options by name. -/
abbrev OptionSet := KeyedList String OptionValue

/-- A source of option values. -/
inductive OptionView where
  | ofSet (set : OptionSet)
  /-- `narrow` is consulted first, then `broad`. -/
  | layer (broad narrow : OptionView)

namespace OptionView

def lookup : OptionView → String → Option OptionValue
  | ofSet set, name => set.find? name
  | layer broad narrow, name => (narrow.lookup name).or (broad.lookup name)

@[simp] theorem lookup_ofSet (set : OptionSet) (name : String) :
    (ofSet set).lookup name = set.find? name := rfl

@[simp] theorem lookup_layer (broad narrow : OptionView) (name : String) :
    (layer broad narrow).lookup name = (narrow.lookup name).or (broad.lookup name) := rfl

instance : Coe OptionSet OptionView := ⟨ofSet⟩

/-- The sets of a view from the broadest to the narrowest. -/
def sets : OptionView → List OptionSet
  | ofSet set => [set]
  | layer broad narrow => broad.sets ++ narrow.sets

end OptionView

end DitaTopic.Options
