/-!
# Markup events

What a renderer tells a sink: the parts of an XML document in the order in which they
are written.
-/

namespace DitaTopic.Markup

/-- The attributes of a start tag in order; a name may occur more than once. -/
structure Attributes where
  items : List (String × String) := []
  deriving Repr, DecidableEq, Inhabited

namespace Attributes

def none : Attributes := ⟨[]⟩

def push (attributes : Attributes) (name value : String) : Attributes :=
  ⟨attributes.items ++ [(name, value)]⟩

/-- Adds an attribute at the end if there is a value for it. -/
def pushSome (attributes : Attributes) (name : String) : Option String → Attributes
  | some value => attributes.push name value
  | .none => attributes

def size (attributes : Attributes) : Nat := attributes.items.length

def isEmpty (attributes : Attributes) : Bool := attributes.items.isEmpty

/-- The value of the first attribute with a name. -/
def get? (attributes : Attributes) (name : String) : Option String :=
  (attributes.items.find? fun p => p.1 == name).map Prod.snd

@[simp] theorem get?_none (name : String) : none.get? name = .none := rfl

theorem get?_push (attributes : Attributes) (name value other : String) :
    (attributes.push name value).get? other =
      (attributes.get? other).or (if name = other then some value else .none) := by
  rw [get?, push, List.find?_append, get?]
  cases attributes.items.find? fun p => p.1 == other with
  | some p => rfl
  | none => by_cases h : name = other <;> simp [h]

theorem get?_pushSome (attributes : Attributes) (name : String) (value : Option String)
    (other : String) :
    (attributes.pushSome name value).get? other =
      (attributes.get? other).or (if name = other then value else .none) := by
  cases value with
  | none => simp [pushSome]
  | some value => exact get?_push attributes name value other

end Attributes

/-- One part of a written document. -/
inductive MarkupEvent where
  | startDocument
  | endDocument
  /-- Binds a namespace for the elements that follow. -/
  | bindNamespace (short uri : String)
  | unbindNamespace (short : String)
  | startElement (name : String) (attributes : Attributes)
  | endElement (name : String)
  | characters (text : String)
  | instruction (target data : String)
  deriving Repr, DecidableEq, Inhabited

/-- Whether an event is an element, text or instruction, and not about the document as a whole. -/
def MarkupEvent.isContent : MarkupEvent → Bool
  | startElement .. => true
  | endElement _ => true
  | characters _ => true
  | instruction .. => true
  | _ => false

end DitaTopic.Markup
