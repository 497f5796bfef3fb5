import DitaTopic.Document.Arena

/-!
# Walks over an arena

Nodes met one at a time, along the siblings of a node or down through a subtree. A walk follows the
links as they are and checks nothing, so on links that lead back it would never end.
-/

namespace DitaTopic.Document

/-- A walk that gives the items of a list in turn and then ends. `next` gives an item and where the
walk goes on, until there is nothing left. -/
inductive Gives {σ α : Type} (next : σ → Option (α × σ)) : σ → List α → Prop where
  | done {s : σ} (ends : next s = none) : Gives next s []
  | item {s s' : σ} {x : α} {rest : List α} (goes : next s = some (x, s'))
      (others : Gives next s' rest) : Gives next s (x :: rest)

namespace Arena

/-- Along siblings: the node that was reached, and the one after it. -/
def nextSibling (a : Arena) : Option Nat → Option (Nat × Option Nat)
  | none => none
  | some id => (a.node? id).map fun n => (id, n.next)

/-- Down through a subtree. The stack holds the nodes still to be visited, the next one last; the
children of a node are put on it in reverse, so that the first of them is visited first. -/
def nextBelow (a : Arena) (stack : Array Nat) : Option (Nat × Array Nat) :=
  stack.back?.map fun id => (id, stack.pop ++ (a.children id).reverse)

end Arena

end DitaTopic.Document
