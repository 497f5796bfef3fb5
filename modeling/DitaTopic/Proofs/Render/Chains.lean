import DitaTopic.Proofs.Render.ProviderOrder

/-!
# What a registry holds

Registering handlers one after the other leaves, for each node type, a chain with the handlers
of that type, the last one outermost. A session reads a registry only through its chains.
-/

namespace DitaTopic

theorem KeyedList.mem_of_lookup {κ ν : Type} [DecidableEq κ] {l : List (κ × ν)} {k : κ} {v : ν}
    (h : lookup k l = some v) : (k, v) ∈ l := by
  induction l with
  | nil => cases h
  | cons p rest ih =>
    obtain ⟨k', v'⟩ := p
    rw [lookup] at h
    split at h
    · next e =>
      obtain rfl := Option.some.inj h
      rw [e]
      exact List.mem_cons_self ..
    · exact List.mem_cons_of_mem _ (ih h)

namespace Render

open DitaTopic.Document (NodeType)
open DitaTopic.Options (OptionView)

namespace Registry

/-- The handlers of a node type, outermost first. -/
def linksAt (r : Registry) (type : NodeType) : List Link :=
  ((r.chain? type).map Chain.links).getD []

theorem chain?_eq (r : Registry) (type : NodeType) :
    r.chain? type =
      match r.linksAt type with
      | [] => none
      | outer :: beneath => some ⟨outer, beneath⟩ := by
  rw [linksAt]
  cases r.chain? type <;> rfl

theorem linksAt_register (r : Registry) (link : Link) (type : NodeType) :
    (r.register link).linksAt type =
      if link.handler.type = type then link :: r.linksAt type else r.linksAt type := by
  rw [linksAt, chain?, register, KeyedList.find?_insert]
  split
  · next h => rw [h]; rfl
  · rfl

theorem linksAt_foldl (links : List Link) (r : Registry) (type : NodeType) :
    (links.foldl register r).linksAt type =
      (links.filter fun link => link.handler.type = type).reverse ++ r.linksAt type := by
  induction links generalizing r with
  | nil => rfl
  | cons link rest ih =>
    rw [List.foldl_cons, ih, linksAt_register]
    by_cases h : link.handler.type = type
    · rw [if_pos h, List.filter_cons_of_pos (by simpa using h), List.reverse_cons,
        List.append_assoc, List.singleton_append]
    · rw [if_neg h, List.filter_cons_of_neg (by simpa using h)]

theorem mem_create {providers : List Provider} {view : OptionView} {r : Registry}
    (h : build providers view = .ok r) {type : NodeType} {c : Chain} (hc : r.chain? type = some c)
    {link : Link} (hlink : link ∈ c.links) :
    ∃ p ∈ providers, link.handler ∈ p.create view := by
  rw [build] at h
  cases hordered : ordered providers with
  | error e =>
    rw [hordered] at h
    cases h
  | ok inOrder =>
    rw [hordered] at h
    cases h
    have hlinks : link ∈ ((linksOf view inOrder).foldl register empty).linksAt type := by
      rw [linksAt, hc]
      exact hlink
    rw [linksAt_foldl] at hlinks
    rcases List.mem_append.mp hlinks with hmem | hmem
    · have hof := (List.mem_filter.mp (List.mem_reverse.mp hmem)).1
      obtain ⟨p, hp, hmade⟩ := List.mem_flatMap.mp hof
      obtain ⟨handler, hhandler, rfl⟩ := List.mem_map.mp hmade
      exact ⟨p, (perm_of_ordered hordered).mem_iff.mp hp, hhandler⟩
    · cases hmem

theorem le_foldl_max (l : List Nat) (start : Nat) :
    start ≤ l.foldl max start ∧ ∀ x ∈ l, x ≤ l.foldl max start := by
  induction l generalizing start with
  | nil => exact ⟨Nat.le_refl start, fun x hx => by cases hx⟩
  | cons y rest ih =>
    obtain ⟨hstart, hrest⟩ := ih (max start y)
    rw [List.foldl_cons]
    refine ⟨by omega, fun x hx => ?_⟩
    rcases List.mem_cons.mp hx with rfl | hx
    · omega
    · exact hrest x hx

theorem length_le_longestChain {r : Registry} {type : NodeType} {c : Chain}
    (h : r.chain? type = some c) : c.links.length ≤ r.longestChain :=
  (le_foldl_max _ 0).2 _ (List.mem_map.mpr ⟨(type, c), KeyedList.mem_of_lookup h, rfl⟩)

end Registry

end Render

end DitaTopic
