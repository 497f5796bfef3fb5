import Mathlib.Data.List.Perm.Basic
import Mathlib.Data.Option.Basic
import DitaTopic.Proofs.Render.Placement
import DitaTopic.Render.Registry

/-!
# Providers in order

From the places that were found the providers themselves are taken, each once. The order respects
what providers wait for, is the least one that does, and is not changed by being found again.
-/

namespace DitaTopic.Render

/-- Every item that is taken is there if no place is asked for twice. -/
theorem takeInTurn_map {α : Type} {slots : List (Option α)} {order : List Nat}
    (hnodup : order.Nodup) (hfull : ∀ i ∈ order, ∃ a, slots[i]? = some (some a)) :
    (takeInTurn slots order).map some = order.map fun i => slots[i]?.join := by
  induction order generalizing slots with
  | nil => rfl
  | cons i rest ih =>
    obtain ⟨hi, hrest⟩ := List.nodup_cons.mp hnodup
    obtain ⟨a, ha⟩ := hfull i (List.mem_cons_self ..)
    have hkeeps : ∀ k ∈ rest, (slots.set i none)[k]? = slots[k]? := by
      intro k hk
      apply List.getElem?_set_ne
      rintro rfl
      exact hi hk
    have hfull' : ∀ k ∈ rest, ∃ a, (slots.set i none)[k]? = some (some a) := by
      intro k hk
      rw [hkeeps k hk]
      exact hfull k (List.mem_cons_of_mem _ hk)
    have htake := ih hrest hfull'
    have hmap : rest.map (fun k => (slots.set i none)[k]?.join) =
        rest.map fun k => slots[k]?.join :=
      List.map_congr_left fun k hk => by rw [hkeeps k hk]
    rw [takeInTurn, List.map_append, htake, hmap, List.map_cons, ha]
    rfl

/-- Providers stand in a valid order if each waits only for earlier ones. -/
theorem isOrder_range {ds : List Declaration} (h : ∀ i j, WaitsFor ds i j → j < i) :
    IsOrder ds (List.range ds.length) where
  perm := List.Perm.refl _
  after := by
    intro before i behind heq j hwaits
    have hmem : j ∈ List.range ds.length := List.mem_range.mpr hwaits.right_lt
    have hsorted : (List.range ds.length).Pairwise (· < ·) := List.pairwise_lt_range
    rw [heq] at hmem hsorted
    have hlt := h i j hwaits
    rcases List.mem_append.mp hmem with hbefore | hbehind
    · exact hbefore
    · rcases List.mem_cons.mp hbehind with rfl | hbehind
      · omega
      · have hgt := (List.pairwise_cons.mp (List.pairwise_append.mp hsorted).2.1).1 j hbehind
        omega

/-- In a valid order the places stand at indices that ascend along what they wait for. -/
theorem IsOrder.lt_of_waitsFor {ds : List Declaration} {order : List Nat} (h : IsOrder ds order)
    {a b i j : Nat} (hi : order[a]? = some i) (hj : order[b]? = some j) (hwaits : WaitsFor ds i j) :
    b < a := by
  obtain ⟨ha, rfl⟩ := List.getElem?_eq_some_iff.mp hi
  obtain ⟨hb, rfl⟩ := List.getElem?_eq_some_iff.mp hj
  have hpairwise := List.pairwise_iff_getElem.mp h.pairwise
  rcases Nat.lt_trichotomy a b with hlt | rfl | hlt
  · exact absurd hwaits (hpairwise a b ha hb hlt)
  · exact absurd rfl hwaits.ne
  · exact hlt

namespace Registry

/-- The declarations by which providers are ordered. -/
def declarations (providers : List Provider) : List Declaration :=
  providers.map Provider.declaration

variable {providers inOrder : List Provider}

theorem length_declarations (providers : List Provider) :
    (declarations providers).length = providers.length := List.length_map _

/-- The providers are those at the places that were found. -/
theorem ordered_eq_ok (h : ordered providers = .ok inOrder) :
    ∃ order, resolveOrder (declarations providers) = .ok order ∧
      inOrder.map some = order.map fun i => providers[i]? := by
  rw [ordered] at h
  cases horder : resolveOrder (providers.map Provider.declaration) with
  | error e =>
    rw [horder] at h
    cases h
  | ok order =>
    rw [horder] at h
    cases h
    have hvalid := (isOrder_of_resolveOrder horder).1
    refine ⟨order, horder, ?_⟩
    have hslot : ∀ i : Nat, (providers.map some)[i]?.join = providers[i]? := by
      intro i
      rw [List.getElem?_map]
      cases providers[i]? <;> rfl
    have hfull : ∀ i ∈ order, ∃ p, (providers.map some)[i]? = some (some p) := by
      intro i hi
      have hlt := hvalid.mem_iff.mp hi
      rw [List.length_map] at hlt
      exact ⟨providers[i], by simp [hlt]⟩
    rw [takeInTurn_map hvalid.nodup hfull]
    exact List.map_congr_left fun i _ => hslot i

theorem ordered_of_resolveOrder {order : List Nat}
    (h : resolveOrder (declarations providers) = .ok order) :
    ∃ inOrder, ordered providers = .ok inOrder := by
  rw [declarations] at h
  rw [ordered, h]
  exact ⟨_, rfl⟩

theorem map_getElem?_range {α : Type} (items : List α) :
    ((List.range items.length).map fun i => items[i]?) = items.map some := by
  apply List.ext_getElem?
  intro i
  by_cases hi : i < items.length <;> simp [hi]

/-- No provider is lost or repeated. -/
theorem perm_of_ordered (h : ordered providers = .ok inOrder) : inOrder.Perm providers := by
  obtain ⟨order, horder, hmap⟩ := ordered_eq_ok h
  have hperm := (isOrder_of_resolveOrder horder).1.perm.map fun i => providers[i]?
  rw [← hmap, length_declarations, map_getElem?_range] at hperm
  exact (List.map_perm_map_iff (Option.some_injective _)).mp hperm

/-- Providers that stand in a valid order keep it. -/
theorem ordered_of_isOrder (h : IsOrder (declarations providers) (List.range providers.length)) :
    ordered providers = .ok providers := by
  rw [← length_declarations] at h
  have hresolve := resolveOrder_of_isOrder h
  obtain ⟨inOrder, hordered⟩ := ordered_of_resolveOrder hresolve
  obtain ⟨order, horder, hmap⟩ := ordered_eq_ok hordered
  obtain rfl := Except.ok.inj (hresolve.symm.trans horder)
  rw [length_declarations, map_getElem?_range] at hmap
  rw [hordered, List.map_injective_iff.mpr (Option.some_injective _) hmap]

theorem ordered_singleton (p : Provider) : ordered [p] = .ok [p] := by
  refine ordered_of_isOrder (isOrder_range fun i j hwaits => ?_)
  have hi := hwaits.left_lt
  have hj := hwaits.right_lt
  have hne := hwaits.ne
  rw [length_declarations, List.length_singleton] at hi hj
  omega

/-- The order that was found is valid as it stands. -/
theorem isOrder_of_ordered (h : ordered providers = .ok inOrder) :
    IsOrder (declarations inOrder) (List.range inOrder.length) := by
  obtain ⟨order, horder, hmap⟩ := ordered_eq_ok h
  have hvalid := (isOrder_of_resolveOrder horder).1
  have hplace : ∀ (a : Nat) (d : Declaration), (declarations inOrder)[a]? = some d →
      ∃ i : Nat, order[a]? = some i ∧ (declarations providers)[i]? = some d := by
    intro a d hd
    rw [declarations, List.getElem?_map] at hd
    obtain ⟨p, hp, rfl⟩ := Option.map_eq_some_iff.mp hd
    have hsome : (inOrder.map some)[a]? = some (some p) := by rw [List.getElem?_map, hp]; rfl
    rw [hmap, List.getElem?_map] at hsome
    obtain ⟨i, hi, hpi⟩ := Option.map_eq_some_iff.mp hsome
    refine ⟨i, hi, ?_⟩
    rw [declarations, List.getElem?_map, hpi]
    rfl
  rw [← length_declarations]
  apply isOrder_range
  rintro a b ⟨d, e, delegates, hd, he, hwaits⟩
  obtain ⟨i, hi, hdi⟩ := hplace a d hd
  obtain ⟨j, hj, hej⟩ := hplace b e he
  exact hvalid.lt_of_waitsFor hi hj ⟨d, e, delegates, hdi, hej, hwaits⟩

/-- Whenever providers can be ordered, the order holds each of them once, puts each behind those it
waits for, and is the least list of places that does; ordering it again changes nothing. Providers
that stand in a valid order can be ordered and keep it. -/
theorem ordered_least (providers : List Provider) :
    (∀ inOrder, ordered providers = .ok inOrder → ∃ order,
      resolveOrder (declarations providers) = .ok order ∧
      inOrder.map some = order.map (fun i => providers[i]?) ∧ inOrder.Perm providers ∧
      IsOrder (declarations providers) order ∧
      (∀ other, IsOrder (declarations providers) other → order ≤ other) ∧
      ordered inOrder = .ok inOrder) ∧
    (IsOrder (declarations providers) (List.range providers.length) →
      ordered providers = .ok providers) := by
  refine ⟨fun inOrder h => ?_, ordered_of_isOrder⟩
  obtain ⟨order, horder, hmap⟩ := ordered_eq_ok h
  obtain ⟨hvalid, hleast⟩ := isOrder_of_resolveOrder horder
  have hagain := ordered_of_isOrder (isOrder_of_ordered h)
  exact ⟨order, horder, hmap, perm_of_ordered h, hvalid, hleast, hagain⟩

end Registry

end DitaTopic.Render
