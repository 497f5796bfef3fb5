import Mathlib.Data.Fintype.Pigeonhole
import Mathlib.Data.Set.Finite.Basic
import Mathlib.Logic.Function.Iterate
import DitaTopic.Proofs.Render.ProviderOrder
import DitaTopic.Render.Renderer

/-!
# Cycles of providers

Providers cannot be ordered exactly if some of them wait for each other in a cycle. The error then
names the providers from which a cycle can be reached and no others, and a session ends with it
before anything is offered to its sink.
-/

namespace DitaTopic.Render

open DitaTopic.Markup
open Relation

section Walk

variable {r : Nat → Nat → Prop} {next : Nat → Nat} {items : List Nat}

theorem walk_reaches (hnext : ∀ i ∈ items, next i ∈ items ∧ r i (next i)) {i : Nat} (hi : i ∈ items)
    (n : Nat) : next^[n] i ∈ items ∧ ReflTransGen r i (next^[n] i) := by
  induction n with
  | zero => exact ⟨hi, .refl⟩
  | succ n ih =>
    obtain ⟨hmem, hreach⟩ := ih
    obtain ⟨hmem', hstep⟩ := hnext _ hmem
    rw [Function.iterate_succ_apply']
    exact ⟨hmem', hreach.tail hstep⟩

/-- Where every one of finitely many places leads to another of them, a cycle can be reached from
each: a walk through them comes back to a place where it has been. -/
theorem exists_cycle (h : ∀ i ∈ items, ∃ j ∈ items, r i j) {i : Nat} (hi : i ∈ items) :
    ∃ j, ReflTransGen r i j ∧ TransGen r j j := by
  choose! next hnext using h
  have hreaches := walk_reaches hnext hi
  have : Finite {j // j ∈ items} := items.finite_toSet
  obtain ⟨m, n, hne, heq⟩ := Finite.exists_ne_map_eq_of_infinite
    fun n : Nat => (⟨next^[n] i, (hreaches n).1⟩ : {j // j ∈ items})
  have hback : next^[m] i = next^[n] i := congrArg Subtype.val heq
  wlog hlt : m < n generalizing m n
  · exact this n m hne.symm heq.symm hback.symm (by omega)
  · obtain ⟨d, rfl⟩ : ∃ d, n = d + 1 + m := ⟨n - m - 1, by omega⟩
    obtain ⟨hmem, hreach⟩ := walk_reaches hnext (hreaches m).1 d
    have hreturn : next (next^[d] (next^[m] i)) = next^[m] i := by
      rw [← Function.iterate_succ_apply' next, ← Function.iterate_add_apply]
      exact hback.symm
    have hstep := (hnext _ hmem).2
    rw [hreturn] at hstep
    exact ⟨_, (hreaches m).2, .tail' hreach hstep⟩

end Walk

/-- From the provider at a place some cycle of waiting providers can be reached. -/
def ReachesCycle (ds : List Declaration) (i : Nat) : Prop :=
  ∃ j, ReflTransGen (WaitsFor ds) i j ∧ TransGen (WaitsFor ds) j j

theorem ReachesCycle.lt {ds : List Declaration} {i : Nat} (h : ReachesCycle ds i) :
    i < ds.length := by
  obtain ⟨j, hreach, hcycle⟩ := h
  rcases hreach.cases_head with rfl | ⟨k, hstep, -⟩
  · obtain ⟨k, hstep, -⟩ := TransGen.head'_iff.mp hcycle
    exact hstep.left_lt
  · exact hstep.left_lt

section InTurn

variable {ds : List Declaration} {order before behind : List Nat} {i j : Nat}

/-- Whatever a place waits for, at once or through others, stands before it. -/
theorem InTurn.mem_of_transGen (h : InTurn (waitsFor ds) order)
    (heq : order = before ++ i :: behind) (hwaits : TransGen (WaitsFor ds) i j) : j ∈ before := by
  induction hwaits with
  | single hstep => exact h before i behind heq _ (mem_waitsFor.mpr hstep)
  | @tail k j _ hstep ih =>
    obtain ⟨first, second, rfl⟩ := List.append_of_mem ih
    have heq' : order = first ++ k :: (second ++ i :: behind) := by
      rw [heq, List.append_assoc]
      rfl
    exact List.mem_append_left _ (h first k _ heq' j (mem_waitsFor.mpr hstep))

/-- From places that come in turn no cycle can be reached. -/
theorem InTurn.not_reachesCycle (h : InTurn (waitsFor ds) order) (hnodup : order.Nodup)
    (hi : i ∈ order) : ¬ ReachesCycle ds i := by
  rintro ⟨j, hreach, hcycle⟩
  have hj : j ∈ order := by
    obtain ⟨before, behind, heq⟩ := List.append_of_mem hi
    rcases reflTransGen_iff_eq_or_transGen.mp hreach with rfl | hwaits
    · exact hi
    · rw [heq]
      exact List.mem_append_left _ (h.mem_of_transGen heq hwaits)
  obtain ⟨before, behind, heq⟩ := List.append_of_mem hj
  have hbefore := h.mem_of_transGen heq hcycle
  rw [heq] at hnodup
  exact List.disjoint_of_nodup_append hnodup hbefore (List.mem_cons_self ..)

end InTurn

/-- The error of an order names the places from which a cycle can be reached. -/
theorem stuck_of_resolveOrder {ds : List Declaration} {e : RenderError}
    (h : resolveOrder ds = .error e) :
    ∃ stuck, e = .providerCycle (stuck.filterMap fun i => ds[i]?.map Declaration.kind) ∧
      stuck ≠ [] ∧ stuck.Pairwise (· < ·) ∧ (∀ i, i ∈ stuck ↔ ReachesCycle ds i) ∧
      ∀ i ∈ stuck, ∃ j ∈ stuck, WaitsFor ds i j := by
  obtain ⟨last, hrun, hlast, hresolve⟩ := resolveOrder_ends ds
  rw [h] at hresolve
  split at hresolve
  · cases hresolve
  · next hmore =>
    cases hresolve
    have hsound := (sound_start ds).run hrun
    have hwaits : ∀ i ∈ last.remaining, ∃ j ∈ last.remaining, WaitsFor ds i j := by
      have hall : ∀ i, ∀ j ∈ waitsFor ds i, j ∈ List.range ds.length :=
        fun i j hj => List.mem_range.mpr (mem_waitsFor.mp hj).right_lt
      intro i hi
      obtain ⟨j, hj, hmem⟩ := hsound.waits_of_stuck hlast hall hi
      exact ⟨j, hj, mem_waitsFor.mp hmem⟩
    refine ⟨last.remaining, rfl, fun hnil => hmore (List.isEmpty_iff.mpr hnil), hsound.sorted, ?_,
      hwaits⟩
    intro i
    constructor
    · exact exists_cycle hwaits
    · intro hcycle
      have hmem := hsound.perm.mem_iff.mpr (List.mem_range.mpr hcycle.lt)
      have hnodup := hsound.perm.nodup_iff.mpr List.nodup_range
      rcases List.mem_append.mp hmem with hplaced | hremaining
      · have hplaced' := hsound.inTurn.not_reachesCycle (List.nodup_append.mp hnodup).1 hplaced
        exact absurd hcycle hplaced'
      · exact hremaining

example : resolveOrder [⟨⟨"free"⟩, none⟩, ⟨⟨"a"⟩, some [⟨"b"⟩]⟩, ⟨⟨"b"⟩, some [⟨"a"⟩]⟩,
    ⟨⟨"c"⟩, some [⟨"a"⟩]⟩] = .error (.providerCycle [⟨"a"⟩, ⟨"b"⟩, ⟨"c"⟩]) := by cbv

/-- Providers in a valid order do not wait for each other in a cycle. -/
theorem IsOrder.not_cycle {ds : List Declaration} {order : List Nat} (h : IsOrder ds order)
    (i : Nat) : ¬ TransGen (WaitsFor ds) i i := by
  intro hcycle
  have hreaches : ReachesCycle ds i := ⟨i, .refl, hcycle⟩
  exact h.inTurn.not_reachesCycle h.nodup (h.mem_iff.mpr hreaches.lt) hreaches

namespace Registry

variable {providers : List Provider}

theorem ordered_eq_error {e : RenderError} :
    ordered providers = .error e ↔ resolveOrder (declarations providers) = .error e := by
  rw [ordered, declarations]
  cases resolveOrder (providers.map Provider.declaration) with
  | ok order => constructor <;> intro h <;> cases h
  | error e' => constructor <;> intro h <;> cases h <;> rfl

theorem map_kind_of_lt {places : List Nat} (h : ∀ i ∈ places, i < (declarations providers).length) :
    (places.filterMap fun i => (declarations providers)[i]?.map Declaration.kind).map some =
      places.map fun i => providers[i]?.map Provider.kind := by
  induction places with
  | nil => rfl
  | cons i rest ih =>
    have hi := h i (List.mem_cons_self ..)
    have hkind : (declarations providers)[i]?.map Declaration.kind =
        providers[i]?.map Provider.kind := by
      rw [declarations, List.getElem?_map, Option.map_map]
      rfl
    rw [length_declarations] at hi
    rw [List.filterMap_cons, hkind, List.getElem?_eq_getElem hi, List.map_cons,
      List.getElem?_eq_getElem hi]
    exact congrArg _ (ih fun k hk => h k (List.mem_cons_of_mem _ hk))

end Registry

/-- A session with providers that cannot be ordered ends before it starts. -/
theorem renderNode_of_unordered {σ : Type} {renderer : Renderer} {e : RenderError}
    (h : Registry.ordered renderer.providers = .error e) (sink : Sink σ) {doc : Document}
    {node : Nat} (inside : node < doc.size) (start : σ) :
    renderer.renderNode sink doc node start = .ok ⟨.error e, start, #[]⟩ := by
  have hbuild : Registry.build renderer.providers (renderer.view doc) = .error e := by
    rw [Registry.build, h]
    rfl
  rw [Renderer.renderNode, if_pos inside, hbuild]

/-- Providers cannot be ordered exactly if they wait for each other in a cycle. The error names, in
the order given, the providers from which a cycle can be reached, and every session with them ends
with it and leaves its sink as it was. Finding the order always comes to an end. -/
theorem cycle_reported (providers : List Provider) :
    ((∃ kinds, Registry.ordered providers = .error (.providerCycle kinds)) ↔
      ∃ i, TransGen (WaitsFor (Registry.declarations providers)) i i) ∧
    (∀ e, Registry.ordered providers = .error e → ∃ stuck kinds, e = .providerCycle kinds ∧
      kinds.map some = stuck.map (fun i => providers[i]?.map Provider.kind) ∧
      stuck ≠ [] ∧ stuck.Pairwise (· < ·) ∧
      (∀ i, i ∈ stuck ↔ ReachesCycle (Registry.declarations providers) i) ∧
      (∀ i ∈ stuck, ∃ j ∈ stuck, j ≠ i ∧ WaitsFor (Registry.declarations providers) i j) ∧
      ∀ (renderer : Renderer) (doc : Document) (node : Nat), renderer.providers = providers →
        node < doc.size → ∀ {σ : Type} (sink : Sink σ) (start : σ),
          renderer.renderNode sink doc node start = .ok ⟨.error e, start, #[]⟩) ∧
    (WellFounded fun t s => Placing.Round (waitsFor (Registry.declarations providers)) s t) ∧
    ∃ last, ReflTransGen (Placing.Round (waitsFor (Registry.declarations providers)))
        ⟨[], List.range (Registry.declarations providers).length⟩ last ∧
      (∀ t, ¬ Placing.Round (waitsFor (Registry.declarations providers)) last t) ∧
      resolveOrder (Registry.declarations providers) =
        if last.remaining.isEmpty then .ok last.placed
        else .error (.providerCycle (last.remaining.filterMap fun i =>
          (Registry.declarations providers)[i]?.map Declaration.kind)) := by
  refine ⟨⟨?_, ?_⟩, ?_, Placing.round_wellFounded _, resolveOrder_ends _⟩
  · rintro ⟨kinds, h⟩
    obtain ⟨stuck, -, hne, -, hcycle, -⟩ := stuck_of_resolveOrder (Registry.ordered_eq_error.mp h)
    obtain ⟨i, hi⟩ := List.exists_mem_of_ne_nil stuck hne
    obtain ⟨j, -, hj⟩ := (hcycle i).mp hi
    exact ⟨j, hj⟩
  · rintro ⟨i, hi⟩
    cases h : resolveOrder (Registry.declarations providers) with
    | ok order => exact absurd hi ((isOrder_of_resolveOrder h).1.not_cycle i)
    | error e =>
      obtain ⟨stuck, rfl, -⟩ := stuck_of_resolveOrder h
      exact ⟨_, Registry.ordered_eq_error.mpr h⟩
  · intro e h
    obtain ⟨stuck, heq, hne, hsorted, hcycle, hwaits⟩ :=
      stuck_of_resolveOrder (Registry.ordered_eq_error.mp h)
    refine ⟨stuck, _, heq, Registry.map_kind_of_lt fun i hi => ((hcycle i).mp hi).lt, hne, hsorted,
      hcycle, ?_, ?_⟩
    · intro i hi
      obtain ⟨j, hj, hstep⟩ := hwaits i hi
      exact ⟨j, hj, hstep.ne, hstep⟩
    · rintro renderer doc node rfl inside σ sink start
      exact renderNode_of_unordered h sink inside start

end DitaTopic.Render
