import Mathlib.Data.List.Nodup
import DitaTopic.Proofs.Render.Overriding

/-!
# Leaving a provider out

A provider for which no other waits can be left out: the others can be ordered without it exactly if
all can be ordered with it, they stand as they stood, and the chains lose its handlers and nothing
else. The placements with and without it go the same way, round by round, except for the one round
in which it is placed itself.
-/

namespace DitaTopic.Render

open DitaTopic.Document (NodeType)
open DitaTopic.Options (OptionView)

/-- The place, in a list, of what has place `j` where place `k` of the list is left out. -/
def skipping (k j : Nat) : Nat := if j < k then j else j + 1

theorem skipping_injective (k : Nat) : Function.Injective (skipping k) := by
  intro i j h
  unfold skipping at h
  split at h <;> split at h <;> omega

theorem skipping_ne (k j : Nat) : skipping k j ≠ k := by
  unfold skipping
  split <;> omega

theorem exists_skipping {i k : Nat} (h : i ≠ k) : ∃ j, skipping k j = i := by
  unfold skipping
  rcases Nat.lt_or_gt_of_ne h with hlt | hgt
  · exact ⟨i, if_pos hlt⟩
  · refine ⟨i - 1, ?_⟩
    rw [if_neg (by omega)]
    omega

theorem getElem?_eraseIdx_eq {α : Type} (items : List α) (k j : Nat) :
    (items.eraseIdx k)[j]? = items[skipping k j]? := by
  rw [List.getElem?_eraseIdx, skipping]
  split <;> rfl

theorem filter_range_ne {n k : Nat} (h : k < n) :
    (List.range n).filter (· != k) = (List.range (n - 1)).map (skipping k) := by
  have herase : (List.range n).filter (· != k) = (List.range n).eraseIdx k := by
    have hk : k < (List.range n).length := by rwa [List.length_range]
    have hget := List.nodup_range.erase_getElem k hk
    rw [List.getElem_range] at hget
    rw [← hget, List.nodup_range.erase_eq_filter]
  rw [herase]
  apply List.ext_getElem?
  intro j
  rw [getElem?_eraseIdx_eq, List.getElem?_map]
  by_cases hj : j < n - 1
  · have hskip : skipping k j < n := by
      unfold skipping
      split <;> omega
    simp [hj, hskip]
  · have hskip : ¬ skipping k j < n := by
      unfold skipping
      split <;> omega
    simp [hj, hskip]

/-! ### Two placements side by side -/

/-- The first item of a list that passes is still the first where some others are left out. -/
theorem find?_filter_of_find? {α : Type} {items : List α} {passes kept : α → Bool} {a : α}
    (h : items.find? passes = some a) (ha : kept a = true) :
    (items.filter kept).find? passes = some a := by
  obtain ⟨hpass, front, back, rfl, hfront⟩ := List.find?_eq_some_iff_append.mp h
  rw [List.filter_append, List.filter_cons_of_pos ha]
  refine List.find?_eq_some_iff_append.mpr ⟨hpass, _, _, rfl, fun b hb => ?_⟩
  exact hfront b (List.mem_of_mem_filter hb)

/-- `waits'` is what the places wait for once place `k`, for which none of them waits, is left out. -/
structure LeavesOut (k : Nat) (waits waits' : Nat → List Nat) : Prop where
  unmentioned : ∀ i, k ∉ waits i
  same : ∀ i j, skipping k j ∈ waits (skipping k i) ↔ j ∈ waits' i

section Placement

variable {k : Nat} {waits waits' : Nat → List Nat} {placed remaining placed' remaining' : List Nat}

/-- A place other than `k` is in one list exactly if it is in the other. -/
theorem skipping_mem_iff (h : placed.filter (· != k) = placed'.map (skipping k)) (j : Nat) :
    skipping k j ∈ placed ↔ j ∈ placed' := by
  have hmap : skipping k j ∈ placed'.map (skipping k) ↔ j ∈ placed' :=
    List.mem_map_of_injective (skipping_injective k)
  rw [← hmap, ← h, List.mem_filter, bne_iff_ne]
  exact (and_iff_left (skipping_ne k j)).symm

/-- Without `k` the same place is the first that is ready. -/
theorem nextReady?_skipping (h : LeavesOut k waits waits')
    (hplaced : placed.filter (· != k) = placed'.map (skipping k))
    (hremaining : remaining.filter (· != k) = remaining'.map (skipping k)) :
    nextReady? waits placed (remaining.filter (· != k)) =
      (nextReady? waits' placed' remaining').map (skipping k) := by
  have hready (i : Nat) :
      (waits (skipping k i)).all placed.contains = (waits' i).all placed'.contains := by
    rw [Bool.eq_iff_iff, List.all_eq_true, List.all_eq_true]
    constructor
    · intro hall j hj
      have hmem := hall _ ((h.same i j).mpr hj)
      rw [List.contains_iff_mem] at hmem ⊢
      exact (skipping_mem_iff hplaced j).mp hmem
    · intro hall m hm
      have hne : m ≠ k := fun heq => h.unmentioned _ (heq ▸ hm)
      obtain ⟨j, rfl⟩ := exists_skipping hne
      have hmem := hall j ((h.same i j).mp hm)
      rw [List.contains_iff_mem] at hmem ⊢
      exact (skipping_mem_iff hplaced j).mpr hmem
  rw [hremaining, nextReady?, nextReady?, List.find?_map]
  congr 2
  exact funext hready

/-- Where a placement is stuck, a place other than `k` is left over: `k` could be placed otherwise. -/
theorem exists_other_of_stuck (h : LeavesOut k waits waits')
    (hall : ∀ j ∈ waits k, j ∈ placed ++ remaining) (hnone : nextReady? waits placed remaining = none)
    (hmore : remaining ≠ []) : ∃ j ∈ remaining, j ≠ k := by
  obtain ⟨i, hi⟩ := List.exists_mem_of_ne_nil remaining hmore
  by_cases hne : i = k
  · subst hne
    have hnot := List.find?_eq_none.mp hnone i hi
    rw [List.all_eq_true] at hnot
    push Not at hnot
    obtain ⟨j, hj, hplaced⟩ := hnot
    rw [ne_eq, List.contains_iff_mem] at hplaced
    refine ⟨j, (List.mem_append.mp (hall j hj)).resolve_left hplaced, ?_⟩
    rintro rfl
    exact h.unmentioned j hj
  · exact ⟨i, hi, hne⟩

/-- The placements with and without `k` both come to an end, in the same order but for `k`, or both
get stuck. -/
theorem place_skipping (h : LeavesOut k waits waits')
    (hplaced : placed.filter (· != k) = placed'.map (skipping k))
    (hremaining : remaining.filter (· != k) = remaining'.map (skipping k))
    (hall : ∀ j ∈ waits k, j ∈ placed ++ remaining) :
    (place waits' placed' remaining').toOption.map (List.map (skipping k)) =
      (place waits placed remaining).toOption.map (List.filter (· != k)) := by
  fun_induction place waits placed remaining generalizing placed' remaining' with
  | case1 placed remaining i hready ih =>
    have hall' : ∀ j ∈ waits k, j ∈ (placed ++ [i]) ++ remaining.erase i := by
      intro j hj
      have hcons := (List.perm_cons_erase (mem_of_nextReady? hready)).append_left placed
      rw [List.append_assoc, List.singleton_append]
      exact hcons.mem_iff.mp (hall j hj)
    by_cases hi : i = k
    · -- the round of `k` itself has no counterpart
      subst hi
      refine ih ?_ ?_ hall'
      · rw [List.filter_append, hplaced]
        simp
      · rw [← List.erase_filter, List.erase_of_not_mem (by simp), hremaining]
    · have hkept : nextReady? waits placed (remaining.filter (· != k)) = some i :=
        find?_filter_of_find? hready (by simpa using hi)
      rw [nextReady?_skipping h hplaced hremaining] at hkept
      obtain ⟨j, hj, rfl⟩ := Option.map_eq_some_iff.mp hkept
      rw [place_of_ready hj]
      refine ih ?_ ?_ hall'
      · rw [List.filter_append, hplaced, List.map_append]
        simp [skipping_ne]
      · rw [← List.erase_filter, hremaining, List.map_erase (skipping_injective k)]
  | case2 placed remaining hnone hempty =>
    rw [List.isEmpty_iff.mp hempty] at hremaining
    rw [List.map_eq_nil_iff.mp hremaining.symm, place_of_none rfl]
    exact congrArg some hplaced.symm
  | case3 placed remaining hnone hmore =>
    have hnone' : nextReady? waits' placed' remaining' = none := by
      have hkept : nextReady? waits placed (remaining.filter (· != k)) = none := by
        rw [nextReady?, List.find?_eq_none] at hnone ⊢
        exact fun j hj => hnone j (List.mem_of_mem_filter hj)
      rwa [nextReady?_skipping h hplaced hremaining, Option.map_eq_none_iff] at hkept
    have hmore' : remaining'.isEmpty = false := by
      obtain ⟨j, hj, hne⟩ := exists_other_of_stuck h hall hnone (by simpa using hmore)
      have hkept : j ∈ remaining.filter (· != k) := List.mem_filter.mpr ⟨hj, bne_iff_ne.mpr hne⟩
      rw [hremaining] at hkept
      rw [List.isEmpty_eq_false_iff]
      rintro rfl
      cases hkept
    rw [place_of_none hnone', hmore']
    rfl

end Placement

section Order

variable {ds : List Declaration} {k : Nat}

theorem leavesOut_waitsFor (hfree : ∀ i, ¬ WaitsFor ds i k) :
    LeavesOut k (waitsFor ds) (waitsFor (ds.eraseIdx k)) where
  unmentioned i hk := hfree i (mem_waitsFor.mp hk)
  same i j := by
    simp only [mem_waitsFor, WaitsFor, getElem?_eraseIdx_eq]

/-- Without a place for which none waits, an order is found exactly if one is found with it, and it
is that order without the place. -/
theorem resolveOrder_eraseIdx (hk : k < ds.length) (hfree : ∀ i, ¬ WaitsFor ds i k) :
    (resolveOrder (ds.eraseIdx k)).toOption.map (List.map (skipping k)) =
      (resolveOrder ds).toOption.map (List.filter (· != k)) := by
  have hfound (ds : List Declaration) : (resolveOrder ds).toOption =
      (place (waitsFor ds) [] (List.range ds.length)).toOption := by
    rw [resolveOrder]
    cases place (waitsFor ds) [] (List.range ds.length) <;> rfl
  have hremaining := filter_range_ne hk
  rw [← List.length_eraseIdx_of_lt hk] at hremaining
  rw [hfound, hfound]
  exact place_skipping (leavesOut_waitsFor hfree) rfl hremaining fun j hj =>
    List.mem_range.mpr (mem_waitsFor.mp hj).right_lt

end Order

namespace Registry

variable {providers : List Provider} {k : Nat} {x : Provider}

/-- The chain of a node type that providers make in an order, outermost first. -/
def chainOf (view : OptionView) (type : NodeType) (inOrder : List Provider) : List Link :=
  ((linksOf view inOrder).filter fun link => link.handler.type = type).reverse

theorem chainOf_append (view : OptionView) (type : NodeType) (first second : List Provider) :
    chainOf view type (first ++ second) = chainOf view type second ++ chainOf view type first := by
  rw [chainOf, linksOf_append, List.filter_append, List.reverse_append]
  rfl

theorem declarations_eraseIdx (providers : List Provider) (k : Nat) :
    declarations (providers.eraseIdx k) = (declarations providers).eraseIdx k :=
  (List.eraseIdx_map ..).symm

theorem not_waitsFor_of_unnamed (hx : providers[k]? = some x)
    (hfree : ∀ i p delegates, i ≠ k → providers[i]? = some p → p.delegates = some delegates →
      x.kind ∉ delegates) (i : Nat) : ¬ WaitsFor (declarations providers) i k := by
  intro hwaits
  have hne := hwaits.ne
  obtain ⟨d, e, delegates, hd, he, hdelegates, hmem, -⟩ := hwaits
  rw [declarations, List.getElem?_map] at hd he
  obtain ⟨p, hp, rfl⟩ := Option.map_eq_some_iff.mp hd
  rw [hx] at he
  cases he
  exact hfree i p delegates hne.symm hp hdelegates hmem

theorem exists_ordered_iff :
    (∃ inOrder, ordered providers = .ok inOrder) ↔
      (resolveOrder (declarations providers)).toOption.isSome := by
  constructor
  · rintro ⟨inOrder, hordered⟩
    obtain ⟨order, horder, -⟩ := ordered_eq_ok hordered
    rw [horder]
    rfl
  · intro h
    cases horder : resolveOrder (declarations providers) with
    | ok order => exact ordered_of_resolveOrder horder
    | error e =>
      rw [horder] at h
      cases h

/-- Where the place of a provider is left out of the order, the provider is left out. -/
theorem ordered_eraseIdx {front back order : List Nat} {before behind : List Provider}
    (horder : resolveOrder (declarations (providers.eraseIdx k)) = .ok order)
    (hskip : order.map (skipping k) = front ++ back)
    (hbefore : before.map some = front.map fun i => providers[i]?)
    (hbehind : behind.map some = back.map fun i => providers[i]?) :
    ordered (providers.eraseIdx k) = .ok (before ++ behind) := by
  obtain ⟨inOrder, hordered⟩ := ordered_of_resolveOrder horder
  obtain ⟨order', horder', hmap⟩ := ordered_eq_ok hordered
  obtain rfl := Except.ok.inj (horder.symm.trans horder')
  have hplaces : order.map (fun i => (providers.eraseIdx k)[i]?) =
      (order.map (skipping k)).map fun i => providers[i]? := by
    rw [List.map_map]
    exact List.map_congr_left fun i _ => getElem?_eraseIdx_eq providers k i
  rw [hplaces, hskip, List.map_append, ← hbefore, ← hbehind, ← List.map_append] at hmap
  rw [hordered, List.map_injective_iff.mpr (Option.some_injective _) hmap]

/-- A provider that no other names as a delegate can be left out: the others can be ordered without it
exactly if all can be ordered with it. They stand in the same order, and every chain is the same but
for the handlers of the one left out. -/
theorem without_unnamed (hx : providers[k]? = some x)
    (hfree : ∀ i p delegates, i ≠ k → providers[i]? = some p → p.delegates = some delegates →
      x.kind ∉ delegates) :
    ((∃ inOrder, ordered (providers.eraseIdx k) = .ok inOrder) ↔
      ∃ inOrder, ordered providers = .ok inOrder) ∧
    ∀ inOrder, ordered providers = .ok inOrder →
      ∃ front back order before behind,
        resolveOrder (declarations providers) = .ok (front ++ k :: back) ∧
        resolveOrder (declarations (providers.eraseIdx k)) = .ok order ∧
        order.map (skipping k) = front ++ back ∧
        before.map some = front.map (fun i => providers[i]?) ∧
        behind.map some = back.map (fun i => providers[i]?) ∧
        inOrder = before ++ x :: behind ∧
        ordered (providers.eraseIdx k) = .ok (before ++ behind) ∧
        ∀ view, ∃ whole rest, build providers view = .ok whole ∧
          build (providers.eraseIdx k) view = .ok rest ∧
          ∀ type, whole.linksAt type = chainOf view type behind ++
              chainOf view type [x] ++ chainOf view type before ∧
            rest.linksAt type = chainOf view type behind ++ chainOf view type before := by
  have hk : k < (declarations providers).length := by
    rw [length_declarations]
    exact (List.getElem?_eq_some_iff.mp hx).1
  have hwithout := resolveOrder_eraseIdx hk (not_waitsFor_of_unnamed hx hfree)
  rw [← declarations_eraseIdx] at hwithout
  constructor
  · rw [exists_ordered_iff, exists_ordered_iff, ← Option.isSome_map (f := List.map (skipping k)),
      hwithout, Option.isSome_map]
  · intro inOrder hordered
    obtain ⟨places, hplaces, hmap⟩ := ordered_eq_ok hordered
    have hvalid := (isOrder_of_resolveOrder hplaces).1
    obtain ⟨front, back, rfl⟩ := List.append_of_mem (hvalid.mem_iff.mpr hk)
    have hothers : (front ++ k :: back).filter (· != k) = front ++ back := by
      have hnodup := hvalid.nodup
      rw [← hnodup.erase_eq_filter, List.erase_append_right, List.erase_cons_head]
      exact fun hmem => List.disjoint_of_nodup_append hnodup hmem List.mem_cons_self
    rw [hplaces] at hwithout
    cases horder : resolveOrder (declarations (providers.eraseIdx k)) with
    | error e =>
      rw [horder] at hwithout
      cases hwithout
    | ok order =>
      rw [horder] at hwithout
      have hskip : order.map (skipping k) = front ++ back :=
        (Option.some.inj hwithout).trans hothers
      rw [List.map_append, List.map_cons, hx] at hmap
      obtain ⟨before, rest, rfl, hbefore, hrest⟩ := List.map_eq_append_iff.mp hmap
      obtain ⟨y, behind, rfl, hy, hbehind⟩ := List.map_eq_cons_iff.mp hrest
      obtain rfl := Option.some.inj hy
      have hordered' := ordered_eraseIdx horder hskip hbefore hbehind
      refine ⟨front, back, order, before, behind, hplaces, rfl, hskip, hbefore, hbehind, rfl, hordered',
        fun view => ?_⟩
      obtain ⟨whole, hwhole⟩ := exists_build hordered view
      obtain ⟨rest, hrest⟩ := exists_build hordered' view
      refine ⟨whole, rest, hwhole, hrest, fun type => ⟨?_, ?_⟩⟩
      · rw [linksAt_of_build hordered hwhole, ← List.singleton_append]
        show chainOf view type _ = _
        rw [chainOf_append, chainOf_append]
      · rw [linksAt_of_build hordered' hrest]
        exact chainOf_append view type before behind

/-- The decorator is added before what it waits for and placed behind that. Without it the topic
vocabulary is all there is. -/
theorem without_unnamed_decorator :
    [decorator, Topic.provider][0]? = some decorator ∧
      (∀ i p delegates, i ≠ 0 → [decorator, Topic.provider][i]? = some p →
        p.delegates = some delegates → decorator.kind ∉ delegates) ∧
      resolveOrder (declarations [decorator, Topic.provider]) = .ok [1, 0] ∧
      ordered [Topic.provider] = .ok [Topic.provider] ∧
      ∃ whole rest, build [decorator, Topic.provider] (.ofSet KeyedList.empty) = .ok whole ∧
        build [Topic.provider] (.ofSet KeyedList.empty) = .ok rest ∧
        (whole.linksAt .paragraph).map Link.provider = [decorator.kind, Topic.provider.kind] ∧
        (rest.linksAt .paragraph).map Link.provider = [Topic.provider.kind] := by
  have hx : [decorator, Topic.provider][0]? = some decorator := rfl
  have hfree : ∀ i p delegates, i ≠ 0 → [decorator, Topic.provider][i]? = some p →
      p.delegates = some delegates → decorator.kind ∉ delegates := by
    rintro i p delegates hi hp hdelegates
    rcases i with _ | _ | i
    · exact absurd rfl hi
    · cases hp
      cases hdelegates
    · cases hp
  have hresolve : resolveOrder (declarations [decorator, Topic.provider]) = .ok [1, 0] := by cbv
  obtain ⟨inOrder, hordered⟩ := ordered_of_resolveOrder hresolve
  obtain ⟨front, back, -, before, behind, hplaces, -, -, hbefore, hbehind, -, hwithout, hchains⟩ :=
    (without_unnamed hx hfree).2 inOrder hordered
  obtain ⟨rfl, rfl⟩ : front = [1] ∧ back = [] := by
    have heq := Except.ok.inj (hplaces.symm.trans hresolve)
    rcases front with _ | ⟨first, _ | ⟨second, more⟩⟩
    · simp at heq
    · simpa using heq
    · simp at heq
  obtain rfl : behind = [] := List.map_eq_nil_iff.mp hbehind
  obtain rfl : before = [Topic.provider] :=
    List.map_injective_iff.mpr (Option.some_injective _) hbefore
  obtain ⟨whole, rest, hwhole, hrest, hlinks⟩ := hchains (.ofSet KeyedList.empty)
  obtain ⟨hall, hleft⟩ := hlinks .paragraph
  refine ⟨hx, hfree, hresolve, hwithout, whole, rest, hwhole, hrest, ?_, ?_⟩
  · rw [hall]
    rfl
  · rw [hleft]
    rfl

end Registry

end DitaTopic.Render
