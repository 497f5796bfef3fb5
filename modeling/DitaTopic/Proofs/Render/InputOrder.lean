import DitaTopic.Proofs.Render.Cycles
import DitaTopic.Proofs.Render.Overriding

/-!
# Unrelated providers

Two providers are unrelated if neither waits for the other, at once or through others. Such a pair
keeps the order in which it was added unless the earlier one is held back: it waits for a provider
that was added behind the later one. No order can do better. Where a valid order keeps every
unrelated pair as it was, that order is the one that is found; but there need not be any.
-/

namespace DitaTopic.Render

open DitaTopic.Document (NodeType)
open DitaTopic.Options (OptionView)
open Relation

/-! ### The first that is ready -/

/-- Whatever stands behind a place of an order, or is left over, and was ready then, is greater. -/
def Eager (waits : Nat → List Nat) (order rest : List Nat) : Prop :=
  ∀ front i back, order = front ++ i :: back →
    ∀ k ∈ back ++ rest, (∀ j ∈ waits k, j ∈ front) → i < k

theorem eager_nil (waits : Nat → List Nat) (rest : List Nat) : Eager waits [] rest := by
  intro front i back h
  cases front <;> cases h

section Rounds

variable {waits : Nat → List Nat} {s t : Placing}

theorem Eager.round {all : List Nat} (hsound : Placing.Sound waits all s)
    (h : Eager waits s.placed s.remaining) (hround : Placing.Round waits s t) :
    Eager waits t.placed t.remaining := by
  obtain ⟨i, hi, rfl⟩ := hround
  have hdistinct : s.remaining.Nodup := hsound.sorted.imp Nat.ne_of_lt
  intro front j back heq k hk hready
  rcases split_concat heq with ⟨rfl, rfl, rfl⟩ | ⟨between, rfl, hplaced⟩
  · -- what is left over after the round was left over before it
    obtain ⟨hne, hmem⟩ := hdistinct.mem_erase_iff.mp hk
    have hle := Placing.le_of_nextReady? hi hsound.sorted hmem hready
    exact Nat.lt_of_le_of_ne hle (Ne.symm hne)
  · refine h front j between hplaced k ?_ hready
    rw [List.append_assoc, List.mem_append] at hk
    refine List.mem_append.mpr (hk.imp_right fun hk => ?_)
    rcases List.mem_append.mp hk with hk | hk
    · rw [List.mem_singleton.mp hk]
      exact mem_of_nextReady? hi
    · exact List.mem_of_mem_erase hk

theorem Eager.run {all : List Nat} (hsound : Placing.Sound waits all s)
    (h : Eager waits s.placed s.remaining) (hrun : ReflTransGen (Placing.Round waits) s t) :
    Eager waits t.placed t.remaining := by
  induction hrun with
  | refl => exact h
  | tail hbefore hround ih => exact Eager.round (hsound.run hbefore) ih hround

end Rounds

theorem eager_of_resolveOrder {ds : List Declaration} {order : List Nat}
    (h : resolveOrder ds = .ok order) : Eager (waitsFor ds) order [] := by
  obtain ⟨last, hrun, -, hresolve⟩ := resolveOrder_ends ds
  rw [h] at hresolve
  split at hresolve
  · next hempty =>
    cases hresolve
    rw [← List.isEmpty_iff.mp hempty]
    exact (eager_nil _ _).run (sound_start ds) hrun
  · cases hresolve

/-! ### Where places stand in an order -/

section Standing

variable {ds : List Declaration} {order : List Nat} {i j k : Nat}

/-- What stands in front of a place is what has a lesser index. -/
theorem mem_front_iff {front back : List Nat} (hnodup : (front ++ i :: back).Nodup) :
    j ∈ front ↔ (front ++ i :: back).idxOf j < (front ++ i :: back).idxOf i := by
  have hi : i ∉ front := fun hmem => List.disjoint_of_nodup_append hnodup hmem List.mem_cons_self
  rw [List.idxOf_append_of_notMem hi, List.idxOf_cons_self, Nat.add_zero]
  constructor
  · intro hj
    rw [List.idxOf_append_of_mem hj]
    exact List.idxOf_lt_length_of_mem hj
  · intro hlt
    by_contra hj
    rw [List.idxOf_append_of_notMem hj] at hlt
    omega

theorem IsOrder.idxOf_inj (h : IsOrder ds order) (hi : i < ds.length)
    (heq : order.idxOf i = order.idxOf j) : i = j :=
  (List.idxOf_inj (h.mem_iff.mpr hi)).mp heq

/-- A place stands behind all that it waits for. -/
theorem IsOrder.idxOf_lt (h : IsOrder ds order) (hwaits : TransGen (WaitsFor ds) i j) :
    order.idxOf j < order.idxOf i := by
  have hstep {i j : Nat} (hwaits : WaitsFor ds i j) : order.idxOf j < order.idxOf i := by
    have hi := List.getElem?_idxOf (h.mem_iff.mpr hwaits.left_lt)
    have hj := List.getElem?_idxOf (h.mem_iff.mpr hwaits.right_lt)
    exact h.lt_of_waitsFor hi hj hwaits
  induction hwaits with
  | single hwaits => exact hstep hwaits
  | tail _ hwaits ih => exact (hstep hwaits).trans ih

/-- A place that is ready where another one stands, and stands behind that, is greater. -/
theorem lt_of_ready (h : IsOrder ds order) (heager : Eager (waitsFor ds) order [])
    (hi : i < ds.length) (hk : k < ds.length) (hbehind : order.idxOf i < order.idxOf k)
    (hready : ∀ m, WaitsFor ds k m → order.idxOf m < order.idxOf i) : i < k := by
  obtain ⟨front, back, rfl⟩ := List.append_of_mem (h.mem_iff.mpr hi)
  refine heager front i back rfl k ?_ fun m hm => ?_
  · have hmem := h.mem_iff.mpr hk
    rw [List.append_nil]
    rcases List.mem_append.mp hmem with hfront | hcons
    · have := (mem_front_iff h.nodup).mp hfront
      omega
    · refine (List.mem_cons.mp hcons).resolve_left ?_
      rintro rfl
      exact Nat.lt_irrefl _ hbehind
  · exact (mem_front_iff h.nodup).mpr (hready m (mem_waitsFor.mp hm))

/-- Whatever place stands at index `n` or behind, it waits for one that stands there and is ready at
index `n`, or is one itself. -/
theorem exists_ready (h : IsOrder ds order) {n : Nat} (hn : n ≤ order.idxOf i) :
    ∃ k, ReflTransGen (WaitsFor ds) i k ∧ n ≤ order.idxOf k ∧
      ∀ m, WaitsFor ds k m → order.idxOf m < n := by
  induction hindex : order.idxOf i using Nat.strong_induction_on generalizing i with
  | _ index ih =>
    by_cases hready : ∀ m, WaitsFor ds i m → order.idxOf m < n
    · exact ⟨i, .refl, hn, hready⟩
    · push Not at hready
      obtain ⟨m, hwaits, hm⟩ := hready
      have hlt := h.idxOf_lt (.single hwaits)
      rw [hindex] at hlt
      obtain ⟨k, hreach, hk⟩ := ih _ hlt hm rfl
      exact ⟨k, .head hwaits hreach, hk⟩

/-- A place that another one was put before, although it comes earlier and does not wait for that,
waits for a place that comes later than the other and was put behind it. -/
theorem exists_held_back (h : IsOrder ds order) (heager : Eager (waitsFor ds) order [])
    (hij : i < j) (hj : j < ds.length) (hbefore : order.idxOf j < order.idxOf i)
    (hnot : ¬ TransGen (WaitsFor ds) i j) :
    ∃ k, j < k ∧ TransGen (WaitsFor ds) i k ∧ order.idxOf j < order.idxOf k := by
  obtain ⟨k, hreach, hk, hready⟩ := exists_ready h (Nat.le_of_lt hbefore)
  have hki : k < ds.length := by
    rcases hreach.cases_tail with rfl | ⟨m, -, hwaits⟩
    · exact hij.trans hj
    · exact hwaits.right_lt
  have hkj : j ≠ k := by
    rintro rfl
    rcases reflTransGen_iff_eq_or_transGen.mp hreach with rfl | hwaits
    · exact Nat.lt_irrefl _ hij
    · exact hnot hwaits
  have hbehind : order.idxOf j < order.idxOf k :=
    Nat.lt_of_le_of_ne hk fun heq => hkj (h.idxOf_inj hj heq)
  have hlt := lt_of_ready h heager hj hki hbehind hready
  rcases reflTransGen_iff_eq_or_transGen.mp hreach with rfl | hwaits
  · omega
  · exact ⟨k, hlt, hwaits, hbehind⟩

/-! ### Unrelated places -/

/-- Neither of two places waits for the other, at once or through others. -/
structure Unrelated (ds : List Declaration) (i j : Nat) : Prop where
  left : ¬ TransGen (WaitsFor ds) i j
  right : ¬ TransGen (WaitsFor ds) j i

theorem Unrelated.symm (h : Unrelated ds i j) : Unrelated ds j i := ⟨h.right, h.left⟩

/-- A place that neither waits nor is waited for is unrelated to every other. -/
theorem unrelated_of_alone (h : ∀ k < ds.length, k ∉ waitsFor ds j ∧ j ∉ waitsFor ds k) (i : Nat) :
    Unrelated ds i j where
  left hwaits := by
    obtain ⟨k, -, hlast⟩ := TransGen.tail'_iff.mp hwaits
    exact (h k hlast.left_lt).2 (mem_waitsFor.mpr hlast)
  right hwaits := by
    obtain ⟨k, hfirst, -⟩ := TransGen.head'_iff.mp hwaits
    exact (h k hfirst.right_lt).1 (mem_waitsFor.mpr hfirst)

/-- A place waits, at once or through others, for one that comes later than another place. -/
def HeldBack (ds : List Declaration) (i j : Nat) : Prop := ∃ k, j < k ∧ TransGen (WaitsFor ds) i k

/-- Unrelated places stand in an order as they were added. -/
def KeepsUnrelated (ds : List Declaration) (order : List Nat) : Prop :=
  ∀ i j, i < j → j < ds.length → Unrelated ds i j → order.idxOf i < order.idxOf j

/-- Of two unrelated places the earlier one comes first unless it is held back. -/
theorem idxOf_lt_or_heldBack (h : IsOrder ds order) (heager : Eager (waitsFor ds) order [])
    (hij : i < j) (hj : j < ds.length) (hunrelated : Unrelated ds i j) :
    order.idxOf i < order.idxOf j ∨ HeldBack ds i j := by
  rcases Nat.lt_trichotomy (order.idxOf i) (order.idxOf j) with hlt | heq | hgt
  · exact .inl hlt
  · exact absurd (h.idxOf_inj (hij.trans hj) heq) (Nat.ne_of_lt hij)
  · obtain ⟨k, hjk, hwaits, -⟩ := exists_held_back h heager hij hj hgt hunrelated.left
    exact .inr ⟨k, hjk, hwaits⟩

/-- If any valid order keeps unrelated places as they were added, the one that is found does. -/
theorem keepsUnrelated_of_exists {other : List Nat} (h : IsOrder ds order)
    (heager : Eager (waitsFor ds) order []) (hother : IsOrder ds other)
    (hkeeps : KeepsUnrelated ds other) : KeepsUnrelated ds order := by
  intro i j hij hj hunrelated
  by_contra hnot
  have hne : order.idxOf i ≠ order.idxOf j := fun heq =>
    absurd (h.idxOf_inj (hij.trans hj) heq) (Nat.ne_of_lt hij)
  have hbefore : order.idxOf j < order.idxOf i := by omega
  -- the place that holds `i` back is unrelated to `j`, so the other order cannot keep both pairs
  obtain ⟨k, hjk, hwaits, hbehind⟩ := exists_held_back h heager hij hj hbefore hunrelated.left
  have hk : k < ds.length := by
    obtain ⟨m, -, hlast⟩ := TransGen.tail'_iff.mp hwaits
    exact hlast.right_lt
  have hjk' : Unrelated ds j k := by
    refine ⟨fun hto => ?_, fun hfrom => hunrelated.left (hwaits.trans hfrom)⟩
    have := h.idxOf_lt hto
    omega
  have hfirst := hkeeps j k hjk hk hjk'
  have hsecond := hother.idxOf_lt hwaits
  have hthird := hkeeps i j hij hj hunrelated
  omega

theorem pairwise_idxOf (h : order.Nodup) :
    order.Pairwise fun i j => order.idxOf i < order.idxOf j := by
  rw [List.pairwise_iff_getElem]
  intro a b ha hb hab
  rwa [h.idxOf_getElem a ha, h.idxOf_getElem b hb]

/-- There is at most one valid order that keeps unrelated places as they were added. -/
theorem eq_of_keepsUnrelated {other : List Nat} (h : IsOrder ds order)
    (hkeeps : KeepsUnrelated ds order) (hother : IsOrder ds other)
    (hkeeps' : KeepsUnrelated ds other) : order = other := by
  have hagree {i j : Nat} (hi : i < ds.length) (hj : j < ds.length)
      (hlt : other.idxOf i < other.idxOf j) : order.idxOf i < order.idxOf j := by
    by_cases hto : TransGen (WaitsFor ds) i j
    · have := hother.idxOf_lt hto
      omega
    by_cases hfrom : TransGen (WaitsFor ds) j i
    · exact h.idxOf_lt hfrom
    rcases Nat.lt_trichotomy i j with hij | rfl | hji
    · exact hkeeps i j hij hj ⟨hto, hfrom⟩
    · omega
    · have := hkeeps' j i hji hi ⟨hfrom, hto⟩
      omega
  have hpairwise : other.Pairwise fun i j => order.idxOf i < order.idxOf j :=
    (pairwise_idxOf hother.nodup).imp_of_mem fun hi hj hlt =>
      hagree (hother.mem_iff.mp hi) (hother.mem_iff.mp hj) hlt
  refine List.Perm.eq_of_pairwise (fun i j _ _ hij hji => ?_) (pairwise_idxOf h.nodup) hpairwise
    (h.perm.trans hother.perm.symm)
  omega

end Standing

namespace Registry

variable {providers inOrder : List Provider}

/-- Of the handlers of two unrelated providers those of the later one are outside, unless the earlier
provider is held back. -/
theorem pairwise_ownedLinks_unrelated {order : List Nat} (h : IsOrder (declarations providers) order)
    (heager : Eager (waitsFor (declarations providers)) order []) (view : OptionView)
    (type : NodeType) :
    (ownedLinks providers view type order).Pairwise fun outer inner =>
      outer.1 < inner.1 → Unrelated (declarations providers) outer.1 inner.1 →
        HeldBack (declarations providers) outer.1 inner.1 := by
  have horder : order.Pairwise fun first second => second < first →
      Unrelated (declarations providers) second first →
        HeldBack (declarations providers) second first := by
    refine (pairwise_idxOf h.nodup).imp_of_mem fun {first second} hfirst _ hlt hless hunrelated => ?_
    refine (idxOf_lt_or_heldBack h heager hless (h.mem_iff.mp hfirst) hunrelated).resolve_left ?_
    exact Nat.lt_asymm hlt
  exact pairwise_ownedLinks_of (fun i hlt => absurd hlt (Nat.lt_irrefl i)) horder type

/-- Wherever providers can be ordered, unrelated ones stay as they were added unless the earlier one
is held back, and the handlers of the later one lie outside accordingly. If any valid order keeps all
unrelated providers as they were added, it is the one that is found. -/
theorem unrelated_in_order (hordered : ordered providers = .ok inOrder) :
    ∃ order, resolveOrder (declarations providers) = .ok order ∧
      inOrder.map some = order.map (fun i => providers[i]?) ∧
      (∀ i j, i < j → j < providers.length → Unrelated (declarations providers) i j →
        order.idxOf i < order.idxOf j ∨ HeldBack (declarations providers) i j) ∧
      (∀ other, IsOrder (declarations providers) other →
        KeepsUnrelated (declarations providers) other → order = other) ∧
      ∀ view, ∃ r, build providers view = .ok r ∧
        ∀ type, ∃ owned : List (Nat × Link), owned.map Prod.snd = r.linksAt type ∧
          (∀ i, (owned.filter fun e => e.1 = i).map Prod.snd =
            (linksFrom providers view type i).reverse) ∧
          owned.Pairwise fun outer inner =>
            outer.1 < inner.1 → Unrelated (declarations providers) outer.1 inner.1 →
              HeldBack (declarations providers) outer.1 inner.1 := by
  obtain ⟨order, horder, hmap⟩ := ordered_eq_ok hordered
  have hvalid := (isOrder_of_resolveOrder horder).1
  have heager := eager_of_resolveOrder horder
  refine ⟨order, horder, hmap, fun i j hij hj => ?_, fun other hother hkeeps => ?_, fun view => ?_⟩
  · rw [← length_declarations] at hj
    exact idxOf_lt_or_heldBack hvalid heager hij hj
  · have hfound := keepsUnrelated_of_exists hvalid heager hother hkeeps
    exact eq_of_keepsUnrelated hvalid hfound hother hkeeps
  · obtain ⟨r, hbuild⟩ := exists_build hordered view
    refine ⟨r, hbuild, fun type => ⟨ownedLinks providers view type order, ?_,
      filter_ownedLinks hvalid type, pairwise_ownedLinks_unrelated hvalid heager view type⟩⟩
    rw [map_snd_ownedLinks, linksAt_of_build hordered hbuild, filter_linksOf hmap]

/-- A provider that hands paragraphs on to the handler beneath. -/
def passing (name : String) (delegates : Option (List ProviderKind)) : Provider where
  kind := ⟨name⟩
  delegates := delegates
  create _ := [⟨.paragraph, fun _ _ => Rendering.delegate⟩]

/-- The first provider waits for the second; the third has nothing to do with them. -/
def layered : List Provider :=
  [passing "top" (some [⟨"base"⟩]), passing "base" none, passing "aside" none]

theorem unrelated_in_order_layered :
    ∃ inOrder, ordered layered = .ok inOrder ∧ resolveOrder (declarations layered) = .ok [1, 0, 2] ∧
      Unrelated (declarations layered) 0 2 ∧ ¬ HeldBack (declarations layered) 0 2 ∧
      List.idxOf 0 [1, 0, 2] < List.idxOf 2 [1, 0, 2] ∧
      ∃ r, build layered (.ofSet KeyedList.empty) = .ok r ∧
        ∃ owned : List (Nat × Link), owned.map Prod.snd = r.linksAt .paragraph ∧
          owned.Pairwise fun outer inner => outer.1 ≠ 0 ∨ inner.1 ≠ 2 := by
  have hresolve : resolveOrder (declarations layered) = .ok [1, 0, 2] := by cbv
  obtain ⟨inOrder, hordered⟩ := ordered_of_resolveOrder hresolve
  have hunrelated : Unrelated (declarations layered) 0 2 := unrelated_of_alone (by decide) 0
  have hfree : ¬ HeldBack (declarations layered) 0 2 := by
    rintro ⟨k, hk, hwaits⟩
    obtain ⟨m, -, hlast⟩ := TransGen.tail'_iff.mp hwaits
    have hlt : k < 3 := hlast.right_lt
    omega
  obtain ⟨order, horder, -, hpairs, -, hchains⟩ := unrelated_in_order hordered
  obtain rfl := Except.ok.inj (hresolve.symm.trans horder)
  obtain ⟨r, hbuild, hlinks⟩ := hchains (.ofSet KeyedList.empty)
  obtain ⟨owned, howned, -, hpairwise⟩ := hlinks .paragraph
  refine ⟨inOrder, hordered, hresolve, hunrelated, hfree,
    (hpairs 0 2 (by decide) (by decide) hunrelated).resolve_right hfree, r, hbuild, owned, howned,
    hpairwise.imp fun {outer inner} hnot => ?_⟩
  by_contra hboth
  obtain ⟨houter, hinner⟩ := not_or.mp hboth
  rw [not_not.mp houter, not_not.mp hinner] at hnot
  exact hfree (hnot (by decide) hunrelated)

/-- The first provider waits for the last; the one between has nothing to do with them. -/
def straddled : List Provider :=
  [passing "first" (some [⟨"last"⟩]), passing "between" none, passing "last" none]

/-- Unrelated providers do not always stay as they were added, and there can be no valid order in
which they do. -/
theorem unrelated_turned_round :
    ∃ inOrder, ordered straddled = .ok inOrder ∧
      inOrder.map some = [1, 2, 0].map (fun i => straddled[i]?) ∧
      Unrelated (declarations straddled) 0 1 ∧
      ∀ order, IsOrder (declarations straddled) order →
        ¬ KeepsUnrelated (declarations straddled) order := by
  have hresolve : resolveOrder (declarations straddled) = .ok [1, 2, 0] := by cbv
  obtain ⟨inOrder, hordered⟩ := ordered_of_resolveOrder hresolve
  obtain ⟨order, horder, hmap⟩ := ordered_eq_ok hordered
  obtain rfl := Except.ok.inj (hresolve.symm.trans horder)
  have halone : ∀ i, Unrelated (declarations straddled) i 1 := unrelated_of_alone (by decide)
  refine ⟨inOrder, hordered, hmap, halone 0, fun order hvalid hkeeps => ?_⟩
  have hfirst := hkeeps 0 1 (by decide) (by decide) (halone 0)
  have hsecond := hkeeps 1 2 (by decide) (by decide) (halone 2).symm
  have hwaits : WaitsFor (declarations straddled) 0 2 := mem_waitsFor.mp (by decide)
  have hthird := hvalid.idxOf_lt (.single hwaits)
  omega

end Registry

end DitaTopic.Render
