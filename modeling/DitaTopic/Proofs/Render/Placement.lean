import Mathlib.Data.List.Lex
import Mathlib.Data.List.Perm.Basic
import Mathlib.Logic.Relation
import DitaTopic.Render.Placement

/-!
# The placement of providers

Providers are placed in rounds, one in each. What a round does is said once, in `Placing.Round`;
what all rounds together do follows by induction. Placement that comes to an end with nothing left
gives an order in which every provider comes after those it waits for, and of all such orders the
lexicographically least. Where it gets stuck, every provider left over waits for another one left
over. Nothing here depends on kinds being distinct or on delegates being present.
-/

namespace DitaTopic.Render

open Relation

/-- Places in an order in which each comes after those it waits for. -/
def InTurn (waits : Nat → List Nat) (order : List Nat) : Prop :=
  ∀ before i behind, order = before ++ i :: behind → ∀ j ∈ waits i, j ∈ before

theorem inTurn_nil (waits : Nat → List Nat) : InTurn waits [] := by
  intro before i behind h
  cases before <;> cases h

/-- Where a place of a list stands that was made longer by one: at the end, or where it was. -/
theorem split_concat {α : Type} {items front back : List α} {a last : α}
    (h : items ++ [last] = front ++ a :: back) :
    (front = items ∧ a = last ∧ back = []) ∨
      ∃ between, back = between ++ [last] ∧ items = front ++ a :: between := by
  rcases List.eq_nil_or_concat' back with rfl | ⟨between, b, rfl⟩
  · obtain ⟨hitems, hlast⟩ := List.append_inj' h rfl
    exact .inl ⟨hitems.symm, (List.cons.inj hlast).1.symm, rfl⟩
  · rw [← List.cons_append, ← List.append_assoc] at h
    obtain ⟨hitems, hlast⟩ := List.append_inj' h rfl
    obtain ⟨rfl, -⟩ := List.cons.inj hlast
    exact .inr ⟨between, rfl, hitems⟩

theorem InTurn.concat {waits : Nat → List Nat} {order : List Nat} {i : Nat}
    (h : InTurn waits order) (hi : ∀ j ∈ waits i, j ∈ order) : InTurn waits (order ++ [i]) := by
  intro before k behind heq j hj
  rcases split_concat heq with ⟨rfl, rfl, -⟩ | ⟨rest, -, horder⟩
  · exact hi j hj
  · exact h before k rest horder j hj

/-- In an order without repetitions no place waits for one behind it. -/
theorem InTurn.pairwise {waits : Nat → List Nat} {order : List Nat} (h : InTurn waits order)
    (hnodup : order.Nodup) : order.Pairwise fun i j => j ∉ waits i := by
  rw [List.pairwise_iff_forall_sublist]
  intro i j hsub hj
  obtain ⟨before, rest, rfl, hi, hrest⟩ := List.cons_sublist_iff.mp hsub
  obtain ⟨first, second, rfl⟩ := List.append_of_mem hi
  have heq : first ++ i :: second ++ rest = first ++ i :: (second ++ rest) := by
    rw [List.append_assoc]
    rfl
  have hbefore := h first i (second ++ rest) heq j hj
  have hbehind := List.singleton_sublist.mp hrest
  exact (List.nodup_append.mp hnodup).2.2 j (List.mem_append_left _ hbefore) j hbehind rfl

/-- How far a placement has come. -/
structure Placing where
  placed : List Nat
  remaining : List Nat

namespace Placing

/-- One round: the first of the remaining places that is ready is placed. -/
def Round (waits : Nat → List Nat) (s t : Placing) : Prop :=
  ∃ i, nextReady? waits s.placed s.remaining = some i ∧
    t = ⟨s.placed ++ [i], s.remaining.erase i⟩

variable {waits : Nat → List Nat} {s t : Placing}

theorem ready_of_nextReady? {placed remaining : List Nat} {i : Nat}
    (h : nextReady? waits placed remaining = some i) : ∀ j ∈ waits i, j ∈ placed := by
  have hready := List.find?_some h
  intro j hj
  exact List.contains_iff_mem.mp (List.all_eq_true.mp hready j hj)

/-- In an ascending list the first place that is ready is the least one. -/
theorem le_of_nextReady? {placed remaining : List Nat} {i k : Nat}
    (h : nextReady? waits placed remaining = some i) (hsorted : remaining.Pairwise (· < ·))
    (hk : k ∈ remaining) (hready : ∀ j ∈ waits k, j ∈ placed) : i ≤ k := by
  obtain ⟨-, before, behind, rfl, hbefore⟩ := List.find?_eq_some_iff_append.mp h
  rcases List.mem_append.mp hk with hk | hk
  · have hnot := hbefore k hk
    have hall : (waits k).all placed.contains = true :=
      List.all_eq_true.mpr fun j hj => List.contains_iff_mem.mpr (hready j hj)
    rw [hall] at hnot
    cases hnot
  · rcases List.mem_cons.mp hk with rfl | hk
    · exact Nat.le_refl k
    · have hlt := (List.pairwise_cons.mp (List.pairwise_append.mp hsorted).2.1).1 k hk
      omega

theorem Round.length_lt (h : Round waits s t) : t.remaining.length < s.remaining.length := by
  obtain ⟨i, hi, rfl⟩ := h
  have hmem := mem_of_nextReady? hi
  have hlength := List.length_erase_of_mem hmem
  have hpos := List.length_pos_of_mem hmem
  show (s.remaining.erase i).length < s.remaining.length
  omega

/-- Whatever the places wait for, there is no endless placement. -/
theorem round_wellFounded (waits : Nat → List Nat) : WellFounded fun t s => Round waits s t :=
  Subrelation.wf (fun h => Round.length_lt h)
    (InvImage.wf (fun s : Placing => s.remaining.length) Nat.lt_wfRel.wf)

theorem no_round {placed remaining : List Nat} (h : nextReady? waits placed remaining = none)
    (t : Placing) : ¬ Round waits ⟨placed, remaining⟩ t := by
  rintro ⟨i, hi, -⟩
  rw [h] at hi
  cases hi

/-- Placement carries out rounds until there is none to carry out. -/
theorem place_ends (waits : Nat → List Nat) (placed remaining : List Nat) :
    ∃ last, ReflTransGen (Round waits) ⟨placed, remaining⟩ last ∧ (∀ t, ¬ Round waits last t) ∧
      place waits placed remaining =
        if last.remaining.isEmpty then .ok last.placed else .error last.remaining := by
  fun_induction place waits placed remaining with
  | case1 placed remaining i hready ih =>
    obtain ⟨last, hrun, hlast, hplace⟩ := ih
    exact ⟨last, .head ⟨i, hready, rfl⟩ hrun, hlast, hplace⟩
  | case2 placed remaining hnone hempty =>
    exact ⟨⟨placed, remaining⟩, .refl, no_round hnone, (if_pos hempty).symm⟩
  | case3 placed remaining hnone hmore =>
    exact ⟨⟨placed, remaining⟩, .refl, no_round hnone, (if_neg hmore).symm⟩

/-- What holds at every moment of a placement of the places of `all`. -/
structure Sound (waits : Nat → List Nat) (all : List Nat) (s : Placing) : Prop where
  perm : (s.placed ++ s.remaining).Perm all
  sorted : s.remaining.Pairwise (· < ·)
  inTurn : InTurn waits s.placed

theorem Sound.round {all : List Nat} (h : Sound waits all s) (hround : Round waits s t) :
    Sound waits all t := by
  obtain ⟨i, hi, rfl⟩ := hround
  have hmem := mem_of_nextReady? hi
  constructor
  · have hcons := (List.perm_cons_erase hmem).symm.append_left s.placed
    rw [List.append_cons] at hcons
    exact hcons.trans h.perm
  · exact h.sorted.sublist List.erase_sublist
  · exact h.inTurn.concat (ready_of_nextReady? hi)

theorem Sound.run {all : List Nat} (h : Sound waits all s)
    (hrun : ReflTransGen (Round waits) s t) : Sound waits all t := by
  induction hrun with
  | refl => exact h
  | tail _ hround ih => exact ih.round hround

theorem placed_prefix (hrun : ReflTransGen (Round waits) s t) : s.placed <+: t.placed := by
  induction hrun with
  | refl => exact List.prefix_refl _
  | tail _ hround ih =>
    obtain ⟨i, -, rfl⟩ := hround
    exact ih.trans (List.prefix_append _ _)

/-- A placement without a rest puts the places before every other order that begins like it and in
which each place comes in turn. -/
theorem least_of_run (hsorted : s.remaining.Pairwise (· < ·))
    (hrun : ReflTransGen (Round waits) s t) (hdone : t.remaining = []) {tail : List Nat}
    (hperm : tail.Perm s.remaining) (hturn : InTurn waits (s.placed ++ tail)) :
    t.placed ≤ s.placed ++ tail := by
  induction hrun using ReflTransGen.head_induction_on generalizing tail with
  | refl =>
    rw [hdone] at hperm
    rw [List.perm_nil.mp hperm, List.append_nil]
  | @head s u hround hrest ih =>
    obtain ⟨i, hi, rfl⟩ := hround
    have hmem := mem_of_nextReady? hi
    cases tail with
    | nil =>
      rw [List.nil_perm.mp hperm] at hmem
      cases hmem
    | cons j tail =>
      have hj : j ∈ s.remaining := hperm.mem_iff.mp (List.mem_cons_self ..)
      have hle : i ≤ j := le_of_nextReady? hi hsorted hj (hturn s.placed j tail rfl)
      rcases Nat.eq_or_lt_of_le hle with rfl | hlt
      · -- the other order agrees with this round, the rest of it with the rounds to come
        have htail : tail.Perm (s.remaining.erase i) :=
          (hperm.trans (List.perm_cons_erase hmem)).cons_inv
        rw [List.append_cons] at hturn ⊢
        exact ih (hsorted.sublist List.erase_sublist) htail hturn
      · obtain ⟨more, hmore⟩ := placed_prefix hrest
        have hplaced : s.placed ++ i :: more = t.placed := by
          rw [← hmore, List.append_assoc]
          rfl
        have hless : s.placed ++ i :: more < s.placed ++ j :: tail :=
          List.Lex.append_left _ (.rel hlt) s.placed
        rw [← hplaced]
        exact le_of_lt hless

/-- Where no round is left, every remaining place waits for a remaining one. -/
theorem Sound.waits_of_stuck {all : List Nat} (h : Sound waits all s)
    (hstuck : ∀ t, ¬ Round waits s t) (hall : ∀ i, ∀ j ∈ waits i, j ∈ all) {i : Nat}
    (hi : i ∈ s.remaining) : ∃ j ∈ s.remaining, j ∈ waits i := by
  have hnone : nextReady? waits s.placed s.remaining = none := by
    rw [Option.eq_none_iff_forall_ne_some]
    exact fun k hk => hstuck _ ⟨k, hk, rfl⟩
  have hnot := List.find?_eq_none.mp hnone i hi
  rw [List.all_eq_true] at hnot
  push Not at hnot
  obtain ⟨j, hj, hplaced⟩ := hnot
  refine ⟨j, ?_, hj⟩
  have hmem := h.perm.mem_iff.mpr (hall i j hj)
  exact (List.mem_append.mp hmem).resolve_left fun hmem =>
    hplaced (List.contains_iff_mem.mpr hmem)

end Placing

theorem place_of_ready {waits : Nat → List Nat} {placed remaining : List Nat} {i : Nat}
    (h : nextReady? waits placed remaining = some i) :
    place waits placed remaining = place waits (placed ++ [i]) (remaining.erase i) := by
  rw [place]
  split
  · next k hk =>
    obtain rfl := Option.some.inj (h.symm.trans hk)
    rfl
  · next hnone =>
    rw [h] at hnone
    cases hnone

theorem place_of_none {waits : Nat → List Nat} {placed remaining : List Nat}
    (h : nextReady? waits placed remaining = none) :
    place waits placed remaining = if remaining.isEmpty then .ok placed else .error remaining := by
  rw [place]
  split
  · next k hk =>
    rw [h] at hk
    cases hk
  · rfl

/-- Where the places come in turn as they stand, they are placed like that. -/
theorem place_of_inTurn {waits : Nat → List Nat} (placed remaining : List Nat)
    (h : InTurn waits (placed ++ remaining)) :
    place waits placed remaining = .ok (placed ++ remaining) := by
  induction remaining generalizing placed with
  | nil =>
    rw [place_of_none rfl, List.append_nil]
    rfl
  | cons i rest ih =>
    have hall : (waits i).all placed.contains = true :=
      List.all_eq_true.mpr fun j hj => List.contains_iff_mem.mpr (h placed i rest rfl j hj)
    have hready : nextReady? waits placed (i :: rest) = some i := List.find?_cons_of_pos hall
    rw [List.append_cons] at h ⊢
    rw [place_of_ready hready, List.erase_cons_head]
    exact ih _ h

/-! ### What a provider waits for -/

namespace Declaration

theorem follows_iff {d : Declaration} {kind : ProviderKind} :
    d.follows kind = true ↔
      ∃ delegates, d.delegates = some delegates ∧ kind ∈ delegates ∧ kind ≠ d.kind := by
  rw [follows]
  cases d.delegates with
  | none => simp
  | some delegates => simp [and_comm]

/-- The dependencies of a provider on a session are the kinds there that it must come after. Without
delegates there are none. -/
theorem mem_before {d : Declaration} {session : List ProviderKind} {kind : ProviderKind} :
    kind ∈ (d.before session).getD [] ↔ kind ∈ session ∧ d.follows kind = true := by
  cases hdelegates : d.delegates with
  | none =>
    have hfollows : ¬ d.follows kind = true := by
      rw [follows_iff, hdelegates]
      rintro ⟨delegates, hsome, -⟩
      cases hsome
    rw [before, hdelegates]
    exact iff_of_false List.not_mem_nil fun h => hfollows h.2
  | some delegates =>
    rw [before, hdelegates, Option.map_some, Option.getD_some, List.mem_eraseDups, List.mem_filter]

end Declaration

namespace DelegateLookup

/-- A lookup that has been asked gives the same answer again, and asking it changes nothing. -/
theorem before_before (l : DelegateLookup) : l.before.2.before = l.before := by
  obtain ⟨declaration, session, found⟩ := l
  cases found with
  | some found => rfl
  | none =>
    cases session with
    | none => rfl
    | some session =>
      show before ⟨declaration, none, declaration.before session⟩ = _
      cases hfound : declaration.before session <;> simp [before, hfound]

/-- The first answer of a lookup is found on the session's list, which is let go then. -/
theorem before_ofSession (session : List ProviderKind) (d : Declaration) :
    (ofSession session d).before.1 = d.before session ∧
      (ofSession session d).before.2.holdsSession = false :=
  ⟨rfl, rfl⟩

end DelegateLookup

/-- The places at which there is a provider of one of the kinds. -/
def placesOfKinds (ds : List Declaration) (kinds : List ProviderKind) : List Nat :=
  (List.range ds.length).filter fun j => (ds[j]?.map fun e => kinds.contains e.kind).getD false

/-- A provider waits for the places of the kinds that its lookup answers on the session. -/
theorem waitsFor_eq_placesOfKinds {ds : List Declaration} {i : Nat} {d : Declaration}
    (hd : ds[i]? = some d) :
    waitsFor ds i = placesOfKinds ds
      ((DelegateLookup.ofSession (ds.map Declaration.kind) d).before.1.getD []) := by
  rw [waitsFor, hd, placesOfKinds, (DelegateLookup.before_ofSession _ d).1]
  apply List.filter_congr
  intro j hj
  obtain ⟨e, he⟩ : ∃ e, ds[j]? = some e := ⟨_, List.getElem?_eq_getElem (List.mem_range.mp hj)⟩
  have hkind : e.kind ∈ ds.map Declaration.kind := List.mem_map_of_mem (List.mem_of_getElem? he)
  simp only [he, Option.map_some, Option.getD_some]
  rw [Bool.eq_iff_iff, List.contains_iff_mem, Declaration.mem_before]
  exact (and_iff_right hkind).symm

/-- The provider at place `i` waits for the one at place `j`: it names the other's kind as a
delegate, and that is not its own kind. -/
def WaitsFor (ds : List Declaration) (i j : Nat) : Prop :=
  ∃ d e delegates, ds[i]? = some d ∧ ds[j]? = some e ∧ d.delegates = some delegates ∧
    e.kind ∈ delegates ∧ e.kind ≠ d.kind

theorem mem_waitsFor {ds : List Declaration} {i j : Nat} : j ∈ waitsFor ds i ↔ WaitsFor ds i j := by
  rw [waitsFor, WaitsFor]
  cases hd : ds[i]? with
  | none => simp
  | some d =>
    constructor
    · intro h
      obtain ⟨-, hj⟩ := List.mem_filter.mp h
      cases he : ds[j]? with
      | none =>
        rw [he] at hj
        cases hj
      | some e =>
        rw [he] at hj
        obtain ⟨delegates, hdelegates, hmem, hne⟩ := Declaration.follows_iff.mp hj
        exact ⟨d, e, delegates, rfl, rfl, hdelegates, hmem, hne⟩
    · rintro ⟨d', e, delegates, hd', he, hdelegates, hmem, hne⟩
      obtain rfl := Option.some.inj hd'
      obtain ⟨hlt, -⟩ := List.getElem?_eq_some_iff.mp he
      refine List.mem_filter.mpr ⟨List.mem_range.mpr hlt, ?_⟩
      rw [he]
      exact Declaration.follows_iff.mpr ⟨delegates, hdelegates, hmem, hne⟩

namespace WaitsFor

variable {ds : List Declaration} {i j : Nat}

theorem left_lt (h : WaitsFor ds i j) : i < ds.length := by
  obtain ⟨d, e, delegates, hd, -⟩ := h
  exact (List.getElem?_eq_some_iff.mp hd).1

theorem right_lt (h : WaitsFor ds i j) : j < ds.length := by
  obtain ⟨d, e, delegates, -, he, -⟩ := h
  exact (List.getElem?_eq_some_iff.mp he).1

/-- No provider waits for itself, even if it names its own kind. -/
theorem ne (h : WaitsFor ds i j) : j ≠ i := by
  rintro rfl
  obtain ⟨d, e, delegates, hd, he, -, -, hne⟩ := h
  obtain rfl := Option.some.inj (hd.symm.trans he)
  exact hne rfl

end WaitsFor

/-- A valid order of providers: each place once, and each after all places it waits for. -/
structure IsOrder (ds : List Declaration) (order : List Nat) : Prop where
  perm : order.Perm (List.range ds.length)
  after : ∀ before i behind, order = before ++ i :: behind → ∀ j, WaitsFor ds i j → j ∈ before

namespace IsOrder

variable {ds : List Declaration} {order : List Nat}

theorem inTurn (h : IsOrder ds order) : InTurn (waitsFor ds) order :=
  fun before i behind heq j hj => h.after before i behind heq j (mem_waitsFor.mp hj)

theorem of_inTurn (hperm : order.Perm (List.range ds.length))
    (hturn : InTurn (waitsFor ds) order) : IsOrder ds order :=
  ⟨hperm, fun before i behind heq j hj => hturn before i behind heq j (mem_waitsFor.mpr hj)⟩

theorem nodup (h : IsOrder ds order) : order.Nodup := h.perm.nodup_iff.mpr List.nodup_range

theorem mem_iff (h : IsOrder ds order) {i : Nat} : i ∈ order ↔ i < ds.length :=
  h.perm.mem_iff.trans List.mem_range

theorem length_eq (h : IsOrder ds order) : order.length = ds.length :=
  h.perm.length_eq.trans List.length_range

/-- No place stands before one that it waits for. -/
theorem pairwise (h : IsOrder ds order) : order.Pairwise fun i j => ¬ WaitsFor ds i j :=
  (h.inTurn.pairwise h.nodup).imp fun hnot hwaits => hnot (mem_waitsFor.mpr hwaits)

end IsOrder

theorem sound_start (ds : List Declaration) :
    Placing.Sound (waitsFor ds) (List.range ds.length) ⟨[], List.range ds.length⟩ where
  perm := List.Perm.refl _
  sorted := List.pairwise_lt_range
  inTurn := inTurn_nil _

/-- The order of providers is found in rounds. After the last one either all places have been placed
or the remaining ones are the error. -/
theorem resolveOrder_ends (ds : List Declaration) :
    ∃ last, ReflTransGen (Placing.Round (waitsFor ds)) ⟨[], List.range ds.length⟩ last ∧
      (∀ t, ¬ Placing.Round (waitsFor ds) last t) ∧
      resolveOrder ds =
        if last.remaining.isEmpty then .ok last.placed
        else .error (.providerCycle (last.remaining.filterMap fun i => ds[i]?.map Declaration.kind)) := by
  obtain ⟨last, hrun, hlast, hplace⟩ := Placing.place_ends (waitsFor ds) [] (List.range ds.length)
  refine ⟨last, hrun, hlast, ?_⟩
  rw [resolveOrder, hplace]
  cases last.remaining.isEmpty <;> rfl

/-- An order that was found is valid and the least one that is. -/
theorem isOrder_of_resolveOrder {ds : List Declaration} {order : List Nat}
    (h : resolveOrder ds = .ok order) :
    IsOrder ds order ∧ ∀ other, IsOrder ds other → order ≤ other := by
  obtain ⟨last, hrun, -, hresolve⟩ := resolveOrder_ends ds
  rw [h] at hresolve
  split at hresolve
  · next hempty =>
    cases hresolve
    have hdone := List.isEmpty_iff.mp hempty
    have hsound := (sound_start ds).run hrun
    constructor
    · have hperm := hsound.perm
      rw [hdone, List.append_nil] at hperm
      exact .of_inTurn hperm hsound.inTurn
    · intro other hother
      have hleast := Placing.least_of_run (sound_start ds).sorted hrun hdone hother.perm
        (by exact hother.inTurn)
      exact hleast
  · cases hresolve

example : resolveOrder [⟨⟨"x"⟩, none⟩, ⟨⟨"c"⟩, some [⟨"a"⟩, ⟨"b"⟩]⟩, ⟨⟨"b"⟩, some [⟨"a"⟩]⟩,
    ⟨⟨"a"⟩, none⟩] = .ok [0, 3, 2, 1] := by cbv

/-- Providers that stand in a valid order keep it. -/
theorem resolveOrder_of_isOrder {ds : List Declaration} (h : IsOrder ds (List.range ds.length)) :
    resolveOrder ds = .ok (List.range ds.length) := by
  have hplace := place_of_inTurn [] (List.range ds.length) h.inTurn
  rw [resolveOrder, hplace]
  rfl

end DitaTopic.Render
