import DitaTopic.Proofs.Topic.Refinement

/-!
# What overrides what

The chain of a node type is the reverse of the handlers of that type as the providers make them, in
the order of the providers. So every handler is in one chain, a handler lies outside those of the
providers that its own provider builds on, and the topic vocabulary lies beneath everything else.
-/

namespace DitaTopic.Render

open DitaTopic.Document (NodeType)
open DitaTopic.Options (OptionSet OptionView)

/-- The items of one place among those of all places of an order, each with its place. -/
theorem filter_tagged {α : Type} {f : Nat → List α} {order : List Nat} (hnodup : order.Nodup)
    {i : Nat} (hout : i ∉ order → f i = []) :
    (order.flatMap fun k => (f k).map (Prod.mk k)).filter (fun e => e.1 = i) =
      (f i).map (Prod.mk i) := by
  induction order with
  | nil => rw [hout List.not_mem_nil]; rfl
  | cons k rest ih =>
    obtain ⟨hk, hrest⟩ := List.nodup_cons.mp hnodup
    rw [List.flatMap_cons, List.filter_append]
    by_cases hki : k = i
    · subst hki
      have hself : ((f k).map (Prod.mk k)).filter (fun e => e.1 = k) = (f k).map (Prod.mk k) := by
        rw [List.filter_map]
        simp [Function.comp_def]
      have hothers : (rest.flatMap fun j => (f j).map (Prod.mk j)).filter (fun e => e.1 = k) = [] := by
        rw [List.filter_eq_nil_iff]
        intro e he
        obtain ⟨j, hj, he⟩ := List.mem_flatMap.mp he
        obtain ⟨a, -, rfl⟩ := List.mem_map.mp he
        have hne : j ≠ k := fun h => hk (h ▸ hj)
        simpa using hne
      rw [hself, hothers, List.append_nil]
    · have hself : ((f k).map (Prod.mk k)).filter (fun e => e.1 = i) = [] := by
        rw [List.filter_map]
        simp [Function.comp_def, hki]
      have hout' : i ∉ rest → f i = [] := fun h => hout fun hmem =>
        (List.mem_cons.mp hmem).elim (fun h => hki h.symm) h
      rw [hself, ih hrest hout', List.nil_append]

/-- A first provider that waits for nobody is placed first. -/
theorem head_of_resolveOrder {ds : List Declaration} {order : List Nat}
    (h : resolveOrder ds = .ok order) (hpos : 0 < ds.length) (hfree : ∀ j, ¬ WaitsFor ds 0 j) :
    ∃ rest, order = 0 :: rest := by
  obtain ⟨last, hrun, -, hresolve⟩ := resolveOrder_ends ds
  rw [h] at hresolve
  split at hresolve
  · next hempty =>
    cases hresolve
    have hrange : List.range ds.length = 0 :: (List.range (ds.length - 1)).map Nat.succ := by
      obtain ⟨n, hn⟩ : ∃ n, ds.length = n + 1 := ⟨ds.length - 1, by omega⟩
      rw [hn, List.range_succ_eq_map]
      rfl
    have hready : nextReady? (waitsFor ds) [] (List.range ds.length) = some 0 := by
      rw [hrange]
      apply List.find?_cons_of_pos
      rw [List.all_eq_true]
      intro j hj
      exact absurd (mem_waitsFor.mp hj) (hfree j)
    rcases hrun.cases_head with rfl | ⟨t, ⟨i, hi, rfl⟩, hrest⟩
    · rw [hrange] at hempty
      cases hempty
    · obtain rfl := Option.some.inj (hready.symm.trans hi)
      obtain ⟨rest, hrest⟩ := Placing.placed_prefix hrest
      exact ⟨rest, hrest.symm⟩
  · cases hresolve

namespace Registry

variable {providers inOrder : List Provider} {view : OptionView}

/-- The handlers of a node type that the provider at a place makes, in the order in which it makes
them. -/
def linksFrom (providers : List Provider) (view : OptionView) (type : NodeType) (i : Nat) :
    List Link :=
  (linksOf view providers[i]?.toList).filter fun link => link.handler.type = type

theorem linksOf_append (view : OptionView) (first second : List Provider) :
    linksOf view (first ++ second) = linksOf view first ++ linksOf view second :=
  List.flatMap_append

/-- The handlers of a node type are those that the providers at the places of an order make. -/
theorem filter_linksOf {order : List Nat}
    (hmap : inOrder.map some = order.map fun i => providers[i]?) (type : NodeType) :
    (linksOf view inOrder).filter (fun link => link.handler.type = type) =
      order.flatMap (linksFrom providers view type) := by
  induction inOrder generalizing order with
  | nil =>
    rw [List.map_eq_nil_iff.mp hmap.symm]
    rfl
  | cons p rest ih =>
    obtain ⟨i, order, rfl, hp, hrest⟩ := List.map_eq_cons_iff.mp hmap.symm
    have hfrom : linksFrom providers view type i =
        (linksOf view [p]).filter fun link => link.handler.type = type := by
      rw [linksFrom, hp]
      rfl
    rw [← List.singleton_append, linksOf_append, List.filter_append, List.flatMap_cons, hfrom,
      ih hrest.symm]

/-- Providers that can be ordered have a registry. -/
theorem exists_build (hordered : ordered providers = .ok inOrder) (view : OptionView) :
    ∃ r, build providers view = .ok r := by
  rw [build, hordered]
  exact ⟨_, rfl⟩

/-- The chain of a node type after registering the handlers of providers in order. -/
theorem linksAt_of_build {r : Registry} (hordered : ordered providers = .ok inOrder)
    (h : build providers view = .ok r) (type : NodeType) :
    r.linksAt type =
      ((linksOf view inOrder).filter fun link => link.handler.type = type).reverse := by
  rw [build, hordered] at h
  cases h
  rw [linksAt_foldl]
  exact List.append_nil _

theorem chain?_eq_none {r : Registry} {type : NodeType} :
    r.chain? type = none ↔ r.linksAt type = [] := by
  rw [chain?_eq]
  cases r.linksAt type <;> simp

/-- A first provider without delegates stays first. -/
theorem head_of_ordered {p : Provider} {others : List Provider}
    (hordered : ordered (p :: others) = .ok inOrder) (hfree : p.delegates = none) :
    ∃ rest, inOrder = p :: rest := by
  obtain ⟨order, horder, hmap⟩ := ordered_eq_ok hordered
  have hwaits : ∀ j, ¬ WaitsFor (declarations (p :: others)) 0 j := by
    rintro j ⟨d, e, delegates, hd, -, hdelegates, -⟩
    obtain rfl : p.declaration = d := Option.some.inj hd
    rw [Provider.declaration, hfree] at hdelegates
    cases hdelegates
  obtain ⟨places, rfl⟩ := head_of_resolveOrder horder (Nat.zero_lt_succ _) hwaits
  obtain ⟨q, rest, rfl, hq, -⟩ := List.map_eq_cons_iff.mp hmap
  obtain rfl := Option.some.inj hq
  exact ⟨rest, rfl⟩

/-- The topic vocabulary, added first, is the innermost part of every chain that it is in. -/
theorem getLast?_linksAt {r : Registry} {others : List Provider}
    (hordered : ordered (Topic.provider :: others) = .ok inOrder)
    (h : build (Topic.provider :: others) view = .ok r) {handler : Handler}
    (hhandler : handler ∈ Topic.provider.create view) :
    (r.linksAt handler.type).getLast? = some ⟨Topic.provider.kind, handler⟩ := by
  obtain ⟨rest, rfl⟩ := head_of_ordered hordered rfl
  have hown : ((linksOf view [Topic.provider]).filter fun link =>
      link.handler.type = handler.type).reverse = [⟨Topic.provider.kind, handler⟩] := by
    have hregistry := Topic.linksAt_registry view handler.type
    rw [Topic.registry, linksAt_foldl, Topic.handlerFor_of_mem _ hhandler] at hregistry
    rw [← List.append_nil (List.reverse _)]
    exact hregistry
  rw [linksAt_of_build hordered h, ← List.singleton_append, linksOf_append, List.filter_append,
    List.reverse_append, hown]
  exact List.getLast?_concat

/-- A node type has no chain exactly if no provider makes a handler of it. -/
theorem chain?_build_eq_none_iff {r : Registry} (hordered : ordered providers = .ok inOrder)
    (h : build providers view = .ok r) (type : NodeType) :
    r.chain? type = none ↔ ∀ p ∈ providers, ∀ handler ∈ p.create view, handler.type ≠ type := by
  have hmem : ∀ p, p ∈ inOrder ↔ p ∈ providers := fun p => (perm_of_ordered hordered).mem_iff
  rw [chain?_eq_none, linksAt_of_build hordered h, List.reverse_eq_nil_iff,
    List.filter_eq_nil_iff]
  constructor
  · intro hnone p hp handler hhandler htype
    have hlink : (⟨p.kind, handler⟩ : Link) ∈ linksOf view inOrder :=
      List.mem_flatMap.mpr ⟨p, (hmem p).mpr hp, List.mem_map.mpr ⟨handler, hhandler, rfl⟩⟩
    exact hnone _ hlink (decide_eq_true htype)
  · intro hnone link hlink htype
    obtain ⟨p, hp, hmade⟩ := List.mem_flatMap.mp hlink
    obtain ⟨handler, hhandler, rfl⟩ := List.mem_map.mp hmade
    exact hnone p ((hmem p).mp hp) handler hhandler (of_decide_eq_true htype)

/-- The chain of a node type with the place of the provider that each handler comes from. -/
def ownedLinks (providers : List Provider) (view : OptionView) (type : NodeType)
    (order : List Nat) : List (Nat × Link) :=
  (order.flatMap fun i => (linksFrom providers view type i).map (Prod.mk i)).reverse

theorem map_snd_ownedLinks (type : NodeType) (order : List Nat) :
    (ownedLinks providers view type order).map Prod.snd =
      (order.flatMap (linksFrom providers view type)).reverse := by
  rw [ownedLinks, List.map_reverse, List.map_flatMap]
  simp [Function.comp_def]

section Owned

variable {order : List Nat}

/-- The handlers that one provider makes are all there, the last one outermost. -/
theorem filter_ownedLinks (h : IsOrder (declarations providers) order) (type : NodeType)
    (i : Nat) :
    ((ownedLinks providers view type order).filter fun e => e.1 = i).map Prod.snd =
      (linksFrom providers view type i).reverse := by
  have hout : i ∉ order → linksFrom providers view type i = [] := by
    intro hi
    rw [h.mem_iff, length_declarations] at hi
    rw [linksFrom, List.getElem?_eq_none (Nat.le_of_not_lt hi)]
    rfl
  rw [ownedLinks, List.filter_reverse, filter_tagged h.nodup hout, List.map_reverse, List.map_map]
  exact congrArg List.reverse (List.map_id _)

/-- How places stand to each other in an order is how the handlers of their providers lie in a chain,
outer ones being those of later places. -/
theorem pairwise_ownedLinks_of {R : Nat → Nat → Prop} (hself : ∀ i, R i i)
    (horder : order.Pairwise R) (type : NodeType) :
    (ownedLinks providers view type order).Pairwise fun outer inner => R inner.1 outer.1 := by
  rw [ownedLinks, List.pairwise_reverse, List.pairwise_flatMap]
  constructor
  · intro i hi
    rw [List.pairwise_map]
    exact List.pairwise_of_forall fun _ _ => hself i
  · refine horder.imp fun hrelated e he e' he' => ?_
    obtain ⟨link, -, rfl⟩ := List.mem_map.mp he
    obtain ⟨link', -, rfl⟩ := List.mem_map.mp he'
    exact hrelated

theorem pairwise_ownedLinks (h : IsOrder (declarations providers) order) (type : NodeType) :
    (ownedLinks providers view type order).Pairwise fun outer inner =>
      ¬ WaitsFor (declarations providers) inner.1 outer.1 :=
  pairwise_ownedLinks_of (fun _ hwaits => hwaits.ne rfl) h.pairwise type

end Owned

/-- Wherever providers can be ordered, the chains hold every handler, each node type those of its
own, the last one outermost. No handler lies beneath one of a provider that its own provider waits
for, and where a renderer has the topic vocabulary, that lies innermost. -/
theorem chains_of_ordered (hordered : ordered providers = .ok inOrder) (view : OptionView) :
    ∃ r, build providers view = .ok r ∧
      (∀ type, r.linksAt type =
        ((linksOf view inOrder).filter fun link => link.handler.type = type).reverse) ∧
      (∀ type, r.chain? type = none ↔
        ∀ p ∈ providers, ∀ handler ∈ p.create view, handler.type ≠ type) ∧
      (∀ type, ∃ owned : List (Nat × Link), owned.map Prod.snd = r.linksAt type ∧
        (∀ i, (owned.filter fun e => e.1 = i).map Prod.snd =
          (linksFrom providers view type i).reverse) ∧
        owned.Pairwise fun outer inner => ¬ WaitsFor (declarations providers) inner.1 outer.1) ∧
      ∀ options added, providers = (Renderer.withProviders options added).providers →
        ∀ handler ∈ Topic.provider.create view,
          (r.linksAt handler.type).getLast? = some ⟨Topic.provider.kind, handler⟩ := by
  obtain ⟨r, hbuild⟩ : ∃ r, build providers view = .ok r := by
    rw [build, hordered]
    exact ⟨_, rfl⟩
  have hlinks := linksAt_of_build hordered hbuild
  obtain ⟨order, horder, hmap⟩ := ordered_eq_ok hordered
  have hvalid := (isOrder_of_resolveOrder horder).1
  refine ⟨r, hbuild, hlinks, chain?_build_eq_none_iff hordered hbuild, ?_, ?_⟩
  · intro type
    refine ⟨ownedLinks providers view type order, ?_, filter_ownedLinks hvalid type,
      pairwise_ownedLinks hvalid type⟩
    rw [map_snd_ownedLinks, hlinks, filter_linksOf hmap]
  · rintro options added rfl handler hhandler
    exact getLast?_linksAt hordered hbuild hhandler

/-- A provider that hands paragraphs on to what it builds on. -/
def decorator : Provider where
  kind := ⟨"decorator"⟩
  delegates := some [Topic.provider.kind]
  create _ := [⟨.paragraph, fun _ _ => Rendering.delegate⟩]

theorem ordered_decorator : ordered [Topic.provider, decorator] = .ok [Topic.provider, decorator] := by
  refine ordered_of_isOrder (isOrder_range fun i j hwaits => ?_)
  have hi := hwaits.left_lt
  have hj := hwaits.right_lt
  have hne := hwaits.ne
  rw [length_declarations, List.length_cons, List.length_singleton] at hi hj
  rcases Nat.eq_zero_or_pos i with rfl | hpos
  · obtain ⟨d, e, delegates, hd, -, hdelegates, -⟩ := hwaits
    cases hd
    cases hdelegates
  · omega

theorem chains_of_ordered_decorator :
    ordered (Renderer.withProviders KeyedList.empty [decorator]).providers =
        .ok [Topic.provider, decorator] ∧
      ∃ r, build (Renderer.withProviders KeyedList.empty [decorator]).providers
          (.ofSet KeyedList.empty) = .ok r ∧
        (r.linksAt .paragraph).map Link.provider = [decorator.kind, Topic.provider.kind] := by
  have hordered : ordered (Renderer.withProviders KeyedList.empty [decorator]).providers =
      .ok [Topic.provider, decorator] := ordered_decorator
  obtain ⟨r, hbuild, hlinks, -⟩ := chains_of_ordered hordered (.ofSet KeyedList.empty)
  refine ⟨hordered, r, hbuild, ?_⟩
  rw [hlinks]
  rfl

end Registry

end DitaTopic.Render
