import ContextFree.Proofs.Collapsing
import ContextFree.Proofs.Contents
import ContextFree.Proofs.Precedence

/-! Shortest routes. The routes between two heads are listed in the order of their variants, and so
each of them once. Every derived rule remembers one of them, a shortest one, which the breadth-first
search found; it depends on nothing but the two ends. -/
namespace ContextFree

/-- The numbers of the variants on a route. -/
def Route.numbers (r : Route) : List Nat := r.map (·.number)

/-- The routes through an edge, if it leads to a free non-terminal. -/
def routesThrough (edges : Nonterm → List (Variant × Nonterm)) (free : List Nonterm) (b : Nonterm)
    (e : Variant × Nonterm) : List Route :=
  if e.2 ∈ free then (simpleRoutes edges (free.erase e.2) e.2 b).map (e.1 :: ·) else []

section Order
variable {edges : Nonterm → List (Variant × Nonterm)} {free : List Nonterm} {a b : Nonterm}

theorem simpleRoutes_of_ne (hab : a ≠ b) : simpleRoutes edges free a b =
    (edges a).flatMap (routesThrough edges free b) := by
  rw [simpleRoutes, if_neg hab]
  rfl

theorem exists_numbers_of_mem {e : Variant × Nonterm} {x : List Nat}
    (hx : x ∈ (routesThrough edges free b e).map Route.numbers) : ∃ y, x = e.1.number :: y := by
  rw [routesThrough] at hx
  split at hx
  · obtain ⟨r, hr, rfl⟩ := List.mem_map.1 hx
    obtain ⟨s, -, rfl⟩ := List.mem_map.1 hr
    exact ⟨_, rfl⟩
  · simp at hx

/-- Routes are in lexicographic order, if edges are in order. -/
theorem pairwise_simpleRoutes (hedges : ∀ a, (edges a).Pairwise fun e f => e.1.number < f.1.number)
    (b : Nonterm) (free : List Nonterm) (a : Nonterm) :
    ((simpleRoutes edges free a b).map Route.numbers).Pairwise (· < ·) := by
  induction free, a using simpleRoutes.induct b with
  | case1 free => simp [simpleRoutes]
  | case2 free a hab ih =>
    rw [simpleRoutes_of_ne hab, List.map_flatMap, List.pairwise_flatMap]
    constructor
    · rintro ⟨u, c⟩ -
      rw [routesThrough]
      split
      · rename_i hc
        rw [List.map_map, List.pairwise_map]
        refine (List.pairwise_map.1 (ih c hc)).imp fun hlt => ?_
        exact List.cons_lt_cons_iff.2 (.inr ⟨rfl, hlt⟩)
      · exact .nil
    · refine (hedges a).imp fun hlt x hx y hy => ?_
      obtain ⟨_, rfl⟩ := exists_numbers_of_mem hx
      obtain ⟨_, rfl⟩ := exists_numbers_of_mem hy
      exact List.cons_lt_cons_iff.2 (.inl hlt)

end Order

section Search
variable {edges : Nonterm → List (Variant × Nonterm)} {unseen : List Nonterm}
  {queue : List (Nonterm × Route)}

/-- Whether routes are queued by length, where the lengths are the same or next to each other. -/
def Levelled (queue : List (Nonterm × Route)) : Prop :=
  queue.Pairwise fun e f => e.2.length ≤ f.2.length ∧ f.2.length ≤ e.2.length + 1

/-- What is found next to the head of the queue is one step longer. -/
theorem Levelled.step {a : Nonterm} {route : Route} (h : Levelled ((a, route) :: queue))
    (found : List (Variant × Nonterm)) :
    Levelled (queue ++ found.map fun e => (e.2, route ++ [e.1])) := by
  obtain ⟨hhead, hqueue⟩ := List.pairwise_cons.1 h
  have hlength (f : Nonterm × Route) (hf : f ∈ found.map fun e => (e.2, route ++ [e.1])) :
      f.2.length = route.length + 1 := by
    obtain ⟨e, -, rfl⟩ := List.mem_map.1 hf
    simp
  refine List.pairwise_append.2 ⟨hqueue, ?_, fun e he f hf => ?_⟩
  · refine List.pairwise_of_forall_mem_list fun e he f hf => ?_
    rw [hlength e he, hlength f hf]
    omega
  · have hle := hhead e he
    rw [hlength f hf]
    simp only at hle
    omega

/-- No route is shorter than all that were queued. -/
theorem le_length_of_mem_breadthFirst {d : Nat} (unseen : List Nonterm)
    (queue : List (Nonterm × Route)) (hd : ∀ e ∈ queue, d ≤ e.2.length) :
    ∀ e ∈ breadthFirst edges unseen queue, d ≤ e.2.length := by
  induction unseen, queue using breadthFirst.induct edges with
  | case1 unseen => simp [breadthFirst]
  | case2 unseen a route queue found ih =>
    obtain ⟨hroute, hqueue⟩ := List.forall_mem_cons.1 hd
    rw [breadthFirst]
    refine List.forall_mem_cons.2 ⟨hroute, ih fun e he => ?_⟩
    rcases List.mem_append.1 he with he | he
    · exact hqueue e he
    · obtain ⟨f, -, rfl⟩ := List.mem_map.1 he
      simp only [List.length_append] at hroute ⊢
      omega

end Search

variable {vs : List Variant}

/-- Where an edge leads to something unseen, the search gets there by one step at most more. What
an edge leads to was discovered from the head of the queue, which has the shortest route, or is
still unseen after that. -/
theorem exists_next (unseen : List Nonterm) (queue : List (Nonterm × Route)) (hn : unseen.Nodup)
    (hlevel : Levelled queue) :
    ∀ e ∈ breadthFirst (unitEdges vs).get unseen queue, ∀ f ∈ (unitEdges vs).get e.1,
      f.2 ∈ unseen → ∃ route, (f.2, route) ∈ breadthFirst (unitEdges vs).get unseen queue ∧
        route.length ≤ e.2.length + 1 := by
  induction unseen, queue using breadthFirst.induct (unitEdges vs).get with
  | case1 unseen => simp [breadthFirst]
  | case2 unseen a route queue found ih =>
    have hdiscovers := discovers ((unitEdges vs).get a) hn
    have ih := ih hdiscovers.nodup (hlevel.step found.1)
    have hqueue : ∀ e ∈ (a, route) :: queue, route.length ≤ e.2.length :=
      List.forall_mem_cons.2 ⟨le_rfl, fun e he => ((List.pairwise_cons.1 hlevel).1 e he).1⟩
    intro e he f hf hunseen
    have hle := le_length_of_mem_breadthFirst unseen _ hqueue e he
    rw [breadthFirst] at he ⊢
    by_cases hlater : f.2 ∈ found.2
    · rcases List.mem_cons.1 he with rfl | he
      · exact (hdiscovers.gone f hf hlater).elim
      · obtain ⟨route', hmem, hlen⟩ := ih e he f hf hlater
        exact ⟨route', .tail _ hmem, hlen⟩
    · obtain ⟨u, hu, hfu⟩ := hdiscovers.exists_found hunseen hlater
      refine ⟨route ++ [u.1], .tail _ (mem_breadthFirst _ _ _ ?_), ?_⟩
      · exact List.mem_append_right _ (List.mem_map.2 ⟨u, hu, hfu ▸ rfl⟩)
      · rw [List.length_append, List.length_singleton]
        omega

section Closure
variable {all : List Nonterm} (hall : all.Nodup)
  (hin : ∀ u ∈ vs, ∀ c, u.unitTarget? = some c → c ∈ all) {a b : Nonterm}
include hall hin

/-- From what the search found, a route leads to something that it found too, and not later. -/
theorem exists_mem_unitClosure {c : Nonterm} {r : Route} {stops : List Nonterm}
    (h : Travels vs c r stops b) : ∀ {route : Route},
      (c, route) ∈ unitClosure (unitEdges vs).get all a →
      ∃ route', (b, route') ∈ unitClosure (unitEdges vs).get all a ∧
        route'.length ≤ route.length + r.length := by
  induction h with
  | nil => exact fun hmem => ⟨_, hmem, Nat.le_refl _⟩
  | @cons c d b u r stops hu hh hd _ ih =>
    intro route hmem
    have hnext : ∃ route', (d, route') ∈ unitClosure (unitEdges vs).get all a ∧
        route'.length ≤ route.length + 1 := by
      by_cases hda : d = a
      · exact ⟨[], hda ▸ mem_breadthFirst _ _ _ (.head _), Nat.zero_le _⟩
      · exact exists_next _ _ (hall.erase a) (List.pairwise_singleton _ _) _ hmem (u, d)
          (mem_unitEdges.2 ⟨hu, hh, hd⟩) (hall.mem_erase_iff.2 ⟨hda, hin u hu d hd⟩)
    obtain ⟨route', hmem', hlen'⟩ := hnext
    obtain ⟨route'', hmem'', hlen''⟩ := ih hmem'
    refine ⟨route'', hmem'', ?_⟩
    rw [List.length_cons]
    omega

omit hin in
/-- The search finds one route to each non-terminal. -/
theorem unique_of_mem_unitClosure {route route' : Route}
    (h : (b, route) ∈ unitClosure (unitEdges vs).get all a)
    (h' : (b, route') ∈ unitClosure (unitEdges vs).get all a) : route = route' :=
  (Prod.mk.inj (List.inj_on_of_nodup_map (nodup_unitClosure _ hall a) h h' rfl)).2

/-- The routes that the search finds are shortest. -/
theorem length_le_of_travels {route r : Route} {stops : List Nonterm}
    (h : (b, route) ∈ unitClosure (unitEdges vs).get all a) (hr : Travels vs a r stops b) :
    route.length ≤ r.length := by
  have hstart : (a, []) ∈ unitClosure (unitEdges vs).get all a :=
    mem_breadthFirst _ _ _ (.head _)
  obtain ⟨route', h', hlen⟩ := exists_mem_unitClosure hall hin hr hstart
  rw [unique_of_mem_unitClosure hall h h']
  simpa using hlen

end Closure

namespace Grammar
variable {g : Grammar}

/-- The routes between two non-terminals. -/
def routesBetween (g : Grammar) (a b : Nonterm) : List Route :=
  unitRoutes g.analysis.edges.get g.analysis.heads a b

theorem mem_routesBetween {a b : Nonterm} {r : Route} :
    r ∈ g.routesBetween a b ↔ SimpleRoute g.analysis.variants a r b :=
  mem_unitRoutes g.nodup_heads (unitTarget_mem_heads g)

theorem pairwise_ownVariants (g : Grammar) :
    g.ownVariants.Pairwise fun u v => u.number < v.number := by
  rw [ownVariants, variants]
  exact List.pairwise_map.2 (pairwise_zipIdx _)

theorem pairwise_edges (g : Grammar) (a : Nonterm) :
    (g.analysis.edges.get a).Pairwise fun e f => e.1.number < f.1.number := by
  change ((unitEdges g.ownVariants).get a).Pairwise _
  rw [unitEdges, Index.get_ofList]
  refine List.pairwise_map.2 (List.Pairwise.filter _ ?_)
  refine g.pairwise_ownVariants.filterMap _ fun u v hlt e he f hf => ?_
  obtain ⟨c, -, rfl⟩ := Option.map_eq_some_iff.1 he
  obtain ⟨d, -, rfl⟩ := Option.map_eq_some_iff.1 hf
  exact hlt

theorem pairwise_routesBetween (g : Grammar) (a b : Nonterm) :
    ((g.routesBetween a b).map Route.numbers).Pairwise (· < ·) :=
  pairwise_simpleRoutes g.pairwise_edges b _ a

end Grammar

section Rules
variable {g : Grammar} {units : Route} {v : Variant}

theorem mem_unitClosure_of_mem_emissions {e : Emission} (he : e ∈ g.analysis.emissions) :
    (e.variant.head, e.units) ∈ unitClosure (unitEdges g.ownVariants).get g.heads e.head := by
  simp only [Grammar.Analysis.emissions, emissions, List.mem_flatMap, List.mem_map] at he
  obtain ⟨n, -, ⟨b, route⟩, hb, v, hv, rfl⟩ := he
  obtain ⟨-, rfl, -⟩ := mem_bodies.1 hv
  exact hb

/-- A derived rule has the route that the search found. -/
theorem mem_unitClosure_of_derived {r : NamedRule} (hr : r ∈ g.analysis.rules)
    (horigin : r.origin = .derived units v) :
    (v.head, units) ∈ unitClosure (unitEdges g.ownVariants).get g.heads r.lhs := by
  rw [Grammar.Analysis.rules, Register.toList_ofList] at hr
  obtain ⟨e, he, hr⟩ := List.mem_flatMap.1 ((distinctBy_sublist _ _).subset hr)
  rcases List.mem_append.1 hr with hr | hr
  · exact ((supports_of_mem_support (emitted_of_mem he).mem hr).origin_ne units v horigin).elim
  · obtain ⟨b, -, rfl⟩ := Option.map_eq_some_iff.1 (Option.mem_toList.1 hr)
    obtain ⟨rfl, rfl⟩ := Origin.derived.inj horigin
    exact mem_unitClosure_of_mem_emissions he

/-- The same by numbers: the left-hand side of a derived rule is the number of a head. -/
theorem exists_head_of_derived {r : NumberedRule} (hr : r ∈ g.normalForm.rules)
    (horigin : r.origin = .derived units v) : ∃ a ∈ g.heads, r.lhs = g.number a ∧
      (v.head, units) ∈ unitClosure (unitEdges g.ownVariants).get g.heads a := by
  obtain ⟨named, hnamed, rfl⟩ := exists_rule_of_mem hr
  cases comes_of_mem_rules hnamed with
  | supports hsup => exact (hsup.origin_ne units v horigin).elim
  | derived _ hhead _ _ _ _ =>
    exact ⟨named.lhs, hhead, rfl, mem_unitClosure_of_derived hnamed horigin⟩

/-- What rules remember of the routes: one of them, which no walk through unit variants is shorter
than, and the same one wherever the ends are the same. -/
structure Remembers (g : Grammar) : Prop where
  shortest : ∀ r ∈ g.normalForm.rules, ∀ units v, r.origin = .derived units v →
    ∃ a ∈ g.heads, g.normalForm.nonterms[r.lhs]? = some a ∧ units ∈ g.routesBetween a v.head ∧
      ∀ route stops, Travels g.analysis.variants a route stops v.head →
        units.length ≤ route.length
  unique : ∀ r ∈ g.normalForm.rules, ∀ s ∈ g.normalForm.rules, ∀ units units' v v',
    r.origin = .derived units v → s.origin = .derived units' v' → r.lhs = s.lhs →
      v.head = v'.head → units = units'

theorem remembers (g : Grammar) : Remembers g where
  shortest r hr units v horigin := by
    obtain ⟨a, ha, hlhs, hfound⟩ := exists_head_of_derived hr horigin
    obtain ⟨_, -, hstands⟩ := stands_head ha
    refine ⟨a, ha, hlhs ▸ hstands.getElem?_number, Grammar.mem_routesBetween.2 ?_, ?_⟩
    · exact (unitClosure_spec g.nodup_heads (unitTarget_mem_heads g) a).1 _ hfound
    · exact fun route stops => length_le_of_travels g.nodup_heads (unitTarget_mem_heads g) hfound
  unique r hr s hs units units' v v' hr' hs' hlhs hhead := by
    obtain ⟨a, ha, hra, hfound⟩ := exists_head_of_derived hr hr'
    obtain ⟨b, hb, hsb, hfound'⟩ := exists_head_of_derived hs hs'
    obtain ⟨_, -, hstands⟩ := stands_head ha
    obtain ⟨_, -, hstands'⟩ := stands_head hb
    obtain rfl : a = b := hstands.number_inj hstands' (hra.symm.trans (hlhs.trans hsb))
    exact unique_of_mem_unitClosure g.nodup_heads (hhead ▸ hfound) hfound'

/-- The routes between two non-terminals are the chains of unit variants that meet none twice, each
listed once and in the order of the variants. Derived rules remember shortest ones. -/
theorem routesBetween_exact (g : Grammar) :
    (∀ a b, (∀ r, r ∈ g.routesBetween a b ↔ SimpleRoute g.analysis.variants a r b) ∧
      ((g.routesBetween a b).map Route.numbers).Pairwise (· < ·)) ∧ Remembers g :=
  ⟨fun a b => ⟨fun _ => Grammar.mem_routesBetween, g.pairwise_routesBetween a b⟩, remembers g⟩

end Rules
end ContextFree
