import ContextFree.Proofs.Numbering
import ContextFree.Proofs.Spine

/-! Expansion. What a rule makes of parts for its right-hand side are parts for its left-hand side,
and all parts for a list of symbols that a non-terminal stands for are made so by some rule. -/
namespace ContextFree

/-- What it takes to rebuild the trees of a grammar. -/
def Grammar.rebuilding (g : Grammar) (mode : Mode) : Rebuilding :=
  g.analysis.rebuilding g.normalForm mode

section Rebuilding
variable {g : Grammar} {mode : Mode}

theorem rules_rebuilding (n : Nat) : (g.rebuilding mode).rules n = g.normalForm.rules[n]? := by
  simp [Grammar.rebuilding, Grammar.Analysis.rebuilding]

theorem routes_rebuilding {n : Nat} {r : NumberedRule} (h : g.normalForm.rules[n]? = some r) :
    (g.rebuilding mode).routes n = g.analysis.routes mode r := by
  simp [Grammar.rebuilding, Grammar.Analysis.rebuilding, h, Thunk.get]

/-- What is not nilable has no empty trees. -/
theorem Grammar.emptyTrees_of_not_nilable {name : String}
    (h : ¬ g.emptyProofs.nilable (.nonterm name) = true) :
    g.emptyTrees g.emptyProofs mode name = [] := by
  rw [emptyTrees, emptyTreesBelow_eq, EmptyProofs.proof?_eq_none.2 h]

theorem empties_rebuilding (name : String) : (g.rebuilding mode).empties name =
    g.emptyTrees g.emptyProofs mode name := by
  simp only [Grammar.rebuilding, Grammar.Analysis.rebuilding, Register.get?_eq,
    Register.toList_ofList]
  cases hf : (distinctBy Prod.fst (g.analysis.proofs.toList.map fun e => (e.production.lhs,
      Thunk.mk fun _ => g.analysis.grammar.emptyTrees g.analysis.proofs mode
        e.production.lhs))).find? (·.1 == name) with
  | none =>
    refine (Grammar.emptyTrees_of_not_nilable fun h => ?_).symm
    rw [EmptyProofs.nilable, Register.has_iff] at h
    have hmem : name ∈ (distinctBy Prod.fst (g.analysis.proofs.toList.map fun e =>
        (e.production.lhs, Thunk.mk fun _ => g.analysis.grammar.emptyTrees g.analysis.proofs mode
          e.production.lhs))).map Prod.fst := by
      rw [mem_map_distinctBy, List.map_map]
      exact h
    obtain ⟨e, he, hname⟩ := List.mem_map.1 hmem
    have := List.find?_eq_none.1 hf e he
    simp [hname] at this
  | some e =>
    have hmem := (distinctBy_sublist _ _).subset (List.mem_of_find?_eq_some hf)
    obtain ⟨f, -, rfl⟩ := List.mem_map.1 hmem
    have hname : f.production.lhs = name := by simpa using List.find?_some hf
    simp only [Option.map_some, Option.getD_some, hname]
    rfl

theorem hasEmpties_rebuilding (g : Grammar) : (g.rebuilding .exhaustive).HasEmpties g :=
  empties_rebuilding

end Rebuilding

section Produce
variable {x : Rebuilding} {n : Nat} {r : NumberedRule} {qs ps : Parts} {a : Nat}

theorem produce_plain (hr : x.rules n = some r) (ho : ∀ units v, r.origin ≠ .derived units v) :
    x.produce n qs a = [qs] := by
  rw [Rebuilding.produce, hr, Option.map_some]
  cases h : r.origin with
  | derived units v => exact (ho units v h).elim
  | tail | wrap => rfl

theorem mem_produce_derived {units : Route} {v : Variant} (hr : x.rules n = some r)
    (ho : r.origin = .derived units v) : ps ∈ x.produce n qs a ↔
      ∃ route ∈ x.routes n, ∃ t' ∈ x.expand v qs a, ∃ t,
        t ∈ x.wrapUnits a ((qs.getLast?.map (·.stop)).getD a) route t' ∧
        ps = [⟨t, (qs.getLast?.map (·.stop)).getD a⟩] := by
  simp only [Rebuilding.produce, hr, Option.map_some, ho, List.mem_flatMap, List.mem_map, eq_comm]

end Produce

section Rules
variable {g : Grammar} {w : String}

/-- The routes that are rebuilt for a derived rule are all simple ones. -/
theorem mem_routes {r : NumberedRule} {n : Nonterm} {units : Route} {v : Variant}
    (ho : r.origin = .derived units v) (hunits : SimpleRoute g.ownVariants n units v.head)
    {route : Route} : route ∈ g.analysis.routes .exhaustive r ↔
      SimpleRoute g.ownVariants n route v.head := by
  have hfrom : (units.head?.map (·.head)).getD v.head = n := by
    obtain ⟨stops, h, -⟩ := hunits
    exact h.head_eq
  have hroutes (route : Route) : route ∈ unitRoutes g.analysis.edges.get g.analysis.heads n v.head ↔
      SimpleRoute g.ownVariants n route v.head :=
    mem_unitRoutes (Grammar.nodup_heads g) (unitTarget_mem_heads g)
  simp only [Grammar.Analysis.routes, ho, hfrom, if_true, List.mem_cons, List.mem_filter,
    hroutes, decide_eq_true_eq]
  constructor
  · rintro (rfl | ⟨h, -⟩)
    · exact hunits
    · exact h
  · intro h
    by_cases hnumbers : route.map (·.number) = units.map (·.number)
    · left
      obtain ⟨stops, hr, -⟩ := h
      obtain ⟨stops', hu, -⟩ := hunits
      exact Grammar.route_eq_of_numbers (fun _ => hr.mem_of_mem_route)
        (fun _ => hu.mem_of_mem_route) hnumbers
    · exact .inr ⟨h, hnumbers⟩

/-- In both modes the routes that are rebuilt are simple ones. -/
theorem simpleRoute_of_mem_routes {mode : Mode} {r : NumberedRule} {n : Nonterm} {units : Route}
    {v : Variant} (ho : r.origin = .derived units v)
    (hunits : SimpleRoute g.ownVariants n units v.head) {route : Route}
    (h : route ∈ g.analysis.routes mode r) : SimpleRoute g.ownVariants n route v.head := by
  cases mode with
  | exhaustive => exact (mem_routes ho hunits).1 h
  | first =>
    obtain rfl : route = units := by simpa [Grammar.Analysis.routes, ho] using h
    exact hunits

theorem spine_nil_iff [Pattern.Engine] {x : Rebuilding} {n : Nonterm} {a b : Nat} {t : ParseTree}
    {route : Route} {v : Variant} {ps : Parts} : Spine g w x [] n a b t route v ps ↔
      SimpleRoute g.ownVariants n route v.head ∧ v ∈ g.ownVariants ∧ v.unitTarget? = none ∧
      PartsDerive g w [] v.kept a b ps ∧
      ∃ t' ∈ x.expand v ps a, t ∈ x.wrapUnits a b route t' := by
  have hsimple (stops : List Nonterm) :
      (stops.Nodup ∧ ∀ c ∈ stops, c ∉ [n]) ↔ (n :: stops).Nodup := by
    rw [List.nodup_cons]
    constructor
    · rintro ⟨h, hn⟩
      exact ⟨fun hm => hn n hm (.head _), h⟩
    · rintro ⟨hn, h⟩
      exact ⟨h, fun c hc he => hn (List.mem_singleton.1 he ▸ hc)⟩
  constructor
  · rintro ⟨⟨stops, htravel, h⟩, hv, hbody, hps, hnodes⟩
    exact ⟨⟨stops, htravel, (hsimple stops).1 h⟩, hv, hbody, hps, hnodes⟩
  · rintro ⟨⟨stops, htravel, h⟩, hv, hbody, hps, hnodes⟩
    exact ⟨⟨stops, htravel, (hsimple stops).2 h⟩, hv, hbody, hps, hnodes⟩

theorem stands_lhs {r : NamedRule} (hr : r ∈ g.analysis.rules) : ∃ xs, Stands g r.lhs xs := by
  cases comes_of_mem_rules hr with
  | supports h =>
    obtain ⟨zs, h, -⟩ := h.expands
    exact ⟨zs, h⟩
  | derived _ hhead _ _ _ _ =>
    obtain ⟨name, -, h⟩ := stands_head hhead
    exact ⟨_, h⟩

theorem exists_bodyStands {r : NamedRule} (hr : r ∈ g.analysis.rules) :
    ∃ zs, BodyStands g r.body zs := by
  cases comes_of_mem_rules hr with
  | supports h =>
    obtain ⟨zs, -, h⟩ := h.expands
    exact ⟨zs, h⟩
  | derived _ _ _ _ _ hstands => exact ⟨_, hstands⟩

variable [Pattern.Engine]

/-- What a rule makes of parts for its right-hand side are parts for its left-hand side. -/
theorem produce_sound (hg : g.Coherent) {r : NamedRule} (hr : r ∈ g.analysis.rules)
    {xs zs : List Symbol} (hxs : Stands g r.lhs xs) (hzs : BodyStands g r.body zs) {k : Nat}
    {f : Nonterm → Nat} {f' : Terminal.Key → Nat}
    (hk : g.normalForm.rules[k]? = some (r.map f f')) {a b : Nat} (hab : a < b) {qs ps : Parts}
    (hqs : PartsDerive g w [] zs a b qs)
    (hps : ps ∈ (g.rebuilding .exhaustive).produce k qs a) :
    PartsDerive g w [] xs a b ps := by
  have hx := hasEmpties_rebuilding g
  have hrule : (g.rebuilding .exhaustive).rules k = some (r.map f f') :=
    (rules_rebuilding k).trans hk
  cases comes_of_mem_rules hr with
  | supports h =>
    obtain ⟨us, hlhs, hbody⟩ := h.expands
    obtain rfl := hxs.unique hg hlhs
    obtain rfl := hzs.unique hg hbody
    rw [produce_plain hrule h.origin_ne] at hps
    exact List.mem_singleton.1 hps ▸ hqs
  | derived ho hhead hroute hv hunit hstands =>
    obtain ⟨name, hname, hlhs⟩ := stands_head hhead
    obtain rfl := hxs.unique hg hlhs
    obtain rfl := hzs.unique hg hstands
    obtain ⟨route, hroutes, t', ht', t, ht, rfl⟩ := (mem_produce_derived hrule ho).1 hps
    rw [routes_rebuilding hk, mem_routes ho hroute] at hroutes
    rw [hqs.stop_eq] at ht ⊢
    refine .cons hab ((derivesAcyclic_iff_spine hx hab hname).2 ?_) .nil
    exact ⟨route, _, qs, spine_nil_iff.2 ⟨hroutes, hv, hunit, hqs, t', ht', ht⟩⟩

/-- All parts for symbols that a non-terminal stands for are made by some rule. -/
theorem exists_expansion (hg : g.Coherent) {n : Nonterm} {xs : List Symbol} (hxs : Stands g n xs)
    {a b : Nat} (hab : a < b) {ps : Parts} (hps : PartsDerive g w [] xs a b ps) :
    ∃ r ∈ g.analysis.rules, r.lhs = n ∧ ∃ zs qs, BodyStands g r.body zs ∧
      PartsDerive g w [] zs a b qs ∧ ∀ k (f : Nonterm → Nat) (f' : Terminal.Key → Nat),
        g.normalForm.rules[k]? = some (r.map f f') →
        ps ∈ (g.rebuilding .exhaustive).produce k qs a := by
  rcases exists_rule_of_stands hxs with hn | ⟨r, hr, rfl, hsup⟩
  · obtain ⟨name, hname, hlhs⟩ := stands_head hn
    obtain rfl := hxs.unique hg hlhs
    obtain ⟨t, rfl, -, ht⟩ := partsDerive_singleton.1 hps
    obtain ⟨route, v, qs, hspine⟩ := (derivesAcyclic_iff_spine
      (hasEmpties_rebuilding g) hab hname).1 ht
    obtain ⟨hroute, hv, hunit, hqs, t', ht', htt⟩ := spine_nil_iff.1 hspine
    obtain ⟨r, hr, rfl, units, ho⟩ := exists_derived_rule hn hv hunit hroute
    refine ⟨r, hr, rfl, ?_⟩
    cases comes_of_mem_rules hr with
    | supports h => exact (h.origin_ne units v ho).elim
    | derived ho' _ hunits _ _ hstands =>
      obtain ⟨rfl, rfl⟩ := Origin.derived.inj (ho.symm.trans ho')
      refine ⟨v.kept, qs, hstands, hqs, fun k f f' hk => ?_⟩
      refine (mem_produce_derived ((rules_rebuilding k).trans hk) ho).2
        ⟨route, ?_, t', ht', t, ?_, ?_⟩
      · rw [routes_rebuilding hk]
        exact (mem_routes ho hunits).2 hroute
      · rwa [hqs.stop_eq]
      · rw [hqs.stop_eq]
  · obtain ⟨zs, hlhs, hbody⟩ := hsup.expands
    obtain rfl := hxs.unique hg hlhs
    refine ⟨r, hr, rfl, xs, ps, hbody, hps, fun k f f' hk => ?_⟩
    rw [produce_plain ((rules_rebuilding k).trans hk) hsup.origin_ne]
    exact List.mem_singleton.2 rfl

end Rules
end ContextFree
