import ContextFree.Proofs.Alternatives
import ContextFree.Proofs.Expansion
import ContextFree.Proofs.Renaming.NormalForm

/-! The trees of a renamed grammar. From one chart the same trees are rebuilt in the same order,
with other names at their nodes. -/
namespace ContextFree

namespace SyntaxTree
variable {κ κ' ι ι' : Type}

theorem mapKeys_node (f : κ → κ') (k : κ) (ts : List (SyntaxTree κ ι)) :
    (node k ts).mapKeys f = node (f k) (ts.map (mapKeys f)) :=
  map_node f id k ts

/-- With keys that are kept apart, different trees stay different. -/
theorem mapKeys_injective {f : κ → κ'} (hf : Function.Injective f) :
    Function.Injective (mapKeys f : SyntaxTree κ ι → SyntaxTree κ' ι) :=
  map_injective hf Function.injective_id

end SyntaxTree

variable {f : String → String}

theorem EmptyTree.place_mapKeys (p : Nat) (t : EmptyTree) :
    EmptyTree.place p (t.mapKeys f) = (EmptyTree.place p t).mapKeys f := by
  rw [place, place, SyntaxTree.mapLeaves, SyntaxTree.mapLeaves, SyntaxTree.mapKeys,
    SyntaxTree.mapKeys, SyntaxTree.map_comp, SyntaxTree.map_comp]
  rfl

section EmptyTrees
variable (hf : Function.Injective f) (g : Grammar)
include hf

theorem Grammar.proofFirst_rename (e : NumberedProduction) :
    (g.rename f).proofFirst (e.rename f) = (g.proofFirst e).map (Production.rename f) := by
  have hfilter : (g.rename f).numbered.filter (fun e' =>
      e'.production.lhs == (e.rename f).production.lhs && e'.number != (e.rename f).number) =
      (g.numbered.filter fun e' => e'.production.lhs == e.production.lhs &&
        e'.number != e.number).map (NumberedProduction.rename f) := by
    rw [numbered_rename, List.filter_map]
    congr 1
    refine List.filter_congr fun e' _ => ?_
    have hlhs : (f e'.production.lhs == f e.production.lhs) =
        (e'.production.lhs == e.production.lhs) := by
      rw [Bool.eq_iff_iff, beq_iff_eq, beq_iff_eq, hf.eq_iff]
    exact congrArg (· && e'.number != e.number) hlhs
  rw [proofFirst, proofFirst, hfilter, List.map_cons, List.map_map, List.map_map]
  rfl

theorem Grammar.emptyTreesBelow_rename (mode : Mode) (n : Nat) : ∀ (free : List String)
    (name : String), free.length = n →
    (g.rename f).emptyTreesBelow (g.rename f).emptyProofs mode (free.map f) (f name) =
      (g.emptyTreesBelow g.emptyProofs mode free name).map (SyntaxTree.mapKeys f) := by
  induction n using Nat.strongRecOn with
  | ind n ih =>
    intro free name hlen
    have hchoices (x : Symbol) : (g.rename f).emptyChoices mode (free.map f) (x.rename f) =
        (g.emptyChoices mode free x).map (SyntaxTree.mapKeys f) := by
      cases x with
      | term t =>
        rw [Symbol.rename, emptyChoices, emptyChoices]
        split <;> rfl
      | nonterm child =>
        rw [Symbol.rename, emptyChoices, emptyChoices]
        by_cases hc : child ∈ free
        · rw [if_pos hc, if_pos (List.mem_map_of_mem hc), ← List.map_erase hf]
          exact ih _ (hlen ▸ length_erase_lt hc) _ child rfl
        · rw [if_neg hc, if_neg (by rwa [List.mem_map_of_injective hf]), List.map_nil]
    have hproof : (g.rename f).emptyProofs.proof? (f name) =
        (g.emptyProofs.proof? name).map (NumberedProduction.rename f) :=
      (g.renames_emptyProofs hf).get?_eq name
    rw [emptyTreesBelow_eq, emptyTreesBelow_eq, hproof]
    cases g.emptyProofs.proof? name with
    | none => rfl
    | some e =>
      have hproductions : (if mode = .first then [(e.rename f).production]
          else (g.rename f).proofFirst (e.rename f)) =
          (if mode = .first then [e.production] else g.proofFirst e).map (Production.rename f) := by
        rw [proofFirst_rename hf]
        split <;> rfl
      simp only [Option.map_some, hproductions]
      rw [← distinct_map (SyntaxTree.mapKeys_injective hf), List.flatMap_map, List.map_flatMap]
      congr 1
      refine List.flatMap_congr fun p _ => ?_
      have hpicks : picks ((p.rename f).rhs.map ((g.rename f).emptyChoices mode (free.map f))) =
          (picks (p.rhs.map (g.emptyChoices mode free))).map (List.map (SyntaxTree.mapKeys f)) := by
        rw [← picks_map, Production.rename, List.map_map, List.map_map]
        exact congrArg picks (List.map_congr_left fun x _ => hchoices x)
      rw [hpicks, List.map_map, List.map_map]
      exact List.map_congr_left fun ts _ => (SyntaxTree.mapKeys_node f name ts).symm

theorem Grammar.emptyTrees_rename (mode : Mode) (name : String) :
    (g.rename f).emptyTrees (g.rename f).emptyProofs mode (f name) =
      (g.emptyTrees g.emptyProofs mode name).map (SyntaxTree.mapKeys f) := by
  have hnames : (g.rename f).emptyProofs.toList.map (·.production.lhs) =
      (g.emptyProofs.toList.map (·.production.lhs)).map f :=
    (g.renames_emptyProofs hf).keys_eq
  rw [emptyTrees, emptyTrees, hnames, ← List.map_erase hf]
  exact emptyTreesBelow_rename hf g mode _ _ name rfl

end EmptyTrees

def Part.rename (f : String → String) (p : Part) : Part := ⟨p.tree.mapKeys f, p.stop⟩

theorem distinctParts_rename (hf : Function.Injective f) (l : List Parts) :
    distinctParts (l.map (List.map (Part.rename f))) =
      (distinctParts l).map (List.map (Part.rename f)) := by
  have hinj : Function.Injective (Prod.map (List.map (SyntaxTree.mapKeys f))
      (id : List Nat → List Nat) : List ParseTree × List Nat → List ParseTree × List Nat) :=
    (List.map_injective_iff.2 (SyntaxTree.mapKeys_injective hf)).prodMap Function.injective_id
  have hkey (ps : Parts) : ((ps.map (Part.rename f)).map (·.tree),
      (ps.map (Part.rename f)).map (·.stop)) =
      Prod.map (List.map (SyntaxTree.mapKeys f)) id (ps.map (·.tree), ps.map (·.stop)) := by
    rw [List.map_map, List.map_map, Prod.map_apply, List.map_map]
    rfl
  rw [distinctParts_eq, distinctParts_eq]
  refine (map_distinctBy _ _ _ fun ps _ qs _ => ?_).symm
  rw [hkey, hkey, hinj.eq_iff]

/-- Rules tell in other names where they come from, and so do routes and empty trees. -/
structure Rebuilding.Renames (f : String → String) (x x' : Rebuilding) : Prop where
  rules : ∀ n, x'.rules n = (x.rules n).map (Rule.retell f)
  routes : ∀ n, x'.routes n = (x.routes n).map (List.map (Variant.rename f))
  empties : ∀ name, x'.empties (f name) = (x.empties name).map (SyntaxTree.mapKeys f)

namespace Rebuilding.Renames
variable {x x' : Rebuilding} (h : x.Renames f x')
include h

theorem emptiesAt_eq (p : Nat) (s : Symbol) :
    x'.emptiesAt p (s.rename f) = (x.emptiesAt p s).map (SyntaxTree.mapKeys f) := by
  cases s with
  | term t => rfl
  | nonterm name =>
    rw [Symbol.rename, emptiesAt, emptiesAt, h.empties, List.map_map, List.map_map]
    exact List.map_congr_left fun t _ => EmptyTree.place_mapKeys p t

theorem fillSlots_eq (slots : List Slot) (ps : Parts) (p : Nat) :
    x'.fillSlots (slots.map (Slot.rename f)) (ps.map (Part.rename f)) p =
      (x.fillSlots slots ps p).map (List.map (SyntaxTree.mapKeys f)) := by
  induction slots, ps, p using fillSlots.induct with
  | case1 ps p => rw [List.map_nil, fillSlots, fillSlots, List.map_nil]
  | case2 ps p s slots ih =>
    rw [List.map_cons, Slot.rename, fillSlots, fillSlots, ih, h.emptiesAt_eq, List.map_cons]
  | case3 p s slots part ps ih =>
    rw [List.map_cons, List.map_cons, Slot.rename, fillSlots, fillSlots, List.map_cons]
    exact congrArg _ ih
  | case4 p s slots ih =>
    rw [List.map_cons, Slot.rename, List.map_nil, fillSlots, fillSlots, List.map_cons]
    exact congrArg _ ih

theorem expand_eq (v : Variant) (ps : Parts) (start : Nat) :
    x'.expand (v.rename f) (ps.map (Part.rename f)) start =
      (x.expand v ps start).map (SyntaxTree.mapKeys f) := by
  obtain ⟨number, label, slots⟩ := v
  cases label with
  | none =>
    cases ps with
    | nil => rfl
    | cons p ps => rfl
  | some name =>
    simp only [expand, Variant.rename, Option.map_some]
    rw [h.fillSlots_eq, picks_map, List.map_map, List.map_map]
    exact List.map_congr_left fun ts _ => (SyntaxTree.mapKeys_node f name ts).symm

theorem wrapUnits_eq (start stop : Nat) (route : Route) (t : ParseTree) :
    x'.wrapUnits start stop (route.map (Variant.rename f)) (t.mapKeys f) =
      (x.wrapUnits start stop route t).map (SyntaxTree.mapKeys f) := by
  induction route with
  | nil => rfl
  | cons u route ih =>
    rw [List.map_cons, wrapUnits, wrapUnits, ih, List.flatMap_map, List.map_flatMap]
    exact List.flatMap_congr fun t' _ => h.expand_eq u [⟨t', stop⟩] start

theorem produce_eq (rule : Nat) (ps : Parts) (start : Nat) :
    x'.produce rule (ps.map (Part.rename f)) start =
      (x.produce rule ps start).map (List.map (Part.rename f)) := by
  rw [produce, produce, h.rules]
  cases x.rules rule with
  | none => rfl
  | some r =>
    obtain ⟨lhs, body, origin⟩ := r
    cases origin with
    | tail | wrap => rfl
    | derived units v =>
      have hstop : ((ps.map (Part.rename f)).getLast?.map (·.stop)).getD start =
          (ps.getLast?.map (·.stop)).getD start := by
        rw [List.getLast?_map, Option.map_map]
        rfl
      simp only [Option.map_some, Rule.retell, Origin.rename]
      rw [hstop, h.routes, h.expand_eq, List.flatMap_map, List.map_flatMap]
      refine List.flatMap_congr fun route _ => ?_
      rw [List.flatMap_map, List.map_flatMap]
      refine List.flatMap_congr fun t _ => ?_
      rw [h.wrapUnits_eq, List.map_map, List.map_map]
      rfl

theorem followBack_eq (c : Chart) {shorter shorter' : Nat → Nat → Nat → List Parts}
    (hs : ∀ i l a, shorter' i l a = (shorter i l a).map (List.map (Part.rename f)))
    (i l : Nat) (b : Back) :
    x'.followBack c shorter' i l b =
      (x.followBack c shorter i l b).map (List.map (Part.rename f)) := by
  cases b with
  | term rule => exact h.produce_eq rule [⟨.leaf (c.span i l), (c.span i l).stop⟩] _
  | split rule k =>
    rw [followBack, followBack, h.rules]
    cases x.rules rule with
    | none => rfl
    | some r =>
      obtain ⟨lhs, body, origin⟩ := r
      cases body with
      | term t => rfl
      | pair b d =>
        simp only [Option.map_some, Rule.retell, hs]
        rw [List.flatMap_map, List.map_flatMap]
        refine List.flatMap_congr fun left _ => ?_
        rw [List.flatMap_map, List.map_flatMap]
        refine List.flatMap_congr fun right _ => ?_
        rw [← List.map_append]
        exact h.produce_eq rule (left ++ right) _

/-- Rows are filled side by side; each looks at the rows before it. -/
theorem partsOf_partsRows (hf : Function.Injective f) (c : Chart) (l : Nat) : ∀ i k a : Nat,
    partsOf (c.partsRows x' l) i k a =
      (partsOf (c.partsRows x l) i k a).map (List.map (Part.rename f)) := by
  induction l with
  | zero =>
    intro i k a
    simp [Chart.partsRows, partsOf]
  | succ l ih =>
    intro i k a
    rw [Chart.partsOf_succ, Chart.partsOf_succ]
    split
    · split
      · rw [← distinctParts_rename hf, List.map_flatMap]
        congr 1
        exact List.flatMap_congr fun b _ => h.followBack_eq c ih i (l + 1) b
      · rfl
    · exact ih i k a

theorem alternatives_eq (hf : Function.Injective f) (c : Chart) (i l a : Nat) :
    c.alternatives x' i l a = (c.alternatives x i l a).map (List.map (Part.rename f)) :=
  h.partsOf_partsRows hf c l i l a

end Rebuilding.Renames

section Trees
variable (hf : Function.Injective f) (g : Grammar)
include hf

/-- Other routes are those with other numbers, and a renaming leaves the numbers. -/
theorem Grammar.routes_rename (mode : Mode) (r : NumberedRule) :
    (g.rename f).analysis.routes mode (r.retell f) =
      (g.analysis.routes mode r).map (List.map (Variant.rename f)) := by
  obtain ⟨lhs, body, origin⟩ := r
  cases origin with
  | tail | wrap => rfl
  | derived units v =>
    have hsource : (((units.map (Variant.rename f)).head?.map (·.head)).getD (v.rename f).head) =
        ((units.head?.map (·.head)).getD v.head).rename f := by
      cases units with
      | nil => exact v.head_rename
      | cons u units => exact u.head_rename
    have hnumbers (route : Route) : (route.map (Variant.rename f)).map (·.number) =
        route.map (·.number) := by
      rw [List.map_map]
      rfl
    have hroutes : unitRoutes (g.rename f).analysis.edges.get (g.rename f).analysis.heads
        (((units.map (Variant.rename f)).head?.map (·.head)).getD (v.rename f).head)
        (v.rename f).head =
        (unitRoutes g.analysis.edges.get g.analysis.heads
          ((units.head?.map (·.head)).getD v.head) v.head).map (List.map (Variant.rename f)) := by
      change unitRoutes (unitEdges (g.rename f).ownVariants).get (g.rename f).heads _ _ =
        (unitRoutes (unitEdges g.ownVariants).get g.heads _ _).map _
      rw [ownVariants_rename hf, heads_rename hf, hsource, Variant.head_rename,
        unitRoutes_rename hf (edgesRename_unitEdges hf _)]
    simp only [Analysis.routes, Rule.retell, Origin.rename, hroutes, List.filter_map,
      Function.comp_def, hnumbers]
    split <;> rfl

theorem renames_rebuilding (mode : Mode) :
    (g.rebuilding mode).Renames f ((g.rename f).rebuilding mode) := by
  have hrules (n : Nat) : (g.rename f).normalForm.rules[n]? =
      (g.normalForm.rules[n]?).map (Rule.retell f) := by
    rw [Grammar.normalForm_rename hf, NormalForm.rename, List.getElem?_map]
  refine ⟨fun n => ?_, fun n => ?_, fun name => ?_⟩
  · rw [rules_rebuilding, rules_rebuilding, hrules]
  · have hroutes (g : Grammar) : (g.rebuilding mode).routes n =
        (g.normalForm.rules[n]?.map (g.analysis.routes mode)).getD [] := by
      cases hr : g.normalForm.rules[n]? with
      | none => simp [Grammar.rebuilding, Grammar.Analysis.rebuilding, hr]
      | some r => exact routes_rebuilding hr
    rw [hroutes, hroutes, hrules]
    cases g.normalForm.rules[n]? with
    | none => rfl
    | some r => exact Grammar.routes_rename hf g mode r
  · rw [empties_rebuilding, empties_rebuilding, Grammar.emptyTrees_rename hf]

/-- From one chart the same trees are rebuilt, up to names. -/
theorem trees_rename (c : Chart) :
    c.trees (g.rename f).analysis (g.rename f).normalForm =
      (c.trees g.analysis g.normalForm).map (SyntaxTree.mapKeys f) := by
  have h := renames_rebuilding hf g c.mode
  have hempty : (g.rename f).normalForm.acceptsEmpty = g.normalForm.acceptsEmpty := by
    rw [Grammar.normalForm_rename hf]
    rfl
  rw [Chart.trees, Chart.trees, hempty]
  split
  · split
    · exact h.emptiesAt_eq 0 (.nonterm g.start)
    · rfl
  · change ((c.alternatives ((g.rename f).rebuilding c.mode) _ _ _).filterMap _) =
      ((c.alternatives (g.rebuilding c.mode) _ _ _).filterMap _).map _
    rw [h.alternatives_eq hf, List.filterMap_map, List.map_filterMap]
    refine List.filterMap_congr fun ps _ => ?_
    cases ps <;> rfl

end Trees
end ContextFree
