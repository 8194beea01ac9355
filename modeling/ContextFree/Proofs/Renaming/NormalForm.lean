import ContextFree.Chart
import ContextFree.Proofs.Numbering
import ContextFree.Proofs.Renaming.Variants

/-! The normal form of a renamed grammar. The search through unit variants takes the same steps, so
the rules are the same in the same order, and the numbers of all non-terminals and terminals. Only
where a rule comes from is told in other names; and as charts go by number, they are the same. -/
namespace ContextFree

variable (f : String → String)

def Origin.rename : Origin → Origin
  | derived units variant => derived (units.map (Variant.rename f)) (variant.rename f)
  | tail => tail
  | wrap => wrap

/-- A rule with other names where it comes from. -/
def Rule.retell {ν τ : Type} (r : Rule ν τ) : Rule ν τ := { r with origin := r.origin.rename f }

/-- A rule over non-terminals with other names. -/
def NamedRule.rename (r : NamedRule) : NamedRule := (r.map (Nonterm.rename f) id).retell f

def Emission.rename (e : Emission) : Emission :=
  ⟨e.head.rename f, e.units.map (Variant.rename f), e.variant.rename f⟩

def NormalForm.rename (nf : NormalForm) : NormalForm where
  nonterms := nf.nonterms.map (Nonterm.rename f)
  terms := nf.terms
  rules := nf.rules.map (Rule.retell f)
  acceptsEmpty := nf.acceptsEmpty

variable {f} (hf : Function.Injective f)

section Routes
variable {edges edges' : Nonterm → List (Variant × Nonterm)}

/-- A unit variant and what it leads to, under other names. -/
def renameEdge (f : String → String) (e : Variant × Nonterm) : Variant × Nonterm :=
  (e.1.rename f, e.2.rename f)

/-- What was reached and the route to it, under other names. -/
def renameReached (f : String → String) (e : Nonterm × Route) : Nonterm × Route :=
  (e.1.rename f, e.2.map (Variant.rename f))

/-- Edges between non-terminals under other names. -/
def EdgesRename (f : String → String) (edges edges' : Nonterm → List (Variant × Nonterm)) : Prop :=
  ∀ n : Nonterm, edges' (n.rename f) = (edges n).map (renameEdge f)

include hf

theorem edgesRename_unitEdges (vs : List Variant) :
    EdgesRename f (unitEdges vs).get (unitEdges (vs.map (Variant.rename f))).get := by
  intro n
  have hedges : (vs.map (Variant.rename f)).filterMap
      (fun v => v.unitTarget?.map fun b => (v.head, v, b)) =
      (vs.filterMap fun v => v.unitTarget?.map fun b => (v.head, v, b)).map
        (Prod.map (Nonterm.rename f) (renameEdge f)) := by
    rw [List.filterMap_map, List.map_filterMap]
    refine List.filterMap_congr fun v _ => ?_
    rw [Function.comp_apply, Variant.unitTarget?_rename, Variant.head_rename, Option.map_map,
      Option.map_map]
    rfl
  rw [unitEdges, hedges, Index.get_ofList_map (Nonterm.rename_injective hf)]
  rfl

theorem bodies_rename (vs : List Variant) (n : Nonterm) :
    (bodies (vs.map (Variant.rename f))).get (n.rename f) =
      ((bodies vs).get n).map (Variant.rename f) := by
  have hunit (v : Variant) : (v.rename f).unitTarget?.isNone = v.unitTarget?.isNone := by
    rw [Variant.unitTarget?_rename, Option.isNone_map]
  have hbodies : ((vs.map (Variant.rename f)).filter (·.unitTarget?.isNone)).map
      (fun v => (v.head, v)) = ((vs.filter (·.unitTarget?.isNone)).map fun v => (v.head, v)).map
        (Prod.map (Nonterm.rename f) (Variant.rename f)) := by
    simp only [List.filter_map, List.map_map, Function.comp_def, hunit, Variant.head_rename,
      Prod.map_apply]
  rw [bodies, hbodies, Index.get_ofList_map (Nonterm.rename_injective hf)]
  rfl

theorem discover_rename (es : List (Variant × Nonterm)) (unseen : List Nonterm) :
    discover (es.map (renameEdge f)) (unseen.map (Nonterm.rename f)) =
      ((discover es unseen).1.map (renameEdge f),
        (discover es unseen).2.map (Nonterm.rename f)) := by
  have hinj := Nonterm.rename_injective hf
  induction es generalizing unseen with
  | nil => rfl
  | cons e es ih =>
    rw [List.map_cons, discover, discover, renameEdge]
    by_cases he : e.2 ∈ unseen
    · rw [if_pos he, if_pos (List.mem_map_of_mem he), ← List.map_erase hinj, ih]
      rfl
    · rw [if_neg he, if_neg (by rwa [List.mem_map_of_injective hinj]), ih]

/-- The search meets the same non-terminals in the same order, by the same routes. -/
theorem breadthFirst_rename (h : EdgesRename f edges edges') (unseen : List Nonterm)
    (queue : List (Nonterm × Route)) :
    breadthFirst edges' (unseen.map (Nonterm.rename f)) (queue.map (renameReached f)) =
      (breadthFirst edges unseen queue).map (renameReached f) := by
  induction unseen, queue using breadthFirst.induct edges with
  | case1 unseen => simp [breadthFirst]
  | case2 unseen a route queue found ih =>
    rw [List.map_cons, renameReached, breadthFirst, h, discover_rename hf, breadthFirst,
      List.map_cons, ← ih, List.map_append, List.map_map]
    simp [found, Function.comp_def, renameReached, renameEdge]

theorem unitClosure_rename (h : EdgesRename f edges edges') (all : List Nonterm) (n : Nonterm) :
    unitClosure edges' (all.map (Nonterm.rename f)) (n.rename f) =
      (unitClosure edges all n).map (renameReached f) := by
  rw [unitClosure, unitClosure, ← breadthFirst_rename hf h,
    List.map_erase (Nonterm.rename_injective hf)]
  rfl

theorem simpleRoutes_rename (h : EdgesRename f edges edges') (free : List Nonterm)
    (a b : Nonterm) :
    simpleRoutes edges' (free.map (Nonterm.rename f)) (a.rename f) (b.rename f) =
      (simpleRoutes edges free a b).map (List.map (Variant.rename f)) := by
  have hinj := Nonterm.rename_injective hf
  induction free, a using simpleRoutes.induct b with
  | case1 free =>
    rw [simpleRoutes, simpleRoutes, if_pos rfl, if_pos rfl]
    rfl
  | case2 free a hab ih =>
    rw [simpleRoutes, simpleRoutes, if_neg hab, if_neg fun he => hab (hinj he), h,
      List.flatMap_map, List.map_flatMap]
    refine List.flatMap_congr ?_
    rintro ⟨u, c⟩ -
    rw [renameEdge]
    dsimp only
    by_cases hc : c ∈ free
    · rw [dif_pos hc, dif_pos (List.mem_map_of_mem hc), ← List.map_erase hinj, ih c hc,
        List.map_map, List.map_map]
      rfl
    · rw [dif_neg hc, dif_neg (by rwa [List.mem_map_of_injective hinj]), List.map_nil]

theorem unitRoutes_rename (h : EdgesRename f edges edges') (all : List Nonterm) (a b : Nonterm) :
    unitRoutes edges' (all.map (Nonterm.rename f)) (a.rename f) (b.rename f) =
      (unitRoutes edges all a b).map (List.map (Variant.rename f)) := by
  rw [unitRoutes, unitRoutes, ← simpleRoutes_rename hf h,
    List.map_erase (Nonterm.rename_injective hf)]

end Routes

section Rules

theorem Nonterm.ofSymbol_rename (x : Symbol) : ofSymbol (x.rename f) = (ofSymbol x).rename f := by
  cases x <;> rfl

theorem filterMap_term?_rename (xs : List Symbol) :
    (xs.map (Symbol.rename f)).filterMap Symbol.term? = xs.filterMap Symbol.term? := by
  rw [List.filterMap_map]
  exact List.filterMap_congr fun x _ => x.term?_rename f

theorem wrapRules_rename (xs : List Symbol) :
    wrapRules (xs.map (Symbol.rename f)) = (wrapRules xs).map (NamedRule.rename f) := by
  rw [wrapRules, wrapRules, filterMap_term?_rename, List.map_map]
  rfl

theorem tailRules_rename (number k : Nat) (xs : List Symbol) :
    tailRules number k (xs.map (Symbol.rename f)) =
      (tailRules number k xs).map (NamedRule.rename f) := by
  induction k, xs using tailRules.induct with
  | case1 k x y z xs ih =>
    have hx := wrapRules_rename (f := f) [x]
    rw [List.map_cons, List.map_cons] at ih
    rw [List.map_cons, List.map_cons, List.map_cons, tailRules, tailRules, ih, List.map_append,
      List.map_cons, ← hx, Nonterm.ofSymbol_rename]
    rfl
  | case2 k x y =>
    have hxy := wrapRules_rename (f := f) [x, y]
    rw [tailRules, List.map_append, ← hxy]
    simp only [List.map_cons, List.map_nil, tailRules, Nonterm.ofSymbol_rename]
    rfl
  | case3 xs k h1 h2 =>
    rcases xs with _ | ⟨x, _ | ⟨y, _ | ⟨z, xs⟩⟩⟩
    · rfl
    · rfl
    · exact (h2 x y rfl).elim
    · exact (h1 x y z xs rfl).elim

namespace Variant

theorem support_rename (v : Variant) :
    (v.rename f).support = v.support.map (NamedRule.rename f) := by
  rw [support, support, kept_rename]
  rcases v.kept with _ | ⟨x, _ | ⟨y, _ | ⟨z, xs⟩⟩⟩
  · rfl
  · rfl
  · exact wrapRules_rename [x, y]
  · exact (congrArg₂ _ (wrapRules_rename [x]) (tailRules_rename v.number 1 (y :: z :: xs))).trans
      List.map_append.symm

theorem ownNonterms_rename (v : Variant) :
    (v.rename f).ownNonterms = v.ownNonterms.map (Nonterm.rename f) := by
  have wraps (xs : List Symbol) : ((xs.map (Symbol.rename f)).filterMap Symbol.term?).map
      (Nonterm.wrap ·.key) = ((xs.filterMap Symbol.term?).map (Nonterm.wrap ·.key)).map
        (Nonterm.rename f) := by
    rw [filterMap_term?_rename, List.map_map]
    rfl
  rw [ownNonterms, ownNonterms, kept_rename]
  rcases v.kept with _ | ⟨x, _ | ⟨y, _ | ⟨z, xs⟩⟩⟩
  · rfl
  · rfl
  · exact wraps [x, y]
  · simp only [List.map_append, ← wraps, List.map_map, List.map_cons, List.length_cons,
      List.length_map]
    rfl

end Variant

namespace Emission

theorem rule?_rename (e : Emission) : (e.rename f).rule? = e.rule?.map (NamedRule.rename f) := by
  rw [rule?, rule?, Emission.rename, Variant.body?, Variant.body?, Variant.kept_rename]
  rcases e.variant.kept with _ | ⟨x, _ | ⟨y, _ | ⟨z, xs⟩⟩⟩
  · rfl
  · cases x <;> rfl
  · cases x <;> cases y <;> rfl
  · cases x <;> rfl

theorem rules_rename (e : Emission) : (e.rename f).rules = e.rules.map (NamedRule.rename f) := by
  have hsupport : (e.rename f).variant.support = e.variant.support.map (NamedRule.rename f) :=
    e.variant.support_rename
  rw [rules, rules, hsupport, rule?_rename, List.map_append, Option.toList_map]

end Emission

theorem NamedRule.tag_rename (r : NamedRule) :
    (r.rename f).tag = Prod.map (Nonterm.rename f) id r.tag := by
  cases r with
  | mk lhs body origin => cases origin <;> rfl

end Rules

/-- Every head emits the same variants by the same routes. -/
theorem emissions_rename (hf : Function.Injective f) (vs : List Variant) (heads : List Nonterm) :
    emissions (unitEdges (vs.map (Variant.rename f))).get (bodies (vs.map (Variant.rename f))).get
        (heads.map (Nonterm.rename f)) =
      (emissions (unitEdges vs).get (bodies vs).get heads).map (Emission.rename f) := by
  rw [emissions, emissions, List.flatMap_map, List.map_flatMap]
  refine List.flatMap_congr fun a _ => ?_
  rw [unitClosure_rename hf (edgesRename_unitEdges hf vs), List.flatMap_map, List.map_flatMap]
  refine List.flatMap_congr ?_
  rintro ⟨b, route⟩ -
  rw [renameReached]
  dsimp only
  rw [bodies_rename hf, List.map_map, List.map_map]
  rfl

namespace Grammar
variable (g : Grammar)

include hf

theorem ownVariants_rename : (g.rename f).ownVariants = g.ownVariants.map (Variant.rename f) :=
  variants_rename (g.nilable_rename hf) g

theorem emissions_rename :
    (g.rename f).analysis.emissions = g.analysis.emissions.map (Emission.rename f) := by
  change emissions (unitEdges (g.rename f).ownVariants).get (bodies (g.rename f).ownVariants).get
    (g.rename f).heads = (emissions (unitEdges g.ownVariants).get (bodies g.ownVariants).get
      g.heads).map (Emission.rename f)
  rw [ownVariants_rename hf, heads_rename hf, ContextFree.emissions_rename hf]

theorem rules_rename :
    (g.rename f).analysis.rules = g.analysis.rules.map (NamedRule.rename f) := by
  have hrules : (g.rename f).analysis.emissions.flatMap Emission.rules =
      (g.analysis.emissions.flatMap Emission.rules).map (NamedRule.rename f) := by
    rw [emissions_rename hf, List.flatMap_map, List.map_flatMap]
    exact List.flatMap_congr fun e _ => e.rules_rename
  have hinj : Function.Injective (Prod.map (Nonterm.rename f) (id : Option Nat → Option Nat)) :=
    (Nonterm.rename_injective hf).prodMap Function.injective_id
  rw [Analysis.rules, Analysis.rules, hrules]
  exact (Register.Renames.ofList hinj NamedRule.tag_rename _).toList_eq

/-- Every non-terminal has the number that it had. -/
theorem renames_nonterms : Register.Renames g.analysis.nonterms (g.rename f).analysis.nonterms
    (Nonterm.rename f) (Nonterm.rename f) := by
  have hheads : (g.rename f).analysis.heads = g.analysis.heads.map (Nonterm.rename f) :=
    heads_rename hf g
  have hown : (g.rename f).analysis.emissions.flatMap (·.variant.ownNonterms) =
      (g.analysis.emissions.flatMap (·.variant.ownNonterms)).map (Nonterm.rename f) := by
    rw [emissions_rename hf, List.flatMap_map, List.map_flatMap]
    exact List.flatMap_congr fun e _ => e.variant.ownNonterms_rename
  rw [Analysis.nonterms, Analysis.nonterms, hheads, hown, ← List.map_append]
  refine .ofList (Nonterm.rename_injective hf) ?_ _
  exact fun _ => rfl

theorem terms_rename : (g.rename f).analysis.terms = g.analysis.terms := by
  rw [Analysis.terms, Analysis.terms, emissions_rename hf, List.flatMap_map]
  congr 1
  refine List.flatMap_congr fun e _ => ?_
  rw [Emission.rename, Variant.kept_rename, filterMap_term?_rename]

theorem numberedRules_rename :
    (g.rename f).numberedRules = g.numberedRules.map (Rule.retell f) := by
  rw [numberedRules, numberedRules, rules_rename hf, List.map_map, List.map_map]
  refine List.map_congr_left fun r _ => ?_
  have hnumber (n : Nonterm) : (g.rename f).number (n.rename f) = g.number n :=
    (g.renames_nonterms hf).placeOf_eq n
  have hterm (k : Terminal.Key) : (g.rename f).termNumber k = g.termNumber k := by
    rw [termNumber, termNumber, terms_rename hf]
  obtain ⟨lhs, body, origin⟩ := r
  cases body with
  | term t => simp [NamedRule.rename, Rule.retell, Rule.map, hnumber, hterm]
  | pair b c => simp [NamedRule.rename, Rule.retell, Rule.map, hnumber]

end Grammar

section Prune
variable {ν τ : Type} [DecidableEq ν] [Coded ν]

/-- Where rules come from makes no difference to their use. -/
theorem prune_retell (start : ν) (rules : List (Rule ν τ)) :
    prune start (rules.map (Rule.retell f)) = (prune start rules).map (Rule.retell f) := by
  have hgenerating : generating (rules.map (Rule.retell f)) = generating rules := by
    simp only [generating, List.foldl_map, List.length_map]
    rfl
  have hreachable (rules : List (Rule ν τ)) :
      reachable start (rules.map (Rule.retell f)) = reachable start rules := by
    simp only [reachable, List.foldl_map, List.length_map]
    rfl
  have hproductive : (rules.map (Rule.retell f)).filter (Rule.productive (generating rules)) =
      (rules.filter (Rule.productive (generating rules))).map (Rule.retell f) :=
    List.filter_map
  rw [prune, prune, hgenerating, hproductive, hreachable, List.filter_map]
  rfl

end Prune

/-- The normal form of a grammar under other names. -/
theorem Grammar.normalForm_rename (hf : Function.Injective f) (g : Grammar) :
    (g.rename f).normalForm = g.normalForm.rename f := by
  have hnonterms : (g.rename f).normalForm.nonterms =
      g.normalForm.nonterms.map (Nonterm.rename f) :=
    Array.toList_inj.1 ((g.renames_nonterms hf).toList_eq.trans Array.toList_map.symm)
  have hterms : (g.rename f).normalForm.terms = g.normalForm.terms :=
    congrArg Register.entries (g.terms_rename hf)
  have hrules : (g.rename f).normalForm.rules = g.normalForm.rules.map (Rule.retell f) := by
    rw [rules_normalForm, rules_normalForm, numberedRules_rename hf, prune_retell]
  have hempty : (g.rename f).normalForm.acceptsEmpty = g.normalForm.acceptsEmpty :=
    g.nilable_rename hf (.nonterm g.start)
  calc (g.rename f).normalForm
      = ⟨(g.rename f).normalForm.nonterms, (g.rename f).normalForm.terms,
          (g.rename f).normalForm.rules, (g.rename f).normalForm.acceptsEmpty⟩ := rfl
    _ = g.normalForm.rename f := by
      rw [hnonterms, hterms, hrules, hempty]
      rfl

namespace NormalForm
variable (nf : NormalForm)

theorem zipIdx_rules_rename : (nf.rename f).rules.zipIdx =
    nf.rules.zipIdx.map (Prod.map (Rule.retell f) id) := by
  rw [rename, List.zipIdx_map]

theorem termRules_rename (t : Nat) : (nf.rename f).termRules.get t =
    (nf.termRules.get t).map (Prod.map (Rule.retell f) id) := by
  rw [termRules, termRules]
  refine (congrArg (fun rules => (Index.ofList rules).get t) ?_).trans
    (Index.get_ofList_map Function.injective_id _ _ t)
  rw [zipIdx_rules_rename, List.filterMap_map, List.map_filterMap]
  refine List.filterMap_congr ?_
  rintro ⟨⟨lhs, body, origin⟩, number⟩ -
  cases body <;> rfl

theorem pairRules_rename : (nf.rename f).pairRules = nf.pairRules := by
  rw [pairRules, pairRules, zipIdx_rules_rename, List.filterMap_map]
  rfl

theorem usefulTerms_rename : (nf.rename f).usefulTerms = nf.usefulTerms := by
  simp only [usefulTerms, termRules_rename, List.isEmpty_map]
  rfl

theorem scan_rename [Pattern.Engine] (w : String) : (nf.rename f).scan w = nf.scan w := by
  rw [scan, scan, usefulTerms_rename]

theorem fill_rename (s : Scan) (mode : Mode) : (nf.rename f).fill s mode = nf.fill s mode := by
  have hfound (i l : Nat) : termFound (nf.rename f).termRules.get s i l =
      termFound nf.termRules.get s i l := by
    simp only [termFound, termRules_rename, List.map_map]
    rfl
  simp only [fill, pairRules_rename, hfound]

/-- A chart does not depend on where rules come from. -/
theorem chart_rename [Pattern.Engine] (w : String) (mode : Mode) :
    (nf.rename f).chart w mode = nf.chart w mode := by
  simp only [chart, scan_rename, fill_rename]

theorem accepts_rename (c : Chart) : c.accepts (nf.rename f) = c.accepts nf := rfl

end NormalForm
end ContextFree
