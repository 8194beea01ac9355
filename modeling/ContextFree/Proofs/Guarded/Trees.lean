import ContextFree.Proofs.Guarded.Chart
import ContextFree.Proofs.Forest

/-! Guarded trees. A cell is only read inside the word, a split goes by a pair rule and leaves some
of the span for both sides, a variant is given as many parts as it keeps positions, and what it
drops is nilable. -/
namespace ContextFree
namespace Guarded

section Empties
variable (a : Grammar.Analysis) (mode : Mode)

/-- What stands for a symbol of a production in an empty tree, given what stands for each child. -/
def emptyChoices (free : List String)
    (below : (child : String) → child ∈ free → Except Lapse (List EmptyTree)) :
    Symbol → Except Lapse (List EmptyTree)
  | .term t => .ok (if t.isEmpty then [.leaf ()] else [])
  | .nonterm child => if h : child ∈ free then below child h else .ok []

/-- The empty trees that a production makes of its choices. -/
def emptyNodes (choices : Symbol → Except Lapse (List EmptyTree)) (name : String)
    (p : Production) : Except Lapse (List EmptyTree) :=
  return (picks (← p.rhs.mapM choices)).map (.node name)

/-- The empty trees of a non-terminal, which has to have a proof of nilability. -/
def emptyTreesBelow (free : List String) (name : String) : Except Lapse (List EmptyTree) := do
  let e ← demand (a.proofs.proof? name) (.noProof name)
  let choices := emptyChoices free fun child _ => emptyTreesBelow (free.erase child) child
  let trees ← gather (emptyNodes choices name)
    (if mode = .first then [e.production] else a.grammar.proofFirst e)
  return distinctTrees trees
termination_by free.length
decreasing_by exact length_erase_lt ‹_›

def emptiesAt (p : Nat) : Symbol → Except Lapse (List ParseTree)
  | .term _ => .ok [.leaf ⟨p, p⟩]
  | .nonterm name => do
    let free := (a.proofs.toList.map (·.production.lhs)).erase name
    return (← emptyTreesBelow a mode free name).map (EmptyTree.place p)

/-- The choices for each position of a variant; there has to be a part for every position that it
keeps. -/
def fillSlots (variant : Nat) : List Slot → Parts → Nat → Except Lapse (List (List ParseTree))
  | [], _, _ => .ok []
  | ⟨x, false⟩ :: slots, parts, p => do
    let empties ← emptiesAt a mode p x
    return empties :: (← fillSlots variant slots parts p)
  | ⟨_, true⟩ :: slots, part :: parts, _ =>
    return [part.tree] :: (← fillSlots variant slots parts part.stop)
  | ⟨_, true⟩ :: _, [], _ => .error (.noPart variant)

def expand (v : Variant) (parts : Parts) (start : Nat) : Except Lapse (List ParseTree) :=
  match v.label with
  | none => return [(← demand parts.head? (.noPart v.number)).tree]
  | some name => return (picks (← fillSlots a mode v.number v.slots parts start)).map (.node name)

def wrapUnits (start stop : Nat) : Route → ParseTree → Except Lapse (List ParseTree)
  | [], t => .ok [t]
  | u :: route, t => do
    gather (fun t' => expand a mode u [⟨t', stop⟩] start) (← wrapUnits start stop route t)

end Empties

/-- The routes between two non-terminals, which never leave those of the grammar. -/
def simpleRoutes (a : Grammar.Analysis) (free : List Nonterm) (n m : Nonterm) :
    Except Lapse (List Route) :=
  if n = m then .ok [[]]
  else when (n ∈ a.heads) (.noNonterm n) <|
    gather (fun e => when (e.2 ∈ a.heads) (.noNonterm e.2) <|
      if _h : e.2 ∈ free then do
        return (← simpleRoutes a (free.erase e.2) e.2 m).map (e.1 :: ·)
      else .ok []) (a.edges.get n)
termination_by free.length
decreasing_by exact length_erase_lt _h

def routes (a : Grammar.Analysis) (mode : Mode) (r : NumberedRule) : Except Lapse (List Route) :=
  match r.origin with
  | .derived units v =>
    if mode = .exhaustive then do
      let source := (units.head?.map (·.head)).getD v.head
      let others ← when (source ∈ a.heads) (.noNonterm source)
        (simpleRoutes a (a.heads.erase source) source v.head)
      return units :: others.filter fun route => route.map (·.number) ≠ units.map (·.number)
    else .ok [units]
  | .tail | .wrap => .ok []

section Trees
variable (a : Grammar.Analysis) (nf : NormalForm)

/-- What a rule, which has to have an entry, makes of parts. -/
def produce (mode : Mode) (rule : Nat) (parts : Parts) (start : Nat) :
    Except Lapse (List Parts) := do
  let r ← demand nf.rules[rule]? (.noEntry rule)
  match r.origin with
  | .derived _ v =>
    let stop := (parts.getLast?.map (·.stop)).getD start
    let routes ← routes a mode r
    let nodes ← expand a mode v parts start
    gather (fun route => gather (fun t => do
      return (← wrapUnits a mode start stop route t).map fun t' => [⟨t', stop⟩]) nodes) routes
  | .tail | .wrap => return [parts]

/-- What one way gives for a span, from what shorter spans give. A split has to go by a pair rule
and to leave something for both sides. -/
def followBack (c : Chart) (i l : Nat)
    (shorter : (m : Nat) → m < l → Nat → Nat → Except Lapse (List Parts)) :
    Back → Except Lapse (List Parts)
  | .term rule => do
    let span ← span c i l
    produce a nf c.mode rule [⟨.leaf span, span.stop⟩] span.start
  | .split rule k => do
    let r ← demand nf.rules[rule]? (.noEntry rule)
    match r.body with
    | .term _ => .error (.noSplit rule k)
    | .pair b d =>
      if h : 1 ≤ k ∧ k < l then do
        let lefts ← shorter k h.2 i b
        let rights ← shorter (l - k) (Nat.sub_lt (Nat.zero_lt_of_lt h.2) h.1) (i + k) d
        let span ← span c i l
        gather (fun left => gather (fun right =>
          produce a nf c.mode rule (left ++ right) span.start) rights) lefts
      else .error (.noSplit rule k)

/-- What a non-terminal gives for a span. -/
def alternatives (c : Chart) (l i n : Nat) : Except Lapse (List Parts) := do
  let ways ← cell c i l
  let made ← gather (followBack a nf c i l fun m _ j n => alternatives c m j n) (ways.backs n)
  return distinctParts made
termination_by l

/-- The trees of a chart; every derivation of the whole word has to have one. -/
def trees (c : Chart) : Except Lapse (List ParseTree) :=
  if c.length = 0 then
    if nf.acceptsEmpty then emptiesAt a c.mode 0 (.nonterm a.grammar.start) else .ok []
  else do
    (← alternatives a nf c c.length 0 NormalForm.start).mapM fun ps =>
      return (← demand ps.head? .noTree).tree

end Trees

section Empties
variable {g : Grammar} {mode : Mode}

/-- What is free is nilable, so its empty trees are there. -/
theorem emptyTreesBelow_eq (n : Nat) : ∀ (free : List String) (name : String), free.length = n →
    g.emptyProofs.nilable (.nonterm name) = true →
    (∀ m ∈ free, g.emptyProofs.nilable (.nonterm m) = true) →
    emptyTreesBelow g.analysis mode free name =
      .ok (g.emptyTreesBelow g.emptyProofs mode free name) := by
  induction n using Nat.strongRecOn with
  | ind n ih =>
    intro free name hlen hname hfree
    obtain ⟨e, he⟩ := EmptyProofs.exists_proof?_iff.2 hname
    have choice (x : Symbol) : emptyChoices free
        (fun child _ => emptyTreesBelow g.analysis mode (free.erase child) child) x =
          .ok (g.emptyChoices mode free x) := by
      cases x with
      | term t => rfl
      | nonterm child =>
        rw [emptyChoices, Grammar.emptyChoices]
        by_cases hc : child ∈ free
        · rw [dif_pos hc, if_pos hc]
          exact ih _ (hlen ▸ length_erase_lt hc) _ child rfl (hfree child hc)
            fun m hm => hfree m (List.mem_of_mem_erase hm)
        · rw [dif_neg hc, if_neg hc]
    have nodes (p : Production) : emptyNodes (emptyChoices free
        fun child _ => emptyTreesBelow g.analysis mode (free.erase child) child) name p =
          .ok ((picks (p.rhs.map (g.emptyChoices mode free))).map (.node name)) := by
      rw [emptyNodes, mapM_eq_ok fun x _ => choice x]
      rfl
    have hproof : g.analysis.proofs.proof? name = some e := he
    rw [emptyTreesBelow, hproof, demand_some, Grammar.emptyTreesBelow_eq, he]
    simp only [bind, Except.bind, gather_eq_ok fun p _ => nodes p]
    exact congrArg Except.ok (distinctTrees_eq _)

theorem emptiesAt_eq {x : Symbol} (hx : g.emptyProofs.nilable x = true) (p : Nat) :
    emptiesAt g.analysis mode p x = .ok ((g.rebuilding mode).emptiesAt p x) := by
  cases x with
  | term t => rfl
  | nonterm name =>
    have hfree : ∀ m ∈ (g.analysis.proofs.toList.map (·.production.lhs)).erase name,
        g.emptyProofs.nilable (.nonterm m) = true := by
      intro m hm
      rw [EmptyProofs.nilable, Register.has_iff]
      exact List.mem_of_mem_erase hm
    rw [emptiesAt, Rebuilding.emptiesAt, empties_rebuilding]
    simp only [emptyTreesBelow_eq _ _ _ rfl hx hfree]
    rfl

/-- A variant that is given as many parts as it keeps positions can be filled. -/
theorem fillSlots_eq {variant p : Nat} {slots : List Slot} {ps : Parts}
    (hnil : ∀ s ∈ slots, s.kept = false → g.emptyProofs.nilable s.symbol = true)
    (hlen : ps.length = (keptSymbols slots).length) :
    fillSlots g.analysis mode variant slots ps p =
      .ok ((g.rebuilding mode).fillSlots slots ps p) := by
  induction slots generalizing ps p with
  | nil => rfl
  | cons s slots ih =>
    obtain ⟨x, kept⟩ := s
    have ih {ps : Parts} {p : Nat} := @ih p ps fun s hs => hnil s (.tail _ hs)
    cases kept with
    | false =>
      rw [fillSlots, emptiesAt_eq (hnil _ (.head _) rfl), ih (by simpa using hlen)]
      rfl
    | true =>
      cases ps with
      | nil => simp at hlen
      | cons part ps =>
        rw [fillSlots, ih (by simpa using hlen)]
        rfl

theorem expand_eq {v : Variant} (hv : v ∈ g.ownVariants) {ps : Parts}
    (hlen : ps.length = v.kept.length) (start : Nat) :
    expand g.analysis mode v ps start = .ok ((g.rebuilding mode).expand v ps start) := by
  rcases Grammar.cases_of_mem_variants hv with ⟨hlabel, hkept⟩ | ⟨p, -, hlabel, hs⟩
  · rw [hkept] at hlen
    obtain ⟨part, rfl⟩ := List.length_eq_one_iff.1 hlen
    simp only [expand, Rebuilding.expand, hlabel]
    rfl
  · have hnil := nilable_of_mem_slotChoices (Grammar.mem_variantSlots.1 hs).1
    simp only [expand, Rebuilding.expand, hlabel, fillSlots_eq hnil hlen]
    rfl

/-- The variants of a route keep one symbol each, and are given one part. -/
theorem wrapUnits_eq {n m : Nonterm} {route : Route} {stops : List Nonterm}
    (h : Travels g.ownVariants n route stops m) (start stop : Nat) (t : ParseTree) :
    wrapUnits g.analysis mode start stop route t =
      .ok ((g.rebuilding mode).wrapUnits start stop route t) := by
  induction h with
  | nil => rfl
  | cons hu _ hc _ ih =>
    obtain ⟨name, hkept, -⟩ := Variant.unitTarget?_eq_some.1 hc
    rw [wrapUnits, ih]
    exact gather_eq_ok fun t' _ => expand_eq hu (by simp [hkept]) start

end Empties

section Routes
variable {g : Grammar}

/-- Unit variants lead from heads to heads. -/
theorem simpleRoutes_eq (k : Nat) {m : Nonterm} : ∀ (free : List Nonterm) (n : Nonterm),
    free.length = k → n ∈ g.heads → simpleRoutes g.analysis free n m =
      .ok (ContextFree.simpleRoutes g.analysis.edges.get free n m) := by
  induction k using Nat.strongRecOn with
  | ind k ih =>
    intro free n hlen hn
    rw [simpleRoutes, ContextFree.simpleRoutes]
    by_cases hnm : n = m
    · rw [if_pos hnm, if_pos hnm]
    · rw [if_neg hnm, if_neg hnm, when_pos (show n ∈ g.analysis.heads from hn)]
      apply gather_eq_ok
      intro e he
      obtain ⟨hu, -, hc⟩ := mem_unitEdges.1 he
      have hc := unitTarget_mem_heads g e.1 hu e.2 hc
      rw [when_pos (show e.2 ∈ g.analysis.heads from hc)]
      by_cases hfree : e.2 ∈ free
      · simp only [dif_pos hfree, ih _ (hlen ▸ length_erase_lt hfree) _ e.2 rfl hc]
        rfl
      · simp only [dif_neg hfree]

theorem routes_eq {mode : Mode} {r : NumberedRule} {n : Nonterm} (hn : n ∈ g.heads)
    (hroute : ∀ units v, r.origin = .derived units v →
      SimpleRoute g.ownVariants n units v.head) :
    routes g.analysis mode r = .ok (g.analysis.routes mode r) := by
  rw [routes, Grammar.Analysis.routes]
  cases ho : r.origin with
  | tail | wrap => rfl
  | derived units v =>
    obtain ⟨stops, h, -⟩ := hroute units v ho
    simp only [h.head_eq]
    by_cases hmode : mode = .exhaustive
    · rw [if_pos hmode, if_pos hmode, when_pos (show n ∈ g.analysis.heads from hn),
        simpleRoutes_eq _ _ _ rfl hn]
      rfl
    · rw [if_neg hmode, if_neg hmode]

end Routes

section Trees
variable {g : Grammar} {s : Scan} {mode : Mode}

/-- A rule that is given as many parts as its right-hand side stands for makes what it should. -/
theorem produce_eq {r : NamedRule} (hr : r ∈ g.analysis.rules) {zs : List Symbol}
    (hzs : BodyStands g r.body zs) {k : Nat} {f : Nonterm → Nat} {f' : Terminal.Key → Nat}
    (hk : g.normalForm.rules[k]? = some (r.map f f')) {qs : Parts}
    (hlen : qs.length = zs.length) (start : Nat) :
    produce g.analysis g.normalForm mode k qs start =
      .ok ((g.rebuilding mode).produce k qs start) := by
  have hrule : (g.rebuilding mode).rules k = some (r.map f f') := (rules_rebuilding k).trans hk
  have horigin : (r.map f f').origin = r.origin := rfl
  rw [produce, hk, demand_some, Rebuilding.produce, hrule]
  cases comes_of_mem_rules hr with
  | supports h =>
    cases ho : r.origin with
    | derived units v => exact (h.origin_ne units v ho).elim
    | tail | wrap => simp only [bind, Except.bind, Option.map_some, horigin, ho]; rfl
  | @derived units v ho hhead hroute hv _ hstands =>
    have hroutes : routes g.analysis mode (r.map f f') = .ok (g.analysis.routes mode (r.map f f')) :=
      routes_eq hhead fun units' v' ho' => by
        obtain ⟨rfl, rfl⟩ := Origin.derived.inj (ho.symm.trans ho')
        exact hroute
    have hexpand : expand g.analysis mode v qs start = .ok _ :=
      expand_eq hv (hlen.trans (hzs.length_unique hstands)) start
    simp only [bind, Except.bind, Option.map_some, horigin, ho, hroutes, hexpand,
      routes_rebuilding hk]
    apply gather_eq_ok
    intro route hmem
    obtain ⟨stops, htravel, -⟩ := simpleRoute_of_mem_routes ho hroute hmem
    apply gather_eq_ok
    intro t _
    rw [wrapUnits_eq htravel]
    rfl

/-- A way goes by a rule, and the spans of a split are shorter. -/
theorem followBack_eq {i l : Nat} (hl : 1 ≤ l) (h : i + l ≤ s.bounds.length - 1) {n : Nonterm}
    {b : Back} (hway : Goes g s mode i l n b)
    {shorter : (m : Nat) → m < l → Nat → Nat → Except Lapse (List Parts)}
    (hshorter : ∀ j m o ys (hm : m < l), 1 ≤ m → j + m ≤ i + l → Stands g o ys →
      shorter m hm j (g.number o) = .ok (g.gives s mode j m o)) :
    followBack g.analysis g.normalForm (g.filled s mode) i l shorter b =
      .ok (g.follows s mode i l b) := by
  have hlen : (g.filled s mode).length = s.bounds.length - 1 := rfl
  have hspan : span (g.filled s mode) i l = .ok _ := span_eq h (by omega)
  cases hway with
  | term hr hv ht hk =>
    rw [followBack, hspan]
    exact produce_eq hr (.term hv ht) hk rfl _
  | @split k m b c origin ys zs hr hb hc hk hm hml _ _ =>
    rw [followBack, hk, demand_some, follows_split hk]
    simp only [bind, Except.bind, Rule.map, dif_pos (And.intro hm hml), hspan,
      hshorter i m b ys hml hm (by omega) hb,
      hshorter (i + m) (l - m) c zs (by omega) (by omega) (by omega) hc]
    apply gather_eq_ok
    intro left hleft
    apply gather_eq_ok
    intro right hright
    have hleft := length_of_mem_gives m hm (by omega) hb left hleft
    have hright := length_of_mem_gives (l - m) (by omega) (by omega) hc right hright
    exact produce_eq hr (.pair hb hc) hk (by simp [hleft, hright]) _

/-- The induction is on the length of the span. -/
theorem alternatives_eq (l : Nat) : ∀ {i : Nat} {n : Nonterm} {xs : List Symbol}, 1 ≤ l →
    i + l ≤ s.bounds.length - 1 → Stands g n xs →
    alternatives g.analysis g.normalForm (g.filled s mode) l i (g.number n) =
      .ok (g.gives s mode i l n) := by
  induction l using Nat.strongRecOn with
  | ind l ih =>
    intro i n xs hl h hxs
    have hways : gather (followBack g.analysis g.normalForm (g.filled s mode) i l
        fun m _ j n => alternatives g.analysis g.normalForm (g.filled s mode) m j n)
          (((g.filled s mode).cell i l).backs (g.number n)) = .ok _ := gather_eq_ok fun b hb =>
      followBack_eq hl h (goes_of_mem_waysOf hxs (mem_waysOf_of_mem_backs hl h hb))
        fun j m o ys hm hpos hj ho => ih m hm hpos (by omega) ho
    rw [alternatives, cell_eq hl h, gives_eq hl h]
    simp only [bind, Except.bind, hways]
    rfl

/-- Reading one tree off each list, if every list has one part. -/
theorem mapM_head_eq {l : List Parts} (h : ∀ ps ∈ l, ps.length = 1) :
    l.mapM (fun ps => do return (← demand ps.head? .noTree).tree) =
      .ok (l.filterMap fun ps => ps.head?.map (·.tree)) := by
  induction l with
  | nil => rfl
  | cons ps l ih =>
    obtain ⟨hps, hl⟩ := List.forall_mem_cons.1 h
    obtain ⟨part, rfl⟩ := List.length_eq_one_iff.1 hps
    rw [List.mapM_cons, ih hl]
    rfl

/-- The trees of a chart can be read whether it spans its word or not. -/
theorem trees_eq (s : Scan) (mode : Mode) : trees g.analysis g.normalForm (g.filled s mode) =
    .ok (g.trees s mode) := by
  have hlen : (g.filled s mode).length = s.bounds.length - 1 := rfl
  rw [trees, Grammar.trees, Chart.trees]
  by_cases h0 : (g.filled s mode).length = 0
  · rw [if_pos h0, if_pos h0]
    by_cases hnil : g.emptyProofs.nilable (.nonterm g.start) = true
    · have hempty : g.normalForm.acceptsEmpty = true := hnil
      rw [if_pos hempty, if_pos hempty]
      exact emptiesAt_eq hnil 0
    · have hempty : ¬ g.normalForm.acceptsEmpty = true := hnil
      rw [if_neg hempty, if_neg hempty]
  · have hpos : 1 ≤ (g.filled s mode).length := Nat.pos_of_ne_zero h0
    have hle : 0 + (g.filled s mode).length ≤ s.bounds.length - 1 := by omega
    rw [if_neg h0, if_neg h0, ← Grammar.number_start g, alternatives_eq _ hpos hle .start]
    exact mapM_head_eq (length_of_mem_gives _ hpos hle .start)

end Trees

end Guarded
end ContextFree
