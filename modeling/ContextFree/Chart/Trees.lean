import ContextFree.Chart
import ContextFree.Tree.Empty

/-! The trees of a chart. The chart speaks about the non-terminals of a normal form, the trees only
about those of the grammar. Tails and wrapped terminals hand their subtrees on to the node around
them. A derived rule becomes a node of its variant's production, where empty trees stand for what
the variant dropped, inside one node for each production on the route to the variant. The
isolated start builds no node. -/
namespace ContextFree

/-- A subtree and the offset where it ends. -/
structure Part where
  tree : ParseTree
  stop : Nat

/-- The subtrees that one derivation of a span adds to the node around them. -/
abbrev Parts := List Part

/-- First occurrences of parts. -/
def distinctParts (l : List Parts) : List Parts :=
  distinctByTrees (fun ps : Parts => ps.map (·.tree)) (fun ps => ps.map (·.stop)) l

/-- What a chart lacks to give trees: the rules, the routes to rebuild for each, and the empty
trees of each non-terminal. -/
structure Rebuilding where
  rules : Nat → Option NumberedRule
  routes : Nat → List Route
  empties : String → List EmptyTree

namespace Rebuilding

/-- The trees of a dropped symbol at an offset. -/
def emptiesAt (x : Rebuilding) (p : Nat) : Symbol → List ParseTree
  | .term _ => [.leaf ⟨p, p⟩]
  | .nonterm name => (x.empties name).map (EmptyTree.place p)

/-- The choices for each position of a variant, given the parts for those it keeps. -/
def fillSlots (x : Rebuilding) : List Slot → Parts → Nat → List (List ParseTree)
  | [], _, _ => []
  | ⟨s, false⟩ :: slots, parts, p => x.emptiesAt p s :: x.fillSlots slots parts p
  | ⟨_, true⟩ :: slots, part :: parts, _ => [part.tree] :: x.fillSlots slots parts part.stop
  | ⟨_, true⟩ :: slots, [], p => [] :: x.fillSlots slots [] p

/-- The nodes of a variant that starts at an offset. -/
def expand (x : Rebuilding) (v : Variant) (parts : Parts) (start : Nat) : List ParseTree :=
  match v.label with
  | none => (parts.head?.map (·.tree)).toList
  | some name => (picks (x.fillSlots v.slots parts start)).map (.node name)

/-- A tree inside the nodes of a route, the innermost node last in the route. -/
def wrapUnits (x : Rebuilding) (start stop : Nat) : Route → ParseTree → List ParseTree
  | [], t => [t]
  | u :: route, t =>
    (x.wrapUnits start stop route t).flatMap fun t' => x.expand u [⟨t', stop⟩] start

/-- What a rule makes of the parts of its right-hand side. -/
def produce (x : Rebuilding) (rule : Nat) (parts : Parts) (start : Nat) : List Parts :=
  match (x.rules rule).map Rule.origin with
  | none => []
  | some (.derived _ v) =>
    let stop := (parts.getLast?.map (·.stop)).getD start
    let nodes := x.expand v parts start
    (x.routes rule).flatMap fun route => nodes.flatMap fun t =>
      (x.wrapUnits start stop route t).map fun t' => [⟨t', stop⟩]
  | some .tail | some .wrap => [parts]

/-- What one way of deriving a span gives, from what shorter spans give. -/
def followBack (x : Rebuilding) (c : Chart) (shorter : Nat → Nat → Nat → List Parts) (i l : Nat) :
    Back → List Parts
  | .term rule =>
    let span := c.span i l
    x.produce rule [⟨.leaf span, span.stop⟩] span.start
  | .split rule k =>
    match (x.rules rule).map Rule.body with
    | some (.pair b d) =>
      (shorter i k b).flatMap fun left => (shorter (i + k) (l - k) d).flatMap fun right =>
        x.produce rule (left ++ right) (c.span i l).start
    | _ => []

end Rebuilding

/-- What the non-terminals of the spans of one length give, each computed when it is asked for. -/
abbrev PartsRow := List (List (Nat × Thunk (List Parts)))

/-- What a non-terminal gives for a span, from the rows of all lengths up to the span's. -/
def partsOf (rows : Array PartsRow) (i l a : Nat) : List Parts :=
  match ((rows[l - 1]?.getD [])[i]?.getD []).find? (·.1 == a) with
  | some (_, parts) => parts.get
  | none => []

namespace Chart

/-- The rows of all lengths up to the given one. Each row refers to the rows before it. -/
def partsRows (c : Chart) (x : Rebuilding) : Nat → Array PartsRow
  | 0 => #[]
  | l + 1 =>
    let rows := c.partsRows x l
    rows.push ((List.range (c.length - l)).map fun i => (c.cell i (l + 1)).map fun (a, backs) =>
      (a, Thunk.mk fun _ =>
        distinctParts (backs.flatMap (x.followBack c (partsOf rows) i (l + 1)))))

/-- What a non-terminal gives for a span, without duplicates, in the order of its ways. -/
def alternatives (c : Chart) (x : Rebuilding) (i l a : Nat) : List Parts :=
  partsOf (c.partsRows x l) i l a

end Chart

/-- The routes to rebuild for a rule: its own first, and in exhaustive mode the others between
the same ends. -/
def Grammar.Analysis.routes (a : Grammar.Analysis) (mode : Mode) (r : NumberedRule) : List Route :=
  match r.origin with
  | .derived units v =>
    let source := (units.head?.map (·.head)).getD v.head
    let others := (unitRoutes a.edges.get a.heads source v.head).filter fun route =>
      route.map (·.number) ≠ units.map (·.number)
    if mode = .exhaustive then units :: others else [units]
  | .tail | .wrap => []

/-- What it takes to rebuild trees, where routes and empty trees are computed once. -/
def Grammar.Analysis.rebuilding (a : Grammar.Analysis) (nf : NormalForm) (mode : Mode) :
    Rebuilding :=
  let rules := nf.rules.toArray
  let routes := rules.map fun r => Thunk.mk fun _ => a.routes mode r
  let empties := Register.ofList Prod.fst (a.proofs.toList.map fun e =>
    (e.production.lhs, Thunk.mk fun _ => a.grammar.emptyTrees a.proofs mode e.production.lhs))
  { rules := fun rule => rules[rule]?
    routes := fun rule => (routes[rule]?.map Thunk.get).getD []
    empties := fun name => ((empties.get? name).map (·.2.get)).getD [] }

/-- Every tree of the start symbol, in the order in which the derivations were found. A chart
that does not accept gives none. -/
def Chart.trees (c : Chart) (a : Grammar.Analysis) (nf : NormalForm) : List ParseTree :=
  let x := a.rebuilding nf c.mode
  if c.length = 0 then
    if nf.acceptsEmpty then x.emptiesAt 0 (.nonterm a.grammar.start) else []
  else (c.alternatives x 0 c.length NormalForm.start).filterMap fun ps => ps.head?.map (·.tree)

end ContextFree
