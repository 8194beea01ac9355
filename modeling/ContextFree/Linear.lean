import ContextFree.Grammar
import ContextFree.Text.Offset

/-! Linear grammars: every right-hand side has at most one non-terminal. They need no normal form.
A production derives a span if the terminals before its non-terminal match at the beginning of the
span, those after it up to the end, and the non-terminal derives what lies between, which is a
shorter span unless the terminals match nothing. -/
namespace ContextFree

/-- A production of a linear grammar, without its empty literals. -/
structure Shape where
  lhs : String
  before : List Terminal
  /-- The non-terminal, if there is one, with the terminals after it. -/
  inner : Option (String × List Terminal)

namespace Shape

/-- The terminals of symbols, without the empty literals. -/
def terminals (xs : List Symbol) : List Terminal :=
  (xs.filterMap Symbol.term?).filter (!·.isEmpty)

/-- The shape of a production with at most one non-terminal. -/
def ofProduction? (p : Production) : Option Shape :=
  let before := p.rhs.takeWhile (·.nonterm?.isNone)
  match p.rhs.drop before.length with
  | .nonterm name :: after =>
    if after.all (·.nonterm?.isNone) then
      some ⟨p.lhs, terminals before, some (name, terminals after)⟩
    else none
  | _ => some ⟨p.lhs, terminals before, none⟩

end Shape

/-- What comes of matching terminals one after the other: where each match ends, until all have
matched, one does not match, or one cannot be tried. -/
inductive Walk
  /-- All have matched, up to a boundary or else up to the inside of a character. -/
  | done (boundary : Option Nat)
  | stuck
  | fault (f : Fault)
  | step (stop : Nat) (rest : Walk)

namespace Walk

variable [Pattern.Engine]

/-- The walk of terminals from an offset. -/
def along (w : String) (bounds : List Nat) : List Terminal → Nat → Walk
  | [], p => done (bounds.idxOf? p)
  | t :: ts, p => match t.accept w p with
    | .error f => fault f
    | .ok none => stuck
    | .ok (some q) => step q (along w bounds ts q)

/-- The walks of terminals from every boundary. -/
def fromAll (w : String) (bounds : List Nat) (ts : List Terminal) : Array Walk :=
  (bounds.map (along w bounds ts)).toArray

/-- The boundary that a walk reaches if it never goes beyond a limit. What it does beyond the
limit does not matter. -/
def within (limit : Nat) : Walk → Except Fault (Option Nat)
  | done boundary => .ok boundary
  | stuck => .ok none
  | fault f => .error f
  | step q rest => if limit < q then .ok none else rest.within limit

end Walk

/-- A shape over a word: the walks of its terminals from every boundary. -/
structure Shape.Laid where
  lhs : String
  before : Array Walk
  inner : Option (String × Array Walk)

def Shape.lay [Pattern.Engine] (w : String) (bounds : List Nat) (s : Shape) : Shape.Laid where
  lhs := s.lhs
  before := Walk.fromAll w bounds s.before
  inner := s.inner.map fun (name, after) => (name, Walk.fromAll w bounds after)

/-- A grammar in which every production has a shape. -/
structure LinearGrammar where
  grammar : Grammar
  shapes : List Shape
  shapes_eq : grammar.productions.map Shape.ofProduction? = shapes.map some

namespace LinearGrammar

/-- The shapes of productions, or the first production without one. -/
def shapesOf : (ps : List Production) →
    Except Production { ss : List Shape // ps.map Shape.ofProduction? = ss.map some }
  | [] => .ok ⟨[], rfl⟩
  | p :: ps =>
    match h : Shape.ofProduction? p with
    | none => .error p
    | some s => match shapesOf ps with
      | .error q => .error q
      | .ok ⟨ss, hs⟩ => .ok ⟨s :: ss, by rw [List.map_cons, List.map_cons, h, hs]⟩

/-- Checks what every grammar has to fulfil first, and then the productions in order. -/
def check (ps : List Production) (start : String) : Except GrammarError LinearGrammar :=
  match Grammar.check ps start with
  | .error e => .error e
  | .ok g => match shapesOf g.productions with
    | .error p => .error (.notLinear p)
    | .ok ⟨ss, hs⟩ => .ok ⟨g, ss, hs⟩

/-- The non-terminals that derive each span: by length, and then by first boundary. -/
abbrev Derived := Array (Array (List String))

/-- What derives the span between two boundaries. -/
def Derived.names (d : Derived) (i j : Nat) : List String := (d[j - i]?.getD #[])[i]?.getD []

/-- The first of some candidates that satisfies a test. -/
def anyOf {ε : Type} (test : Nat → Except ε Bool) : List Nat → Except ε Bool
  | [] => .ok false
  | m :: ms => do if ← test m then pure true else anyOf test ms

/-- Whether a shape derives a span that ends at an offset, given what derives it so far and what
derives shorter ones. -/
def derives (d : Derived) (here : List String) (i j limit : Nat) (s : Shape.Laid) :
    Except Fault Bool := do
  match ← (s.before[i]?.getD .stuck).within limit with
  | none => pure false
  | some k => match s.inner with
    | none => pure (k == j)
    | some (name, after) =>
      anyOf (fun m => do
        let known := if k = i && m = j then here else d.names k m
        if known.contains name then
          return (← (after[m]?.getD .stuck).within limit) == some j
        else pure false) (List.range' k (j + 1 - k))

/-- One round: every shape whose non-terminal does not derive the span yet is tried in order. -/
def round (d : Derived) (i j limit : Nat) :
    List Shape.Laid → List String → Except Fault (List String)
  | [], here => .ok here
  | s :: ss, here =>
    if here.contains s.lhs then round d i j limit ss here
    else do
      let found ← derives d here i j limit s
      round d i j limit ss (if found then here ++ [s.lhs] else here)

/-- Rounds until one adds nothing; each of the others adds a non-terminal. -/
def settle (d : Derived) (i j limit : Nat) (ss : List Shape.Laid) :
    Nat → List String → Except Fault (List String)
  | 0, here => .ok here
  | fuel + 1, here => do
    let next ← round d i j limit ss here
    if next.length = here.length then pure here else settle d i j limit ss fuel next

/-- What derives the spans of all lengths below the given one. -/
def derivedBelow (ss : List Shape.Laid) (bounds : List Nat) : Nat → Except Fault Derived
  | 0 => .ok #[]
  | l + 1 => do
    let d ← derivedBelow ss bounds l
    let row ← (bounds.drop l).zipIdx.mapM fun (limit, i) =>
      settle d i (i + l) limit ss ss.length []
    pure (d.push row.toArray)

/-- Whether a word is in the language. -/
def contains [Pattern.Engine] (g : LinearGrammar) (w : String) : Except Fault Bool := do
  let bounds := Text.bounds w
  let d ← derivedBelow (g.shapes.map (·.lay w bounds)) bounds bounds.length
  return (d.names 0 (bounds.length - 1)).contains g.grammar.start

end LinearGrammar
end ContextFree
