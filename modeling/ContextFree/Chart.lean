import ContextFree.Chart.Cell
import ContextFree.Chart.Scan
import ContextFree.Chart.Triangle
import ContextFree.SyntaxError

/-! Charts. The cell of a span holds the non-terminals of a normal form that derive it. A
terminal may match several characters, so its match lies in the cell of their span; a pair joins
the cells of the two parts of a span. -/
namespace ContextFree

structure Chart where
  mode : Mode
  /-- The offset of every character, and the size of the word. -/
  bounds : List Nat
  /-- For every character, whether some match takes it. -/
  covered : List Bool
  /-- The cells in the order of storage. -/
  cells : Array Cell

namespace Chart

/-- The number of characters. -/
def length (c : Chart) : Nat := c.bounds.length - 1

/-- The cell of a span. -/
def cell (c : Chart) (i l : Nat) : Cell := c.cells[Triangle.index c.length i l]?.getD []

/-- The bytes of a span. -/
def span (c : Chart) (i l : Nat) : Span :=
  ⟨c.bounds[i]?.getD 0, c.bounds[i + l]?.getD 0⟩

end Chart

/-- A rule with a pair on its right-hand side, as seen from the first of the pair. -/
structure PairRule where
  rule : Nat
  lhs : Nat
  second : Nat
  deriving DecidableEq, Repr

namespace NormalForm

/-- The pair rules of each first non-terminal, in order. -/
def pairRules (nf : NormalForm) : Index Nat PairRule :=
  .ofList (nf.rules.zipIdx.filterMap fun (r, number) =>
    match r.body with
    | .pair b c => some (b, ⟨number, r.lhs, c⟩)
    | .term _ => none)

/-- The ways to derive a span by one match: in the order of the terminals, and of the rules of
each. -/
def termFound (rules : Nat → List (NumberedRule × Nat)) (s : Scan) (i l : Nat) :
    List (Nat × Back) :=
  ((s.matchesAt i).filter (·.length = l)).flatMap fun m =>
    (rules m.term).map fun (r, number) => (r.lhs, .term number)

/-- The ways to derive a span by a pair: shorter first parts first, then in the order of the first
part's cell, and of the rules. -/
def splitFound (pairs : Nat → List PairRule) (cell : Nat → Nat → Cell) (i l : Nat) :
    List (Nat × Back) :=
  (List.range' 1 (l - 1)).flatMap fun k =>
    let right := cell (i + k) (l - k)
    (cell i k).flatMap fun (b, _) => (pairs b).filterMap fun p =>
      if right.has p.second then some (p.lhs, .split p.rule k) else none

/-- Fills the cells in the order of storage, which is by length. -/
def fill (nf : NormalForm) (s : Scan) (mode : Mode) : Chart :=
  let n := s.bounds.length - 1
  let terms := nf.termRules
  let pairs := nf.pairRules
  let cells := (Triangle.spans n).foldl (fun cells (i, l) =>
    let cell := fun j m => cells[Triangle.index n j m]?.getD []
    cells.push (.ofFound mode (termFound terms.get s i l ++ splitFound pairs.get cell i l))) #[]
  ⟨mode, s.bounds, (List.range n).map s.covers, cells⟩

/-- The chart of a word. -/
def chart [Pattern.Engine] (nf : NormalForm) (w : String) (mode : Mode) : Except Fault Chart :=
  return nf.fill (← nf.scan w) mode

end NormalForm

namespace Chart

/-- Whether the start derives the whole word; the empty word has no cell. -/
def accepts (c : Chart) (nf : NormalForm) : Bool :=
  if c.length = 0 then nf.acceptsEmpty else (c.cell 0 c.length).has NormalForm.start

/-- The length of the longest part at the beginning of the word that some non-terminal derives. -/
def furthest (c : Chart) : Nat :=
  ((List.range' 1 c.length).reverse.find? fun l => !(c.cell 0 l).isEmpty).getD 0

/-- Why the word was not accepted. -/
def diagnose (c : Chart) (input : String) : SyntaxError :=
  if c.length = 0 then ⟨input, ⟨0, 0⟩, .emptyNotAllowed⟩
  else match c.covered.idxOf? false with
    | some i => ⟨input, c.span i 1, .unknownToken⟩
    | none => ⟨input, ⟨c.bounds[c.furthest]?.getD 0, Text.size input.toList⟩, .unmatchedPattern⟩

end Chart
end ContextFree
