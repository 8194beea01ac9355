import ContextFree.Chart.Trees
import ContextFree.Pattern.Standard

/-! Recognition and parsing. A word is in the language of a grammar, and then has syntax trees, or
it is rejected with the reason. Patterns are searched by the engine at hand, which is the standard
one unless another is given. -/
namespace ContextFree

/-- Why there is no tree: the word is not in the language, or its chart could not be read. -/
inductive ParseError
  | rejected (e : SyntaxError)
  | fault (f : Fault)

/-- A grammar made ready: what its normal form is made of, and the normal form. -/
structure Parser where
  analysis : Grammar.Analysis
  normalForm : NormalForm

namespace Parser

variable [Pattern.Engine]

/-- The chart of a word. -/
def chart (p : Parser) (w : String) (mode : Mode) : Except Fault Chart := p.normalForm.chart w mode

/-- Whether a chart spans its word. -/
def accepts (p : Parser) (c : Chart) : Bool := c.accepts p.normalForm

/-- The trees of a chart, none if it does not span its word. -/
def trees (p : Parser) (c : Chart) : List ParseTree := c.trees p.analysis p.normalForm

/-- The trees of a word that the chart of a mode has. -/
def parse (p : Parser) (w : String) (mode : Mode) : Except ParseError (List ParseTree) :=
  match p.chart w mode with
  | .error f => .error (.fault f)
  | .ok c => if p.accepts c then .ok (p.trees c) else .error (.rejected (c.diagnose w))

/-- Whether a word is in the language. -/
def contains (p : Parser) (w : String) : Except Fault Bool := (p.chart w .first).map p.accepts

/-- One syntax tree of a word, the first of all. -/
def syntaxTree (p : Parser) (w : String) : Except ParseError ParseTree :=
  match p.parse w .first with
  | .error e => .error e
  | .ok [t] => .ok t
  | .ok ts => .error (.fault (.treeCount ts.length))

/-- Every syntax tree of a word in which no node has a descendant of the same non-terminal over
the same part of the word. -/
def allSyntaxTrees (p : Parser) (w : String) : Except ParseError (List ParseTree) :=
  p.parse w .exhaustive

/-- Whether a word has a syntax tree. -/
def hasSyntaxTree (p : Parser) (w : String) : Except Fault Bool :=
  match p.syntaxTree w with
  | .ok _ => .ok true
  | .error (.rejected _) => .ok false
  | .error (.fault f) => .error f

end Parser

/-- The parser of a grammar. -/
def Grammar.parser (g : Grammar) : Parser :=
  let a := g.analysis
  ⟨a, a.normalForm⟩

end ContextFree
