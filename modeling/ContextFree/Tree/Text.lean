import ContextFree.Fault
import ContextFree.SyntaxError
import ContextFree.Text.Offset
import ContextFree.Tree

/-! Texts of syntax trees. A node is its key and its children between parentheses; a leaf of a
parse tree is its range of bytes, or else the piece of the input that the range takes. -/
namespace ContextFree

namespace SyntaxTree

variable {κ ι : Type}

mutual
/-- The text of a tree, given those of keys and pieces. -/
def text (key : κ → String) (piece : ι → String) : SyntaxTree κ ι → String
  | node k ts => key k ++ "(" ++ textAll key piece ts ++ ")"
  | leaf p => piece p
def textAll (key : κ → String) (piece : ι → String) : List (SyntaxTree κ ι) → String
  | [] => ""
  | [t] => t.text key piece
  | t :: t' :: ts => t.text key piece ++ " " ++ textAll key piece (t' :: ts)
end

mutual
/-- Replaces pieces from left to right until one fails. -/
def traverseLeaves {ε ι' : Type} (g : ι → Except ε ι') : SyntaxTree κ ι → Except ε (SyntaxTree κ ι')
  | node k ts => do pure (node k (← traverseAll g ts))
  | leaf p => do pure (leaf (← g p))
def traverseAll {ε ι' : Type} (g : ι → Except ε ι') :
    List (SyntaxTree κ ι) → Except ε (List (SyntaxTree κ ι'))
  | [] => pure []
  | t :: ts => do
    let t' ← t.traverseLeaves g
    let ts' ← traverseAll g ts
    pure (t' :: ts')
end

end SyntaxTree

/-- A tree over the non-terminals of a grammar whose leaves are ranges of bytes of the input. -/
abbrev ParseTree := SyntaxTree String Span

/-- The text in a range of bytes. -/
def Span.slice (s : Span) (w : String) : Except Fault String :=
  match Text.slice? w s.start s.stop with
  | some piece => .ok piece
  | none => .error (.noSlice s.start s.stop)

namespace ParseTree

/-- Leaves are shown as ranges. -/
def toText (t : ParseTree) : String := t.text id Span.text

/-- The tree with the pieces of the input in place of their ranges. -/
def pieces (t : ParseTree) (w : String) : Except Fault (SyntaxTree String String) :=
  t.traverseLeaves (Span.slice · w)

/-- The text that a tree was parsed from: the pieces of its leaves, joined. -/
def yielded (t : ParseTree) (w : String) : Except Fault String := do
  return String.join (← t.leaves.mapM (Span.slice · w))

mutual
/-- Leaves are shown as the pieces of the input that they take, quoted. -/
def rendered (w : String) : ParseTree → Except Fault String
  | .node k ts => do return k ++ "(" ++ " ".intercalate (← renderedAll w ts) ++ ")"
  | .leaf s => do return Text.quoted (← s.slice w)
def renderedAll (w : String) : List ParseTree → Except Fault (List String)
  | [] => pure []
  | t :: ts => do
    let r ← rendered w t
    let rs ← renderedAll w ts
    pure (r :: rs)
end

/-- Several trees, one on a line. -/
def renderedLines (w : String) (ts : List ParseTree) : Except Fault String := do
  return "\n".intercalate (← renderedAll w ts)

example : toText (.node "S" [.leaf ⟨0, 1⟩, .node "T" [], .leaf ⟨1, 2⟩]) = "S(0..1 T() 1..2)" := by
  decide +kernel

example : (rendered "ab" (.node "S" [.leaf ⟨0, 1⟩, .node "T" [], .leaf ⟨1, 1⟩])).toOption =
    some "S(\"a\" T() \"\")" := by decide +kernel

end ParseTree
end ContextFree
