import ContextFree.Pattern.CharSet

/-! Regular expressions as data: literal text, sets of characters, assertions about a position, and
their groups, sequences, alternatives and repetitions. They are built in a form where what is said
in the same way is the same expression, so that alternatives share the items they begin with. -/
namespace ContextFree.Pattern

/-- An assertion about a position, which takes no character. -/
inductive Look
  | textStart | textEnd | lineStart | lineEnd
  | wordBoundary | noWordBoundary | wordStart | wordEnd
  /-- No word before, and no word after: halves of the start and the end of a word. -/
  | wordStartHalf | wordEndHalf
  deriving DecidableEq, Repr

/-- Whether an assertion holds between the characters on its two sides. -/
def Look.holds (l : Look) (before after : Option Char) : Bool :=
  let word (c : Option Char) : Bool := c.any Unicode.isWord
  match l with
  | textStart => before.isNone
  | textEnd => after.isNone
  | lineStart => before.all (· == '\n')
  | lineEnd => after.all (· == '\n')
  | wordBoundary => word before != word after
  | noWordBoundary => word before == word after
  | wordStart => !word before && word after
  | wordEnd => word before && !word after
  | wordStartHalf => !word before
  | wordEndHalf => !word after

/-- A regular expression. The order of alternatives, and whether a repetition is greedy, say
which of several matches is preferred. Sequences and alternatives nest to the right, and their
parts are none themselves. -/
inductive Regex
  | empty
  | literal (cs : List Char)
  | chars (s : CharSet)
  | look (l : Look)
  | group (number : Nat) (name : Option String) (e : Regex)
  | seq (e f : Regex)
  | alt (e f : Regex)
  | rep (least : Nat) (most : Option Nat) (greedy : Bool) (e : Regex)
  deriving DecidableEq, Repr

namespace Regex

/-- Whether an expression can match no character at all. -/
def nullable : Regex → Bool
  | empty | look _ => true
  | literal cs => cs.isEmpty
  | chars _ => false
  | group _ _ e => e.nullable
  | seq e f => e.nullable && f.nullable
  | alt e f => e.nullable || f.nullable
  | rep least _ _ e => least == 0 || e.nullable

/-- Whether an expression never matches a character. -/
def takesNothing : Regex → Bool
  | empty | look _ => true
  | literal _ | chars _ => false
  | group _ _ e | rep _ _ _ e => e.takesNothing
  | seq e f | alt e f => e.takesNothing && f.takesNothing

def size : Regex → Nat
  | empty | literal _ | chars _ | look _ => 1
  | group _ _ e | rep _ _ _ e => e.size + 1
  | seq e f | alt e f => e.size + f.size + 1

/-- The parts of a sequence. -/
def items : Regex → List Regex
  | empty => []
  | seq e f => e :: f.items
  | e => [e]

/-- The parts of a choice. -/
def branches : Regex → List Regex
  | alt e f => e :: f.branches
  | e => [e]

def ofItems : List Regex → Regex
  | [] => empty
  | [e] => e
  | e :: es => seq e (ofItems es)

/-- A choice between branches; without any, nothing matches. -/
def ofBranches : List Regex → Regex
  | [] => chars .none
  | [e] => e
  | e :: es => alt e (ofBranches es)

/-- A set of one character is a literal. -/
def ofSet (s : CharSet) : Regex :=
  match s.single? with
  | some c => literal [c]
  | none => chars s

/-- Literals side by side are one literal. -/
def joinLiterals : List Regex → List Regex
  | [] => []
  | literal cs :: es => match joinLiterals es with
    | literal ds :: rest => literal (cs ++ ds) :: rest
    | rest => literal cs :: rest
  | e :: es => e :: joinLiterals es

/-- One expression after the other. -/
def sequence (es : List Regex) : Regex := ofItems (joinLiterals (es.flatMap items))

/-- The set that branches of one character, or branches that are sets, choose from. -/
def choiceSet? (es : List Regex) : Option CharSet :=
  let single? : Regex → Option CharSet
    | literal [c] => some (.single c)
    | _ => none
  let set? : Regex → Option CharSet
    | chars s => some s
    | _ => none
  ((es.mapM single?).orElse fun _ => es.mapM set?).map .unions

/-- What two lists both begin with. -/
def sharedPrefix : List Regex → List Regex → List Regex
  | e :: es, f :: fs => if e = f then e :: sharedPrefix es fs else []
  | _, _ => []

/-- The items that all branches begin with, if they are all sequences. -/
def sharedItems (es : List Regex) : List Regex :=
  let seqItems? : Regex → Option (List Regex)
    | seq e f => some (e :: f.items)
    | _ => none
  match es.mapM seqItems? with
  | some (l :: ls) => ls.foldl sharedPrefix l
  | _ => []

/-- A choice, where items that all branches begin with are shared and stand before the choice of
the rests. The fuel is at least the size of the branches, and sharing makes them smaller. -/
def choiceWithin (fuel : Nat) (es : List Regex) : Regex :=
  match es.flatMap branches with
  | [e] => e
  | es => match choiceSet? es, fuel, sharedItems es with
    | some s, _, _ => ofSet s
    | none, fuel + 1, e :: shared =>
      let rests := es.map fun f => ofItems (f.items.drop (shared.length + 1))
      sequence (e :: shared ++ [choiceWithin fuel rests])
    | none, _, _ => ofBranches es

/-- The first of several expressions that leads to a match. What they share at the beginning is
matched as it prefers to be, before any of the rests is tried. -/
def choice (es : List Regex) : Regex :=
  choiceWithin (es.foldl (fun n e => n + e.size) 0) es

/-- So many matches, one after the other. Repeating what takes no character does not add to it. -/
def repeated (least : Nat) (most : Option Nat) (greedy : Bool) (e : Regex) : Regex :=
  let (least, most) :=
    if e.takesNothing then (min least 1, some (min (most.getD 1) 1)) else (least, most)
  if most = some 0 then empty
  else if least = 1 ∧ most = some 1 then e
  else rep least most greedy e

/-! ### Values of expressions -/

/-- A value for every expression, made from the values of its parts. Those of a sequence and of a
choice are given all at once. -/
structure Valuation (α : Type) where
  /-- The value of an expression without parts. -/
  leaf : Regex → α
  group : Nat → Option String → α → α
  sequence : List α → α
  choice : List α → α
  rep : Nat → Option Nat → Bool → α → α

/-- The values that make that of an expression. -/
inductive Parts (α : Type)
  | one (a : α)
  | sequence (items : List α)
  | choice (branches : List α)

namespace Valuation

variable {α : Type}

def join (v : Valuation α) : Parts α → α
  | .one a => a
  | .sequence items => v.sequence items
  | .choice branches => v.choice branches

def parts (v : Valuation α) : Regex → Parts α
  | .group number name e => .one (v.group number name (v.join (v.parts e)))
  | .rep least most greedy e => .one (v.rep least most greedy (v.join (v.parts e)))
  | .seq e f =>
    let first := v.join (v.parts e)
    match v.parts f with
    | .sequence items => .sequence (first :: items)
    | p => .sequence [first, v.join p]
  | .alt e f =>
    let first := v.join (v.parts e)
    match v.parts f with
    | .choice branches => .choice (first :: branches)
    | p => .choice [first, v.join p]
  | e => .one (v.leaf e)

def value (v : Valuation α) (e : Regex) : α := v.join (v.parts e)

end Valuation

/-- An expression that matches the same without any group. -/
def ungrouped : Regex → Regex :=
  (Valuation.mk id (fun _ _ e => e) sequence choice repeated).value

example : sequence [literal ['a'], sequence [literal ['b'], look .textEnd], empty] =
    seq (literal ['a', 'b']) (look .textEnd) := by decide +kernel

/-- The repetition is shared, and what is left is a choice between characters. -/
example : let e := repeated 0 none true (chars .all)
    choice [sequence [e, literal ['b']], sequence [e, literal ['c']]] =
      seq e (chars (.range 'b' 'c')) := by decide +kernel

end Regex
end ContextFree.Pattern
