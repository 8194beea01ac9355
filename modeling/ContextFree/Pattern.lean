import ContextFree.Text.Offset

/-! Patterns: regular expressions that are matched at one offset of a word, with the text before
and after in view. A pattern is its text. What the text means is left to an engine, which is given
from outside: which texts it takes, and what a search for one of them finds. -/
namespace ContextFree

@[ext]
structure Pattern where
  source : String

namespace Pattern

/-- A search of a text from a position on, with what lies before in view: where the first match
starts and where it ends. Positions count characters, so matches never split one. -/
abbrev Search := Array Char → Nat → Option (Nat × Nat)

/-- An engine makes a search of the text of a pattern, or refuses it. -/
class Engine where
  Refusal : Type
  read : String → Except Refusal Search

variable [engine : Engine]

/-- The pattern of a text, if the engine takes it. -/
def compile (source : String) : Except engine.Refusal Pattern :=
  (Engine.read source).map fun _ => ⟨source⟩

/-- The end of the match at an offset: the first that a search from there finds, provided that it
starts there. Inside a character there is none, nor is there one of a text that was refused. -/
def accept (p : Pattern) (w : String) (start : Nat) : Option Nat :=
  match engine.read p.source with
  | .error _ => none
  | .ok search =>
    let cs := w.toList
    (Text.charsBefore? cs start).bind fun before =>
      ((search cs.toArray before.length).filter (·.1 == before.length)).map fun (_, stop) =>
        Text.size (cs.take stop)

end Pattern
end ContextFree
