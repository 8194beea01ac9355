import ContextFree.Fault
import ContextFree.Text.Offset

/-! Matchers: what a terminal does. Given the whole word and an offset, a matcher tells where the
match that starts there ends, if there is one. Reading text at an offset that is no boundary is a
fault; the offset that is returned is not restricted. -/
namespace ContextFree

/-- The end of the match from an offset of a word. -/
abbrev Matcher := String → Nat → Except Fault (Option Nat)

namespace Matcher
open Text

/-- The characters from an offset on, which has to be a boundary. -/
def rest (w : String) (start : Nat) : Except Fault (List Char) :=
  match charsFrom? w.toList start with
  | some cs => .ok cs
  | none => .error (.notBoundary start)

/-- A fixed text. -/
def literal (s : String) : Matcher := fun w start => do
  let cs ← rest w start
  pure (if s.toList.isPrefixOf cs then some (start + size s.toList) else none)

/-- One character that satisfies a test. -/
def one (p : Char → Bool) : Matcher := fun w start => do
  let cs ← rest w start
  pure ((cs.head?.filter p).map fun c => start + c.utf8Size)

/-- The longest run, which may be empty, of characters that satisfy a test. -/
def run (p : Char → Bool) : Matcher := fun w start => do
  let cs ← rest w start
  pure (some (start + size (cs.takeWhile p)))

/-- A fixed number of bytes, wherever that leads. -/
def forward (count : Nat) : Matcher := fun _ start => pure (some (start + count))

/-- A fixed number of bytes backwards. -/
def backward (count : Nat) : Matcher := fun _ start =>
  pure (if count ≤ start then some (start - count) else none)

/-- Everything up to the end of the word. -/
def toEnd : Matcher := fun w _ => pure (some (size w.toList))

def never : Matcher := fun _ _ => pure none

/-- The first character of the word. -/
def first : Matcher := fun w start =>
  pure (if start = 0 then w.toList.head?.map Char.utf8Size else none)

/-- The character before the offset once more. -/
def repeated : Matcher := fun w start => do
  let cs ← rest w start
  let before := (charsBefore? w.toList start).bind List.getLast?
  pure ((cs.head?.filter (before == some ·)).map fun c => start + c.utf8Size)

example : (run (· == 'a') "baab" 1).toOption = some (some 3) ∧
    (run (· == 'a') "baab" 0).toOption = some (some 0) := by decide +kernel

/-- Inside a character nothing can be read. -/
example : (one (· == 'é') "aé" 1).toOption = some (some 3) ∧
    (one (· == 'é') "aé" 2).toOption = none := by decide +kernel

example : (repeated "éé" 2).toOption = some (some 4) ∧ (repeated "éé" 0).toOption = some none := by
  decide +kernel

end Matcher
end ContextFree
