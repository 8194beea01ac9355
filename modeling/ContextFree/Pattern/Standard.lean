import ContextFree.Pattern
import ContextFree.Pattern.Landmark
import ContextFree.Pattern.Reader

/-! The standard engine for patterns. It reads a regular expression, and runs its program. -/
namespace ContextFree.Pattern

/-- The search of an expression that is made ready. It leaves out the matches that start further
on, which no pattern accepts. -/
def Searcher.search (s : Searcher) : Search := fun text start =>
  (s.matchFrom? text start).map (start, ·)

namespace Engine

instance standard : Engine where
  Refusal := ReadError
  read source := (Regex.read source).map fun e => (Searcher.ofRegex e).search

end Engine

/-- A word boundary before the match is in view. -/
example : (mk "\\b[a-z]+").accept "é ab" 3 = some 5 ∧ (mk "\\b[a-z]+").accept "é ab" 4 = none ∧
    (mk "a)").accept "a" 0 = none := by decide +kernel

end ContextFree.Pattern
