import ContextFree.Text.Quoted

/-! Syntax errors: why a word is not in the language of a grammar. -/
namespace ContextFree

/-- A range of bytes. -/
structure Span where
  start : Nat
  stop : Nat
  deriving DecidableEq, Repr

/-- What kept a word from being recognised. -/
inductive Reason
  /-- The word is empty and the start symbol does not derive the empty word. -/
  | emptyNotAllowed
  /-- No match of a useful terminal takes the character. -/
  | unknownToken
  /-- Every character is taken by some match, but no derivation spans the word. -/
  | unmatchedPattern
  deriving DecidableEq, Repr

/-- The range points at where recognition gave up. -/
structure SyntaxError where
  input : String
  range : Span
  reason : Reason
  deriving DecidableEq, Repr

def Span.text (s : Span) : String := toString s.start ++ ".." ++ toString s.stop

def Reason.text : Reason → String
  | emptyNotAllowed => "empty input not allowed"
  | unknownToken => "unknown token"
  | unmatchedPattern => "unmatched pattern"

def SyntaxError.message (e : SyntaxError) : String :=
  e.reason.text ++ " at " ++ e.range.text ++ " of " ++ Text.quoted e.input

example : (SyntaxError.mk "a?" ⟨1, 2⟩ .unknownToken).message =
    "unknown token at 1..2 of \"a?\"" := by
  decide +kernel

end ContextFree
