import ContextFree.Distinct
import ContextFree.Grammar
import ContextFree.Text.Quoted

/-! Texts of grammars: a notation for readers, and an inspection form that spells the
constructors. -/
namespace ContextFree

open Text (quoted quotedChar)

namespace CharClass

def text : CharClass → String
  | letters => "[:alpha:]"
  | digits => "[:digit:]"
  | alphanumerics => "[:alnum:]"
  | whiteSpace => "[:space:]"
  | punctuation => "[:punct:]"
  | set members => "[" ++ String.ofList members.chars ++ "]"
  | range first last => "[" ++ first.toString ++ "-" ++ last.toString ++ "]"

def inspect : CharClass → String
  | letters => "Letters"
  | digits => "Digits"
  | alphanumerics => "Alphanumerics"
  | whiteSpace => "Whitespace"
  | punctuation => "Punctuation"
  | set members => "Set(\x7b" ++ ", ".intercalate (members.chars.map quotedChar) ++ "\x7d)"
  | range first last => "Range(" ++ quotedChar first ++ ", " ++ quotedChar last ++ ")"

example : (range 'a' 'f').text = "[a-f]" ∧
    (ofString "a'").inspect = "Set(\x7b'\\'', 'a'\x7d)" := by
  decide +kernel

end CharClass

namespace Terminal

def text : Terminal → String
  | literal s => "'" ++ s ++ "'"
  | charClass c => c.text
  | pattern p => "/" ++ p.source ++ "/"
  | blackBox b => "blackbox[" ++ b.name ++ "]"

def inspect : Terminal → String
  | literal s => "Lit(" ++ quoted s ++ ")"
  | charClass c => "Class(" ++ c.inspect ++ ")"
  | pattern p => "Pattern(Pattern(Regex(" ++ quoted p.source ++ ")))"
  | blackBox b => "Blackbox(blackbox[" ++ b.name ++ "])"

/-- The text of a terminal depends on its key only. -/
theorem text_eq_of_key_eq {s t : Terminal} (h : s.key = t.key) : s.text = t.text := by
  cases s <;> cases t <;> simp_all [key, text]

end Terminal

/-- The inspection form of a non-terminal. -/
def inspectName (name : String) : String := "NonTerm(" ++ quoted name ++ ")"

namespace Symbol

def text : Symbol → String
  | nonterm name => name
  | term t => t.text

def inspect : Symbol → String
  | nonterm name => "NonTerm(" ++ inspectName name ++ ")"
  | term t => "Term(" ++ t.inspect ++ ")"

end Symbol

/-- A right-hand side; an empty one is shown as the empty literal. -/
def rightSideText (xs : List Symbol) : String :=
  if xs.isEmpty then "''" else " ".intercalate (xs.map Symbol.text)

namespace Production

def text (p : Production) : String := p.lhs ++ " ::= " ++ rightSideText p.rhs

def inspect (p : Production) : String :=
  "Production \x7b lhs: " ++ inspectName p.lhs ++ ", rhs: [" ++
    ", ".intercalate (p.rhs.map Symbol.inspect) ++ "] \x7d"

example : (Production.mk "S" [.literal "a", .nonterm "S"]).text = "S ::= 'a' S" ∧
    (Production.empty "S").text = "S ::= ''" := by decide +kernel

end Production

namespace Grammar

/-- The non-terminals, the start symbol first, in order of their first production. -/
def displayOrder (g : Grammar) : List String := distinct (g.start :: g.productions.map (·.lhs))

/-- One line for each non-terminal, with its alternatives. -/
def text (g : Grammar) : String :=
  "\n".intercalate (g.displayOrder.map fun name =>
    name ++ " ::=" ++ " |".intercalate ((g.alternatives name).map (" " ++ rightSideText ·.rhs)))

/-- The non-terminals in alphabetical order. -/
def sortedNonterms (g : Grammar) : List String :=
  (distinct (g.productions.map (·.lhs))).mergeSort (· ≤ ·)

end Grammar

def GrammarError.message : GrammarError → String
  | missingStart start => "start symbol \x60" ++ start ++ "\x60 has no productions"
  | undefined nonterm referrer =>
    "non-terminal \x60" ++ nonterm ++ "\x60 is referenced by \x60" ++ referrer ++
      "\x60 but has no productions"
  | notLinear p =>
    "production \x60" ++ p.text ++ "\x60 has more than one non-terminal on its right-hand side"

end ContextFree
