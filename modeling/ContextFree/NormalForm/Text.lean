import ContextFree.Grammar.Text
import ContextFree.NormalForm

/-! Texts of normal forms: one line for each rule. -/
namespace ContextFree

/-- The notation of a terminal with the given key. -/
def Terminal.Key.text : Terminal.Key → String
  | literal s => "'" ++ s ++ "'"
  | charClass c => c.text
  | pattern source => "/" ++ source ++ "/"
  | blackBox name => "blackbox[" ++ name ++ "]"

@[simp] theorem Terminal.text_key (t : Terminal) : t.key.text = t.text := by cases t <;> rfl

/-- Non-terminals that are not the grammar's are shown between angle brackets. -/
def Nonterm.text : Nonterm → String
  | start => "<start>"
  | source name => name
  | tail variant position => "<v" ++ toString variant ++ "." ++ toString position ++ ">"
  | wrap t => "<" ++ t.text ++ ">"

namespace NormalForm

def nontermText (nf : NormalForm) (a : Nat) : String := (nf.nonterms[a]?.map Nonterm.text).getD ""

def termText (nf : NormalForm) (t : Nat) : String := (nf.terms[t]?.map Terminal.text).getD ""

def ruleText (nf : NormalForm) (r : NumberedRule) : String :=
  nf.nontermText r.lhs ++ " ::= " ++ match r.body with
    | .term t => nf.termText t
    | .pair b c => nf.nontermText b ++ " " ++ nf.nontermText c

/-- The rules in order, after a line for the empty word if it is accepted. -/
def lines (nf : NormalForm) : List String :=
  (if nf.acceptsEmpty then ["<start> ::= ''"] else []) ++ nf.rules.map nf.ruleText

def text (nf : NormalForm) : String := "\n".intercalate nf.lines

end NormalForm
end ContextFree
