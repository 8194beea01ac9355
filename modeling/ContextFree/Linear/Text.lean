import ContextFree.Grammar.Text
import ContextFree.Linear

/-! Texts of linear grammars. -/
namespace ContextFree

/-- One line for each production. -/
def LinearGrammar.text (g : LinearGrammar) : String :=
  "\n".intercalate (g.grammar.productions.map Production.text)

end ContextFree
