import ContextFree.Grammar
import ContextFree.Register
import ContextFree.Saturation

/-! Nilable symbols, which derive the empty word, and the productions that prove them so. -/
namespace ContextFree

/-- A production with its number in the grammar. -/
structure NumberedProduction where
  production : Production
  number : Nat

/-- Proofs of nilability, earliest first: productions whose right-hand sides are nilable by the
proofs before them, at most one for a non-terminal. Following proofs never comes back. -/
abbrev EmptyProofs := Register fun e : NumberedProduction => e.production.lhs

namespace EmptyProofs

/-- The proof of a non-terminal. -/
def proof? (ps : EmptyProofs) (name : String) : Option NumberedProduction := ps.get? name

/-- Non-terminals are nilable if they are proved so, terminals if they are empty literals. -/
def nilable (ps : EmptyProofs) : Symbol → Bool
  | .nonterm name => ps.has name
  | .term t => t.isEmpty

/-- Takes a production as a proof if it is one and its non-terminal has none yet. -/
def consider (ps : EmptyProofs) (e : NumberedProduction) : EmptyProofs :=
  if e.production.rhs.all ps.nilable then ps.enter e else ps

theorem prefix_consider (ps : EmptyProofs) (e : NumberedProduction) :
    ps.toList <+: (ps.consider e).toList := by
  rw [consider]
  split
  · rw [Register.toList_enter]
    split
    · exact List.prefix_refl _
    · exact List.prefix_append _ _
  · exact List.prefix_refl _

end EmptyProofs

namespace Grammar

def numbered (g : Grammar) : List NumberedProduction :=
  g.productions.zipIdx.map fun (p, i) => ⟨p, i⟩

/-- For every nilable non-terminal the production that first proves it nilable, when productions
are considered in order, again and again. -/
def emptyProofs (g : Grammar) : EmptyProofs :=
  let numbered := g.numbered
  saturate Register.size (numbered.foldl EmptyProofs.consider) g.productions.length .empty

/-- The productions of a nilable non-terminal: its proof and then the others in order. -/
def proofFirst (g : Grammar) (e : NumberedProduction) : List Production :=
  e.production :: (g.numbered.filter fun f =>
    f.production.lhs == e.production.lhs && f.number != e.number).map (·.production)

end Grammar
end ContextFree
