import ContextFree.NormalForm.Prune

/-! The normal form of a grammar. Every rule expands a non-terminal into a terminal or to a pair of
non-terminals, the empty word is set apart, and non-terminals and terminals go by number: the
isolated start is 0, those of the grammar follow, and then those that variants brought along. -/
namespace ContextFree

structure NormalForm where
  nonterms : Array Nonterm
  terms : Array Terminal
  rules : List NumberedRule
  /-- Whether the empty word is in the language. -/
  acceptsEmpty : Bool

namespace NormalForm

def size (nf : NormalForm) : Nat := nf.rules.length

/-- Whether no word at all is in the language. -/
def isEmpty (nf : NormalForm) : Bool := nf.rules.isEmpty && !nf.acceptsEmpty

/-- The isolated start. -/
def start : Nat := 0

end NormalForm

/-- What a grammar's normal form is made of, and what undoes it. -/
structure Grammar.Analysis where
  grammar : Grammar
  proofs : EmptyProofs
  variants : List Variant
  heads : List Nonterm
  edges : Index Nonterm (Variant × Nonterm)
  bodies : Index Nonterm Variant

namespace Grammar

def analysis (g : Grammar) : Analysis :=
  let proofs := g.emptyProofs
  let vs := g.variants proofs.nilable
  ⟨g, proofs, vs, g.heads, unitEdges vs, ContextFree.bodies vs⟩

namespace Analysis

def emissions (a : Analysis) : List Emission :=
  ContextFree.emissions a.edges.get a.bodies.get a.heads

/-- All rules before pruning, each where it is first needed. -/
def rules (a : Analysis) : List NamedRule :=
  (Register.ofList NamedRule.tag (a.emissions.flatMap Emission.rules)).toList

/-- All non-terminals, in the order of their numbers. -/
def nonterms (a : Analysis) : Roster Nonterm :=
  .ofList id (a.heads ++ a.emissions.flatMap (·.variant.ownNonterms))

/-- All terminals, in the order of their numbers. -/
def terms (a : Analysis) : Register Terminal.key :=
  .ofList Terminal.key (a.emissions.flatMap (·.variant.kept.filterMap Symbol.term?))

def normalForm (a : Analysis) : NormalForm :=
  let nonterms := a.nonterms
  let terms := a.terms
  { nonterms := nonterms.entries
    terms := terms.entries
    rules := prune NormalForm.start (a.rules.map (Rule.map nonterms.placeOf terms.placeOf))
    acceptsEmpty := a.proofs.nilable (.nonterm a.grammar.start) }

end Analysis

def normalForm (g : Grammar) : NormalForm := g.analysis.normalForm

end Grammar
end ContextFree
