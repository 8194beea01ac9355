import ContextFree.Terminal

/-! Context-free grammars: non-terminals, which are names, and terminals; productions; and a start
symbol. In a grammar the start symbol and every non-terminal on a right-hand side have a
production. The order of the productions decides which of several trees comes first, and nothing
else. -/
namespace ContextFree

inductive Symbol
  | nonterm (name : String)
  | term (t : Terminal)

namespace Symbol

/-- What identifies a symbol: its name, or its terminal's key. -/
inductive Key
  | nonterm (name : String)
  | term (k : Terminal.Key)
  deriving DecidableEq, Repr

def key : Symbol → Key
  | nonterm name => .nonterm name
  | term t => .term t.key

instance : BEq Symbol := ⟨fun x y => x.key == y.key⟩

instance : ReflBEq Symbol := ⟨fun {x} => beq_self_eq_true x.key⟩

def nonterm? : Symbol → Option String
  | nonterm name => some name
  | term _ => none

def term? : Symbol → Option Terminal
  | nonterm _ => none
  | term t => some t

/-- The literal of a text. -/
def literal (s : String) : Symbol := term (.literal s)

def charClass (c : CharClass) : Symbol := term (.charClass c)

/-- The pattern of a text, if the engine takes it. -/
def pattern [engine : Pattern.Engine] (source : String) : Except engine.Refusal Symbol :=
  (Pattern.compile source).map (term ∘ .pattern)

def blackBox (b : BlackBox) : Symbol := term (.blackBox b)

/-- Whether a symbol is the empty literal. -/
def isEmptyLiteral : Symbol → Bool
  | nonterm _ => false
  | term t => t.isEmpty

end Symbol

structure Production where
  lhs : String
  rhs : List Symbol

namespace Production

instance : BEq Production := ⟨fun p q => p.lhs == q.lhs && p.rhs == q.rhs⟩

instance : ReflBEq Production :=
  ⟨fun {p} => Bool.and_eq_true_iff.2 ⟨beq_self_eq_true p.lhs, beq_self_eq_true p.rhs⟩⟩

/-- The production with an empty right-hand side. -/
def empty (lhs : String) : Production := ⟨lhs, []⟩

/-- One production for each right-hand side, in order. -/
def alternatives (lhs : String) (alts : List (List Symbol)) : List Production :=
  alts.map (⟨lhs, ·⟩)

/-- The non-terminals on the right-hand side, in order. -/
def references (p : Production) : List String := p.rhs.filterMap Symbol.nonterm?

end Production

/-- Why productions and a start symbol are refused. -/
inductive GrammarError
  | missingStart (start : String)
  | undefined (nonterm referrer : String)
  /-- The production has more than one non-terminal on its right-hand side. -/
  | notLinear (p : Production)

/-- A context-free grammar. -/
structure Grammar where
  start : String
  productions : List Production
  start_defined : ∃ p ∈ productions, p.lhs = start
  closed : ∀ p ∈ productions, ∀ name ∈ p.references, ∃ q ∈ productions, q.lhs = name

namespace Grammar

def defines (ps : List Production) (name : String) : Bool := ps.any (·.lhs == name)

theorem defines_iff {ps : List Production} {name : String} :
    defines ps name ↔ ∃ p ∈ ps, p.lhs = name := by simp [defines]

/-- The first reference, in the order of the productions, to a name without a production. -/
def dangling? (ps : List Production) : Option (String × String) :=
  ps.findSome? fun p => (p.references.find? (!defines ps ·)).map (·, p.lhs)

theorem dangling?_eq_none {ps : List Production} (h : dangling? ps = none) :
    ∀ p ∈ ps, ∀ name ∈ p.references, ∃ q ∈ ps, q.lhs = name := by
  intro p hp name hn
  have hf := List.findSome?_eq_none_iff.1 h p hp
  have := List.find?_eq_none.1 (Option.map_eq_none_iff.1 hf) name hn
  exact defines_iff.1 (by simpa using this)

/-- Checks the start symbol first, and then every reference in order. -/
def check (ps : List Production) (start : String) : Except GrammarError Grammar :=
  if hs : defines ps start then
    match hd : dangling? ps with
    | some (name, referrer) => .error (.undefined name referrer)
    | none => .ok ⟨start, ps, defines_iff.1 hs, dangling?_eq_none hd⟩
  else .error (.missingStart start)

/-- The productions of a non-terminal, in order. -/
def alternatives (g : Grammar) (name : String) : List Production :=
  g.productions.filter (·.lhs == name)

end Grammar
end ContextFree
