import ContextFree.NormalForm.UnitRoute

/-! Rules of a normal form. The right-hand side of a rule is a terminal or a pair of
non-terminals, and the rule knows how to splice it back into a tree of the grammar. -/
namespace ContextFree

inductive Body (ν τ : Type)
  | term (t : τ)
  | pair (b c : ν)
  deriving DecidableEq, Repr

/-- Where a rule comes from. -/
inductive Origin
  /-- A variant that is not unit, reached through unit variants. -/
  | derived (units : Route) (variant : Variant)
  /-- A part of what a variant keeps. -/
  | tail
  /-- A terminal inside a pair. -/
  | wrap

/-- A rule over non-terminals and terminals of any kind: by what they are, or by number. -/
structure Rule (ν τ : Type) where
  lhs : ν
  body : Body ν τ
  origin : Origin

/-- Renames the non-terminals and terminals of a rule. -/
def Rule.map {ν τ ν' τ' : Type} (f : ν → ν') (g : τ → τ') (r : Rule ν τ) : Rule ν' τ' where
  lhs := f r.lhs
  body := match r.body with
    | .term t => .term (g t)
    | .pair b c => .pair (f b) (f c)
  origin := r.origin

/-- A rule over non-terminals and terminals as they are. -/
abbrev NamedRule := Rule Nonterm Terminal.Key

/-- A rule over numbers. -/
abbrev NumberedRule := Rule Nat Nat

namespace NamedRule

/-- What tells rules apart: the left-hand side and, for a derived rule, its variant. -/
def tag (r : NamedRule) : Nonterm × Option Nat :=
  (r.lhs, match r.origin with | .derived _ v => some v.number | _ => none)

end NamedRule

/-- The non-terminal of a symbol in a pair. -/
def Nonterm.ofSymbol : Symbol → Nonterm
  | .nonterm name => .source name
  | .term t => .wrap t.key

/-- The rules of the terminals among symbols in pairs. -/
def wrapRules (xs : List Symbol) : List NamedRule :=
  (xs.filterMap Symbol.term?).map fun t => ⟨.wrap t.key, .term t.key, .wrap⟩

/-- The rules of the tails of a variant, from a position on: each pairs a symbol with the rest.
Terminals get their rules where they are met. -/
def tailRules (variant : Nat) : Nat → List Symbol → List NamedRule
  | k, x :: y :: z :: xs =>
    wrapRules [x] ++ ⟨.tail variant k, .pair (.ofSymbol x) (.tail variant (k + 1)), .tail⟩ ::
      tailRules variant (k + 1) (y :: z :: xs)
  | k, [x, y] => wrapRules [x, y] ++ [⟨.tail variant k, .pair (.ofSymbol x) (.ofSymbol y), .tail⟩]
  | _, _ => []

namespace Variant

/-- The rules that a variant's own rule is built on. -/
def support (v : Variant) : List NamedRule :=
  match v.kept with
  | [] | [_] => []
  | [x, y] => wrapRules [x, y]
  | x :: xs => wrapRules [x] ++ tailRules v.number 1 xs

/-- The right-hand side that spells what a variant keeps, none for unit variants. -/
def body? (v : Variant) : Option (Body Nonterm Terminal.Key) :=
  match v.kept with
  | [] | [.nonterm _] => none
  | [.term t] => some (.term t.key)
  | [x, y] => some (.pair (.ofSymbol x) (.ofSymbol y))
  | x :: _ => some (.pair (.ofSymbol x) (.tail v.number 1))

/-- The non-terminals that a variant brings with it, in order. -/
def ownNonterms (v : Variant) : List Nonterm :=
  let wraps (xs : List Symbol) := (xs.filterMap Symbol.term?).map (Nonterm.wrap ·.key)
  match v.kept with
  | [] | [_] => []
  | [x, y] => wraps [x, y]
  | x :: xs => wraps [x] ++ (List.range' 1 (xs.length - 1)).map (.tail v.number) ++ wraps xs

end Variant

/-- A variant that is not unit, for a non-terminal that reaches it through unit variants. -/
structure Emission where
  head : Nonterm
  units : Route
  variant : Variant

namespace Emission

def rule? (e : Emission) : Option NamedRule :=
  e.variant.body?.map fun b => ⟨e.head, b, .derived e.units e.variant⟩

/-- The emission's rule after the rules it is built on. -/
def rules (e : Emission) : List NamedRule := e.variant.support ++ e.rule?.toList

end Emission

/-- The variants that are not unit for every non-terminal that reaches them, once for each. -/
def emissions (edges : Nonterm → List (Variant × Nonterm)) (bodies : Nonterm → List Variant)
    (heads : List Nonterm) : List Emission :=
  heads.flatMap fun a => (unitClosure edges heads a).flatMap fun (b, route) =>
    (bodies b).map fun v => ⟨a, route, v⟩

end ContextFree
