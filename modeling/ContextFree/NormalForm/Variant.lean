import ContextFree.Nilability

/-! Variants of productions. A variant of a production drops some of its nilable positions; what
it keeps derives a part of the word that is not empty. -/
namespace ContextFree

/-- A position of a right-hand side, and whether a variant keeps it. -/
structure Slot where
  symbol : Symbol
  kept : Bool

/-- The ways to keep positions, keeping one before dropping it. Empty literals are dropped, other
nilable symbols may be, and all else is kept. -/
def slotChoices (nilable : Symbol → Bool) : List Symbol → List (List Slot)
  | [] => [[]]
  | x :: xs =>
    let rest := slotChoices nilable xs
    let keep := rest.map (⟨x, true⟩ :: ·)
    let drop := rest.map (⟨x, false⟩ :: ·)
    if x.isEmptyLiteral then drop else if nilable x then keep ++ drop else keep

/-- Each choice is one for all positions. -/
theorem symbols_of_mem_slotChoices {nilable : Symbol → Bool} {xs : List Symbol} {ss : List Slot}
    (h : ss ∈ slotChoices nilable xs) : ss.map (·.symbol) = xs := by
  induction xs generalizing ss with
  | nil => simp_all [slotChoices]
  | cons x xs ih =>
    have key (b : Bool) (h : ss ∈ (slotChoices nilable xs).map (⟨x, b⟩ :: ·)) :
        ss.map (·.symbol) = x :: xs := by
      obtain ⟨r, hr, rfl⟩ := List.mem_map.1 h
      rw [List.map_cons, ih hr]
    rw [slotChoices] at h
    split at h
    · exact key false h
    · split at h
      · exact (List.mem_append.1 h).elim (key true) (key false)
      · exact key true h

/-- The non-terminals of a normal form: the isolated start, those of the grammar, and two kinds
that are no names and so can never clash with one. -/
inductive Nonterm
  | start
  | source (name : String)
  /-- What a variant keeps, from a position among its kept symbols on. -/
  | tail (variant position : Nat)
  /-- A terminal inside a pair. -/
  | wrap (t : Terminal.Key)
  deriving DecidableEq, Repr

/-- A production with a choice of kept positions. The variant of the isolated start has no
label and builds no node. -/
structure Variant where
  number : Nat
  label : Option String
  slots : List Slot

/-- Unit variants that lead from one non-terminal to another, outermost first. -/
abbrev Route := List Variant

instance : Coded Nonterm where
  code
    | .start => 0
    | .source name => Coded.code (1, name)
    | .tail variant position => Coded.code (variant, position)
    | .wrap t => Coded.code (2, t)

namespace Variant

def head (v : Variant) : Nonterm :=
  match v.label with
  | some name => .source name
  | none => .start

def kept (v : Variant) : List Symbol := (v.slots.filter (·.kept)).map (·.symbol)

/-- A unit variant keeps one symbol, a non-terminal: the one it leads to. -/
def unitTarget? (v : Variant) : Option Nonterm :=
  match v.kept with
  | [.nonterm name] => some (.source name)
  | _ => none

end Variant

namespace Grammar

/-- The choices for a production that keep something. -/
def variantSlots (nilable : Symbol → Bool) (p : Production) : List (List Slot) :=
  (slotChoices nilable p.rhs).filter (·.any (·.kept))

/-- The variants of a grammar: that of the isolated start, then those of the productions. -/
def variants (g : Grammar) (nilable : Symbol → Bool) : List Variant :=
  let isolation := (none, [⟨.nonterm g.start, true⟩])
  let others := g.productions.flatMap fun p => (variantSlots nilable p).map (some p.lhs, ·)
  (isolation :: others).zipIdx.map fun ((label, slots), number) => ⟨number, label, slots⟩

/-- The isolated start and the non-terminals of the productions, in order. -/
def heads (g : Grammar) : List Nonterm :=
  .start :: (distinct (g.productions.map (·.lhs))).map .source

end Grammar
end ContextFree
