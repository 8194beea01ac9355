import ContextFree.Grammar
import ContextFree.Tree.Text

/-! Derivations: what it means for a tree to derive a part of a word by the productions of a
grammar. In an acyclic derivation no non-terminal derives again, further down, the same part of
the word. -/
namespace ContextFree

variable [Pattern.Engine]

/-- A terminal takes the bytes between two offsets: the empty literal takes none, any other what
its matcher accepts up to a boundary. -/
def Terminal.Takes (t : Terminal) (w : String) (a b : Nat) : Prop :=
  if t.isEmpty then a = b else b ∈ Text.bounds w ∧ t.accept w a = .ok (some b)

variable (g : Grammar) (w : String)

mutual
/-- A tree derives the bytes between two offsets from a symbol. -/
inductive Derives : Symbol → Nat → Nat → ParseTree → Prop
  | term {t : Terminal} {a b : Nat} (h : t.Takes w a b) : Derives (.term t) a b (.leaf ⟨a, b⟩)
  | node {p : Production} {a b : Nat} {ts : List ParseTree} (hp : p ∈ g.productions)
    (h : DerivesAll p.rhs a b ts) : Derives (.nonterm p.lhs) a b (.node p.lhs ts)
/-- Trees derive the bytes between two offsets from symbols, each where the one before ended. -/
inductive DerivesAll : List Symbol → Nat → Nat → List ParseTree → Prop
  | nil {a : Nat} : DerivesAll [] a a []
  | cons {x : Symbol} {xs : List Symbol} {a b c : Nat} {t : ParseTree} {ts : List ParseTree}
    (h : Derives x a b t) (hs : DerivesAll xs b c ts) : DerivesAll (x :: xs) a c (t :: ts)
end

mutual
/-- A derivation below given nodes, in which no node has the non-terminal and the offsets of a
node above it. -/
inductive DerivesAcyclic : List (String × Nat × Nat) → Symbol → Nat → Nat → ParseTree → Prop
  | term {above : List (String × Nat × Nat)} {t : Terminal} {a b : Nat} (h : t.Takes w a b) :
    DerivesAcyclic above (.term t) a b (.leaf ⟨a, b⟩)
  | node {above : List (String × Nat × Nat)} {p : Production} {a b : Nat} {ts : List ParseTree}
    (hp : p ∈ g.productions) (hn : (p.lhs, a, b) ∉ above)
    (h : DerivesAllAcyclic ((p.lhs, a, b) :: above) p.rhs a b ts) :
    DerivesAcyclic above (.nonterm p.lhs) a b (.node p.lhs ts)
inductive DerivesAllAcyclic :
    List (String × Nat × Nat) → List Symbol → Nat → Nat → List ParseTree → Prop
  | nil {above : List (String × Nat × Nat)} {a : Nat} : DerivesAllAcyclic above [] a a []
  | cons {above : List (String × Nat × Nat)} {x : Symbol} {xs : List Symbol} {a b c : Nat}
    {t : ParseTree} {ts : List ParseTree} (h : DerivesAcyclic above x a b t)
    (hs : DerivesAllAcyclic above xs b c ts) : DerivesAllAcyclic above (x :: xs) a c (t :: ts)
end

namespace Grammar

/-- Whether a word is in the language, as a statement. -/
def Generates : Prop := ∃ t, Derives g w (.nonterm g.start) 0 (Text.size w.toList) t

end Grammar

variable {g : Grammar} {w : String}

mutual
theorem DerivesAcyclic.derives {above : List (String × Nat × Nat)} {x : Symbol} {a b : Nat}
    {t : ParseTree} : DerivesAcyclic g w above x a b t → Derives g w x a b t
  | .term h => .term h
  | .node hp _ h => .node hp h.derivesAll
theorem DerivesAllAcyclic.derivesAll {above : List (String × Nat × Nat)} {xs : List Symbol}
    {a b : Nat} {ts : List ParseTree} :
    DerivesAllAcyclic g w above xs a b ts → DerivesAll g w xs a b ts
  | .nil => .nil
  | .cons h hs => .cons h.derives hs.derivesAll
end

theorem Terminal.Takes.le {t : Terminal} {a b : Nat} (h : t.Takes w a b) : a ≤ b := by
  unfold Takes at h
  split at h
  · exact Nat.le_of_eq h
  · exact Nat.le_of_lt (lt_of_accept h.2)

mutual
/-- A derivation never goes backwards. -/
theorem Derives.le {x : Symbol} {a b : Nat} {t : ParseTree} : Derives g w x a b t → a ≤ b
  | .term h => h.le
  | .node _ h => h.le
theorem DerivesAll.le {xs : List Symbol} {a b : Nat} {ts : List ParseTree} :
    DerivesAll g w xs a b ts → a ≤ b
  | .nil => Nat.le_refl _
  | .cons h hs => Nat.le_trans h.le hs.le
end

end ContextFree
