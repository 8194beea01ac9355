import ContextFree.CharClass
import ContextFree.Matcher
import ContextFree.Pattern

/-! Terminals. A terminal is a literal, a character class, a pattern, or a black box: a matcher
that is known by its name only. What identifies a terminal is its key. -/
namespace ContextFree

/-- A matcher with a name, which is all that tells it from another. -/
structure BlackBox where
  name : String
  matcher : Matcher

namespace BlackBox

/-- A black box for one character that satisfies a test. -/
def predicate (name : String) (p : Char → Bool) : BlackBox := ⟨name, Matcher.one p⟩

end BlackBox

inductive Terminal
  | literal (s : String)
  | charClass (c : CharClass)
  | pattern (p : Pattern)
  | blackBox (b : BlackBox)

namespace Terminal

/-- What identifies a terminal: its text, its class, its pattern's text, or its name. -/
inductive Key
  | literal (s : String)
  | charClass (c : CharClass)
  | pattern (source : String)
  | blackBox (name : String)
  deriving DecidableEq, Repr

instance : Coded Key where
  code
    | .literal s => Coded.code (1, s)
    | .charClass c => Coded.code (2, c)
    | .pattern source => Coded.code (3, source)
    | .blackBox name => Coded.code (4, name)

def key : Terminal → Key
  | literal s => .literal s
  | charClass c => .charClass c
  | pattern p => .pattern p.source
  | blackBox b => .blackBox b.name

/-- Terminals with the same key are the same, black boxes apart. -/
theorem eq_of_key_eq {s t : Terminal} (h : s.key = t.key)
    (hb : ∀ b, s ≠ blackBox b) : s = t := by
  cases s <;> cases t <;> simp_all [key]
  exact Pattern.ext h

/-- The empty literal is the only terminal that matches no character. -/
def isEmpty : Terminal → Bool
  | literal s => s.toList.isEmpty
  | _ => false

variable [Pattern.Engine]

def matcher : Terminal → Matcher
  | literal s => Matcher.literal s
  | charClass c => Matcher.one c.contains
  | pattern p => fun w start => .ok (p.accept w start)
  | blackBox b => b.matcher

/-- The end of a match from an offset; a match that ends where it starts, or before, is none. -/
def accept (t : Terminal) (w : String) (start : Nat) : Except Fault (Option Nat) := do
  return (← t.matcher w start).filter (start < ·)

/-- An accepted match ends after its start. -/
theorem lt_of_accept {t : Terminal} {w : String} {start stop : Nat}
    (h : t.accept w start = .ok (some stop)) : start < stop := by
  unfold accept at h
  cases hm : t.matcher w start with
  | error e => simp [hm, bind, Except.bind] at h
  | ok r =>
    simp only [hm, bind, Except.bind, pure, Except.pure, Except.ok.injEq] at h
    exact of_decide_eq_true (Option.filter_eq_some_iff.1 h).2

end Terminal
end ContextFree
