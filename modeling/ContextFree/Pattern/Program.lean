import ContextFree.Pattern.Regex

/-! Matching programs. A regular expression becomes a numbered list of instructions; running it
tries the preferred branch first and never enters one instruction at one position twice, so that
the first match found is the preferred one and the work is bounded. -/
namespace ContextFree.Pattern

/-- One instruction; the numbers are those of the instructions to go on with. -/
inductive Instr
  | accept
  | chars (t : Unicode.CharTable) (next : Nat)
  | look (l : Look) (next : Nat)
  /-- Two ways to go on, the preferred one first. -/
  | split (first second : Nat)
  deriving DecidableEq, Repr

/-- Instructions so far, and the number of the one to start with. -/
structure Fragment where
  code : Array Instr
  entry : Nat

namespace Fragment

/-- Adds an instruction and starts with it. -/
def push (code : Array Instr) (i : Instr) : Fragment := ⟨code.push i, code.size⟩

/-- A choice between taking a branch and passing it by. -/
def choice (greedy : Bool) (take pass : Nat) : Instr :=
  if greedy then .split take pass else .split pass take

/-- Sets an instruction that was added before its branches were known. -/
def settle (f : Fragment) (slot : Nat) (i : Instr) : Fragment := ⟨f.code.set! slot i, f.entry⟩

end Fragment

open Fragment

/-- A way to add instructions that go on with a given one after a match. -/
abbrev Emitter := Array Instr → Nat → Fragment

/-- Exactly so many matches one after the other. -/
def Emitter.times (e : Emitter) : Nat → Emitter
  | 0 => fun code next => ⟨code, next⟩
  | n + 1 => fun code next => let f := e.times n code next; e f.code f.entry

/-- At most so many matches, where each may be the last. -/
def Emitter.upTo (e : Emitter) (greedy : Bool) (exit : Nat) : Nat → Emitter
  | 0 => fun code next => ⟨code, next⟩
  | n + 1 => fun code next =>
    let f := e.upTo greedy exit n code next
    let g := e f.code f.entry
    push g.code (choice greedy g.entry exit)

/-- One match or more: after each match a choice between another and going on. -/
def Emitter.oneOrMore (e : Emitter) (greedy : Bool) : Emitter := fun code next =>
  let loop := code.size
  let f := e (code.push .accept) loop
  f.settle loop (choice greedy f.entry next)

/-- No match or more, for matches that take a character: the choice stands before each match. -/
def Emitter.zeroOrMore (e : Emitter) (greedy : Bool) : Emitter := fun code next =>
  let loop := code.size
  let f := e (code.push .accept) loop
  ⟨(f.settle loop (choice greedy f.entry next)).code, loop⟩

/-- The instructions of a repetition. A match that may be empty must not come back to the choice
before it, so there the repetition is one match or more, or none. -/
def Emitter.repeated (e : Emitter) (nullable greedy : Bool) (least : Nat) :
    Option Nat → Emitter
  | none => match least with
    | 0 => fun code next =>
      if nullable then
        let f := e.oneOrMore greedy code next
        push f.code (choice greedy f.entry next)
      else e.zeroOrMore greedy code next
    | n + 1 => fun code next =>
      let f := e.oneOrMore greedy code next
      e.times n f.code f.entry
  | some most => fun code next =>
    let f := e.upTo greedy next (most - least) code next
    e.times least f.code f.entry

namespace Regex

/-- One instruction for each character. -/
def emitLiteral : List Char → Emitter
  | [] => fun code next => ⟨code, next⟩
  | c :: cs => fun code next =>
    let f := emitLiteral cs code next
    push f.code (.chars (CharSet.single c).table f.entry)

/-- The instructions of an expression, added before those it goes on with. -/
def emit : Regex → Emitter
  | empty => fun code next => ⟨code, next⟩
  | literal cs => emitLiteral cs
  | chars s => fun code next => push code (.chars s.table next)
  | look l => fun code next => push code (.look l next)
  | group _ _ e => e.emit
  | seq e f => fun code next =>
    let g := f.emit code next
    e.emit g.code g.entry
  | alt e f => fun code next =>
    let g := f.emit code next
    let h := e.emit g.code next
    push h.code (.split h.entry g.entry)
  | rep least most greedy e => e.emit.repeated e.nullable greedy least most

/-- The program of an expression: instruction 0 accepts. -/
def program (e : Regex) : Fragment := e.emit #[.accept] 0

end Regex

/-- Runs instructions from a stack of places still to try, the preferred one on top. A place is
an instruction and a position; a place that was entered before has nothing new to offer. -/
def search (code : Array Instr) (text : Array Char) :
    Nat → Array Bool → List (Nat × Nat) → Option Nat
  | 0, _, _ => none
  | _ + 1, _, [] => none
  | fuel + 1, entered, (pc, p) :: rest =>
    let place := pc * (text.size + 1) + p
    if entered[place]?.getD true then search code text fuel entered rest
    else
      let entered := entered.set! place true
      match code[pc]? with
      | none => search code text fuel entered rest
      | some .accept => some p
      | some (.chars t next) =>
        if text[p]?.any t.contains then search code text fuel entered ((next, p + 1) :: rest)
        else search code text fuel entered rest
      | some (.look l next) =>
        let before := if p = 0 then none else text[p - 1]?
        if l.holds before text[p]? then search code text fuel entered ((next, p) :: rest)
        else search code text fuel entered rest
      | some (.split a b) => search code text fuel entered ((a, p) :: (b, p) :: rest)

/-- The position where the preferred match from a position ends. Each place is entered once and
leaves at most two on the stack, which bounds the number of steps. -/
def Fragment.matchFrom? (f : Fragment) (text : Array Char) (start : Nat) : Option Nat :=
  let places := f.code.size * (text.size + 1)
  search f.code text (2 * places + 2) (Array.replicate places false) [(f.entry, start)]

namespace Regex

def matchFrom? (e : Regex) (text : String) (start : Nat) : Option Nat :=
  e.program.matchFrom? text.toList.toArray start

/-- The first alternative that leads to a match wins, not the longest. -/
example : (alt (literal ['a']) (literal ['a', 'b'])).matchFrom? "ab" 0 = some 1 := by
  decide +kernel

/-- A greedy repetition takes what it can, a lazy one what it must. -/
example : (rep 1 none true (literal ['a'])).matchFrom? "aaa" 0 = some 3 ∧
    (rep 1 none false (literal ['a'])).matchFrom? "aaa" 0 = some 1 ∧
    (rep 0 (some 2) true (literal ['a'])).matchFrom? "aaa" 1 = some 3 := by decide +kernel

/-- A repetition of a repetition ends. -/
example : (rep 0 none true (rep 0 none true (literal ['a']))).matchFrom? "aab" 0 =
    some 2 := by
  decide +kernel

end Regex
end ContextFree.Pattern
