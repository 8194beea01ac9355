import ContextFree.Pattern.Edges
import ContextFree.Pattern.Program

/-! Searches that go by a landmark: a text that every match ends with, or that it holds behind the
first part of the expression. Such a search finds the text first and goes back from there to the
earliest start. It ends with the first start found, so that a match may hide a longer one around
it, which starts earlier and ends with a later occurrence of the text. -/
namespace ContextFree.Pattern

/-- What a search looks for before it looks for a match. -/
inductive Landmark
  /-- The bytes that every match ends with. -/
  | ending (text : List UInt8)
  /-- The bytes one of which every match holds behind a match of its first part. -/
  | inside (first : Fragment) (texts : List (List UInt8))

/-! ### The choice of a landmark -/

namespace Regex

/-- Whether every match begins with an assertion. -/
def opensWith (l : Look) : Regex → Bool
  | look m => m = l
  | group _ _ e => e.opensWith l
  | seq e f => e.opensWith l || (e.takesNothing && f.opensWith l)
  | alt e f => e.opensWith l && f.opensWith l
  | rep least _ _ e => least > 0 && e.opensWith l
  | _ => false

/-- Whether every match ends with an assertion. -/
def closesWith (l : Look) : Regex → Bool
  | look m => m = l
  | group _ _ e => e.closesWith l
  | seq e f => f.closesWith l || (f.takesNothing && e.closesWith l)
  | alt e f => e.closesWith l && f.closesWith l
  | rep least _ _ e => least > 0 && e.closesWith l
  | _ => false

/-- Whether there are no groups and no assertions. -/
def isPlain : Regex → Bool
  | look _ | group _ _ _ => false
  | seq e f | alt e f => e.isPlain && f.isPlain
  | rep _ _ _ e => e.isPlain
  | _ => true

/-- The items of an expression that is a sequence, without groups. -/
def ungroupedItems : Regex → List Regex
  | group _ _ e => e.ungroupedItems
  | seq e f => (seq e f).ungrouped.items
  | _ => []

/-- Texts that the matches of an expression begin with, if they are found fast. -/
def quickTexts? (e : Regex) : Option (List (List UInt8)) :=
  ((e.edges .front).cut.sought .front).bind fun es =>
    let texts := es.map (·.bytes)
    if Edges.isQuick texts then some texts else none

/-- The first item of a sequence, after those given, that begins with texts that are found fast. -/
def inside? (before : List Regex) : List Regex → Option Landmark
  | [] => none
  | e :: rest => match e.quickTexts? with
    | some texts => some (.inside (sequence before).program
        ((sequence (e :: rest)).quickTexts?.getD texts))
    | none => inside? (before ++ [e]) rest

/-- The landmark of an expression. There is none where matches stand at an end of the text, or are
found fast by what they begin with. -/
def landmark? (e : Regex) : Option Landmark :=
  let fronts := (e.edges .front).sought .front
  let quick := fronts.any fun es =>
    (e.isPlain && es.all (·.whole)) || Edges.isQuick (es.map (·.bytes))
  if e.opensWith .textStart || e.closesWith .textEnd || quick then none
  else match ((e.edges .back).sought .back).map (Edge.common .back) with
    | some (b :: text) => some (.ending (b :: text))
    | _ => match e.ungroupedItems with
      | f :: rest => inside? [f] rest
      | [] => none

end Regex

/-! ### Going back -/

/-- Where the matches start that lead to a place. -/
inductive Origin
  | nowhere
  | start (p : Nat)
  /-- There is a start, or there may be one, but it is not known to be the earliest. -/
  | unsure

/-- Whether a place is marked. -/
def isMarked (marked : Array Bool) (pc : Nat) : Bool := marked[pc]?.getD false

namespace Fragment

/-- Marks the instructions that go on at marked ones without taking a character. -/
def spread (code : Array Instr) (text : Array Char) (p : Nat) : Nat → Array Bool → Array Bool
  | 0, marked => marked
  | fuel + 1, marked =>
    let leads (marked : Array Bool) (pc : Nat) : Bool :=
      match code[pc]? with
      | some (.look l next) =>
        l.holds (if p = 0 then none else text[p - 1]?) text[p]? && isMarked marked next
      | some (.split a b) => isMarked marked a || isMarked marked b
      | _ => false
    let next := (List.range code.size).foldl
      (fun marked pc => if leads marked pc then marked.set! pc true else marked) marked
    if next = marked then marked else spread code text p fuel next

/-- The instructions that take a character and go on at a marked one. -/
def taking (f : Fragment) (c : Char) (marked : Array Bool) : Array Bool :=
  f.code.map fun
    | .chars t next => isMarked marked next && t.contains c
    | _ => false

/-- The instructions from which marked ones are reached at a position. -/
def reaching (f : Fragment) (text : Array Char) (p : Nat) (marked : Array Bool) : Array Bool :=
  spread f.code text p f.code.size marked

/-- Whether a program asks for the boundaries of words. -/
def seesWords (f : Fragment) : Bool := f.code.any fun
  | .look l _ => l != .textStart && l != .textEnd && l != .lineStart && l != .lineEnd
  | _ => false

/-- Whether a program is lost at a character: on the way to a landmark and back, words are told
apart in ASCII only. -/
def isLost (f : Fragment) (text : Array Char) (p : Nat) : Bool :=
  f.seesWords && text[p]?.any (·.toNat ≥ 128)

/-- What is known at the first position, where a start counts only if it stands there itself. -/
def arrive (f : Fragment) (text : Array Char) (p : Nat) (marked : Array Bool)
    (found : Option Nat) : Origin :=
  if p > 0 && f.isLost text (p - 1) then .unsure
  else if isMarked marked f.entry then .start p
  else if found.isSome then .unsure else .nowhere

/-- Goes back from a position to the earliest start, but no further than to a first one. The walk
is given up where it comes to what an earlier one has covered. -/
def walkBack (f : Fragment) (text : Array Char) (first covered : Nat) :
    Nat → Array Bool → Option Nat → Origin
  | 0, marked, found => f.arrive text 0 marked found
  | p + 1, marked, found =>
    if p + 1 ≤ first then f.arrive text (p + 1) marked found
    else if f.isLost text p then .unsure
    else
      let here := isMarked marked f.entry
      let found := if here then some (p + 1) else found
      let c := text[p]?.getD ' '
      let sources := f.taking c marked
      if sources.contains true then
        if p ≤ first || covered < p then
          f.walkBack text first covered p (f.reaching text p sources) found
        else .unsure
      else match found with
        | none => .nowhere
        | some s => if here && c.utf8Size = 1 && p ≤ max first covered then .unsure else .start s

/-- Where the matches start that end at a position. -/
def origin (f : Fragment) (text : Array Char) (first covered p : Nat) : Origin :=
  if f.isLost text p then .unsure
  else f.walkBack text first covered p (f.reaching text p (f.code.map (· = .accept))) none

/-- Whether an instruction is reached so many characters after a position. -/
def lives (f : Fragment) (text : Array Char) (p : Nat) : Nat → Array Bool → Bool
  | 0, marked => isMarked marked f.entry
  | n + 1, marked => match text[p + n]? with
    | some c => f.lives text p n (f.reaching text (p + n) (f.taking c marked))
    | none => false

/-- The last position to which a match can be tried from a position. -/
def furthest (f : Fragment) (text : Array Char) (p : Nat) : Nat :=
  let everywhere := f.code.map fun _ => true
  p + ((List.range (text.size - p)).takeWhile fun n => f.lives text p (n + 1) everywhere).length

/-- Whether a program is lost between a start and the last position it comes to. -/
def losesWay (f : Fragment) (text : Array Char) (p : Nat) : Bool :=
  f.seesWords && ((p > 0 && f.isLost text (p - 1)) ||
    (List.range' p (f.furthest text p - p + 1)).any (f.isLost text))

end Fragment

/-! ### Searches -/

/-- The positions where a text ends that is given backwards, as is what was read. -/
def endings (back : List UInt8) : Nat → List UInt8 → List Char → List Nat
  | _, _, [] => []
  | p, seen, c :: cs =>
    let seen := (String.utf8EncodeChar c).reverse ++ seen
    let rest := endings back (p + 1) seen cs
    if back.isPrefixOf seen then (p + 1) :: rest else rest

/-- The characters that so many bytes hold. -/
def held : Nat → List Char → Nat
  | _, [] => 0
  | n, c :: cs => if c.utf8Size ≤ n then held (n - c.utf8Size) cs + 1 else 0

/-- The positions where one of some texts starts, and where it ends. -/
def occurrences (texts : List (List UInt8)) : Nat → List Char → List (Nat × Nat)
  | _, [] => []
  | p, c :: cs =>
    let rest := occurrences texts (p + 1) cs
    match texts.find? fun t => t.isPrefixOf (bytesOf ((c :: cs).take t.length)) with
    | some t => (p, p + held t.length (c :: cs)) :: rest
    | none => rest

/-- Whether a search by the places where a text ends passes over the match from a position. -/
def hidesBefore (f : Fragment) (text : Array Char) (first : Nat) : Nat → List Nat → Bool
  | _, [] => true
  | covered, p :: ps => match f.origin text first covered p with
    | .nowhere => hidesBefore f text first p ps
    | .start s => s ≠ first && !f.losesWay text s
    | .unsure => false

/-- Whether a search by the places of a text, behind the matches of a first part, passes over the
match from a position. Where a start leads to no match, the search goes on, but not with a place
that was already seen on the way. -/
def hidesAround (f before : Fragment) (text : Array Char) (first : Nat) :
    Nat → Nat → List (Nat × Nat) → Bool
  | _, _, [] => true
  | covered, tried, (p, stop) :: ps =>
    if p < tried then false
    else match before.origin text first covered p with
      | .nowhere => hidesAround f before text first stop tried ps
      | .start s =>
        if s = first || f.losesWay text s then false
        else if (f.matchFrom? text s).isSome then true
        else hidesAround f before text first stop (f.furthest text s) ps
      | .unsure => false

/-- Whether a search from a position passes over the match that starts there. A search that cannot
tell where a match starts is done over without the landmark. -/
def Landmark.hides (m : Landmark) (f : Fragment) (text : Array Char) (first : Nat) : Bool :=
  let rest := text.toList.drop first
  match m with
  | ending bytes => hidesBefore f text first 0 (endings bytes.reverse first [] rest)
  | inside before texts => hidesAround f before text first 0 0 (occurrences texts first rest)

/-- An expression made ready for searches. -/
structure Searcher where
  program : Fragment
  landmark : Option Landmark

namespace Searcher

def ofRegex (e : Regex) : Searcher := ⟨e.program, e.landmark?⟩

/-- The end of the match that a search from a position finds, if it starts there. -/
def matchFrom? (s : Searcher) (text : Array Char) (start : Nat) : Option Nat :=
  (s.program.matchFrom? text start).filter fun _ =>
    !s.landmark.any (·.hides s.program text start)

/-- What a search finds is the preferred match. -/
theorem program_matchFrom? {s : Searcher} {text : Array Char} {start stop : Nat}
    (h : s.matchFrom? text start = some stop) : s.program.matchFrom? text start = some stop :=
  (Option.filter_eq_some_iff.mp h).1

/-- The first place where the text ends leads back to a match inside the longer one. That one is
passed over, unless the way back comes to its start. -/
example : let letters := Regex.chars (.range 'a' 'z')
    let s := ofRegex (.alt (.seq (.rep 0 none true letters) (.literal ['y', 'c']))
      (.literal ['b', 'c']))
    s.matchFrom? #['a', 'a', 'b', 'c', 'y', 'c'] 0 = none ∧
      s.matchFrom? #['a', 'b', 'c', 'y', 'c'] 0 = some 5 := by decide +kernel

end Searcher
end ContextFree.Pattern
