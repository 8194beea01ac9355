import ContextFree.Unicode.Folding
import ContextFree.Unicode.Number
import ContextFree.Unicode.WhiteSpace
import ContextFree.Unicode.Word

/-! Sets of characters as lists of ranges. The form of a set is part of it: two sets are equal just
if their ranges are. Ranges that overlap or have neighbouring codes are joined; those on the two
sides of the surrogates, which are codes but no characters, are not neighbours. -/
namespace ContextFree.Pattern

/-- The codes of the first and the last character of a range. -/
abbrev CodeRange := Nat × Nat

namespace CodeRange

/-- The code of the next character. -/
def after (code : Nat) : Nat := if code = 0xd7ff then 0xe000 else code + 1

/-- The code of the character before. -/
def before (code : Nat) : Nat := if code = 0xe000 then 0xd7ff else code - 1

/-- The range with two ends, in whichever order they are given. -/
def between (a b : Nat) : CodeRange := (min a b, max a b)

/-- The code of the last character. -/
def top : Nat := 0x10ffff

/-- A range joined with sorted ranges after it, as far as it reaches. -/
def joinOnto : CodeRange → List CodeRange → List CodeRange
  | r, [] => [r]
  | r, s :: rest => if s.1 ≤ r.2 + 1 then joinOnto (r.1, max r.2 s.2) rest else r :: joinOnto s rest

/-- Sorted ranges, joined where they overlap or are neighbours. -/
def joined : List CodeRange → List CodeRange
  | [] => []
  | r :: rest => joinOnto r rest

/-- Sorted ranges of both lists. -/
def merged : List CodeRange → List CodeRange → List CodeRange
  | rs, [] => rs
  | [], ss => ss
  | r :: rs, s :: ss =>
    if r.1 ≤ s.1 then r :: merged rs (s :: ss) else s :: merged (r :: rs) ss
termination_by rs ss => rs.length + ss.length

/-- What two lists of sorted ranges have in common. -/
def shared : List CodeRange → List CodeRange → List CodeRange
  | [], _ => []
  | _, [] => []
  | r :: rs, s :: ss =>
    let first := max r.1 s.1
    let last := min r.2 s.2
    (if first ≤ last then [(first, last)] else []) ++
      if r.2 < s.2 then shared rs (s :: ss) else shared (r :: rs) ss
termination_by rs ss => rs.length + ss.length

/-- What is left of sorted ranges without others. -/
def without : List CodeRange → List CodeRange → List CodeRange
  | [], _ => []
  | rs, [] => rs
  | r :: rs, s :: ss =>
    if s.2 < r.1 then without (r :: rs) ss
    else if r.2 < s.1 then r :: without rs (s :: ss)
    else
      let left := if r.1 < s.1 then [(r.1, before s.1)] else []
      if s.2 < r.2 then left ++ without ((after s.2, r.2) :: rs) ss
      else left ++ without rs (s :: ss)
termination_by rs ss => rs.length + ss.length

/-- The gaps after a range that ends at a code. Between the two characters beside the surrogates
there is no gap; where both end ranges, they take its place themselves. -/
def gapsAfter (last : Nat) : List CodeRange → List CodeRange
  | [] => if last < top then [(after last, top)] else []
  | r :: rest => between (after last) (before r.1) :: gapsAfter r.2 rest

/-- The gaps between sorted ranges, before them and after them. -/
def gaps : List CodeRange → List CodeRange
  | [] => [(0, top)]
  | r :: rest => (if 0 < r.1 then [(0, before r.1)] else []) ++ gapsAfter r.2 rest

end CodeRange

open CodeRange

structure CharSet where
  /-- Sorted, and none within another. -/
  ranges : List CodeRange
  deriving DecidableEq, Repr

namespace CharSet

def contains (s : CharSet) (c : Char) : Bool :=
  s.ranges.any fun r => r.1 ≤ c.toNat && c.toNat ≤ r.2

def union (s t : CharSet) : CharSet := ⟨joined (merged s.ranges t.ranges)⟩

def inter (s t : CharSet) : CharSet := ⟨joined (shared s.ranges t.ranges)⟩

def diff (s t : CharSet) : CharSet := ⟨joined (without s.ranges t.ranges)⟩

def symmDiff (s t : CharSet) : CharSet := diff (union s t) (inter s t)

/-- The complement of a set; its ranges are the gaps and stay as they are. -/
def compl (s : CharSet) : CharSet := ⟨gaps s.ranges⟩

def none : CharSet := ⟨[]⟩

def all : CharSet := ⟨[(0, top)]⟩

def unions (l : List CharSet) : CharSet := l.foldl union none

def range (first last : Char) : CharSet := ⟨[(first.toNat, last.toNat)]⟩

def single (c : Char) : CharSet := range c c

/-- The only character of a set that has just one. -/
def single? (s : CharSet) : Option Char :=
  match s.ranges with
  | [(a, b)] => if a = b then some (Char.ofNat a) else .none
  | _ => .none

def ofTable (t : Unicode.CharTable) : CharSet := ⟨joined t.ranges.toList⟩

/-- The set as a table, where characters are looked up faster. -/
def table (s : CharSet) : Unicode.CharTable := ⟨s.ranges.toArray⟩

/-- The set of codes that are given in ascending order. -/
def ofCodes (codes : List Nat) : CharSet := ⟨joined (codes.map fun code => (code, code))⟩

/-- The character with those that differ from it in case only. -/
def variants (c : Char) : CharSet := unions ((Unicode.caseVariants c).map single)

/-- The set with every character that differs in case only from one in it: first what they fold
to, then all that folds to the same. -/
def folded (s : CharSet) : CharSet :=
  let has (t : Unicode.CharTable) (code : Nat) := t.contains (Char.ofNat code)
  let t := s.table
  let folds := unions (Unicode.foldRuns.map fun r =>
    ofCodes ((r.pairs.filter fun p => has t p.1 || has t p.2).map (·.2)))
  let f := folds.table
  unions (s :: folds :: Unicode.foldRuns.map fun r =>
    ofCodes ((r.pairs.filter fun p => has f p.2).map (·.1)))

/-- What of a table is not recent. -/
def ofSettled (t : Unicode.CharTable) : CharSet := diff (ofTable t) (ofTable Unicode.recent)

def letter : CharSet := ofSettled Unicode.letter

def number : CharSet := ofSettled Unicode.number

def decimalDigit : CharSet := ofSettled Unicode.decimalDigit

def alphabetic : CharSet := ofSettled Unicode.alphabetic

def whiteSpace : CharSet := ofSettled Unicode.whiteSpace

def word : CharSet := union alphabetic (ofSettled Unicode.wordExtra)

example : symmDiff (range 'a' 'f') (range 'd' 'k') = union (range 'a' 'c') (range 'g' 'k') := by
  decide +kernel

example : compl (compl (single 'x')) = single 'x' ∧ union (compl (single 'x')) (single 'x') = all ∧
    inter (single 'x') (compl (single 'x')) = none := by
  decide +kernel

/-- No code below the surrogates is the neighbour of one above, and nothing lies between them. -/
example : let beside := union (single '\ud7ff') (single '\ue000')
    beside.ranges = [(0xd7ff, 0xd7ff), (0xe000, 0xe000)] ∧
      (compl beside).ranges = [(0, 0xd7fe), (0xd7ff, 0xe000), (0xe001, top)] ∧
      unions [compl beside] = all := by
  decide +kernel

/-- The long s is a case variant of the letter. -/
example : variants 's' = unions [single 's', single 'S', single 'ſ'] := by decide +kernel

end CharSet
end ContextFree.Pattern
