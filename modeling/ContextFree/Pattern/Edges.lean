import ContextFree.Pattern.Regex

/-! What matches begin and end with. The edges of an expression are such that every match begins,
or ends, with one of them; the preferred ones stand first. They are counted in bytes, and a list of
them that grows too long is cut down or given up. -/
namespace ContextFree.Pattern

/-- The side of a match that an edge stands at. -/
inductive Side
  | front | back
  deriving DecidableEq, Repr

/-- The bytes of a text in UTF-8. -/
def bytesOf (cs : List Char) : List UInt8 := cs.flatMap String.utf8EncodeChar

/-- Bytes at one side of a match. A whole edge is all of the match. -/
structure Edge where
  bytes : List UInt8
  whole : Bool
  deriving DecidableEq, Repr

namespace Edge

def ofChars (cs : List Char) : Edge := ⟨bytesOf cs, true⟩

/-- The edge of a match that takes nothing. -/
def nothing : Edge := ⟨[], true⟩

def cut (e : Edge) : Edge := { e with whole := false }

/-- An edge of so many bytes at most. -/
def trim (side : Side) (n : Nat) (e : Edge) : Edge :=
  if e.bytes.length ≤ n then e
  else match side with
    | .front => ⟨e.bytes.take n, false⟩
    | .back => ⟨e.bytes.drop (e.bytes.length - n), false⟩

/-- A whole edge, and another one further inside. -/
def extend (side : Side) (e f : Edge) : Edge :=
  match side with
  | .front => ⟨e.bytes ++ f.bytes, f.whole⟩
  | .back => ⟨f.bytes ++ e.bytes, f.whole⟩

/-- Edges of the same bytes, side by side, are one. -/
def joinEqual : List Edge → List Edge
  | [] => []
  | e :: es => match joinEqual es with
    | [] => [e]
    | f :: fs => if e.bytes = f.bytes then ⟨e.bytes, e.whole && f.whole⟩ :: fs else e :: f :: fs

/-- Edges without those that begin with an earlier one: the earlier one is preferred. -/
def withoutLonger (es : List Edge) : List Edge :=
  es.foldl (fun kept e => if kept.any (·.bytes.isPrefixOf e.bytes) then kept else kept ++ [e]) []

def sharedBytes : List UInt8 → List UInt8 → List UInt8
  | a :: as, b :: bs => if a = b then a :: sharedBytes as bs else []
  | _, _ => []

/-- What all edges begin, or end, with. -/
def common (side : Side) : List Edge → List UInt8
  | [] => []
  | e :: es => match side with
    | .front => es.foldl (fun bs f => sharedBytes bs f.bytes) e.bytes
    | .back => (es.foldl (fun bs f => sharedBytes bs f.bytes.reverse) e.bytes.reverse).reverse

end Edge

/-- The edges of an expression; none where they cannot be listed. -/
abbrev Edges := Option (List Edge)

namespace Edges
open Edge

/-- How many edges are listed. -/
def most : Nat := 250

/-- How many characters of a set, and rounds of a repetition, are listed. -/
def mostOf : Nat := 10

/-- How many bytes an edge has. -/
def longest : Nat := 100

/-- Whether no edge is whole. -/
def noneWhole (es : Edges) : Bool := es.all fun l => l.all (!·.whole)

def cut (es : Edges) : Edges := es.map (·.map Edge.cut)

/-- The edges of one expression after, or before, another. -/
def follow (side : Side) (es fs : Edges) : Edges := do
  let l ← es
  match fs.filter (l.length * ·.length ≤ most) with
  | none => if l.any (·.bytes.isEmpty) then none else some (l.map Edge.cut)
  | some m =>
    let pairs := match side with
      | .front => l.flatMap fun e => if e.whole then m.map (e.extend side) else [e]
      | .back => m.zipIdx.flatMap fun (f, i) => l.filterMap fun e =>
          if e.whole then some (e.extend side f) else if i = 0 then some e else none
    some ((joinEqual pairs).map (trim side longest))

/-- The edges of one expression or another. -/
def either (side : Side) (es fs : Edges) : Edges := do
  let l ← es
  let m ← fs
  if l.length + m.length ≤ most then some (joinEqual (l ++ m))
  else
    let shorten (l : List Edge) := joinEqual (l.map (trim side 4))
    let l := shorten l
    let m := shorten m
    if l.length + m.length ≤ most then some (joinEqual (l ++ m)) else none

/-- The edges of a sequence; what lies behind an edge that is not whole is not looked at. -/
def ofSequence (side : Side) (items : List Edges) : Edges :=
  let items := match side with | .front => items | .back => items.reverse
  items.foldl (fun es fs => if es.noneWhole then es else follow side es fs) (some [.nothing])

def ofChoice (side : Side) (branches : List Edges) : Edges :=
  branches.foldl (either side) (some [])

def ofSet (s : CharSet) : Edges :=
  if s.ranges.foldl (fun n r => n + (r.2 - r.1 + 1)) 0 ≤ mostOf then
    some (s.ranges.flatMap fun r =>
      (List.range' r.1 (r.2 - r.1 + 1)).map fun code => .ofChars [Char.ofNat code])
  else none

def ofRepetition (side : Side) (least : Nat) (most : Option Nat) (greedy : Bool) (es : Edges) :
    Edges :=
  if least = 0 then
    let es := if most = some 1 then es else es.cut
    if greedy then either side es (some [.nothing]) else either side (some [.nothing]) es
  else
    let es := ofSequence side (List.replicate (min least mostOf) es)
    if most = some least && least ≤ mostOf then es else es.cut

end Edges

/-- The edges of the matches of an expression. -/
def Regex.edges (side : Side) : Regex → Edges :=
  let leaf : Regex → Edges
    | .literal cs => some [(Edge.ofChars cs).trim side Edges.longest]
    | .chars s => .ofSet s
    | _ => some [.nothing]
  (Valuation.mk leaf (fun _ _ es => es) (.ofSequence side) (.ofChoice side)
    (.ofRepetition side)).value

/-! ### Edges to look for -/

namespace Edges
open Edge

/-- ASCII characters that text is not full of. -/
def isRare (b : UInt8) : Bool :=
  b < 128 && !(bytesOf "\n\r (),-./0129:_abcdefghilmnoprstuvxy|".toList).contains b

/-- Bytes that text is full of. -/
def isFrequent (b : UInt8) : Bool := b ≥ 0xc0 || (bytesOf " et".toList).contains b

/-- Shortens edges as long as there are too many. With each length stands the number of them that
is not too many. -/
def shorten (side : Side) : List (Nat × Nat) → List Edge → List Edge
  | [], es => es
  | (n, few) :: rest, es =>
    if es.length ≤ few then es
    else
      let es := es.map (trim side n)
      shorten side rest (match side with | .front => withoutLonger es | .back => es)

/-- The edges that are best looked for, in place of those that matches have. -/
def sought (side : Side) (es : Edges) : Edges := do
  let given ← es
  if given.any (·.bytes.isEmpty) then none
  let es := match side with | .front => withoutLonger given | .back => given
  let shared := common side es
  if side = .front && given.length > 1 && shared.length ≤ 3 && shared.head?.any isRare then
    return joinEqual (es.map (trim side 1))
  let whole := es.all (·.whole)
  let es :=
    if shared.length > 4 || shared.length > 1 && !(whole && es.length ≤ 16) then
      joinEqual (es.map (trim side shared.length))
    else es
  let whole := es.all (·.whole)
  let short := shorten side [(5, 10), (4, 10), (3, 64), (2, 64), (1, 10)] es
  let frequent := short.any fun e => e.bytes.length = 1 && e.bytes.any isFrequent
  let poor := frequent || short.isEmpty || short.any (·.bytes.length ≤ 2) || short.length > 64
  if whole && poor then return es
  if frequent then none else some short

/-- Whether texts are found fast: a single one, up to three bytes, or some that are not short. -/
def isQuick (texts : List (List UInt8)) : Bool :=
  !texts.isEmpty && (texts.length = 1 || (texts.length ≤ 3 && texts.all (·.length = 1)) ||
    (texts.length ≤ 64 && texts.all (·.length ≥ 3)))

end Edges

namespace Regex

/-- An optional character at the front, and a repetition that may go on at the back. -/
example : let e := seq (rep 0 (some 1) true (literal ['a'])) (rep 1 none true (literal ['b', 'c']))
    e.edges .front = some [⟨bytesOf ['a', 'b', 'c'], false⟩, ⟨bytesOf ['b', 'c'], false⟩] ∧
      e.edges .back = some [⟨bytesOf ['b', 'c'], false⟩] := by decide +kernel

/-- A set of many characters has no edges, but what comes after it ends the matches. -/
example : let e := seq (chars (.range 'a' 'z')) (literal ['b', 'c'])
    e.edges .front = none ∧ e.edges .back = some [⟨bytesOf ['b', 'c'], false⟩] := by decide +kernel

end Regex
end ContextFree.Pattern
