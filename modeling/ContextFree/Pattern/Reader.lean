import ContextFree.Pattern.Regex

/-! The written form of regular expressions. Reading keeps the groups that are still open on a
stack and takes at least one character a step. Flags hold to the end of the group they stand in. -/
namespace ContextFree.Pattern

/-- What is wrong with the text of a pattern. -/
inductive ReadError
  | unclosedGroup | unopenedGroup | unclosedClass | nothingToRepeat | badCount | badEscape
  | badCode | unknownProperty | badRange | badClassItem | badFlags | badGroupName
  | repeatedGroupName | lookAround | backReference | badBoundary | tooDeep
  deriving DecidableEq, Repr

structure Flags where
  ignoreCase : Bool := false
  multiLine : Bool := false
  dotAll : Bool := false
  deriving DecidableEq, Repr

/-- A set as it is meant where case may be ignored. -/
def Flags.fold (fl : Flags) (s : CharSet) : CharSet := if fl.ignoreCase then s.folded else s

/-- A character as it is meant where case may be ignored. -/
def Flags.char (fl : Flags) (c : Char) : Regex :=
  if fl.ignoreCase then .ofSet (.variants c) else .literal [c]

/-! ### Depth -/

/-- A part of an expression with its depth: how many groups, classes, repetitions, sequences and
choices stand inside one another. -/
structure Nested (α : Type) where
  value : α
  depth : Nat := 0

namespace Nested

variable {α β : Type}

/-- Parts that make one: several of them are a level of their own. -/
def join (f : List α → β) (parts : List (Nested α)) : Nested β :=
  ⟨f (parts.map (·.value)), match parts with
    | [] => 0
    | [p] => p.depth
    | p :: ps => ps.foldl (fun d q => max d q.depth) p.depth + 1⟩

end Nested

/-- The depth that an expression may have. -/
def deepest : Nat := 250

/-! ### Counts -/

def skipSpace (cs : List Char) : List Char := cs.dropWhile Unicode.isWhiteSpace

/-- A decimal number with white space around it. -/
def readNumber (cs : List Char) : Except ReadError (Nat × List Char) :=
  let cs := skipSpace cs
  let digits := cs.takeWhile Char.isDigit
  let value := digits.foldl (fun n d => 10 * n + (d.toNat - 48)) 0
  if digits.isEmpty || value ≥ 0x100000000 then throw .badCount
  else pure (value, skipSpace (cs.drop digits.length))

/-- The bounds of a counted repetition, after its opening brace. -/
def readCounts (cs : List Char) : Except ReadError ((Nat × Option Nat) × List Char) := do
  let (least, cs) ← readNumber cs
  match cs with
  | '}' :: cs => pure ((least, some least), cs)
  | ',' :: '}' :: cs => pure ((least, none), cs)
  | ',' :: cs =>
    let (most, cs) ← readNumber cs
    match cs with
    | '}' :: cs => if least ≤ most then pure ((least, some most), cs) else throw .badCount
    | _ => throw .badCount
  | _ => throw .badCount

/-! ### Escapes -/

/-- What an escape stands for. -/
inductive Escaped
  | char (c : Char)
  | set (s : CharSet)
  | look (l : Look)

def hexValue? (c : Char) : Option Nat :=
  if c.isDigit then some (c.toNat - 48)
  else if 'a' ≤ c && c ≤ 'f' then some (c.toNat - 87)
  else if 'A' ≤ c && c ≤ 'F' then some (c.toNat - 55)
  else none

/-- The character with a code in hexadecimal digits, at least one. -/
def charOfHex (digits : List Char) : Except ReadError Char :=
  match digits.mapM hexValue? with
  | none => throw .badCode
  | some values =>
    let code := values.foldl (fun n d => 16 * n + d) 0
    if digits.isEmpty || !decide code.isValidChar then throw .badCode else pure (Char.ofNat code)

/-- A code between braces, or else in a fixed number of digits. -/
def readCode (count : Nat) (cs : List Char) : Except ReadError (Char × List Char) :=
  match cs with
  | '{' :: cs =>
    let digits := cs.takeWhile (· != '}')
    match cs.drop digits.length with
    | '}' :: rest => do pure (← charOfHex digits, rest)
    | _ => throw .badCode
  | _ => if cs.length < count then throw .badCode else do
    pure (← charOfHex (cs.take count), cs.drop count)

/-- Names of properties are compared without case, spaces, underscores, hyphens and a leading
"is". -/
def normalizeName (name : List Char) : String :=
  let plain := (name.filter fun c => c != ' ' && c != '_' && c != '-').map Char.toLower
  String.ofList (match plain with | 'i' :: 's' :: rest => rest | _ => plain)

def propertyOfName? (name : List Char) : Option CharSet :=
  match normalizeName name with
  | "l" | "letter" => some .letter
  | "n" | "number" => some .number
  | "nd" | "decimalnumber" | "digit" => some .decimalDigit
  | "alphabetic" | "alpha" => some .alphabetic
  | "whitespace" | "wspace" | "space" => some .whiteSpace
  | "any" => some .all
  | "ascii" => some (.range '\x00' '\x7f')
  | _ => none

/-- A property by its one-letter name or by a name between braces. -/
def readProperty (cs : List Char) : Except ReadError (CharSet × List Char) :=
  let named (name rest : List Char) := match propertyOfName? name with
    | some s => pure (s, rest)
    | none => throw .unknownProperty
  match cs with
  | '{' :: cs =>
    let name := cs.takeWhile (· != '}')
    match cs.drop name.length with
    | '}' :: rest => named name rest
    | _ => throw .badEscape
  | c :: rest => named [c] rest
  | [] => throw .badEscape

/-- The boundary of a word, which a name between braces may make one of a special kind. Braces that
hold no name are left to a repetition. -/
def readBoundary (cs : List Char) : Except ReadError (Look × List Char) :=
  let isNameChar (c : Char) := c.isAlpha || c == '-'
  match cs with
  | '{' :: c :: rest =>
    if isNameChar c then
      let name := (c :: rest).takeWhile isNameChar
      match (c :: rest).drop name.length, String.ofList name with
      | '}' :: rest, "start" => pure (.wordStart, rest)
      | '}' :: rest, "end" => pure (.wordEnd, rest)
      | '}' :: rest, "start-half" => pure (.wordStartHalf, rest)
      | '}' :: rest, "end-half" => pure (.wordEndHalf, rest)
      | _, _ => throw .badBoundary
    else pure (.wordBoundary, cs)
  | ['{'] => throw .badBoundary
  | _ => pure (.wordBoundary, cs)

/-- The part of an escape after the backslash. ASCII characters that are neither letters nor
digits stand for themselves, except for angle brackets, the two ends of a word. -/
def readEscape (fl : Flags) : List Char → Except ReadError (Escaped × List Char)
  | [] => throw .badEscape
  | c :: cs =>
    let set (s : CharSet) := pure (Escaped.set s, cs)
    let char (d : Char) := pure (Escaped.char d, cs)
    let look (l : Look) := pure (Escaped.look l, cs)
    match c with
    | 'x' => do let (d, cs) ← readCode 2 cs; pure (.char d, cs)
    | 'u' => do let (d, cs) ← readCode 4 cs; pure (.char d, cs)
    | 'U' => do let (d, cs) ← readCode 8 cs; pure (.char d, cs)
    | 'p' => do let (s, cs) ← readProperty cs; pure (.set (fl.fold s), cs)
    | 'P' => do let (s, cs) ← readProperty cs; pure (.set (.compl (fl.fold s)), cs)
    | 'd' => set .decimalDigit
    | 's' => set .whiteSpace
    | 'w' => set .word
    | 'D' => set (.compl .decimalDigit)
    | 'S' => set (.compl .whiteSpace)
    | 'W' => set (.compl .word)
    | 'a' => char '\x07'
    | 'f' => char '\x0c'
    | 't' => char '\t'
    | 'n' => char '\n'
    | 'r' => char '\r'
    | 'v' => char '\x0b'
    | 'A' => look .textStart
    | 'z' => look .textEnd
    | 'b' => do let (l, cs) ← readBoundary cs; pure (.look l, cs)
    | 'B' => look .noWordBoundary
    | '<' => look .wordStart
    | '>' => look .wordEnd
    | _ =>
      if c.isDigit then throw .backReference
      else if c.toNat < 128 && !c.isAlpha then char c
      else throw .badEscape

/-! ### Character classes -/

def asciiClassOfName? (name : String) : Option CharSet :=
  let digit := CharSet.range '0' '9'
  let lower := CharSet.range 'a' 'z'
  let upper := CharSet.range 'A' 'Z'
  match name with
  | "alnum" => some (.unions [digit, upper, lower])
  | "alpha" => some (.unions [upper, lower])
  | "ascii" => some (.range '\x00' '\x7f')
  | "blank" => some (.unions [.single '\t', .single ' '])
  | "cntrl" => some (.unions [.range '\x00' '\x1f', .single '\x7f'])
  | "digit" => some digit
  | "graph" => some (.range '!' '~')
  | "lower" => some lower
  | "print" => some (.range ' ' '~')
  | "punct" => some (.unions [.range '!' '/', .range ':' '@', .range '[' (Char.ofNat 96),
      .range (Char.ofNat 123) '~'])
  | "space" => some (.unions [.range '\t' '\r', .single ' '])
  | "upper" => some upper
  | "word" => some (.unions [digit, upper, lower, .single '_'])
  | "xdigit" => some (.unions [digit, .range 'A' 'F', .range 'a' 'f'])
  | _ => none

/-- A named class between colons, after its opening bracket; anything else is a nested class. Where
case is ignored, what is not in the class has no case variant in it. -/
def readAsciiClass? (fl : Flags) : List Char → Option (CharSet × List Char)
  | ':' :: cs =>
    let (negated, cs) := match cs with | '^' :: cs => (true, cs) | _ => (false, cs)
    let name := cs.takeWhile (· != ':')
    match cs.drop name.length, asciiClassOfName? (String.ofList name) with
    | ':' :: ']' :: rest, some s => some (if negated then (fl.fold s).compl else fl.fold s, rest)
    | _, _ => none
  | _ => none

def readClassChar (fl : Flags) : List Char → Except ReadError (Escaped × List Char)
  | '\\' :: cs => readEscape fl cs
  | c :: cs => pure (.char c, cs)
  | [] => throw .unclosedClass

/-- One member of a class: a character, a range or the set of an escape. A hyphen before the end
of the class or before another hyphen makes no range. -/
def readClassItem (fl : Flags) (cs : List Char) : Except ReadError (CharSet × List Char) := do
  let (first, cs) ← readClassChar fl cs
  let alone : Except ReadError (CharSet × List Char) := match first with
    | .char c => pure (.single c, cs)
    | .set s => pure (s, cs)
    | .look _ => throw .badClassItem
  match cs with
  | '-' :: ']' :: _ | '-' :: '-' :: _ => alone
  | '-' :: cs =>
    let (last, cs) ← readClassChar fl cs
    match first, last with
    | .char a, .char b => if a ≤ b then pure (.range a b, cs) else throw .badRange
    | _, _ => throw .badClassItem
  | _ => alone

/-- The members of a class that were read so far. -/
structure Members where
  set : CharSet := .none
  count : Nat := 0
  /-- The depth of the deepest member. -/
  depth : Nat := 0

namespace Members

def add (m : Members) (s : CharSet) (depth : Nat := 0) : Members :=
  ⟨.union m.set s, m.count + 1, max m.depth depth⟩

/-- Several members are a level of their own. -/
def nested (m : Members) : Nested CharSet := ⟨m.set, if m.count ≤ 1 then m.depth else m.depth + 1⟩

end Members

/-- What stands before an operator of a class: its left side and the operator. -/
abbrev Pending := Option (Nested CharSet × (CharSet → CharSet → CharSet))

def Pending.apply (fl : Flags) (p : Pending) (right : Nested CharSet) : Nested CharSet :=
  match p with
  | some (left, op) =>
    ⟨op (fl.fold left.value) (fl.fold right.value), max left.depth right.depth + 1⟩
  | none => right

/-- The start of a class after its opening bracket: negation, hyphens, and a closing bracket
that stands first, which are members. -/
def openClass (cs : List Char) : Bool × Members × List Char :=
  let (negated, cs) := match cs with | '^' :: cs => (true, cs) | _ => (false, cs)
  let hyphens := (cs.takeWhile (· == '-')).length
  match cs.drop hyphens with
  | ']' :: rest =>
    if hyphens = 0 then (negated, ⟨.single ']', 1, 0⟩, rest)
    else (negated, ⟨.single '-', hyphens, 0⟩, ']' :: rest)
  | rest => (negated, if hyphens = 0 then {} else ⟨.single '-', hyphens, 0⟩, rest)

/-- The rest of a class up to its closing bracket. Operators have one precedence and take what
stands before them as their left side. The fuel is at least the number of characters left. -/
def readClass (fl : Flags) :
    Nat → Bool → Pending → Members → List Char → Except ReadError (Nested CharSet × List Char)
  | 0, _, _, _, _ => throw .unclosedClass
  | _ + 1, _, _, _, [] => throw .unclosedClass
  | fuel + 1, negated, pending, members, c :: cs =>
    let operator (op : CharSet → CharSet → CharSet) (cs : List Char) :=
      readClass fl fuel negated (some (pending.apply fl members.nested, op)) {} cs
    match c, cs with
    | '[', cs => match readAsciiClass? fl cs with
      | some (s, cs) => readClass fl fuel negated pending (members.add s) cs
      | none => do
        let (inner, first, cs) := openClass cs
        let (s, cs) ← readClass fl fuel inner none first cs
        readClass fl fuel negated pending (members.add s.value s.depth) cs
    | ']', cs =>
      let body := pending.apply fl members.nested
      let s := fl.fold body.value
      pure (⟨if negated then s.compl else s, body.depth + 1⟩, cs)
    | '&', '&' :: cs => operator .inter cs
    | '-', '-' :: cs => operator .diff cs
    | '~', '~' :: cs => operator .symmDiff cs
    | _, _ => do
      let (s, cs) ← readClassItem fl (c :: cs)
      readClass fl fuel negated pending (members.add s) cs

/-! ### Groups -/

/-- The flags before the colon or the closing parenthesis, each with whether it is set. -/
def readFlags : List Char → Bool → List (Char × Bool) →
    Except ReadError (List (Char × Bool) × List Char)
  | [], _, _ => throw .badFlags
  | c :: cs, negated, found =>
    if c == ':' || c == ')' then
      if negated && (found.head?.all (·.2)) then throw .badFlags else pure (found, c :: cs)
    else if c == '-' then
      if negated then throw .badFlags else readFlags cs true found
    else if (c == 'i' || c == 'm' || c == 's') && found.all (·.1 != c) then
      readFlags cs negated ((c, !negated) :: found)
    else throw .badFlags

def Flags.set (fl : Flags) : Char × Bool → Flags
  | ('i', b) => { fl with ignoreCase := b }
  | ('m', b) => { fl with multiLine := b }
  | (_, b) => { fl with dotAll := b }

/-- Group names start with a letter or an underscore; dots, brackets and numbers may follow. -/
def isGroupName : List Char → Bool
  | [] => false
  | c :: cs => (c == '_' || Unicode.isAlphabetic c) &&
    cs.all fun d => d == '_' || d == '.' || d == '[' || d == ']' ||
      Unicode.isAlphabetic d || Unicode.isNumber d

/-- A group's name, after the opening angle bracket. -/
def readGroupName (cs : List Char) : Except ReadError (String × List Char) :=
  let name := cs.takeWhile (· != '>')
  match cs.drop name.length with
  | '>' :: rest => if isGroupName name then pure (String.ofList name, rest) else throw .badGroupName
  | _ => throw .badGroupName

/-- A choice whose last branch is still being read, with branches and items backwards. Flags
that were set leave an item without an expression, which cannot be repeated. -/
structure Level where
  flags : Flags
  /-- The number and the name of the group, if it has a number. -/
  group : Option (Nat × Option String) := none
  branches : List (Nested Regex) := []
  items : List (Nested (Option Regex)) := []

namespace Level

def branch (l : Level) : Nested Regex :=
  .join (fun es => .sequence (es.filterMap id)) l.items.reverse

def close (l : Level) : Nested Regex := .join .choice (l.branches.reverse ++ [l.branch])

def add (l : Level) (e : Regex) (depth : Nat := 0) : Level :=
  { l with items := ⟨some e, depth⟩ :: l.items }

/-- Repeats the last item. -/
def repeatLast (l : Level) (least : Nat) (most : Option Nat) (greedy : Bool) :
    Except ReadError Level :=
  match l.items with
  | ⟨some e, depth⟩ :: items =>
    pure { l with items := ⟨some (.repeated least most greedy e), depth + 1⟩ :: items }
  | _ => throw .nothingToRepeat

end Level

/-- The innermost open group, those around it, how many have a number, and the names so far. -/
structure Progress where
  level : Level
  outer : List Level := []
  groups : Nat := 0
  names : List String := []

namespace Progress

def add (p : Progress) (e : Regex) (depth : Nat := 0) : Progress :=
  { p with level := p.level.add e depth }

def openGroup (p : Progress) (fl : Flags) : Progress :=
  { p with level := { flags := fl }, outer := p.level :: p.outer }

/-- Opens a group that takes the next number. -/
def openNumbered (p : Progress) (name : Option String) : Progress :=
  let number := p.groups + 1
  let level := { flags := p.level.flags, group := some (number, name) }
  { p with level, outer := p.level :: p.outer, groups := number, names := name.toList ++ p.names }

def closeGroup (p : Progress) : Except ReadError Progress :=
  let inner := p.level.close
  let e := match p.level.group with
    | some (number, name) => .group number name inner.value
    | none => inner.value
  match p.outer with
  | [] => throw .unopenedGroup
  | l :: outer => pure { p with level := l.add e (inner.depth + 1), outer }

def namedGroup (p : Progress) (cs : List Char) : Except ReadError (Progress × List Char) := do
  let (name, cs) ← readGroupName cs
  if p.names.contains name then throw .repeatedGroupName
  pure (p.openNumbered name, cs)

/-- What follows an opening parenthesis. -/
def readGroup (p : Progress) (cs : List Char) : Except ReadError (Progress × List Char) :=
  match cs with
  | '?' :: '=' :: _ | '?' :: '!' :: _ | '?' :: '<' :: '=' :: _ | '?' :: '<' :: '!' :: _ =>
    throw .lookAround
  | '?' :: 'P' :: '<' :: cs => p.namedGroup cs
  | '?' :: '<' :: cs => p.namedGroup cs
  | '?' :: cs => do
    let (found, cs) ← readFlags cs false []
    let fl := found.foldr (fun f fl => fl.set f) p.level.flags
    match cs with
    | ')' :: cs =>
      if found.isEmpty then throw .nothingToRepeat
      else
        let level := { p.level with flags := fl, items := ⟨none, 0⟩ :: p.level.items }
        pure ({ p with level }, cs)
    | cs => pure (p.openGroup fl, cs.drop 1)
  | cs => pure (p.openNumbered none, cs)

/-- A repetition is lazy where a question mark follows. -/
def repeatLast (p : Progress) (least : Nat) (most : Option Nat) (cs : List Char) :
    Except ReadError (Progress × List Char) :=
  let (greedy, cs) := match cs with | '?' :: cs => (false, cs) | _ => (true, cs)
  do pure ({ p with level := ← p.level.repeatLast least most greedy }, cs)

/-- One step, which takes the given character and what belongs to it. -/
def step (p : Progress) (c : Char) (cs : List Char) : Except ReadError (Progress × List Char) :=
  let fl := p.level.flags
  match c with
  | '(' => p.readGroup cs
  | ')' => do pure (← p.closeGroup, cs)
  | '|' =>
    let level := { p.level with branches := p.level.branch :: p.level.branches, items := [] }
    pure ({ p with level }, cs)
  | '[' => do
    let (negated, first, cs) := openClass cs
    let (s, cs) ← readClass fl (cs.length + 1) negated none first cs
    pure (p.add (.ofSet s.value) s.depth, cs)
  | '?' => p.repeatLast 0 (some 1) cs
  | '*' => p.repeatLast 0 none cs
  | '+' => p.repeatLast 1 none cs
  | '{' => do
    if p.level.items.isEmpty then throw .nothingToRepeat
    let ((least, most), cs) ← readCounts cs
    p.repeatLast least most cs
  | '.' => pure (p.add (.chars (if fl.dotAll then .all else .compl (.single '\n'))), cs)
  | '^' => pure (p.add (.look (if fl.multiLine then .lineStart else .textStart)), cs)
  | '$' => pure (p.add (.look (if fl.multiLine then .lineEnd else .textEnd)), cs)
  | '\\' => do
    let (e, cs) ← readEscape fl cs
    match e with
    | .char d => pure (p.add (fl.char d), cs)
    | .set s => pure (p.add (.ofSet s), cs)
    | .look l => pure (p.add (.look l), cs)
  | c => pure (p.add (fl.char c), cs)

/-- Steps until the text ends. The fuel is at least the number of characters left. -/
def run : Nat → Progress → List Char → Except ReadError (Nested Regex)
  | _, p, [] => if p.outer.isEmpty then pure p.level.close else throw .unclosedGroup
  | 0, _, _ :: _ => throw .unclosedGroup
  | fuel + 1, p, c :: cs => do
    let (p, cs) ← p.step c cs
    run fuel p cs

end Progress

/-- Reads a regular expression. -/
def Regex.read (text : String) : Except ReadError Regex := do
  let e ← Progress.run text.toList.length { level := { flags := {} } } text.toList
  if e.depth ≤ deepest then pure e.value else throw .tooDeep

end ContextFree.Pattern
