import ContextFree.Coded
import ContextFree.Unicode.Number
import ContextFree.Unicode.WhiteSpace
import ContextFree.Unicode.Alphabetic

/-! Classes of single characters. -/
namespace ContextFree

namespace CharClass

/-- The members of a class that lists them. They are in order and listed once, so that every set of
characters has one such list. -/
@[ext]
structure Members where
  chars : List Char
  increasing : chars.Pairwise (· < ·)
  deriving DecidableEq, Repr

/-- Adds a character to a list that increases, unless it is there. -/
def insertSorted (c : Char) : List Char → List Char
  | [] => [c]
  | d :: ds => if c < d then c :: d :: ds else if c = d then d :: ds else d :: insertSorted c ds

@[simp] theorem mem_insertSorted {c d : Char} {ds : List Char} :
    d ∈ insertSorted c ds ↔ d = c ∨ d ∈ ds := by
  induction ds with
  | nil => simp [insertSorted]
  | cons e ds ih =>
    rw [insertSorted]
    split
    · simp
    · split
      · rename_i h; subst h; simp
      · simp only [List.mem_cons, ih, or_left_comm]

theorem pairwise_insertSorted (c : Char) {ds : List Char} (h : ds.Pairwise (· < ·)) :
    (insertSorted c ds).Pairwise (· < ·) := by
  induction ds with
  | nil => simp [insertSorted]
  | cons d ds ih =>
    obtain ⟨hd, hds⟩ := List.pairwise_cons.1 h
    rw [insertSorted]
    split
    case isTrue hcd =>
      refine List.pairwise_cons.2 ⟨fun e he => ?_, h⟩
      obtain rfl | he := List.mem_cons.1 he
      · exact hcd
      · exact Char.lt_trans hcd (hd e he)
    case isFalse hcd =>
      split
      case isTrue => exact h
      case isFalse hne =>
        have hdc : d < c := Std.lt_of_le_of_ne (Char.not_lt.1 hcd) (Ne.symm hne)
        refine List.pairwise_cons.2 ⟨fun e he => ?_, ih hds⟩
        obtain rfl | he := mem_insertSorted.1 he
        · exact hdc
        · exact hd e he

namespace Members

def empty : Members := ⟨[], .nil⟩

def insert (c : Char) (m : Members) : Members :=
  ⟨insertSorted c m.chars, pairwise_insertSorted c m.increasing⟩

/-- The characters of a text. -/
def ofString (s : String) : Members := s.toList.foldr insert empty

@[simp] theorem mem_ofString {s : String} {c : Char} : c ∈ (ofString s).chars ↔ c ∈ s.toList := by
  unfold ofString
  induction s.toList with
  | nil => simp [empty]
  | cons d ds ih => simp [insert, ih]

/-- Nothing but what is in them tells members apart. -/
theorem eq_of_mem_iff {m n : Members} (h : ∀ c, c ∈ m.chars ↔ c ∈ n.chars) : m = n := by
  have nodup (m : Members) : m.chars.Nodup := m.increasing.imp Std.ne_of_lt
  have hp : m.chars.Perm n.chars := (List.perm_ext_iff_of_nodup (nodup m) (nodup n)).2 h
  exact Members.ext (hp.eq_of_pairwise
    (fun _ _ _ _ hlt hgt => absurd hgt (Char.lt_asymm hlt)) m.increasing n.increasing)

end Members
end CharClass

/-- A class of characters. -/
inductive CharClass
  | letters
  | digits
  | alphanumerics
  | whiteSpace
  | punctuation
  | set (members : CharClass.Members)
  /-- From the first character to the last, both included. -/
  | range (first last : Char)
  deriving DecidableEq, Repr

instance : Coded CharClass where
  code
    | .letters => 1
    | .digits => 2
    | .alphanumerics => 3
    | .whiteSpace => 4
    | .punctuation => 5
    | .set members => Coded.code members.chars
    | .range first last => Coded.code (first, last)

namespace CharClass

/-- The class of the characters of a text. -/
def ofString (s : String) : CharClass := set (.ofString s)

def isAsciiPunctuation (c : Char) : Bool :=
  c.toNat < 128 && 32 < c.toNat && c.toNat != 127 && !c.isAlphanum

/-- Letters, numbers and white space are those of all scripts, digits and punctuation are ASCII. -/
def contains : CharClass → Char → Bool
  | letters, c => Unicode.isAlphabetic c
  | digits, c => c.isDigit
  | alphanumerics, c => Unicode.isAlphabetic c || Unicode.isNumber c
  | whiteSpace, c => Unicode.isWhiteSpace c
  | punctuation, c => isAsciiPunctuation c
  | set members, c => members.chars.contains c
  | range first last, c => first ≤ c && c ≤ last

/-- The class of a text has the characters of the text. -/
theorem contains_ofString (s : String) (c : Char) :
    (ofString s).contains c = s.toList.contains c := by
  rw [Bool.eq_iff_iff, ofString, contains, List.contains_iff_mem, List.contains_iff_mem,
    Members.mem_ofString]

/-- Texts with the same characters have the same class. -/
theorem ofString_eq_iff {s t : String} :
    ofString s = ofString t ↔ ∀ c, c ∈ s.toList ↔ c ∈ t.toList := by
  constructor
  · intro h c
    have hm : Members.ofString s = Members.ofString t := set.inj h
    rw [← Members.mem_ofString, hm, Members.mem_ofString]
  · intro h
    exact congrArg set (Members.eq_of_mem_iff fun c => by simp only [Members.mem_ofString, h])

example : Members.ofString "cabac" = ⟨['a', 'b', 'c'], by decide⟩ := by decide +kernel

/-- A backwards range is empty. -/
example : (range 'f' 'a').contains 'c' = false ∧ (range 'a' 'f').contains 'f' := by decide

/-- A digit of another script is alphanumeric, and not a digit. -/
example : alphanumerics.contains '٣' ∧ digits.contains '٣' = false := by decide +kernel

end CharClass
end ContextFree
