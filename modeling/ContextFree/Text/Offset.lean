/-! Byte offsets into text. Words are read as lists of characters; offsets count the bytes of
their UTF-8 form, and only the offsets between two characters, or at an end, are boundaries. -/
namespace ContextFree.Text

/-- The bytes that the characters take. -/
def size : List Char → Nat
  | [] => 0
  | c :: cs => c.utf8Size + size cs

/-- The boundaries of text that starts at an offset: one before each character, one at the end. -/
def offsets : Nat → List Char → List Nat
  | p, [] => [p]
  | p, c :: cs => p :: offsets (p + c.utf8Size) cs

@[simp] theorem offsets_length (p : Nat) (cs : List Char) :
    (offsets p cs).length = cs.length + 1 := by
  induction cs generalizing p with
  | nil => rfl
  | cons c cs ih => simp [offsets, ih]

/-- The boundaries of a word, in order. -/
def bounds (w : String) : List Nat := offsets 0 w.toList

@[simp] theorem bounds_length (w : String) : (bounds w).length = w.toList.length + 1 :=
  offsets_length 0 w.toList

/-- The characters from an offset on; none where no character starts or the text ends. -/
def charsFrom? : List Char → Nat → Option (List Char)
  | cs, 0 => some cs
  | [], _ + 1 => none
  | c :: cs, p + 1 => if c.utf8Size ≤ p + 1 then charsFrom? cs (p + 1 - c.utf8Size) else none

/-- The characters before an offset, under the same condition. -/
def charsBefore? : List Char → Nat → Option (List Char)
  | _, 0 => some []
  | [], _ + 1 => none
  | c :: cs, p + 1 =>
    if c.utf8Size ≤ p + 1 then (charsBefore? cs (p + 1 - c.utf8Size)).map (c :: ·) else none

@[simp] theorem charsFrom?_zero (cs : List Char) : charsFrom? cs 0 = some cs := by
  cases cs <;> rfl

@[simp] theorem charsBefore?_zero (cs : List Char) : charsBefore? cs 0 = some [] := by
  cases cs <;> rfl

/-- An offset splits the text into what lies before it and what follows. -/
theorem charsBefore?_append (cs : List Char) (p : Nat) {before after : List Char}
    (hb : charsBefore? cs p = some before) (ha : charsFrom? cs p = some after) :
    before ++ after = cs := by
  induction cs generalizing p before with
  | nil => cases p <;> simp_all [charsBefore?, charsFrom?]
  | cons c cs ih =>
    cases p with
    | zero => simp_all
    | succ p =>
      rw [charsBefore?] at hb
      rw [charsFrom?] at ha
      split at hb <;> simp_all
      obtain ⟨b, hb, rfl⟩ := hb
      simp [ih _ hb ha]

/-- The text of a byte range that starts and ends on boundaries and is not backwards. -/
def slice? (w : String) (start stop : Nat) : Option String :=
  if start ≤ stop then
    ((charsFrom? w.toList start).bind (charsBefore? · (stop - start))).map String.ofList
  else none

example : slice? "aéb" 1 3 = some "é" ∧ slice? "aéb" 1 2 = none ∧ slice? "aéb" 3 1 = none ∧
    slice? "aéb" 4 4 = some "" ∧ slice? "aéb" 4 5 = none := by decide +kernel

end ContextFree.Text
