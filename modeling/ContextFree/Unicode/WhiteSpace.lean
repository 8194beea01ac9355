import ContextFree.Unicode.CharTable

/-! Characters with the White_Space property. -/
namespace ContextFree.Unicode

/-- The ranges with the White_Space property. -/
def whiteSpace : CharTable := ⟨#[
  (0x9, 0xd), (0x20, 0x20), (0x85, 0x85), (0xa0, 0xa0), (0x1680, 0x1680), (0x2000, 0x200a),
  (0x2028, 0x2029), (0x202f, 0x202f), (0x205f, 0x205f), (0x3000, 0x3000)]⟩

def isWhiteSpace (c : Char) : Bool := whiteSpace.contains c

/-- A no-break space is white space, a zero-width space is not. -/
example : isWhiteSpace '\u00a0' ∧ ¬ isWhiteSpace '\u200b' := by decide +kernel

end ContextFree.Unicode
