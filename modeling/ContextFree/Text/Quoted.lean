import ContextFree.Unicode.Printable

/-! Quoted text. Characters that have a glyph of their own stand for themselves; the quote, the
backslash and the rest are escaped, by a letter where there is one and by their code otherwise. -/
namespace ContextFree.Text

/-- The code of a character in lower-case hexadecimal digits between braces. -/
def escapeCode (c : Char) : String :=
  "\\u\x7b" ++ String.ofList (Nat.toDigits 16 c.toNat) ++ "\x7d"

/-- One character inside the given quotes. -/
def escapeChar (quote c : Char) : String :=
  if c = '\x00' then "\\0"
  else if c = '\t' then "\\t"
  else if c = '\r' then "\\r"
  else if c = '\n' then "\\n"
  else if c = '\\' then "\\\\"
  else if c = quote then "\\" ++ c.toString
  else if Unicode.isAttached c || !Unicode.isPrintable c then escapeCode c
  else c.toString

/-- Text between double quotes. -/
def quoted (s : String) : String :=
  "\"" ++ String.join (s.toList.map (escapeChar '"')) ++ "\""

/-- A character between single quotes. -/
def quotedChar (c : Char) : String := "'" ++ escapeChar '\'' c ++ "'"

example : quoted "a'\"\n" = "\"a'\\\"\\n\"" ∧ quotedChar '\'' = "'\\''" ∧
    quoted "é\u0301" = "\"é\\u\x7b301\x7d\"" := by decide +kernel

end ContextFree.Text
