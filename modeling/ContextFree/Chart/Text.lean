import ContextFree.Chart

/-! The inspection form of charts, which shows every cell. -/
namespace ContextFree

def Back.inspect : Back → String
  | term rule => "Term(" ++ toString rule ++ ")"
  | split rule first => "Split(" ++ toString rule ++ ", " ++ toString first ++ ")"

def Mode.inspect : Mode → String
  | first => "First"
  | exhaustive => "Exhaustive"

/-- Items between square brackets. -/
def bracketed (items : List String) : String := "[" ++ ", ".intercalate items ++ "]"

def Cell.inspect (c : Cell) : String :=
  "\x7b" ++ ", ".intercalate (c.map fun (a, bs) =>
    toString a ++ ": " ++ bracketed (bs.map Back.inspect)) ++ "\x7d"

def Chart.inspect (c : Chart) : String :=
  "Table \x7b bounds: " ++ bracketed (c.bounds.map toString) ++
    ", cells: " ++ bracketed (c.cells.toList.map Cell.inspect) ++
    ", covered: " ++ bracketed (c.covered.map fun b => if b then "true" else "false") ++
    ", mode: " ++ c.mode.inspect ++ " \x7d"

example : (Chart.mk .first [0, 1] [true] #[[(2, [.term 0])]]).inspect =
    "Table \x7b bounds: [0, 1], cells: [\x7b2: [Term(0)]\x7d], " ++
      "covered: [true], mode: First \x7d" := by
  decide +kernel

end ContextFree
