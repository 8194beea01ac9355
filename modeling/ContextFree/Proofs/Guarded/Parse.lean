import ContextFree.Proofs.Agreement
import ContextFree.Proofs.Guarded.Trees

/-! Guarded parsing. If the black boxes of a grammar answer at the boundaries of a word, with any
offset, no guarded run about the word ever stops: the total definitions never use a default, and no
terminal is tried inside a character. -/
namespace ContextFree
namespace Guarded

def parser (g : Grammar) : Except Lapse Parser := return ⟨g.analysis, ← normalForm g.analysis⟩

theorem parser_eq (g : Grammar) : parser g = .ok g.parser := by
  rw [parser, normalForm_eq]
  rfl

section Runs
variable [Pattern.Engine]

def parse (p : Parser) (w : String) (mode : Mode) :
    Except Lapse (Except SyntaxError (List ParseTree)) := do
  let c ← chart p.normalForm w mode
  if ← accepts p.normalForm c then return .ok (← trees p.analysis p.normalForm c)
  else return .error (← diagnose c w)

def contains (p : Parser) (w : String) : Except Lapse Bool := do
  accepts p.normalForm (← chart p.normalForm w .first)

/-- One syntax tree of a word; first mode has to give one, and no more. -/
def syntaxTree (p : Parser) (w : String) : Except Lapse (Except SyntaxError ParseTree) := do
  match ← parse p w .first with
  | .error e => return .error e
  | .ok [t] => return .ok t
  | .ok ts => .error (.fault (.treeCount ts.length))

def allSyntaxTrees (p : Parser) (w : String) :
    Except Lapse (Except SyntaxError (List ParseTree)) := parse p w .exhaustive

/-- All guarded runs about a word come to an end, with what the total definitions give. -/
structure Completes (g : Grammar) (w : String) : Prop where
  parser : Guarded.parser g = .ok g.parser
  /-- Charts of both modes, and what is read from them whether they span the word or not. -/
  chart : ∀ mode, ∃ c, g.parser.chart w mode = .ok c ∧
    Guarded.chart g.parser.normalForm w mode = .ok c ∧
    Guarded.accepts g.parser.normalForm c = .ok (g.parser.accepts c) ∧
    Guarded.diagnose c w = .ok (c.diagnose w) ∧
    Guarded.trees g.parser.analysis g.parser.normalForm c = .ok (g.parser.trees c)
  contains : ∃ b, Guarded.contains g.parser w = .ok b ∧ g.parser.contains w = .ok b
  /-- There is one tree, or the word is refused. -/
  syntaxTree : ∃ r, Guarded.syntaxTree g.parser w = .ok r ∧
    g.parser.syntaxTree w = r.mapError .rejected
  allSyntaxTrees : ∃ r, Guarded.allSyntaxTrees g.parser w = .ok r ∧
    g.parser.allSyntaxTrees w = r.mapError .rejected

variable {g : Grammar} {w : String} {s : Scan} {mode : Mode}

theorem parse_eq_of_accepts (hscan : g.normalForm.scan w = .ok s)
    (h : (g.filled s mode).accepts g.normalForm = true) :
    parse g.parser w mode = .ok (.ok (g.trees s mode)) := by
  have hchart : chart g.parser.normalForm w mode = .ok _ := chart_eq hscan mode
  have haccepts : accepts g.parser.normalForm (g.filled s mode) = .ok true :=
    (accepts_eq g.normalForm _).trans (congrArg Except.ok h)
  have htrees : trees g.parser.analysis g.parser.normalForm (g.filled s mode) = .ok _ :=
    trees_eq s mode
  simp only [parse, hchart, haccepts, htrees, bind, Except.bind, if_true]
  rfl

theorem parse_eq_of_not_accepts (hscan : g.normalForm.scan w = .ok s)
    (h : ¬ (g.filled s mode).accepts g.normalForm = true) :
    parse g.parser w mode = .ok (.error ((g.filled s mode).diagnose w)) := by
  have hchart : chart g.parser.normalForm w mode = .ok _ := chart_eq hscan mode
  have haccepts : accepts g.parser.normalForm (g.filled s mode) = .ok false :=
    (accepts_eq g.normalForm _).trans (congrArg Except.ok (Bool.eq_false_iff.2 h))
  simp only [parse, hchart, haccepts, diagnose_eq, bind, Except.bind, Bool.false_eq_true, if_false]
  rfl

/-- First mode gives one tree for what is accepted. -/
theorem exists_syntaxTree (hscan : g.normalForm.scan w = .ok s) :
    ∃ r, syntaxTree g.parser w = .ok r ∧ g.parser.syntaxTree w = r.mapError .rejected := by
  by_cases h : (g.filled s .first).accepts g.normalForm = true
  · obtain ⟨t, ts, hfirst, -⟩ := leads_trees (NormalForm.scans_of_scan hscan) h
    refine ⟨.ok t, ?_, ?_⟩
    · rw [syntaxTree, parse_eq_of_accepts hscan h, hfirst]
      rfl
    · rw [Parser.syntaxTree, parse_eq hscan, if_pos h, hfirst]
      rfl
  · refine ⟨.error ((g.filled s .first).diagnose w), ?_, ?_⟩
    · rw [syntaxTree, parse_eq_of_not_accepts hscan h]
      rfl
    · exact (refused_diagnose hscan h).syntaxTree

theorem exists_allSyntaxTrees (hscan : g.normalForm.scan w = .ok s) :
    ∃ r, allSyntaxTrees g.parser w = .ok r ∧ g.parser.allSyntaxTrees w = r.mapError .rejected := by
  rw [allSyntaxTrees, Parser.allSyntaxTrees, parse_eq hscan]
  by_cases h : (g.filled s .exhaustive).accepts g.normalForm = true
  · rw [if_pos h]
    exact ⟨_, parse_eq_of_accepts hscan h, rfl⟩
  · rw [if_neg h]
    exact ⟨_, parse_eq_of_not_accepts hscan h, rfl⟩

/-- Whatever offsets black boxes answer at boundaries, guarded runs never stop. -/
theorem completes (hw : g.Answers w) : Completes g w := by
  obtain ⟨s, hscan, -⟩ := hw.exists_scan
  exact {
    parser := parser_eq g
    chart := fun mode => ⟨g.filled s mode, ContextFree.chart_eq hscan mode, chart_eq hscan mode,
      accepts_eq g.normalForm _, diagnose_eq s mode w, trees_eq s mode⟩
    contains := by
      refine ⟨_, ?_, contains_eq hscan⟩
      have hchart : chart g.parser.normalForm w .first = .ok _ := chart_eq hscan .first
      rw [contains, hchart]
      exact accepts_eq g.normalForm _
    syntaxTree := exists_syntaxTree hscan
    allSyntaxTrees := exists_allSyntaxTrees hscan }

end Runs

/-- Black boxes whose matches end inside a character, before they start, or behind the word. -/
def wayward : Grammar where
  start := "S"
  productions := [⟨"S", [.nonterm "S", .nonterm "X", .nonterm "E"]⟩, ⟨"S", [.nonterm "E"]⟩,
    ⟨"X", [.blackBox ⟨"byte", Matcher.forward 1⟩]⟩, ⟨"X", [.blackBox ⟨"back", Matcher.backward 1⟩]⟩,
    ⟨"X", [.blackBox ⟨"beyond", Matcher.forward 9⟩]⟩, ⟨"E", []⟩]
  start_defined := ⟨_, .head _, rfl⟩
  closed := by simp +contextual [Production.references, Symbol.nonterm?, Symbol.blackBox]

theorem answers_wayward (w : String) : wayward.Answers w := by
  intro b hb p _
  have hmem : b ∈ [⟨"byte", Matcher.forward 1⟩, ⟨"back", Matcher.backward 1⟩,
      (⟨"beyond", Matcher.forward 9⟩ : BlackBox)] := by
    simpa [wayward, Grammar.terminals, Symbol.blackBox, Symbol.term?] using hb
  simp only [List.mem_cons, List.not_mem_nil, or_false] at hmem
  rcases hmem with rfl | rfl | rfl
  · exact ⟨_, rfl⟩
  · exact ⟨_, rfl⟩
  · exact ⟨_, rfl⟩

theorem completes_wayward : wayward.Answers "aé" ∧ Completes wayward "aé" :=
  ⟨answers_wayward "aé", completes (answers_wayward "aé")⟩

end Guarded
end ContextFree
