import ContextFree.Proofs.Forest
import Mathlib.Data.List.Find

/-! Agreement. All questions about a word agree: it is in the language and has trees, of which the
one tree is the first, or it is refused for one reason. -/
namespace ContextFree

variable {g : Grammar} {w : String} {s : Scan}

theorem isEmpty_cell_filled (s : Scan) (mode mode' : Mode) {l : Nat} (hl : 1 ≤ l)
    (h : l ≤ s.bounds.length - 1) :
    ((g.filled s mode).cell 0 l).isEmpty = ((g.filled s mode').cell 0 l).isEmpty := by
  have hkeys : ((g.filled s mode).cell 0 l).keys = ((g.filled s mode').cell 0 l).keys :=
    NormalForm.keys_fill mode mode' hl (by omega)
  have isEmpty_keys (c : Cell) : c.isEmpty = c.keys.isEmpty := by cases c <;> rfl
  rw [isEmpty_keys, isEmpty_keys, hkeys]

/-- Both modes refuse a word for the same reason. -/
theorem diagnose_filled (s : Scan) (mode mode' : Mode) (w : String) :
    (g.filled s mode).diagnose w = (g.filled s mode').diagnose w := by
  have hfurthest : (g.filled s mode).furthest = (g.filled s mode').furthest := by
    have hlen : (g.filled s mode').length = (g.filled s mode).length := rfl
    rw [Chart.furthest, Chart.furthest, hlen]
    refine congrArg (Option.getD · 0) (List.find?_congr fun l hl => ?_)
    rw [List.mem_reverse, List.mem_range'_1] at hl
    have hle : (g.filled s mode).length = s.bounds.length - 1 := NormalForm.length_fill s mode
    rw [isEmpty_cell_filled s mode mode' hl.1 (by omega)]
  rw [Chart.diagnose, Chart.diagnose, hfurthest]
  rfl

section Answers
variable [Pattern.Engine]

/-- What is answered about a word that is accepted: `t` is the one tree, and the first of all. -/
structure Accepted (g : Grammar) (w : String) (t : ParseTree) (ts : List ParseTree) : Prop where
  contains : g.parser.contains w = .ok true
  hasSyntaxTree : g.parser.hasSyntaxTree w = .ok true
  syntaxTree : g.parser.syntaxTree w = .ok t
  allSyntaxTrees : g.parser.allSyntaxTrees w = .ok (t :: ts)

/-- What is answered about a word that is refused. -/
structure Refused (g : Grammar) (w : String) (e : SyntaxError) : Prop where
  contains : g.parser.contains w = .ok false
  hasSyntaxTree : g.parser.hasSyntaxTree w = .ok false
  syntaxTree : g.parser.syntaxTree w = .error (.rejected e)
  allSyntaxTrees : g.parser.allSyntaxTrees w = .error (.rejected e)

theorem contains_eq (h : g.normalForm.scan w = .ok s) :
    g.parser.contains w = .ok ((g.filled s .first).accepts g.normalForm) := by
  rw [Parser.contains, chart_eq h]
  rfl

theorem accepted_of_accepts (hscan : g.normalForm.scan w = .ok s)
    (h : (g.filled s .first).accepts g.normalForm = true) : ∃ t ts, Accepted g w t ts := by
  obtain ⟨t, ts, hfirst, hall⟩ := leads_trees (NormalForm.scans_of_scan hscan) h
  have htree : g.parser.syntaxTree w = .ok t := by
    rw [Parser.syntaxTree, parse_eq hscan, if_pos h, hfirst]
  refine ⟨t, ts, by rw [contains_eq hscan, h], ?_, htree, ?_⟩
  · rw [Parser.hasSyntaxTree, htree]
  · rw [Parser.allSyntaxTrees, parse_eq hscan,
      if_pos (by rwa [accepts_filled s .exhaustive .first]), hall]

theorem refused_diagnose (hscan : g.normalForm.scan w = .ok s)
    (h : ¬ (g.filled s .first).accepts g.normalForm = true) :
    Refused g w ((g.filled s .first).diagnose w) := by
  have htree : g.parser.syntaxTree w =
      .error (.rejected ((g.filled s .first).diagnose w)) := by
    rw [Parser.syntaxTree, parse_eq hscan, if_neg h]
  refine ⟨?_, ?_, htree, ?_⟩
  · rw [contains_eq hscan, Bool.eq_false_iff.2 h]
  · rw [Parser.hasSyntaxTree, htree]
  · rw [Parser.allSyntaxTrees, parse_eq hscan,
      if_neg (by rwa [accepts_filled s .exhaustive .first]), diagnose_filled s .exhaustive .first]

theorem refused_of_not_accepts (hscan : g.normalForm.scan w = .ok s)
    (h : ¬ (g.filled s .first).accepts g.normalForm = true) : ∃ e, Refused g w e :=
  ⟨_, refused_diagnose hscan h⟩

/-- What is answered if a black box fails. -/
structure Faulted (g : Grammar) (w : String) (f : Fault) : Prop where
  contains : g.parser.contains w = .error f
  hasSyntaxTree : g.parser.hasSyntaxTree w = .error f
  syntaxTree : g.parser.syntaxTree w = .error (.fault f)
  allSyntaxTrees : g.parser.allSyntaxTrees w = .error (.fault f)

theorem faulted_of_scan {f : Fault} (hscan : g.normalForm.scan w = .error f) : Faulted g w f := by
  have hparse (mode : Mode) : g.parser.parse w mode = .error (.fault f) := by
    rw [Parser.parse, chart_eq_error hscan]
  have htree : g.parser.syntaxTree w = .error (.fault f) := by
    rw [Parser.syntaxTree, hparse]
  refine ⟨?_, ?_, htree, hparse .exhaustive⟩
  · rw [Parser.contains, chart_eq_error hscan]
    rfl
  · rw [Parser.hasSyntaxTree, htree]

/-- Whatever black boxes do, the answers agree. -/
theorem accepted_or_refused_or_faulted (g : Grammar) (w : String) :
    (∃ t ts, Accepted g w t ts) ∨ (∃ e, Refused g w e) ∨ ∃ f, Faulted g w f := by
  cases hscan : g.normalForm.scan w with
  | error f =>
    right; right
    exact ⟨f, faulted_of_scan hscan⟩
  | ok s =>
    by_cases h : (g.filled s .first).accepts g.normalForm = true
    · left
      exact accepted_of_accepts hscan h
    · right; left
      exact refused_of_not_accepts hscan h

/-- Exactly one of two cases holds: all answers accept a word, or all refuse it. -/
theorem accepted_xor_refused (hw : g.Answers w) :
    Xor (∃ t ts, Accepted g w t ts) (∃ e, Refused g w e) := by
  have exclusive : ¬ ((∃ t ts, Accepted g w t ts) ∧ ∃ e, Refused g w e) := by
    rintro ⟨⟨t, ts, h⟩, e, h'⟩
    have := h.contains.symm.trans h'.contains
    simp at this
  obtain ⟨s, hscan, -⟩ := hw.exists_scan
  rcases accepted_or_refused_or_faulted g w with h | h | ⟨f, h⟩
  · exact .inl ⟨h, fun hrefused => exclusive ⟨h, hrefused⟩⟩
  · exact .inr ⟨h, fun haccepted => exclusive ⟨haccepted, h⟩⟩
  · have hcontains := h.contains
    rw [contains_eq hscan] at hcontains
    simp at hcontains

end Answers

theorem accepted_xor_refused_numerals : numerals.Answers "4x" ∧
    Xor (∃ t ts, Accepted numerals "4x" t ts) (∃ e, Refused numerals "4x" e) :=
  ⟨answers_numerals "4x", accepted_xor_refused (answers_numerals "4x")⟩

end ContextFree
