import ContextFree.Parse
import ContextFree.Proofs.Leading

/-! Recognition. A chart accepts its word just if the start derives it, in either mode. -/
namespace ContextFree

variable {g : Grammar} {w : String} {s : Scan}

section Language
variable [Pattern.Engine]

theorem length_filled (hs : g.normalForm.Scans w s) (mode : Mode) :
    (g.filled s mode).length = w.toList.length := by
  rw [Grammar.filled, NormalForm.length_fill, hs.bounds_eq, Text.bounds_length, Nat.add_sub_cancel]

omit [Pattern.Engine] in
/-- Both modes accept the same words. -/
theorem accepts_filled (s : Scan) (mode mode' : Mode) :
    (g.filled s mode).accepts g.normalForm = (g.filled s mode').accepts g.normalForm := by
  have hlen : (g.filled s mode').length = (g.filled s mode).length := rfl
  rw [Chart.accepts, Chart.accepts, hlen]
  split
  · rfl
  · rename_i h0
    have hkeys : ((g.filled s mode).cell 0 (g.filled s mode).length).keys =
        ((g.filled s mode').cell 0 (g.filled s mode).length).keys :=
      NormalForm.keys_fill mode mode' (Nat.pos_of_ne_zero h0) (by rw [Nat.zero_add]; rfl)
    rw [Bool.eq_iff_iff, Cell.has_iff, Cell.has_iff, hkeys]

/-- What is in the language has an acyclic derivation. -/
theorem generates_iff_acyclic : g.Generates w ↔
    ∃ t, DerivesAcyclic g w [] (.nonterm g.start) 0 (Text.size w.toList) t := by
  constructor
  · rintro ⟨t, ht⟩
    exact ht.exists_acyclic
  · rintro ⟨t, ht⟩
    exact ⟨t, ht.derives⟩

/-- The empty word has no cell: it is accepted if the start is nilable. -/
theorem accepts_empty_iff (hs : g.normalForm.Scans w s) (mode : Mode) (h0 : w.toList.length = 0) :
    (g.filled s mode).accepts g.normalForm = true ↔ g.Generates w := by
  have hsize : Text.size w.toList = 0 := by rw [List.length_eq_zero_iff.1 h0, Text.size_nil]
  rw [Chart.accepts, length_filled hs, if_pos h0, Grammar.Generates, hsize]
  exact nilable_emptyProofs (g := g) (w := w) (x := .nonterm g.start) 0

/-- A word that is not empty is accepted if the start gives something for all of it. -/
theorem accepts_iff_gives (hs : g.normalForm.Scans w s) (h0 : w.toList.length ≠ 0) :
    (g.filled s .exhaustive).accepts g.normalForm = true ↔
      g.gives s .exhaustive 0 w.toList.length .start ≠ [] := by
  have hle : 0 + w.toList.length ≤ s.bounds.length - 1 := by
    rw [hs.bounds_eq, Text.bounds_length]
    omega
  have hpos := Nat.pos_of_ne_zero h0
  constructor
  · intro h hnil
    rw [accepts_filled s .exhaustive .first, Chart.accepts, length_filled hs, if_neg h0,
      ← Grammar.number_start g] at h
    obtain ⟨ps, rest, -, hall⟩ := leads_alternatives _ hpos hle .start h
    rw [hall] at hnil
    simp at hnil
  · intro h
    obtain ⟨ps, hps⟩ := List.exists_mem_of_ne_nil _ h
    rw [Chart.accepts, length_filled hs, if_neg h0, ← Grammar.number_start g]
    exact NormalForm.has_of_mem_alternatives hpos hle hps

theorem accepts_iff (hg : g.Coherent) (hs : g.normalForm.Scans w s) (mode : Mode) :
    (g.filled s mode).accepts g.normalForm = true ↔ g.Generates w := by
  by_cases h0 : w.toList.length = 0
  · exact accepts_empty_iff hs mode h0
  · rw [accepts_filled s mode .exhaustive, accepts_iff_gives hs h0, generates_iff_acyclic]
    have hgives := mem_gives_start hg hs (Nat.pos_of_ne_zero h0) (Text.bounds_zero w)
      (Text.bounds_last w)
    constructor
    · intro h
      obtain ⟨ps, hps⟩ := List.exists_mem_of_ne_nil _ h
      obtain ⟨t, -, ht⟩ := (hgives ps).1 hps
      exact ⟨t, ht⟩
    · rintro ⟨t, ht⟩
      exact List.ne_nil_of_mem ((hgives _).2 ⟨t, rfl, ht⟩)

theorem chart_eq {s : Scan} (h : g.normalForm.scan w = .ok s) (mode : Mode) :
    g.parser.chart w mode = .ok (g.filled s mode) := by
  change g.normalForm.chart w mode = _
  rw [NormalForm.chart, h]
  rfl

/-- A word that cannot be scanned has no chart. -/
theorem chart_eq_error {f : Fault} (h : g.normalForm.scan w = .error f) (mode : Mode) :
    g.parser.chart w mode = .error f := by
  change g.normalForm.chart w mode = _
  rw [NormalForm.chart, h]
  rfl

theorem scan_of_chart {mode : Mode} {c : Chart} (h : g.parser.chart w mode = .ok c) :
    ∃ s, g.normalForm.scan w = .ok s ∧ c = g.filled s mode := by
  cases hscan : g.normalForm.scan w with
  | error f => simp [chart_eq_error hscan] at h
  | ok s =>
    rw [chart_eq hscan, Except.ok.injEq] at h
    exact ⟨s, rfl, h.symm⟩

/-- A word is contained just if the start symbol derives it. -/
theorem contains_iff_generates (hg : g.Coherent) (hw : g.Answers w) :
    ∃ b, g.parser.contains w = .ok b ∧ (b = true ↔ g.Generates w) := by
  obtain ⟨s, hscan, hs⟩ := hw.exists_scan
  refine ⟨(g.filled s .first).accepts g.normalForm, ?_, accepts_iff hg hs .first⟩
  rw [Parser.contains, chart_eq hscan]
  rfl

end Language

/-- Numbers, digit by digit: ambiguous, cyclic and nilable. -/
def numerals : Grammar where
  start := "N"
  productions := [⟨"N", [.nonterm "N", .nonterm "N"]⟩,
    ⟨"N", [.blackBox (.predicate "digit" Char.isDigit)]⟩, ⟨"N", []⟩]
  start_defined := ⟨_, .head _, rfl⟩
  closed := by simp [Production.references, Symbol.nonterm?, Symbol.blackBox]

theorem terminals_numerals :
    numerals.terminals = [.blackBox (.predicate "digit" Char.isDigit)] := rfl

theorem coherent_numerals : numerals.Coherent := by
  intro b c hb hc _
  rw [terminals_numerals, List.mem_singleton, Terminal.blackBox.injEq] at hb hc
  rw [hb, hc]

theorem answers_numerals (w : String) : numerals.Answers w := by
  intro b hb p hp
  rw [terminals_numerals, List.mem_singleton, Terminal.blackBox.injEq] at hb
  exact hb ▸ Matcher.exists_one Char.isDigit hp

theorem contains_iff_generates_numerals : numerals.Coherent ∧ numerals.Answers "42" ∧
    ∃ b, numerals.parser.contains "42" = .ok b ∧ (b = true ↔ numerals.Generates "42") :=
  ⟨coherent_numerals, answers_numerals "42",
    contains_iff_generates coherent_numerals (answers_numerals "42")⟩

end ContextFree
