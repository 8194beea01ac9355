import ContextFree.Proofs.Recognition
import Mathlib.Data.Set.List

/-! Forests. All trees of a word are its acyclic derivations, each of them once; the tree that first
mode gives is one of them. -/
namespace ContextFree

/-- The trees of the chart of a scan. -/
def Grammar.trees (g : Grammar) (s : Scan) (mode : Mode) : List ParseTree :=
  (g.filled s mode).trees g.analysis g.normalForm

variable {g : Grammar} {w : String} {s : Scan} {t : ParseTree}

section Trees
variable [Pattern.Engine]

theorem trees_of_length_eq_zero (hs : g.normalForm.Scans w s) (mode : Mode)
    (h0 : w.toList.length = 0) : g.trees s mode =
      if g.emptyProofs.nilable (.nonterm g.start) = true then
        (g.rebuilding mode).emptiesAt 0 (.nonterm g.start) else [] := by
  rw [Grammar.trees, Chart.trees, length_filled hs, if_pos h0]
  rfl

theorem trees_of_length_ne_zero (hs : g.normalForm.Scans w s) (mode : Mode)
    (h0 : w.toList.length ≠ 0) : g.trees s mode =
      (g.gives s mode 0 w.toList.length .start).filterMap fun ps => ps.head?.map (·.tree) := by
  rw [Grammar.gives, Grammar.number_start, ← length_filled hs mode, Grammar.trees, Chart.trees,
    if_neg (by rwa [length_filled hs])]
  rfl

/-- A word that is not empty has, for each of its trees, one way for the start to derive it. -/
theorem gives_start_eq_map (hg : g.Coherent) (hs : g.normalForm.Scans w s)
    (h0 : w.toList.length ≠ 0) : g.gives s .exhaustive 0 w.toList.length .start =
      (g.trees s .exhaustive).map fun t => [⟨t, Text.size w.toList⟩] := by
  obtain ⟨ts, hts⟩ : g.gives s .exhaustive 0 w.toList.length .start ∈
      Set.range (List.map fun t => ([⟨t, Text.size w.toList⟩] : Parts)) := by
    rw [Set.range_list_map]
    intro ps hps
    obtain ⟨t, rfl, -⟩ := (mem_gives_start hg hs (Nat.pos_of_ne_zero h0) (Text.bounds_zero w)
      (Text.bounds_last w) ps).1 hps
    exact ⟨t, rfl⟩
  rw [trees_of_length_ne_zero hs .exhaustive h0, ← hts, List.filterMap_map]
  exact congrArg _ List.filterMap_some.symm

/-- The trees of a word are its acyclic derivations. -/
theorem mem_trees (hg : g.Coherent) (hs : g.normalForm.Scans w s) : t ∈ g.trees s .exhaustive ↔
    DerivesAcyclic g w [] (.nonterm g.start) 0 (Text.size w.toList) t := by
  by_cases h0 : w.toList.length = 0
  · have hsize : Text.size w.toList = 0 := by rw [List.length_eq_zero_iff.1 h0, Text.size_nil]
    rw [trees_of_length_eq_zero hs .exhaustive h0, hsize]
    by_cases hnil : g.emptyProofs.nilable (.nonterm g.start) = true
    · rw [if_pos hnil, mem_emptiesAt (hasEmpties_rebuilding g) hnil]
    · rw [if_neg hnil]
      constructor
      · intro h
        simp at h
      · intro h
        exact (hnil (h.derives.nilable rfl)).elim
  · have hgives := mem_gives_start hg hs (Nat.pos_of_ne_zero h0) (Text.bounds_zero w)
      (Text.bounds_last w) [⟨t, Text.size w.toList⟩]
    rw [gives_start_eq_map hg hs h0] at hgives
    simpa using hgives

/-- No tree occurs twice. -/
theorem nodup_trees (hg : g.Coherent) (hs : g.normalForm.Scans w s) :
    (g.trees s .exhaustive).Nodup := by
  by_cases h0 : w.toList.length = 0
  · rw [trees_of_length_eq_zero hs .exhaustive h0]
    split
    · rw [Rebuilding.emptiesAt, empties_rebuilding]
      exact (Grammar.nodup_emptyTrees .exhaustive g.start).map (EmptyTree.place_injective 0)
    · exact List.nodup_nil
  · have hnodup : (g.gives s .exhaustive 0 w.toList.length .start).Nodup := by
      have h : g.gives s .exhaustive 0 w.toList.length .start = _ :=
        NormalForm.alternatives_fill (Nat.pos_of_ne_zero h0)
          (le_length hs (by rw [Nat.zero_add]; exact Text.bounds_last w))
      rw [h]
      exact nodup_distinctParts _
    rw [gives_start_eq_map hg hs h0] at hnodup
    exact hnodup.of_map

/-- The tree of first mode leads the trees of a word. -/
theorem leads_trees (hs : g.normalForm.Scans w s)
    (h : (g.filled s .first).accepts g.normalForm = true) :
    Leads (g.trees s .first) (g.trees s .exhaustive) := by
  rw [Chart.accepts, length_filled hs] at h
  by_cases h0 : w.toList.length = 0
  · rw [if_pos h0] at h
    have hnil : g.emptyProofs.nilable (.nonterm g.start) = true := h
    rw [trees_of_length_eq_zero hs .first h0, trees_of_length_eq_zero hs .exhaustive h0,
      if_pos hnil, if_pos hnil]
    exact leads_emptiesAt hnil
  · rw [if_neg h0, ← Grammar.number_start g] at h
    have hpos := Nat.pos_of_ne_zero h0
    have hle := le_length hs (i := 0) (by rw [Nat.zero_add]; exact Text.bounds_last w)
    have hleads := leads_alternatives _ hpos hle .start h
    have hlen : ∀ ps ∈ g.gives s .first 0 w.toList.length .start, ps.length = 1 :=
      length_of_mem_gives _ hpos hle .start
    rw [trees_of_length_ne_zero hs .first h0, trees_of_length_ne_zero hs .exhaustive h0]
    apply hleads.filterMap
    intro ps hps
    obtain ⟨part, rfl⟩ := List.length_eq_one_iff.1 (hlen ps hps)
    simp

theorem parse_eq (h : g.normalForm.scan w = .ok s) (mode : Mode) :
    g.parser.parse w mode = if (g.filled s mode).accepts g.normalForm then .ok (g.trees s mode)
      else .error (.rejected ((g.filled s mode).diagnose w)) := by
  rw [Parser.parse, chart_eq h]
  rfl

/-- Trees are only given for what was scanned and accepted. -/
theorem scan_of_parse {mode : Mode} {ts : List ParseTree} (h : g.parser.parse w mode = .ok ts) :
    ∃ s, g.normalForm.scan w = .ok s ∧ (g.filled s mode).accepts g.normalForm = true ∧
      ts = g.trees s mode := by
  cases hscan : g.normalForm.scan w with
  | error f =>
    rw [Parser.parse, chart_eq_error hscan] at h
    simp at h
  | ok s =>
    rw [parse_eq hscan] at h
    split at h
    · exact ⟨s, rfl, ‹_›, (Except.ok.inj h).symm⟩
    · simp at h

/-- One tree is given if first mode gives it alone. -/
theorem parse_of_syntaxTree (h : g.parser.syntaxTree w = .ok t) :
    g.parser.parse w .first = .ok [t] := by
  rw [Parser.syntaxTree] at h
  split at h
  · simp at h
  · rename_i ht
    rw [ht, Except.ok.inj h]
  · simp at h

theorem allSyntaxTrees_of_derives (hg : g.Coherent) (hw : g.Answers w)
    (ht : DerivesAcyclic g w [] (.nonterm g.start) 0 (Text.size w.toList) t) :
    ∃ ts, g.parser.allSyntaxTrees w = .ok ts ∧ ts.Nodup ∧ t ∈ ts := by
  obtain ⟨s, hscan, hs⟩ := hw.exists_scan
  have haccepts := (accepts_iff hg hs .exhaustive).2 ⟨t, ht.derives⟩
  refine ⟨g.trees s .exhaustive, ?_, nodup_trees hg hs, (mem_trees hg hs).2 ht⟩
  rw [Parser.allSyntaxTrees, parse_eq hscan, if_pos haccepts]

/-- Every acyclic derivation of a word is among its trees, once. -/
theorem count_allSyntaxTrees (hg : g.Coherent) (hw : g.Answers w)
    (ht : DerivesAcyclic g w [] (.nonterm g.start) 0 (Text.size w.toList) t) :
    ∃ ts, g.parser.allSyntaxTrees w = .ok ts ∧ ts.Nodup ∧ ts.count t = 1 := by
  obtain ⟨ts, hts, hnodup, hmem⟩ := allSyntaxTrees_of_derives hg hw ht
  exact ⟨ts, hts, hnodup, List.count_eq_one_of_mem hnodup hmem⟩

end Trees

/-- Two digits, each in a node of its own. -/
def twoDigits : ParseTree :=
  .node "N" [.node "N" [.leaf ⟨0, 1⟩], .node "N" [.leaf ⟨1, 2⟩]]

theorem derives_twoDigits : DerivesAcyclic numerals "42" [] (.nonterm numerals.start) 0
    (Text.size "42".toList) twoDigits := by
  have hfour : (Terminal.blackBox (.predicate "digit" Char.isDigit)).Takes "42" 0 1 := by
    rw [Terminal.takes_iff_of_lt (by decide)]
    decide +kernel
  have htwo : (Terminal.blackBox (.predicate "digit" Char.isDigit)).Takes "42" 1 2 := by
    rw [Terminal.takes_iff_of_lt (by decide)]
    decide +kernel
  rw [show Text.size "42".toList = 2 by decide +kernel]
  refine .node (p := ⟨"N", [.nonterm "N", .nonterm "N"]⟩) (.head _) (by simp) ?_
  refine .cons (b := 1) ?_ (.cons ?_ .nil)
  · exact .node (p := ⟨"N", [.blackBox (.predicate "digit" Char.isDigit)]⟩) (.tail _ (.head _))
      (by simp) (.cons (.term hfour) .nil)
  · exact .node (p := ⟨"N", [.blackBox (.predicate "digit" Char.isDigit)]⟩) (.tail _ (.head _))
      (by simp) (.cons (.term htwo) .nil)

theorem count_allSyntaxTrees_twoDigits : numerals.Coherent ∧ numerals.Answers "42" ∧
    DerivesAcyclic numerals "42" [] (.nonterm numerals.start) 0 (Text.size "42".toList) twoDigits ∧
    ∃ ts, numerals.parser.allSyntaxTrees "42" = .ok ts ∧ ts.Nodup ∧ ts.count twoDigits = 1 :=
  ⟨coherent_numerals, answers_numerals "42", derives_twoDigits,
    count_allSyntaxTrees coherent_numerals (answers_numerals "42") derives_twoDigits⟩

/-- Every tree that is given for a word is an acyclic derivation of it from the start symbol. Its
leaves lie side by side over the whole word, so that it yields the word. -/
theorem derivesAcyclic_of_parsed [Pattern.Engine] (hg : g.Coherent)
    (h : g.parser.syntaxTree w = .ok t ∨ ∃ ts, g.parser.allSyntaxTrees w = .ok ts ∧ t ∈ ts) :
    DerivesAcyclic g w [] (.nonterm g.start) 0 (Text.size w.toList) t ∧
      t.key? = some g.start ∧ Tiles w 0 (Text.size w.toList) t.leaves ∧ t.yielded w = .ok w := by
  have ht : DerivesAcyclic g w [] (.nonterm g.start) 0 (Text.size w.toList) t := by
    rcases h with h | ⟨ts, h, hmem⟩
    · obtain ⟨s, hscan, haccepts, htrees⟩ := scan_of_parse (parse_of_syntaxTree h)
      have hs := NormalForm.scans_of_scan hscan
      obtain ⟨u, rest, hfirst, hall⟩ := leads_trees hs haccepts
      obtain rfl : t = u := by simpa using htrees.trans hfirst
      rw [← mem_trees hg hs, hall]
      exact .head _
    · obtain ⟨s, hscan, -, rfl⟩ := scan_of_parse h
      exact (mem_trees hg (NormalForm.scans_of_scan hscan)).1 hmem
  have htiles := ht.derives.tiles (Text.zero_mem_bounds w)
  refine ⟨ht, ?_, htiles, ParseTree.yielded_of_tiles htiles⟩
  obtain ⟨-, p, -, -, ts, rfl, -⟩ := derivesAcyclic_nonterm.1 ht
  rfl

theorem derivesAcyclic_of_parsed_twoDigits : numerals.Coherent ∧
    (∃ ts, numerals.parser.allSyntaxTrees "42" = .ok ts ∧ twoDigits ∈ ts) ∧
    DerivesAcyclic numerals "42" [] (.nonterm numerals.start) 0 (Text.size "42".toList) twoDigits ∧
      twoDigits.key? = some numerals.start ∧
      Tiles "42" 0 (Text.size "42".toList) twoDigits.leaves ∧
      twoDigits.yielded "42" = .ok "42" := by
  obtain ⟨ts, hts, -, hmem⟩ := allSyntaxTrees_of_derives coherent_numerals (answers_numerals "42")
    derives_twoDigits
  exact ⟨coherent_numerals, ⟨ts, hts, hmem⟩,
    derivesAcyclic_of_parsed coherent_numerals (.inr ⟨ts, hts, hmem⟩)⟩

end ContextFree
