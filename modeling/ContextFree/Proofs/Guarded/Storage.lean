import ContextFree.Proofs.Guarded.Trees

/-! Guarded storage. A chart grows cell by cell. Each cell has to be put at the place of its span,
and each cell that is read meanwhile has to be there already, not only to have a place. Whatever is
read from a finished chart has a place, and there is one cell for each. So the empty cell that
stands for missing ones is never used, also where a matcher faults and no chart comes of it. -/
namespace ContextFree
namespace Guarded

/-- The cell at the place of a span, which has to be there by now. -/
def stored (n : Nat) (cells : Array Cell) (i l : Nat) : Except Lapse Cell :=
  demand ((Triangle.place? n i l).bind fun k => cells[k]?) (.outside i l)

/-- Stores the cell of one more span, whose place has to be the next one. -/
def store (nf : NormalForm) (s : Scan) (mode : Mode) (cells : Array Cell) (e : Nat × Nat) :
    Except Lapse (Array Cell) := do
  let n := s.bounds.length - 1
  let terms ← termFound nf.termRules.get s e.1 e.2
  let splits ← splitFound nf.nonterms.size nf.pairRules.get (stored n cells) e.1 e.2
  when (Triangle.place? n e.1 e.2 = some cells.size) (.outside e.1 e.2)
    (.ok (cells.push (.ofFound mode (terms ++ splits))))

def storeAll (nf : NormalForm) (s : Scan) (mode : Mode) : Except Lapse Chart := do
  let n := s.bounds.length - 1
  let cells ← (Triangle.spans n).foldlM (store nf s mode) #[]
  return ⟨mode, s.bounds, (List.range n).map s.covers, cells⟩

def storedChart [Pattern.Engine] (nf : NormalForm) (w : String) (mode : Mode) :
    Except Lapse Chart := do
  storeAll nf (← scan nf w) mode

/-- All spans that are stored or read for a word have a place in the table, whatever matchers
answer. -/
structure Inbounds [Pattern.Engine] (g : Grammar) (w : String) : Prop where
  /-- A match from a boundary to a boundary takes a span of the word. -/
  matched : ∀ (t : Terminal) (i j p q : Nat), (Text.bounds w)[i]? = some p →
    (Text.bounds w)[j]? = some q → t.accept w p = .ok (some q) →
      i < j ∧ Inside w.toList.length i (j - i)
  /-- Recognition stops where a matcher faults, and nowhere else. -/
  filled : ∀ mode, storedChart g.parser.normalForm w mode =
    (g.parser.chart w mode).mapError .fault
  /-- What comes of it has one cell for each place. -/
  sized : ∀ mode c, g.parser.chart w mode = .ok c → c.length = w.toList.length ∧
    c.cells.size = c.length * (c.length + 1) / 2
  /-- Whether it spans the word or not, it can be read. -/
  read : ∀ mode c, g.parser.chart w mode = .ok c →
    accepts g.parser.normalForm c = .ok (g.parser.accepts c) ∧
    diagnose c w = .ok (c.diagnose w) ∧
    trees g.parser.analysis g.parser.normalForm c = .ok (g.parser.trees c)

section Fill
variable {nf : NormalForm} {s : Scan} {mode : Mode} {cells : Array Cell} {i l : Nat}

theorem stored_eq {n : Nat} (hl : 1 ≤ l) (h : i + l ≤ n) (hlt : Triangle.index n i l < cells.size) :
    stored n cells i l = .ok (cells[Triangle.index n i l]?.getD []) := by
  rw [stored, Triangle.place?_eq, if_pos ⟨hl, h⟩, Option.bind_some, Array.getElem?_eq_getElem hlt]
  rfl

/-- Shorter spans are stored first, so both sides of a split are there. -/
theorem store_eq (hrows : ∀ i < s.bounds.length - 1, ∃ row, s.rows[i]? = some row) (hl : 1 ≤ l)
    (h : i + l ≤ s.bounds.length - 1)
    (hplace : Triangle.index (s.bounds.length - 1) i l = cells.size)
    (hcells : ∀ c ∈ cells, Bounded nf.nonterms.size c) :
    store nf s mode cells (i, l) = .ok (cells.push (.ofFound mode (nf.found s
      (fun j m => cells[Triangle.index (s.bounds.length - 1) j m]?.getD []) i l))) := by
  have hsplits : splitFound nf.nonterms.size nf.pairRules.get
      (stored (s.bounds.length - 1) cells) i l = .ok _ :=
    splitFound_eq (fun j k hk hkl _ hjk => stored_eq hk (hjk.trans h)
      (hplace ▸ Triangle.index_lt_index hk hkl (hjk.trans h) h)) fun j k => Bounded.getD hcells _
  simp only [store, termFound_eq hrows hl h, hsplits, bind, Except.bind]
  refine when_pos ?_
  rw [Triangle.place?_eq, if_pos ⟨hl, h⟩, hplace]

theorem storeAll_eq (hrows : ∀ i < s.bounds.length - 1, ∃ row, s.rows[i]? = some row)
    (hlhs : ∀ r ∈ nf.rules, r.lhs < nf.nonterms.size) (mode : Mode) :
    storeAll nf s mode = .ok (nf.fill s mode) := by
  have hcells : (Triangle.spans (s.bounds.length - 1)).foldlM (store nf s mode) #[] =
      .ok (nf.fill s mode).cells := by
    refine foldlM_push_eq (P := Bounded nf.nonterms.size)
      (fun k e cells he hsize hcells => ⟨?_, bounded_ofFound hlhs mode _ e.1 e.2⟩) (by simp)
    obtain ⟨hl, h⟩ := Triangle.mem_spans.1 (List.mem_of_getElem? he)
    have hplace : Triangle.index (s.bounds.length - 1) e.1 e.2 = cells.size := by
      rw [Triangle.index_of_getElem? he, hsize]
      simp
    exact store_eq hrows hl h hplace hcells
  simp only [storeAll, hcells]
  rfl

theorem size_fill (nf : NormalForm) (s : Scan) (mode : Mode) : (nf.fill s mode).cells.size =
    (s.bounds.length - 1) * (s.bounds.length - 1 + 1) / 2 := by
  rw [← Triangle.length_spans]
  exact size_foldl_push _ _

end Fill

/-- Recognition comes to its end, or to the first fault of a matcher. -/
theorem storedChart_eq [Pattern.Engine] (g : Grammar) (w : String) (mode : Mode) :
    storedChart g.parser.normalForm w mode = (g.parser.chart w mode).mapError .fault := by
  have hguarded : scan g.parser.normalForm w = (g.normalForm.scan w).mapError .fault :=
    scan_eq g.normalForm w
  rw [storedChart, hguarded]
  cases hscan : g.normalForm.scan w with
  | error f =>
    rw [ContextFree.chart_eq_error hscan]
    rfl
  | ok s =>
    rw [ContextFree.chart_eq hscan]
    exact storeAll_eq (exists_rows hscan) (fun _ => lhs_lt) mode

theorem inbounds [Pattern.Engine] (g : Grammar) (w : String) : Inbounds g w where
  matched t i j p q hp hq h := by
    have hinside := inside_of_accept hp hq h
    rwa [Text.bounds_length, Nat.add_sub_cancel] at hinside
  filled := storedChart_eq g w
  sized mode c hc := by
    obtain ⟨s, hscan, rfl⟩ := scan_of_chart hc
    exact ⟨length_filled (NormalForm.scans_of_scan hscan) mode, size_fill g.normalForm s mode⟩
  read mode c hc := by
    obtain ⟨s, -, rfl⟩ := scan_of_chart hc
    exact ⟨accepts_eq g.normalForm _, diagnose_eq s mode w, trees_eq s mode⟩

/-- Every span has a place of its own, in order, and recognition, diagnosis and the building of
trees use places of spans only. -/
theorem exact_and_inbounds [Pattern.Engine] : (∀ n, Triangle.Exact n) ∧ ∀ g w, Inbounds g w :=
  ⟨Triangle.exact_storage, inbounds⟩

/-- Two characters have three spans. -/
theorem exact_and_inbounds_numerals : ∃ c, numerals.parser.chart "42" .exhaustive = .ok c ∧
    c.cells.size = 3 ∧ accepts numerals.parser.normalForm c = .ok (numerals.parser.accepts c) := by
  obtain ⟨s, hscan, -⟩ := (answers_numerals "42").exists_scan
  have hchart := ContextFree.chart_eq hscan .exhaustive
  have hinbounds := exact_and_inbounds.2 numerals "42"
  obtain ⟨hlen, hsize⟩ := hinbounds.sized _ _ hchart
  refine ⟨_, hchart, ?_, (hinbounds.read _ _ hchart).1⟩
  rw [hsize, hlen]
  decide +kernel

end Guarded
end ContextFree
