import ContextFree.Proofs.Leading
import ContextFree.Proofs.Precedence

/-! Modes. The chart of first mode is the exhaustive chart with the first way of every non-terminal.
The two are filled side by side: a cell finds its ways by the non-terminals of shorter spans, in
their order, and these are the same in both. -/
namespace ContextFree

namespace Cell

/-- A cell has the non-terminals of another in the same order, each with the first of its ways
there. -/
def Projects (c c' : Cell) : Prop :=
  List.Forall₂ (fun e e' => e.1 = e'.1 ∧ Leads e.2 e'.2) c c'

theorem Projects.keys_eq {c c' : Cell} (h : c.Projects c') : c.keys = c'.keys := by
  induction h with
  | nil => rfl
  | cons he _ ih => rw [keys_cons, keys_cons, he.1, ih]

/-- What is recorded later leaves the first way first. -/
theorem Projects.record {c c' : Cell} (h : c.Projects c') (a : Nat) (b : Back) :
    (record .first a b c).Projects (record .exhaustive a b c') := by
  induction h with
  | nil => exact .cons ⟨rfl, .single b⟩ .nil
  | @cons e e' c c' he h ih =>
    obtain ⟨hkey, hleads⟩ := he
    rw [Cell.record, Cell.record, hkey]
    split
    · exact .cons ⟨rfl, hleads.append [b]⟩ h
    · exact .cons ⟨rfl, hleads⟩ ih

theorem projects_ofFound (found : List (Nat × Back)) :
    (ofFound .first found).Projects (ofFound .exhaustive found) :=
  List.foldl_rel .nil fun e _ _ _ h => h.record e.1 e.2

theorem projects_getD {cells cells' : List Cell} (h : List.Forall₂ Projects cells cells')
    (k : Nat) : (cells[k]?.getD []).Projects (cells'[k]?.getD []) := by
  induction h generalizing k with
  | nil => exact .nil
  | cons hc _ ih =>
    cases k with
    | zero => exact hc
    | succ k => exact ih k

end Cell

namespace Chart

/-- A chart of first mode has the cells of an exhaustive one, each with first ways only. -/
structure Projects (c c' : Chart) : Prop where
  mode : c.mode = .first
  mode' : c'.mode = .exhaustive
  bounds_eq : c.bounds = c'.bounds
  covered_eq : c.covered = c'.covered
  cells : List.Forall₂ Cell.Projects c.cells.toList c'.cells.toList

namespace Projects
variable {c c' : Chart} (h : c.Projects c')
include h

theorem length_eq : c.length = c'.length := by rw [Chart.length, Chart.length, h.bounds_eq]

theorem cell (i l : Nat) : (c.cell i l).Projects (c'.cell i l) := by
  have hcell := Cell.projects_getD h.cells (Triangle.index c.length i l)
  rw [Array.getElem?_toList, Array.getElem?_toList] at hcell
  rwa [Chart.cell, Chart.cell, ← h.length_eq]

theorem accepts_eq (nf : NormalForm) : c.accepts nf = c'.accepts nf := by
  have hhas : (c.cell 0 c'.length).has NormalForm.start =
      (c'.cell 0 c'.length).has NormalForm.start := by
    rw [Bool.eq_iff_iff, Cell.has_iff, Cell.has_iff, (h.cell 0 c'.length).keys_eq]
  rw [accepts, accepts, h.length_eq, hhas]

end Projects
end Chart

namespace NormalForm

/-- One cell after the other, in the order of storage. -/
theorem projects_fill (nf : NormalForm) (s : Scan) :
    (nf.fill s .first).Projects (nf.fill s .exhaustive) where
  mode := rfl
  mode' := rfl
  bounds_eq := rfl
  covered_eq := rfl
  cells := by
    refine List.foldl_rel (r := fun cells cells' : Array Cell =>
      List.Forall₂ Cell.Projects cells.toList cells'.toList) .nil ?_
    rintro ⟨i, l⟩ - cells cells' h
    have keys_eq (k : Nat) : (cells[k]?.getD []).keys = (cells'[k]?.getD []).keys := by
      have hk := (Cell.projects_getD h k).keys_eq
      rwa [Array.getElem?_toList, Array.getElem?_toList] at hk
    have hsplit : splitFound nf.pairRules.get
        (fun j m => cells[Triangle.index (s.bounds.length - 1) j m]?.getD []) i l =
        splitFound nf.pairRules.get
          (fun j m => cells'[Triangle.index (s.bounds.length - 1) j m]?.getD []) i l :=
      splitFound_congr fun j k _ _ _ _ => keys_eq _
    simp only [hsplit, Array.toList_push]
    exact List.rel_append h (.cons (Cell.projects_ofFound _) .nil)

/-- Both modes fail alike, or the chart of first mode projects the exhaustive one, cell by cell, and
accepts just if that does. -/
theorem chart_first_projects [Pattern.Engine] (nf : NormalForm) (w : String) :
    (∃ f, nf.chart w .first = .error f ∧ nf.chart w .exhaustive = .error f) ∨
      ∃ c c', nf.chart w .first = .ok c ∧ nf.chart w .exhaustive = .ok c' ∧ c.Projects c' ∧
        (∀ i l, (c.cell i l).Projects (c'.cell i l)) ∧ c.accepts nf = c'.accepts nf := by
  cases hscan : nf.scan w with
  | error f =>
    left
    have hchart (mode : Mode) : nf.chart w mode = .error f := by
      rw [chart, hscan]
      rfl
    exact ⟨f, hchart .first, hchart .exhaustive⟩
  | ok s =>
    right
    have h := nf.projects_fill s
    exact ⟨_, _, chart_of_scan .first hscan, chart_of_scan .exhaustive hscan, h, h.cell,
      h.accepts_eq nf⟩

end NormalForm
end ContextFree
