import ContextFree.Proofs.Agreement
import ContextFree.Proofs.Exactness
import ContextFree.Proofs.Usefulness

/-! Diagnosis. A word that is refused is refused for the first character that no match of a
terminal of use takes. If there is none, it is refused for what follows the longest part at its
beginning that a non-terminal of the normal form derives, and there is such a part. -/
namespace ContextFree

/-- A match of a terminal takes a character. It starts at a boundary and ends at one. -/
def Terminal.Covers [Pattern.Engine] (t : Terminal) (w : String) (c : Nat) : Prop :=
  ∃ i j p q, (Text.bounds w)[i]? = some p ∧ (Text.bounds w)[j]? = some q ∧
    t.accept w p = .ok (some q) ∧ i ≤ c ∧ c < j

namespace NormalForm
variable [Pattern.Engine]

/-- A match of a terminal that a rule mentions takes a character. -/
def Covers (nf : NormalForm) (w : String) (c : Nat) : Prop :=
  ∃ e ∈ nf.usefulTerms, e.1.Covers w c

variable {nf : NormalForm} {w : String} {s : Scan} {a c i l : Nat}

/-- The matches of a scan are those of the terminals of use. -/
theorem mem_row (h : nf.scan w = .ok s) {row : List Match} (hrow : s.rows[i]? = some row)
    {m : Match} : m ∈ row ↔ ∃ t q j p, (t, m.term) ∈ nf.usefulTerms ∧
      (Text.bounds w).dropLast[i]? = some p ∧ t.accept w p = .ok (some q) ∧
      (Text.bounds w)[j]? = some q ∧ m.length = j - i := by
  obtain ⟨p, hp, hscan⟩ := (getElem?_rows h).1 hrow
  obtain ⟨ms, hms, hmem⟩ := exists_scanAt (i := i) (exists_accept_of_scanAt hscan)
  obtain rfl := Except.ok.inj (hscan.symm.trans hms)
  simp [hmem, hp]

/-- What a scan marks as taken is what matches take. -/
theorem covers_iff (h : nf.scan w = .ok s) : s.covers c = true ↔ nf.Covers w c := by
  simp only [Scan.covers, List.any_eq_true, Prod.exists, List.mem_zipIdx_iff_getElem?,
    Bool.and_eq_true, decide_eq_true_eq]
  constructor
  · rintro ⟨row, i, hrow, m, hm, hic, hcm⟩
    obtain ⟨t, q, j, p, ht, hp, haccept, hj, hlen⟩ := (mem_row h hrow).1 hm
    rw [List.getElem?_dropLast] at hp
    obtain ⟨-, hp⟩ := Option.ite_none_right_eq_some.1 hp
    have hij := (Text.bounds_lt_iff hp hj).1 (Terminal.lt_of_accept haccept)
    exact ⟨_, ht, i, j, p, q, hp, hj, haccept, hic, by omega⟩
  · rintro ⟨⟨t, number⟩, ht, i, j, p, q, hp, hj, haccept, hic, hcj⟩
    have hlen := (List.getElem?_eq_some_iff.1 hj).1
    have hp' : (Text.bounds w).dropLast[i]? = some p := by
      rw [List.getElem?_dropLast, if_pos (by omega), hp]
    obtain ⟨row, hrow⟩ := exists_row h hp'
    refine ⟨row, i, hrow, ⟨number, j - i⟩, ?_, hic, by simp only; omega⟩
    exact (mem_row h hrow).2 ⟨t, q, j, p, ht, hp', haccept, hj, rfl⟩

/-- Every character of what a non-terminal derives is taken by a match. -/
theorem covers_of_derives (h : nf.Derives w a i l) : i ≤ c → c < i + l → nf.Covers w c := by
  induction h with
  | @term r number i l hr hb hm =>
    intro hic hcl
    obtain ⟨t, p, q, hget, hp, hq, haccept⟩ := hm
    rw [← Array.getElem?_toList] at hget
    exact ⟨_, mem_usefulTerms.2 ⟨hget, r, hr, hb⟩, i, i + l, p, q, hp, hq, haccept, hic, hcl⟩
  | @pair r b d i k m _ _ _ _ ihfirst ihsecond =>
    intro hic hcl
    by_cases hck : c < i + k
    · exact ihfirst hic hck
    · exact ihsecond (by omega) (by omega)

/-- The match that takes the first character starts there. -/
theorem exists_derives_of_covers (h : nf.Covers w 0) : ∃ a l, nf.Derives w a 0 l := by
  obtain ⟨⟨t, number⟩, ht, i, j, p, q, hp, hj, haccept, hi, -⟩ := h
  obtain rfl : i = 0 := by omega
  obtain ⟨hget, r, hr, hb⟩ := mem_usefulTerms.1 ht
  rw [Array.getElem?_toList] at hget
  exact ⟨r.lhs, j, .term hr hb ⟨t, p, q, hget, hp, by rwa [Nat.zero_add], haccept⟩⟩

theorem Derives.le_length (h : nf.Derives w a i l) : i + l ≤ w.toList.length := by
  induction h with
  | term _ _ hm =>
    obtain ⟨_, _, _, -, -, hq, -⟩ := hm
    exact Text.le_length_of_bounds hq
  | pair _ _ _ _ _ ih => omega

/-- A cell is empty if no non-terminal derives its span. -/
theorem isEmpty_cell_iff (hs : nf.Scans w s) (mode : Mode) (hl : 1 ≤ l)
    (h : i + l ≤ w.toList.length) :
    ((nf.fill s mode).cell i l).isEmpty = false ↔ ∃ a, nf.Derives w a i l := by
  have hkeys : ((nf.fill s mode).cell i l).isEmpty = false ↔
      ∃ a, a ∈ ((nf.fill s mode).cell i l).keys := by
    cases (nf.fill s mode).cell i l <;> simp [Cell.keys]
  rw [hkeys]
  apply exists_congr
  intro a
  rw [← Cell.has_iff, has_fill_iff_derives hs mode hl h]

end NormalForm

namespace Chart

/-- No cell at the beginning of the word is longer than the furthest one that is not empty. -/
theorem furthest_spec (c : Chart) {l : Nat} (hl : 1 ≤ l) (hle : l ≤ c.length)
    (hcell : (c.cell 0 l).isEmpty = false) :
    1 ≤ c.furthest ∧ c.furthest ≤ c.length ∧ (c.cell 0 c.furthest).isEmpty = false ∧
      l ≤ c.furthest := by
  have hmem {m : Nat} : m ∈ (List.range' 1 c.length).reverse ↔ 1 ≤ m ∧ m ≤ c.length := by
    rw [List.mem_reverse, List.mem_range'_1]
    omega
  cases hfind : (List.range' 1 c.length).reverse.find? fun l => !(c.cell 0 l).isEmpty with
  | none =>
    have := List.find?_eq_none.1 hfind l (hmem.2 ⟨hl, hle⟩)
    simp [hcell] at this
  | some k =>
    have hk : c.furthest = k := by rw [furthest, hfind, Option.getD_some]
    obtain ⟨hcellk, longer, shorter, hsplit, hlonger⟩ := List.find?_eq_some_iff_append.1 hfind
    have hsorted : (List.range' 1 c.length).reverse.Pairwise (· > ·) :=
      List.pairwise_reverse.2 (List.pairwise_lt_range' 1)
    have hk1 := hmem.1 (List.mem_of_find?_eq_some hfind)
    rw [hk]
    refine ⟨hk1.1, hk1.2, by simpa using hcellk, ?_⟩
    have hl := hmem.2 ⟨hl, hle⟩
    rw [hsplit] at hl hsorted
    rcases List.mem_append.1 hl with hl | hl
    · have := hlonger l hl
      simp [hcell] at this
    · rcases List.mem_cons.1 hl with rfl | hl
      · exact Nat.le_refl l
      · have := (List.pairwise_cons.1 (List.pairwise_append.1 hsorted).2.1).1 l hl
        omega

end Chart

namespace Grammar
variable [Pattern.Engine]

/-- A match of a terminal of use takes a character. -/
def Covers (g : Grammar) (w : String) (c : Nat) : Prop :=
  ∃ t ∈ g.terminals, g.Useful t ∧ t.Covers w c

theorem covers_iff {g : Grammar} (hg : g.Coherent) {w : String} {c : Nat} :
    g.normalForm.Covers w c ↔ g.Covers w c := by
  constructor
  · rintro ⟨⟨t, number⟩, ht, hc⟩
    obtain ⟨hmem, huseful⟩ := (useful_iff hg).1 ⟨number, ht⟩
    exact ⟨t, hmem, huseful, hc⟩
  · rintro ⟨t, hmem, huseful, hc⟩
    obtain ⟨number, ht⟩ := (useful_iff hg).2 ⟨hmem, huseful⟩
    exact ⟨_, ht, hc⟩

end Grammar

/-- Why a word is refused. -/
inductive Diagnosis [Pattern.Engine] (g : Grammar) (w : String) : SyntaxError → Prop
  | empty (h : w.toList = []) : Diagnosis g w ⟨w, ⟨0, 0⟩, .emptyNotAllowed⟩
  /-- The character is the first one that no match takes. -/
  | uncovered {c p q : Nat} (hp : (Text.bounds w)[c]? = some p)
    (hq : (Text.bounds w)[c + 1]? = some q) (hc : ¬ g.Covers w c) (hfirst : ∀ d < c, g.Covers w d) :
    Diagnosis g w ⟨w, ⟨p, q⟩, .unknownToken⟩
  /-- The part at the beginning is the longest one that a non-terminal derives. -/
  | unmatched {l p : Nat} (hall : ∀ c < w.toList.length, g.Covers w c) (hpos : 1 ≤ l)
    (hp : (Text.bounds w)[l]? = some p) (hderives : ∃ a, g.normalForm.Derives w a 0 l)
    (hlongest : ∀ a m, g.normalForm.Derives w a 0 m → m ≤ l) :
    Diagnosis g w ⟨w, ⟨p, Text.size w.toList⟩, .unmatchedPattern⟩

section Diagnose
variable [Pattern.Engine] {g : Grammar} {w : String} {s : Scan} (hg : g.Coherent)
  (hscan : g.normalForm.scan w = .ok s) (mode : Mode)
include hscan

theorem covered_filled :
    (g.filled s mode).covered = (List.range w.toList.length).map s.covers := by
  rw [← length_filled (NormalForm.scans_of_scan hscan) mode]
  rfl

/-- The first character that is not marked as taken. -/
theorem idxOf?_covered_eq_some {c : Nat} : (g.filled s mode).covered.idxOf? false = some c ↔
    c < w.toList.length ∧ s.covers c = false ∧ ∀ d < c, s.covers d = true := by
  rw [covered_filled hscan mode, List.idxOf?, List.findIdx?_eq_some_iff_getElem]
  simp [and_left_comm]

theorem idxOf?_covered_eq_none : (g.filled s mode).covered.idxOf? false = none ↔
    ∀ c < w.toList.length, s.covers c = true := by
  rw [covered_filled hscan mode, List.idxOf?_eq_none_iff]
  simp

include hg

/-- A chart tells why its word is refused. -/
theorem diagnosis_diagnose : Diagnosis g w ((g.filled s mode).diagnose w) := by
  have hs := NormalForm.scans_of_scan hscan
  have hlen := length_filled hs mode
  have hcovers {c : Nat} : s.covers c = true ↔ g.Covers w c :=
    (NormalForm.covers_iff hscan).trans (Grammar.covers_iff hg)
  have hbounds : (g.filled s mode).bounds = Text.bounds w := hs.bounds_eq
  have hnum := Text.bounds_length w
  rw [Chart.diagnose, hlen]
  split
  · rename_i h0
    exact .empty (List.length_eq_zero_iff.1 h0)
  rename_i h0
  split
  · rename_i c hc
    obtain ⟨hlt, hc, hfirst⟩ := (idxOf?_covered_eq_some hscan mode).1 hc
    obtain ⟨p, hp⟩ : ∃ p, (Text.bounds w)[c]? = some p := ⟨_, List.getElem?_eq_getElem (by omega)⟩
    obtain ⟨q, hq⟩ : ∃ q, (Text.bounds w)[c + 1]? = some q :=
      ⟨_, List.getElem?_eq_getElem (by omega)⟩
    rw [span_fill hs mode hp hq]
    refine .uncovered hp hq ?_ fun d hd => hcovers.1 (hfirst d hd)
    rw [← hcovers, hc]
    simp
  · rename_i hnone
    have hall : ∀ c < w.toList.length, g.Covers w c := fun c hc =>
      hcovers.1 ((idxOf?_covered_eq_none hscan mode).1 hnone c hc)
    -- The match that takes the first character makes a cell at the beginning.
    obtain ⟨a, l, hderives⟩ := NormalForm.exists_derives_of_covers
      ((Grammar.covers_iff hg).2 (hall 0 (Nat.pos_of_ne_zero h0)))
    have furthest {a l : Nat} (h : g.normalForm.Derives w a 0 l) :=
      Chart.furthest_spec (g.filled s mode) h.pos (by have := h.le_length; omega)
        ((NormalForm.isEmpty_cell_iff hs mode h.pos h.le_length).2 ⟨a, h⟩)
    obtain ⟨hk, hkle, hcell, -⟩ := furthest hderives
    obtain ⟨p, hp⟩ : ∃ p, (Text.bounds w)[(g.filled s mode).furthest]? = some p :=
      ⟨_, List.getElem?_eq_getElem (by omega)⟩
    rw [hbounds, hp, Option.getD_some]
    refine .unmatched hall hk hp ?_ fun a m h => (furthest h).2.2.2
    exact (NormalForm.isEmpty_cell_iff hs mode hk (by omega)).1 hcell

/-- What is accepted is derived, so all its characters are taken. -/
theorem covers_of_accepts (h : (g.filled s mode).accepts g.normalForm = true) :
    ∀ c < w.toList.length, g.Covers w c := by
  intro c hc
  have hs := NormalForm.scans_of_scan hscan
  rw [Chart.accepts, length_filled hs, if_neg (by omega)] at h
  have hderives : g.normalForm.Derives w NormalForm.start 0 w.toList.length :=
    (NormalForm.has_fill_iff_derives hs mode (by omega) (by omega)).1 h
  exact (Grammar.covers_iff hg).1 (NormalForm.covers_of_derives hderives (by omega) (by omega))

end Diagnose

/-- The part of a word that a diagnosis points at can be read. -/
theorem Diagnosis.exists_slice [Pattern.Engine] {g : Grammar} {w : String} {e : SyntaxError}
    (h : Diagnosis g w e) : ∃ text, e.range.slice w = .ok text := by
  rw [← Span.isSlice_iff]
  cases h with
  | empty h => exact ⟨Text.zero_mem_bounds w, Text.zero_mem_bounds w, le_refl 0⟩
  | uncovered hp hq _ _ =>
    exact ⟨List.mem_of_getElem? hp, List.mem_of_getElem? hq,
      (Text.lt_of_bounds_lt hp hq (by omega)).le⟩
  | unmatched _ _ hp _ _ =>
    have hp := List.mem_of_getElem? hp
    exact ⟨hp, List.mem_of_getElem? (Text.bounds_last w), Text.le_size hp⟩

variable {g : Grammar} {w : String}

/-- A word is refused with its diagnosis, which points at a part of it, and a word with a character
that no match takes is not accepted. -/
theorem diagnosis_of_refused [Pattern.Engine] (hg : g.Coherent) :
    (g.parser.contains w = .ok false →
      ∃ e, Refused g w e ∧ Diagnosis g w e ∧ ∃ text, e.range.slice w = .ok text) ∧
    ((∃ c < w.toList.length, ¬ g.Covers w c) → g.parser.contains w ≠ .ok true) := by
  cases hscan : g.normalForm.scan w with
  | error f => simp [(faulted_of_scan hscan).contains]
  | ok s =>
    rw [contains_eq hscan]
    constructor
    · intro h
      have hdiagnosis := diagnosis_diagnose hg hscan .first
      refine ⟨_, refused_diagnose hscan ?_, hdiagnosis, hdiagnosis.exists_slice⟩
      simpa using h
    · rintro ⟨c, hlt, hc⟩ h
      exact hc (covers_of_accepts hg hscan .first (by simpa using h) c hlt)

/-- An "a" and a "b". -/
def letters : Grammar where
  start := "S"
  productions := [⟨"S", [.literal "a", .literal "b"]⟩]
  start_defined := ⟨_, .head _, rfl⟩
  closed := by simp [Production.references, Symbol.nonterm?, Symbol.literal]

theorem blackBox_notMem_letters (b : BlackBox) : .blackBox b ∉ letters.terminals := by
  have hterminals : letters.terminals = [.literal "a", .literal "b"] := rfl
  simp [hterminals]

theorem coherent_letters : letters.Coherent :=
  fun b _ hb => absurd hb (blackBox_notMem_letters b)

theorem answers_letters (w : String) : letters.Answers w :=
  fun b hb => absurd hb (blackBox_notMem_letters b)

theorem contains_letters : letters.parser.contains "abb" = .ok false := by decide +kernel

theorem diagnosis_of_refused_letters : letters.Coherent ∧
    (∃ e, Refused letters "abb" e ∧ Diagnosis letters "abb" e ∧
      ∃ text, e.range.slice "abb" = .ok text) ∧
    ((∃ c < "abb".toList.length, ¬ letters.Covers "abb" c) →
      letters.parser.contains "abb" ≠ .ok true) :=
  ⟨coherent_letters, (diagnosis_of_refused coherent_letters).1 contains_letters,
    (diagnosis_of_refused coherent_letters).2⟩

/-- Only the isolated start derives both letters. -/
theorem chart_letters : (letters.parser.chart "abb" .first).toOption.map (fun c =>
    (c.accepts letters.normalForm, c.diagnose "abb", (c.cell 0 2).keys)) =
      some (false, ⟨"abb", ⟨2, 3⟩, .unmatchedPattern⟩, [NormalForm.start]) := by
  decide +kernel

/-- The longest part need not be derived by any non-terminal but the isolated start. -/
theorem not_longest_without_start : ¬ ∀ (g : Grammar) (w : String) (e : SyntaxError), g.Coherent →
    Refused g w e → e.reason = .unmatchedPattern → ∃ l p, (Text.bounds w)[l]? = some p ∧
      e.range = ⟨p, Text.size w.toList⟩ ∧
      (∃ a n, g.normalForm.nonterms[a]? = some n ∧ n ≠ .start ∧ g.normalForm.Derives w a 0 l) ∧
      ∀ a n m, g.normalForm.nonterms[a]? = some n → n ≠ .start → g.normalForm.Derives w a 0 m →
        m ≤ l := by
  intro h
  obtain ⟨s, hscan, hs⟩ := (answers_letters "abb").exists_scan
  have hchart := chart_letters
  simp only [chart_eq hscan .first, Except.toOption, Option.map_some, Option.some.injEq,
    Prod.mk.injEq] at hchart
  obtain ⟨haccepts, hdiagnose, hkeys⟩ := hchart
  have hrefused := refused_diagnose hscan (by rw [haccepts]; simp)
  rw [hdiagnose] at hrefused
  obtain ⟨l, p, hp, hrange, ⟨a, n, hn, hne, hderives⟩, -⟩ := h _ _ _ coherent_letters hrefused rfl
  obtain rfl : 2 = p := (Span.mk.inj hrange).1
  obtain rfl : 2 = l := (Text.bounds_eq_iff (by decide +kernel) hp).1 rfl
  have hcell := (NormalForm.has_fill_iff_derives hs .first (by decide) (by decide +kernel)).2 hderives
  have ha : a ∈ ((letters.filled s .first).cell 0 2).keys := Cell.has_iff.1 hcell
  obtain rfl : a = NormalForm.start := by simpa [hkeys] using ha
  have hstart : letters.normalForm.nonterms[NormalForm.start]? = some .start := by decide +kernel
  exact hne (Option.some.inj (hn.symm.trans hstart))

end ContextFree
