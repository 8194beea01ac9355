import ContextFree.Proofs.Contents
import ContextFree.Proofs.Guarded.NormalForm

/-! Guarded charts. Terminals are tried at boundaries only, whatever they answer: a match counts if
it ends at a later boundary. So every span that is stored or read is inside the word, and the
diagnosis finds a boundary for what it points at. -/
namespace ContextFree
namespace Guarded

/-- A span that is not empty and inside a word of so many characters has a place in the table. -/
def Inside (n i l : Nat) : Prop :=
  1 ≤ l ∧ i + l ≤ n ∧ Triangle.index n i l < n * (n + 1) / 2

instance (n i l : Nat) : Decidable (Inside n i l) := inferInstanceAs (Decidable (_ ∧ _ ∧ _))

/-- Tries a terminal, at boundaries only. -/
def accept [Pattern.Engine] (w : String) (bounds : List Nat) (p : Nat) (t : Terminal) :
    Except Lapse (Option Nat) :=
  when (p ∈ bounds) (.offBoundary p) ((t.accept w p).mapError .fault)

/-- The matches at one character, whose spans have to be inside the word. -/
def scanAt [Pattern.Engine] (w : String) (bounds : List Nat) (i p : Nat) :
    List (Terminal × Nat) → Except Lapse (List Match)
  | [] => .ok []
  | (t, number) :: ts => do
    let stop ← accept w bounds p t
    let rest ← scanAt w bounds i p ts
    match stop.bind bounds.idxOf? with
    | some j =>
      when (i ≤ j ∧ Inside (bounds.length - 1) i (j - i)) (.outside i (j - i))
        (.ok (⟨number, j - i⟩ :: rest))
    | none => .ok rest

def scan [Pattern.Engine] (nf : NormalForm) (w : String) : Except Lapse Scan := do
  let bounds := Text.bounds w
  let rows ← bounds.dropLast.zipIdx.mapM fun e => scanAt w bounds e.2 e.1 nf.usefulTerms
  return ⟨bounds, rows⟩

/-- The cell of a span that is inside the word. -/
def cellAt (n : Nat) (cells : Array Cell) (i l : Nat) : Except Lapse Cell :=
  when (Inside n i l) (.outside i l) (.ok (cells[Triangle.index n i l]?.getD []))

def cell (c : Chart) : Nat → Nat → Except Lapse Cell := cellAt c.length c.cells

def span (c : Chart) (i l : Nat) : Except Lapse Span :=
  return ⟨← demand c.bounds[i]? (.outside i l), ← demand c.bounds[i + l]? (.outside i l)⟩

def termFound (rules : Nat → List (NumberedRule × Nat)) (s : Scan) (i l : Nat) :
    Except Lapse (List (Nat × Back)) := do
  let row ← demand s.rows[i]? (.outside i l)
  return (row.filter (·.length = l)).flatMap fun m =>
    (rules m.term).map fun (r, number) => (r.lhs, .term number)

/-- The pair rules of a non-terminal, which has to be one of so many. -/
def splitFound (count : Nat) (pairs : Nat → List PairRule) (cell : Nat → Nat → Except Lapse Cell)
    (i l : Nat) : Except Lapse (List (Nat × Back)) :=
  gather (fun k => do
    let right ← cell (i + k) (l - k)
    let left ← cell i k
    gather (fun e => when (e.1 < count) (.noEntry e.1) <| .ok <| (pairs e.1).filterMap fun p =>
      if right.has p.second then some (p.lhs, .split p.rule k) else none) left)
    (List.range' 1 (l - 1))

/-- The cell of one more span, which has to be inside the word, given the cells so far. -/
def nextCell (nf : NormalForm) (s : Scan) (mode : Mode) (cells : Array Cell) (e : Nat × Nat) :
    Except Lapse Cell := do
  let n := s.bounds.length - 1
  let terms ← termFound nf.termRules.get s e.1 e.2
  let splits ← splitFound nf.nonterms.size nf.pairRules.get (cellAt n cells) e.1 e.2
  when (Inside n e.1 e.2) (.outside e.1 e.2) (.ok (.ofFound mode (terms ++ splits)))

def fill (nf : NormalForm) (s : Scan) (mode : Mode) : Except Lapse Chart := do
  let n := s.bounds.length - 1
  let cells ← (Triangle.spans n).foldlM
    (fun cells e => do return cells.push (← nextCell nf s mode cells e)) #[]
  return ⟨mode, s.bounds, (List.range n).map s.covers, cells⟩

def chart [Pattern.Engine] (nf : NormalForm) (w : String) (mode : Mode) : Except Lapse Chart := do
  fill nf (← scan nf w) mode

def accepts (nf : NormalForm) (c : Chart) : Except Lapse Bool :=
  if c.length = 0 then .ok nf.acceptsEmpty
  else return (← cell c 0 c.length).has NormalForm.start

def furthest (c : Chart) : Except Lapse Nat := do
  let found ← (List.range' 1 c.length).reverse.findM? fun l => return !(← cell c 0 l).isEmpty
  return found.getD 0

def diagnose (c : Chart) (input : String) : Except Lapse SyntaxError :=
  if c.length = 0 then .ok ⟨input, ⟨0, 0⟩, .emptyNotAllowed⟩
  else match c.covered.idxOf? false with
    | some i => return ⟨input, ← span c i 1, .unknownToken⟩
    | none => do
      let l ← furthest c
      let p ← demand c.bounds[l]? (.outside 0 l)
      return ⟨input, ⟨p, Text.size input.toList⟩, .unmatchedPattern⟩

/-- A table has places for all spans inside the word. -/
theorem inside_of_le {n i l : Nat} (hl : 1 ≤ l) (h : i + l ≤ n) : Inside n i l :=
  ⟨hl, h, Triangle.index_lt hl h⟩

section Scan
variable [Pattern.Engine] {w : String}

theorem accept_eq {p : Nat} (hp : p ∈ Text.bounds w) (t : Terminal) :
    accept w (Text.bounds w) p t = (t.accept w p).mapError .fault := when_pos hp

/-- A match between boundaries ends after it starts, so its span is inside the word. -/
theorem inside_of_accept {t : Terminal} {i j p q : Nat} (hp : (Text.bounds w)[i]? = some p)
    (hq : (Text.bounds w)[j]? = some q) (h : t.accept w p = .ok (some q)) :
    i < j ∧ Inside ((Text.bounds w).length - 1) i (j - i) := by
  have hij := (Text.bounds_lt_iff hp hq).1 (Terminal.lt_of_accept h)
  have hlen := (List.getElem?_eq_some_iff.1 hq).1
  exact ⟨hij, inside_of_le (by omega) (by omega)⟩

/-- The guards of a scan stop it where a terminal faults, and nowhere else. -/
theorem scanAt_eq {i p : Nat} (hp : (Text.bounds w)[i]? = some p) (ts : List (Terminal × Nat)) :
    scanAt w (Text.bounds w) i p ts =
      (ContextFree.scanAt w (Text.bounds w) i p ts).mapError .fault := by
  induction ts with
  | nil => rfl
  | cons e ts ih =>
    obtain ⟨t, number⟩ := e
    rw [scanAt, ContextFree.scanAt, accept_eq (List.mem_of_getElem? hp), ih]
    cases hr : t.accept w p with
    | error f => rfl
    | ok r =>
      cases ContextFree.scanAt w (Text.bounds w) i p ts with
      | error f => rfl
      | ok rest =>
        simp only [Except.mapError, bind, Except.bind]
        cases hj : r.bind (Text.bounds w).idxOf? with
        | none => rfl
        | some j =>
          obtain ⟨q, rfl, hq⟩ := Option.bind_eq_some_iff.1 hj
          rw [idxOf?_bounds] at hq
          obtain ⟨hij, hinside⟩ := inside_of_accept hp hq hr
          exact when_pos ⟨hij.le, hinside⟩

theorem scan_eq (nf : NormalForm) (w : String) : scan nf w = (nf.scan w).mapError .fault := by
  have hrows : (Text.bounds w).dropLast.zipIdx.mapM
      (fun e => scanAt w (Text.bounds w) e.2 e.1 nf.usefulTerms) =
        ((Text.bounds w).dropLast.zipIdx.mapM fun e =>
          ContextFree.scanAt w (Text.bounds w) e.2 e.1 nf.usefulTerms).mapError .fault := by
    apply mapM_eq_mapError
    intro e he
    have hp := List.mem_zipIdx_iff_getElem?.1 he
    rw [List.getElem?_dropLast] at hp
    exact scanAt_eq (Option.ite_none_right_eq_some.1 hp).2 _
  rw [scan, NormalForm.scan_eq, hrows]
  cases (Text.bounds w).dropLast.zipIdx.mapM
    fun e => ContextFree.scanAt w (Text.bounds w) e.2 e.1 nf.usefulTerms <;> rfl

end Scan

section Cells
variable {n i l : Nat} {cells : Array Cell}

theorem cellAt_eq (hl : 1 ≤ l) (h : i + l ≤ n) :
    cellAt n cells i l = .ok (cells[Triangle.index n i l]?.getD []) :=
  when_pos (inside_of_le hl h)

theorem cell_eq {c : Chart} (hl : 1 ≤ l) (h : i + l ≤ c.length) :
    cell c i l = .ok (c.cell i l) := cellAt_eq hl h

theorem span_eq {c : Chart} (h : i + l ≤ c.length) (hpos : 0 < c.length) :
    span c i l = .ok (c.span i l) := by
  have hlen : c.length = c.bounds.length - 1 := rfl
  obtain ⟨p, hp⟩ : ∃ p, c.bounds[i]? = some p := ⟨_, List.getElem?_eq_getElem (by omega)⟩
  obtain ⟨q, hq⟩ : ∃ q, c.bounds[i + l]? = some q := ⟨_, List.getElem?_eq_getElem (by omega)⟩
  rw [span, Chart.span, hp, hq]
  rfl

end Cells

theorem findM?_eq_ok {α : Type} {p : α → Except Lapse Bool} {p' : α → Bool} {l : List α}
    (h : ∀ a ∈ l, p a = .ok (p' a)) : l.findM? p = .ok (l.find? p') := by
  induction l with
  | nil => rfl
  | cons a l ih =>
    obtain ⟨ha, hl⟩ := List.forall_mem_cons.1 h
    rw [List.findM?, List.find?_cons, ha]
    cases p' a with
    | true => rfl
    | false => exact ih hl

/-- A guarded pass that appends what it makes of each element and of what there is so far, where
there is one result for each element before. -/
theorem foldlM_push_eq {α β : Type} {f : Array β → α → β}
    {f' : Array β → α → Except Lapse (Array β)} {P : β → Prop} {l : List α} {acc : Array β}
    (h : ∀ k x acc', l[k]? = some x → acc'.size = acc.size + k → (∀ b ∈ acc', P b) →
      f' acc' x = .ok (acc'.push (f acc' x)) ∧ P (f acc' x)) (hacc : ∀ b ∈ acc, P b) :
    l.foldlM f' acc = .ok (l.foldl (fun acc x => acc.push (f acc x)) acc) := by
  induction l generalizing acc with
  | nil => rfl
  | cons x l ih =>
    obtain ⟨heq, hP⟩ := h 0 x acc rfl rfl hacc
    rw [List.foldlM_cons, List.foldl_cons, heq]
    apply ih
    · intro k y acc' hy hsize
      exact h (k + 1) y acc' hy (by rw [hsize, Array.size_push]; omega)
    · intro b hb
      rcases Array.mem_push.1 hb with hb | rfl
      · exact hacc b hb
      · exact hP

section Fill
variable {nf : NormalForm} {s : Scan}

/-- The non-terminals of a cell are among so many. -/
def Bounded (count : Nat) (c : Cell) : Prop := ∀ b ∈ c.keys, b < count

theorem Bounded.getD {count : Nat} {cells : Array Cell} (h : ∀ c ∈ cells, Bounded count c)
    (k : Nat) : Bounded count (cells[k]?.getD []) := by
  cases hk : cells[k]? with
  | none => simp [Bounded]
  | some c => exact h c (Array.mem_of_getElem? hk)

theorem termFound_eq (hrows : ∀ i < s.bounds.length - 1, ∃ row, s.rows[i]? = some row)
    {i l : Nat} (hl : 1 ≤ l) (h : i + l ≤ s.bounds.length - 1) :
    termFound nf.termRules.get s i l = .ok (NormalForm.termFound nf.termRules.get s i l) := by
  obtain ⟨row, hrow⟩ := hrows i (by omega)
  rw [termFound, NormalForm.termFound, Scan.matchesAt, hrow]
  rfl

/-- Both sides of a split are shorter, and inside the span. -/
theorem splitFound_eq {cell : Nat → Nat → Cell} {cell' : Nat → Nat → Except Lapse Cell} {i l : Nat}
    (h : ∀ j k, 1 ≤ k → k < l → i ≤ j → j + k ≤ i + l → cell' j k = .ok (cell j k))
    (hcell : ∀ j k, Bounded nf.nonterms.size (cell j k)) :
    splitFound nf.nonterms.size nf.pairRules.get cell' i l =
      .ok (NormalForm.splitFound nf.pairRules.get cell i l) := by
  apply gather_eq_ok
  intro k hk
  obtain ⟨hk, hkl⟩ := List.mem_range'_1.1 hk
  rw [h (i + k) (l - k) (by omega) (by omega) (by omega) (by omega),
    h i k hk (by omega) (by omega) (by omega)]
  apply gather_eq_ok
  intro e he
  exact when_pos (hcell i k e.1 (List.mem_map_of_mem he))

/-- What is found for a span are left-hand sides of rules. -/
theorem bounded_ofFound (hlhs : ∀ r ∈ nf.rules, r.lhs < nf.nonterms.size) (mode : Mode)
    (cell : Nat → Nat → Cell) (i l : Nat) :
    Bounded nf.nonterms.size (.ofFound mode (nf.found s cell i l)) := by
  intro b hb
  obtain ⟨way, hway⟩ := Cell.mem_keys_ofFound.1 hb
  rcases List.mem_append.1 hway with hway | hway
  · obtain ⟨_, r, _, -, hr, rfl, -⟩ := NormalForm.mem_termFound.1 hway
    exact hlhs r (List.mem_of_getElem? hr)
  · obtain ⟨_, r, _, _, _, -, -, -, hr, rfl, -⟩ := NormalForm.mem_splitFound.1 hway
    exact hlhs r (List.mem_of_getElem? hr)

theorem nextCell_eq (hrows : ∀ i < s.bounds.length - 1, ∃ row, s.rows[i]? = some row)
    {mode : Mode} {i l : Nat} (hl : 1 ≤ l) (h : i + l ≤ s.bounds.length - 1) {cells : Array Cell}
    (hcells : ∀ c ∈ cells, Bounded nf.nonterms.size c) :
    nextCell nf s mode cells (i, l) = .ok (.ofFound mode (nf.found s
      (fun j m => cells[Triangle.index (s.bounds.length - 1) j m]?.getD []) i l)) := by
  have hsplits : splitFound nf.nonterms.size nf.pairRules.get
      (cellAt (s.bounds.length - 1) cells) i l = .ok _ :=
    splitFound_eq (fun j k hk _ _ hjk => cellAt_eq hk (hjk.trans h))
      fun j k => Bounded.getD hcells _
  simp only [nextCell, termFound_eq hrows hl h, hsplits, bind, Except.bind]
  exact when_pos (inside_of_le hl h)

theorem fill_eq (hrows : ∀ i < s.bounds.length - 1, ∃ row, s.rows[i]? = some row)
    (hlhs : ∀ r ∈ nf.rules, r.lhs < nf.nonterms.size) (mode : Mode) :
    fill nf s mode = .ok (nf.fill s mode) := by
  have hcells : (Triangle.spans (s.bounds.length - 1)).foldlM
      (fun cells e => do return cells.push (← nextCell nf s mode cells e)) #[] =
        .ok (nf.fill s mode).cells := by
    refine foldlM_push_eq (P := Bounded nf.nonterms.size)
      (fun k e cells he _ hcells => ⟨?_, bounded_ofFound hlhs mode _ e.1 e.2⟩) (by simp)
    obtain ⟨hl, h⟩ := Triangle.mem_spans.1 (List.mem_of_getElem? he)
    rw [nextCell_eq hrows hl h hcells]
    rfl
  simp only [fill, hcells]
  rfl

end Fill

section Chart
variable {g : Grammar} {w : String} {s : Scan} {mode : Mode}

theorem lhs_lt {r : NumberedRule} (hr : r ∈ g.normalForm.rules) :
    r.lhs < g.normalForm.nonterms.size := by
  obtain ⟨named, hnamed, rfl⟩ := exists_rule_of_mem hr
  obtain ⟨xs, hxs⟩ := stands_lhs hnamed
  apply Register.placeOf_lt
  rw [List.map_id]
  exact hxs.mem_nonterms

/-- There is a row of matches for every character. -/
theorem exists_rows [Pattern.Engine] (hscan : g.normalForm.scan w = .ok s) :
    ∀ i < s.bounds.length - 1, ∃ row, s.rows[i]? = some row := by
  intro i hi
  rw [(NormalForm.scans_of_scan hscan).bounds_eq, ← List.length_dropLast] at hi
  exact NormalForm.exists_row hscan (List.getElem?_eq_getElem hi)

/-- What can be scanned has a guarded chart. -/
theorem chart_eq [Pattern.Engine] (hscan : g.normalForm.scan w = .ok s) (mode : Mode) :
    chart g.normalForm w mode = .ok (g.filled s mode) := by
  rw [chart, scan_eq, hscan]
  exact fill_eq (exists_rows hscan) (fun _ => lhs_lt) mode

theorem accepts_eq (nf : NormalForm) (c : Chart) : accepts nf c = .ok (c.accepts nf) := by
  rw [accepts, Chart.accepts]
  by_cases h0 : c.length = 0
  · rw [if_pos h0, if_pos h0]
  · rw [if_neg h0, if_neg h0, cell_eq (by omega) (by omega)]
    rfl

theorem furthest_le (c : Chart) : c.furthest ≤ c.length := by
  rw [Chart.furthest]
  cases hfind : (List.range' 1 c.length).reverse.find? fun l => !(c.cell 0 l).isEmpty with
  | none => exact Nat.zero_le _
  | some l =>
    have hl := List.mem_range'_1.1 (List.mem_reverse.1 (List.mem_of_find?_eq_some hfind))
    rw [Option.getD_some]
    omega

theorem furthest_eq (c : Chart) : furthest c = .ok c.furthest := by
  have hfind : (List.range' 1 c.length).reverse.findM?
      (fun l => do return !(← cell c 0 l).isEmpty) = .ok _ := findM?_eq_ok fun l hl => by
    obtain ⟨hl, hle⟩ := List.mem_range'_1.1 (List.mem_reverse.1 hl)
    rw [cell_eq hl (by omega)]
    rfl
  rw [furthest, hfind]
  rfl

/-- The diagnosis points at a character of the word, or behind a part of it that was derived. -/
theorem diagnose_eq (s : Scan) (mode : Mode) (w : String) :
    diagnose (g.filled s mode) w = .ok ((g.filled s mode).diagnose w) := by
  have hlen : (g.filled s mode).length = s.bounds.length - 1 := rfl
  have hcovered : (g.filled s mode).covered.length = s.bounds.length - 1 := by
    simp [Grammar.filled, NormalForm.fill]
  rw [diagnose, Chart.diagnose]
  by_cases h0 : (g.filled s mode).length = 0
  · rw [if_pos h0, if_pos h0]
  rw [if_neg h0, if_neg h0]
  cases hi : (g.filled s mode).covered.idxOf? false with
  | some i =>
    have hlt := (List.idxOf?_eq_some_iff.1 hi).1
    have hspan : span (g.filled s mode) i 1 = .ok _ := span_eq (by omega) (by omega)
    simp only [hspan]
    rfl
  | none =>
    have hle := furthest_le (g.filled s mode)
    have hbounds : (g.filled s mode).bounds = s.bounds := rfl
    have hp : (g.filled s mode).bounds[(g.filled s mode).furthest]? = some _ :=
      List.getElem?_eq_getElem (by rw [hbounds]; omega)
    rw [furthest_eq]
    simp only [bind, Except.bind, hp, demand_some]
    rfl

end Chart

end Guarded
end ContextFree
