import ContextFree.Chart
import ContextFree.Proofs.Storage
import Mathlib.Data.List.Basic

/-! What the cells of a chart hold. A cell is made of the ways that are found for its span; the
mode decides how many of them are kept, and not which non-terminals there are, nor in which order.
So both modes find the same ways everywhere. -/
namespace ContextFree

namespace Cell

/-- The non-terminals of a cell. -/
def keys (c : Cell) : List Nat := c.map (·.1)

@[simp] theorem keys_nil : keys [] = [] := rfl

@[simp] theorem keys_cons (e : Nat × List Back) (c : Cell) : keys (e :: c) = e.1 :: keys c := rfl

theorem has_iff {c : Cell} {a : Nat} : c.has a = true ↔ a ∈ c.keys := by
  induction c with
  | nil => simp [has]
  | cons e c ih =>
    rw [has, Bool.or_eq_true, ih, beq_iff_eq, keys_cons, List.mem_cons, eq_comm]

theorem keys_record (mode : Mode) (a : Nat) (b : Back) (c : Cell) :
    (record mode a b c).keys = if a ∈ c.keys then c.keys else c.keys ++ [a] := by
  induction c with
  | nil => rfl
  | cons e c ih =>
    rw [record]
    by_cases h : e.1 = a
    · simp [h]
    · have h' : a ≠ e.1 := fun h' => h h'.symm
      rw [if_neg h, keys_cons, keys_cons, ih]
      by_cases hm : a ∈ keys c <;> simp [h', hm]

theorem ofFound_concat (mode : Mode) (found : List (Nat × Back)) (a : Nat) (b : Back) :
    ofFound mode (found ++ [(a, b)]) = record mode a b (ofFound mode found) := by
  simp [ofFound]

/-- The mode does not matter for the non-terminals of a cell. -/
theorem keys_ofFound (mode mode' : Mode) (found : List (Nat × Back)) :
    (ofFound mode found).keys = (ofFound mode' found).keys := by
  induction found using List.reverseRecOn with
  | nil => rfl
  | append_singleton found e ih => rw [ofFound_concat, ofFound_concat, keys_record, keys_record, ih]

theorem mem_keys_ofFound {mode : Mode} {found : List (Nat × Back)} {a : Nat} :
    a ∈ (ofFound mode found).keys ↔ ∃ b, (a, b) ∈ found := by
  induction found using List.reverseRecOn with
  | nil => simp [ofFound, keys]
  | append_singleton found e ih =>
    obtain ⟨a', b'⟩ := e
    rw [ofFound_concat, keys_record]
    by_cases h : a = a'
    · subst h
      constructor
      · intro _
        exact ⟨b', by simp⟩
      · intro _
        split
        · assumption
        · simp
    · have hm : (∃ b, (a, b) ∈ found ++ [(a', b')]) ↔ ∃ b, (a, b) ∈ found := by simp [h]
      rw [hm, ← ih]
      split <;> simp [h]

/-- A cell keeps all ways that are found for a non-terminal, or the first of them. -/
theorem backs_ofFound (mode : Mode) (found : List (Nat × Back)) (a : Nat) :
    (ofFound mode found).backs a =
      let ways := (found.filter (·.1 = a)).map (·.2)
      if mode = .exhaustive then ways else ways.take 1 := by
  induction found using List.reverseRecOn with
  | nil => simp [ofFound, backs]
  | append_singleton found e ih =>
    obtain ⟨a', b'⟩ := e
    rw [ofFound_concat]
    by_cases h : a = a'
    · subst h
      have hh : (ofFound mode found).has a = true ↔
          (found.filter (·.1 = a)).map (·.2) ≠ [] := by
        rw [has_iff, mem_keys_ofFound]
        simp
      rw [backs_record_self, ih]
      simp only [List.filter_append, List.map_append, hh]
      generalize (found.filter (·.1 = a)).map (·.2) = ways
      cases ways <;> cases mode <;> simp
    · have h' : a' ≠ a := fun h' => h h'.symm
      rw [backs_record_of_ne mode b' _ h, ih]
      simp [h']

end Cell

theorem mem_pick_iff {α κ β : Type} [DecidableEq κ] [Coded κ] {l : List α} {f : α → Option (κ × β)}
    {k : κ} {v : β} : v ∈ (Index.ofList (l.filterMap f)).get k ↔ ∃ x ∈ l, f x = some (k, v) := by
  rw [Index.get_ofList]
  simp

namespace NormalForm

variable {nf : NormalForm}

theorem mem_termRules {t number : Nat} {r : NumberedRule} :
    (r, number) ∈ nf.termRules.get t ↔ nf.rules[number]? = some r ∧ r.body = .term t := by
  rw [termRules, mem_pick_iff]
  constructor
  · rintro ⟨⟨r', number'⟩, hm, h⟩
    cases hb : r'.body with
    | term t' =>
      simp only [hb, Option.some.injEq, Prod.mk.injEq] at h
      obtain ⟨rfl, rfl, rfl⟩ := h
      exact ⟨List.mem_zipIdx_iff_getElem?.1 hm, hb⟩
    | pair b c => simp [hb] at h
  · rintro ⟨hr, hb⟩
    exact ⟨(r, number), List.mem_zipIdx_iff_getElem?.2 hr, by simp [hb]⟩

theorem mem_pairRules {b : Nat} {p : PairRule} :
    p ∈ nf.pairRules.get b ↔
      ∃ r, nf.rules[p.rule]? = some r ∧ r.lhs = p.lhs ∧ r.body = .pair b p.second := by
  rw [pairRules, mem_pick_iff]
  constructor
  · rintro ⟨⟨r, number⟩, hm, h⟩
    cases hb : r.body with
    | term t => simp [hb] at h
    | pair b' c =>
      simp only [hb, Option.some.injEq, Prod.mk.injEq] at h
      obtain ⟨rfl, rfl⟩ := h
      exact ⟨r, List.mem_zipIdx_iff_getElem?.1 hm, rfl, hb⟩
  · rintro ⟨r, hr, hl, hb⟩
    exact ⟨(r, p.rule), List.mem_zipIdx_iff_getElem?.2 hr, by simp [hb, hl]⟩

theorem mem_termFound {s : Scan} {i l a : Nat} {b : Back} :
    (a, b) ∈ termFound nf.termRules.get s i l ↔ ∃ number r t, b = .term number ∧
      nf.rules[number]? = some r ∧ r.lhs = a ∧ r.body = .term t ∧ ⟨t, l⟩ ∈ s.matchesAt i := by
  simp only [termFound, List.mem_flatMap, List.mem_filter, List.mem_map, Prod.mk.injEq,
    decide_eq_true_eq]
  constructor
  · rintro ⟨⟨t, _⟩, ⟨hm, rfl⟩, ⟨r, number⟩, hr, rfl, rfl⟩
    obtain ⟨hr, hb⟩ := mem_termRules.1 hr
    exact ⟨number, r, t, rfl, hr, rfl, hb, hm⟩
  · rintro ⟨number, r, t, rfl, hr, rfl, hb, hm⟩
    exact ⟨⟨t, l⟩, ⟨hm, rfl⟩, (r, number), mem_termRules.2 ⟨hr, hb⟩, rfl, rfl⟩

theorem mem_splitFound {cell : Nat → Nat → Cell} {i l a : Nat} {b : Back} :
    (a, b) ∈ splitFound nf.pairRules.get cell i l ↔ ∃ rule r k d e, b = .split rule k ∧
      1 ≤ k ∧ k < l ∧ nf.rules[rule]? = some r ∧ r.lhs = a ∧ r.body = .pair d e ∧
      (cell i k).has d = true ∧ (cell (i + k) (l - k)).has e = true := by
  simp only [splitFound, List.mem_flatMap, List.mem_filterMap, List.mem_range'_1]
  constructor
  · rintro ⟨k, hk, ⟨d, bs⟩, hd, ⟨rule, a', e⟩, hp, h⟩
    obtain ⟨r, hr, hl, hb⟩ := mem_pairRules.1 hp
    split at h
    · rename_i he
      simp only [Option.some.injEq, Prod.mk.injEq] at h
      exact ⟨rule, r, k, d, e, h.2.symm, hk.1, by omega, hr, hl.trans h.1, hb,
        Cell.has_iff.2 (List.mem_map_of_mem hd), he⟩
    · simp at h
  · rintro ⟨rule, r, k, d, e, rfl, hk, hkl, hr, rfl, hb, hd, he⟩
    obtain ⟨⟨d', bs⟩, hm, hd⟩ := List.mem_map.1 (Cell.has_iff.1 hd)
    obtain rfl : d' = d := hd
    exact ⟨k, by omega, (d', bs), hm, ⟨rule, r.lhs, e⟩, mem_pairRules.2 ⟨r, hr, rfl, hb⟩,
      by simp [he]⟩

/-- What is found for a span depends on the non-terminals of shorter spans only. -/
theorem splitFound_congr {cell cell' : Nat → Nat → Cell} {i l : Nat}
    (h : ∀ j k, 1 ≤ k → k < l → i ≤ j → j + k ≤ i + l → (cell j k).keys = (cell' j k).keys) :
    splitFound nf.pairRules.get cell i l = splitFound nf.pairRules.get cell' i l := by
  have keyed {c c' : Cell} (f : Nat → List (Nat × Back)) (h : c.keys = c'.keys) :
      (c.flatMap fun e => f e.1) = c'.flatMap fun e => f e.1 := by
    rw [← List.flatMap_map (f := Prod.fst) (g := f), ← List.flatMap_map (f := Prod.fst) (g := f)]
    exact congrArg (List.flatMap f) h
  simp only [splitFound]
  apply List.flatMap_congr
  intro k hk
  have hk := List.mem_range'_1.1 hk
  have right : (cell (i + k) (l - k)).has = (cell' (i + k) (l - k)).has := by
    funext b
    rw [Bool.eq_iff_iff, Cell.has_iff, Cell.has_iff,
      h (i + k) (l - k) (by omega) (by omega) (by omega) (by omega)]
  rw [right]
  exact keyed (fun d => (nf.pairRules.get d).filterMap _)
    (h i k hk.1 (by omega) (by omega) (by omega))

/-- All ways to derive a span, in order, given the cells of shorter spans. -/
def found (nf : NormalForm) (s : Scan) (cell : Nat → Nat → Cell) (i l : Nat) : List (Nat × Back) :=
  termFound nf.termRules.get s i l ++ splitFound nf.pairRules.get cell i l

theorem length_fill (s : Scan) (mode : Mode) :
    (nf.fill s mode).length = s.bounds.length - 1 := rfl

/-- A cell is made of what is found with the other cells of the chart. -/
theorem cell_fill {s : Scan} {mode : Mode} {i l : Nat} (hl : 1 ≤ l)
    (h : i + l ≤ s.bounds.length - 1) :
    (nf.fill s mode).cell i l = .ofFound mode (nf.found s (nf.fill s mode).cell i l) := by
  obtain ⟨acc, hacc, hr⟩ := getElem?_foldl_push (fun (cells : Array Cell) (e : Nat × Nat) =>
    Cell.ofFound mode (termFound nf.termRules.get s e.1 e.2 ++ splitFound nf.pairRules.get
      (fun j m => cells[Triangle.index (s.bounds.length - 1) j m]?.getD []) e.1 e.2))
    (Triangle.spans (s.bounds.length - 1)) (Triangle.spans_index hl h)
  have shorter : splitFound nf.pairRules.get
      (fun j m => acc[Triangle.index (s.bounds.length - 1) j m]?.getD []) i l =
      splitFound nf.pairRules.get (nf.fill s mode).cell i l := by
    apply splitFound_congr
    intro j k hk hkl hj hjk
    rw [hacc _ (Triangle.index_lt_index hk hkl (by omega) h)]
    rfl
  rw [found, ← shorter]
  exact congrArg (Option.getD · []) hr

/-- Both modes find the same ways. -/
theorem found_fill {s : Scan} (mode mode' : Mode) {i l : Nat} (hl : 1 ≤ l)
    (h : i + l ≤ s.bounds.length - 1) :
    nf.found s (nf.fill s mode).cell i l = nf.found s (nf.fill s mode').cell i l := by
  induction l using Nat.strongRecOn generalizing i with
  | ind l ih =>
    rw [found, found]
    congr 1
    apply splitFound_congr
    intro j k hk hkl hj hjk
    rw [cell_fill hk (by omega), cell_fill hk (by omega), ih k hkl hk (by omega)]
    exact Cell.keys_ofFound mode mode' _

theorem keys_fill {s : Scan} (mode mode' : Mode) {i l : Nat} (hl : 1 ≤ l)
    (h : i + l ≤ s.bounds.length - 1) :
    ((nf.fill s mode).cell i l).keys = ((nf.fill s mode').cell i l).keys := by
  rw [cell_fill hl h, cell_fill hl h, found_fill mode mode' hl h]
  exact Cell.keys_ofFound mode mode' _

end NormalForm
end ContextFree
