import ContextFree.Chart.Trees
import ContextFree.Proofs.Filling
import ContextFree.Proofs.Interning

/-! What a chart gives for a span. The rows that hold it are filled by length; read from outside
they satisfy one equation: a non-terminal gives, without duplicates, what its ways give, and each
way follows its rule with what shorter spans give. -/
namespace ContextFree

section Distinct
variable {α κ : Type} [DecidableEq κ] {key : α → κ}

theorem mem_distinctBy (hk : Function.Injective key) {l : List α} {a : α} :
    a ∈ distinctBy key l ↔ a ∈ l := by
  rw [← List.mem_map_of_injective hk, mem_map_distinctBy, List.mem_map_of_injective hk]

theorem nodup_distinctBy (key : α → κ) (l : List α) : (distinctBy key l).Nodup :=
  (nodup_map_distinctBy key l).of_map

end Distinct

theorem distinctParts_eq (l : List Parts) :
    distinctParts l = distinctBy (fun ps : Parts => (ps.map (·.tree), ps.map (·.stop))) l :=
  distinctByTrees_eq _ _ l

/-- Parts are known by their trees and stops. -/
theorem parts_key_injective :
    Function.Injective fun ps : Parts => (ps.map (·.tree), ps.map (·.stop)) := by
  have ext : ∀ ps qs : Parts, ps.map (·.tree) = qs.map (·.tree) →
      ps.map (·.stop) = qs.map (·.stop) → ps = qs := by
    intro ps
    induction ps with
    | nil => intro qs ht _; simpa using ht.symm
    | cons p ps ih =>
      intro qs ht hs
      cases qs with
      | nil => simp at ht
      | cons q qs =>
        simp only [List.map_cons, List.cons.injEq] at ht hs
        rw [ih qs ht.2 hs.2]
        cases p
        cases q
        simp_all
  exact fun ps qs h => ext ps qs (Prod.mk.inj h).1 (Prod.mk.inj h).2

theorem mem_distinctParts {l : List Parts} {ps : Parts} : ps ∈ distinctParts l ↔ ps ∈ l := by
  rw [distinctParts_eq, mem_distinctBy parts_key_injective]

theorem nodup_distinctParts (l : List Parts) : (distinctParts l).Nodup := by
  rw [distinctParts_eq]
  exact nodup_distinctBy _ l

/-- Whether a way leaves something of a length for both sides of a split. -/
def Back.Fits (l : Nat) : Back → Prop
  | term _ => True
  | split _ k => 1 ≤ k ∧ k < l

/-- A way looks at shorter spans only. -/
theorem Rebuilding.followBack_congr {x : Rebuilding} {c : Chart}
    {shorter shorter' : Nat → Nat → Nat → List Parts} {i l : Nat} {b : Back} (hb : b.Fits l)
    (h : ∀ j k a, 1 ≤ k → k < l → shorter j k a = shorter' j k a) :
    x.followBack c shorter i l b = x.followBack c shorter' i l b := by
  cases b with
  | term rule => rfl
  | split rule k =>
    obtain ⟨hk, hkl⟩ := hb
    have left a := h i k a hk hkl
    have right a := h (i + k) (l - k) a (by omega) (by omega)
    simp only [followBack, left, right]

namespace Chart
variable {c : Chart} {x : Rebuilding} {i l a : Nat}

theorem size_partsRows (l : Nat) : (c.partsRows x l).size = l := by
  induction l with
  | zero => rfl
  | succ l ih => rw [partsRows, Array.size_push, ih]

/-- Looking a non-terminal up in a row is looking it up in its cell. -/
theorem get_find?_row (cell : Cell) (give : List Back → List Parts) (hnil : give [] = [])
    (a : Nat) :
    (match (cell.map fun (a, backs) => (a, Thunk.mk fun _ => give backs)).find? (·.1 == a) with
      | some (_, parts) => parts.get
      | none => []) = give (cell.backs a) := by
  induction cell with
  | nil => exact hnil.symm
  | cons e cell ih =>
    by_cases h : e.1 = a
    · simp only [List.map_cons, List.find?_cons, h, beq_self_eq_true, Cell.backs, if_true]
      rfl
    · have h' : (e.1 == a) = false := beq_false_of_ne h
      simp only [List.map_cons, List.find?_cons, h', Cell.backs, if_neg h]
      exact ih

/-- The row of one more length is looked up in the cells of that length; the others stay. -/
theorem partsOf_succ (l i k a : Nat) : partsOf (c.partsRows x (l + 1)) i k a =
    if k - 1 = l then
      if i < c.length - l then distinctParts (((c.cell i (l + 1)).backs a).flatMap
        (x.followBack c (partsOf (c.partsRows x l)) i (l + 1))) else []
    else partsOf (c.partsRows x l) i k a := by
  rw [partsOf, partsRows, Array.getElem?_push, size_partsRows]
  by_cases hk : k - 1 = l
  · rw [if_pos hk, if_pos hk]
    by_cases hi : i < c.length - l
    · simp only [Option.getD_some, List.getElem?_map, List.getElem?_range hi, Option.map_some,
        if_pos hi]
      exact get_find?_row _ (fun backs => distinctParts (backs.flatMap
        (x.followBack c (partsOf (c.partsRows x l)) i (l + 1)))) rfl a
    · rw [if_neg hi, Option.getD_some, List.getElem?_eq_none (by simpa using hi)]
      rfl
  · rw [if_neg hk, if_neg hk, partsOf]

/-- A row stays when longer ones are added. -/
theorem partsOf_partsRows {k : Nat} (hk : 1 ≤ k) (hkl : k ≤ l) :
    partsOf (c.partsRows x l) i k a = c.alternatives x i k a := by
  induction l, hkl using Nat.le_induction with
  | base => rfl
  | succ l hkl ih => rw [← ih, partsOf_succ, if_neg (by omega)]

/-- What a non-terminal gives for a span is what its ways give. -/
theorem alternatives_eq (hl : 1 ≤ l) (h : i + l ≤ c.length)
    (hc : ∀ b ∈ (c.cell i l).backs a, b.Fits l) :
    c.alternatives x i l a = distinctParts
      (((c.cell i l).backs a).flatMap (x.followBack c (c.alternatives x) i l)) := by
  obtain ⟨l, rfl⟩ : ∃ k, l = k + 1 := ⟨l - 1, by omega⟩
  rw [alternatives, partsOf_succ, if_pos (by omega), if_pos (by omega)]
  congr 1
  apply List.flatMap_congr
  intro b hb
  exact Rebuilding.followBack_congr (hc b hb) fun j k a hk hkl =>
    partsOf_partsRows hk (by omega)

end Chart

namespace NormalForm
variable {nf : NormalForm} {s : Scan} {mode : Mode} {x : Rebuilding} {i l a : Nat}

theorem fits_of_mem_found {cell : Nat → Nat → Cell} {b : Back} (h : (a, b) ∈ nf.found s cell i l) :
    b.Fits l := by
  rcases List.mem_append.1 h with h | h
  · obtain ⟨_, _, _, rfl, _⟩ := mem_termFound.1 h
    trivial
  · obtain ⟨_, _, _, _, _, rfl, hk, hkl, _⟩ := mem_splitFound.1 h
    exact ⟨hk, hkl⟩

/-- The ways of a non-terminal that are found for a span, in order. -/
def waysOf (nf : NormalForm) (s : Scan) (mode : Mode) (i l a : Nat) : List Back :=
  ((nf.found s (nf.fill s mode).cell i l).filter (·.1 = a)).map (·.2)

theorem mem_waysOf {b : Back} :
    b ∈ nf.waysOf s mode i l a ↔ (a, b) ∈ nf.found s (nf.fill s mode).cell i l := by
  simp [waysOf]

theorem waysOf_mode (mode' : Mode) (hl : 1 ≤ l) (h : i + l ≤ s.bounds.length - 1) :
    nf.waysOf s mode i l a = nf.waysOf s mode' i l a := by
  rw [waysOf, waysOf, found_fill mode mode' hl h]

theorem backs_fill (hl : 1 ≤ l) (h : i + l ≤ s.bounds.length - 1) :
    ((nf.fill s mode).cell i l).backs a = if mode = .exhaustive then nf.waysOf s mode i l a
      else (nf.waysOf s mode i l a).take 1 := by
  rw [cell_fill hl h, Cell.backs_ofFound]
  rfl

theorem has_fill_iff (hl : 1 ≤ l) (h : i + l ≤ s.bounds.length - 1) :
    ((nf.fill s mode).cell i l).has a = true ↔ nf.waysOf s mode i l a ≠ [] := by
  rw [cell_fill hl h, Cell.has_iff, Cell.mem_keys_ofFound, ne_eq, List.eq_nil_iff_forall_not_mem]
  simp only [mem_waysOf, not_forall, not_not]

/-- The equation of a filled chart. -/
theorem alternatives_fill (hl : 1 ≤ l) (h : i + l ≤ s.bounds.length - 1) :
    (nf.fill s mode).alternatives x i l a = distinctParts
      ((((nf.fill s mode).cell i l).backs a).flatMap
        (x.followBack (nf.fill s mode) ((nf.fill s mode).alternatives x) i l)) := by
  apply Chart.alternatives_eq hl h
  intro b hb
  have hb : b ∈ nf.waysOf s mode i l a := by
    rw [backs_fill hl h] at hb
    split at hb
    · exact hb
    · exact List.mem_of_mem_take hb
  exact fits_of_mem_found (mem_waysOf.1 hb)

theorem has_of_mem_alternatives (hl : 1 ≤ l) (h : i + l ≤ s.bounds.length - 1) {ps : Parts}
    (hps : ps ∈ (nf.fill s mode).alternatives x i l a) :
    ((nf.fill s mode).cell i l).has a = true := by
  rw [has_fill_iff hl h]
  rintro hw
  rw [alternatives_fill hl h, backs_fill hl h, hw] at hps
  cases mode <;> simp [mem_distinctParts] at hps

/-- In exhaustive mode a non-terminal gives what some rule makes of one match, or of what the two
parts of a split give. -/
theorem mem_alternatives_fill (hx : ∀ n, x.rules n = nf.rules[n]?) (hl : 1 ≤ l)
    (h : i + l ≤ s.bounds.length - 1) {ps : Parts} :
    let c := nf.fill s .exhaustive
    ps ∈ c.alternatives x i l a ↔
      (∃ number r t, nf.rules[number]? = some r ∧ r.lhs = a ∧ r.body = .term t ∧
        ⟨t, l⟩ ∈ s.matchesAt i ∧ ps ∈ x.produce number [⟨.leaf (c.span i l), (c.span i l).stop⟩]
          (c.span i l).start) ∨
      ∃ number r k d e left right, nf.rules[number]? = some r ∧ r.lhs = a ∧ r.body = .pair d e ∧
        1 ≤ k ∧ k < l ∧ left ∈ c.alternatives x i k d ∧
        right ∈ c.alternatives x (i + k) (l - k) e ∧
        ps ∈ x.produce number (left ++ right) (c.span i l).start := by
  intro c
  rw [alternatives_fill hl h, mem_distinctParts, backs_fill hl h, if_pos rfl, List.mem_flatMap]
  simp only [mem_waysOf, found, List.mem_append, mem_termFound, mem_splitFound]
  constructor
  · rintro ⟨b, ⟨number, r, t, rfl, hr, rfl, hb, hm⟩ |
      ⟨rule, r, k, d, e, rfl, hk, hkl, hr, rfl, hb, _⟩, hps⟩
    · exact .inl ⟨number, r, t, hr, rfl, hb, hm, hps⟩
    · simp only [Rebuilding.followBack, hx, hr, Option.map_some, hb, List.mem_flatMap] at hps
      obtain ⟨left, hleft, right, hright, hps⟩ := hps
      exact .inr ⟨rule, r, k, d, e, left, right, hr, rfl, hb, hk, hkl, hleft, hright, hps⟩
  · rintro (⟨number, r, t, hr, rfl, hb, hm, hps⟩ |
      ⟨rule, r, k, d, e, left, right, hr, rfl, hb, hk, hkl, hleft, hright, hps⟩)
    · exact ⟨_, .inl ⟨number, r, t, rfl, hr, rfl, hb, hm⟩, hps⟩
    · refine ⟨_, .inr ⟨rule, r, k, d, e, rfl, hk, hkl, hr, rfl, hb,
        has_of_mem_alternatives hk (by omega) hleft,
        has_of_mem_alternatives (by omega) (by omega) hright⟩, ?_⟩
      simp only [Rebuilding.followBack, hx, hr, Option.map_some, hb, List.mem_flatMap]
      exact ⟨left, hleft, right, hright, hps⟩

end NormalForm
end ContextFree
