import ContextFree.Proofs.Pruning
import ContextFree.Proofs.Rules

/-! Numbering. Every non-terminal that stands for symbols has a number of its own, and so has every
terminal that a variant keeps; rules over numbers say what rules over names say. -/
namespace ContextFree

namespace Register
variable {κ α : Type} [DecidableEq κ] [Coded κ] {key : α → κ} {r : Register key} {k k' : κ}

theorem exists_placeOf (hk : k ∈ r.toList.map key) :
    ∃ a, r.toList[r.placeOf k]? = some a ∧ key a = k := by
  have hlt : r.placeOf k < (r.toList.map key).length := by
    rw [placeOf_eq]
    exact List.findIdx_lt_length_of_exists ⟨k, hk, by simp⟩
  have hget : (r.toList.map key)[r.placeOf k]? = some k := by
    rw [List.getElem?_eq_getElem hlt]
    simp only [placeOf_eq] at hlt ⊢
    exact congrArg some (eq_of_beq (List.findIdx_getElem (w := hlt)))
  rw [List.getElem?_map, Option.map_eq_some_iff] at hget
  exact hget

theorem placeOf_inj (hk : k ∈ r.toList.map key) (hk' : k' ∈ r.toList.map key)
    (h : r.placeOf k = r.placeOf k') : k = k' := by
  obtain ⟨a, ha, rfl⟩ := exists_placeOf hk
  obtain ⟨b, hb, rfl⟩ := exists_placeOf hk'
  rw [h, hb, Option.some.injEq] at ha
  rw [ha]

end Register

namespace Grammar

/-- The number of a non-terminal. -/
def number (g : Grammar) (n : Nonterm) : Nat := g.analysis.nonterms.placeOf n

/-- The number of a terminal. -/
def termNumber (g : Grammar) (k : Terminal.Key) : Nat := g.analysis.terms.placeOf k

/-- The rules over numbers, before pruning. -/
def numberedRules (g : Grammar) : List NumberedRule :=
  g.analysis.rules.map (Rule.map g.number g.termNumber)

theorem rules_normalForm (g : Grammar) :
    g.normalForm.rules = prune NormalForm.start g.numberedRules := rfl

theorem number_start (g : Grammar) : g.number .start = NormalForm.start := by
  rw [number, Register.placeOf_eq, Analysis.nonterms, Register.toList_ofList]
  rfl

end Grammar

section Numbers
variable {g : Grammar} {n m : Nonterm} {xs ys : List Symbol}

theorem mem_ownNonterms {v : Variant} : n ∈ v.ownNonterms ↔ 2 ≤ v.kept.length ∧
    ((∃ t, .term t ∈ v.kept ∧ n = .wrap t.key) ∨
      ∃ k, 1 ≤ k ∧ k + 2 ≤ v.kept.length ∧ n = .tail v.number k) := by
  have wraps (l : List Symbol) : n ∈ (l.filterMap Symbol.term?).map (Nonterm.wrap ·.key) ↔
      ∃ t, .term t ∈ l ∧ n = .wrap t.key := by
    simp only [List.mem_map, mem_filterMap_term?, eq_comm]
  rcases hk : v.kept with _ | ⟨x, _ | ⟨y, _ | ⟨z, xs⟩⟩⟩
  · simp [Variant.ownNonterms, hk]
  · simp [Variant.ownNonterms, hk]
  · have hown : v.ownNonterms = ([x, y].filterMap Symbol.term?).map (Nonterm.wrap ·.key) := by
      simp [Variant.ownNonterms, hk]
    rw [hown, wraps]
    constructor
    · exact fun h => ⟨by simp, .inl h⟩
    · rintro ⟨-, h | ⟨k, hk1, hk2, -⟩⟩
      · exact h
      · simp only [List.length_cons, List.length_nil] at hk2
        omega
  · have hown : v.ownNonterms = ([x].filterMap Symbol.term?).map (Nonterm.wrap ·.key) ++
        (List.range' 1 ((y :: z :: xs).length - 1)).map (.tail v.number) ++
        ((y :: z :: xs).filterMap Symbol.term?).map (Nonterm.wrap ·.key) := by
      simp [Variant.ownNonterms, hk]
    rw [hown, List.mem_append, List.mem_append, wraps, wraps, List.mem_map]
    simp only [List.mem_range'_1, List.length_cons]
    constructor
    · rintro ((⟨t, ht, rfl⟩ | ⟨k, hk, rfl⟩) | ⟨t, ht, rfl⟩)
      · exact ⟨by omega, .inl ⟨t, by simpa using .inl (List.mem_singleton.1 ht), rfl⟩⟩
      · exact ⟨by omega, .inr ⟨k, by omega, by omega, rfl⟩⟩
      · exact ⟨by omega, .inl ⟨t, .tail _ ht, rfl⟩⟩
    · rintro ⟨-, ⟨t, ht, rfl⟩ | ⟨k, hk1, hk2, rfl⟩⟩
      · rcases List.mem_cons.1 ht with rfl | ht
        · exact .inl (.inl ⟨t, .head _, rfl⟩)
        · exact .inr ⟨t, ht, rfl⟩
      · exact .inl (.inr ⟨k, by omega, rfl⟩)

/-- What stands for symbols has a number. -/
theorem Stands.mem_nonterms (h : Stands g n xs) : n ∈ g.analysis.nonterms.toList := by
  have hheads (hn : n ∈ g.heads) : n ∈ g.analysis.nonterms.toList := by
    rw [Grammar.Analysis.nonterms, Register.toList_ofList]
    exact mem_distinct.2 (List.mem_append_left _ hn)
  have hown {v : Variant} (hv : v ∈ g.ownVariants) (hlen : 2 ≤ v.kept.length)
      (hn : n ∈ v.ownNonterms) : n ∈ g.analysis.nonterms.toList := by
    obtain ⟨e, he, rfl⟩ := exists_own_emission hv (Variant.unitTarget?_of_two hlen)
    rw [Grammar.Analysis.nonterms, Register.toList_ofList]
    exact mem_distinct.2 (List.mem_append_right _ (List.mem_flatMap.2 ⟨e, he, hn⟩))
  cases h with
  | start => exact hheads (Grammar.mem_heads.2 (.inl rfl))
  | source h => exact hheads h
  | tail hv hk hlen =>
    exact hown hv (by omega) (mem_ownNonterms.2 ⟨by omega, .inr ⟨_, hk, hlen, rfl⟩⟩)
  | wrap hv hlen ht => exact hown hv hlen (mem_ownNonterms.2 ⟨hlen, .inl ⟨_, ht, rfl⟩⟩)

theorem Stands.number_inj (hn : Stands g n xs) (hm : Stands g m ys)
    (h : g.number n = g.number m) : n = m := by
  refine Register.placeOf_inj (r := g.analysis.nonterms) ?_ ?_ h
  · rw [List.map_id]
    exact hn.mem_nonterms
  · rw [List.map_id]
    exact hm.mem_nonterms

/-- What stands for symbols is found by its number. -/
theorem Stands.getElem?_number (h : Stands g n xs) :
    g.normalForm.nonterms[g.number n]? = some n := by
  have hmem : n ∈ g.analysis.nonterms.toList.map id := by
    rw [List.map_id]
    exact h.mem_nonterms
  obtain ⟨m, hm, rfl⟩ := Register.exists_placeOf hmem
  rw [← Array.getElem?_toList]
  exact hm

/-- All that has a number stands for symbols. -/
theorem exists_stands (h : n ∈ g.analysis.nonterms.toList) : ∃ xs, Stands g n xs := by
  rw [Grammar.Analysis.nonterms, Register.toList_ofList] at h
  rcases List.mem_append.1 (mem_distinct.1 h) with hn | hn
  · obtain ⟨name, -, h⟩ := stands_head hn
    exact ⟨_, h⟩
  · obtain ⟨e, he, hn⟩ := List.mem_flatMap.1 hn
    have hv := (emitted_of_mem he).mem
    obtain ⟨hlen, ⟨t, ht, rfl⟩ | ⟨k, hk, hklen, rfl⟩⟩ := mem_ownNonterms.1 hn
    · exact ⟨_, .wrap hv hlen ht⟩
    · exact ⟨_, .tail hv hk hklen⟩

/-- Nothing has two numbers. -/
theorem Stands.eq_number (h : Stands g n xs) {a : Nat}
    (ha : g.normalForm.nonterms[a]? = some n) : a = g.number n := by
  have hnodup : g.analysis.nonterms.toList.Nodup := by
    rw [Grammar.Analysis.nonterms, Register.toList_ofList]
    exact nodup_distinct _
  have hn := h.getElem?_number
  rw [← Array.getElem?_toList] at ha hn
  exact (List.getElem?_inj (List.getElem?_eq_some_iff.1 ha).1 hnodup).1 (ha.trans hn.symm)

theorem Stands.eq_of_getElem? (h : Stands g n xs) {m : Nonterm}
    (hm : g.normalForm.nonterms[g.number n]? = some m) : m = n :=
  Option.some.inj (hm.symm.trans h.getElem?_number)

/-- What a variant keeps comes from a right-hand side. -/
theorem mem_terminals_of_kept {v : Variant} (hv : v ∈ g.ownVariants) {t : Terminal}
    (ht : .term t ∈ v.kept) : t ∈ g.terminals := by
  rcases Grammar.mem_rhs_of_mem_kept hv ht with h | ⟨p, hp, ht⟩
  · simp at h
  · exact Grammar.mem_terminals.2 ⟨p, hp, ht⟩

/-- The terminals that have numbers come from right-hand sides. -/
theorem mem_terminals_of_terms {t : Terminal} (ht : t ∈ g.analysis.terms.toList) :
    t ∈ g.terminals := by
  rw [Grammar.Analysis.terms, Register.toList_ofList] at ht
  obtain ⟨e, he, ht⟩ := List.mem_flatMap.1 ((distinctBy_sublist _ _).subset ht)
  exact mem_terminals_of_kept (emitted_of_mem he).mem (mem_filterMap_term?.1 ht)

/-- What a variant keeps has an entry, up to its key. -/
theorem key_mem_terms {v : Variant} (hv : v ∈ g.ownVariants) {t : Terminal}
    (ht : .term t ∈ v.kept) : t.key ∈ g.analysis.terms.toList.map Terminal.key := by
  have hunit : v.unitTarget? = none :=
    Variant.unitTarget?_eq_none.2 fun name hk => by simp [hk] at ht
  obtain ⟨e, he, rfl⟩ := exists_own_emission hv hunit
  rw [Grammar.Analysis.terms, Register.toList_ofList, mem_map_distinctBy]
  exact List.mem_map_of_mem (List.mem_flatMap.2 ⟨e, he, mem_filterMap_term?.2 ht⟩)

/-- A kept terminal is found by its number, up to its key. -/
theorem exists_termNumber {v : Variant} (hv : v ∈ g.ownVariants) {t : Terminal}
    (ht : .term t ∈ v.kept) :
    ∃ s, g.normalForm.terms.toList[g.termNumber t.key]? = some s ∧ s.key = t.key :=
  Register.exists_placeOf (r := g.analysis.terms) (key_mem_terms hv ht)

end Numbers

section Coherent
variable {g : Grammar} (hg : g.Coherent)
include hg

theorem getElem?_termNumber {v : Variant} (hv : v ∈ g.ownVariants) {t : Terminal}
    (ht : .term t ∈ v.kept) : g.normalForm.terms.toList[g.termNumber t.key]? = some t := by
  obtain ⟨s, hs, hkey⟩ := exists_termNumber hv ht
  have hmem : s ∈ g.analysis.terms.toList := List.mem_of_getElem? hs
  rw [hs, hg.eq_of_key_eq (mem_terminals_of_terms hmem) (mem_terminals_of_kept hv ht) hkey]

/-- A non-terminal stands for one list of symbols. -/
theorem Stands.unique {n : Nonterm} {xs ys : List Symbol} (h : Stands g n xs)
    (h' : Stands g n ys) : xs = ys := by
  cases h with
  | start => cases h'; rfl
  | source _ => cases h'; rfl
  | @tail v k hv _ _ =>
    generalize hm : Nonterm.tail v.number k = m at h'
    cases h' with
    | tail hv' _ _ =>
      obtain ⟨hnumber, rfl⟩ := Nonterm.tail.inj hm
      rw [Grammar.eq_of_number_eq hv hv' hnumber]
    | start | source _ | wrap _ _ _ => simp at hm
  | @wrap v t hv _ ht =>
    generalize hm : Nonterm.wrap t.key = m at h'
    cases h' with
    | wrap hv' _ ht' =>
      rw [hg.eq_of_key_eq (mem_terminals_of_kept hv ht) (mem_terminals_of_kept hv' ht')
        (Nonterm.wrap.inj hm)]
    | start | source _ | tail _ _ _ => simp at hm

theorem BodyStands.unique {body : Body Nonterm Terminal.Key} {xs ys : List Symbol}
    (h : BodyStands g body xs) (h' : BodyStands g body ys) : xs = ys := by
  cases h with
  | @term v t hv ht =>
    generalize hk : Body.term t.key = b at h'
    cases h' with
    | term hv' ht' =>
      rw [hg.eq_of_key_eq (mem_terminals_of_kept hv ht) (mem_terminals_of_kept hv' ht')
        (Body.term.inj hk)]
    | pair _ _ => simp at hk
  | pair hb hc =>
    cases h' with
    | pair hb' hc' => rw [hb.unique hg hb', hc.unique hg hc']

end Coherent
end ContextFree
