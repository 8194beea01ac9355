import ContextFree.Proofs.Precedence
import ContextFree.Proofs.Variants
import Mathlib.Data.List.Sort

/-! Kept positions. The choices for a right-hand side, seen as sets of positions, are all sets that
keep what has to be kept and no empty literal; they come in lexicographic order, each of them once,
and the largest of them first. -/
namespace ContextFree

/-- The positions of a list where a test holds. -/
def positions {α : Type} (f : α → Bool) (l : List α) : List Nat :=
  (l.zipIdx.filter (f ·.1)).map (·.2)

/-- The positions that a choice keeps. -/
def keptPositions (slots : List Slot) : List Nat := positions (·.kept) slots

/-- The positions of all but the empty literals. -/
def keepablePositions (xs : List Symbol) : List Nat := positions (!·.isEmptyLiteral) xs

/-- A set of positions that keeps what has to be kept: everything that is neither nilable nor an
empty literal. -/
structure KeptSet (nilable : Symbol → Bool) (xs : List Symbol) (ks : List Nat) : Prop where
  ne_nil : ks ≠ []
  increasing : ks.Pairwise (· < ·)
  keepable : ∀ k ∈ ks, ∃ x, xs[k]? = some x ∧ x.isEmptyLiteral = false
  forced : ∀ k x, xs[k]? = some x → x.isEmptyLiteral = false → nilable x = false → k ∈ ks

/-- The first position where two sets differ is in the first of them. -/
def KeepsFirst (ks ls : List Nat) : Prop := ∃ k ∈ ks, k ∉ ls ∧ ∀ j < k, j ∈ ks ↔ j ∈ ls

theorem KeepsFirst.ne {ks ls : List Nat} (h : KeepsFirst ks ls) : ks ≠ ls := by
  rintro rfl
  obtain ⟨k, hk, hnot, -⟩ := h
  exact hnot hk

theorem mem_positions {α : Type} {f : α → Bool} {l : List α} {k : Nat} :
    k ∈ positions f l ↔ ∃ a, l[k]? = some a ∧ f a = true := by
  simp only [positions, List.mem_map, List.mem_filter, Prod.exists, List.mem_zipIdx_iff_getElem?]
  constructor
  · rintro ⟨a, k, ⟨ha, hf⟩, rfl⟩
    exact ⟨a, ha, hf⟩
  · rintro ⟨a, ha, hf⟩
    exact ⟨a, k, ⟨ha, hf⟩, rfl⟩

theorem pairwise_positions {α : Type} (f : α → Bool) (l : List α) :
    (positions f l).Pairwise (· < ·) :=
  List.pairwise_map.2 ((pairwise_zipIdx l).filter _)

theorem mem_keptPositions {slots : List Slot} {k : Nat} :
    k ∈ keptPositions slots ↔ ∃ s, slots[k]? = some s ∧ s.kept = true :=
  mem_positions

theorem mem_keepablePositions {xs : List Symbol} {k : Nat} :
    k ∈ keepablePositions xs ↔ ∃ x, xs[k]? = some x ∧ x.isEmptyLiteral = false := by
  simp only [keepablePositions, mem_positions, Bool.not_eq_true']

section Positions
variable {x : Symbol} {b : Bool} {slots slots' : List Slot} {k : Nat}

theorem keptPositions_ne_nil : keptPositions slots ≠ [] ↔ slots.any (·.kept) = true := by
  rw [List.any_eq_true]
  constructor
  · intro h
    obtain ⟨k, hk⟩ := List.exists_mem_of_ne_nil _ h
    obtain ⟨s, hs, hkept⟩ := mem_keptPositions.1 hk
    exact ⟨s, List.mem_of_getElem? hs, hkept⟩
  · rintro ⟨s, hs, hkept⟩
    obtain ⟨k, hk⟩ := List.mem_iff_getElem?.1 hs
    exact List.ne_nil_of_mem (mem_keptPositions.2 ⟨s, hk, hkept⟩)

@[simp] theorem zero_mem_keptPositions_cons :
    0 ∈ keptPositions (⟨x, b⟩ :: slots) ↔ b = true := by
  simp [mem_keptPositions]

@[simp] theorem succ_mem_keptPositions_cons :
    k + 1 ∈ keptPositions (⟨x, b⟩ :: slots) ↔ k ∈ keptPositions slots := by
  simp [mem_keptPositions]

/-- Of two choices the one that keeps the first position comes first. -/
theorem keepsFirst_cons (x : Symbol) (slots slots' : List Slot) :
    KeepsFirst (keptPositions (⟨x, true⟩ :: slots)) (keptPositions (⟨x, false⟩ :: slots')) :=
  ⟨0, by simp, by simp, by simp⟩

/-- If they treat it alike, the rest decides. -/
theorem KeepsFirst.cons (h : KeepsFirst (keptPositions slots) (keptPositions slots')) (x : Symbol)
    (b : Bool) :
    KeepsFirst (keptPositions (⟨x, b⟩ :: slots)) (keptPositions (⟨x, b⟩ :: slots')) := by
  obtain ⟨k, hk, hnot, hbelow⟩ := h
  refine ⟨k + 1, by simpa, by simpa, fun j hj => ?_⟩
  cases j with
  | zero => simp
  | succ j => simpa using hbelow j (by omega)

end Positions

section Choices
variable {nilable : Symbol → Bool} {xs : List Symbol} {slots : List Slot}

/-- A list of slots is a choice just if every position of it is as it may be. -/
theorem mem_slotChoices : slots ∈ slotChoices nilable xs ↔
    slots.map (·.symbol) = xs ∧ ∀ s ∈ slots, s.Allowed nilable := by
  induction xs generalizing slots with
  | nil =>
    rw [slotChoices, List.mem_singleton, List.map_eq_nil_iff]
    constructor
    · rintro rfl
      exact ⟨rfl, by simp⟩
    · exact And.left
  | cons x xs ih =>
    rw [mem_slotChoices_cons_iff]
    constructor
    · rintro ⟨kept, rest, rfl, hrest, hs⟩
      obtain ⟨rfl, hall⟩ := ih.1 hrest
      exact ⟨rfl, List.forall_mem_cons.2 ⟨hs, hall⟩⟩
    · rintro ⟨hmap, hall⟩
      obtain ⟨s, rest, rfl, rfl, hrest⟩ := List.map_eq_cons_iff.1 hmap
      obtain ⟨hs, hall⟩ := List.forall_mem_cons.1 hall
      exact ⟨s.kept, rest, rfl, ih.2 ⟨hrest, hall⟩, hs⟩

/-- What a choice keeps is a set of positions with what has to be kept. -/
theorem keptSet_keptPositions (h : slots ∈ slotChoices nilable xs)
    (hne : keptPositions slots ≠ []) : KeptSet nilable xs (keptPositions slots) := by
  obtain ⟨rfl, hall⟩ := mem_slotChoices.1 h
  refine ⟨hne, pairwise_positions _ slots, fun k hk => ?_, fun k x hx hlit hnil => ?_⟩
  · obtain ⟨s, hs, hkept⟩ := mem_keptPositions.1 hk
    exact ⟨s.symbol, by rw [List.getElem?_map, hs]; rfl,
      (hall s (List.mem_of_getElem? hs)).1 hkept⟩
  · rw [List.getElem?_map, Option.map_eq_some_iff] at hx
    obtain ⟨s, hs, rfl⟩ := hx
    refine mem_keptPositions.2 ⟨s, hs, Bool.eq_true_of_not_eq_false fun hdropped => ?_⟩
    have hdrop := (hall s (List.mem_of_getElem? hs)).2 hdropped
    simp [hlit, hnil] at hdrop

/-- The choice that keeps a set of positions. -/
def slotsOf (xs : List Symbol) (ks : List Nat) : List Slot :=
  xs.zipIdx.map fun e => ⟨e.1, decide (e.2 ∈ ks)⟩

theorem getElem?_slotsOf (xs : List Symbol) (ks : List Nat) (k : Nat) :
    (slotsOf xs ks)[k]? = xs[k]?.map fun x => ⟨x, decide (k ∈ ks)⟩ := by
  simp [slotsOf, List.getElem?_zipIdx, Function.comp_def]

theorem KeptSet.slotsOf_mem {ks : List Nat} (h : KeptSet nilable xs ks) :
    slotsOf xs ks ∈ slotChoices nilable xs := by
  refine mem_slotChoices.2 ⟨by simp [slotsOf, Function.comp_def], fun s hs => ?_⟩
  obtain ⟨k, hk⟩ := List.mem_iff_getElem?.1 hs
  rw [getElem?_slotsOf, Option.map_eq_some_iff] at hk
  obtain ⟨x, hx, rfl⟩ := hk
  constructor
  · intro hkept
    obtain ⟨y, hy, hlit⟩ := h.keepable k (of_decide_eq_true hkept)
    exact Option.some.inj (hx.symm.trans hy) ▸ hlit
  · intro hdropped
    have hnot : k ∉ ks := of_decide_eq_false hdropped
    by_contra hforced
    rw [not_or, Bool.not_eq_true, Bool.not_eq_true] at hforced
    exact hnot (h.forced k x hx hforced.1 hforced.2)

theorem KeptSet.keptPositions_slotsOf {ks : List Nat} (h : KeptSet nilable xs ks) :
    keptPositions (slotsOf xs ks) = ks := by
  have hincreasing : (keptPositions (slotsOf xs ks)).Pairwise (· < ·) := pairwise_positions _ _
  refine hincreasing.eq_of_mem_iff h.increasing fun k => ?_
  rw [mem_keptPositions]
  constructor
  · rintro ⟨s, hs, hkept⟩
    rw [getElem?_slotsOf, Option.map_eq_some_iff] at hs
    obtain ⟨x, -, rfl⟩ := hs
    exact of_decide_eq_true hkept
  · intro hk
    obtain ⟨x, hx, -⟩ := h.keepable k hk
    exact ⟨_, by rw [getElem?_slotsOf, hx]; rfl, decide_eq_true hk⟩

/-- Choices that keep a position come before those that drop it, from the first position on. -/
theorem pairwise_slotChoices (nilable : Symbol → Bool) (xs : List Symbol) :
    (slotChoices nilable xs).Pairwise
      fun ss ts => KeepsFirst (keptPositions ss) (keptPositions ts) := by
  induction xs with
  | nil => simp [slotChoices]
  | cons x xs ih =>
    have same (b : Bool) : ((slotChoices nilable xs).map (⟨x, b⟩ :: ·)).Pairwise
        fun ss ts => KeepsFirst (keptPositions ss) (keptPositions ts) :=
      List.pairwise_map.2 (ih.imp fun h => h.cons x b)
    rw [slotChoices]
    split
    · exact same false
    · split
      · refine List.pairwise_append.2 ⟨same true, same false, fun ss hss ts hts => ?_⟩
        obtain ⟨ss, -, rfl⟩ := List.mem_map.1 hss
        obtain ⟨ts, -, rfl⟩ := List.mem_map.1 hts
        exact keepsFirst_cons x ss ts
      · exact same true

end Choices

/-- All but the empty literals may be kept, if there is anything else. -/
theorem keptSet_keepablePositions (nilable : Symbol → Bool) {xs : List Symbol}
    (h : keepablePositions xs ≠ []) : KeptSet nilable xs (keepablePositions xs) where
  ne_nil := h
  increasing := pairwise_positions _ xs
  keepable _ hk := mem_keepablePositions.1 hk
  forced _ x hx hlit _ := mem_keepablePositions.2 ⟨x, hx, hlit⟩

namespace Grammar
variable {nilable : Symbol → Bool} {p : Production}

/-- The sets of positions that the variants of a production keep. -/
def keptSets (nilable : Symbol → Bool) (p : Production) : List (List Nat) :=
  (variantSlots nilable p).map keptPositions

theorem mem_keptSets {ks : List Nat} : ks ∈ keptSets nilable p ↔ KeptSet nilable p.rhs ks := by
  simp only [keptSets, variantSlots, List.mem_map, List.mem_filter]
  constructor
  · rintro ⟨slots, ⟨hslots, hne⟩, rfl⟩
    exact keptSet_keptPositions hslots (keptPositions_ne_nil.2 hne)
  · intro h
    refine ⟨slotsOf p.rhs ks, ⟨h.slotsOf_mem, ?_⟩, h.keptPositions_slotsOf⟩
    rw [← keptPositions_ne_nil, h.keptPositions_slotsOf]
    exact h.ne_nil

theorem pairwise_keptSets (nilable : Symbol → Bool) (p : Production) :
    (keptSets nilable p).Pairwise KeepsFirst :=
  List.pairwise_map.2 ((pairwise_slotChoices nilable p.rhs).filter _)

/-- No other set keeps a position that the set of all does not. -/
theorem head?_keptSets (nilable : Symbol → Bool) (p : Production) : (keptSets nilable p).head? =
    if keepablePositions p.rhs = [] then none else some (keepablePositions p.rhs) := by
  cases hsets : keptSets nilable p with
  | nil =>
    rw [if_pos]
    · rfl
    · by_contra hne
      have := mem_keptSets.2 (keptSet_keepablePositions nilable hne)
      simp [hsets] at this
  | cons ks rest =>
    have hks : KeptSet nilable p.rhs ks := mem_keptSets.1 (by simp [hsets])
    have hall : ∀ k ∈ ks, k ∈ keepablePositions p.rhs :=
      fun k hk => mem_keepablePositions.2 (hks.keepable k hk)
    obtain ⟨k, hk⟩ := List.exists_mem_of_ne_nil _ hks.ne_nil
    have hne := List.ne_nil_of_mem (hall k hk)
    have hmem := mem_keptSets.2 (keptSet_keepablePositions nilable hne)
    have horder := pairwise_keptSets nilable p
    rw [hsets] at hmem horder
    rw [if_neg hne, List.head?_cons]
    rcases List.mem_cons.1 hmem with heq | hrest
    · rw [heq]
    · obtain ⟨j, hj, hnot, -⟩ := List.rel_of_pairwise_cons horder hrest
      exact (hnot (hall j hj)).elim

/-- The variants of a production keep all sets of positions that they may keep, each of them once,
in lexicographic order and the largest first; slot by slot, a variant keeps what its set has. -/
theorem keptSets_exact (nilable : Symbol → Bool) (p : Production) :
    (∀ ks, ks ∈ keptSets nilable p ↔ KeptSet nilable p.rhs ks) ∧ (keptSets nilable p).Nodup ∧
      (keptSets nilable p).Pairwise KeepsFirst ∧
      (keptSets nilable p).head? =
        (if keepablePositions p.rhs = [] then none else some (keepablePositions p.rhs)) ∧
      ∀ slots ∈ variantSlots nilable p, slots.map (·.symbol) = p.rhs ∧
        ∀ k s, slots[k]? = some s → (s.kept = true ↔ k ∈ keptPositions slots) := by
  have horder := pairwise_keptSets nilable p
  refine ⟨fun ks => mem_keptSets, horder.imp KeepsFirst.ne, horder, head?_keptSets nilable p, ?_⟩
  intro slots hslots
  refine ⟨symbols_of_mem_slotChoices (List.mem_of_mem_filter hslots), fun k s hs => ?_⟩
  rw [mem_keptPositions, hs]
  simp

example : keptSets (fun x => x.nonterm?.isSome)
    ⟨"S", [.nonterm "A", .literal "", .nonterm "B"]⟩ = [[0, 2], [0], [2]] := by decide +kernel

end Grammar
end ContextFree
