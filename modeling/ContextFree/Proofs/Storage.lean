import ContextFree.Chart.Triangle
import Mathlib.Data.List.Induction
import Mathlib.Data.Set.Function
import Mathlib.Tactic.Ring

/-! Triangular storage holds every span at its own place, shorter spans before longer ones, and
what is filled in order can be read while the rest is filled. The places are computed exactly, and
there is one span for each. -/
namespace ContextFree.Triangle

/-- What is left of a number, unless more is taken than there is. -/
def minus? (a b : Nat) : Option Nat := if b ≤ a then some (a - b) else none

/-- Half of a number, unless it is odd. -/
def half? (a : Nat) : Option Nat := if 2 ∣ a then some (a / 2) else none

/-- The place of a span, with every step checked: the span has to be inside the word, nothing goes
below zero, and nothing is rounded. -/
def place? (n i l : Nat) : Option Nat :=
  if 1 ≤ l ∧ i + l ≤ n then do
    let shorter ← minus? l 1
    let rest ← minus? (2 * n) l
    return (← half? (shorter * (rest + 2))) + i
  else none

/-- The storage of a word of so many characters has one span for each place, in order. -/
structure Exact (n : Nat) : Prop where
  /-- The number of cells is not rounded. -/
  size : half? (n * (n + 1)) = some (n * (n + 1) / 2)
  /-- Every step towards the place of a span is sound. -/
  computed : ∀ i l, place? n i l = if 1 ≤ l ∧ i + l ≤ n then some (index n i l) else none
  bijective : Set.BijOn (fun s : Nat × Nat => index n s.1 s.2) {s | 1 ≤ s.2 ∧ s.1 + s.2 ≤ n}
    (Set.Iio (n * (n + 1) / 2))
  /-- By length, and then by first character. -/
  ordered : ∀ i k j l, 1 ≤ k → i + k ≤ n → 1 ≤ l → j + l ≤ n →
    (index n i k < index n j l ↔ k < l ∨ k = l ∧ i < j)

/-- The spans up to a length. -/
def spansUpTo (n l : Nat) : List (Nat × Nat) :=
  (List.range' 1 l).flatMap fun l => (List.range (n + 1 - l)).map fun i => (i, l)

theorem spansUpTo_succ (n l : Nat) :
    spansUpTo n (l + 1) = spansUpTo n l ++ (List.range (n - l)).map fun i => (i, l + 1) := by
  rw [spansUpTo, List.range'_concat, List.flatMap_append, ← spansUpTo]
  simp [Nat.add_comm 1 l]

theorem two_mul_length_spansUpTo {n l : Nat} (h : l ≤ n) :
    2 * (spansUpTo n l).length = l * (2 * n - l + 1) := by
  induction l with
  | zero => simp [spansUpTo]
  | succ l ih =>
    obtain ⟨d, rfl⟩ := Nat.exists_eq_add_of_le h
    have h1 : 2 * (l + 1 + d) - l + 1 = l + 2 * d + 3 := by omega
    have h2 : 2 * (l + 1 + d) - (l + 1) + 1 = l + 2 * d + 2 := by omega
    have h3 : l + 1 + d - l = d + 1 := by omega
    have ih := ih (by omega)
    rw [h1] at ih
    rw [spansUpTo_succ, List.length_append, List.length_map, List.length_range, h2, h3,
      Nat.mul_add, ih]
    ring

/-- The place of a span follows the places of all shorter spans. -/
theorem index_eq {n i l : Nat} (hl : 1 ≤ l) (h : i + l ≤ n) :
    index n i l = (spansUpTo n (l - 1)).length + i := by
  have hlen := two_mul_length_spansUpTo (n := n) (l := l - 1) (by omega)
  have hsub : 2 * n - l + 2 = 2 * n - (l - 1) + 1 := by omega
  rw [index, hsub, ← hlen, Nat.mul_div_cancel_left _ (by omega)]

theorem spansUpTo_mono (n : Nat) {k l : Nat} (h : k ≤ l) : spansUpTo n k <+: spansUpTo n l := by
  induction l, h using Nat.le_induction with
  | base => exact List.prefix_refl _
  | succ l _ ih => exact ih.trans (spansUpTo_succ n l ▸ List.prefix_append _ _)

theorem spans_index {n i l : Nat} (hl : 1 ≤ l) (h : i + l ≤ n) :
    (spans n)[index n i l]? = some (i, l) := by
  obtain ⟨k, rfl⟩ : ∃ k, l = k + 1 := ⟨l - 1, by omega⟩
  have hp : spansUpTo n (k + 1) <+: spans n := spansUpTo_mono n (by omega)
  have hrow : (spansUpTo n (k + 1))[index n i (k + 1)]? = some (i, k + 1) := by
    rw [index_eq hl h, spansUpTo_succ, Nat.add_sub_cancel,
      List.getElem?_append_right (Nat.le_add_right _ _), Nat.add_sub_cancel_left,
      List.getElem?_map, List.getElem?_range (by omega)]
    rfl
  obtain ⟨hlt, hval⟩ := List.getElem?_eq_some_iff.1 hrow
  rw [List.prefix_iff_getElem?.1 hp _ hlt, hval]

/-- Shorter spans are stored before longer ones. -/
theorem index_lt_index {n i j k l : Nat} (hk : 1 ≤ k) (hkl : k < l) (hj : j + k ≤ n)
    (hi : i + l ≤ n) : index n j k < index n i l := by
  obtain ⟨m, rfl⟩ : ∃ m, k = m + 1 := ⟨k - 1, by omega⟩
  rw [index_eq hk hj, index_eq (by omega) hi, Nat.add_sub_cancel]
  have hlen := (spansUpTo_mono n (show m + 1 ≤ l - 1 by omega)).length_le
  rw [spansUpTo_succ, List.length_append, List.length_map, List.length_range] at hlen
  omega

theorem mem_spans {n i l : Nat} : (i, l) ∈ spans n ↔ 1 ≤ l ∧ i + l ≤ n := by
  simp only [spans, List.mem_flatMap, List.mem_range'_1, List.mem_map, List.mem_range,
    Prod.mk.injEq]
  constructor
  · rintro ⟨l', hl', i', hi', rfl, rfl⟩
    omega
  · rintro ⟨hl, h⟩
    exact ⟨l, by omega, i, by omega, rfl, rfl⟩

theorem two_mul_length_spans (n : Nat) : 2 * (spans n).length = n * (n + 1) := by
  have hlen := two_mul_length_spansUpTo (le_refl n)
  rwa [show 2 * n - n + 1 = n + 1 by omega] at hlen

theorem length_spans (n : Nat) : (spans n).length = n * (n + 1) / 2 := by
  rw [← two_mul_length_spans, Nat.mul_div_cancel_left _ (by omega)]

theorem index_lt {n i l : Nat} (hl : 1 ≤ l) (h : i + l ≤ n) : index n i l < n * (n + 1) / 2 := by
  rw [← length_spans]
  exact (List.getElem?_eq_some_iff.1 (spans_index hl h)).1

theorem nodup_spans (n : Nat) : (spans n).Nodup := by
  rw [spans, List.Nodup, List.pairwise_flatMap]
  constructor
  · intro l _
    exact List.pairwise_map.2 (List.nodup_range.imp fun hij h => hij (Prod.mk.inj h).1)
  · refine (List.nodup_range' 1).imp fun {k l} hkl s hs t ht hst => ?_
    obtain ⟨i, -, rfl⟩ := List.mem_map.1 hs
    obtain ⟨j, -, rfl⟩ := List.mem_map.1 ht
    exact hkl (Prod.mk.inj hst).2

/-- A span is stored at its place only. -/
theorem index_of_getElem? {n k i l : Nat} (h : (spans n)[k]? = some (i, l)) : index n i l = k := by
  obtain ⟨hl, hil⟩ := mem_spans.1 (List.mem_of_getElem? h)
  have hplace := spans_index hl hil
  exact (List.getElem?_inj (List.getElem?_eq_some_iff.1 hplace).1 (nodup_spans n)).1
    (hplace.trans h.symm)

theorem place?_eq (n i l : Nat) :
    place? n i l = if 1 ≤ l ∧ i + l ≤ n then some (index n i l) else none := by
  by_cases h : 1 ≤ l ∧ i + l ≤ n
  · have hrest : l ≤ 2 * n := by omega
    have heven : 2 ∣ (l - 1) * (2 * n - l + 2) := by
      have hlen := two_mul_length_spansUpTo (n := n) (l := l - 1) (by omega)
      rw [show 2 * n - (l - 1) + 1 = 2 * n - l + 2 by omega] at hlen
      exact Dvd.intro _ hlen
    simp only [place?, if_pos h, minus?, if_pos h.1, if_pos hrest, half?, Option.bind_eq_bind,
      Option.bind_some, if_pos heven]
    rfl
  · rw [place?, if_neg h, if_neg h]

theorem bijOn_index (n : Nat) : Set.BijOn (fun s : Nat × Nat => index n s.1 s.2)
    {s | 1 ≤ s.2 ∧ s.1 + s.2 ≤ n} (Set.Iio (n * (n + 1) / 2)) := by
  refine ⟨fun s hs => index_lt hs.1 hs.2, fun s hs t ht hst => ?_, fun k hk => ?_⟩
  · have hplace : (spans n)[index n s.1 s.2]? = some t := by
      rw [show index n s.1 s.2 = index n t.1 t.2 from hst]
      exact spans_index ht.1 ht.2
    exact Option.some.inj ((spans_index hs.1 hs.2).symm.trans hplace)
  · have hget : (spans n)[k]? = some _ := List.getElem?_eq_getElem ((length_spans n).symm ▸ hk)
    exact ⟨_, mem_spans.1 (List.mem_of_getElem? hget), index_of_getElem? hget⟩

theorem index_lt_index_iff {n i j k l : Nat} (hk : 1 ≤ k) (hi : i + k ≤ n) (hl : 1 ≤ l)
    (hj : j + l ≤ n) : index n i k < index n j l ↔ k < l ∨ k = l ∧ i < j := by
  rcases Nat.lt_trichotomy k l with hkl | rfl | hkl
  · have := index_lt_index hk hkl hi hj
    omega
  · rw [index_eq hk hi, index_eq hk hj]
    omega
  · have := index_lt_index hl hkl hj hi
    omega

theorem exact_storage (n : Nat) : Exact n where
  size := if_pos (Dvd.intro _ (two_mul_length_spans n))
  computed := place?_eq n
  bijective := bijOn_index n
  ordered _ _ _ _ hk hi hl hj := index_lt_index_iff hk hi hl hj

example : (spans 3).map (fun s => place? 3 s.1 s.2) = (List.range 6).map some ∧
    place? 3 1 3 = none := by decide

end ContextFree.Triangle

namespace ContextFree

/-- A pass that appends what it makes of each element has one result for each. -/
theorem size_foldl_push {α β : Type} (f : Array β → α → β) (l : List α) :
    (l.foldl (fun acc x => acc.push (f acc x)) #[]).size = l.length := by
  induction l using List.reverseRecOn with
  | nil => rfl
  | append_singleton l y ih =>
    rw [List.foldl_append, List.foldl_cons, List.foldl_nil, Array.size_push, ih,
      List.length_append, List.length_singleton]

/-- In a pass that appends what it makes of each element and of what there is so far, every
result is made of the results before it. -/
theorem getElem?_foldl_push {α β : Type} (f : Array β → α → β) (l : List α) {k : Nat} {x : α}
    (h : l[k]? = some x) :
    let r := l.foldl (fun acc x => acc.push (f acc x)) #[]
    ∃ acc, (∀ j < k, acc[j]? = r[j]?) ∧ r[k]? = some (f acc x) := by
  induction l using List.reverseRecOn with
  | nil => simp at h
  | append_singleton l y ih =>
    simp only [List.foldl_append, List.foldl_cons, List.foldl_nil]
    rcases Nat.lt_trichotomy k l.length with hk | rfl | hk
    · rw [List.getElem?_append_left hk] at h
      obtain ⟨acc, hacc, hr⟩ := ih h
      refine ⟨acc, fun j hj => ?_, ?_⟩
      · rw [Array.getElem?_push, if_neg (by rw [size_foldl_push]; omega)]
        exact hacc j hj
      · rw [Array.getElem?_push, if_neg (by rw [size_foldl_push]; omega)]
        exact hr
    · rw [List.getElem?_concat_length, Option.some.injEq] at h
      refine ⟨l.foldl (fun acc x => acc.push (f acc x)) #[], fun j hj => ?_, ?_⟩
      · rw [Array.getElem?_push, if_neg (by rw [size_foldl_push]; omega)]
      · rw [← h, Array.getElem?_push, if_pos (size_foldl_push f l).symm]
    · rw [List.getElem?_eq_none (by simp; omega)] at h
      simp at h

end ContextFree
