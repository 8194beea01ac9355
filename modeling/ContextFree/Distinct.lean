/-! First occurrences: a list without the elements whose key occurred before. -/
namespace ContextFree

variable {α κ : Type} [DecidableEq κ]

/-- Keeps an element if no element before it has its key. -/
def distinctBy (key : α → κ) : List α → List α
  | [] => []
  | a :: l => a :: (distinctBy key l).filter (key · ≠ key a)

theorem distinctBy_sublist (key : α → κ) (l : List α) : (distinctBy key l).Sublist l := by
  induction l with
  | nil => exact .slnil
  | cons a l ih => exact (List.filter_sublist.trans ih).cons_cons a

/-- No key is lost. -/
@[simp] theorem mem_map_distinctBy {key : α → κ} {l : List α} {k : κ} :
    k ∈ (distinctBy key l).map key ↔ k ∈ l.map key := by
  induction l with
  | nil => rfl
  | cons a l ih =>
    by_cases h : k = key a
    · simp [distinctBy, h]
    · simp only [distinctBy, List.map_cons, List.mem_cons, h, false_or]
      rw [← ih]
      simp only [List.mem_map, List.mem_filter, decide_eq_true_eq]
      constructor
      · rintro ⟨b, ⟨hb, _⟩, rfl⟩; exact ⟨b, hb, rfl⟩
      · rintro ⟨b, hb, rfl⟩; exact ⟨b, ⟨hb, h⟩, rfl⟩

/-- No key is left twice. -/
theorem nodup_map_distinctBy (key : α → κ) (l : List α) : ((distinctBy key l).map key).Nodup := by
  induction l with
  | nil => exact List.nodup_nil
  | cons a l ih =>
    rw [distinctBy, List.map_cons, List.nodup_cons]
    refine ⟨?_, ih.sublist (List.filter_sublist.map key)⟩
    simp only [List.mem_map, List.mem_filter, decide_eq_true_eq, not_exists, not_and]
    rintro b ⟨_, hb⟩
    exact hb

/-- First occurrences of the elements themselves. -/
def distinct (l : List κ) : List κ := distinctBy id l

@[simp] theorem mem_distinct {l : List κ} {k : κ} : k ∈ distinct l ↔ k ∈ l := by
  have h : k ∈ (distinctBy id l).map id ↔ k ∈ l.map id := mem_map_distinctBy
  simpa only [distinct, List.map_id] using h

theorem nodup_distinct (l : List κ) : (distinct l).Nodup := by
  have h := nodup_map_distinctBy id l
  simpa only [distinct, List.map_id] using h

example : distinct [3, 1, 3, 2, 1] = [3, 1, 2] := by decide

/-- Taking out a member shortens a list: the measure of searches that meet nothing twice. -/
theorem length_erase_lt {l : List κ} {a : κ} (h : a ∈ l) : (l.erase a).length < l.length := by
  rw [List.length_erase_of_mem h]
  have := List.length_pos_of_mem h
  omega

end ContextFree
