import ContextFree.Register
import ContextFree.Saturation
import Mathlib.Data.List.Nodup

/-! Fixed points of passes over a list. Each element of the list may enter something into a
register; when the passes are over, no element would enter anything more. -/
namespace ContextFree

variable {κ α β : Type} [DecidableEq κ] [Coded κ] {key : α → κ}

namespace Register

theorem length_toList (r : Register key) : r.toList.length = r.size := by simp [toList, size]

theorem prefix_enter (r : Register key) (a : α) : r.toList <+: (r.enter a).toList := by
  rw [toList_enter]
  split
  · exact List.prefix_refl _
  · exact List.prefix_append _ _

theorem nodup_enter {r : Register key} (h : (r.toList.map key).Nodup) (a : α) :
    ((r.enter a).toList.map key).Nodup := by
  rw [toList_enter]
  split
  · exact h
  · rename_i ha
    rw [List.map_append]
    exact h.append (List.nodup_singleton _) (by simpa using ha)

section Pass
variable {step : Register key → β → Register key}

theorem prefix_foldl (hstep : ∀ r b, r.toList <+: (step r b).toList) (l : List β)
    (r : Register key) : r.toList <+: (l.foldl step r).toList := by
  induction l generalizing r with
  | nil => exact List.prefix_refl _
  | cons b l ih => exact (hstep r b).trans (ih _)

/-- If a pass enters nothing, none of its steps does. -/
theorem step_of_foldl_eq (hstep : ∀ r b, r.toList <+: (step r b).toList) {l : List β}
    {r : Register key} (h : (l.foldl step r).toList = r.toList) :
    ∀ b ∈ l, ∃ s, s.toList = r.toList ∧ (step s b).toList = r.toList := by
  induction l generalizing r with
  | nil => simp
  | cons c l ih =>
    have hc : (step r c).toList = r.toList := by
      have hle := (prefix_foldl hstep l (step r c)).length_le
      rw [← List.foldl_cons, h] at hle
      exact ((hstep r c).eq_of_length_le hle).symm
    intro b hb
    rcases List.mem_cons.1 hb with rfl | hb
    · exact ⟨r, rfl, hc⟩
    · rw [← hc]
      exact ih (by rw [← List.foldl_cons, h, hc]) b hb

/-- What passes preserve holds of what they saturate, and no step enters anything into it. -/
theorem saturate_spec (step : Register key → β → Register key) {P : Register key → Prop}
    {bound : Nat} (fuel : Nat) {l : List β}
    (hstep : ∀ r b, r.toList <+: (step r b).toList) (hP : ∀ r, ∀ b ∈ l, P r → P (step r b))
    (small : ∀ r, P r → r.size ≤ bound) {r : Register key} (hr : P r)
    (enough : bound ≤ r.size + fuel) :
    let s := saturate size (l.foldl step) fuel r
    P s ∧ r.toList <+: s.toList ∧
      ∀ b ∈ l, ∃ u, u.toList = s.toList ∧ (step u b).toList = s.toList := by
  intro s
  have keep (r : Register key) (h : P r) : P (l.foldl step r) := by
    suffices ∀ m : List β, m ⊆ l → ∀ r, P r → P (m.foldl step r) from
      this l (List.Subset.refl l) r h
    intro m
    induction m with
    | nil => exact fun _ r h => h
    | cons b m ih =>
      exact fun hm r h => ih (List.cons_subset.1 hm).2 _ (hP r b (List.cons_subset.1 hm).1 h)
  have grow (r : Register key) : r.size ≤ (l.foldl step r).size := by
    rw [← length_toList, ← length_toList]
    exact (prefix_foldl hstep l r).length_le
  have hsize : (l.foldl step s).size = s.size :=
    size_round_saturate keep (fun r _ => grow r) small fuel hr enough
  have hpre : r.toList <+: s.toList :=
    saturate_induction (P := fun s => r.toList <+: s.toList)
      (fun s h => h.trans (prefix_foldl hstep l s)) fuel (List.prefix_refl _)
  refine ⟨saturate_induction keep fuel hr, hpre, step_of_foldl_eq hstep ?_⟩
  rw [← length_toList, ← length_toList] at hsize
  exact ((prefix_foldl hstep l s).eq_of_length hsize.symm).symm

end Pass

end Register
end ContextFree
