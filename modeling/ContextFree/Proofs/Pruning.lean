import ContextFree.NormalForm.Prune
import ContextFree.Proofs.Fixpoint

/-! Pruning keeps exactly the rules of use. What the passes find is the least set that is closed
under the rules: non-terminals all of whose references are found, from below, and references of
what is found, from the start on. -/
namespace ContextFree

theorem length_flatMap_references {ν τ : Type} (rules : List (Rule ν τ)) :
    (rules.flatMap Rule.references).length ≤ 2 * rules.length := by
  induction rules with
  | nil => simp
  | cons r rules ih =>
    have : r.references.length ≤ 2 := by
      rw [Rule.references]
      split <;> simp
    rw [List.flatMap_cons, List.length_append, List.length_cons]
    omega

theorem Rule.references_of_pair {ν τ : Type} {r : Rule ν τ} {b c : ν} (h : r.body = .pair b c) :
    r.references = [b, c] := by rw [references, h]

/-- The references of a pair are its two sides, also under other names. -/
theorem Rule.references_map_of_pair {ν τ ν' τ' : Type} {r : Rule ν τ} {b c : ν}
    (h : r.body = .pair b c) (f : ν → ν') (g : τ → τ') : (r.map f g).references = [f b, f c] := by
  simp [references, Rule.map, h]

variable {ν τ : Type} [DecidableEq ν] [Coded ν]

/-- The non-terminals that derive a sequence of terminals by rules. -/
inductive Generating (rules : List (Rule ν τ)) : ν → Prop
  | rule {r : Rule ν τ} (hr : r ∈ rules) (h : ∀ n ∈ r.references, Generating rules n) :
    Generating rules r.lhs

/-- The non-terminals that occur in what a start derives by rules. -/
inductive Reached (start : ν) (rules : List (Rule ν τ)) : ν → Prop
  | start : Reached start rules start
  | rule {r : Rule ν τ} {n : ν} (hr : r ∈ rules) (h : Reached start rules r.lhs)
    (hn : n ∈ r.references) : Reached start rules n

theorem productive_iff {found : Roster ν} {r : Rule ν τ} :
    r.productive found = true ↔ ∀ n ∈ r.references, n ∈ found.toList := by
  rw [Rule.productive, Rule.references]
  split
  · simp
  · simp

theorem Register.prefix_enterAll {κ α : Type} [DecidableEq κ] [Coded κ] {key : α → κ}
    (r : Register key) (l : List α) : r.toList <+: (r.enterAll l).toList :=
  prefix_foldl prefix_enter l r

theorem Roster.mem_enterAll {r : Roster ν} {l : List ν} {n : ν} :
    n ∈ (r.enterAll l).toList ↔ n ∈ r.toList ∨ n ∈ l := by
  have h : n ∈ (distinctBy id l).map id ↔ n ∈ l.map id := mem_map_distinctBy
  simp only [List.map_id] at h
  rw [Register.toList_enterAll, List.mem_append, List.mem_filter, h]
  by_cases hn : n ∈ r.toList <;> simp [hn]

/-- What passes keep: everything is found once, is one of the candidates, and has a property. -/
structure Gathered (all : List ν) (Q : ν → Prop) (s : Roster ν) : Prop where
  nodup : s.toList.Nodup
  subset : s.toList ⊆ all
  holds : ∀ n ∈ s.toList, Q n

namespace Gathered
variable {all : List ν} {Q : ν → Prop} {s : Roster ν}

theorem empty : Gathered all Q Register.empty := ⟨by simp, by simp, by simp⟩

theorem enter (h : Gathered all Q s) {n : ν} (hn : n ∈ all) (hQ : Q n) :
    Gathered all Q (s.enter n) := by
  have hnodup : ((s.enter n).toList.map id).Nodup :=
    Register.nodup_enter (by rw [List.map_id]; exact h.nodup) n
  rw [List.map_id] at hnodup
  refine ⟨hnodup, ?_, ?_⟩
  all_goals
    rw [Roster.toList_enter]
    split
  · exact h.subset
  · exact List.append_subset.2 ⟨h.subset, by simpa using hn⟩
  · exact h.holds
  · intro m hm
    rcases List.mem_append.1 hm with hm | hm
    · exact h.holds m hm
    · exact List.mem_singleton.1 hm ▸ hQ

theorem enterAll (h : Gathered all Q s) {l : List ν} (hl : l ⊆ all) (hQ : ∀ n ∈ l, Q n) :
    Gathered all Q (s.enterAll l) := by
  induction l generalizing s with
  | nil => exact h
  | cons n l ih =>
    obtain ⟨hn, hl⟩ := List.cons_subset.1 hl
    exact ih (h.enter hn (hQ n (.head _))) hl fun m hm => hQ m (.tail _ hm)

theorem size_le (h : Gathered all Q s) : s.size ≤ all.length := by
  rw [← Register.length_toList]
  exact h.nodup.length_le_of_subset h.subset

end Gathered

theorem mem_generating {rules : List (Rule ν τ)} {n : ν} :
    n ∈ (generating rules).toList ↔ Generating rules n := by
  obtain ⟨hfound, -, hfix⟩ := Register.saturate_spec
    (fun (found : Roster ν) (r : Rule ν τ) =>
      if r.productive found then found.enter r.lhs else found)
    (P := Gathered (rules.map (·.lhs)) (Generating rules)) rules.length (l := rules)
    (fun s r => by
      split
      · exact Register.prefix_enter s _
      · exact List.prefix_refl _)
    (fun s r hr h => by
      split
      · rename_i hp
        refine h.enter (List.mem_map_of_mem hr) (.rule hr fun n hn => ?_)
        exact h.holds n (productive_iff.1 hp n hn)
      · exact h)
    (fun s h => by simpa using h.size_le) Gathered.empty (by omega)
  refine ⟨hfound.holds n, fun h => ?_⟩
  induction h with
  | @rule r hr _ ih =>
    obtain ⟨u, hu, hstep⟩ := hfix r hr
    rw [if_pos (productive_iff.2 fun n hn => hu ▸ ih n hn), Roster.toList_enter] at hstep
    rw [generating, ← hstep]
    split
    · assumption
    · simp

theorem mem_reachable {start : ν} {rules : List (Rule ν τ)} {n : ν} :
    n ∈ (reachable start rules).toList ↔ Reached start rules n := by
  obtain ⟨hfound, hpre, hfix⟩ := Register.saturate_spec
    (fun (found : Roster ν) (r : Rule ν τ) =>
      if found.has r.lhs then found.enterAll r.references else found)
    (P := Gathered (start :: rules.flatMap Rule.references) (Reached start rules))
    (2 * rules.length + 1) (l := rules)
    (fun s r => by
      split
      · exact Register.prefix_enterAll s _
      · exact List.prefix_refl _)
    (fun s r hr h => by
      split
      · rename_i hlhs
        have hreach := h.holds _ (Roster.has_iff.1 hlhs)
        exact h.enterAll (fun n hn => .tail _ (List.mem_flatMap.2 ⟨r, hr, hn⟩))
          fun n hn => .rule hr hreach hn
      · exact h)
    (fun s h => Nat.le_trans h.size_le (Nat.succ_le_succ (length_flatMap_references rules)))
    (Gathered.empty.enter (.head _) .start) (by omega)
  refine ⟨hfound.holds n, fun h => ?_⟩
  induction h with
  | start =>
    apply hpre.subset
    simp [Roster.toList_enter]
  | @rule r n hr _ hn ih =>
    obtain ⟨u, hu, hstep⟩ := hfix r hr
    rw [if_pos (Roster.has_iff.2 (hu ▸ ih))] at hstep
    rw [reachable, ← hstep]
    exact Roster.mem_enterAll.2 (.inr hn)

theorem mem_filter_productive {rules : List (Rule ν τ)} {r : Rule ν τ} :
    r ∈ rules.filter (Rule.productive (generating rules)) ↔
      r ∈ rules ∧ ∀ n ∈ r.references, Generating rules n := by
  rw [List.mem_filter, productive_iff]
  simp only [mem_generating]

/-- A rule is kept if all its references generate and the start reaches it by such rules. -/
theorem mem_prune {start : ν} {rules : List (Rule ν τ)} {r : Rule ν τ} :
    r ∈ prune start rules ↔ r ∈ rules ∧ (∀ n ∈ r.references, Generating rules n) ∧
      Reached start (rules.filter (Rule.productive (generating rules))) r.lhs := by
  rw [prune, List.mem_filter, Roster.has_iff, mem_reachable, mem_filter_productive, and_assoc]

/-- What the start reaches by rules of use, it reaches by the rules that are left. -/
theorem reached_prune {start : ν} {rules : List (Rule ν τ)} {n : ν}
    (h : Reached start (rules.filter (Rule.productive (generating rules))) n) :
    Reached start (prune start rules) n := by
  induction h with
  | start => exact .start
  | rule hr hreach hn ih =>
    obtain ⟨hr, hgen⟩ := mem_filter_productive.1 hr
    exact .rule (mem_prune.2 ⟨hr, hgen, hreach⟩) ih hn

/-- What the rules that are left refer to has such a rule itself. -/
theorem exists_rule_of_reference {start : ν} {rules : List (Rule ν τ)} {r : Rule ν τ} {n : ν}
    (hr : r ∈ prune start rules) (hn : n ∈ r.references) :
    ∃ s ∈ prune start rules, s.lhs = n := by
  obtain ⟨hr, hgen, hreach⟩ := mem_prune.1 hr
  have hnreach := Reached.rule (mem_filter_productive.2 ⟨hr, hgen⟩) hreach hn
  cases hgen n hn with
  | rule hs hsgen => exact ⟨_, mem_prune.2 ⟨hs, hsgen, hnreach⟩, rfl⟩

end ContextFree
