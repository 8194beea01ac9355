import ContextFree.Proofs.Boundaries

/-! Rendered parse trees. To render a tree is to read the pieces of the word that its leaves take
and to write the tree of these pieces; it fails just if one of them cannot be read. -/
namespace ContextFree

namespace SyntaxTree
variable {κ ι ι' ε : Type}

theorem textAll_eq (key : κ → String) (piece : ι → String) (ts : List (SyntaxTree κ ι)) :
    textAll key piece ts = " ".intercalate (ts.map (text key piece)) := by
  induction ts with
  | nil => rfl
  | cons t ts ih =>
    cases ts with
    | nil => rw [textAll, List.map_singleton, String.intercalate_singleton]
    | cons t' ts => rw [textAll, ih, List.map_cons, List.map_cons, List.map_cons,
        String.intercalate_cons_cons]

mutual
/-- Where no leaf fails, leaves are replaced as by a function that never does. -/
theorem traverseLeaves_eq_ok {g : ι → Except ε ι'} {f : ι → ι'} : (t : SyntaxTree κ ι) →
    (∀ p ∈ t.leaves, g p = .ok (f p)) → t.traverseLeaves g = .ok (t.mapLeaves f)
  | .leaf p, h => by
    rw [traverseLeaves, h p (.head _)]
    rfl
  | .node k ts, h => by
    rw [traverseLeaves, traverseAll_eq_ok ts h]
    rfl
theorem traverseAll_eq_ok {g : ι → Except ε ι'} {f : ι → ι'} : (ts : List (SyntaxTree κ ι)) →
    (∀ p ∈ leavesOf ts, g p = .ok (f p)) → traverseAll g ts = .ok (mapAll id f ts)
  | [], _ => rfl
  | t :: ts, h => by
    rw [traverseAll, traverseLeaves_eq_ok t fun p hp => h p (List.mem_append_left _ hp),
      traverseAll_eq_ok ts fun p hp => h p (List.mem_append_right _ hp)]
    rfl
end

mutual
theorem exists_of_traverseLeaves {g : ι → Except ε ι'} : (t : SyntaxTree κ ι) →
    (s : SyntaxTree κ ι') → t.traverseLeaves g = .ok s → ∀ p ∈ t.leaves, ∃ q, g p = .ok q
  | .leaf p, s, h => by
    rw [traverseLeaves] at h
    cases hp : g p with
    | error e => simp [hp, bind, Except.bind] at h
    | ok q => simpa [leaves] using ⟨q, hp⟩
  | .node k ts, s, h => by
    rw [traverseLeaves] at h
    cases hts : traverseAll g ts with
    | error e => simp [hts, bind, Except.bind] at h
    | ok us => exact exists_of_traverseAll ts us hts
theorem exists_of_traverseAll {g : ι → Except ε ι'} : (ts : List (SyntaxTree κ ι)) →
    (us : List (SyntaxTree κ ι')) → traverseAll g ts = .ok us →
      ∀ p ∈ leavesOf ts, ∃ q, g p = .ok q
  | [], _, _ => nofun
  | t :: ts, us, h => by
    rw [traverseAll] at h
    cases ht : t.traverseLeaves g with
    | error e => simp [ht, bind, Except.bind] at h
    | ok t' =>
      cases hts : traverseAll g ts with
      | error e => simp [ht, hts, bind, Except.bind] at h
      | ok ts' =>
        intro p hp
        rcases List.mem_append.1 hp with hp | hp
        · exact exists_of_traverseLeaves t t' ht p hp
        · exact exists_of_traverseAll ts ts' hts p hp
end

end SyntaxTree

namespace ParseTree
open SyntaxTree

mutual
/-- To render a tree is to read the pieces and to write the tree of them. -/
theorem rendered_eq (w : String) : (t : ParseTree) →
    t.rendered w = (t.pieces w).map (SyntaxTree.text id Text.quoted)
  | .leaf s => by
    rw [rendered, pieces, traverseLeaves]
    cases s.slice w <;> rfl
  | .node k ts => by
    rw [rendered, pieces, traverseLeaves, renderedAll_eq w ts]
    cases traverseAll (Span.slice · w) ts with
    | error e => rfl
    | ok us => exact congrArg (fun s => Except.ok (k ++ "(" ++ s ++ ")")) (textAll_eq _ _ us).symm
theorem renderedAll_eq (w : String) : (ts : List ParseTree) →
    renderedAll w ts =
      (traverseAll (Span.slice · w) ts).map (List.map (SyntaxTree.text id Text.quoted))
  | [] => rfl
  | t :: ts => by
    rw [renderedAll, traverseAll, rendered_eq w t, renderedAll_eq w ts, pieces]
    cases t.traverseLeaves (Span.slice · w) with
    | error e => rfl
    | ok u => cases traverseAll (Span.slice · w) ts <;> rfl
end

variable {t : ParseTree} {w : String}

theorem exists_pieces_eq (h : ∀ s ∈ t.leaves, s.IsSlice w) :
    ∃ read : Span → String, (∀ s ∈ t.leaves, s.slice w = .ok (read s)) ∧
      t.pieces w = .ok (t.mapLeaves read) := by
  -- what is read away from the leaves does not matter
  have hread : ∀ s : Span, ∃ text, s ∈ t.leaves → s.slice w = .ok text := by
    intro s
    by_cases hs : s ∈ t.leaves
    · obtain ⟨text, htext⟩ := Span.isSlice_iff.1 (h s hs)
      exact ⟨text, fun _ => htext⟩
    · exact ⟨"", fun hs' => absurd hs' hs⟩
  choose read hread using hread
  exact ⟨read, hread, traverseLeaves_eq_ok t hread⟩

/-- A tree can be rendered just if all its leaves can be read. -/
theorem exists_rendered_iff :
    (∃ text, t.rendered w = .ok text) ↔ ∀ s ∈ t.leaves, s.IsSlice w := by
  rw [rendered_eq]
  constructor
  · rintro ⟨text, htext⟩ s hs
    cases hpieces : t.pieces w with
    | error e => simp [hpieces, Except.map] at htext
    | ok u => exact Span.isSlice_iff.2 (exists_of_traverseLeaves t u hpieces s hs)
  · intro h
    obtain ⟨read, -, hpieces⟩ := exists_pieces_eq h
    exact ⟨_, by rw [hpieces, Except.map]⟩

/-- A tree whose leaves can all be read is rendered as the text of the tree with the pieces of the
word in place of their ranges. -/
theorem rendered_eq_text (h : ∀ s ∈ t.leaves, s.IsSlice w) :
    ∃ read : Span → String, (∀ s ∈ t.leaves, s.slice w = .ok (read s)) ∧
      t.pieces w = .ok (t.mapLeaves read) ∧
      t.rendered w = .ok ((t.mapLeaves read).text id Text.quoted) := by
  obtain ⟨read, hread, hpieces⟩ := exists_pieces_eq h
  exact ⟨read, hread, hpieces, by rw [rendered_eq, hpieces, Except.map]⟩

/-- Parts of `éa`, with an empty leaf and a node without children. -/
def bits : ParseTree :=
  .node "S" [.leaf ⟨0, 2⟩, .node "T" [], .leaf ⟨2, 2⟩, .node "U" [.node "V" [.leaf ⟨2, 3⟩]]]

theorem rendered_eq_text_bits :
    (∀ s ∈ bits.leaves, s.IsSlice "éa") ∧
      ∃ read : Span → String, (read ⟨0, 2⟩ = "é" ∧ read ⟨2, 2⟩ = "" ∧ read ⟨2, 3⟩ = "a") ∧
        bits.rendered "éa" = .ok ((bits.mapLeaves read).text id Text.quoted) ∧
        (bits.mapLeaves read).text id Text.quoted = "S(\"é\" T() \"\" U(V(\"a\")))" := by
  have hslices : ∀ s ∈ bits.leaves, s.IsSlice "éa" := by decide +kernel
  obtain ⟨read, hread, -, hrendered⟩ := rendered_eq_text hslices
  have hpiece {s : Span} {piece : String} (hs : s ∈ bits.leaves)
      (hslice : s.slice "éa" = .ok piece) : read s = piece :=
    Except.ok.inj ((hread s hs).symm.trans hslice)
  have hé : read ⟨0, 2⟩ = "é" := hpiece (by decide) (by decide +kernel)
  have hempty : read ⟨2, 2⟩ = "" := hpiece (by decide) (by decide +kernel)
  have ha : read ⟨2, 3⟩ = "a" := hpiece (by decide) (by decide +kernel)
  refine ⟨hslices, read, ⟨hé, hempty, ha⟩, hrendered, ?_⟩
  simp only [bits, mapLeaves, map, mapAll, text, textAll, hé, hempty, ha]
  decide +kernel

end ParseTree
end ContextFree
