import ContextFree.Derivation
import ContextFree.Proofs.Boundaries
import Mathlib.Order.WellFounded

/-! Acyclic derivations. What stands above a tree matters only as far as it could stand inside it,
and wherever there is a derivation there is an acyclic one: a smallest one. Derivations lead from
boundary to boundary, and their leaves lie side by side. -/
namespace ContextFree

variable {g : Grammar} {w : String}

section Derivations
variable [Pattern.Engine]

section Shape
variable {above : List (String × Nat × Nat)} {a b c : Nat}

theorem derivesAcyclic_term {t : Terminal} {s : ParseTree} :
    DerivesAcyclic g w above (.term t) a b s ↔ t.Takes w a b ∧ s = .leaf ⟨a, b⟩ := by
  constructor
  · intro h
    cases h with
    | term h => exact ⟨h, rfl⟩
  · rintro ⟨h, rfl⟩
    exact .term h

theorem derivesAcyclic_nonterm {name : String} {s : ParseTree} :
    DerivesAcyclic g w above (.nonterm name) a b s ↔ (name, a, b) ∉ above ∧
      ∃ p ∈ g.productions, p.lhs = name ∧ ∃ ts, s = .node name ts ∧
        DerivesAllAcyclic g w ((name, a, b) :: above) p.rhs a b ts := by
  constructor
  · intro h
    cases h with
    | node hp hn h => exact ⟨hn, _, hp, rfl, _, rfl, h⟩
  · rintro ⟨hn, p, hp, rfl, ts, rfl, h⟩
    exact .node hp hn h

theorem derivesAllAcyclic_nil {ts : List ParseTree} :
    DerivesAllAcyclic g w above [] a b ts ↔ a = b ∧ ts = [] := by
  constructor
  · intro h
    cases h
    exact ⟨rfl, rfl⟩
  · rintro ⟨rfl, rfl⟩
    exact .nil

theorem derivesAllAcyclic_cons {x : Symbol} {xs : List Symbol} {ts : List ParseTree} :
    DerivesAllAcyclic g w above (x :: xs) a c ts ↔ ∃ b t us, ts = t :: us ∧
      DerivesAcyclic g w above x a b t ∧ DerivesAllAcyclic g w above xs b c us := by
  constructor
  · intro h
    cases h with
    | cons h hs => exact ⟨_, _, _, rfl, h, hs⟩
  · rintro ⟨b, t, us, rfl, h, hs⟩
    exact .cons h hs

end Shape

mutual
/-- Of what stands above a tree only that counts which could stand inside it. -/
theorem DerivesAcyclic.frame {above above' : List (String × Nat × Nat)} {x : Symbol} {a b : Nat}
    {t : ParseTree} (hsub : ∀ n c d, a ≤ c → d ≤ b → (n, c, d) ∈ above' → (n, c, d) ∈ above) :
    DerivesAcyclic g w above x a b t → DerivesAcyclic g w above' x a b t
  | .term h => .term h
  | .node hp hn h => by
    refine .node hp (fun hm => hn (hsub _ _ _ (Nat.le_refl _) (Nat.le_refl _) hm)) (h.frame ?_)
    intro n c d hc hd hm
    rcases List.mem_cons.1 hm with he | hm
    · exact he ▸ List.mem_cons_self
    · exact .tail _ (hsub n c d hc hd hm)
theorem DerivesAllAcyclic.frame {above above' : List (String × Nat × Nat)} {xs : List Symbol}
    {a b : Nat} {ts : List ParseTree}
    (hsub : ∀ n c d, a ≤ c → d ≤ b → (n, c, d) ∈ above' → (n, c, d) ∈ above) :
    DerivesAllAcyclic g w above xs a b ts → DerivesAllAcyclic g w above' xs a b ts
  | .nil => .nil
  | .cons h hs => by
    have hle := h.derives.le
    have hle' := hs.derivesAll.le
    exact .cons (h.frame fun n c d hc hd => hsub n c d hc (by omega))
      (hs.frame fun n c d hc hd => hsub n c d (by omega) hd)
end

/-- A derivation that is smallest for its non-terminal and its offsets. -/
theorem exists_smallest {name : String} {a b : Nat} {t : ParseTree}
    (h : Derives g w (.nonterm name) a b t) :
    ∃ s, Derives g w (.nonterm name) a b s ∧ sizeOf s ≤ sizeOf t ∧
      ∀ u, Derives g w (.nonterm name) a b u → sizeOf s ≤ sizeOf u := by
  obtain ⟨s, hs, hmin⟩ := (measure (sizeOf : ParseTree → Nat)).wf.has_min
    {s | Derives g w (.nonterm name) a b s} ⟨t, h⟩
  exact ⟨s, hs, Nat.not_lt.1 (hmin t h), fun u hu => Nat.not_lt.1 (hmin u hu)⟩

/-- Nothing above a tree can be derived by a tree that is not larger. -/
def Dwarfs (g : Grammar) (w : String) (above : List (String × Nat × Nat)) (n : Nat) : Prop :=
  ∀ e ∈ above, ∀ s, Derives g w (.nonterm e.1) e.2.1 e.2.2 s → n < sizeOf s

/-- The induction is on the size: each node is replaced by a smallest derivation, below which its
non-terminal cannot derive the same bytes again. -/
theorem exists_acyclic_of_size (n : Nat) :
    (∀ above x a b t, sizeOf t ≤ n → Dwarfs g w above (sizeOf t) → Derives g w x a b t →
      ∃ s, DerivesAcyclic g w above x a b s) ∧
    ∀ above xs a b ts, sizeOf ts ≤ n → Dwarfs g w above (sizeOf ts) → DerivesAll g w xs a b ts →
      ∃ ss, DerivesAllAcyclic g w above xs a b ss := by
  induction n with
  | zero =>
    constructor
    · intro _ _ _ _ t hn _ _
      cases t <;> simp at hn
    · intro _ _ _ _ ts hn _ _
      cases ts <;> simp at hn
  | succ n ih =>
    constructor
    · intro above x a b t hn hd h
      cases x with
      | term t' => cases h with | term h => exact ⟨_, .term h⟩
      | nonterm name =>
        obtain ⟨s, hs, hle, hmin⟩ := exists_smallest h
        cases hs with
        | @node p _ _ us hp hu =>
          have hsize : sizeOf us < sizeOf (SyntaxTree.node p.lhs us : ParseTree) := by
            rw [SyntaxTree.node.sizeOf_spec]
            omega
          have hnot : (p.lhs, a, b) ∉ above := fun hm => Nat.lt_irrefl _ (hd _ hm t h)
          have hdwarfs : Dwarfs g w ((p.lhs, a, b) :: above) (sizeOf us) := by
            intro e he u hu
            rcases List.mem_cons.1 he with rfl | he
            · exact hsize.trans_le (hmin u hu)
            · exact (hsize.trans_le hle).trans (hd e he u hu)
          obtain ⟨ss, hss⟩ := ih.2 _ p.rhs a b us (by omega) hdwarfs hu
          exact ⟨_, .node hp hnot hss⟩
    · intro above xs a b ts hn hd h
      cases h with
      | nil => exact ⟨_, .nil⟩
      | @cons x xs _ c _ t ts h hs =>
        simp only [List.cons.sizeOf_spec] at hn hd
        obtain ⟨s, hs'⟩ := ih.1 above x a c t (by omega)
          (fun e he u hu => by have := hd e he u hu; omega) h
        obtain ⟨ss, hss⟩ := ih.2 above xs c b ts (by omega)
          (fun e he u hu => by have := hd e he u hu; omega) hs
        exact ⟨_, .cons hs' hss⟩

/-- What can be derived can be derived without cycles. -/
theorem Derives.exists_acyclic {x : Symbol} {a b : Nat} {t : ParseTree} (h : Derives g w x a b t) :
    ∃ s, DerivesAcyclic g w [] x a b s :=
  (exists_acyclic_of_size (sizeOf t)).1 [] x a b t (Nat.le_refl _) (by simp [Dwarfs]) h

theorem Terminal.Takes.mem_bounds {t : Terminal} {a b : Nat} (h : t.Takes w a b)
    (ha : a ∈ Text.bounds w) : b ∈ Text.bounds w := by
  unfold Takes at h
  split at h
  · exact h ▸ ha
  · exact h.1

mutual
/-- A derivation leads from a boundary to a boundary. -/
theorem Derives.mem_bounds {x : Symbol} {a b : Nat} {t : ParseTree} (ha : a ∈ Text.bounds w) :
    Derives g w x a b t → b ∈ Text.bounds w
  | .term h => h.mem_bounds ha
  | .node _ h => h.mem_bounds ha
theorem DerivesAll.mem_bounds {xs : List Symbol} {a b : Nat} {ts : List ParseTree}
    (ha : a ∈ Text.bounds w) : DerivesAll g w xs a b ts → b ∈ Text.bounds w
  | .nil => ha
  | .cons h hs => hs.mem_bounds (h.mem_bounds ha)
end

end Derivations

/-- Ranges that lie side by side between two offsets, and meet at boundaries. -/
inductive Tiles (w : String) : Nat → Nat → List Span → Prop
  | nil {a : Nat} (ha : a ∈ Text.bounds w) : Tiles w a a []
  | cons {a b c : Nat} {ss : List Span} (ha : a ∈ Text.bounds w) (hab : a ≤ b)
    (hs : Tiles w b c ss) : Tiles w a c (⟨a, b⟩ :: ss)

theorem Tiles.append {a b c : Nat} {ss us : List Span} (hs : Tiles w a b ss)
    (hu : Tiles w b c us) : Tiles w a c (ss ++ us) := by
  induction hs with
  | nil => exact hu
  | cons ha hab _ ih => exact .cons ha hab (ih hu)

theorem Tiles.start_mem {a b : Nat} {ss : List Span} (h : Tiles w a b ss) :
    a ∈ Text.bounds w := by
  cases h <;> assumption

theorem Tiles.stop_mem {a b : Nat} {ss : List Span} (h : Tiles w a b ss) :
    b ∈ Text.bounds w := by
  induction h with
  | nil ha => exact ha
  | cons _ _ _ ih => exact ih

mutual
/-- The leaves of a derivation lie side by side. -/
theorem Derives.tiles [Pattern.Engine] {x : Symbol} {a b : Nat} {t : ParseTree}
    (ha : a ∈ Text.bounds w) : Derives g w x a b t → Tiles w a b t.leaves
  | .term h => .cons ha h.le (.nil (h.mem_bounds ha))
  | .node _ h => h.tiles ha
theorem DerivesAll.tiles [Pattern.Engine] {xs : List Symbol} {a b : Nat} {ts : List ParseTree}
    (ha : a ∈ Text.bounds w) : DerivesAll g w xs a b ts → Tiles w a b (SyntaxTree.leavesOf ts)
  | .nil => .nil ha
  | .cons h hs => (h.tiles ha).append (hs.tiles (h.mem_bounds ha))
end

/-- Ranges that lie side by side spell the text between their ends. -/
theorem Tiles.spell {a b : Nat} {ss : List Span} (h : Tiles w a b ss) :
    ∀ before rest, w.toList = before ++ rest → a = Text.size before →
      ∃ text after pieces, rest = text ++ after ∧ b = Text.size (before ++ text) ∧
        ss.mapM (Span.slice · w) = .ok pieces ∧ String.join pieces = String.ofList text := by
  induction h with
  | nil => exact fun before rest _ ha => ⟨[], rest, [], rfl, by simpa using ha, rfl, rfl⟩
  | @cons a b c ss ha hab hs ih =>
    rintro before rest hw rfl
    obtain ⟨before', after', hw', rfl⟩ := Text.mem_bounds.1 hs.start_mem
    obtain ⟨piece, rfl, rfl⟩ := Text.exists_append_of_size_le (hw.symm.trans hw') hab
    obtain ⟨text, after, pieces, rfl, rfl, hm, hj⟩ := ih (before ++ piece) after' hw' rfl
    have hslice : Span.slice ⟨Text.size before, Text.size (before ++ piece)⟩ w =
        .ok (String.ofList piece) := by
      rw [Span.slice, Text.slice?_append hw']
    refine ⟨piece ++ text, after, String.ofList piece :: pieces, by simp, by simp, ?_, ?_⟩
    · rw [List.mapM_cons, hslice, hm]
      rfl
    · rw [String.join_cons, hj, String.ofList_append]

/-- A tree of a whole word yields the word. -/
theorem ParseTree.yielded_of_tiles {t : ParseTree} (h : Tiles w 0 (Text.size w.toList) t.leaves) :
    t.yielded w = .ok w := by
  obtain ⟨text, after, pieces, hw, hsize, hm, hj⟩ := h.spell [] w.toList rfl rfl
  have hafter : after = [] := Text.size_eq_zero (by
    rw [hw, Text.size_append, List.nil_append] at hsize
    omega)
  rw [ParseTree.yielded, hm]
  refine congrArg Except.ok (hj.trans ?_)
  rw [← String.ofList_toList (s := w), hw, hafter, List.append_nil]

end ContextFree
