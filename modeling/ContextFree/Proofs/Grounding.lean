import ContextFree.Proofs.Leading

/-! Following the proofs of nilability. A proof rests on earlier ones only, whatever the order of
the productions, so the way down never meets a non-terminal again and ends in one empty tree, the
one that the search finds in first mode. -/
namespace ContextFree

theorem Terminal.isEmpty_iff {t : Terminal} : t.isEmpty = true ↔ t = .literal "" := by
  cases t with
  | literal s => simp [isEmpty]
  | charClass c | pattern q | blackBox b => simp [isEmpty]

theorem picks_singletons {α : Type} (l : List α) : picks (l.map ([·])) = [l] := by
  induction l with
  | nil => rfl
  | cons a l ih => simp [picks, ih]

namespace EmptyProofs
variable {g : Grammar} {ps : EmptyProofs} {a b : String}

/-- Whether the proof of one non-terminal mentions another. -/
def RestsOn (ps : EmptyProofs) (a b : String) : Prop :=
  ∃ e, ps.proof? a = some e ∧ .nonterm b ∈ e.production.rhs

mutual
/-- The trees that proofs make, one below the other. -/
inductive Follows (ps : EmptyProofs) : Symbol → EmptyTree → Prop
  | term {t : Terminal} (ht : t.isEmpty = true) : Follows ps (.term t) (.leaf ())
  | node {name : String} {e : NumberedProduction} {ts : List EmptyTree}
    (he : ps.proof? name = some e) (h : FollowsAll ps e.production.rhs ts) :
    Follows ps (.nonterm name) (.node name ts)
inductive FollowsAll (ps : EmptyProofs) : List Symbol → List EmptyTree → Prop
  | nil : FollowsAll ps [] []
  | cons {x : Symbol} {xs : List Symbol} {t : EmptyTree} {ts : List EmptyTree}
    (h : Follows ps x t) (hs : FollowsAll ps xs ts) : FollowsAll ps (x :: xs) (t :: ts)
end

theorem Follows.nilable {x : Symbol} {t : EmptyTree} : ps.Follows x t → ps.nilable x = true
  | .term ht => ht
  | .node he _ => exists_proof?_iff.1 ⟨_, he⟩

mutual
/-- Proofs leave no choice. -/
theorem Follows.unique {x : Symbol} {t u : EmptyTree} : ps.Follows x t → ps.Follows x u → t = u
  | .term _, hu => by
    cases hu
    rfl
  | .node he h, hu => by
    cases hu with
    | node he' h' =>
      obtain rfl := Option.some.inj (he.symm.trans he')
      rw [h.unique h']
theorem FollowsAll.unique {xs : List Symbol} {ts us : List EmptyTree} :
    ps.FollowsAll xs ts → ps.FollowsAll xs us → ts = us
  | .nil, hu => by
    cases hu
    rfl
  | .cons h hs, hu => by
    cases hu with
    | cons h' hs' => rw [h.unique h', hs.unique hs']
end

theorem exists_followsAll {xs : List Symbol} (h : ∀ x ∈ xs, ∃ t, ps.Follows x t) :
    ∃ ts, ps.FollowsAll xs ts := by
  induction xs with
  | nil => exact ⟨[], .nil⟩
  | cons x xs ih =>
    obtain ⟨t, ht⟩ := h x (.head _)
    obtain ⟨ts, hts⟩ := ih fun y hy => h y (.tail _ hy)
    exact ⟨t :: ts, .cons ht hts⟩

section Order
variable (hs : ps.Sound g) {e : NumberedProduction}
include hs

/-- A proof has its place among the proofs. -/
theorem getElem?_placeOf (he : ps.proof? a = some e) : ps.toList[ps.placeOf a]? = some e := by
  obtain ⟨hmem, rfl⟩ := proof?_eq_some he
  obtain ⟨f, hf, hlhs⟩ := Register.exists_placeOf (List.mem_map_of_mem hmem)
  rw [hf, List.inj_on_of_nodup_map hs.nodup (List.mem_of_getElem? hf) hmem hlhs]

/-- What a proof mentions is proved earlier. -/
theorem exists_earlier (he : ps.proof? a = some e) (hb : .nonterm b ∈ e.production.rhs) :
    ps.nilable (.nonterm b) = true ∧ ps.placeOf b < ps.placeOf a := by
  obtain ⟨m, f, hlt, hm, rfl⟩ := exists_before hs.grounded (getElem?_placeOf hs he) hb
  have hproof := proof?_of_getElem? hs.nodup hm
  have hplace := index_unique hs.nodup (getElem?_placeOf hs hproof) hm rfl
  exact ⟨exists_proof?_iff.1 ⟨f, hproof⟩, hplace ▸ hlt⟩

theorem isEmpty_of_mem_rhs (he : ps.proof? a = some e) {t : Terminal}
    (ht : .term t ∈ e.production.rhs) : t.isEmpty = true :=
  nilableBy_take hs.grounded (getElem?_placeOf hs he) _ ht

theorem wellFounded_restsOn : WellFounded fun b a => ps.RestsOn a b :=
  Subrelation.wf (fun ⟨_, he, hb⟩ => (exists_earlier hs he hb).2) (measure ps.placeOf).wf

/-- Following proofs never comes back. -/
theorem nodup_of_isChain {names : List String} (h : names.IsChain ps.RestsOn) : names.Nodup := by
  have hplaces : names.IsChain fun a b => ps.placeOf b < ps.placeOf a :=
    h.imp fun _ _ ⟨_, he, hb⟩ => (exists_earlier hs he hb).2
  have : Trans (fun a b => ps.placeOf b < ps.placeOf a) (fun a b => ps.placeOf b < ps.placeOf a)
      fun a b => ps.placeOf b < ps.placeOf a := ⟨fun hab hbc => hbc.trans hab⟩
  exact hplaces.pairwise.imp fun hlt heq => (heq ▸ hlt).false

/-- The induction is on the places of proofs. -/
theorem exists_follows (h : ps.nilable (.nonterm a) = true) : ∃ t, ps.Follows (.nonterm a) t := by
  induction a using (wellFounded_restsOn hs).induction with
  | _ a ih =>
    obtain ⟨e, he⟩ := exists_proof?_iff.2 h
    have hsymbol : ∀ x ∈ e.production.rhs, ∃ t, ps.Follows x t := by
      intro x hx
      cases x with
      | term t => exact ⟨_, .term (isEmpty_of_mem_rhs hs he hx)⟩
      | nonterm b => exact ih b ⟨e, he, hx⟩ (exists_earlier hs he hx).1
    obtain ⟨ts, hts⟩ := exists_followsAll hsymbol
    exact ⟨_, .node he hts⟩

end Order

/-- Whether a symbol, if it is a non-terminal, is proved before the nodes above. -/
def Precedes (ps : EmptyProofs) (above : List (String × Nat × Nat)) (x : Symbol) : Prop :=
  ∀ b, x = .nonterm b → ∀ n ∈ above, ps.placeOf b < ps.placeOf n.1

theorem Precedes.cons (hs : ps.Sound g) {above : List (String × Nat × Nat)}
    {e : NumberedProduction} (he : ps.proof? a = some e) (h : ps.Precedes above (.nonterm a))
    (p : Nat) : ∀ x ∈ e.production.rhs, ps.Precedes ((a, p, p) :: above) x := by
  rintro _ hx b rfl
  have hlt := (exists_earlier hs he hx).2
  exact List.forall_mem_cons.2 ⟨hlt, fun n hn => hlt.trans (h a rfl n hn)⟩

mutual
/-- On the way down places decrease, so no non-terminal is its own descendant. -/
theorem Follows.acyclic [Pattern.Engine] (hs : ps.Sound g) (w : String) (p : Nat)
    {above : List (String × Nat × Nat)} {x : Symbol} {t : EmptyTree} :
    ps.Follows x t → ps.Precedes above x → DerivesAcyclic g w above x p p (t.place p)
  | .term ht, _ => .term (Terminal.takes_self.2 ht)
  | .node he h, habove => by
    obtain ⟨hmem, rfl⟩ := proof?_eq_some he
    rw [EmptyTree.place_node]
    refine .node (Grammar.production_of_mem_numbered (hs.numbered _ hmem)) (fun hm => ?_) ?_
    · exact (habove _ rfl _ hm).false
    · exact h.acyclic hs w p (habove.cons hs he p)
theorem FollowsAll.acyclic [Pattern.Engine] (hs : ps.Sound g) (w : String) (p : Nat)
    {above : List (String × Nat × Nat)} {xs : List Symbol} {ts : List EmptyTree} :
    ps.FollowsAll xs ts → (∀ x ∈ xs, ps.Precedes above x) →
      DerivesAllAcyclic g w above xs p p (ts.map (EmptyTree.place p))
  | .nil, _ => .nil
  | .cons h hs', habove =>
    .cons (h.acyclic hs w p (habove _ (.head _)))
      (hs'.acyclic hs w p fun x hx => habove x (.tail _ hx))
end

/-- Whether a symbol, if it is a non-terminal, is free along with all that is proved earlier. -/
def FreeBelow (ps : EmptyProofs) (free : List String) (x : Symbol) : Prop :=
  ∀ b, x = .nonterm b → ∀ c, ps.nilable (.nonterm c) = true → ps.placeOf c ≤ ps.placeOf b → c ∈ free

theorem FreeBelow.erase (hs : ps.Sound g) {free : List String} {e : NumberedProduction}
    (he : ps.proof? a = some e) (h : ps.FreeBelow free (.nonterm a)) :
    ∀ x ∈ e.production.rhs, ps.FreeBelow (free.erase a) x := by
  rintro _ hx b rfl c hc hle
  have hlt := (exists_earlier hs he hx).2
  refine (List.mem_erase_of_ne fun heq => ?_).2 (h a rfl c hc (by omega))
  rw [heq] at hle
  omega

mutual
/-- With one derivation a cell, the search goes by the proofs. -/
theorem Follows.emptyChoices_eq {free : List String} {x : Symbol} {t : EmptyTree} :
    g.emptyProofs.Follows x t → g.emptyProofs.FreeBelow free x → g.emptyChoices .first free x = [t]
  | .term ht, _ => if_pos ht
  | @Follows.node _ name e ts he h, hfree => by
    have hmem := hfree name rfl name (exists_proof?_iff.1 ⟨e, he⟩) le_rfl
    have hchoices := h.emptyChoices_eq (hfree.erase g.emptyProofs_spec.1 he)
    rw [Grammar.emptyChoices, if_pos hmem, Grammar.emptyTreesBelow_eq, he]
    simp [hchoices, picks_singletons, distinct, distinctBy]
theorem FollowsAll.emptyChoices_eq {free : List String} {xs : List Symbol} {ts : List EmptyTree} :
    g.emptyProofs.FollowsAll xs ts → (∀ x ∈ xs, g.emptyProofs.FreeBelow free x) →
      xs.map (g.emptyChoices .first free) = ts.map ([·])
  | .nil, _ => rfl
  | .cons h hs, hfree => by
    rw [List.map_cons, List.map_cons, h.emptyChoices_eq (hfree _ (.head _)),
      hs.emptyChoices_eq fun x hx => hfree x (.tail _ hx)]
end

end EmptyProofs

/-- What the proofs of nilability of a grammar are: exact, made of what is proved, and grounded. -/
structure Grammar.Proved [Pattern.Engine] (g : Grammar) : Prop where
  terminal_iff : ∀ (t : Terminal) w p, t.Takes w p p ↔ t = .literal ""
  nilable_iff : ∀ name w p,
    (∃ e, g.emptyProofs.proof? name = some e) ↔ ∃ t, Derives g w (.nonterm name) p p t
  proof : ∀ name e, g.emptyProofs.proof? name = some e →
    g.productions[e.number]? = some e.production ∧ e.production.lhs = name ∧
      ∀ x ∈ e.production.rhs, x = .term (.literal "") ∨
        ∃ b f, x = .nonterm b ∧ g.emptyProofs.proof? b = some f
  wellFounded : WellFounded fun b a => g.emptyProofs.RestsOn a b
  nodup : ∀ names : List String, names.IsChain g.emptyProofs.RestsOn → names.Nodup

namespace Grammar

theorem proved [Pattern.Engine] (g : Grammar) : g.Proved where
  terminal_iff _ _ _ := Terminal.takes_self.trans Terminal.isEmpty_iff
  nilable_iff _ _ p := EmptyProofs.exists_proof?_iff.trans (nilable_emptyProofs p)
  proof name e he := by
    have hs := g.emptyProofs_spec.1
    obtain ⟨hmem, hlhs⟩ := EmptyProofs.proof?_eq_some he
    refine ⟨mem_numbered.1 (hs.numbered e hmem), hlhs, fun x hx => ?_⟩
    cases x with
    | term t =>
      exact .inl (congrArg _ (Terminal.isEmpty_iff.1 (EmptyProofs.isEmpty_of_mem_rhs hs he hx)))
    | nonterm b =>
      obtain ⟨f, hf⟩ := EmptyProofs.exists_proof?_iff.2 (EmptyProofs.exists_earlier hs he hx).1
      exact .inr ⟨b, f, rfl, hf⟩
  wellFounded := EmptyProofs.wellFounded_restsOn g.emptyProofs_spec.1
  nodup _ := EmptyProofs.nodup_of_isChain g.emptyProofs_spec.1

/-- What follows the proofs is what the search finds in first mode. -/
theorem emptyTrees_first {g : Grammar} {name : String} {t : EmptyTree}
    (h : g.emptyProofs.Follows (.nonterm name) t) :
    g.emptyTrees g.emptyProofs .first name = [t] := by
  have hmem {c : String} (hc : g.emptyProofs.nilable (.nonterm c) = true) :
      c ∈ g.emptyProofs.toList.map (·.production.lhs) := Register.has_iff.1 hc
  have hchoices := h.emptyChoices_eq fun _ _ c hc _ => hmem hc
  rw [emptyChoices, if_pos (hmem h.nilable)] at hchoices
  exact hchoices

/-- Proofs of nilability are exact and grounded. From every nilable non-terminal they lead to one
tree, in which no non-terminal is its own descendant. -/
theorem proved_and_existsUnique [Pattern.Engine] (g : Grammar) : g.Proved ∧
    ∀ name, g.emptyProofs.nilable (.nonterm name) = true → ∃ t : EmptyTree,
      (∀ u, g.emptyProofs.Follows (.nonterm name) u ↔ u = t) ∧
      g.emptyTrees g.emptyProofs .first name = [t] ∧
      ∀ w p, DerivesAcyclic g w [] (.nonterm name) p p (t.place p) := by
  refine ⟨g.proved, fun name h => ?_⟩
  have hs := g.emptyProofs_spec.1
  obtain ⟨t, ht⟩ := EmptyProofs.exists_follows hs h
  refine ⟨t, fun u => ⟨fun hu => hu.unique ht, fun hu => hu ▸ ht⟩, emptyTrees_first ht, ?_⟩
  exact fun w p => ht.acyclic hs w p (by simp [EmptyProofs.Precedes])

end Grammar
end ContextFree
