import ContextFree.Proofs.Interning
import Mathlib.Logic.Relation

/-! Sharing. Whatever is interned, as long as the children of a node were interned before it, the
numbers handed out and their trees stand for each other: reading the tree of a number ends, later
entries leave it as it is, and no tree has two numbers. -/
namespace ContextFree.Arena

variable {κ ι : Type} [DecidableEq κ] [DecidableEq ι] [Coded κ] [Coded ι]

/-- The numbers of the children of an entry. -/
def Entry.children : Entry κ ι → List Nat
  | leaf _ => []
  | node _ children => children

/-- Reading a number comes to an end with a tree, whatever numbers the children have. -/
inductive Reads (a : Arena κ ι) : Nat → SyntaxTree κ ι → Prop
  | leaf {n : Nat} {p : ι} (h : a.toList[n]? = some (.leaf p)) : Reads a n (.leaf p)
  | node {n : Nat} {k : κ} {cs : List Nat} {ts : List (SyntaxTree κ ι)}
      (h : a.toList[n]? = some (.node k cs)) (hs : List.Forall₂ (Reads a) cs ts) :
      Reads a n (.node k ts)

/-- In a tidy arena the children have smaller numbers, so nothing else can be read. -/
theorem reads_iff {a : Arena κ ι} (ha : a.Tidy) {n : Nat} {t : SyntaxTree κ ι} :
    a.Reads n t ↔ a.tree? n = some t := by
  induction n using Nat.strongRecOn generalizing t with
  | ind n ih =>
    constructor
    · intro h
      cases h with
      | leaf h => exact tree?_eq_leaf.2 h
      | @node _ _ cs _ h hs =>
        have hbefore : ∀ c ∈ cs, c < n := ha.before n _ h
        refine tree?_eq_node.2 ⟨cs, h, ?_⟩
        exact ((List.forall₂_and_left _ _).2 ⟨hbefore, hs⟩).imp fun c t ⟨hc, ht⟩ =>
          ⟨hc, (ih c hc).1 ht⟩
    · intro h
      cases t with
      | leaf p => exact .leaf (tree?_eq_leaf.1 h)
      | node k ts =>
        obtain ⟨cs, hn, hs⟩ := tree?_eq_node.1 h
        exact .node hn (hs.imp fun c t ⟨hc, ht⟩ => (ih c hc).2 ht)

/-- Every entry of a tidy arena can be read. -/
theorem exists_tree? {a : Arena κ ι} (ha : a.Tidy) {n : Nat} (hn : n < a.toList.length) :
    ∃ t, a.tree? n = some t := by
  induction n using Nat.strongRecOn with
  | ind n ih =>
    have hentry := List.getElem?_eq_getElem hn
    cases he : a.toList[n] with
    | leaf p => exact ⟨_, tree?_eq_leaf.2 (he ▸ hentry)⟩
    | node k cs =>
      rw [he] at hentry
      have hbefore : ∀ c ∈ cs, c < n := ha.before n _ hentry
      have : Nonempty (SyntaxTree κ ι) := ⟨.node k []⟩
      choose! tree htree using fun c (hc : c < n) => ih c hc (Nat.lt_trans hc hn)
      refine ⟨.node k (cs.map tree), tree?_eq_node.2 ⟨cs, hentry, ?_⟩⟩
      exact List.forall₂_map_right_iff.2 (List.forall₂_same.2 fun c hc =>
        ⟨hbefore c hc, htree c (hbefore c hc)⟩)

/-- An arena in use, with the numbers that it has handed out. -/
structure Session (κ ι : Type) [DecidableEq κ] [DecidableEq ι] [Coded κ] [Coded ι] where
  arena : Arena κ ι
  handed : List Nat

namespace Session

def start : Session κ ι := ⟨empty, []⟩

def intern (s : Session κ ι) (e : Entry κ ι) : Session κ ι :=
  ⟨(s.arena.intern e).2, s.handed ++ [(s.arena.intern e).1]⟩

/-- The children of an entry are numbers that were handed out. -/
def Admits (s : Session κ ι) (e : Entry κ ι) : Prop := ∀ c ∈ e.children, c ∈ s.handed

instance (s : Session κ ι) (e : Entry κ ι) : Decidable (s.Admits e) :=
  inferInstanceAs (Decidable (∀ c ∈ e.children, c ∈ s.handed))

inductive Step : Session κ ι → Session κ ι → Prop
  | intern {s : Session κ ι} {e : Entry κ ι} (h : s.Admits e) : Step s (s.intern e)

/-- Any number of admitted entries, one after the other. -/
abbrev Run : Session κ ι → Session κ ι → Prop := Relation.ReflTransGen Step

/-- Numbers are not taken back. -/
theorem Run.handed_subset {s s' : Session κ ι} (h : Run s s') : s.handed ⊆ s'.handed := by
  induction h with
  | refl => exact List.Subset.refl _
  | tail _ hstep ih =>
    cases hstep with
    | intern _ => exact List.Subset.trans ih (List.subset_append_left _ _)

mutual
/-- Interning a tree is a run, which hands out the number of the tree. -/
theorem exists_run_internTree (s : Session κ ι) : (t : SyntaxTree κ ι) → ∃ s', Run s s' ∧
    s'.arena = (s.arena.internTree t).2 ∧ (s.arena.internTree t).1 ∈ s'.handed
  | .leaf p => by
    have hadmits : s.Admits (.leaf p) := by simp [Admits, Entry.children]
    exact ⟨s.intern (.leaf p), .single (.intern hadmits), rfl, by simp [intern, internTree]⟩
  | .node k ts => by
    obtain ⟨s', hrun, harena, hnumbers⟩ := exists_run_internAll s ts
    refine ⟨s'.intern (.node k (s.arena.internAll ts).1), hrun.tail (.intern hnumbers), ?_, ?_⟩
    · rw [internTree, ← harena]
      rfl
    · rw [internTree, ← harena]
      simp [intern]
/-- So is interning trees one after the other, after which the numbers of all are handed out. -/
theorem exists_run_internAll (s : Session κ ι) : (ts : List (SyntaxTree κ ι)) → ∃ s', Run s s' ∧
    s'.arena = (s.arena.internAll ts).2 ∧ ∀ n ∈ (s.arena.internAll ts).1, n ∈ s'.handed
  | [] => ⟨s, .refl, rfl, by simp [internAll]⟩
  | t :: ts => by
    obtain ⟨s₁, hrun₁, harena₁, hnumber⟩ := exists_run_internTree s t
    obtain ⟨s₂, hrun₂, harena₂, hnumbers⟩ := exists_run_internAll s₁ ts
    rw [harena₁] at harena₂ hnumbers
    refine ⟨s₂, hrun₁.trans hrun₂, harena₂, ?_⟩
    exact List.forall_mem_cons.2 ⟨hrun₂.handed_subset hnumber, hnumbers⟩
end

/-- The numbers by which duplicates are recognised are handed out in one run. -/
theorem exists_run_internLists (s : Session κ ι) (l : List (List (SyntaxTree κ ι))) :
    ∃ s', Run s s' ∧ ∀ ns ∈ s.arena.internLists l, ∀ n ∈ ns, n ∈ s'.handed := by
  induction l generalizing s with
  | nil => exact ⟨s, .refl, by simp [internLists]⟩
  | cons ts l ih =>
    obtain ⟨s₁, hrun₁, harena, hnumbers⟩ := exists_run_internAll s ts
    obtain ⟨s₂, hrun₂, hrest⟩ := ih s₁
    rw [harena] at hrest
    refine ⟨s₂, hrun₁.trans hrun₂, List.forall_mem_cons.2 ⟨fun n hn => ?_, hrest⟩⟩
    exact hrun₂.handed_subset (hnumbers n hn)

/-- What a run keeps: the arena is tidy, and the numbers handed out are those of its entries. -/
structure Sound (s : Session κ ι) : Prop where
  tidy : s.arena.Tidy
  mem_handed : ∀ {n}, n ∈ s.handed ↔ n < s.arena.toList.length

theorem sound_start : (start : Session κ ι).Sound := ⟨tidy_empty, by simp [start, empty]⟩

theorem Sound.before {s : Session κ ι} (hs : s.Sound) {e : Entry κ ι} (he : s.Admits e) :
    e.Before s.arena.toList.length := by
  cases e with
  | leaf p => trivial
  | node k cs => exact fun c hc => hs.mem_handed.1 (he c hc)

theorem Sound.step {s s' : Session κ ι} (hs : s.Sound) (h : Step s s') :
    s.arena.toList <+: s'.arena.toList ∧ s'.Sound := by
  obtain @⟨e, he⟩ := h
  obtain ⟨hgrows, htidy, -⟩ := intern_step hs.tidy (hs.before he)
  refine ⟨hgrows, htidy, fun {n} => ?_⟩
  change n ∈ s.handed ++ [(s.arena.intern e).1] ↔ n < (s.arena.intern e).2.toList.length
  rw [List.mem_append, List.mem_singleton, hs.mem_handed]
  obtain ⟨hlist, hat⟩ | ⟨-, hlist, hnum⟩ := s.arena.intern_cases e
  · have hlt := (List.getElem?_eq_some_iff.1 hat).1
    rw [hlist]
    omega
  · rw [hlist, hnum, List.length_append, List.length_singleton]
    omega

theorem Sound.run {s s' : Session κ ι} (hs : s.Sound) (h : Run s s') :
    s.arena.toList <+: s'.arena.toList ∧ s'.Sound := by
  induction h with
  | refl => exact ⟨List.prefix_refl _, hs⟩
  | tail _ hstep ih =>
    obtain ⟨hgrows, hsound⟩ := ih.2.step hstep
    exact ⟨ih.1.trans hgrows, hsound⟩

/-- Interning is faithful along every run. Children have smaller numbers than their nodes; reading
a number that was handed out ends, with a tree that is the only one and stays the tree of that
number; numbers have the same tree just if they are the same; and the number handed out for an
entry is that of this entry. -/
theorem interning_faithful {s s' : Session κ ι} (hs : Run start s) (hs' : Run s s') :
    (∀ (n : Nat) (k : κ) (cs : List Nat), s.arena.toList[n]? = some (.node k cs) →
      ∀ c ∈ cs, c < n) ∧
    (∀ n ∈ s.handed, ∃ t, s.arena.tree? n = some t ∧ s'.arena.tree? n = some t ∧
      (∀ u, s.arena.Reads n u ↔ u = t) ∧ ∀ u, s'.arena.Reads n u ↔ u = t) ∧
    (∀ m ∈ s.handed, ∀ n ∈ s.handed, s.arena.tree? m = s.arena.tree? n ↔ m = n) ∧
    ∀ e, s.Admits e → (s.intern e).arena.toList[(s.arena.intern e).1]? = some e := by
  obtain ⟨-, hsound⟩ := sound_start.run hs
  obtain ⟨hgrows, hsound'⟩ := hsound.run hs'
  have exists_read {n : Nat} (hn : n ∈ s.handed) : ∃ t, s.arena.tree? n = some t :=
    exists_tree? hsound.tidy (hsound.mem_handed.1 hn)
  refine ⟨fun n k cs hn => hsound.tidy.before n _ hn, fun n hn => ?_, fun m hm n hn => ?_,
    fun e he => ?_⟩
  · obtain ⟨t, ht⟩ := exists_read hn
    have ht' := tree?_mono hgrows ht
    refine ⟨t, ht, ht', fun u => ?_, fun u => ?_⟩
    · rw [reads_iff hsound.tidy, ht, Option.some.injEq, eq_comm]
    · rw [reads_iff hsound'.tidy, ht', Option.some.injEq, eq_comm]
  · obtain ⟨t, ht⟩ := exists_read hm
    constructor
    · intro h
      exact tree?_inj hsound.tidy ht (h ▸ ht)
    · rintro rfl
      rfl
  · exact (intern_step hsound.tidy (hsound.before he)).2.2

/-- Two leaves under a node. -/
def oneNode : Session String Span :=
  ((start.intern (.leaf ⟨0, 1⟩)).intern (.leaf ⟨1, 2⟩)).intern (.node "a" [0, 1])

/-- The same node again, which gets no new number, and a node that has it twice. -/
def sharedNode : Session String Span :=
  (oneNode.intern (.node "a" [0, 1])).intern (.node "b" [2, 2])

theorem run_oneNode : Run start oneNode :=
  ((Relation.ReflTransGen.single (.intern (by decide +kernel))).tail
    (.intern (by decide +kernel))).tail (.intern (by decide +kernel))

theorem run_sharedNode : Run oneNode sharedNode :=
  (Relation.ReflTransGen.single (.intern (by decide +kernel))).tail (.intern (by decide +kernel))

theorem interning_faithful_sharedNode :
    Run start oneNode ∧ Run oneNode sharedNode ∧ sharedNode.handed = [0, 1, 2, 2, 3] ∧
    (∃ t, oneNode.arena.tree? 2 = some t ∧ sharedNode.arena.tree? 2 = some t ∧
      ∀ u, sharedNode.arena.Reads 2 u ↔ u = t) ∧
    oneNode.arena.tree? 0 ≠ oneNode.arena.tree? 1 := by
  obtain ⟨-, hread, hinj, -⟩ := interning_faithful run_oneNode run_sharedNode
  obtain ⟨t, ht, ht', -, hu⟩ := hread 2 (by decide +kernel)
  refine ⟨run_oneNode, run_sharedNode, by decide +kernel, ⟨t, ht, ht', hu⟩, fun h => ?_⟩
  have := (hinj 0 (by decide +kernel) 1 (by decide +kernel)).1 h
  omega

end Session
end ContextFree.Arena
