import ContextFree.Tree.Arena
import Mathlib.Data.List.Forall2
import Mathlib.Data.List.Nodup

/-! Interning is faithful. In an arena that was filled by interning, numbers stand for trees: a
number keeps its tree while the arena grows, and different trees have different numbers. Keeping
first occurrences by number is then the same as keeping them by tree. -/
namespace ContextFree

/-- First occurrences depend only on which keys are equal. -/
theorem map_distinctBy {α β κ κ' : Type} [DecidableEq κ] [DecidableEq κ'] (key : α → κ)
    (key' : β → κ') (f : α → β) {l : List α}
    (h : ∀ a ∈ l, ∀ b ∈ l, key a = key b ↔ key' (f a) = key' (f b)) :
    (distinctBy key l).map f = distinctBy key' (l.map f) := by
  induction l with
  | nil => rfl
  | cons a l ih =>
    rw [distinctBy, List.map_cons, List.map_cons, distinctBy,
      ← ih fun b hb c hc => h b (.tail _ hb) c (.tail _ hc), List.filter_map]
    congr 2
    apply List.filter_congr
    intro b hb
    have hb' := (distinctBy_sublist key l).subset hb
    simp only [Function.comp_apply, ne_eq, h b (.tail _ hb') a (.head _)]

theorem distinct_map {α β : Type} [DecidableEq α] [DecidableEq β] {F : α → β}
    (hF : Function.Injective F) (l : List α) : distinct (l.map F) = (distinct l).map F :=
  (map_distinctBy id id F fun _ _ _ _ => hF.eq_iff.symm).symm

variable {κ ι : Type} [DecidableEq κ] [DecidableEq ι] [Coded κ] [Coded ι]

namespace Arena

/-- Whether the children of an entry are numbered before a number. -/
def Entry.Before (n : Nat) : Entry κ ι → Prop
  | leaf _ => True
  | node _ children => ∀ c ∈ children, c < n

/-- What interning keeps: every entry is there once, after its children. -/
structure Tidy (a : Arena κ ι) : Prop where
  nodup : a.toList.Nodup
  before : ∀ n (e : Entry κ ι), a.toList[n]? = some e → e.Before n

theorem tidy_empty : (empty : Arena κ ι).Tidy := ⟨List.nodup_nil, by simp [empty]⟩

theorem mapM_eq_some_iff {α β : Type} {f : α → Option β} {l : List α} {r : List β} :
    l.mapM f = some r ↔ List.Forall₂ (fun x y => f x = some y) l r := by
  induction l generalizing r with
  | nil => simp [eq_comm]
  | cons x l ih =>
    rw [List.mapM_cons, List.forall₂_cons_left_iff]
    cases hx : f x with
    | none => simp
    | some y =>
      cases hl : l.mapM f with
      | none =>
        constructor
        · intro h
          simp at h
        · rintro ⟨_, u, _, hu, _⟩
          rw [← ih, hl] at hu
          simp at hu
      | some ys =>
        simp only [Option.pure_def, Option.bind_eq_bind, Option.bind_some, Option.some.injEq]
        constructor
        · rintro rfl
          exact ⟨y, ys, rfl, ih.1 hl, rfl⟩
        · rintro ⟨z, u, rfl, hu, rfl⟩
          rw [← ih, hl] at hu
          rw [Option.some.inj hu]

theorem tree?_eq_leaf {a : Arena κ ι} {n : Nat} {p : ι} :
    a.tree? n = some (.leaf p) ↔ a.toList[n]? = some (.leaf p) := by
  rw [tree?]
  split <;> simp_all

theorem tree?_eq_node {a : Arena κ ι} {n : Nat} {k : κ} {ts : List (SyntaxTree κ ι)} :
    a.tree? n = some (.node k ts) ↔ ∃ cs, a.toList[n]? = some (.node k cs) ∧
      List.Forall₂ (fun c t => c < n ∧ a.tree? c = some t) cs ts := by
  rw [tree?]
  split
  · simp_all
  · simp_all
  · rename_i k' cs hn
    simp only [hn, Option.map_eq_some_iff, SyntaxTree.node.injEq, Option.some.injEq,
      Entry.node.injEq, mapM_eq_some_iff]
    constructor
    · rintro ⟨us, hu, rfl, rfl⟩
      exact ⟨cs, ⟨rfl, rfl⟩, hu.imp fun c t h => by simpa using h⟩
    · rintro ⟨_, ⟨rfl, rfl⟩, hu⟩
      exact ⟨ts, hu.imp fun c t h => by simpa using h, rfl, rfl⟩

theorem lt_of_tree? {a : Arena κ ι} {n : Nat} {t : SyntaxTree κ ι} (h : a.tree? n = some t) :
    n < a.toList.length := by
  by_contra hn
  rw [tree?, List.getElem?_eq_none (by omega)] at h
  simp at h

/-- A number keeps its tree while the arena grows. -/
theorem tree?_mono {a b : Arena κ ι} (h : a.toList <+: b.toList) {n : Nat}
    {t : SyntaxTree κ ι} (ht : a.tree? n = some t) : b.tree? n = some t := by
  obtain ⟨more, hm⟩ := h
  have keep {n : Nat} {e : Entry κ ι} (hn : a.toList[n]? = some e) :
      b.toList[n]? = some e := by
    rw [← hm, List.getElem?_append_left (List.getElem?_eq_some_iff.1 hn).1, hn]
  induction n using Nat.strongRecOn generalizing t with
  | ind n ih =>
    cases t with
    | leaf p => exact tree?_eq_leaf.2 (keep (tree?_eq_leaf.1 ht))
    | node k ts =>
      obtain ⟨cs, hn, hc⟩ := tree?_eq_node.1 ht
      exact tree?_eq_node.2 ⟨cs, keep hn, hc.imp fun c t ⟨hlt, ht⟩ => ⟨hlt, ih c hlt ht⟩⟩

/-- Different numbers of a tidy arena have different trees. -/
theorem tree?_inj {a : Arena κ ι} (ha : a.Tidy) {m n : Nat} {t : SyntaxTree κ ι}
    (hm : a.tree? m = some t) (hn : a.tree? n = some t) : m = n := by
  have unique {m n : Nat} {e : Entry κ ι} (hm : a.toList[m]? = some e)
      (hn : a.toList[n]? = some e) : m = n :=
    (List.getElem?_inj (List.getElem?_eq_some_iff.1 hm).1 ha.nodup).1 (hm.trans hn.symm)
  induction m using Nat.strongRecOn generalizing n t with
  | ind m ih =>
    cases t with
    | leaf p => exact unique (tree?_eq_leaf.1 hm) (tree?_eq_leaf.1 hn)
    | node k ts =>
      obtain ⟨cs, hcs, hc⟩ := tree?_eq_node.1 hm
      obtain ⟨ds, hds, hd⟩ := tree?_eq_node.1 hn
      have hcd : cs = ds := by
        clear hm hn hcs hds
        induction hc generalizing ds with
        | nil => cases hd; rfl
        | cons hct _ ih' =>
          cases hd with
          | cons hdt hd => rw [ih _ hct.1 hct.2 hdt.2, ih' _ hd]
      exact unique hcs (hcd ▸ hds)

/-- An entry that is there is found at its number, and a new one is put at the end. -/
theorem intern_cases (a : Arena κ ι) (e : Entry κ ι) :
    ((a.intern e).2.toList = a.toList ∧ a.toList[(a.intern e).1]? = some e) ∨
    (e ∉ a.toList ∧ (a.intern e).2.toList = a.toList ++ [e] ∧
      (a.intern e).1 = a.toList.length) := by
  have hnum : (a.intern e).1 = a.toList.findIdx (· == e) := by
    rw [intern, Register.placeOf_eq, List.map_id]
  have hlist : (a.intern e).2.toList = if e ∈ a.toList then a.toList else a.toList ++ [e] :=
    Roster.toList_enter a e
  by_cases hm : e ∈ a.toList
  · have hlt : a.toList.findIdx (· == e) < a.toList.length :=
      List.findIdx_lt_length_of_exists ⟨e, hm, by simp⟩
    refine .inl ⟨by rw [hlist, if_pos hm], ?_⟩
    rw [hnum, List.getElem?_eq_getElem hlt]
    exact congrArg some (eq_of_beq (List.findIdx_getElem (w := hlt)))
  · refine .inr ⟨hm, by rw [hlist, if_neg hm], hnum.trans ?_⟩
    exact List.findIdx_eq_length.2 fun x hx => beq_false_of_ne fun h => hm (h ▸ hx)

/-- What interning does: the arena grows and stays tidy, and the entry is where its number says. -/
theorem intern_step {a : Arena κ ι} (ha : a.Tidy) {e : Entry κ ι}
    (he : e.Before a.toList.length) :
    a.toList <+: (a.intern e).2.toList ∧ (a.intern e).2.Tidy ∧
      (a.intern e).2.toList[(a.intern e).1]? = some e := by
  obtain ⟨hlist, hat⟩ | ⟨hnew, hlist, hnum⟩ := a.intern_cases e
  · exact ⟨hlist ▸ List.prefix_refl _, ⟨hlist ▸ ha.nodup, hlist ▸ ha.before⟩, hlist ▸ hat⟩
  · refine ⟨hlist ▸ List.prefix_append _ _, ⟨?_, fun n f hf => ?_⟩, by simp [hnum, hlist]⟩
    · rw [hlist]
      exact ha.nodup.append (List.nodup_singleton e) (by simpa using hnew)
    · rw [hlist] at hf
      rcases Nat.lt_trichotomy n a.toList.length with hn | rfl | hn
      · exact ha.before n f (List.getElem?_append_left hn ▸ hf)
      · simp only [List.getElem?_concat_length, Option.some.injEq] at hf
        exact hf ▸ he
      · rw [List.getElem?_eq_none (by simp; omega)] at hf
        simp at hf

mutual
/-- Interning a tree gives a number that stands for it. -/
theorem internTree_step {a : Arena κ ι} (ha : a.Tidy) : (t : SyntaxTree κ ι) →
    a.toList <+: (a.internTree t).2.toList ∧ (a.internTree t).2.Tidy ∧
      (a.internTree t).2.tree? (a.internTree t).1 = some t
  | .leaf p => by
    obtain ⟨hp, ht, he⟩ := intern_step ha (e := .leaf p) trivial
    exact ⟨hp, ht, tree?_eq_leaf.2 he⟩
  | .node k ts => by
    obtain ⟨hp, ht, hs⟩ := internAll_step ha ts
    have hb : (Entry.node k (a.internAll ts).1 : Entry κ ι).Before
        (a.internAll ts).2.toList.length :=
      ((List.forall₂_and_left _ _).1 (hs.imp fun c t h => ⟨lt_of_tree? h, h⟩)).1
    obtain ⟨hp', ht', he⟩ := intern_step ht hb
    refine ⟨hp.trans hp', ht', tree?_eq_node.2 ⟨_, he, ?_⟩⟩
    have hlt := ht'.before _ _ he
    exact (List.forall₂_and_left _ _).2 ⟨hlt, hs.imp fun c t h => tree?_mono hp' h⟩
theorem internAll_step {a : Arena κ ι} (ha : a.Tidy) : (ts : List (SyntaxTree κ ι)) →
    a.toList <+: (a.internAll ts).2.toList ∧ (a.internAll ts).2.Tidy ∧
      List.Forall₂ (fun n t => (a.internAll ts).2.tree? n = some t) (a.internAll ts).1 ts
  | [] => ⟨List.prefix_refl _, ha, .nil⟩
  | t :: ts => by
    obtain ⟨hp, ht, hn⟩ := internTree_step ha t
    obtain ⟨hp', ht', hs⟩ := internAll_step ht ts
    exact ⟨hp.trans hp', ht', .cons (tree?_mono hp' hn) hs⟩
end

/-- The numbers of lists of trees stand for the trees in one last arena. -/
theorem internLists_step {a : Arena κ ι} (ha : a.Tidy) (l : List (List (SyntaxTree κ ι))) :
    ∃ b : Arena κ ι, a.toList <+: b.toList ∧ b.Tidy ∧
      List.Forall₂ (List.Forall₂ fun n t => b.tree? n = some t) (a.internLists l) l := by
  induction l generalizing a with
  | nil => exact ⟨a, List.prefix_refl _, ha, .nil⟩
  | cons ts l ih =>
    obtain ⟨hp, ht, hs⟩ := internAll_step ha ts
    obtain ⟨b, hp', ht', hl⟩ := ih ht
    exact ⟨b, hp.trans hp', ht', .cons (hs.imp fun _ _ h => tree?_mono hp' h) hl⟩

/-- In a tidy arena numbers stand for the same trees just if they are the same. -/
theorem numbers_eq_iff {a : Arena κ ι} (ha : a.Tidy) {ms ns : List Nat}
    {ts us : List (SyntaxTree κ ι)} (ht : List.Forall₂ (fun n t => a.tree? n = some t) ms ts)
    (hu : List.Forall₂ (fun n t => a.tree? n = some t) ns us) : ms = ns ↔ ts = us := by
  constructor
  · rintro rfl
    exact List.right_unique_forall₂' (fun _ _ _ h h' => Option.some.inj (h.symm.trans h')) ht hu
  · rintro rfl
    have hinj : Relator.LeftUnique fun n t => a.tree? n = some t :=
      fun _ _ _ h h' => tree?_inj ha h h'
    exact List.left_unique_forall₂' hinj ht hu

end Arena

variable {α β : Type} [DecidableEq β] [Coded β]

/-- Recognising duplicates by number is recognising them by tree. -/
theorem distinctByTrees_eq (trees : α → List (SyntaxTree κ ι)) (label : α → β) (l : List α) :
    distinctByTrees trees label l = distinctBy (fun a => (trees a, label a)) l := by
  rw [distinctByTrees.eq_def]
  split
  · rfl
  · rfl
  · obtain ⟨b, _, hb, hl⟩ := Arena.internLists_step (a := Arena.empty) Arena.tidy_empty
      (l.map trees)
    dsimp only
    have hlen : (Arena.empty.internLists (l.map trees)).length = l.length := by simp
    rw [Register.toList_ofList, map_distinctBy _ (fun a => (trees a, label a)) Prod.snd,
      List.map_snd_zip (by omega)]
    intro e he f hf
    have stands {e : List Nat × α} (he : e ∈ (Arena.empty.internLists (l.map trees)).zip l) :
        List.Forall₂ (fun n t => b.tree? n = some t) e.1 (trees e.2) :=
      List.forall₂_zip (List.forall₂_map_right_iff.1 hl) he
    simp only [Prod.mk.injEq, Arena.numbers_eq_iff hb (stands he) (stands hf)]

theorem distinctTrees_eq (l : List (SyntaxTree κ ι)) : distinctTrees l = distinct l := by
  rw [distinctTrees, distinctByTrees_eq, distinct]
  have h := map_distinctBy (fun t : SyntaxTree κ ι => ([t], ())) id id (l := l)
    fun a _ b _ => by simp
  simpa using h

end ContextFree
