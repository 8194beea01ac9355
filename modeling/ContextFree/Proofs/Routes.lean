import ContextFree.NormalForm.UnitRoute
import ContextFree.Proofs.Filling
import Mathlib.Data.List.Nodup

/-! Routes. The search for routes finds exactly those that meet no non-terminal twice, and the
breadth-first closure finds everything that unit variants lead to, by such routes. -/
namespace ContextFree

/-- A route with the non-terminals at which its unit variants stop. -/
inductive Travels (vs : List Variant) : Nonterm → Route → List Nonterm → Nonterm → Prop
  | nil {a : Nonterm} : Travels vs a [] [] a
  | cons {a c b : Nonterm} {u : Variant} {r : Route} {stops : List Nonterm} (hu : u ∈ vs)
    (hh : u.head = a) (hc : u.unitTarget? = some c) (h : Travels vs c r stops b) :
    Travels vs a (u :: r) (c :: stops) b

/-- A route that meets no non-terminal twice. -/
def SimpleRoute (vs : List Variant) (a : Nonterm) (r : Route) (b : Nonterm) : Prop :=
  ∃ stops, Travels vs a r stops b ∧ (a :: stops).Nodup

variable {vs : List Variant}

theorem mem_unitEdges {a c : Nonterm} {u : Variant} :
    (u, c) ∈ (unitEdges vs).get a ↔ u ∈ vs ∧ u.head = a ∧ u.unitTarget? = some c := by
  rw [unitEdges, mem_pick_iff]
  simp only [Option.map_eq_some_iff, Prod.mk.injEq]
  constructor
  · rintro ⟨v, hv, d, hd, rfl, rfl, rfl⟩
    exact ⟨hv, rfl, hd⟩
  · rintro ⟨hu, hh, hc⟩
    exact ⟨u, hu, c, hc, hh, rfl, rfl⟩

theorem mem_bodies {a : Nonterm} {v : Variant} :
    v ∈ (bodies vs).get a ↔ v ∈ vs ∧ v.head = a ∧ v.unitTarget? = none := by
  rw [bodies, Index.get_ofList]
  simp only [List.mem_map, List.mem_filter, Option.isNone_iff_eq_none, decide_eq_true_eq]
  constructor
  · rintro ⟨_, ⟨⟨u, ⟨hu, ht⟩, rfl⟩, ha⟩, rfl⟩
    exact ⟨hu, ha, ht⟩
  · rintro ⟨hv, ha, ht⟩
    exact ⟨(v.head, v), ⟨⟨v, ⟨hv, ht⟩, rfl⟩, ha⟩, rfl⟩

namespace Travels
variable {a b c : Nonterm} {r : Route} {stops : List Nonterm}

theorem last_mem (h : Travels vs a r stops b) : b ∈ a :: stops := by
  induction h with
  | nil => simp
  | cons _ _ _ _ ih => exact List.mem_cons_of_mem _ ih

theorem concat {u : Variant} (h : Travels vs a r stops b) (hu : u ∈ vs) (hh : u.head = b)
    (hc : u.unitTarget? = some c) : Travels vs a (r ++ [u]) (stops ++ [c]) c := by
  induction h with
  | nil => exact .cons hu hh hc .nil
  | cons hu' hh' hc' _ ih => exact .cons hu' hh' hc' (ih hh)

/-- Every stop is the target of a unit variant. -/
theorem exists_of_mem (h : Travels vs a r stops b) {c : Nonterm} (hc : c ∈ stops) :
    ∃ u ∈ vs, u.unitTarget? = some c := by
  induction h with
  | nil => simp at hc
  | cons hu _ ht _ ih =>
    rcases List.mem_cons.1 hc with rfl | hc
    · exact ⟨_, hu, ht⟩
    · exact ih hc

theorem mem_of_mem_route (h : Travels vs a r stops b) {u : Variant} (hu : u ∈ r) : u ∈ vs := by
  induction h with
  | nil => simp at hu
  | cons hu' _ _ _ ih =>
    rcases List.mem_cons.1 hu with rfl | hu
    · exact hu'
    · exact ih hu

theorem mem_of_closed {found : List Nonterm} (h : Travels vs a r stops b) (ha : a ∈ found)
    (hclosed : ∀ c ∈ found, ∀ e ∈ (unitEdges vs).get c, e.2 ∈ found) : b ∈ found := by
  induction h with
  | nil => exact ha
  | cons hu hh ht _ ih => exact ih (hclosed _ ha (_, _) (mem_unitEdges.2 ⟨hu, hh, ht⟩))

/-- A route begins at the head of its first variant. -/
theorem head_eq (h : Travels vs a r stops b) : (r.head?.map (·.head)).getD b = a := by
  cases h with
  | nil => rfl
  | cons _ hh _ _ => exact hh

end Travels

theorem subset_erase_iff {α : Type} [DecidableEq α] {l m : List α} {a : α} (h : l.Nodup) :
    m ⊆ l.erase a ↔ a ∉ m ∧ m ⊆ l := by
  constructor
  · intro hsub
    exact ⟨fun hm => h.not_mem_erase (hsub hm), fun b hb => List.mem_of_mem_erase (hsub hb)⟩
  · rintro ⟨ha, hsub⟩ b hb
    exact h.mem_erase_iff.2 ⟨fun e => ha (e ▸ hb), hsub hb⟩

theorem simpleRoutes_self (free : List Nonterm) (a : Nonterm) :
    simpleRoutes (unitEdges vs).get free a a = [[]] := by
  rw [simpleRoutes, if_pos rfl]

/-- A route to another non-terminal begins with a step to a free one. -/
theorem mem_simpleRoutes_of_ne {free : List Nonterm} {a b : Nonterm} (hab : a ≠ b) {r : Route} :
    r ∈ simpleRoutes (unitEdges vs).get free a b ↔
      ∃ u c r', r = u :: r' ∧ (u, c) ∈ (unitEdges vs).get a ∧ c ∈ free ∧
        r' ∈ simpleRoutes (unitEdges vs).get (free.erase c) c b := by
  rw [simpleRoutes, if_neg hab, List.mem_flatMap]
  constructor
  · rintro ⟨⟨u, c⟩, he, hr⟩
    by_cases hfree : c ∈ free
    · simp only [hfree, dite_true] at hr
      obtain ⟨r', hr', rfl⟩ := List.mem_map.1 hr
      exact ⟨u, c, r', rfl, he, hfree, hr'⟩
    · simp [hfree] at hr
  · rintro ⟨u, c, r', rfl, he, hfree, hr'⟩
    refine ⟨(u, c), he, ?_⟩
    simp only [hfree, dite_true]
    exact List.mem_map_of_mem hr'

/-- The induction is on the free non-terminals, where the start of the route is not one. -/
theorem mem_simpleRoutes {b : Nonterm} (n : Nat) : ∀ (free : List Nonterm) (a : Nonterm),
    free.length = n → free.Nodup → a ∉ free → ∀ r : Route,
    r ∈ simpleRoutes (unitEdges vs).get free a b ↔
      ∃ stops, Travels vs a r stops b ∧ stops.Nodup ∧ stops ⊆ free := by
  induction n using Nat.strongRecOn with
  | ind n ih =>
    intro free a hlen hnodup ha r
    have shorter {c : Nonterm} (hc : c ∈ free) := ih (free.erase c).length
      (hlen ▸ length_erase_lt hc) (free.erase c) c rfl (hnodup.erase c) hnodup.not_mem_erase
    by_cases hab : a = b
    · subst hab
      rw [simpleRoutes_self, List.mem_singleton]
      constructor
      · rintro rfl
        exact ⟨[], .nil, by simp, by simp⟩
      · rintro ⟨stops, h, -, hsub⟩
        cases h with
        | nil => rfl
        | cons _ _ _ h => exact (ha (hsub h.last_mem)).elim
    · rw [mem_simpleRoutes_of_ne hab]
      constructor
      · rintro ⟨u, c, r', rfl, he, hc, hr'⟩
        obtain ⟨hu, hh, ht⟩ := mem_unitEdges.1 he
        obtain ⟨stops, h, hn, hsub⟩ := (shorter hc r').1 hr'
        obtain ⟨hcs, hsub⟩ := (subset_erase_iff hnodup).1 hsub
        exact ⟨c :: stops, .cons hu hh ht h, List.nodup_cons.2 ⟨hcs, hn⟩,
          List.cons_subset.2 ⟨hc, hsub⟩⟩
      · rintro ⟨stops, h, hn, hsub⟩
        cases h with
        | nil => exact (hab rfl).elim
        | @cons _ c _ u r' stops hu hh ht h =>
          obtain ⟨hc, hsub⟩ := List.cons_subset.1 hsub
          obtain ⟨hcs, hn⟩ := List.nodup_cons.1 hn
          refine ⟨u, c, r', rfl, mem_unitEdges.2 ⟨hu, hh, ht⟩, hc, (shorter hc r').2 ?_⟩
          exact ⟨stops, h, hn, (subset_erase_iff hnodup).2 ⟨hcs, hsub⟩⟩

section Closure
variable {all : List Nonterm}

/-- The routes between two non-terminals are all simple ones, if no unit variant leads outside. -/
theorem mem_unitRoutes (hall : all.Nodup)
    (hin : ∀ u ∈ vs, ∀ c, u.unitTarget? = some c → c ∈ all) {a b : Nonterm} {r : Route} :
    r ∈ unitRoutes (unitEdges vs).get all a b ↔ SimpleRoute vs a r b := by
  rw [unitRoutes, mem_simpleRoutes _ _ a rfl (hall.erase a) hall.not_mem_erase]
  constructor
  · rintro ⟨stops, h, hn, hsub⟩
    obtain ⟨ha, -⟩ := (subset_erase_iff hall).1 hsub
    exact ⟨stops, h, List.nodup_cons.2 ⟨ha, hn⟩⟩
  · rintro ⟨stops, h, hn⟩
    obtain ⟨ha, hn⟩ := List.nodup_cons.1 hn
    refine ⟨stops, h, hn, (subset_erase_iff hall).2 ⟨ha, fun c hc => ?_⟩⟩
    obtain ⟨u, hu, ht⟩ := h.exists_of_mem hc
    exact hin u hu c ht

/-- What one step of the search discovers: some of the edges, such that everything that they lead
to is unseen no more. -/
structure Discovers (es : List (Variant × Nonterm)) (unseen : List Nonterm)
    (found : List (Variant × Nonterm)) (rest : List Nonterm) : Prop where
  sound : ∀ e ∈ found, e ∈ es ∧ e.2 ∈ unseen
  mem_rest : ∀ c, c ∈ rest ↔ c ∈ unseen ∧ ∀ e ∈ found, e.2 ≠ c
  gone : ∀ e ∈ es, e.2 ∉ rest
  nodup : rest.Nodup

theorem discovers (es : List (Variant × Nonterm)) {unseen : List Nonterm} (hn : unseen.Nodup) :
    Discovers es unseen (discover es unseen).1 (discover es unseen).2 := by
  induction es generalizing unseen with
  | nil => exact ⟨by simp [discover], by simp [discover], by simp, hn⟩
  | cons e es ih =>
    rw [discover]
    split
    · rename_i he
      have h := ih (hn.erase e.2)
      have hrest (c : Nonterm) : c ∈ (discover es (unseen.erase e.2)).2 ↔
          (c ≠ e.2 ∧ c ∈ unseen) ∧ ∀ f ∈ (discover es (unseen.erase e.2)).1, f.2 ≠ c := by
        rw [h.mem_rest, hn.mem_erase_iff]
      refine ⟨?_, fun c => ?_, ?_, h.nodup⟩
      · intro f hf
        rcases List.mem_cons.1 hf with rfl | hf
        · exact ⟨.head _, he⟩
        · exact ⟨.tail _ (h.sound f hf).1, List.mem_of_mem_erase (h.sound f hf).2⟩
      · rw [hrest, List.forall_mem_cons, ne_comm, and_assoc, and_left_comm]
      · intro f hf
        rcases List.mem_cons.1 hf with rfl | hf
        · exact fun hm => ((hrest _).1 hm).1.1 rfl
        · exact h.gone f hf
    · rename_i he
      have h := ih hn
      refine ⟨fun f hf => ⟨.tail _ (h.sound f hf).1, (h.sound f hf).2⟩, h.mem_rest, ?_, h.nodup⟩
      intro f hf
      rcases List.mem_cons.1 hf with rfl | hf
      · exact fun hm => he ((h.mem_rest _).1 hm).1
      · exact h.gone f hf

/-- What is unseen no more was found. -/
theorem Discovers.exists_found {es found : List (Variant × Nonterm)} {unseen rest : List Nonterm}
    (h : Discovers es unseen found rest) {c : Nonterm} (hc : c ∈ unseen) (hnot : c ∉ rest) :
    ∃ e ∈ found, e.2 = c := by
  by_contra hno
  exact hnot ((h.mem_rest c).2 ⟨hc, fun e he heq => hno ⟨e, he, heq⟩⟩)

/-- What the search carries along: routes from the start that meet nothing that is still
unseen, and nothing twice. -/
def Explored (vs : List Variant) (origin : Nonterm) (unseen : List Nonterm)
    (e : Nonterm × Route) : Prop :=
  ∃ stops, Travels vs origin e.2 stops e.1 ∧ (origin :: stops).Nodup ∧
    ∀ c ∈ origin :: stops, c ∉ unseen

theorem breadthFirst_sound {origin : Nonterm} (unseen : List Nonterm)
    (queue : List (Nonterm × Route)) (hn : unseen.Nodup)
    (hq : ∀ e ∈ queue, Explored vs origin unseen e) :
    ∀ e ∈ breadthFirst (unitEdges vs).get unseen queue, SimpleRoute vs origin e.2 e.1 := by
  induction unseen, queue using breadthFirst.induct (unitEdges vs).get with
  | case1 unseen => simp [breadthFirst]
  | case2 unseen a route queue found ih =>
    obtain ⟨hes, hrest, -, hn'⟩ := discovers ((unitEdges vs).get a) hn
    obtain ⟨stops, htravel, hsimple, hseen⟩ := hq _ List.mem_cons_self
    rw [breadthFirst]
    intro e he
    rcases List.mem_cons.1 he with rfl | he
    · exact ⟨stops, htravel, hsimple⟩
    · refine ih hn' (fun f hf => ?_) e he
      rcases List.mem_append.1 hf with hf | hf
      · obtain ⟨stops', h, hs, hd⟩ := hq f (.tail _ hf)
        exact ⟨stops', h, hs, fun c hc hm => hd c hc ((hrest c).1 hm).1⟩
      · obtain ⟨⟨u, c⟩, hu, rfl⟩ := List.mem_map.1 hf
        obtain ⟨hu', hc⟩ := hes _ hu
        obtain ⟨huv, hh, ht⟩ := mem_unitEdges.1 hu'
        refine ⟨stops ++ [c], htravel.concat huv hh ht, ?_, fun d hd hm => ?_⟩
        · rw [← List.cons_append]
          exact hsimple.append (List.nodup_singleton c) (by simpa using fun h => hseen _ h hc)
        · rw [← List.cons_append, List.mem_append, List.mem_singleton] at hd
          obtain ⟨hm, hne⟩ := (hrest d).1 hm
          rcases hd with hd | rfl
          · exact hseen d hd hm
          · exact hne _ hu rfl

/-- What is queued is found. -/
theorem mem_breadthFirst {edges : Nonterm → List (Variant × Nonterm)} (unseen : List Nonterm)
    (queue : List (Nonterm × Route)) : ∀ e ∈ queue, e ∈ breadthFirst edges unseen queue := by
  induction unseen, queue using breadthFirst.induct edges with
  | case1 unseen => simp
  | case2 unseen a route queue found ih =>
    rw [breadthFirst]
    exact List.forall_mem_cons.2 ⟨.head _, fun e he => .tail _ (ih e (List.mem_append_left _ he))⟩

/-- What the search returns is closed under edges to what was unseen. -/
theorem breadthFirst_closed (unseen : List Nonterm) (queue : List (Nonterm × Route))
    (hn : unseen.Nodup) :
    let found := (breadthFirst (unitEdges vs).get unseen queue).map (·.1)
    ∀ b ∈ found, ∀ e ∈ (unitEdges vs).get b, e.2 ∈ unseen → e.2 ∈ found := by
  induction unseen, queue using breadthFirst.induct (unitEdges vs).get with
  | case1 unseen => simp [breadthFirst]
  | case2 unseen a route queue found ih =>
    have hdiscovers := discovers ((unitEdges vs).get a) hn
    have hclosed := ih hdiscovers.nodup
    have fresh : ∀ e ∈ found.1, e.2 ∈
        (breadthFirst (unitEdges vs).get found.2
          (queue ++ found.1.map fun e => (e.2, route ++ [e.1]))).map (·.1) :=
      fun e he => List.mem_map_of_mem (f := Prod.fst) (mem_breadthFirst _ _ (e.2, route ++ [e.1])
        (List.mem_append_right _ (List.mem_map.2 ⟨e, he, rfl⟩)))
    rw [breadthFirst]
    simp only [List.map_cons, List.mem_cons]
    intro b hb e he hm
    right
    by_cases hf : e.2 ∈ found.2
    · rcases hb with rfl | hb
      · exact (hdiscovers.gone e he hf).elim
      · exact hclosed b hb e he hf
    · obtain ⟨f, hfound, hfe⟩ := hdiscovers.exists_found hm hf
      exact hfe ▸ fresh f hfound

/-- The closure of a non-terminal reaches by simple routes all that unit variants lead to. -/
theorem unitClosure_spec (hall : all.Nodup)
    (hin : ∀ u ∈ vs, ∀ c, u.unitTarget? = some c → c ∈ all) (a : Nonterm) :
    (∀ e ∈ unitClosure (unitEdges vs).get all a, SimpleRoute vs a e.2 e.1) ∧
    ∀ r stops b, Travels vs a r stops b →
      b ∈ (unitClosure (unitEdges vs).get all a).map (·.1) := by
  have hn := hall.erase a
  have ha : a ∉ all.erase a := hall.not_mem_erase
  refine ⟨breadthFirst_sound (all.erase a) [(a, [])] hn fun e he => ?_, fun r stops b h => ?_⟩
  · obtain rfl := List.mem_singleton.1 he
    exact ⟨[], .nil, by simp, by simpa using ha⟩
  · have mem_start : a ∈ (unitClosure (unitEdges vs).get all a).map (·.1) :=
      List.mem_map_of_mem (f := Prod.fst) (mem_breadthFirst _ _ _ (.head _))
    apply h.mem_of_closed mem_start
    intro c hc e he
    obtain ⟨hu, -, ht⟩ := mem_unitEdges.1 he
    by_cases hd : e.2 = a
    · exact hd ▸ mem_start
    · exact breadthFirst_closed _ _ hn c hc e he (hall.mem_erase_iff.2 ⟨hd, hin e.1 hu e.2 ht⟩)

end Closure
end ContextFree
