import ContextFree.Index
import ContextFree.NormalForm.Variant

/-! Unit variants as edges between non-terminals: what can be reached through them, by the route
that a breadth-first search finds first, and all routes that meet no non-terminal twice. -/
namespace ContextFree

/-- The unit variants of each non-terminal, with what they lead to. -/
def unitEdges (vs : List Variant) : Index Nonterm (Variant × Nonterm) :=
  .ofList (vs.filterMap fun v => v.unitTarget?.map fun b => (v.head, v, b))

/-- The other variants of each non-terminal. -/
def bodies (vs : List Variant) : Index Nonterm Variant :=
  .ofList ((vs.filter (·.unitTarget?.isNone)).map fun v => (v.head, v))

/-- Splits off the edges that lead to something new, each new thing once, from what stays new. -/
def discover : List (Variant × Nonterm) → List Nonterm → List (Variant × Nonterm) × List Nonterm
  | [], unseen => ([], unseen)
  | e :: es, unseen =>
    if e.2 ∈ unseen then
      let r := discover es (unseen.erase e.2)
      (e :: r.1, r.2)
    else discover es unseen

theorem length_discover (es : List (Variant × Nonterm)) (unseen : List Nonterm) :
    (discover es unseen).1.length + (discover es unseen).2.length = unseen.length := by
  induction es generalizing unseen with
  | nil => simp [discover]
  | cons e es ih =>
    rw [discover]
    split
    · rename_i h
      have hp := List.length_pos_of_mem h
      have he := List.length_erase_of_mem h
      have hi := ih (unseen.erase e.2)
      simp only [List.length_cons]
      omega
    · exact ih unseen

/-- A breadth-first search. The queue holds what was reached, each with the route to it. -/
def breadthFirst (edges : Nonterm → List (Variant × Nonterm)) (unseen : List Nonterm)
    (queue : List (Nonterm × Route)) : List (Nonterm × Route) :=
  match queue with
  | [] => []
  | (a, route) :: queue =>
    let found := discover (edges a) unseen
    (a, route) ::
      breadthFirst edges found.2 (queue ++ found.1.map fun (u, b) => (b, route ++ [u]))
termination_by unseen.length + queue.length
decreasing_by
  have h := length_discover (edges a) unseen
  simp only [List.length_append, List.length_map, List.length_cons]
  omega

/-- Everything that unit variants lead to from a non-terminal, itself first, with a shortest
route to each. -/
def unitClosure (edges : Nonterm → List (Variant × Nonterm)) (all : List Nonterm) (a : Nonterm) :
    List (Nonterm × Route) :=
  breadthFirst edges (all.erase a) [(a, [])]

/-- The routes between two non-terminals whose stops are all different and among the free ones,
in the order of the variants. -/
def simpleRoutes (edges : Nonterm → List (Variant × Nonterm)) (free : List Nonterm)
    (a b : Nonterm) : List Route :=
  if a = b then [[]]
  else (edges a).flatMap fun (u, c) =>
    if _h : c ∈ free then (simpleRoutes edges (free.erase c) c b).map (u :: ·) else []
termination_by free.length
decreasing_by exact length_erase_lt _h

/-- Every route of unit variants between two non-terminals that meets none twice. -/
def unitRoutes (edges : Nonterm → List (Variant × Nonterm)) (all : List Nonterm)
    (a b : Nonterm) : List Route :=
  simpleRoutes edges (all.erase a) a b

end ContextFree
