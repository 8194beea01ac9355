import ContextFree.NormalForm.Rule

/-! Pruning: a rule is of use if some complete derivation from the start contains it. -/
namespace ContextFree

variable {ν τ : Type} [DecidableEq ν] [Coded ν]

namespace Rule

/-- Whether what stands on the right-hand side derives terminals. -/
def productive (generating : Roster ν) (r : Rule ν τ) : Bool :=
  match r.body with
  | .term _ => true
  | .pair b c => generating.has b && generating.has c

/-- The non-terminals on the right-hand side. -/
def references (r : Rule ν τ) : List ν :=
  match r.body with
  | .term _ => []
  | .pair b c => [b, c]

end Rule

/-- The non-terminals that derive a sequence of terminals. -/
def generating (rules : List (Rule ν τ)) : Roster ν :=
  saturate Register.size (rules.foldl fun found r =>
    if r.productive found then found.enter r.lhs else found) rules.length .empty

/-- The non-terminals that occur in what a start derives. -/
def reachable (start : ν) (rules : List (Rule ν τ)) : Roster ν :=
  saturate Register.size (rules.foldl fun found r =>
    if found.has r.lhs then found.enterAll r.references else found)
    (2 * rules.length + 1) (Register.empty.enter start)

/-- Drops rules with a non-terminal that derives nothing, and then those that the start does not
reach. -/
def prune (start : ν) (rules : List (Rule ν τ)) : List (Rule ν τ) :=
  let found := generating rules
  let productive := rules.filter (Rule.productive found)
  let reached := reachable start productive
  productive.filter fun r => reached.has r.lhs

end ContextFree
