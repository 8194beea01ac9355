import ContextFree.Parse
import ContextFree.Proofs.Renaming.Trees
import Mathlib.Algebra.Order.BigOperators.Group.List
import Mathlib.Data.Set.Function

/-! Parsing with a renamed grammar. Only the names of the grammar matter, so a renaming need not
keep others apart; one that does agrees with it on them. -/
namespace ContextFree

variable {f : String → String}

section Parser
variable [Pattern.Engine] (hf : Function.Injective f) (g : Grammar) (w : String)
include hf

theorem chart_rename (mode : Mode) :
    (g.rename f).parser.chart w mode = g.parser.chart w mode := by
  change (g.rename f).normalForm.chart w mode = g.normalForm.chart w mode
  rw [Grammar.normalForm_rename hf, NormalForm.chart_rename]

omit [Pattern.Engine] in
theorem accepts_rename (c : Chart) : (g.rename f).parser.accepts c = g.parser.accepts c := by
  change c.accepts (g.rename f).normalForm = c.accepts g.normalForm
  rw [Grammar.normalForm_rename hf, NormalForm.accepts_rename]

theorem contains_rename : (g.rename f).parser.contains w = g.parser.contains w := by
  rw [Parser.contains, Parser.contains, chart_rename hf]
  exact congrArg (Except.map · _) (funext (accepts_rename hf g))

theorem parse_rename (mode : Mode) : (g.rename f).parser.parse w mode =
    (g.parser.parse w mode).map (List.map (SyntaxTree.mapKeys f)) := by
  rw [Parser.parse, Parser.parse, chart_rename hf]
  cases g.parser.chart w mode with
  | error e => rfl
  | ok c =>
    dsimp only
    rw [accepts_rename hf]
    split
    · exact congrArg Except.ok (trees_rename hf g c)
    · rfl

end Parser

namespace Grammar

/-- The non-terminals of a grammar: those that have a production. -/
def names (g : Grammar) : List String := g.productions.map (·.lhs)

variable {g : Grammar} {F : String → String}

theorem start_mem_names : g.start ∈ g.names := by
  obtain ⟨p, hp, hlhs⟩ := g.start_defined
  exact List.mem_map.2 ⟨p, hp, hlhs⟩

theorem mem_names_of_rhs {p : Production} (hp : p ∈ g.productions) {name : String}
    (hname : .nonterm name ∈ p.rhs) : name ∈ g.names := by
  obtain ⟨q, hq, hlhs⟩ := g.closed p hp name (List.mem_filterMap.2 ⟨_, hname, rfl⟩)
  exact List.mem_map.2 ⟨q, hq, hlhs⟩

/-- Renamings that agree on the names of a grammar rename it alike. -/
theorem rename_congr (h : ∀ name ∈ g.names, f name = F name) : g.rename f = g.rename F := by
  have hproductions : g.productions.map (Production.rename f) =
      g.productions.map (Production.rename F) := by
    refine List.map_congr_left fun p hp => ?_
    rw [Production.rename, Production.rename, h p.lhs (List.mem_map_of_mem hp)]
    congr 1
    refine List.map_congr_left fun x hx => ?_
    cases x with
    | term t => rfl
    | nonterm name => exact congrArg Symbol.nonterm (h name (mem_names_of_rhs hp hx))
  rw [rename.eq_1, rename.eq_1]
  simp only [h g.start start_mem_names, hproductions]

theorem rename_id (g : Grammar) : g.rename id = g := by
  have hsymbol : Symbol.rename id = id := by
    funext x
    cases x <;> rfl
  have hproduction : Production.rename id = id := by
    funext p
    rw [Production.rename, hsymbol, List.map_id]
    rfl
  rw [rename.eq_1]
  simp only [hproduction, List.map_id, id_eq]

end Grammar

section Extension
variable {names : List String} {s t : String}

/-- A renaming of some names, where all others are marked, so that they become none of those and do
not stay what they are. -/
def extend (names : List String) (f : String → String) (s : String) : String :=
  if s ∈ names then f s
  else .ofList (List.replicate ((names.map fun s => (f s).length).sum + 1) '_' ++ s.toList)

theorem extend_of_mem (hs : s ∈ names) : extend names f s = f s := if_pos hs

theorem extend_of_notMem (hs : s ∉ names) : extend names f s =
    .ofList (List.replicate ((names.map fun s => (f s).length).sum + 1) '_' ++ s.toList) :=
  if_neg hs

theorem length_extend (hs : s ∉ names) : (extend names f s).length =
    (names.map fun s => (f s).length).sum + 1 + s.length := by
  rw [extend_of_notMem hs, String.length_ofList, List.length_append, List.length_replicate,
    String.length_toList]

theorem extend_ne_of_mem (hs : s ∈ names) (ht : t ∉ names) :
    extend names f s ≠ extend names f t := by
  intro h
  have hlength := congrArg String.length h
  have hle : (f s).length ≤ (names.map fun s => (f s).length).sum :=
    List.le_sum_of_mem (List.mem_map.2 ⟨s, hs, rfl⟩)
  rw [extend_of_mem hs, length_extend ht] at hlength
  omega

/-- What keeps some names apart is extended to what keeps all apart. -/
theorem extend_injective (hf : Set.InjOn f {s | s ∈ names}) :
    Function.Injective (extend names f) := by
  intro s t h
  by_cases hs : s ∈ names <;> by_cases ht : t ∈ names
  · rw [extend_of_mem hs, extend_of_mem ht] at h
    exact hf hs ht h
  · exact (extend_ne_of_mem hs ht h).elim
  · exact (extend_ne_of_mem ht hs h.symm).elim
  · rw [extend_of_notMem hs, extend_of_notMem ht, String.ofList_inj] at h
    exact String.toList_inj.1 (List.append_cancel_left h)

/-- Extended, a renaming that leaves the names as they are leaves no other name so. -/
theorem mem_of_extend_id (h : extend names id s = s) : s ∈ names := by
  by_contra hs
  have hlength := congrArg String.length h
  rw [length_extend hs] at hlength
  omega

end Extension

namespace SyntaxTree
variable {κ κ' ι : Type} {h : κ → κ} {F F' : κ → κ'}

mutual
/-- Only the keys of a tree matter, and they are fixed by what fixes the tree. -/
theorem mapKeys_congr (hF : ∀ k, h k = k → F k = F' k) :
    (t : SyntaxTree κ ι) → t.mapKeys h = t → t.mapKeys F = t.mapKeys F'
  | .leaf _, _ => rfl
  | .node k ts, ht => by
    rw [mapKeys_node, node.injEq] at ht
    rw [mapKeys_node, mapKeys_node, hF k ht.1, map_mapKeys_congr hF ts ht.2]
theorem map_mapKeys_congr (hF : ∀ k, h k = k → F k = F' k) :
    (ts : List (SyntaxTree κ ι)) → ts.map (mapKeys h) = ts →
      ts.map (mapKeys F) = ts.map (mapKeys F')
  | [], _ => rfl
  | t :: ts, hts => by
    rw [List.map_cons, List.cons.injEq] at hts
    rw [List.map_cons, List.map_cons, mapKeys_congr hF t hts.1, map_mapKeys_congr hF ts hts.2]
end

end SyntaxTree

variable {g : Grammar} {w : String} {mode : Mode}

/-- The nodes of trees have names of the grammar: these alone are left by a renaming that leaves the
grammar as it is. -/
theorem map_mapKeys_of_parse [Pattern.Engine] {F F' : String → String}
    (hF : ∀ name ∈ g.names, F name = F' name) {ts : List ParseTree}
    (hts : g.parser.parse w mode = .ok ts) :
    ts.map (SyntaxTree.mapKeys F) = ts.map (SyntaxTree.mapKeys F') := by
  have hinj : Function.Injective (extend g.names id) := extend_injective Function.injective_id.injOn
  have hsame : g.rename (extend g.names id) = g :=
    (Grammar.rename_congr fun _ hname => extend_of_mem hname).trans g.rename_id
  have hfixed := parse_rename hinj g w mode
  rw [hsame, hts] at hfixed
  exact SyntaxTree.map_mapKeys_congr (fun k hk => hF k (mem_of_extend_id hk)) ts
    (Except.ok.inj hfixed).symm

/-- Under other names, which are kept apart, a grammar contains the same words, rejects others for
the same reasons, and has the same trees with the other names and the same charts. -/
theorem parser_rename [Pattern.Engine] (hf : Set.InjOn f {name | name ∈ g.names}) (w : String) :
    (g.rename f).parser.contains w = g.parser.contains w ∧
      (g.rename f).parser.allSyntaxTrees w =
        (g.parser.allSyntaxTrees w).map (List.map (SyntaxTree.mapKeys f)) ∧
      ∀ mode, (g.rename f).parser.chart w mode = g.parser.chart w mode := by
  have hinj := extend_injective hf
  have hagree : ∀ name ∈ g.names, extend g.names f name = f name := fun _ => extend_of_mem
  rw [← Grammar.rename_congr hagree]
  refine ⟨contains_rename hinj g w, ?_, chart_rename hinj g w⟩
  rw [Parser.allSyntaxTrees, Parser.allSyntaxTrees, parse_rename hinj]
  cases hts : g.parser.parse w .exhaustive with
  | error e => rfl
  | ok ts => exact congrArg Except.ok (map_mapKeys_of_parse hagree hts)

/-- A grammar whose normal form has tails, wrapped terminals and unit rules. -/
def parens : Grammar where
  start := "S"
  productions := [⟨"S", [.literal "(", .nonterm "A", .literal ")"]⟩, ⟨"A", [.nonterm "S"]⟩,
    ⟨"A", [.nonterm "B"]⟩, ⟨"B", []⟩, ⟨"B", [.literal "a"]⟩]
  start_defined := ⟨_, .head _, rfl⟩
  closed := by simp [Production.references, Symbol.nonterm?, Symbol.literal]

/-- Names that look like those of non-terminals that are not the grammar's, or like none. -/
def disguise (name : String) : String :=
  if name = "S" then "<start>" else if name = "A" then "<v1.1>" else if name = "B" then "" else name

theorem parser_rename_disguise : Set.InjOn disguise {name | name ∈ parens.names} ∧
    (parens.rename disguise).parser.contains "(a)" = parens.parser.contains "(a)" ∧
      (parens.rename disguise).parser.allSyntaxTrees "(a)" =
        (parens.parser.allSyntaxTrees "(a)").map (List.map (SyntaxTree.mapKeys disguise)) ∧
      ∀ mode, (parens.rename disguise).parser.chart "(a)" mode =
        parens.parser.chart "(a)" mode := by
  have hf : Set.InjOn disguise {name | name ∈ parens.names} := by
    have hnames : ∀ s ∈ parens.names, ∀ t ∈ parens.names, disguise s = disguise t → s = t := by
      decide
    exact fun s hs t ht => hnames s hs t ht
  exact ⟨hf, parser_rename hf "(a)"⟩

end ContextFree
