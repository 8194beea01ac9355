import ContextFree.Proofs.LinearRecognition

/-! Matches that end inside a character. A linear grammar walks along the terminals of a run from
offset to offset, and looks for a boundary only where the run ends. So a match that ends inside a
character is no match for the last terminal of a run; any other terminal hands the offset on to
the next one, which may be unable to read there. -/
namespace ContextFree

/-- Only black boxes can end a match inside a character. -/
theorem Terminal.entersNoCharacter [Pattern.Engine] {t : Terminal} {w : String}
    (hb : ∀ b, t = .blackBox b → t.EntersNoCharacter w) : t.EntersNoCharacter w := by
  cases t with
  | blackBox b => exact hb b rfl
  | _ =>
    apply Terminal.KeepsBoundaries.entersNoCharacter
    apply Terminal.keepsBoundaries
    intro b hb
    simp at hb

namespace LinearGrammar

variable {lg : LinearGrammar} {w : String}

/-- As long as no black box but the last of a run matches up to the inside of a character, black
boxes are asked at boundaries only, and a match that ends inside a character counts as none. -/
theorem contains_iff_of_entersNoCharacter [Pattern.Engine] (hw : lg.grammar.Answers w)
    (hruns : ∀ s ∈ lg.shapes, ∀ ts ∈ s.runs, ∀ b, .blackBox b ∈ ts.dropLast →
      (Terminal.blackBox b).EntersNoCharacter w) :
    ∃ b, lg.contains w = .ok b ∧ (b = true ↔ lg.grammar.Generates w) := by
  apply exists_contains_of_walkable
  intro s hs ts hts
  constructor
  · intro t ht
    obtain ⟨hmem, hne⟩ := mem_terminals_of_runs hs hts ht
    refine ⟨hne, fun p hp => Terminal.exists_accept (fun b hb => ?_) hp⟩
    exact hw b (hb ▸ hmem) p hp
  · intro t ht
    apply Terminal.entersNoCharacter
    intro b hb
    exact hb ▸ hruns s hs ts hts b (hb ▸ ht)

/-- A digit and one byte more. -/
def digitAndByte : LinearGrammar where
  grammar :=
    { start := "S"
      productions := [⟨"S", [.blackBox (.predicate "digit" Char.isDigit),
        .blackBox ⟨"half", Matcher.forward 1⟩]⟩]
      start_defined := ⟨_, .head _, rfl⟩
      closed := by simp [Production.references, Symbol.nonterm?, Symbol.blackBox] }
  shapes := [⟨"S", [.blackBox (.predicate "digit" Char.isDigit),
    .blackBox ⟨"half", Matcher.forward 1⟩], none⟩]
  shapes_eq := rfl

theorem answers_digitAndByte (w : String) : digitAndByte.grammar.Answers w := by
  have hterminals : digitAndByte.grammar.terminals =
    [.blackBox (.predicate "digit" Char.isDigit), .blackBox ⟨"half", Matcher.forward 1⟩] := rfl
  intro b hb p hp
  rw [hterminals, List.mem_pair, Terminal.blackBox.injEq, Terminal.blackBox.injEq] at hb
  rcases hb with rfl | rfl
  · exact Matcher.exists_one Char.isDigit hp
  · exact ⟨_, rfl⟩

theorem entersNoCharacter_digitAndByte [Pattern.Engine] (w : String) :
    ∀ s ∈ digitAndByte.shapes, ∀ ts ∈ s.runs, ∀ b, .blackBox b ∈ ts.dropLast →
      (Terminal.blackBox b).EntersNoCharacter w := by
  intro s hs ts hts b hb
  obtain rfl : b = .predicate "digit" Char.isDigit := by
    obtain rfl := List.mem_singleton.1 hs
    obtain rfl := List.mem_singleton.1 hts
    simpa using hb
  apply Terminal.KeepsBoundaries.entersNoCharacter
  apply Terminal.keepsBoundaries
  intro c hc p hp
  rw [Terminal.blackBox.injEq] at hc
  exact hc ▸ Matcher.exists_one_bounds Char.isDigit hp

theorem contains_iff_of_entersNoCharacter_digitAndByte : digitAndByte.grammar.Answers "7é" ∧
    (∀ s ∈ digitAndByte.shapes, ∀ ts ∈ s.runs, ∀ b, .blackBox b ∈ ts.dropLast →
      (Terminal.blackBox b).EntersNoCharacter "7é") ∧
    ∃ b, digitAndByte.contains "7é" = .ok b ∧ (b = true ↔ digitAndByte.grammar.Generates "7é") :=
  ⟨answers_digitAndByte "7é", entersNoCharacter_digitAndByte "7é",
    contains_iff_of_entersNoCharacter (answers_digitAndByte "7é")
      (entersNoCharacter_digitAndByte "7é")⟩

/-- The byte ends inside the second character, which counts as no match. -/
example : (digitAndByte.contains "7é").toOption = some false ∧
    (digitAndByte.contains "77").toOption = some true := by
  decide +kernel

/-- One byte and an "a". -/
def byteAndLetter : LinearGrammar where
  grammar :=
    { start := "S"
      productions := [⟨"S", [.blackBox ⟨"half", Matcher.forward 1⟩, .literal "a"]⟩]
      start_defined := ⟨_, .head _, rfl⟩
      closed := by simp [Production.references, Symbol.nonterm?, Symbol.blackBox, Symbol.literal] }
  shapes := [⟨"S", [.blackBox ⟨"half", Matcher.forward 1⟩, .literal "a"], none⟩]
  shapes_eq := rfl

/-- The byte ends inside the character, where the "a" is looked for next. -/
theorem contains_byteAndLetter : byteAndLetter.contains "é" = .error (.notBoundary 1) := by
  decide +kernel

/-- Answers at boundaries are not enough: a match that ends inside a character is followed. -/
theorem not_contains_of_answers : ¬ ∀ (lg : LinearGrammar) (w : String), lg.grammar.Answers w →
    ∃ b, lg.contains w = .ok b := by
  intro h
  have hterminals : byteAndLetter.grammar.terminals =
    [.blackBox ⟨"half", Matcher.forward 1⟩, .literal "a"] := rfl
  have hanswers : byteAndLetter.grammar.Answers "é" := by
    intro b hb p _
    obtain rfl : b = ⟨"half", Matcher.forward 1⟩ := by simpa [hterminals] using hb
    exact ⟨_, rfl⟩
  obtain ⟨b, hb⟩ := h byteAndLetter "é" hanswers
  rw [contains_byteAndLetter] at hb
  simp at hb

end LinearGrammar
end ContextFree
