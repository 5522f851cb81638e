import ConstLang.Proofs.Program.Viability
import Mathlib.Data.List.Basic

/-!
# Definitions in front

Definitions that are read on their own are read in front of any other tokens, and leave what is made
of those as it is.
-/

namespace ConstLang

namespace Parser

/-- Definitions in front of other tokens are read as they are on their own. -/
theorem definitions_append {before : List Token} {ds : List Definition}
    (h : definitions before = .ok ds) (after : List Token) :
    definitions (before ++ after) = (definitions after).map (ds ++ ·) := by
  obtain ⟨derived, fits⟩ := definitions_eq_ok_iff.1 h
  obtain ⟨rfl, standard⟩ := derivesDefinitions_iff.1 derived
  clear h derived
  induction ds with
  | nil => cases hd : definitions after <;> simp [hd, Except.map]
  | cons d ds ih =>
    simp only [List.flatMap_cons, List.forall_mem_append] at fits standard
    have first := (reads_definition standard.1 (ds.flatMap Definition.tokens ++ after)).1 fits.1
    rw [List.flatMap_cons, List.append_assoc,
      definitions_of_ne_nil (by simp [Definition.tokens]), first, ok_bind]
    dsimp only
    rw [ih fits.2 standard.2]
    cases definitions after <;> rfl

end Parser

namespace Program

/-- Tokens without an end mark in front of others leave their split as it is. -/
theorem splitAtEnd_append {before : List Token} (inner : ∀ t ∈ before, t.isEnd = false)
    (after : List Token) :
    splitAtEnd (before ++ after) =
      (splitAtEnd after).map fun (body, endMark) => (before ++ body, endMark) := by
  have skipped : ∀ t ∈ before, (!t.isEnd) = true := fun t mem => by simp [inner t mem]
  by_cases none_left : after = []
  · subst none_left
    have dropped : before.dropWhile (fun t => !t.isEnd) = [] := List.dropWhile_eq_nil_iff.2 skipped
    rw [List.append_nil, splitAtEnd, dropped]
    cases before.getLast? <;> rfl
  · rw [splitAtEnd, splitAtEnd, List.getLast?_append_of_ne_nil _ none_left,
      List.dropWhile_append_of_pos skipped, List.takeWhile_append_of_pos skipped]
    cases after.getLast? with
    | none => rfl
    | some last =>
      cases after.dropWhile fun t => !t.isEnd with
      | nil => rfl
      | cons endMark _ => cases hl : last.isEnd <;> simp [hl, Except.map]

/-- Definitions in front of other tokens add themselves to the program. -/
theorem ofTokens_append {before : List Token} {ds : List Definition}
    (h : Parser.definitions before = .ok ds) (after : List Token) :
    ofTokens (before ++ after) =
      (ofTokens after).map (Except.map fun p => ⟨ds ++ p.definitions, p.endMark⟩) := by
  have inner : ∀ t ∈ before, t.isEnd = false := fun t mem =>
    isEnd_of_mem_derived (Parser.definitions_eq_ok_iff.1 h).1 mem
  unfold ofTokens
  rw [splitAtEnd_append inner]
  cases splitAtEnd after with
  | error fault => rfl
  | ok split =>
    obtain ⟨body, endMark⟩ := split
    change (Except.ok (before ++ body, endMark) >>= _) = _
    rw [ok_bind, ok_bind]
    dsimp only
    rw [Parser.definitions_append h]
    cases Parser.definitions body <;> rfl

end Program

end ConstLang
