import ConstLang.Proofs.Decimal.Text
import ConstLang.Proofs.Resolution.Origin
import ConstLang.Proofs.Token.Solid

/-!
# Messages are on one line

A message quotes lexemes, numbers and names of types, none of which has a newline in it.
-/

namespace ConstLang

/-- A text has no newline. -/
def OneLine (text : String) : Prop := '\n' ∉ text.toList

instance (text : String) : Decidable (OneLine text) := inferInstanceAs (Decidable (_ ∉ _))

namespace OneLine

theorem append_iff {s t : String} : OneLine (s ++ t) ↔ OneLine s ∧ OneLine t := by
  simp [OneLine]

theorem toString_iff {s : String} : OneLine (toString s) ↔ OneLine s := Iff.rfl

/-- A literal is given by its characters. -/
theorem lit {cs : List Char} (h : '\n' ∉ cs) : OneLine (String.ofList cs) := by
  rwa [OneLine, String.toList_ofList]

theorem not_mem_of_solid {cs : List Char} (h : ∀ c ∈ cs, Lexeme.isBlank c = false) : '\n' ∉ cs :=
  fun mem => absurd (h '\n' mem) (by decide)

theorem nat (n : ℕ) : OneLine (toString n) := by
  rw [Nat.toString_eq_ofList_toDigits]
  exact lit fun mem =>
    absurd (Nat.isDigit_of_mem_toDigits (by decide) (by decide) mem) (by decide)

theorem decimal (x : Decimal) : OneLine (toString x) := by
  obtain ⟨n, spells⟩ := Decimal.exists_spells x
  have digits : '\n' ∉ n.chars := not_mem_of_solid fun c => Numeral.isBlank_of_mem spells.spelling
  refine lit ?_
  rw [spells.chars]
  cases x.isNegative <;> simp [Decimal.signed, digits]

theorem scalar (s : Scalar) : OneLine s.name := by
  cases s <;> exact lit (by decide)

theorem type (t : Ty) : OneLine t.name := by
  cases t with
  | metatype => exact lit (by decide)
  | scalar s => exact scalar s

theorem mark (m : Mark) : OneLine m.spelling := by
  cases m <;> exact lit (by decide)

theorem misfit (m : Misfit) : OneLine m.reason := by
  cases m <;> exact lit (by decide)

end OneLine

open OneLine

theorem Lexeme.Solid.oneLine {l : Lexeme} (h : l.Solid) : OneLine l.text :=
  lit (not_mem_of_solid h)

theorem Lexeme.Solid.oneLine_describe {l : Lexeme} (h : l.Solid) : OneLine l.describe := by
  have text := h.oneLine
  cases l with
  | mark m =>
    cases m <;> simp only [describe, append_iff, toString_iff, OneLine.mark, and_true]
    all_goals exact ⟨lit (by decide), lit (by decide)⟩
  | word name =>
    have word : OneLine name := not_mem_of_solid h
    rw [describe, Word.ofText]
    split <;> simp only [Word.describe, append_iff, toString_iff, word, scalar, and_true] <;>
      exact ⟨lit (by decide), lit (by decide)⟩
  | number n =>
    have number : OneLine n.text := text
    simp only [describe, append_iff, toString_iff, number, and_true]
    exact ⟨lit (by decide), lit (by decide)⟩
  | unknown chars flaw =>
    have unknown : OneLine chars := not_mem_of_solid h
    simp only [describe, append_iff, toString_iff, unknown, and_true]
    exact ⟨lit (by decide), lit (by decide)⟩

theorem Token.oneLine_message {t : Token} {d : Diagnostic} (h : t.diagnostic? = some d) :
    OneLine d.message := by
  obtain ⟨flaw, -, rfl⟩ := Option.map_eq_some_iff.1 h
  cases flaw <;> exact lit (by decide)

theorem Wanted.oneLine_message (w : Wanted) : OneLine w.message := by
  cases w with
  | operand after =>
    change OneLine s!"expected an operand after `{after.spelling}`"
    simp only [append_iff, toString_iff, mark, and_true]
    exact ⟨lit (by decide), lit (by decide)⟩
  | _ => exact lit (by decide)

theorem SyntaxError.oneLine_message {e : SyntaxError} (h : e.found.lexeme.Solid) :
    OneLine e.diagnostic.message := by
  have described := h.oneLine_describe
  unfold diagnostic
  cases e.obstacle with
  | unmet wanted =>
    simp only [Diagnostic.coded, append_iff, toString_iff, wanted.oneLine_message, described,
      true_and, and_true]
    exact lit (by decide)
  | nesting =>
    simp only [Diagnostic.coded, append_iff, toString_iff, nat, and_true]
    exact ⟨lit (by decide), lit (by decide)⟩

namespace Program

variable {p : Program} (solid : ∀ t ∈ p.definitions.flatMap Definition.tokens, t.lexeme.Solid)

include solid

theorem Mentions.oneLine {name : Name} (h : p.Mentions name) : OneLine name.text :=
  not_mem_of_solid (solid _ h)

theorem Quotes.oneLine {n : Numeral} {span : Span} (h : p.Quotes n span) : OneLine n.text :=
  (solid _ ((tokens_isInfix h).subset (List.mem_singleton_self _))).oneLine

end Program

theorem Issue.oneLine_main {p : Program} {i : Issue} (about : i.About p)
    (solid : ∀ t ∈ p.definitions.flatMap Definition.tokens, t.lexeme.Solid) :
    OneLine i.main.2.2 := by
  cases i with
  | builtinName | undefinedName | mismatch =>
    have name := Program.Mentions.oneLine solid about
    simp only [main, append_iff, toString_iff, name, type, and_true]
    and_intros <;> exact lit (by decide)
  | redeclared | notYetResolved | metatypeVariable | unknownType | unstorableType =>
    have name := about.1.oneLine solid
    simp only [main, append_iff, toString_iff, name, type, scalar, and_true]
    and_intros <;> exact lit (by decide)
  | numberAsType | exponentOutOfRange | literalMisfit =>
    have number := Program.Quotes.oneLine solid about
    simp only [main, append_iff, toString_iff, number, type, scalar, misfit, and_true]
    and_intros <;> exact lit (by decide)
  | signedType | operationAsType | valueMisfit | rounded =>
    simp only [main, append_iff, toString_iff, mark, type, scalar, misfit, decimal, and_true]
    and_intros <;> exact lit (by decide)
  | divisionByZero => exact lit (by decide)

theorem Issue.oneLine_message {p : Program} {i : Issue} (about : i.About p)
    (solid : ∀ t ∈ p.definitions.flatMap Definition.tokens, t.lexeme.Solid) {d : Diagnostic}
    (mem : d ∈ i.diagnostics) : OneLine d.message := by
  obtain rfl | mem := List.mem_cons.1 mem
  · exact oneLine_main about solid
  · obtain ⟨⟨span, message⟩, remark, rfl⟩ := Option.map_eq_some_iff.1 (Option.mem_toList.1 mem)
    cases i <;> cases remark <;> exact lit (by decide)

end ConstLang
