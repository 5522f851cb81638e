import ConstLang.Lexeme
import ConstLang.Span

/-!
# Tokens

A token is a lexeme with its place in a source. Every text has tokens: what is no lexeme of the
language becomes a token that carries its flaw, and the last token is the end of the text.
-/

namespace ConstLang

structure Token where
  lexeme : Lexeme
  span : Span
deriving DecidableEq

namespace Token

/-- The token of characters that start at `p`, and what it spans. -/
def place (p : Position) (l : Lexeme) : Token := ⟨l, p, p.after l.chars.dropLast⟩

/-- The tokens of the characters from `p` to the end of the text. -/
def ofChars (p : Position) : List Char → List Token
  | [] => [place p (.mark .endOfFile)]
  | c :: cs =>
    if Lexeme.isBlank c then ofChars (p.step c) cs
    else
      let l := Lexeme.first c cs
      place p l :: ofChars (p.after l.chars) (cs.drop (l.chars.length - 1))
termination_by cs => cs.length
decreasing_by
  · simp
  · simp only [List.length_drop, List.length_cons]
    omega

def flaw? (t : Token) : Option Flaw :=
  match t.lexeme with
  | .unknown _ flaw => some flaw
  | _ => none

end Token

/-- The tokens of a source, blanks left out. -/
def Source.tokens (s : Source) : List Token := Token.ofChars s.start s.text.toList

end ConstLang
