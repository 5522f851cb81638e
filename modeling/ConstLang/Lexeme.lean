import ConstLang.Decimal.Text
import ConstLang.Scalar

/-!
# Lexemes

The smallest meaningful pieces of a text: marks, words and numbers, and what is none of them. A
lexeme keeps its characters as they were written, so that `Lexeme.chars` gives them back.
-/

namespace ConstLang

/-- Punctuation, operators and the end of the text. -/
inductive Mark
  | plus | minus | star | slash | percent
  | equals | colon | semicolon | leftParen | rightParen
  | endOfFile
deriving DecidableEq

namespace Mark

/-- The marks that are written, by their character. -/
def punctuation : List (Char × Mark) :=
  [('+', plus), ('-', minus), ('*', star), ('/', slash), ('%', percent),
    ('=', equals), (':', colon), (';', semicolon), ('(', leftParen), (')', rightParen)]

def ofChar? (c : Char) : Option Mark := punctuation.lookup c

/-- The characters of a mark; the end of the text has none. -/
def chars : Mark → List Char
  | plus => ['+'] | minus => ['-'] | star => ['*'] | slash => ['/'] | percent => ['%']
  | equals => ['='] | colon => [':'] | semicolon => [';']
  | leftParen => ['('] | rightParen => [')']
  | endOfFile => []

/-- How messages name a mark. -/
def spelling : Mark → String
  | endOfFile => "end of file"
  | m => String.ofList m.chars

end Mark

/-- A plus or a minus in front of a number or an operand. -/
inductive Sign
  | plus
  | minus
deriving DecidableEq

namespace Sign

def symbol : Sign → Char
  | plus => '+'
  | minus => '-'

def ofMark? : Mark → Option Sign
  | .plus => some plus
  | .minus => some minus
  | _ => none

/-- A sign in front of other characters, and the characters without it. -/
def ofChars : List Char → Option Sign × List Char
  | '+' :: cs => (some plus, cs)
  | '-' :: cs => (some minus, cs)
  | cs => (none, cs)

end Sign

/-- One or more decimal digits as they are written. -/
structure DigitRun where
  text : String
  isDigits : Digits.isDigits text.toList = true
deriving DecidableEq

/-- The digits that characters start with, if they do, and the characters behind them. -/
def DigitRun.split? (cs : List Char) : Option (DigitRun × List Char) :=
  let digits := cs.takeWhile Char.isDigit
  if h : Digits.isDigits digits then
    some (⟨String.ofList digits, by rwa [String.toList_ofList]⟩, cs.dropWhile Char.isDigit)
  else none

/-- The exponent of a number as it is written, with its letter. -/
structure Exponent where
  letter : Char
  sign : Option Sign
  run : DigitRun
deriving DecidableEq

namespace Exponent

def digits (e : Exponent) : String := e.run.text

def isNegative (e : Exponent) : Bool := e.sign = some .minus

def chars (e : Exponent) : List Char :=
  e.letter :: ((e.sign.map Sign.symbol).toList ++ e.digits.toList)

end Exponent

/-- A number as it is written. -/
structure Numeral where
  wholeRun : DigitRun
  fractionRun : Option DigitRun
  exponent : Option Exponent
deriving DecidableEq

namespace Numeral

def whole (n : Numeral) : String := n.wholeRun.text

def fraction (n : Numeral) : Option String := n.fractionRun.map DigitRun.text

def chars (n : Numeral) : List Char :=
  n.whole.toList ++ (n.fraction.map fun digits => '.' :: digits.toList).getD [] ++
    (n.exponent.map Exponent.chars).getD []

def text (n : Numeral) : String := String.ofList n.chars

/-- The exact value, unless the exponent is out of range. -/
def value? (n : Numeral) : Option Decimal :=
  Decimal.ofDigits n.whole (n.fraction.getD "") (n.exponent.map fun e => (e.isNegative, e.digits))

end Numeral

/-- What a word is: the name of a type that variables have is reserved, any other is free. -/
inductive Word
  | keyword (type : Scalar)
  | identifier (name : String)
deriving DecidableEq

namespace Word

def ofText (text : String) : Word :=
  match Scalar.keyword? text with
  | some type => keyword type
  | none => identifier text

/-- How messages name a word. -/
def describe : Word → String
  | keyword type => s!"type name `{type.name}`"
  | identifier name => s!"identifier `{name}`"

end Word

/-- What is wrong with characters that are no lexeme of the language. -/
inductive Flaw
  | strayCharacter
  | noFractionDigits
  | noExponentDigits
deriving DecidableEq

inductive Lexeme
  | mark (m : Mark)
  | word (text : String)
  | number (n : Numeral)
  | unknown (text : String) (flaw : Flaw)
deriving DecidableEq

namespace Lexeme

def chars : Lexeme → List Char
  | mark m => m.chars
  | word text => text.toList
  | number n => n.chars
  | unknown text _ => text.toList

def text (l : Lexeme) : String := String.ofList l.chars

def word? : Lexeme → Option Word
  | word text => some (.ofText text)
  | _ => none

/-- How messages name a lexeme. -/
def describe : Lexeme → String
  | mark .endOfFile => Mark.endOfFile.spelling
  | mark m => s!"`{m.spelling}`"
  | word text => (Word.ofText text).describe
  | number n => s!"number `{n.text}`"
  | unknown text _ => s!"`{text}`"

/-- The characters that separate lexemes. -/
def isBlank (c : Char) : Bool := c = ' ' || c = '\t' || c = '\r' || c = '\n'

def startsWord (c : Char) : Bool := c.isAlpha || c = '_'

def continuesWord (c : Char) : Bool := c.isAlphanum || c = '_'

/-- The number `n`, which has no exponent yet, with the exponent that may follow. -/
def withExponent (n : Numeral) (rest : List Char) : Lexeme :=
  match rest with
  | [] => number n
  | letter :: more =>
    if letter = 'e' ∨ letter = 'E' then
      let (sign, more) := Sign.ofChars more
      match DigitRun.split? more with
      | some (digits, _) => number { n with exponent := some ⟨letter, sign, digits⟩ }
      | none =>
        unknown (String.ofList (n.chars ++ letter :: (sign.map Sign.symbol).toList))
          .noExponentDigits
    else number n

/-- The lexeme that starts with the digits `whole`: the longest run of characters that is a number,
or starts one. -/
def numberAt (whole : DigitRun) (rest : List Char) : Lexeme :=
  match rest with
  | '.' :: more =>
    match DigitRun.split? more with
    | some (fraction, rest) => withExponent ⟨whole, some fraction, none⟩ rest
    | none => unknown (whole.text.push '.') .noFractionDigits
  | rest => withExponent ⟨whole, none, none⟩ rest

/-- The first lexeme of the characters `c :: cs`, if `c` is not blank. -/
def first (c : Char) (cs : List Char) : Lexeme :=
  match Mark.ofChar? c with
  | some m => mark m
  | none =>
    if startsWord c then word (String.ofList (c :: cs.takeWhile continuesWord))
    else
      match DigitRun.split? (c :: cs) with
      | some (whole, rest) => numberAt whole rest
      | none => unknown c.toString .strayCharacter

end Lexeme

end ConstLang
