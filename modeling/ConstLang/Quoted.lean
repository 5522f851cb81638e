import ConstLang.Unicode.GraphemeExtend
import ConstLang.Unicode.Unprintable

/-!
# Quoted text

Text inside double quotes that shows every character of it. A character that would break the
quotes, show nothing, or melt into its neighbour is written as an escape, either by a letter or by
the hexadecimal digits of its code point.
-/

namespace ConstLang

namespace Quoted

/-- The letter behind the backslash, for the characters that have a short escape. -/
def letter? : Char → Option Char
  | '"' => some '"'
  | '\\' => some '\\'
  | '\n' => some 'n'
  | '\r' => some 'r'
  | '\t' => some 't'
  | '\x00' => some '0'
  | _ => none

/-- Whether a character that has no short escape may stand for itself. -/
def isPlain (c : Char) : Bool := !Unicode.isUnprintable c && !Unicode.isGraphemeExtend c

/-- The code point of a character in braces, without zeros in front. -/
def codePoint (c : Char) : List Char := '\x7b' :: Nat.toDigits 16 c.toNat ++ ['\x7d']

/-- How a character is written between the quotes. -/
def chars (c : Char) : List Char :=
  match letter? c with
  | some letter => ['\\', letter]
  | none => if isPlain c then [c] else '\\' :: 'u' :: codePoint c

/-- A text with its quotes. -/
def text (s : String) : String := String.ofList ('"' :: s.toList.flatMap chars ++ ['"'])

end Quoted

end ConstLang
