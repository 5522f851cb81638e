import ConstLang.Fault
import ConstLang.Utf8

/-!
# Sources

A source is a text with the path it is reported under. Behind the text stands a closing character
that belongs to the contents but to no line, so that the end of the text is a place too.
-/

namespace ConstLang

/-- A text to compile. The tag tells apart sources that were read separately. -/
structure Source where
  tag : Nat
  path : String
  text : String
deriving DecidableEq

namespace Source

/-- The character behind the text. -/
def closing : Char := '\x00'

/-- The source of a file's bytes, unless they are not UTF-8. -/
def ofBytes? (tag : Nat) (path : String) (bytes : ByteArray) : Option Source :=
  (String.fromUTF8? bytes).map fun text => ⟨tag, path, text⟩

/-- The index of the closing character. -/
def endOffset (s : Source) : Nat := s.text.utf8ByteSize

/-- The text with its closing character. -/
def contents (s : Source) : String := s.text.push closing

/-- The character that starts at an index, that of the closing character included. -/
def charAt (s : Source) (index : Nat) : Except Fault Char :=
  match Utf8.splitAt? index s.contents.toList with
  | some (_, c :: _) => .ok c
  | _ => .error (.notACharacter index s.path)

/-- The contents between two indices, the second one excluded. -/
def slice (s : Source) (start stop : Nat) : Except Fault String :=
  if start ≤ stop ∧ stop ≤ s.endOffset + closing.utf8Size then
    match Utf8.splitAt? stop s.contents.toList with
    | none => .error .splitCharacter
    | some (before, _) =>
      match Utf8.splitAt? start before with
      | none => .error .splitCharacter
      | some (_, inside) => .ok (String.ofList inside)
  else .error (.sliceBounds start stop)

/-- The characters after the last newline. -/
def afterLastNewline (cs : List Char) : List Char :=
  (cs.reverse.takeWhile (· ≠ '\n')).reverse

/-- Drops a carriage return that stands last. -/
def dropReturn (cs : List Char) : List Char :=
  if cs.getLast? = some '\r' then cs.dropLast else cs

/-- The line around an index, cut there: its characters before the index, and those from the
index on without the line's terminator. -/
def lineAround (s : Source) (index : Nat) : Except Fault (List Char × List Char) :=
  match Utf8.splitAt? index s.text.toList with
  | some (before, after) =>
    .ok (afterLastNewline before, dropReturn (after.takeWhile (· ≠ '\n')))
  | none => .error (if s.endOffset < index then .lineBeyondEnd index s.path else .splitCharacter)

/-- The first and the last offset of the line around an index. -/
def lineBounds (s : Source) (index : Nat) : Except Fault (Nat × Nat) := do
  let (before, after) ← s.lineAround index
  return (index - Utf8.size before, index + Utf8.size after)

def lineText (s : Source) (index : Nat) : Except Fault String := do
  let (before, after) ← s.lineAround index
  return String.ofList (before ++ after)

end Source

end ConstLang
