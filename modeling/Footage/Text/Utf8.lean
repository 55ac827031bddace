/-!
# Characters of a byte sequence

Bytes that are not well-formed UTF-8 throughout are read character by character; a byte that begins
no character stands for itself.
-/

namespace Footage.Text

/-- A character, or a byte that belongs to none. -/
abbrev Symbol := Option Char

/-- The character that the bytes begin with. -/
def firstChar? (bytes : List UInt8) : Option Char :=
  (ByteArray.mk (bytes.take 4).toArray).utf8DecodeChar? 0

/-- The characters of the bytes, and the bytes that belong to none. -/
def scan : List UInt8 → List Symbol
  | [] => []
  | b :: rest =>
    match firstChar? (b :: rest) with
    | some c => some c :: scan (rest.drop (c.utf8Size - 1))
    | none => none :: scan rest
  termination_by bytes => bytes.length
  decreasing_by all_goals (simp; try omega)

/-- The bytes of a text. -/
def bytes (s : String) : List UInt8 := s.toByteArray.data.toList

/-- The text that bytes are, if they are well-formed. -/
def ofBytes? (bytes : List UInt8) : Option String := String.fromUTF8? ⟨bytes.toArray⟩

/-- The symbols of a text. -/
def symbols (s : String) : List Symbol := s.toList.map some

/-- The symbols of bytes. -/
def symbolsOfBytes (bytes : List UInt8) : List Symbol :=
  match ofBytes? bytes with
  | some s => symbols s
  | none => scan bytes

end Footage.Text
