import ScriptAtlas.Text.Slice

/-! # Bytes in place of texts

The names and paths of a file system are bytes. Most often they are the UTF-8 form of a text, but
they need not be. What is no text is shown with replacement characters, so that different bytes may
be shown alike. -/

namespace ScriptAtlas

/-- Bytes that are to be a text. -/
structure RawText where
  bytes : List UInt8
deriving DecidableEq, Repr, Inhabited

namespace RawText

/-- The UTF-8 form of a text. -/
def ofString (s : String) : RawText := ⟨s.toUTF8.data.toList⟩

instance : Coe String RawText := ⟨ofString⟩

instance : LT RawText := ⟨fun a b => a.bytes < b.bytes⟩

instance : LE RawText := ⟨fun a b => a.bytes ≤ b.bytes⟩

instance (a b : RawText) : Decidable (a ≤ b) := inferInstanceAs (Decidable (a.bytes ≤ b.bytes))

/-- The text, if the bytes are the UTF-8 form of one. -/
def text? (r : RawText) : Option String := String.fromUTF8? r.bytes.toByteArray

/-! ### Showing bytes -/

/-- The character that some bytes open with, if they do. -/
def firstChar? (bytes : List UInt8) : Option Char := (bytes.take 4).toByteArray.utf8DecodeChar? 0

/-- May the byte stand behind the first one of a character? -/
def isTail (b : UInt8) : Bool := 0x80 ≤ b && b ≤ 0xbf

/-- Are these the first two of the three or four bytes of some character? -/
def opensLong (a b : UInt8) : Bool :=
  0xe0 ≤ a && a ≤ 0xf4 && isTail b && (a ≠ 0xe0 || 0xa0 ≤ b) && (a ≠ 0xed || b ≤ 0x9f) &&
    (a ≠ 0xf0 || 0x90 ≤ b) && (a ≠ 0xf4 || b ≤ 0x8f)

/-- How many bytes one replacement character stands for, where no character is: those with which
some character opens, and at least one. -/
def brokenLength : List UInt8 → Nat
  | a :: b :: rest =>
    if !opensLong a b then 1 else if 0xf0 ≤ a && rest.head?.any isTail then 3 else 2
  | _ => 1

/-- The characters by which bytes are shown, the first `skipped` left out. -/
def shownFrom : (skipped : Nat) → List UInt8 → List Char
  | _, [] => []
  | n + 1, _ :: bytes => shownFrom n bytes
  | 0, b :: bytes =>
    match firstChar? (b :: bytes) with
    | some c => c :: shownFrom (c.utf8Size - 1) bytes
    | none => '�' :: shownFrom (brokenLength (b :: bytes) - 1) bytes

/-- The text by which bytes are shown. -/
def shown (r : RawText) : String := String.ofList (shownFrom 0 r.bytes)

/-! ### Names and paths -/

def slash : UInt8 := 0x2f

def dot : UInt8 := 0x2e

/-- The name by which a directory calls itself. -/
def here : RawText := ⟨[dot]⟩

/-- The name by which a directory calls the one above it. -/
def up : RawText := ⟨[dot, dot]⟩

/-- The parts of a path between slashes. -/
def segments (path : RawText) : List RawText := (Text.splitAt slash path.bytes).map mk

/-- Does the path start from the root? -/
def isAbsolute (path : RawText) : Bool := path.bytes.head? = some slash

/-- A path with names behind it. -/
def join (path : RawText) (names : List RawText) : RawText :=
  ⟨List.intercalate [slash] (path.bytes :: names.map bytes)⟩

/-- What follows the last dot of a name, unless the dot opens it. -/
def extension? (name : RawText) : Option RawText := (Text.behindLast? dot name.bytes).map mk

end RawText

end ScriptAtlas
