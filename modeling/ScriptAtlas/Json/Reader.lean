import ScriptAtlas.Decimal.Shortest
import ScriptAtlas.Json.Value

/-! # Reading JSON

The parts from which readers of JSON text are made. A reader moves over the text and counts its
bytes; what goes wrong is reported with the place where it did. -/

namespace ScriptAtlas.Json

/-- What stands where something else is expected. -/
inductive Found where
  | null
  | boolean (b : Bool)
  | integer (n : Int)
  | float (f : Float)
  | text (s : String)
  | list
  | object

def Found.describe : Found → String
  | .null => "null"
  | .boolean b => s!"boolean \x60{b}\x60"
  | .integer n => s!"integer \x60{n}\x60"
  | .float f => s!"floating point \x60{Decimal.floatText f}\x60"
  | .text s => s!"string {Text.quoted s}"
  | .list => "sequence"
  | .object => "map"

/-- What can be wrong with a text. -/
inductive Problem where
  | endInValue
  | endInList
  | endInObject
  | endInText
  | expectedColon
  | expectedCommaOrBracket
  | expectedCommaOrBrace
  | expectedIdentifier
  | expectedValue
  | keyNotText
  | trailingComma
  | trailingCharacters
  | controlCharacter
  | invalidEscape
  | invalidNumber
  | numberOutOfRange
  | loneSurrogate
  | endOfHexEscape
  | invalidType (found : Found) (expected : String)
  | invalidLength (n : Nat) (expected : String)
  | missingField (name : String)
  | duplicateField (name : String)

def Problem.message : Problem → String
  | .endInValue => "EOF while parsing a value"
  | .endInList => "EOF while parsing a list"
  | .endInObject => "EOF while parsing an object"
  | .endInText => "EOF while parsing a string"
  | .expectedColon => "expected \x60:\x60"
  | .expectedCommaOrBracket => "expected \x60,\x60 or \x60]\x60"
  | .expectedCommaOrBrace => "expected \x60,\x60 or \x60\x7d\x60"
  | .expectedIdentifier => "expected ident"
  | .expectedValue => "expected value"
  | .keyNotText => "key must be a string"
  | .trailingComma => "trailing comma"
  | .trailingCharacters => "trailing characters"
  | .controlCharacter => "control character (\\u0000-\\u001F) found while parsing a string"
  | .invalidEscape => "invalid escape"
  | .invalidNumber => "invalid number"
  | .numberOutOfRange => "number out of range"
  | .loneSurrogate => "lone leading surrogate in hex escape"
  | .endOfHexEscape => "unexpected end of hex escape"
  | .invalidType found expected => s!"invalid type: {found.describe}, expected {expected}"
  | .invalidLength n expected => s!"invalid length {n}, expected {expected}"
  | .missingField name => s!"missing field \x60{name}\x60"
  | .duplicateField name => s!"duplicate field \x60{name}\x60"

/-- A problem and the number of bytes before it. -/
structure ReadError where
  problem : Problem
  pos : Nat

/-- The line of a byte offset, from one on, and the number of bytes before it on that line. -/
def lineColumn (line column : Nat) : Nat → List Char → Nat × Nat
  | 0, _ | _, [] => (line, column)
  | n + 1, c :: cs =>
    if n + 1 < c.utf8Size then (line, column + (n + 1))
    else if c = '\n' then lineColumn (line + 1) 0 (n + 1 - c.utf8Size) cs
    else lineColumn line (column + c.utf8Size) (n + 1 - c.utf8Size) cs

/-- The message of an error in a text. -/
def ReadError.message (e : ReadError) (text : String) : String :=
  let (line, column) := lineColumn 1 0 e.pos text.toList
  s!"{e.problem.message} at line {line} column {column}"

/-! ### Readers -/

/-- A place in the text. -/
structure Cursor where
  pos : Nat
  rest : List Char

abbrev Reader := StateT Cursor (Except ReadError)

/-- Fails at the place reached. -/
def failHere {α : Type} (p : Problem) : Reader α := do throw ⟨p, (← get).pos⟩

/-- Fails at the next character, which counts as read. -/
def failNext {α : Type} (p : Problem) : Reader α := do
  let c ← get
  throw ⟨p, if c.rest.isEmpty then c.pos else c.pos + 1⟩

/-- The next character. -/
def next? : Reader (Option Char) := return (← get).rest.head?

/-- Is the next character `c`? -/
def sees (c : Char) : Reader Bool := return (← next?) == some c

/-- Moves past the next character. -/
def skip : Reader Unit := modify fun c =>
  match c.rest with
  | [] => c
  | x :: rest => ⟨c.pos + x.utf8Size, rest⟩

/-- Is `c` a blank between tokens? -/
def isGap (c : Char) : Bool := c = ' ' || c = '\n' || c = '\t' || c = '\r'

/-- Moves past blanks. -/
def skipGap : Reader Unit := modify fun c =>
  ⟨c.pos + (c.rest.takeWhile isGap).length, c.rest.dropWhile isGap⟩

/-- Moves past digits, and gives them. -/
def takeDigits : Reader (List Char) := do
  let c ← get
  let digits := c.rest.takeWhile Char.isDigit
  set (⟨c.pos + digits.length, c.rest.dropWhile Char.isDigit⟩ : Cursor)
  return digits

/-! ### String literals -/

def hexValue? (c : Char) : Option Nat :=
  if c.isDigit then some (c.toNat - 48)
  else if 'a' ≤ c && c ≤ 'f' then some (c.toNat - 87)
  else if 'A' ≤ c && c ≤ 'F' then some (c.toNat - 55)
  else none

/-- The number of bytes of some characters. -/
def byteCount (cs : List Char) : Nat := cs.foldl (fun n c => n + c.utf8Size) 0

/-- Four hexadecimal digits. -/
def hexEscape : Reader Nat := do
  let c ← get
  if byteCount c.rest < 4 then throw ⟨.endInText, c.pos + byteCount c.rest⟩
  match (c.rest.take 4).mapM hexValue? with
  | some digits =>
    set (⟨c.pos + 4, c.rest.drop 4⟩ : Cursor)
    return digits.foldl (fun n d => n * 16 + d) 0
  | none => throw ⟨.invalidEscape, c.pos + 4⟩

/-- The next character of a string literal, if the text goes on. -/
def nextInText : Reader Char := do
  match ← next? with
  | some c => return c
  | none => failHere .endInText

/-- Moves past a character that must come next in the second half of a pair of escapes. -/
def expectPaired (c : Char) : Reader Unit := do
  let found ← nextInText
  if found = c then skip
  else
    -- Only the first byte of the wrong character counts as read.
    throw ⟨.endOfHexEscape, (← get).pos + 1⟩

/-- The character of an escape, from its four digits on. A character outside the first plane takes
two escapes. -/
def unicodeEscape : Reader Char := do
  let high ← hexEscape
  if 0xdc00 ≤ high && high ≤ 0xdfff then failHere .loneSurrogate
  if high < 0xd800 || 0xdbff < high then return Char.ofNat high
  expectPaired '\\'
  expectPaired 'u'
  let low ← hexEscape
  if low < 0xdc00 || 0xdfff < low then failHere .loneSurrogate
  return Char.ofNat ((high - 0xd800) * 0x400 + (low - 0xdc00) + 0x10000)

/-- What a letter stands for behind a backslash. -/
def simpleEscape? (c : Char) : Option Char :=
  if c = '"' || c = '\\' || c = '/' then some c
  else if c = 'b' then some '\x08'
  else if c = 'f' then some '\x0c'
  else if c = 'n' then some '\n'
  else if c = 'r' then some '\r'
  else if c = 't' then some '\t'
  else none

/-- The character of an escape, from what follows the backslash on. -/
def escape : Reader Char := do
  let c ← nextInText
  match simpleEscape? c with
  | some d => skip; return d
  | none =>
    if c = 'u' then
      skip
      unicodeEscape
    else throw ⟨.invalidEscape, (← get).pos + 1⟩

/-- The characters of a string literal from behind its opening quote, at most `n`. -/
def textChars : Nat → List Char → Reader String
  | 0, _ => failHere .endInText
  | n + 1, read => do
    let c ← nextInText
    skip
    if c = '"' then return String.ofList read.reverse
    else if c = '\\' then textChars n ((← escape) :: read)
    else if c.toNat < 0x20 then failHere .controlCharacter
    else textChars n (c :: read)

/-- A string literal from behind its opening quote. -/
def textLiteral : Reader String := do textChars ((← get).rest.length + 1) []

/-- Passes over the rest of a string literal, whose escapes need not make sense as characters. -/
def skipChars : Nat → Reader Unit
  | 0 => failHere .endInText
  | n + 1 => do
    let c ← nextInText
    if c.toNat < 0x20 then failHere .controlCharacter
    skip
    if c = '"' then return
    if c = '\\' then
      let e ← nextInText
      if (simpleEscape? e).isSome then skip
      else if e = 'u' then
        skip
        discard hexEscape
      else throw ⟨.invalidEscape, (← get).pos + 1⟩
    skipChars n

/-- Passes over a string literal from behind its opening quote. -/
def skipTextLiteral : Reader Unit := do skipChars ((← get).rest.length + 1)

/-! ### Numbers -/

/-- The parts of a number, as they are written. -/
structure NumberParts where
  whole : List Char
  fraction : List Char
  /-- The sign of the exponent, its digits, and the place of the first of them. -/
  exponent : Option (Bool × List Char × Nat)

/-- The digits behind a point, of which there must be one. -/
def fraction (atEnd : Problem) : Reader (List Char) := do
  unless ← sees '.' do return []
  skip
  let digits ← takeDigits
  if digits.isEmpty then failNext (if (← next?).isNone then atEnd else .invalidNumber)
  return digits

/-- The exponent behind `e`. -/
def exponent (atEnd : Problem) : Reader (Option (Bool × List Char × Nat)) := do
  unless (← sees 'e') || (← sees 'E') do return none
  skip
  let negative ← sees '-'
  if negative || (← sees '+') then skip
  let pos := (← get).pos
  let digits ← takeDigits
  if digits.isEmpty then failNext (if (← next?).isNone then atEnd else .invalidNumber)
  return some (negative, digits, pos)

/-- A number behind its sign. If the text ends inside it, `atEnd` is the problem. -/
def numberParts (atEnd : Problem) : Reader NumberParts := do
  let whole ←
    if ← sees '0' then
      skip
      if ((← next?).map Char.isDigit).getD false then failNext .invalidNumber
      pure ['0']
    else takeDigits
  if whole.isEmpty then failNext (if (← next?).isNone then atEnd else .invalidNumber)
  return ⟨whole, ← fraction atEnd, ← exponent atEnd⟩

/-- The largest number of sixty-four bits. -/
def wordMax : Nat := Nat.pow 2 64 - 1

/-- A significand of at most sixty-four bits, made of the first digits, and the number of digits
that did not fit. -/
def significand (n : Nat) : List Char → Nat × Nat
  | [] => (n, 0)
  | d :: ds =>
    let n' := n * 10 + (d.toNat - 48)
    if wordMax < n' then (n, ds.length + 1) else significand n' ds

/-- `n * 10 ^ e`, by floating-point steps; `none` if it is too large. -/
def scale (f : Float) (e : Int) : Nat → Option Float
  | 0 => some f
  | n + 1 =>
    if e.natAbs ≤ 308 then
      let power := Float.ofScientific 1 false e.natAbs
      if 0 ≤ e then
        let g := f * power
        if g.isInf then none else some g
      else some (f / power)
    else if f == 0.0 then some f
    else if 0 ≤ e then none
    else scale (f / 1e308) (e + 308) n

/-- The number of digits of an exponent up to where it leaves the range of thirty-two bits. -/
def exponentOverflow? (e : Nat) (count : Nat) : List Char → Option Nat
  | [] => none
  | d :: ds =>
    let e' := e * 10 + (d.toNat - 48)
    if 2147483647 < e' then some (count + 1) else exponentOverflow? e' (count + 1) ds

def digitsValue (ds : List Char) : Nat := ds.foldl (fun n d => n * 10 + (d.toNat - 48)) 0

/-- The value of a number with a point or an exponent, or of a whole number that is too long. -/
def floatValue (parts : NumberParts) : Reader Float := do
  let (n, excess) := significand 0 parts.whole
  let (n, left) := significand n parts.fraction
  let start : Int := (excess : Int) - (parts.fraction.length - left : Nat)
  let f := n.toUInt64.toFloat
  match parts.exponent with
  | none =>
    match scale f start 10 with
    | some g => return g
    | none => failHere .numberOutOfRange
  | some (negative, digits, pos) =>
    match exponentOverflow? 0 0 digits with
    | some count => if n ≠ 0 && !negative then throw ⟨.numberOutOfRange, pos + count⟩ else return 0.0
    | none =>
      let e : Int := digitsValue digits
      match scale f (if negative then start - e else start + e) 10 with
      | some g => return g
      | none => failHere .numberOutOfRange

/-- The value of a number behind its sign. Whole numbers outside sixty-four bits, and minus zero,
become floating-point numbers. -/
def numberFound (negative : Bool) : Reader Found := do
  let parts ← numberParts .endInValue
  let n := digitsValue parts.whole
  let isWhole := parts.fraction.isEmpty && parts.exponent.isNone && n ≤ wordMax
  if isWhole && !negative then return .integer n
  if isWhole && 0 < n && n ≤ Nat.pow 2 63 then return .integer (-n)
  let f ← floatValue parts
  return .float (if negative then -f else f)

/-! ### Values -/

/-- Moves past the rest of a word. -/
def word : List Char → Reader Unit
  | [] => return
  | c :: cs => do
    match ← next? with
    | none => failHere .endInValue
    | some d =>
      if c = d then
        skip
        word cs
      else throw ⟨.expectedIdentifier, (← get).pos + 1⟩

/-- What stands at a place where it is not expected. Lists and objects are not looked into. -/
def found : Reader Found := do
  match ← next? with
  | some 'n' => skip; word ['u', 'l', 'l']; return .null
  | some 't' => skip; word ['r', 'u', 'e']; return .boolean true
  | some 'f' => skip; word ['a', 'l', 's', 'e']; return .boolean false
  | some '-' => skip; numberFound true
  | some '"' => skip; return .text (← textLiteral)
  | some '[' => return .list
  | some '{' => return .object
  | some c => if c.isDigit then numberFound false else failNext .expectedValue
  | none => failNext .expectedValue

/-- Moves past blanks to a value. -/
def toValue : Reader Unit := do
  skipGap
  if (← next?).isNone then failHere .endInValue

/-- A string where one is expected. -/
def expectText : Reader String := do
  toValue
  if ← sees '"' then
    skip
    textLiteral
  else
    let f ← found
    failHere (.invalidType f "a string")

/-- Moves past the colon behind a key. -/
def expectColon : Reader Unit := do
  skipGap
  match ← next? with
  | some ':' => skip
  | some _ => failNext .expectedColon
  | none => failNext .endInObject

mutual

/-- Passes over a value, at most `n` levels of parts of it. -/
def skipValue : Nat → Reader Unit
  | 0 => failHere .endInValue
  | n + 1 => do
    toValue
    match ← next? with
    | some 'n' => skip; word ['u', 'l', 'l']
    | some 't' => skip; word ['r', 'u', 'e']
    | some 'f' => skip; word ['a', 'l', 's', 'e']
    | some '-' => skip; discard (numberParts .invalidNumber)
    | some '"' => skip; skipTextLiteral
    | some '[' =>
      skip
      skipGap
      match ← next? with
      | some ']' => skip
      | some _ => skipItems n
      | none => failNext .endInList
    | some '{' =>
      skip
      skipGap
      match ← next? with
      | some '}' => skip
      | some _ => skipFields n
      | none => failNext .endInObject
    | some c =>
      if c.isDigit then discard (numberParts .invalidNumber) else failNext .expectedValue
    | none => failNext .endInValue

/-- Passes over the items of a list, of which there is one more. -/
def skipItems : Nat → Reader Unit
  | 0 => failHere .endInList
  | n + 1 => do
    skipValue n
    skipGap
    match ← next? with
    | some ',' => skip; skipItems n
    | some ']' => skip
    | some _ => failNext .expectedCommaOrBracket
    | none => failNext .endInList

/-- Passes over the fields of an object, of which there is one more. -/
def skipFields : Nat → Reader Unit
  | 0 => failHere .endInObject
  | n + 1 => do
    skipGap
    match ← next? with
    | some '"' => skip
    | some _ => failNext .keyNotText
    | none => failNext .endInObject
    skipTextLiteral
    expectColon
    skipValue n
    skipGap
    match ← next? with
    | some ',' => skip; skipFields n
    | some '}' => skip
    | some _ => failNext .expectedCommaOrBrace
    | none => failNext .endInObject

end

/-- Passes over a value. -/
def ignored : Reader Unit := do skipValue ((← get).rest.length + 2)

end ScriptAtlas.Json
