import ScriptAtlas.Json.Reader
import ScriptAtlas.Toml.Document

/-! # Reading TOML

The text of a TOML document. Any fault makes it no document at all. -/

namespace ScriptAtlas.Toml

/-- A reader moves over the text, or fails. -/
abbrev Reader := StateT (List Char) Option

/-- Takes the characters of `s`, if they come next. -/
def eat (s : String) : Reader Bool := do
  let cs ← get
  if s.toList.isPrefixOf cs then
    set (cs.drop s.length)
    return true
  else return false

def expect (s : String) : Reader Unit := do
  unless ← eat s do failure

/-- Takes the characters that satisfy `p`. -/
def takeWhile (p : Char → Bool) : Reader (List Char) := do
  let cs ← get
  set (cs.dropWhile p)
  return cs.takeWhile p

/-- The next character. -/
def next? : Reader (Option Char) := return (← get).head?

/-- Does `c` stand between tokens of a line? -/
def isBlank (c : Char) : Bool := c = ' ' || c = '\t'

def skipBlanks : Reader Unit := discard (takeWhile isBlank)

/-- May `c` stand in a comment or, if it is no quote, in a string? -/
def isPlain (c : Char) : Bool := c = '\t' || (0x20 ≤ c.toNat && c.toNat ≠ 0x7f)

/-- Takes the end of a line, if it comes next. -/
def eatNewline : Reader Bool := do
  if ← eat "\n" then return true else eat "\r\n"

/-- Takes a comment, if one comes next. -/
def skipComment : Reader Unit := do
  if ← eat "#" then discard (takeWhile isPlain)

/-- Takes blanks, comments and ends of lines, at most `n` lines. -/
def skipLines : Nat → Reader Unit
  | 0 => return
  | n + 1 => do
    skipBlanks
    skipComment
    if ← eatNewline then skipLines n

/-- Takes all blanks, comments and ends of lines. -/
def skipSpace : Reader Unit := do skipLines ((← get).length + 1)

/-! ### Strings -/

/-- A character by its code point in `n` hexadecimal digits. -/
def codePoint (n : Nat) : Reader Char := do
  let cs ← get
  let digits := cs.take n
  let some values := digits.mapM Json.hexValue? | failure
  if values.length < n then failure
  set (cs.drop n)
  let code := values.foldl (fun a d => a * 16 + d) 0
  if code < 0xd800 || (0xdfff < code && code < 0x110000) then return Char.ofNat code else failure

/-- The character of an escape, from what follows the backslash on. -/
def escape : Reader Char := do
  match ← next? with
  | some 'b' => expect "b"; return '\x08'
  | some 't' => expect "t"; return '\t'
  | some 'n' => expect "n"; return '\n'
  | some 'f' => expect "f"; return '\x0c'
  | some 'r' => expect "r"; return '\r'
  | some 'e' => expect "e"; return '\x1b'
  | some '"' => expect "\""; return '"'
  | some '\\' => expect "\\"; return '\\'
  | some 'x' => expect "x"; codePoint 2
  | some 'u' => expect "u"; codePoint 4
  | some 'U' => expect "U"; codePoint 8
  | _ => failure

/-- Takes the next character. -/
def takeChar : Reader Char := do
  match ← get with
  | c :: cs => set cs; return c
  | [] => failure

/-- The rest of a string on one line, at most `n` characters. -/
def lineText (quote : Char) (escapes : Bool) : Nat → Reader (List Char)
  | 0 => failure
  | n + 1 => do
    let c ← takeChar
    if c = quote then return []
    if escapes && c = '\\' then
      let e ← escape
      return e :: (← lineText quote escapes n)
    if isPlain c then return c :: (← lineText quote escapes n) else failure

/-- Blanks and ends of lines behind a backslash at the end of a line. -/
def continuation : Reader Unit := do
  skipBlanks
  unless ← eatNewline do failure
  discard (takeWhile fun c => isBlank c || c = '\n' || c = '\r')

/-- The rest of a string over several lines, at most `n` pieces. Up to two quotes may stand before the
closing ones. -/
def blockText (quote : Char) (escapes : Bool) : Nat → Reader (List Char)
  | 0 => failure
  | n + 1 => do
    let quotes := ((← get).takeWhile (· = quote)).length
    if 3 ≤ quotes then
      modify (·.drop (min quotes 5))
      return List.replicate (min (quotes - 3) 2) quote
    let c ← takeChar
    if escapes && c = '\\' then
      match ← next? with
      | some d =>
        if isBlank d || d = '\n' || d = '\r' then
          continuation
          blockText quote escapes n
        else
          let e ← escape
          return e :: (← blockText quote escapes n)
      | none => failure
    else if c = '\r' then
      unless (← next?) = some '\n' do failure
      return c :: (← blockText quote escapes n)
    else if c = '\n' || isPlain c then return c :: (← blockText quote escapes n)
    else failure

/-- A string, if one comes next. -/
def text? : Reader (Option String) := do
  let n := (← get).length
  let inBlock (quote : Char) (escapes : Bool) : Reader (Option String) := do
    discard eatNewline
    return some (String.ofList (← blockText quote escapes n))
  let onLine (quote : Char) (escapes : Bool) : Reader (Option String) := do
    return some (String.ofList (← lineText quote escapes n))
  if ← eat "\"\"\"" then inBlock '"' true
  else if ← eat "\"" then onLine '"' true
  else if ← eat "'''" then inBlock '\x27' false
  else if ← eat "'" then onLine '\x27' false
  else return none

/-! ### Keys -/

def isBare (c : Char) : Bool := c.isAlphanum || c = '_' || c = '-'

/-- One part of a key. -/
def simpleKey : Reader String := do
  let n := (← get).length
  if ← eat "\"" then return String.ofList (← lineText '"' true n)
  if ← eat "'" then return String.ofList (← lineText '\x27' false n)
  let cs ← takeWhile isBare
  if cs.isEmpty then failure
  return String.ofList cs

/-- The parts of a key, at most `n`. -/
def keyParts : Nat → Reader (List String)
  | 0 => failure
  | n + 1 => do
    skipBlanks
    let key ← simpleKey
    skipBlanks
    if ← eat "." then return key :: (← keyParts n) else return [key]

/-- A key of parts with dots between them. -/
def dottedKey : Reader (List String) := do keyParts ((← get).length + 1)

/-! ### Numbers and dates -/

/-- Digits with single underscores between them; the digits alone are given. -/
def groupedDigits? (isDigit : Char → Bool) (cs : List Char) : Option (List Char) :=
  match cs with
  | [] => none
  | [c] => if isDigit c then some [c] else none
  | c :: '_' :: d :: cs =>
    if isDigit c && isDigit d then (groupedDigits? isDigit (d :: cs)).map (c :: ·) else none
  | c :: d :: cs => if isDigit c then (groupedDigits? isDigit (d :: cs)).map (c :: ·) else none

/-- A number from its digits. -/
def digitsToNat (base : Nat) (cs : List Char) : Nat :=
  cs.foldl (fun n c => n * base + (Json.hexValue? c).getD 0) 0

/-- The sign in front, and what follows it. -/
def signed (cs : List Char) : Bool × List Char :=
  match cs with
  | '-' :: cs => (true, cs)
  | '+' :: cs => (false, cs)
  | cs => (false, cs)

/-- The digits of a decimal whole number: no zero in front of others. -/
def decimalDigits? (cs : List Char) : Option (List Char) := do
  let digits ← groupedDigits? Char.isDigit cs
  if digits.head? = some '0' && 1 < digits.length then none else some digits

/-- A whole number. -/
def integer? (cs : List Char) : Option Int :=
  let based (base : Nat) (isDigit : Char → Bool) (cs : List Char) : Option Int :=
    (groupedDigits? isDigit cs).map fun ds => (digitsToNat base ds : Int)
  match cs with
  | '0' :: 'x' :: cs => based 16 (fun c => (Json.hexValue? c).isSome) cs
  | '0' :: 'o' :: cs => based 8 (fun c => '0' ≤ c && c ≤ '7') cs
  | '0' :: 'b' :: cs => based 2 (fun c => c = '0' || c = '1') cs
  | cs =>
    let (negative, cs) := signed cs
    (decimalDigits? cs).map fun ds =>
      if negative then -(digitsToNat 10 ds : Int) else (digitsToNat 10 ds : Int)

/-- Is `digits * 10 ^ exponent` in the range of floating-point numbers? -/
def isFinite (digits : Nat) (exponent : Int) : Bool :=
  let size : Int := (toString digits).length + exponent
  if digits = 0 || size < 300 then true
  else if 320 < size then false
  else (Decimal.Ratio.scaled digits 10 exponent).lt (.scaled (Nat.pow 2 54 - 1) 2 970)

/-- A floating-point number: is it in range? -/
def float? (cs : List Char) : Option Bool := do
  let (_, cs) := signed cs
  if cs = ['i', 'n', 'f'] || cs = ['n', 'a', 'n'] then return true
  let isExponent (c : Char) : Bool := c = 'e' || c = 'E'
  let mantissa := cs.takeWhile (!isExponent ·)
  let exponent := cs.dropWhile (!isExponent ·)
  let whole ← decimalDigits? (mantissa.takeWhile (· ≠ '.'))
  let point := mantissa.dropWhile (· ≠ '.')
  if point.isEmpty && exponent.isEmpty then none
  let fraction ← if point.isEmpty then some [] else groupedDigits? Char.isDigit point.tail
  let e : Int ←
    if exponent.isEmpty then some 0
    else
      let (negative, ds) := signed exponent.tail
      (groupedDigits? Char.isDigit ds).map fun ds =>
        if negative then -(digitsToNat 10 ds : Int) else (digitsToNat 10 ds : Int)
  return isFinite (digitsToNat 10 (whole ++ fraction)) (e - fraction.length)

/-- A number of exactly `n` digits in front, and what follows it. -/
def fixedDigits? (n : Nat) (cs : List Char) : Option (Nat × List Char) :=
  let digits := cs.take n
  if digits.length = n && digits.all Char.isDigit then some (digitsToNat 10 digits, cs.drop n)
  else none

def isLeapYear (year : Nat) : Bool :=
  year % 4 = 0 && (year % 100 ≠ 0 || year % 400 = 0)

def daysIn (year month : Nat) : Nat :=
  if month = 2 then if isLeapYear year then 29 else 28
  else if month = 4 || month = 6 || month = 9 || month = 11 then 30
  else 31

/-- A date in front, and what follows it. -/
def date? (cs : List Char) : Option (List Char) := do
  let (year, cs) ← fixedDigits? 4 cs
  let '-' :: cs := cs | none
  let (month, cs) ← fixedDigits? 2 cs
  let '-' :: cs := cs | none
  let (day, cs) ← fixedDigits? 2 cs
  if 1 ≤ month && month ≤ 12 && 1 ≤ day && day ≤ daysIn year month then return cs else none

/-- A time of day in front, and what follows it. Seconds may be missing. -/
def time? (cs : List Char) : Option (List Char) := do
  let (hour, cs) ← fixedDigits? 2 cs
  let ':' :: cs := cs | none
  let (minute, cs) ← fixedDigits? 2 cs
  if 23 < hour || 59 < minute then none
  let ':' :: cs := cs | return cs
  let (second, cs) ← fixedDigits? 2 cs
  if 60 < second then none
  let '.' :: cs := cs | return cs
  if (cs.takeWhile Char.isDigit).isEmpty then none
  return cs.dropWhile Char.isDigit

/-- Is the text a distance from universal time, or nothing? -/
def isOffset (cs : List Char) : Bool :=
  match cs with
  | [] | ['Z'] | ['z'] => true
  | c :: cs =>
    (c = '+' || c = '-') &&
      match fixedDigits? 2 cs with
      | some (hour, ':' :: cs) =>
        match fixedDigits? 2 cs with
        | some (minute, []) => hour ≤ 23 && minute ≤ 59
        | _ => false
      | _ => false

/-- Is the text a date, a time, or both? -/
def isDatetime (cs : List Char) : Bool :=
  match date? cs with
  | some [] => true
  | some (c :: cs) =>
    (c = 'T' || c = 't' || c = ' ') &&
      match time? cs with
      | some rest => isOffset rest
      | none => false
  | none => time? cs = some []

/-- May `c` stand in a number, date or word? -/
def isScalar (c : Char) : Bool := c.isAlphanum || c = '_' || c = '+' || c = '-' || c = '.' || c = ':'

/-- A value without quotes or brackets. -/
def scalar : Reader Value := do
  let cs ← takeWhile isScalar
  let rest ← get
  let cs ←
    if date? cs = some [] && rest.head? = some ' ' && (rest.tail.head?.map Char.isDigit).getD false
    then do
      set rest.tail
      pure (cs ++ ' ' :: (← takeWhile isScalar))
    else pure cs
  if cs = "true".toList then return .boolean true
  if cs = "false".toList then return .boolean false
  if let some n := integer? cs then return .integer n
  if let some ok := float? cs then return .float ok
  if isDatetime cs then return .datetime
  failure

/-! ### Values -/

mutual

/-- A value, at most `n` levels deep. -/
def value : Nat → Reader Value
  | 0 => failure
  | n + 1 => do
    if let some s ← text? then return .text s
    if ← eat "[" then return .list (← items n)
    if ← eat "\x7b" then return .table (← inlineTable (← pairs n))
    scalar

/-- The items of a list up to its closing bracket. -/
def items : Nat → Reader (List Value)
  | 0 => failure
  | n + 1 => do
    skipSpace
    if ← eat "]" then return []
    let v ← value n
    skipSpace
    if ← eat "," then return v :: (← items n)
    expect "]"
    return [v]

/-- The entries of an inline table up to its closing brace. -/
def pairs : Nat → Reader (List (List String × Value))
  | 0 => failure
  | n + 1 => do
    skipSpace
    if ← eat "\x7d" then return []
    let key ← dottedKey
    expect "="
    skipBlanks
    let v ← value n
    skipSpace
    if ← eat "," then return (key, v) :: (← pairs n)
    expect "\x7d"
    return [(key, v)]

end

/-! ### Documents -/

/-- A header or an assignment. -/
def statement : Reader Statement := do
  if ← eat "[[" then
    let path ← dottedKey
    expect "]]"
    return .rowHeader path
  if ← eat "[" then
    let path ← dottedKey
    expect "]"
    return .header path
  let path ← dottedKey
  expect "="
  skipBlanks
  return .assignment path (← value ((← get).length + 1))

/-- The statements of a document, at most `n`, each on its line. -/
def statements : Nat → Reader (List Statement)
  | 0 => failure
  | n + 1 => do
    skipSpace
    if (← get).isEmpty then return []
    let s ← statement
    skipBlanks
    skipComment
    if (← get).isEmpty then return [s]
    unless ← eatNewline do failure
    return s :: (← statements n)

/-- The entries of a document. A byte order mark in front does not count. -/
def parse (text : String) : Option (List (String × Value)) := do
  let cs := text.toList
  let cs := if (cs.head?.map Char.toNat) = some 0xfeff then cs.tail else cs
  let (ss, _) ← (statements (cs.length + 1)).run cs
  ofStatements ss

end ScriptAtlas.Toml
