/-! # Escapes

What follows a backslash in a string literal or a name. An ill-formed escape stands for nothing:
it is unsound, and reading goes on behind the characters that were taken for it. -/

namespace ScriptAtlas.Syntax

/-- Does `c` end a line? -/
def isLineBreak (c : Char) : Bool :=
  c = '\n' || c = '\r' || c.toNat == 0x2028 || c.toNat == 0x2029

/-! ### Code points -/

def hexDigit? (c : Char) : Option Nat :=
  if c.isDigit then some (c.toNat - 48)
  else if 'a' ≤ c && c ≤ 'f' then some (c.toNat - 87)
  else if 'A' ≤ c && c ≤ 'F' then some (c.toNat - 55)
  else none

def isHexDigit (c : Char) : Bool := (hexDigit? c).isSome

/-- The number that hexadecimal digits write. -/
def hexValue (cs : List Char) : Nat :=
  cs.foldl (fun n c => 16 * n + (hexDigit? c).getD 0) 0

/-- Exactly `n` hexadecimal digits: the number they write, if they are there, and how many
characters are read. -/
def fixedHex (n : Nat) (cs : List Char) : Option Nat × Nat :=
  let digits := (cs.take n).takeWhile isHexDigit
  (if digits.length = n then some (hexValue digits) else none, digits.length)

/-- What follows `\u`: a code point, if it is well-formed, and how many characters are read. -/
def codePoint (cs : List Char) : Option Nat × Nat :=
  match cs with
  | '{' :: cs' =>
    let digits := cs'.takeWhile isHexDigit
    let n := hexValue digits
    if (cs'.drop digits.length).head? = some '}' && digits ≠ [] && n ≤ 0x10ffff then
      (some n, digits.length + 2)
    else (none, digits.length + 1)
  | _ => fixedHex 4 cs

def isHighSurrogate (n : Nat) : Bool := 0xd800 ≤ n && n ≤ 0xdbff

def isLowSurrogate (n : Nat) : Bool := 0xdc00 ≤ n && n ≤ 0xdfff

/-! ### Escapes in string literals -/

/-- An escape that was read: the characters it stands for, and how many characters write it. -/
structure Escape where
  out : List Char
  length : Nat
  sound : Bool := true
deriving DecidableEq, Repr, Inhabited

/-- The four hexadecimal digits of a number. -/
def hexDigits4 (n : Nat) : List Char :=
  [n / 4096, n / 256 % 16, n / 16 % 16, n % 16].map Nat.digitChar

/-- What follows `\u` in a string literal. Two escaped surrogates make one character; a lone one is
kept as U+FFFD and its digits. -/
def unicodeEscape (cs : List Char) : Escape :=
  match codePoint cs with
  | (none, k) => ⟨[], k, false⟩
  | (some n, k) =>
    if isHighSurrogate n || isLowSurrogate n then
      let low : Option Nat × Nat :=
        match cs.drop k with
        | '\\' :: 'u' :: cs' => codePoint cs'
        | _ => (none, 0)
      match low with
      | (some m, j) =>
        if isHighSurrogate n && isLowSurrogate m then
          ⟨[Char.ofNat (0x10000 + (n - 0xd800) * 0x400 + (m - 0xdc00))], k + 2 + j, true⟩
        else ⟨Char.ofNat 0xfffd :: hexDigits4 n, k, true⟩
      | (none, _) => ⟨Char.ofNat 0xfffd :: hexDigits4 n, k, true⟩
    else ⟨[Char.ofNat n], k, true⟩

def isOctal (c : Char) : Bool := '0' ≤ c && c ≤ '7'

/-- An octal escape takes three digits if the first is at most `3`, else two. -/
def octalEscape (cs : List Char) : Escape :=
  let limit := if cs.head?.any (· ≤ '3') then 3 else 2
  let digits := (cs.take limit).takeWhile isOctal
  ⟨[Char.ofNat (digits.foldl (fun n c => 8 * n + (c.toNat - 48)) 0)], digits.length, true⟩

/-- What follows `\` in a string literal. -/
def escape (c : Char) (cs : List Char) : Escape :=
  match c with
  | 'n' => ⟨['\n'], 1, true⟩
  | 't' => ⟨['\t'], 1, true⟩
  | 'r' => ⟨['\r'], 1, true⟩
  | 'b' => ⟨[Char.ofNat 8], 1, true⟩
  | 'v' => ⟨[Char.ofNat 11], 1, true⟩
  | 'f' => ⟨[Char.ofNat 12], 1, true⟩
  | '\r' => ⟨[], if cs.head? = some '\n' then 2 else 1, true⟩
  | 'x' =>
    match fixedHex 2 cs with
    | (some n, k) => ⟨[Char.ofNat n], k + 1, true⟩
    | (none, k) => ⟨[], k + 1, false⟩
  | 'u' =>
    let e := unicodeEscape cs
    { e with length := e.length + 1 }
  | _ =>
    if isLineBreak c then ⟨[], 1, true⟩
    else if isOctal c then octalEscape (c :: cs)
    else ⟨[c], 1, true⟩

/-! ### Escapes in names -/

/-- What follows `\` in a name, where only characters that `fits` admits may be written so. -/
def nameEscape (fits : Char → Bool) (cs : List Char) : Escape :=
  match cs with
  | [] => ⟨[], 0, false⟩
  | 'u' :: cs' =>
    match codePoint cs' with
    | (none, k) => ⟨[], k + 1, false⟩
    | (some n, k) =>
      if isHighSurrogate n || isLowSurrogate n || !fits (Char.ofNat n) then ⟨[], k + 1, false⟩
      else ⟨[Char.ofNat n], k + 1, true⟩
  | _ :: _ => ⟨[], 1, false⟩

end ScriptAtlas.Syntax
