import ScriptAtlas.Text.Identifier
import ScriptAtlas.Syntax.Escape

/-! # Numerals

Where the numeral at the front of a text ends, and whether it is well-formed. An underscore stands
between two digits. In decimal digits one that does not is passed over, and the numeral is flawed;
behind `0x`, `0o` and `0b` it leaves no numeral at all. -/

namespace ScriptAtlas.Syntax

open Text

/-- The text behind a numeral or a part of one, and what is wrong with it. -/
structure Numeral where
  rest : List Char
  /-- Does an underscore stand wrong? -/
  flawed : Bool := false
  /-- Is there an exponent without digits? -/
  incomplete : Bool := false
deriving DecidableEq, Repr, Inhabited

/-- Passes over digits and the underscores between them, up to an underscore that stands wrong. -/
def digitRun (ok : Char → Bool) : List Char → Numeral
  | [] => { rest := [] }
  | c :: cs =>
    if ok c then digitRun ok cs
    else if c = '_' then
      if cs.head?.any ok then digitRun ok cs else { rest := cs, flawed := true }
    else { rest := c :: cs }

/-- The part of a numeral in front of `n` counts too. -/
def Numeral.behind (part n : Numeral) : Numeral := { n with flawed := part.flawed || n.flawed }

/-- The digits of an exponent, with a sign or not. -/
def exponentDigits (cs : List Char) : Numeral :=
  let body := match cs with
    | c :: cs' => if c = '+' || c = '-' then cs' else cs
    | [] => cs
  if body.head?.any Char.isDigit then digitRun Char.isDigit body
  else { rest := body, flawed := true, incomplete := true }

/-- An exponent, if there is one. -/
def exponent (cs : List Char) : Numeral :=
  match cs with
  | c :: cs' => if c = 'e' || c = 'E' then exponentDigits cs' else { rest := cs }
  | [] => { rest := cs }

/-- The part of a decimal numeral after its point. -/
def fraction (cs : List Char) : Numeral :=
  let part : Numeral :=
    if cs.head?.any Char.isDigit then digitRun Char.isDigit cs else { rest := cs }
  part.behind (exponent part.rest)

/-- A decimal numeral: digits, then a fraction, an exponent or the mark of a big integer. -/
def decimal (cs : List Char) : Numeral :=
  let part := digitRun Char.isDigit cs
  match part.rest with
  | '.' :: rest => part.behind (fraction rest)
  | 'n' :: rest => { part with rest }
  | _ => part.behind (exponent part.rest)

/-- The digits after `0x`, `0o` or `0b`, and the mark of a big integer. -/
def radixDigits (ok : Char → Bool) (cs : List Char) : Option Numeral :=
  let part := digitRun ok cs
  if !cs.head?.any ok || part.flawed then none
  else
    match part.rest with
    | 'n' :: rest => some { rest }
    | _ => some part

/-- What follows a numeral is neither a digit nor the start of a name. -/
def Numeral.apart? (n : Numeral) : Option Numeral :=
  if n.rest.head?.any fun c => isIdStart c || c.isDigit then none else some n

/-- A numeral that opens with `0` and another digit: octal unless it holds `8` or `9`. -/
def leadingZero (cs : List Char) : Option Numeral :=
  let ds := cs.takeWhile Char.isDigit
  let plain : Numeral := { rest := cs.drop ds.length }
  if ds.all isOctal then plain.apart?
  else
    match plain.rest with
    | '.' :: rest => (fraction rest).apart?
    | 'e' :: rest => some (exponentDigits rest)
    | _ => plain.apart?

/-- The numeral at the front of `cs`, which opens with a digit or with a point and a digit; `none`
if the text there is no token. -/
def numeral? (cs : List Char) : Option Numeral :=
  match cs with
  | '.' :: cs' => (fraction cs').apart?
  | '0' :: x :: cs' =>
    if x = 'x' || x = 'X' then (radixDigits isHexDigit cs').bind (·.apart?)
    else if x = 'o' || x = 'O' then (radixDigits isOctal cs').bind (·.apart?)
    else if x = 'b' || x = 'B' then (radixDigits (fun c => c = '0' || c = '1') cs').bind (·.apart?)
    else if x = 'e' || x = 'E' then some (exponentDigits cs')
    else if x.isDigit then leadingZero cs
    else if x = '_' then none
    else (decimal cs).apart?
  | _ => (decimal cs).apart?

end ScriptAtlas.Syntax
