/-! # Shortest decimals

The decimal with the fewest digits that lies closer to a binary fraction than to its neighbours, so
that it reads back as the same number. All of it is exact arithmetic on natural numbers. -/

namespace ScriptAtlas

/-- `digits * 10 ^ exponent` -/
structure Decimal where
  digits : Nat
  exponent : Int
deriving DecidableEq, Repr, Inhabited

namespace Decimal

/-- A positive fraction. -/
structure Ratio where
  num : Nat
  den : Nat
deriving DecidableEq, Repr, Inhabited

namespace Ratio

/-- `n * b ^ e` -/
def scaled (n b : Nat) (e : Int) : Ratio :=
  if 0 ≤ e then ⟨n * b.pow e.toNat, 1⟩ else ⟨n, b.pow (-e).toNat⟩

def le (a b : Ratio) : Bool := a.num * b.den ≤ b.num * a.den

def lt (a b : Ratio) : Bool := a.num * b.den < b.num * a.den

/-- The whole part of `a / b`. -/
def quotient (a b : Ratio) : Nat := (a.num * b.den) / (a.den * b.num)

end Ratio

def ratio (d : Decimal) : Ratio := .scaled d.digits 10 d.exponent

/-- A binary number with the ends of the interval of numbers that round to it. -/
structure Binary where
  value : Ratio
  low : Ratio
  high : Ratio
  /-- Do the ends round to it, too? -/
  closed : Bool
deriving Inhabited

/-- `mantissa * 2 ^ exponent`, where the number below may lie half as far away as the one above. -/
def Binary.of (mantissa : Nat) (exponent : Int) (closeBelow : Bool) : Binary where
  value := .scaled mantissa 2 exponent
  low := if closeBelow then .scaled (4 * mantissa - 1) 2 (exponent - 2)
    else .scaled (2 * mantissa - 1) 2 (exponent - 1)
  high := .scaled (2 * mantissa + 1) 2 (exponent - 1)
  closed := mantissa % 2 = 0

/-- Does a decimal read back as the number? -/
def Binary.covers (b : Binary) (d : Decimal) : Bool :=
  if b.closed then b.low.le d.ratio && d.ratio.le b.high
  else b.low.lt d.ratio && d.ratio.lt b.high

/-- The largest power of ten that is no more than a ratio, from `high` down. -/
def leadingPower (r : Ratio) (high : Int) : Nat → Int
  | 0 => high
  | n + 1 => if (Ratio.scaled 1 10 high).le r then high else leadingPower r (high - 1) n

/-- Is `d` nearer to the number than the next decimal above? A tie goes to the even digit. -/
def Binary.prefersLower (b : Binary) (d : Decimal) : Bool :=
  let middle := Ratio.scaled (10 * d.digits + 5) 10 (d.exponent - 1)
  if b.value.lt middle then true else if middle.lt b.value then false else d.digits % 2 = 0

/-- The nearest of the two decimals around the number, on a grid of powers of ten, that reads
back. -/
def Binary.onGrid? (b : Binary) (exponent : Int) : Option Decimal :=
  let below : Decimal := ⟨b.value.quotient (.scaled 1 10 exponent), exponent⟩
  let above : Decimal := ⟨below.digits + 1, exponent⟩
  match b.covers below, b.covers above with
  | true, true => some (if b.prefersLower below then below else above)
  | true, false => some below
  | false, true => some above
  | false, false => none

/-- The decimal on the coarsest grid that has one, with at most `n` digits. -/
def Binary.search (b : Binary) (exponent : Int) : Nat → Option Decimal
  | 0 => none
  | n + 1 =>
    match b.onGrid? exponent with
    | some d => some d
    | none => b.search (exponent - 1) n

/-- A decimal without zeros at its end. -/
def stripped (d : Decimal) : Nat → Decimal
  | 0 => d
  | n + 1 =>
    if d.digits % 10 = 0 && d.digits ≠ 0 then
      stripped ⟨d.digits / 10, d.exponent + 1⟩ n
    else d

/-- The shortest decimal of a binary number. -/
def Binary.shortest (b : Binary) : Decimal :=
  match b.search (leadingPower b.value 310 640) 18 with
  | some d => d.stripped 20
  | none => ⟨0, 0⟩

/-! ### Floating-point numbers -/

/-- The magnitude of a finite number from its bits. -/
def magnitude (f : Float) : Decimal :=
  let bits := f.toBits.toNat % Nat.pow 2 63
  let field : Nat := bits / Nat.pow 2 52
  let low := bits % Nat.pow 2 52
  if bits = 0 then ⟨0, 0⟩
  else if field = 0 then (Binary.of low (-1074) false).shortest
  else (Binary.of (Nat.pow 2 52 + low) ((field : Int) - 1075) (low = 0 && 1 < field)).shortest

def zeros (n : Nat) : String := String.ofList (List.replicate n '0')

/-- A decimal as text: positional from `0.00001` up to sixteen places before the point, and with an
exponent outside. -/
def text (d : Decimal) : String :=
  let digits := toString d.digits
  let n := digits.length
  let point : Int := n + d.exponent
  if d.digits = 0 then "0.0"
  else if 0 ≤ d.exponent && point ≤ 16 then digits ++ zeros d.exponent.toNat ++ ".0"
  else if 0 < point && point ≤ 16 then
    (digits.take point.toNat).toString ++ "." ++ (digits.drop point.toNat).toString
  else if -5 < point && point ≤ 0 then "0." ++ zeros (-point).toNat ++ digits
  else
    let tail := if n = 1 then "" else "." ++ (digits.drop 1).toString
    (digits.take 1).toString ++ tail ++ "e" ++ toString (point - 1)

/-- A finite number as text. -/
def floatText (f : Float) : String :=
  (if f.toBits.toNat < Nat.pow 2 63 then "" else "-") ++ (magnitude f).text

end Decimal

end ScriptAtlas
