import ScriptAtlas.Syntax.Numeral
import ScriptAtlas.Syntax.Token

/-! # Cutting text into tokens

`scan` reads the token that follows a place in the text, skipping blanks and comments. Offsets
count bytes of UTF-8. Text that is no token (an open string, a character out of place, a bad number)
is a `stray` token, behind which nothing is read. Smaller slips, such as an ill-formed escape, leave
a token that is `flawed`; all that they change is that no regular expression is read behind them.

Some marks depend on what the grammar expects: `/` may open a regular expression, `}` may go on
with a template, `>` is one character unless an operator is wanted, and text between tags is not
cut at blanks. The functions under "Tokens in context" read those.

All readers recurse on the text. Where an escape spans several characters, the reader passes over
them by a count. -/

namespace ScriptAtlas.Syntax

open Text

/-- Is a text a module? -/
inductive Modularity where
  | module
  | script
  /-- It is one if it imports or exports something. -/
  | byContent
deriving DecidableEq, Repr, Inhabited

/-- What the source text may contain. -/
structure Dialect where
  /-- Are there tags? -/
  jsx : Bool
  modularity : Modularity
deriving DecidableEq, Repr, Inhabited

/-- Is the text a module whatever it contains? -/
def Dialect.strict (d : Dialect) : Bool := d.modularity = .module

/-- The number of bytes of some characters. -/
def byteLength (cs : List Char) : Nat := cs.foldl (fun n c => n + c.utf8Size) 0

/-! ### Blanks and comments -/

/-- Is `c` skipped between tokens? -/
def isGap (c : Char) : Bool :=
  let n := c.toNat
  n == 9 || n == 0xb || n == 0xc || n == 0x20 || n == 0x85 || n == 0xa0 || n == 0x1680 ||
    n == 0x180e || (0x2000 ≤ n && n ≤ 0x200b) || n == 0x202f || n == 0x205f || n == 0x3000 ||
    n == 0xfeff

/-- Where a reader stands between two tokens. -/
inductive Gap where
  | blank
  | lineComment
  /-- Inside a block comment, just behind a `*` or not. -/
  | blockComment (star : Bool)

/-- A place in the text, and whether a line break was passed on the way to it. -/
structure Place where
  newline : Bool
  pos : Nat
  rest : List Char

/-- Passes over blanks and comments; `none` if a comment does not end. A line may also be commented
out as in markup, by `<!--`, or by `-->` in front. In a strict module only `<!--` in front of a line
does so. -/
def skipGaps (strict : Bool) : Gap → Bool → Nat → List Char → Option Place
  | .blockComment _, _, _, [] => none
  | _, nl, pos, [] => some ⟨nl, pos, []⟩
  | .blank, nl, pos, c :: cs =>
    if isLineBreak c then skipGaps strict .blank true (pos + c.utf8Size) cs
    else if isGap c then skipGaps strict .blank nl (pos + c.utf8Size) cs
    else
      match c, cs with
      | '/', '/' :: cs' => skipGaps strict .lineComment nl (pos + 2) cs'
      | '/', '*' :: cs' => skipGaps strict (.blockComment false) nl (pos + 2) cs'
      | '<', '!' :: '-' :: '-' :: cs' =>
        if !strict || nl then skipGaps strict .lineComment nl (pos + 4) cs'
        else some ⟨nl, pos, c :: cs⟩
      | '-', '-' :: '>' :: cs' =>
        if !strict && nl then skipGaps strict .lineComment nl (pos + 3) cs'
        else some ⟨nl, pos, c :: cs⟩
      | _, _ => some ⟨nl, pos, c :: cs⟩
  | .lineComment, nl, pos, c :: cs =>
    if isLineBreak c then skipGaps strict .blank true (pos + c.utf8Size) cs
    else skipGaps strict .lineComment nl (pos + c.utf8Size) cs
  | .blockComment star, nl, pos, c :: cs =>
    if star && c = '/' then skipGaps strict .blank nl (pos + 1) cs
    else skipGaps strict (.blockComment (c = '*')) (nl || isLineBreak c) (pos + c.utf8Size) cs

/-! ### Names, strings, templates, regular expressions -/

/-- A name or string literal that was read: its text, where it ends, and whether all its escapes
are well-formed. -/
structure Spelled where
  text : String
  escaped : Bool
  sound : Bool
  stop : Nat
  after : List Char

/-- Reads a name, which opens here if `first` holds. The first `skip` characters belong to an escape
that is read already. -/
def scanName (first : Bool) (skip : Nat) (escaped sound : Bool) (pos : Nat) (acc : List Char) :
    List Char → Spelled
  | [] => ⟨String.ofList acc.reverse, escaped, sound, pos, []⟩
  | c :: cs =>
    match skip with
    | k + 1 => scanName first k escaped sound (pos + c.utf8Size) acc cs
    | 0 =>
      let fits : Char → Bool := if first then isIdStart else isIdPart
      if fits c then scanName false 0 escaped sound (pos + c.utf8Size) (c :: acc) cs
      else if c = '\\' then
        let e := nameEscape fits cs
        scanName false e.length true (sound && e.sound) (pos + 1) (e.out ++ acc) cs
      else ⟨String.ofList acc.reverse, escaped, sound, pos, c :: cs⟩

/-- Reads a string literal after its opening quote; `none` if it does not end on its line. -/
def scanText (quote : Char) (skip : Nat) (sound : Bool) (pos : Nat) (acc : List Char) :
    List Char → Option Spelled
  | [] => none
  | c :: cs =>
    match skip with
    | k + 1 => scanText quote k sound (pos + c.utf8Size) acc cs
    | 0 =>
      if c = quote then some ⟨String.ofList acc.reverse, false, sound, pos + 1, cs⟩
      else if c = '\n' || c = '\r' then none
      else if c = '\\' then
        match cs with
        | [] => none
        | d :: ds =>
          let e := escape d ds
          scanText quote e.length (sound && e.sound) (pos + 1) (e.out.reverse ++ acc) cs
      else scanText quote 0 sound (pos + c.utf8Size) (c :: acc) cs

/-- Reads a template up to its closing quote (`true`) or the next `${`; `none` if it is open. -/
def scanTemplate (escaped : Bool) (pos : Nat) : List Char → Option (Bool × Nat × List Char)
  | [] => none
  | c :: cs =>
    if escaped then scanTemplate false (pos + c.utf8Size) cs
    else
      match c, cs with
      | '\x60', _ => some (true, pos + 1, cs)
      | '$', '{' :: cs' => some (false, pos + 2, cs')
      | _, _ => scanTemplate (c = '\\') (pos + c.utf8Size) cs

/-- Flags of a regular expression are known ones, each at most once. -/
def soundFlags (flags : List Char) : Bool :=
  flags.all ['d', 'g', 'i', 'm', 's', 'u', 'v', 'y'].contains && decide flags.Nodup

/-- Reads a regular expression after its first `/`; `none` if it does not end on its line or has
bad flags. -/
def scanRegex (escaped inClass : Bool) (pos : Nat) : List Char → Option (Nat × List Char)
  | [] => none
  | c :: cs =>
    if isLineBreak c then none
    else if escaped then scanRegex false inClass (pos + c.utf8Size) cs
    else if c = '/' && !inClass then
      let flags := cs.takeWhile fun d => d.isAlphanum || d = '$' || d = '_'
      if soundFlags flags then some (pos + 1 + flags.length, cs.drop flags.length) else none
    else
      scanRegex (c = '\\') (if c = '[' then true else if c = ']' then false else inClass)
        (pos + c.utf8Size) cs

/-! ### Tokens -/

/-- The punctuators, longer ones first. `>` stands alone. -/
def marks : List String :=
  ["**=", "...", "===", "!==", "<<=", "&&=", "||=", "??=", "=>", "==", "!=", "<=", "<<", "&&",
   "||", "??", "?.", "++", "--", "+=", "-=", "*=", "/=", "%=", "&=", "|=", "^=", "**", "\x7b", "\x7d",
   "(", ")", "[", "]", ";", ",", "<", ">", "+", "-", "*", "/", "%", "&", "|", "^", "!", "~", "?",
   ":", "=", ".", "@"]

/-- The punctuator at the front of `cs`. A digit after `?.` makes it a `?`. -/
def markAt (cs : List Char) : Option String :=
  marks.find? fun m =>
    m.toList.isPrefixOf cs && !(m == "?." && (cs.drop 2).head?.any Char.isDigit)

/-- A token, the text from its first character on, and the text behind it. -/
structure Scanned where
  token : Token
  here : List Char
  after : List Char
  /-- Is the token, or one before it, ill-formed? -/
  flawed : Bool

/-- A token behind which nothing is read. -/
def Scanned.last (l : Lexeme) (newline : Bool) (pos : Nat) : Scanned :=
  ⟨⟨l, pos, pos, newline, false⟩, [], [], true⟩

/-- The token at a place where no blank or comment stands. -/
def scanHere (p : Place) : Scanned :=
  let make (l : Lexeme) (escaped : Bool) (stop : Nat) (after : List Char) (flawed : Bool) : Scanned :=
    ⟨⟨l, p.pos, stop, p.newline, escaped⟩, p.rest, after, flawed⟩
  let stray := Scanned.last .stray p.newline p.pos
  match p.rest with
  | [] => .last .ending p.newline p.pos
  | c :: cs =>
    if isIdStart c || c = '\\' then
      let n := scanName true 0 false true p.pos [] p.rest
      make (.word n.text) n.escaped n.stop n.after !n.sound
    else if c = '"' || c = '\x27' then
      match scanText c 0 true (p.pos + 1) [] cs with
      | some t => make (.text t.text) false t.stop t.after !t.sound
      | none => stray
    else if c = '\x60' then
      match scanTemplate false (p.pos + 1) cs with
      | some (true, stop, after) => make .templateWhole false stop after false
      | some (false, stop, after) => make .templateHead false stop after false
      | none => stray
    else if c = '#' then
      if cs.head?.any fun d => isIdStart d || d = '\\' then
        let n := scanName true 0 false true (p.pos + 1) [] cs
        make (.privateName n.text) n.escaped n.stop n.after !n.sound
      else stray
    else if c.isDigit || (c = '.' && cs.head?.any Char.isDigit) then
      match numeral? p.rest with
      | some n =>
        make (if n.incomplete then .brokenNumber else .number) false
          (p.pos + (p.rest.length - n.rest.length)) n.rest n.flawed
      | none => stray
    else
      match markAt p.rest with
      | some m => make (.mark m) false (p.pos + m.length) (p.rest.drop m.length) false
      | none => stray

/-- The token that follows in the text. -/
def scan (d : Dialect) (newline : Bool) (pos : Nat) (cs : List Char) : Scanned :=
  match skipGaps d.strict .blank newline pos cs with
  | some p => scanHere p
  | none => .last .ending newline pos

/-- The first token of a source text. It counts as standing on a new line, and a first line that
opens with `#!` is skipped. -/
def scanFirst (d : Dialect) (cs : List Char) : Scanned :=
  match cs with
  | '#' :: '!' :: _ =>
    match skipGaps d.strict .lineComment true 0 cs with
    | some p => scanHere p
    | none => .last .ending true 0
  | _ => scan d true 0 cs

/-! ### Tokens in context -/

namespace Scanned

/-- The token again, as `l` with `n` characters. -/
private def recut (s : Scanned) (l : Lexeme) (n : Nat) : Scanned :=
  { s with
    token := { s.token with lexeme := l, stop := s.token.start + n }
    after := s.here.drop n }

/-- `/` or `/=` read as the start of a regular expression. Behind a flaw there is none. -/
def asRegex (s : Scanned) : Scanned :=
  let stray := Scanned.last .stray s.token.newline s.token.start
  if s.flawed then stray
  else
    match scanRegex false false (s.token.start + 1) s.here.tail with
    | some (stop, after) => { s with token := { s.token with lexeme := .regex, stop }, after }
    | none => stray

/-- `}` read as the end of a template substitution. -/
def asTemplateTail (s : Scanned) : Scanned :=
  match scanTemplate false (s.token.start + 1) s.here.tail with
  | some (closed, stop, after) =>
    let l := if closed then .templateTail else .templateMiddle
    { s with token := { s.token with lexeme := l, stop }, after }
  | none => .last .stray s.token.newline s.token.start

/-- `>` read as the longest operator that opens with it. -/
def asOperator (s : Scanned) : Scanned :=
  if s.token.lexeme = .mark ">" then
    match [">>>=", ">>>", ">>=", ">>", ">="].find? fun m => m.toList.isPrefixOf s.here with
    | some m => s.recut (.mark m) m.length
    | none => s
  else s

/-- An operator that opens with `<` read as the bracket alone. -/
def asAngle (s : Scanned) : Scanned :=
  if ["<<", "<=", "<<="].contains s.token.mark then s.recut (.mark "<") 1 else s

/-- A word read on as the name of a tag or attribute, which may hold `-`. -/
def asTagName (s : Scanned) : Scanned :=
  let more := s.after.takeWhile fun c => isIdPart c || c = '-'
  match s.token.lexeme with
  | .word w =>
    { s with
      token :=
        { s.token with
          lexeme := .word (w ++ String.ofList more)
          stop := s.token.stop + byteLength more }
      after := s.after.drop more.length }
  | _ => s

end Scanned

/-- The token between tags: a bracket, or the text up to the next one. A closing bracket in the text
is a flaw. -/
def scanChild (pos : Nat) (cs : List Char) : Scanned :=
  match cs with
  | [] => .last .ending false pos
  | '<' :: after => ⟨⟨.mark "<", pos, pos + 1, false, false⟩, cs, after, false⟩
  | '{' :: after => ⟨⟨.mark "\x7b", pos, pos + 1, false, false⟩, cs, after, false⟩
  | _ =>
    let text := cs.takeWhile fun c => c ≠ '<' && c ≠ '{'
    ⟨⟨.jsxText, pos, pos + byteLength text, false, false⟩, cs, cs.drop text.length,
      text.any fun c => c = '>' || c = '}'⟩

/-- The token after `=` in a tag: quoted text runs to the same quote, without escapes. -/
def scanAttribute (d : Dialect) (pos : Nat) (cs : List Char) : Scanned :=
  match skipGaps d.strict .blank false pos cs with
  | none => .last .ending false pos
  | some p =>
    match p.rest with
    | q :: after =>
      if q = '"' || q = '\x27' then
        let text := after.takeWhile (· ≠ q)
        match after.drop text.length with
        | _ :: after' =>
          ⟨⟨.text (String.ofList text), p.pos, p.pos + 2 + byteLength text, p.newline, false⟩,
            p.rest, after', false⟩
        | [] => .last .stray p.newline p.pos
      else scanHere p
    | [] => .last .ending p.newline p.pos

end ScriptAtlas.Syntax
