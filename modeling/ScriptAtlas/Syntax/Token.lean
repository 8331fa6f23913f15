/-! # Tokens

The words, literals and marks that source text is cut into. A token knows where it lies, whether
a line break precedes it, and the decoded text of names and string literals. -/

namespace ScriptAtlas.Syntax

/-- What a token is. -/
inductive Lexeme where
  /-- A name or keyword, escapes decoded. -/
  | word (text : String)
  /-- `#name` -/
  | privateName (text : String)
  /-- A punctuator. -/
  | mark (text : String)
  /-- A string literal with its value. -/
  | text (value : String)
  | number
  | regex
  /-- A template without substitutions. -/
  | templateWhole
  /-- A template up to its first `${`. -/
  | templateHead
  | templateMiddle
  | templateTail
  | jsxText
  /-- A number whose exponent has no digits. It has no value, so no rule takes it. -/
  | brokenNumber
  /-- Text that is no token: an open literal, a bad number, a character out of place. -/
  | stray
  /-- The end of the text. -/
  | ending
deriving DecidableEq, Repr, Inhabited

structure Token where
  lexeme : Lexeme
  start : Nat
  stop : Nat
  /-- Does a line break stand between the token and the one before it? -/
  newline : Bool
  /-- Is the word written with an escape? -/
  escaped : Bool := false
deriving DecidableEq, Repr, Inhabited

/-- The words that are never names. -/
def reservedWords : List String :=
  ["break", "case", "catch", "class", "const", "continue", "debugger", "default", "delete", "do",
   "else", "enum", "export", "extends", "false", "finally", "for", "function", "if", "import",
   "in", "instanceof", "new", "null", "return", "super", "switch", "this", "throw", "true", "try",
   "typeof", "var", "void", "while", "with"]

/-- Can the word stand as a name? -/
def isName (word : String) : Bool := !reservedWords.contains word

namespace Token

/-- The text of a word, and `""` for any other token. -/
def word (t : Token) : String :=
  match t.lexeme with
  | .word w => w
  | _ => ""

/-- The text of a punctuator, and `""` for any other token. -/
def mark (t : Token) : String :=
  match t.lexeme with
  | .mark m => m
  | _ => ""

/-- Is the token a name or a keyword? -/
def isWord (t : Token) : Bool :=
  match t.lexeme with
  | .word _ => true
  | _ => false

/-- Is the token a word that can stand as a name? -/
def isName (t : Token) : Bool :=
  match t.lexeme with
  | .word w => Syntax.isName w
  | _ => false

/-- Is the token a word that can stand as a name and is never an operator? -/
def isPlainName (t : Token) : Bool := t.isName && t.word != "await" && t.word != "yield"

/-- Is the token a number, string, `true`, `false`, `null` or regular expression? -/
def isLiteral (t : Token) : Bool :=
  match t.lexeme with
  | .number | .text _ | .regex => true
  | .word w => w == "true" || w == "false" || w == "null"
  | _ => false

def isText (t : Token) : Bool :=
  match t.lexeme with
  | .text _ => true
  | _ => false

/-- Does the token open a template? -/
def opensTemplate (t : Token) : Bool := t.lexeme = .templateWhole || t.lexeme = .templateHead

/-- Can the token be the key of a property, computed keys apart? -/
def isPropertyName (t : Token) : Bool :=
  match t.lexeme with
  | .word _ | .text _ | .number => true
  | _ => false

def isEnding (t : Token) : Bool := t.lexeme = .ending

/-- Does nothing that can be read stand here? -/
def isLast (t : Token) : Bool := t.lexeme = .ending || t.lexeme = .stray

end Token

end ScriptAtlas.Syntax
