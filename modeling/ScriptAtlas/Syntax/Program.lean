import ScriptAtlas.Syntax.Grammar.Statement

/-! # Programs

The rules of the grammar are tied together here: `rule` gives the rule of each goal, and `answer`
lets rules ask for goals up to a depth. No text nests deeper than a fixed number of goals for each
of its characters, so the depth that `parseProgram` allows never cuts a text short.

At the top of a module `await` is an operator. Whether a text is a module may show only when it has
been read: its statements are then read once more. -/

namespace ScriptAtlas.Syntax

/-- The rule of each goal. -/
def rule : Goal → Parser Node
  | .expression => expression
  | .assignment arrowResult => assignment arrowResult
  | .binary level => binary level
  | .unary => unary
  | .leftSide => leftSide
  | .atom => atom
  | .type => type
  | .binding => bindingPattern
  | .statement nested => statement nested
  | .tag inside => tag inside

/-- The environment in which rules ask each other for goals, to a bounded depth. -/
def answer (d : Dialect) (rounds : Nat) :
    Nat → Context → Goal → Cursor → Except SyntaxError (Node × Cursor)
  | 0, _, _, cursor => .error ⟨cursor.scanned.token.start⟩
  | depth + 1, context, goal, cursor =>
    rule goal { dialect := d, context, rounds, answer := answer d rounds depth } cursor

/-! ### Statements at the top -/

/-- Asks `env` for a statement at the top. -/
def topStatement (env : Env) (c : Cursor) : Except SyntaxError (Node × Cursor) :=
  parse (.statement false) env c

/-- Statements at the top of a text, each with the cursor in front of it. -/
structure Reading where
  statements : List (Cursor × Node)
  /-- The cursor in front of the statement that cannot be read, if there is one. -/
  refused : Option (Cursor × SyntaxError)

/-- Reads statements up to the end of what can be cut into tokens; `acc` holds those before. -/
def readStatements (env : Env) : Nat → List (Cursor × Node) → Cursor → Reading
  | 0, acc, c => ⟨acc.reverse, some (c, ⟨c.scanned.token.start⟩)⟩
  | n + 1, acc, c =>
    if c.scanned.token.isLast then ⟨acc.reverse, none⟩
    else
      match topStatement env c with
      | .ok (s, c') => readStatements env n ((c, s) :: acc) c'
      | .error e => ⟨acc.reverse, some (c, e)⟩

namespace Reading

/-- Does a statement make the text a module? -/
def isModule (r : Reading) : Bool :=
  r.statements.any fun (_, s) =>
    match s.kind with
    | .importFrom _ | .exportAll _ | .exportFrom _ | .exported => true
    | _ => s.mentions .importMeta

/-- The statements, if all could be read. -/
def result (r : Reading) : Except SyntaxError (List Node) :=
  match r.refused with
  | none => .ok (r.statements.map (·.2))
  | some (_, e) => .error e

/-- The statements, each read again by `env`. A statement that was refused is the last. -/
def again (r : Reading) (env : Env) : Except SyntaxError (List Node) :=
  let cursors := r.statements.map (·.1) ++ r.refused.toList.map (·.1)
  cursors.mapM fun c => (·.1) <$> topStatement env c

end Reading

/-- The tree of a source text. -/
def parseProgram (d : Dialect) (text : String) : Except SyntaxError Node := do
  let cs := text.toList
  let size := cs.length + 4
  let env (inAwait : Bool) : Env :=
    { dialect := d
      context := { inAwait }
      rounds := size
      answer := answer d size (16 * size) }
  let reading := readStatements (env d.strict) size [] ⟨scanFirst d cs, 0⟩
  let body ←
    if d.modularity = .byContent && reading.isModule then reading.again (env true)
    else reading.result
  return (Node.mk .plain ⟨0, text.utf8ByteSize⟩ body).settled

end ScriptAtlas.Syntax
