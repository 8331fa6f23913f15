import ScriptAtlas.Graph.Report
import ScriptAtlas.Output.Styled

/-! # Listings for people

The answers as text for a terminal. -/

namespace ScriptAtlas.Output

open Styled

/-- The number of lines of a source text that are shown. -/
def shownLines : Nat := 12

/-- A source text, indented; of a long one only the first lines. -/
def snippet (content : String) : Styled :=
  let lines := Text.lines content.toList
  let entry (s : String) : Styled := line (plain "    " ++ dimmed s)
  let shown := (lines.take shownLines).flatMap fun l => entry (String.ofList l)
  if shownLines < lines.length then
    shown ++ entry s!"... ({lines.length - shownLines} more lines)"
  else shown

/-- ` in file` -/
def place (file : String) : Styled :=
  plain " " ++ dimmed "in" ++ plain " " ++ coloured .cyan file

/-- A name with the file it stands in, if that is given. -/
def located (name : String) (file : Option String) : Styled :=
  coloured .green name ++ (file.map place).getD []

def dependencies (target : String) (d : Function.Dependencies) : Styled :=
  match d.target with
  | none =>
    line (strong .red "✗" ++ plain s!" function \x60{target}\x60 not found")
  | some source =>
    line (bold target ++ place (d.targetFile.getD "?")) ++ snippet source ++
      if d.dependencies.isEmpty then plain "\nNo dependencies found.\n"
      else
        plain s!"\nDependencies ({d.dependencies.length}):\n" ++
          d.dependencies.flatMap fun x =>
            line (plain "  " ++ located x.name (some x.file)) ++ snippet x.content

def callers (c : Function.Callers) : Styled :=
  if c.callers.isEmpty then plain s!"No callers of \x60{c.target}\x60 found.\n"
  else
    line (plain "Callers of " ++ bold c.target ++ plain s!" ({c.callers.length}):") ++
      c.callers.flatMap fun x =>
        line (plain "  " ++ located x.name x.file) ++ snippet x.content

def findings (fs : List Function.Finding) : Styled :=
  if fs.isEmpty then plain "No functions matched.\n"
  else
    plain s!"Functions matching keywords ({fs.length}):\n" ++
      fs.flatMap fun f =>
        line (plain "  " ++ located f.functionName f.file ++ plain " [" ++
          coloured .yellow (", ".intercalate f.foundKeywords) ++ plain "]")

/-- The cycles of a graph, numbered from one on. -/
def cycleLines (n : Nat) : List (List String) → Styled
  | [] => []
  | c :: cs => plain s!"  Cycle {n}: {Cycle.describe c}\n" ++ cycleLines (n + 1) cs

def graph (r : GraphReport) : Styled :=
  let head :=
    line (plain "Module graph: " ++ bold (toString r.nodes.length) ++ plain " modules, " ++
      bold (toString r.edges.length) ++ plain " imports")
  let cycles :=
    if r.cycles.isEmpty then
      line (plain "\n" ++ strong .green "✓" ++ plain " No circular imports detected.")
    else
      line (plain "\n" ++ strong .yellow "⚠" ++
        plain s!" Circular imports detected ({r.cycles.length} cycles):") ++ cycleLines 1 r.cycles
  let hubs :=
    if r.hubs.isEmpty then []
    else
      plain s!"\nHubs ({r.hubs.length}):\n" ++
        r.hubs.flatMap fun h =>
          line (plain "  " ++ coloured .cyan h.id ++ plain s!" ({h.importers} importers)")
  let orphans :=
    if r.orphans.isEmpty then []
    else
      plain s!"\nOrphans ({r.orphans.length}):\n" ++
        r.orphans.flatMap fun id => line (plain "  " ++ coloured .cyan id)
  head ++ cycles ++ hubs ++ orphans

/-- A number with blanks before it, `width` characters wide. -/
def padded (width n : Nat) : String :=
  let digits := toString n
  String.ofList (List.replicate (width - digits.length) ' ') ++ digits

/-- A complexity, marked if it is high. -/
def score (width n : Nat) : Styled :=
  let s := padded width n
  if 10 ≤ n then strong .red s else if 5 ≤ n then coloured .yellow s else plain s

def hotspots (fs : List Function.Ranked) : Styled :=
  if fs.isEmpty then plain "No named functions found.\n"
  else
    let width := (fs.map fun f => (toString f.complexity).length).foldl max 1
    fs.flatMap fun f =>
      line (plain "  " ++ score width f.complexity ++ plain "  " ++ located f.name (some f.file))

end ScriptAtlas.Output
