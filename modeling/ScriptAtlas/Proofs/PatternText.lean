import Mathlib.Data.List.Forall2
import ScriptAtlas.Text.CaseFold

/-! # Patterns and their texts

Patterns that are searched for in texts, and the notation they are written in. `Takes` says which
part of a text a pattern takes, `Query.read?` reads a pattern from its text. Whatever characters a
text has, escaped it is the pattern that takes this text alone (`foldlM_literals`,
`takes_literals_iff`). -/

namespace ScriptAtlas

inductive Pattern where
  | literal (c : Char)
  | noneOf (c : Char)
  | start
  | finish
  | sequence (ps : List Pattern)
  | anyOf (ps : List Pattern)
  | oneOrMore (p : Pattern)
  | optional (p : Pattern)

namespace Pattern

/-! ### What patterns take -/

/-- The pattern takes `part` of a text, which stands between `before` and `after`. Characters count
as equal if `fold` maps them to the same one. -/
inductive Takes (fold : Char → Char) : Pattern → List Char → List Char → List Char → Prop where
  | literal {c d : Char} {before after : List Char} (h : fold d = fold c) :
      Takes fold (.literal c) before [d] after
  | noneOf {c d : Char} {before after : List Char} (h : fold d ≠ fold c) :
      Takes fold (.noneOf c) before [d] after
  | start {after : List Char} : Takes fold .start [] [] after
  | finish {before : List Char} : Takes fold .finish before [] []
  | nil {before after : List Char} : Takes fold (.sequence []) before [] after
  | cons {p : Pattern} {ps : List Pattern} {before u v after : List Char}
      (hp : Takes fold p before u (v ++ after))
      (hps : Takes fold (.sequence ps) (before ++ u) v after) :
      Takes fold (.sequence (p :: ps)) before (u ++ v) after
  | anyOf {p : Pattern} {ps : List Pattern} {before part after : List Char} (hmem : p ∈ ps)
      (hp : Takes fold p before part after) : Takes fold (.anyOf ps) before part after
  | once {p : Pattern} {before part after : List Char} (hp : Takes fold p before part after) :
      Takes fold (.oneOrMore p) before part after
  | again {p : Pattern} {before u v after : List Char} (hp : Takes fold p before u (v ++ after))
      (hmore : Takes fold (.oneOrMore p) (before ++ u) v after) :
      Takes fold (.oneOrMore p) before (u ++ v) after
  | skipped {p : Pattern} {before after : List Char} : Takes fold (.optional p) before [] after
  | taken {p : Pattern} {before part after : List Char} (hp : Takes fold p before part after) :
      Takes fold (.optional p) before part after

section Takes

variable {fold : Char → Char} {c : Char} {p : Pattern} {ps : List Pattern}
  {before part after : List Char}

theorem takes_literal_iff :
    Takes fold (.literal c) before part after ↔ ∃ d, part = [d] ∧ fold d = fold c := by
  constructor
  · rintro ⟨h⟩
    exact ⟨_, rfl, h⟩
  · rintro ⟨d, rfl, h⟩
    exact .literal h

theorem takes_start_iff : Takes fold .start before part after ↔ before = [] ∧ part = [] := by
  constructor
  · rintro ⟨⟩
    exact ⟨rfl, rfl⟩
  · rintro ⟨rfl, rfl⟩
    exact .start

theorem takes_finish_iff : Takes fold .finish before part after ↔ part = [] ∧ after = [] := by
  constructor
  · rintro ⟨⟩
    exact ⟨rfl, rfl⟩
  · rintro ⟨rfl, rfl⟩
    exact .finish

theorem takes_nil_iff : Takes fold (.sequence []) before part after ↔ part = [] := by
  constructor
  · rintro ⟨⟩
    rfl
  · rintro rfl
    exact .nil

theorem takes_cons_iff :
    Takes fold (.sequence (p :: ps)) before part after ↔
      ∃ u v, part = u ++ v ∧ Takes fold p before u (v ++ after) ∧
        Takes fold (.sequence ps) (before ++ u) v after := by
  constructor
  · intro h
    cases h with
    | cons hp hps => exact ⟨_, _, rfl, hp, hps⟩
  · rintro ⟨u, v, rfl, hp, hps⟩
    exact .cons hp hps

theorem takes_anyOf_iff :
    Takes fold (.anyOf ps) before part after ↔ ∃ p ∈ ps, Takes fold p before part after := by
  constructor
  · intro h
    cases h with
    | anyOf hmem hp => exact ⟨_, hmem, hp⟩
  · rintro ⟨p, hmem, hp⟩
    exact .anyOf hmem hp

theorem takes_optional_iff :
    Takes fold (.optional p) before part after ↔ part = [] ∨ Takes fold p before part after := by
  constructor
  · intro h
    cases h with
    | skipped => exact .inl rfl
    | taken hp => exact .inr hp
  · rintro (rfl | hp)
    · exact .skipped
    · exact .taken hp

theorem Takes.of_oneOrMore_noneOf (h : Takes fold (.oneOrMore (.noneOf c)) before part after) :
    part ≠ [] ∧ ∀ d ∈ part, fold d ≠ fold c := by
  generalize hq : Pattern.oneOrMore (.noneOf c) = q at h
  induction h with
  | once hp =>
    cases hq
    cases hp with
    | noneOf hd => simpa using hd
  | again hp _ _ ih =>
    cases hq
    cases hp with
    | noneOf hd =>
      obtain ⟨-, hrest⟩ := ih rfl
      exact ⟨by simp, List.forall_mem_cons.mpr ⟨hd, hrest⟩⟩
  | _ => cases hq

theorem takes_oneOrMore_noneOf_iff :
    Takes fold (.oneOrMore (.noneOf c)) before part after ↔
      part ≠ [] ∧ ∀ d ∈ part, fold d ≠ fold c := by
  refine ⟨Takes.of_oneOrMore_noneOf, ?_⟩
  rintro ⟨hpart, hall⟩
  induction part generalizing before with
  | nil => exact absurd rfl hpart
  | cons d rest ih =>
    obtain ⟨hd, hrest⟩ := List.forall_mem_cons.mp hall
    by_cases hnil : rest = []
    · subst hnil
      exact .once (.noneOf hd)
    · exact .again (u := [d]) (.noneOf hd) (ih hnil hrest)

/-- Literals one behind the other take a text character by character. -/
theorem takes_literals_iff {cs : List Char} :
    Takes fold (.sequence (cs.map .literal)) before part after ↔
      List.Forall₂ (fun c d => fold c = fold d) cs part := by
  induction cs generalizing before part with
  | nil => rw [List.map_nil, takes_nil_iff, List.forall₂_nil_left_iff]
  | cons c cs ih =>
    rw [List.map_cons, takes_cons_iff, List.forall₂_cons_left_iff]
    constructor
    · rintro ⟨u, v, rfl, hu, hv⟩
      obtain ⟨d, rfl, hd⟩ := takes_literal_iff.mp hu
      exact ⟨d, v, hd.symm, ih.mp hv, rfl⟩
    · rintro ⟨d, v, hd, hv, rfl⟩
      exact ⟨[d], v, rfl, .literal hd.symm, ih.mpr hv⟩

end Takes

/-! ### Texts of patterns -/

/-- The characters that stand for themselves behind a backslash only. -/
def metaChars : List Char :=
  ['\\', '.', '+', '*', '?', '(', ')', '|', '[', ']', '\x7b', '\x7d', '^', '$', '#', '&', '-', '~']

def escape (cs : List Char) : List Char :=
  cs.flatMap fun c => if c ∈ metaChars then ['\\', c] else [c]

inductive Token where
  | piece (p : Pattern)
  | group
  | close
  | bar
  | plus
  | question

/-- The operators that are one character. -/
def operators : List (Char × Token) :=
  [(')', .close), ('|', .bar), ('^', .piece .start), ('$', .piece .finish), ('+', .plus),
   ('?', .question)]

def token? (c : Char) : Option Token :=
  if c ∈ metaChars then operators.lookup c else some (.piece (.literal c))

/-- The tokens of a text, unless it uses other notation. -/
def tokens? : List Char → Option (List Token)
  | [] => some []
  | '(' :: '?' :: ':' :: cs => (tokens? cs).map (.group :: ·)
  | '[' :: '^' :: c :: ']' :: cs =>
    if c ∈ metaChars then none else (tokens? cs).map (.piece (.noneOf c) :: ·)
  | '\\' :: c :: cs =>
    if c ∈ metaChars then (tokens? cs).map (.piece (.literal c) :: ·) else none
  | c :: cs => (token? c).bind fun t => (tokens? cs).map (t :: ·)

/-- A group that is being read: the alternatives behind which a bar has been read, and the pieces of
the next one. -/
structure Group where
  alternatives : List Pattern := []
  pieces : List Pattern := []

namespace Group

def add (g : Group) (p : Pattern) : Group := ⟨g.alternatives, g.pieces ++ [p]⟩

def nextAlternative (g : Group) : Group := ⟨g.alternatives ++ [.sequence g.pieces], []⟩

def pattern (g : Group) : Pattern := .anyOf g.nextAlternative.alternatives

end Group

def isRepeated : Pattern → Bool
  | .oneOrMore _ => true
  | .optional _ => true
  | _ => false

/-- The group with an operator put to its last piece. A second operator would have another
meaning. -/
def Group.repeatLast? (g : Group) (op : Pattern → Pattern) : Option Group :=
  g.pieces.getLast?.bind fun p =>
    if p.isRepeated then none else some ⟨g.alternatives, g.pieces.dropLast ++ [op p]⟩

/-- Reads a token with a group open, and those around it. -/
def step : Group × List Group → Token → Option (Group × List Group)
  | (g, around), .piece p => some (g.add p, around)
  | (g, around), .group => some ({}, g :: around)
  | (_, []), .close => none
  | (g, h :: around), .close => some (h.add g.pattern, around)
  | (g, around), .bar => some (g.nextAlternative, around)
  | (g, around), .plus => (g.repeatLast? .oneOrMore).map (·, around)
  | (g, around), .question => (g.repeatLast? .optional).map (·, around)

def ofTokens? (ts : List Token) : Option Pattern :=
  (ts.foldlM step ({}, [])).bind fun (g, around) =>
    if around.isEmpty then some g.pattern else none

def parse? (cs : List Char) : Option Pattern :=
  (tokens? cs).bind ofTokens?

/-- A pattern to search for, and how characters are compared. -/
structure Query where
  fold : Char → Char
  pattern : Pattern

/-- The text of a query may open with the flag by which letter case does not count. -/
def Query.read? : List Char → Option Query
  | '(' :: '?' :: 'i' :: ')' :: cs => (parse? cs).map (⟨Text.foldChar, ·⟩)
  | cs => (parse? cs).map (⟨id, ·⟩)

/-- The pattern takes some part of the text. -/
def Query.Finds (q : Query) (text : List Char) : Prop :=
  ∃ before part after, text = before ++ part ++ after ∧ Takes q.fold q.pattern before part after

/-- With anchors at both ends a pattern takes the whole text or nothing of it. -/
theorem finds_anchored_iff {fold : Char → Char} {ps : List Pattern} {q : Pattern}
    {text : List Char} :
    Query.Finds ⟨fold, .anyOf [.sequence [.start, .anyOf ps, .optional q, .finish]]⟩ text ↔
      ∃ p ∈ ps, ∃ u v, text = u ++ v ∧ Takes fold p [] u v ∧ (v = [] ∨ Takes fold q u v []) := by
  unfold Query.Finds
  simp only [takes_anyOf_iff, List.mem_singleton, exists_eq_left, takes_cons_iff, takes_nil_iff,
    takes_start_iff, takes_finish_iff, takes_optional_iff]
  constructor
  · rintro ⟨before, part, after, rfl, start, rest, rfl, ⟨rfl, rfl⟩, u, w, rfl, ⟨p, hp, hu⟩, v, done,
      rfl, hv, -, -, rfl, ⟨rfl, hafter⟩, rfl⟩
    obtain rfl : after = [] := by simpa using hafter
    exact ⟨p, hp, u, v, by simp, by simpa using hu, by simpa using hv⟩
  · rintro ⟨p, hp, u, v, rfl, hu, hv⟩
    exact ⟨[], u ++ v, [], by simp, [], u ++ v, rfl, ⟨rfl, rfl⟩, u, v, rfl,
      ⟨p, hp, by simpa using hu⟩, v, [], by simp, by simpa using hv, [], [], rfl, ⟨rfl, rfl⟩, rfl⟩

/-! ### Reading escaped texts -/

def literals (cs : List Char) : List Token := cs.map fun c => .piece (.literal c)

theorem tokens?_literal {c : Char} (h : c ∉ metaChars) (cs : List Char) :
    tokens? (c :: cs) = (tokens? cs).map (.piece (.literal c) :: ·) := by
  have hgroup : c ≠ '(' := by rintro rfl; exact h (by decide)
  have hclass : c ≠ '[' := by rintro rfl; exact h (by decide)
  have hescape : c ≠ '\\' := by rintro rfl; exact h (by decide)
  rw [tokens?]
  · rw [token?, if_neg h, Option.bind_some]
  all_goals simp_all

theorem tokens?_escaped {c : Char} (h : c ∈ metaChars) (cs : List Char) :
    tokens? ('\\' :: c :: cs) = (tokens? cs).map (.piece (.literal c) :: ·) := by
  rw [tokens?, if_pos h]

theorem tokens?_escape_append (stem cs : List Char) :
    tokens? (escape stem ++ cs) = (tokens? cs).map (literals stem ++ ·) := by
  induction stem with
  | nil => simp [escape, literals]
  | cons c stem ih =>
    have hstep : tokens? (escape (c :: stem) ++ cs) =
        (tokens? (escape stem ++ cs)).map (.piece (.literal c) :: ·) := by
      unfold escape
      rw [List.flatMap_cons, List.append_assoc]
      by_cases h : c ∈ metaChars
      · rw [if_pos h]
        exact tokens?_escaped h _
      · rw [if_neg h]
        exact tokens?_literal h _
    rw [hstep, ih, Option.map_map]
    rfl

theorem tokens?_alternatives_append (stem : List Char) (stems : List (List Char)) (cs : List Char) :
    tokens? (List.intercalate ['|'] ((stem :: stems).map escape) ++ cs) =
      (tokens? cs).map (List.intercalate [.bar] ((stem :: stems).map literals) ++ ·) := by
  induction stems generalizing stem with
  | nil => simpa using tokens?_escape_append stem cs
  | cons next stems ih =>
    have hbar (cs : List Char) : tokens? ('|' :: cs) = (tokens? cs).map (.bar :: ·) := rfl
    rw [List.map_cons, List.map_cons, List.intercalate_cons_cons, List.append_assoc,
      List.append_assoc, tokens?_escape_append, List.singleton_append, hbar, ← List.map_cons, ih]
    simp [Function.comp_def]

theorem foldlM_literals (g : Group) (around : List Group) (cs : List Char) :
    (literals cs).foldlM step (g, around) =
      some (⟨g.alternatives, g.pieces ++ cs.map .literal⟩, around) := by
  induction cs generalizing g with
  | nil => simp [literals]
  | cons c cs ih =>
    calc (literals (c :: cs)).foldlM step (g, around)
        = (literals cs).foldlM step (g.add (.literal c), around) := rfl
      _ = _ := by simp [ih, Group.add]

theorem foldlM_alternatives (before : List Pattern) (around : List Group) (stem : List Char)
    (stems : List (List Char)) :
    ∃ g : Group, (List.intercalate [.bar] ((stem :: stems).map literals)).foldlM step
        (⟨before, []⟩, around) = some (g, around) ∧
      g.pattern = .anyOf (before ++ (stem :: stems).map fun s => .sequence (s.map .literal)) := by
  induction stems generalizing before stem with
  | nil => exact ⟨⟨before, stem.map .literal⟩, by simp [foldlM_literals], rfl⟩
  | cons next stems ih =>
    obtain ⟨g, hg, hpattern⟩ := ih (before ++ [.sequence (stem.map .literal)]) next
    refine ⟨g, ?_, by simp [hpattern]⟩
    rw [List.map_cons, List.map_cons, List.intercalate_cons_cons, List.append_assoc,
      List.foldlM_append, foldlM_literals]
    exact hg

end Pattern

end ScriptAtlas
