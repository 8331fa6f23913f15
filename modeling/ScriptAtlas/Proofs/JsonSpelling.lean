import ScriptAtlas.Proofs.NumberLiterals
import ScriptAtlas.Proofs.TextLiterals

/-! # Spellings of JSON values

A value is written as a row of tokens (`tokens`), each of which may be written in several ways
(`Token.Spelled`), with any blanks before, between and behind them (`Laid`). `Spelled` joins the
two: the texts of a value. Whatever the spelling, a value is passed over as a whole
(`reads_ignored`). -/

namespace ScriptAtlas.Json

/-! ### Tokens -/

/-- What a text is made of. -/
inductive Token where
  | mark (c : Char)
  | null
  | bool (b : Bool)
  | number (literal : String)
  | text (s : String)

/-- The characters that are tokens by themselves. -/
def marks : List Char := ['[', ']', '{', '}', ',', ':']

/-- The ways to write a token. -/
inductive Token.Spelled : Token → List Char → Prop where
  | mark {c : Char} (h : c ∈ marks) : Spelled (.mark c) [c]
  | null : Spelled .null ['n', 'u', 'l', 'l']
  | bool (b : Bool) :
      Spelled (.bool b) (if b then ['t', 'r', 'u', 'e'] else ['f', 'a', 'l', 's', 'e'])
  | number {s : String} (h : IsNumber s.toList) : Spelled (.number s) s.toList
  | text {s : String} {inner : List Char} (h : SpelledChars s.toList inner) :
      Spelled (.text s) ('"' :: (inner ++ ['"']))

/-- Blanks, or nothing. -/
def Gap (g : List Char) : Prop := ∀ c ∈ g, c = ' ' ∨ c = '\n' ∨ c = '\t' ∨ c = '\r'

/-- The texts of a row of tokens. -/
inductive Laid : List Token → List Char → Prop where
  | nil {g : List Char} (h : Gap g) : Laid [] g
  | cons {t : Token} {ts : List Token} {g cs ds : List Char} (hg : Gap g) (ht : t.Spelled cs)
      (h : Laid ts ds) : Laid (t :: ts) (g ++ (cs ++ ds))

variable {c : Char} {cs ds rest : List Char} {t : Token} {ts : List Token} {s : String} {n : Nat}

theorem isGap_iff : isGap c = true ↔ c = ' ' ∨ c = '\n' ∨ c = '\t' ∨ c = '\r' := by
  simp [isGap, or_assoc]

theorem isGap_of_mem_marks (h : c ∈ marks) : isGap c = false := by
  simp only [marks, List.mem_cons, List.not_mem_nil, or_false] at h
  rcases h with rfl | rfl | rfl | rfl | rfl | rfl <;> rfl

theorem isGap_of_isDigit (h : c.isDigit = true) : isGap c = false := by
  cases hgap : isGap c with
  | false => rfl
  | true => rcases isGap_iff.mp hgap with rfl | rfl | rfl | rfl <;> cases h

/-- No token begins with a blank. -/
theorem Token.Spelled.head (h : t.Spelled cs) : ∃ c ds, cs = c :: ds ∧ isGap c = false := by
  cases h with
  | mark h => exact ⟨_, _, rfl, isGap_of_mem_marks h⟩
  | null => exact ⟨_, _, rfl, rfl⟩
  | bool b => cases b <;> exact ⟨_, _, rfl, rfl⟩
  | number h =>
    obtain ⟨c, ds, hcs, hc⟩ := h.head
    refine ⟨c, ds, hcs, ?_⟩
    rcases hc with rfl | hc
    · rfl
    · exact isGap_of_isDigit hc
  | text h => exact ⟨_, _, rfl, rfl⟩

theorem Gap.dropWhile_append {g : List Char} (h : Gap g) (cs : List Char) :
    (g ++ cs).dropWhile isGap = cs.dropWhile isGap :=
  List.dropWhile_append_of_pos fun c hc => isGap_iff.mpr (h c hc)

theorem Laid.token (ht : t.Spelled ds) (h : Laid ts cs) : Laid (t :: ts) (ds ++ cs) :=
  .cons (g := []) (by simp [Gap]) ht h

theorem Laid.cons_mark (hc : c ∈ marks) (h : Laid ts cs) : Laid (.mark c :: ts) (c :: cs) :=
  .token (.mark hc) h

theorem Gap.append {g g' : List Char} (h : Gap g) (h' : Gap g') : Gap (g ++ g') := by
  intro c hc
  rcases List.mem_append.mp hc with hc | hc
  · exact h c hc
  · exact h' c hc

theorem Laid.gap {g : List Char} (hg : Gap g) (h : Laid ts cs) : Laid ts (g ++ cs) := by
  cases h with
  | nil hcs => exact .nil (hg.append hcs)
  | cons hg' ht h =>
    rw [← List.append_assoc]
    exact .cons (hg.append hg') ht h

theorem Laid.nil_dropWhile (h : Laid [] cs) : cs.dropWhile isGap = [] := by
  cases h with
  | nil hg => simpa using hg.dropWhile_append []

/-- Behind the blanks stands the first token. -/
theorem Laid.cons_dropWhile (h : Laid (t :: ts) cs) :
    ∃ ds rest, cs.dropWhile isGap = ds ++ rest ∧ t.Spelled ds ∧ Laid ts rest := by
  cases h with
  | @cons _ _ g ds rest hg ht h =>
    obtain ⟨c, ds, rfl, hc⟩ := ht.head
    refine ⟨c :: ds, rest, ?_, ht, h⟩
    rw [hg.dropWhile_append, List.cons_append, List.dropWhile_cons_of_neg (by simp [hc])]

theorem Laid.dropWhile (h : Laid ts cs) : Laid ts (cs.dropWhile isGap) := by
  cases ts with
  | nil =>
    rw [h.nil_dropWhile]
    exact .nil (by simp [Gap])
  | cons t ts =>
    obtain ⟨ds, rest, hcs, ht, hrest⟩ := h.cons_dropWhile
    rw [hcs]
    exact .token ht hrest

/-- There are as many characters as tokens, or more. -/
theorem Laid.length_le (h : Laid ts cs) : ts.length ≤ cs.length := by
  induction h with
  | nil => simp
  | cons _ ht _ ih =>
    obtain ⟨c, ds, rfl, -⟩ := ht.head
    simp
    omega

theorem Laid.mark (h : Laid (.mark c :: ts) cs) :
    ∃ rest, cs.dropWhile isGap = c :: rest ∧ Laid ts rest := by
  obtain ⟨ds, rest, hcs, ht, hrest⟩ := h.cons_dropWhile
  cases ht with
  | mark _ => exact ⟨rest, hcs, hrest⟩

theorem Laid.text (h : Laid (.text s :: ts) cs) :
    ∃ inner rest, cs.dropWhile isGap = '"' :: (inner ++ '"' :: rest) ∧
      SpelledChars s.toList inner ∧ Laid ts rest := by
  obtain ⟨ds, rest, hcs, ht, hrest⟩ := h.cons_dropWhile
  cases ht with
  | text hs => exact ⟨_, rest, by simpa using hcs, hs, hrest⟩

/-! ### Values -/

mutual

/-- The tokens of a value. -/
def tokens : Json → List Token
  | .null => [.null]
  | .bool b => [.bool b]
  | .number s => [.number s]
  | .text s => [.text s]
  | .list items => .mark '[' :: (itemTokens true items ++ [.mark ']'])
  | .object fields => .mark '{' :: (fieldTokens true fields ++ [.mark '}'])

/-- The tokens of items, with a comma before each but the first of a list. -/
def itemTokens : Bool → List Json → List Token
  | _, [] => []
  | first, v :: vs => (if first then [] else [.mark ',']) ++ (v.tokens ++ itemTokens false vs)

/-- The tokens of fields, with a comma before each but the first of an object. -/
def fieldTokens : Bool → List (String × Json) → List Token
  | _, [] => []
  | first, (key, v) :: fields =>
    (if first then [] else [.mark ',']) ++
      (.text key :: .mark ':' :: (v.tokens ++ fieldTokens false fields))

end

/-- The texts of a value. -/
def Spelled (v : Json) (text : String) : Prop := Laid v.tokens text.toList

/-- Only a mark may follow a value. -/
def EndsValue (ts : List Token) : Prop := ∀ t, ts.head? = some t → ∃ c, t = .mark c

theorem EndsValue.mark (c : Char) (ts : List Token) : EndsValue (.mark c :: ts) :=
  fun _ ht => ⟨c, (Option.some.inj ht).symm⟩

theorem EndsValue.nil : EndsValue [] := fun _ ht => by cases ht

theorem endsNumber_of_isGap (h : isGap c = true) (cs : List Char) : EndsNumber (c :: cs) := by
  intro d hd
  obtain rfl : c = d := Option.some.inj hd
  rcases isGap_iff.mp h with rfl | rfl | rfl | rfl <;> decide

theorem endsNumber_of_mem_marks (h : c ∈ marks) (cs : List Char) : EndsNumber (c :: cs) := by
  intro d hd
  obtain rfl : c = d := Option.some.inj hd
  simp only [marks, List.mem_cons, List.not_mem_nil, or_false] at h
  rcases h with rfl | rfl | rfl | rfl | rfl | rfl <;> decide

/-- What follows a value cannot belong to a number. -/
theorem EndsValue.endsNumber (hts : EndsValue ts) (h : Laid ts cs) : EndsNumber cs := by
  cases h with
  | nil hg =>
    cases cs with
    | nil => intro d hd; cases hd
    | cons c cs => exact endsNumber_of_isGap (isGap_iff.mpr (hg c (by simp))) cs
  | @cons t ts g ds rest hg ht h =>
    cases g with
    | cons c g => exact endsNumber_of_isGap (isGap_iff.mpr (hg c (by simp))) _
    | nil =>
      obtain ⟨c, rfl⟩ := hts t rfl
      cases ht with
      | mark hc => exact endsNumber_of_mem_marks hc _

theorem length_tokens_pos (v : Json) : 0 < v.tokens.length := by
  cases v <;> simp [tokens]

theorem Laid.list {items : List Json} (h : Laid ((Json.list items).tokens ++ ts) cs) :
    ∃ rest, cs.dropWhile isGap = '[' :: rest ∧
      Laid (itemTokens true items ++ .mark ']' :: ts) rest := by
  rw [tokens, List.cons_append, List.append_assoc] at h
  exact h.mark

theorem Laid.object {fields : List (String × Json)}
    (h : Laid ((Json.object fields).tokens ++ ts) cs) :
    ∃ rest, cs.dropWhile isGap = '{' :: rest ∧
      Laid (fieldTokens true fields ++ .mark '}' :: ts) rest := by
  rw [tokens, List.cons_append, List.append_assoc] at h
  exact h.mark

/-- The characters with which a value can begin. -/
def Opens : Json → Char → Prop
  | .null, c => c = 'n'
  | .bool b, c => c = if b then 't' else 'f'
  | .number _, c => c = '-' ∨ c.isDigit = true
  | .text _, c => c = '"'
  | .list _, c => c = '['
  | .object _, c => c = '{'

/-- Quotes and opening brackets tell the kind of a value, and no value begins with a closing one. -/
theorem Opens.kind {v : Json} (h : v.Opens c) :
    (c = '"' → ∃ s, v = .text s) ∧ (c = '[' → ∃ vs, v = .list vs) ∧
      (c = '{' → ∃ fields, v = .object fields) ∧ c ≠ ']' := by
  cases v with
  | bool b =>
    cases b <;>
    · obtain rfl := h
      simp
  | number s =>
    refine ⟨?_, ?_, ?_, ?_⟩ <;>
    · rintro rfl
      rcases h with h | h <;> cases h
  | _ =>
    obtain rfl := h
    simp

/-- Behind the blanks stands the first character of the value. -/
theorem Laid.opens (v : Json) (h : Laid (v.tokens ++ ts) cs) :
    ∃ c rest, cs.dropWhile isGap = c :: rest ∧ v.Opens c := by
  cases v with
  | list items =>
    obtain ⟨rest, hcs, -⟩ := h.list
    exact ⟨_, rest, hcs, rfl⟩
  | object fields =>
    obtain ⟨rest, hcs, -⟩ := h.object
    exact ⟨_, rest, hcs, rfl⟩
  | text s =>
    obtain ⟨inner, rest, hcs, -, -⟩ := h.text
    exact ⟨_, _, hcs, rfl⟩
  | null =>
    obtain ⟨ds, rest, hcs, ht, -⟩ := h.cons_dropWhile
    cases ht
    exact ⟨_, _, hcs, rfl⟩
  | bool b =>
    obtain ⟨ds, rest, hcs, ht, -⟩ := h.cons_dropWhile
    cases ht
    cases b <;> exact ⟨_, _, hcs, rfl⟩
  | number s =>
    obtain ⟨ds, rest, hcs, ht, -⟩ := h.cons_dropWhile
    cases ht with
    | number hs =>
      obtain ⟨c, ds, hds, hc⟩ := hs.head
      rw [hds] at hcs
      exact ⟨c, ds ++ rest, hcs, hc⟩

/-! ### Values passed over -/

/-- A number is passed over up to the token behind it. -/
theorem reads_skipValue_number (hs : IsNumber s.toList) (hrest : EndsNumber rest)
    (hcs : cs.dropWhile isGap = s.toList ++ rest) : Reads (skipValue (n + 1)) cs () rest := by
  generalize s.toList = literal at hs hcs
  cases hs with
  | @mk sign whole fraction exponent hsign hwhole hfraction hexponent =>
    have hparts (p : Problem) := passes_numberParts (p := p) hwhole hfraction hexponent hrest
    simp only [List.append_assoc] at hcs
    unfold skipValue
    rcases hsign with rfl | rfl
    · obtain ⟨hne, hall⟩ := hwhole.isDigits
      obtain ⟨d, whole, rfl⟩ := List.exists_cons_of_ne_nil hne
      have hd : d.isDigit = true := hall d (by simp)
      refine .atValue hcs ?_
      -- No digit begins another kind of value.
      split
      case h_8 heq =>
        cases heq
        rw [if_pos hd]
        exact (hparts _).discard
      all_goals (rename_i heq; cases heq <;> cases hd)
    · exact .atValue hcs (.bind (reads_skip '-' _) (hparts _).discard)

theorem reads_expectColon (h : Laid (.mark ':' :: ts) cs) :
    ∃ rest, Reads expectColon cs () rest ∧ Laid ts rest := by
  obtain ⟨rest, hcs, hrest⟩ := h.mark
  unfold expectColon
  exact ⟨rest, .afterGap hcs (reads_skip _ _), hrest⟩

mutual

/-- A value is passed over up to the token behind it. Each call passes a token or opens a value, so
that the tokens bound the number of levels. -/
theorem reads_skipValue (v : Json) {n : Nat} {ts : List Token} {cs : List Char}
    (hn : v.tokens.length ≤ n) (hts : EndsValue ts) (h : Laid (v.tokens ++ ts) cs) :
    ∃ rest, Reads (skipValue n) cs () rest ∧ Laid ts rest := by
  have hpos := v.length_tokens_pos
  obtain ⟨n, rfl⟩ : ∃ m, n = m + 1 := ⟨n - 1, by omega⟩
  match v with
  | .null =>
    obtain ⟨ds, rest, hcs, ht, hrest⟩ := h.cons_dropWhile
    cases ht with
    | null =>
      unfold skipValue
      exact ⟨rest, .atValue hcs (.bind (reads_skip _ _) (reads_word _ _)), hrest⟩
  | .bool b =>
    obtain ⟨ds, rest, hcs, ht, hrest⟩ := h.cons_dropWhile
    cases ht with
    | bool b =>
      unfold skipValue
      cases b <;> exact ⟨rest, .atValue hcs (.bind (reads_skip _ _) (reads_word _ _)), hrest⟩
  | .number s =>
    obtain ⟨ds, rest, hcs, ht, hrest⟩ := h.cons_dropWhile
    cases ht with
    | number hs => exact ⟨rest, reads_skipValue_number hs (hts.endsNumber hrest) hcs, hrest⟩
  | .text s =>
    obtain ⟨inner, rest, hcs, hs, hrest⟩ := h.text
    unfold skipValue
    exact ⟨rest, .atValue hcs (.bind (reads_skip _ _) (reads_skipTextLiteral hs rest)), hrest⟩
  | .list [] =>
    obtain ⟨inside, hcs, h⟩ := h.list
    obtain ⟨rest, hinside, hrest⟩ := h.mark
    unfold skipValue
    exact ⟨rest, .atValue hcs (.bind (reads_skip _ _) (.afterGap hinside (reads_skip _ _))), hrest⟩
  | .list (v :: vs) =>
    obtain ⟨inside, hcs, h⟩ := h.list
    obtain ⟨c, ds, hinside, hc⟩ := Laid.opens v (by simpa [itemTokens] using h)
    obtain ⟨rest, hread, hrest⟩ := reads_skipItems v vs (n := n)
      (by simp [tokens] at hn; omega) (hinside ▸ h.dropWhile)
    refine ⟨rest, ?_, hrest⟩
    unfold skipValue
    refine .atValue hcs (.bind (reads_skip _ _) (.afterGap hinside ?_))
    dsimp only [List.head?_cons]
    split
    case h_1 heq =>
      cases heq
      exact absurd rfl hc.kind.2.2.2
    case h_2 => exact hread
    case h_3 heq => cases heq
  | .object [] =>
    obtain ⟨inside, hcs, h⟩ := h.object
    obtain ⟨rest, hinside, hrest⟩ := h.mark
    unfold skipValue
    exact ⟨rest, .atValue hcs (.bind (reads_skip _ _) (.afterGap hinside (reads_skip _ _))), hrest⟩
  | .object ((key, v) :: fields) =>
    obtain ⟨inside, hcs, h⟩ := h.object
    obtain ⟨inner, ds, hinside, -, -⟩ := Laid.text (by simpa [fieldTokens] using h)
    obtain ⟨rest, hread, hrest⟩ := reads_skipFields key v fields (n := n)
      (by simp [tokens] at hn; omega) (hinside ▸ h.dropWhile)
    unfold skipValue
    exact ⟨rest, .atValue hcs (.bind (reads_skip _ _) (.afterGap hinside hread)), hrest⟩
termination_by n

theorem reads_skipItems (v : Json) (vs : List Json) {n : Nat} {ts : List Token} {cs : List Char}
    (hn : (itemTokens true (v :: vs)).length < n)
    (h : Laid (itemTokens true (v :: vs) ++ .mark ']' :: ts) cs) :
    ∃ rest, Reads (skipItems n) cs () rest ∧ Laid ts rest := by
  obtain ⟨n, rfl⟩ : ∃ m, n = m + 1 := ⟨n - 1, by omega⟩
  simp only [itemTokens, if_true, List.nil_append, List.append_assoc, List.length_append] at h hn
  unfold skipItems
  match vs with
  | [] =>
    obtain ⟨behind, hvalue, h⟩ := reads_skipValue v (n := n) (by omega) (.mark ']' ts) h
    obtain ⟨rest, hbehind, hrest⟩ := h.mark
    exact ⟨rest, .bind hvalue (.afterGap hbehind (reads_skip _ _)), hrest⟩
  | w :: ws =>
    obtain ⟨behind, hvalue, h⟩ := reads_skipValue v (n := n) (by omega) (.mark ',' _) h
    obtain ⟨items, hbehind, h⟩ := h.mark
    obtain ⟨rest, hitems, hrest⟩ := reads_skipItems w ws (n := n)
      (by simp [itemTokens] at hn ⊢; omega) h
    exact ⟨rest, .bind hvalue (.afterGap hbehind (.bind (reads_skip _ _) hitems)), hrest⟩
termination_by n

theorem reads_skipFields (key : String) (v : Json) (fields : List (String × Json)) {n : Nat}
    {ts : List Token} {cs : List Char}
    (hn : (fieldTokens true ((key, v) :: fields)).length < n)
    (h : Laid (fieldTokens true ((key, v) :: fields) ++ .mark '}' :: ts) cs) :
    ∃ rest, Reads (skipFields n) cs () rest ∧ Laid ts rest := by
  obtain ⟨n, rfl⟩ : ∃ m, n = m + 1 := ⟨n - 1, by omega⟩
  simp only [fieldTokens, if_true, List.nil_append, List.cons_append, List.append_assoc,
    List.length_cons, List.length_append] at h hn
  obtain ⟨inner, colon, hcs, hkey, h⟩ := h.text
  obtain ⟨value, hcolon, h⟩ := reads_expectColon h
  unfold skipFields
  match fields with
  | [] =>
    obtain ⟨behind, hvalue, h⟩ := reads_skipValue v (n := n) (by omega) (.mark '}' ts) h
    obtain ⟨rest, hbehind, hrest⟩ := h.mark
    refine ⟨rest, .afterGap hcs ?_, hrest⟩
    exact .bind (reads_skip _ _) (.bind (reads_skipTextLiteral hkey _) (.bind hcolon (.bind hvalue
      (.afterGap hbehind (reads_skip _ _)))))
  | (other, w) :: fields =>
    obtain ⟨behind, hvalue, h⟩ := reads_skipValue v (n := n) (by omega) (.mark ',' _) h
    obtain ⟨more, hbehind, h⟩ := h.mark
    obtain ⟨rest, hfields, hrest⟩ := reads_skipFields other w fields (n := n)
      (by simp [fieldTokens] at hn ⊢; omega) h
    refine ⟨rest, .afterGap hcs ?_, hrest⟩
    exact .bind (reads_skip _ _) (.bind (reads_skipTextLiteral hkey _) (.bind hcolon (.bind hvalue
      (.afterGap hbehind (.bind (reads_skip _ _) hfields)))))
termination_by n

end

/-- A value is passed over in whatever way it is written. -/
theorem reads_ignored (v : Json) (hts : EndsValue ts) (h : Laid (v.tokens ++ ts) cs) :
    ∃ rest, Reads ignored cs () rest ∧ Laid ts rest := by
  have hlength := h.length_le
  rw [List.length_append] at hlength
  obtain ⟨rest, hread, hrest⟩ := reads_skipValue v (n := cs.length + 2) (by omega) hts h
  exact ⟨rest, .get fun _ => hread, hrest⟩

end ScriptAtlas.Json
