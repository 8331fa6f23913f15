import ScriptAtlas.Loading
import ScriptAtlas.Proofs.JsonSpelling

/-! # Reading values back

A reader of values, made of the same parts as the other readers of JSON text. It takes back every
value from any way to write it (`ofText?_eq_some`). -/

namespace ScriptAtlas.Json

open Manifest (nextItem nextKey)

/-! ### The reader -/

/-- A number, as it is written. -/
def numberLiteral : Reader String := do
  let start ← get
  if ← sees '-' then skip
  discard (numberParts .endInValue)
  let stop ← get
  return String.ofList (start.rest.take (start.rest.length - stop.rest.length))

mutual

/-- A value, with at most `n` levels of parts of it. -/
def value : Nat → Reader Json
  | 0 => failHere .endInValue
  | n + 1 => do
    toValue
    match ← next? with
    | some 'n' => skip; word ['u', 'l', 'l']; return .null
    | some 't' => skip; word ['r', 'u', 'e']; return .bool true
    | some 'f' => skip; word ['a', 'l', 's', 'e']; return .bool false
    | some '"' => skip; return .text (← textLiteral)
    | some '[' => skip; return .list (← items n true)
    | some '{' => skip; return .object (← members n true)
    | some c =>
      if c = '-' || c.isDigit then return .number (← numberLiteral) else failNext .expectedValue
    | none => failNext .endInValue

/-- The items of a list, and its end. -/
def items : Nat → Bool → Reader (List Json)
  | 0, _ => failHere .endInList
  | n + 1, first => do
    if ← nextItem first then
      let v ← value n
      return v :: (← items n false)
    skip
    return []

/-- The fields of an object, and its end. -/
def members : Nat → Bool → Reader (List (String × Json))
  | 0, _ => failHere .endInObject
  | n + 1, first => do
    if ← nextKey first then
      let key ← textLiteral
      expectColon
      let v ← value n
      return (key, v) :: (← members n false)
    skip
    return []

end

/-- A value with nothing but blanks behind it. -/
def wholeValue : Reader Json := do
  let v ← value ((← get).rest.length + 1)
  skipGap
  unless (← next?).isNone do failNext .trailingCharacters
  return v

/-- The value of a text. -/
def ofText? (text : String) : Option Json :=
  match wholeValue.run ⟨0, text.toList⟩ with
  | .ok (v, _) => some v
  | .error _ => none

variable {c : Char} {cs rest : List Char} {ts : List Token} {s : String} {n : Nat} {v : Json}

/-! ### Items and keys -/

theorem reads_nextItem_end (first : Bool) (h : Laid (.mark ']' :: ts) cs) :
    ∃ rest, Reads (nextItem first) cs false (']' :: rest) ∧ Laid ts rest := by
  obtain ⟨rest, hcs, hrest⟩ := h.mark
  unfold nextItem
  exact ⟨rest, .afterGap hcs (.pure _ _), hrest⟩

theorem reads_nextItem (first : Bool) (v : Json)
    (h : Laid ((if first then [] else [.mark ',']) ++ (v.tokens ++ ts)) cs) :
    ∃ rest, Reads (nextItem first) cs true rest ∧ Laid (v.tokens ++ ts) rest := by
  unfold nextItem
  cases first with
  | true =>
    obtain ⟨c, rest, hcs, hc⟩ := Laid.opens v h
    refine ⟨c :: rest, .afterGap hcs ?_, hcs ▸ h.dropWhile⟩
    dsimp only [List.head?_cons]
    split
    case h_1 heq => cases heq
    case h_2 heq =>
      cases heq
      exact absurd rfl hc.kind.2.2.2
    case h_3 => exact .pure _ _
  | false =>
    obtain ⟨behind, hcs, h⟩ := h.mark
    obtain ⟨c, rest, hbehind, hc⟩ := Laid.opens v h
    refine ⟨c :: rest, .afterGap hcs ?_, hbehind ▸ h.dropWhile⟩
    refine .bind (reads_skip _ _) (.afterGap hbehind ?_)
    dsimp only [List.head?_cons]
    split
    case h_1 heq =>
      cases heq
      exact absurd rfl hc.kind.2.2.2
    case h_2 => exact .pure _ _
    case h_3 heq => cases heq

theorem reads_nextKey_end (first : Bool) (h : Laid (.mark '}' :: ts) cs) :
    ∃ rest, Reads (nextKey first) cs false ('}' :: rest) ∧ Laid ts rest := by
  obtain ⟨rest, hcs, hrest⟩ := h.mark
  unfold nextKey
  exact ⟨rest, .afterGap hcs (.pure _ _), hrest⟩

theorem reads_nextKey (first : Bool)
    (h : Laid ((if first then [] else [.mark ',']) ++ (.text s :: ts)) cs) :
    ∃ inner rest, Reads (nextKey first) cs true (inner ++ '"' :: rest) ∧
      SpelledChars s.toList inner ∧ Laid ts rest := by
  unfold nextKey
  cases first with
  | true =>
    obtain ⟨inner, rest, hcs, hs, hrest⟩ := h.text
    refine ⟨inner, rest, .afterGap hcs ?_, hs, hrest⟩
    exact .bind (reads_next? _) (.bind (reads_skip _ _) (.pure _ _))
  | false =>
    obtain ⟨behind, hcs, h⟩ := h.mark
    obtain ⟨inner, rest, hbehind, hs, hrest⟩ := h.text
    refine ⟨inner, rest, .afterGap hcs ?_, hs, hrest⟩
    exact .bind (reads_skip _ _) (.afterGap hbehind (.bind (reads_skip _ _) (.pure _ _)))

/-! ### Numbers -/

theorem reads_numberLiteral {ds : List Char} (hds : IsNumber ds) (hrest : EndsNumber rest) :
    Reads numberLiteral (ds ++ rest) (String.ofList ds) rest := by
  have htake : (ds ++ rest).take ((ds ++ rest).length - rest.length) = ds := by
    rw [List.length_append, Nat.add_sub_cancel, List.take_left]
  suffices h : Reads numberLiteral (ds ++ rest)
      (String.ofList ((ds ++ rest).take ((ds ++ rest).length - rest.length))) rest by
    rwa [htake] at h
  unfold numberLiteral
  refine .get fun start => .bind (reads_sees '-' _) ?_
  cases hds with
  | @mk sign whole fraction exponent hsign hwhole hfraction hexponent =>
    have hparts :
        Passes (numberParts .endInValue) (whole ++ (fraction ++ exponent) ++ rest) rest := by
      simpa using passes_numberParts hwhole hfraction hexponent hrest
    rcases hsign with rfl | rfl
    · rw [List.nil_append, if_neg]
      · exact .bind hparts.discard (.get fun stop => .pure _ _)
      · rw [List.append_assoc, hwhole.isDigits.head?_ne (by decide)]
        exact Bool.false_ne_true
    · exact .bind (reads_skip '-' _) (.bind hparts.discard (.get fun stop => .pure _ _))

theorem endsValue_items (vs : List Json) (ts : List Token) :
    EndsValue (itemTokens false vs ++ .mark ']' :: ts) := by
  cases vs with
  | nil => exact .mark ']' ts
  | cons v vs => exact .mark ',' _

theorem endsValue_fields (fields : List (String × Json)) (ts : List Token) :
    EndsValue (fieldTokens false fields ++ .mark '}' :: ts) := by
  cases fields with
  | nil => exact .mark '}' ts
  | cons field fields => exact .mark ',' _

theorem reads_value_number (hs : IsNumber s.toList) (hrest : EndsNumber rest)
    (hcs : cs.dropWhile isGap = s.toList ++ rest) :
    Reads (value (n + 1)) cs (.number s) rest := by
  have hread := reads_numberLiteral hs hrest
  rw [String.ofList_toList] at hread
  obtain ⟨c, ds, hds, hc⟩ := hs.head
  rw [hds] at hcs hread
  unfold value
  refine .atValue hcs ?_
  split
  case h_7 heq =>
    cases heq
    rw [if_pos (by simpa using hc)]
    exact .bind hread (.pure _ _)
  all_goals (rename_i heq; cases heq <;> rcases hc with hc | hc <;> cases hc)

mutual

/-- A value is read up to the token behind it. -/
theorem reads_value (v : Json) {n : Nat} {ts : List Token} {cs : List Char}
    (hn : v.tokens.length ≤ n) (hts : EndsValue ts) (h : Laid (v.tokens ++ ts) cs) :
    ∃ rest, Reads (value n) cs v rest ∧ Laid ts rest := by
  have hpos := v.length_tokens_pos
  obtain ⟨n, rfl⟩ : ∃ m, n = m + 1 := ⟨n - 1, by omega⟩
  match v with
  | .null =>
    obtain ⟨ds, rest, hcs, ht, hrest⟩ := h.cons_dropWhile
    cases ht with
    | null =>
      unfold value
      exact ⟨rest, .atValue hcs (.bind (reads_skip _ _)
        (.bind (reads_word _ _) (.pure _ _))), hrest⟩
  | .bool b =>
    obtain ⟨ds, rest, hcs, ht, hrest⟩ := h.cons_dropWhile
    cases ht with
    | bool b =>
      unfold value
      cases b <;> exact ⟨rest, .atValue hcs (.bind (reads_skip _ _)
        (.bind (reads_word _ _) (.pure _ _))), hrest⟩
  | .number s =>
    obtain ⟨ds, rest, hcs, ht, hrest⟩ := h.cons_dropWhile
    cases ht with
    | number hs => exact ⟨rest, reads_value_number hs (hts.endsNumber hrest) hcs, hrest⟩
  | .text s =>
    obtain ⟨inner, rest, hcs, hs, hrest⟩ := h.text
    unfold value
    exact ⟨rest, .atValue hcs (.bind (reads_skip _ _)
      (.bind (reads_textLiteral hs rest) (.pure _ _))), hrest⟩
  | .list vs =>
    obtain ⟨inside, hcs, h⟩ := h.list
    obtain ⟨rest, hitems, hrest⟩ := reads_items true vs (n := n) (by simp [tokens] at hn; omega) h
    unfold value
    exact ⟨rest, .atValue hcs (.bind (reads_skip _ _) (.bind hitems (.pure _ _))), hrest⟩
  | .object fields =>
    obtain ⟨inside, hcs, h⟩ := h.object
    obtain ⟨rest, hfields, hrest⟩ := reads_members true fields (n := n)
      (by simp [tokens] at hn; omega) h
    unfold value
    exact ⟨rest, .atValue hcs (.bind (reads_skip _ _) (.bind hfields (.pure _ _))), hrest⟩
termination_by n

theorem reads_items (first : Bool) (vs : List Json) {n : Nat} {ts : List Token} {cs : List Char}
    (hn : (itemTokens first vs).length < n)
    (h : Laid (itemTokens first vs ++ .mark ']' :: ts) cs) :
    ∃ rest, Reads (items n first) cs vs rest ∧ Laid ts rest := by
  obtain ⟨n, rfl⟩ : ∃ m, n = m + 1 := ⟨n - 1, by omega⟩
  unfold items
  match vs with
  | [] =>
    obtain ⟨rest, hend, hrest⟩ := reads_nextItem_end first h
    exact ⟨rest, .bind hend (.bind (reads_skip _ _) (.pure _ _)), hrest⟩
  | v :: vs =>
    have hpos := v.length_tokens_pos
    rw [itemTokens, List.append_assoc, List.append_assoc] at h
    simp only [itemTokens, List.length_append] at hn
    obtain ⟨start, hnext, h⟩ := reads_nextItem first v h
    obtain ⟨behind, hvalue, h⟩ := reads_value v (n := n) (by omega) (endsValue_items vs ts) h
    obtain ⟨rest, hitems, hrest⟩ := reads_items false vs (n := n) (by omega) h
    exact ⟨rest, .bind hnext (.bind hvalue (.bind hitems (.pure _ _))), hrest⟩
termination_by n

theorem reads_members (first : Bool) (fields : List (String × Json)) {n : Nat} {ts : List Token}
    {cs : List Char} (hn : (fieldTokens first fields).length < n)
    (h : Laid (fieldTokens first fields ++ .mark '}' :: ts) cs) :
    ∃ rest, Reads (members n first) cs fields rest ∧ Laid ts rest := by
  obtain ⟨n, rfl⟩ : ∃ m, n = m + 1 := ⟨n - 1, by omega⟩
  unfold members
  match fields with
  | [] =>
    obtain ⟨rest, hend, hrest⟩ := reads_nextKey_end first h
    exact ⟨rest, .bind hend (.bind (reads_skip _ _) (.pure _ _)), hrest⟩
  | (key, v) :: fields =>
    simp only [fieldTokens, List.append_assoc, List.cons_append] at h
    simp only [fieldTokens, List.length_append, List.length_cons] at hn
    obtain ⟨inner, colon, hnext, hkey, h⟩ := reads_nextKey first h
    obtain ⟨start, hcolon, h⟩ := reads_expectColon h
    obtain ⟨behind, hvalue, h⟩ := reads_value v (n := n) (by omega) (endsValue_fields fields ts) h
    obtain ⟨rest, hfields, hrest⟩ := reads_members false fields (n := n) (by omega) h
    exact ⟨rest, .bind hnext (.bind (reads_textLiteral hkey _) (.bind hcolon (.bind hvalue
      (.bind hfields (.pure _ _))))), hrest⟩
termination_by n

end

/-- A value is read back in whatever way it is written. -/
theorem ofText?_eq_some {text : String} (h : v.Spelled text) : ofText? text = some v := by
  have hlaid : Laid (v.tokens ++ []) text.toList := by rwa [List.append_nil]
  have hlength := hlaid.length_le
  rw [List.length_append] at hlength
  obtain ⟨rest, hvalue, hrest⟩ := reads_value v (n := text.toList.length + 1) (by omega) .nil hlaid
  have hread : Reads wholeValue text.toList v [] := by
    unfold wholeValue
    refine .get fun pos => .bind hvalue (.bind (reads_skipGap hrest.nil_dropWhile) ?_)
    exact .bind (reads_next? _) (.pure _ _)
  obtain ⟨pos, hrun⟩ := hread 0
  unfold ofText?
  rw [hrun]

end ScriptAtlas.Json
