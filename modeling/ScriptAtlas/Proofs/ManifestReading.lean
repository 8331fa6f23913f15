import Mathlib.Tactic.SplitIfs
import ScriptAtlas.Output.Record
import ScriptAtlas.Proofs.ValueReading

/-! # Reading manifests

Which id and content an entry of a manifest gives is a function of its value (`entryOf?`), and so is
what a whole manifest gives (`entriesOf?`). Whatever way a value is written, the reader of manifests
gives what the function says, and fails where it says nothing (`yields_document`). -/

namespace ScriptAtlas.Manifest

open Json

/-! ### Entries as values -/

/-- An entry as a list of id and content. -/
def pair? : List Json → Option (String × String)
  | [v, w] => v.text?.bind fun id => w.text?.bind fun content => some (id, content)
  | _ => none

/-- The fields of an entry, one behind the other. -/
def scan (read : Fields) : List (String × Json) → Option Fields
  | [] => some read
  | (key, v) :: fs =>
    if key = "id" || key = "path" then
      if read.id.isSome then none
      else v.text?.bind fun id => scan { read with id := id } fs
    else if key = "content" then
      if read.content.isSome then none
      else v.text?.bind fun content => scan { read with content := content } fs
    else scan read fs

/-- The id and the content of an entry. -/
def entryOf? : Json → Option (String × String)
  | .list vs => pair? vs
  | .object fs =>
    (scan {} fs).bind fun read =>
      read.id.bind fun id => read.content.map fun content => (id, content)
  | _ => none

/-- The entries of a manifest. -/
def entriesOf? : Json → Option (List (String × String))
  | .list vs => vs.mapM entryOf?
  | _ => none

variable {c : Char} {cs : List Char} {ts : List Token} {n : Nat}

/-! ### Parts -/

theorem fails_failBehind {α : Type} (close : Char) (p : Problem) (cs : List Char) :
    Fails (failBehind close p : Reader α) cs := by
  unfold failBehind
  refine .after fun _ _ => .after fun seen _ => ?_
  cases seen with
  | true => exact .after fun _ _ => fails_failHere p _
  | false => exact fails_failHere p _

theorem yields_expectText (v : Json) (h : Laid (v.tokens ++ ts) cs) :
    Yields expectText cs v.text? (Laid ts) := by
  unfold expectText
  cases hv : v.text? with
  | some s =>
    obtain rfl : v = .text s := by
      cases v <;> cases hv
      rfl
    obtain ⟨inner, rest, hcs, hs, hrest⟩ := h.text
    exact ⟨rest, .bind (reads_toValue hcs) (.bind (reads_sees _ _) (.bind (reads_skip _ _)
      (reads_textLiteral hs rest))), hrest⟩
  | none =>
    obtain ⟨c, rest, hcs, hc⟩ := h.opens
    refine (reads_toValue hcs).fails ((reads_sees '"' _).fails ?_)
    have hquote : ¬ ((c :: rest).head? == some '"') = true := by
      intro heq
      obtain ⟨s, rfl⟩ := hc.kind.1 (by simpa using heq)
      cases hv
    rw [if_neg hquote]
    exact .after fun _ _ => fails_failHere _ _

theorem reads_endList (h : Laid (.mark ']' :: ts) cs) :
    ∃ rest, Reads endList cs () rest ∧ Laid ts rest := by
  obtain ⟨rest, hcs, hrest⟩ := h.mark
  unfold endList
  exact ⟨rest, .afterGap hcs (reads_skip _ _), hrest⟩

theorem fails_endList (h : Laid (.mark ',' :: ts) cs) : Fails endList cs := by
  obtain ⟨rest, hcs, -⟩ := h.mark
  unfold endList
  refine (reads_skipGap hcs).fails ((reads_next? _).fails ?_)
  exact .after fun _ _ => .after fun _ _ => .after fun _ _ => fails_failNext _ _

/-! ### Entries -/

theorem yields_listEntry (vs : List Json) (h : Laid (itemTokens true vs ++ .mark ']' :: ts) cs) :
    Yields listEntry cs (pair? vs) (Laid ts) := by
  unfold listEntry
  match vs with
  | [] =>
    obtain ⟨rest, hend, -⟩ := reads_nextItem_end true h
    exact hend.fails (.bind (fails_failBehind _ _ _))
  | [v] =>
    have hnone : pair? [v] = v.text?.bind fun _ => none := by cases v.text? <;> rfl
    rw [hnone]
    obtain ⟨start, hnext, h⟩ := reads_nextItem true v (by simpa [itemTokens] using h)
    refine hnext.yields ((yields_expectText v h).bind fun id behind h => ?_)
    obtain ⟨rest, hend, -⟩ := reads_nextItem_end false h
    exact hend.fails (.bind (fails_failBehind _ _ _))
  | v :: w :: vs =>
    have hpair : pair? (v :: w :: vs) = v.text?.bind fun id => w.text?.bind fun content =>
        if vs.isEmpty then some (id, content) else none := by
      cases vs with
      | nil => rfl
      | cons x vs => cases v.text? <;> cases w.text? <;> rfl
    rw [hpair]
    simp only [itemTokens, List.append_assoc] at h
    obtain ⟨start, hnext, h⟩ := reads_nextItem true v h
    refine hnext.yields ((yields_expectText v h).bind fun id behind h => ?_)
    obtain ⟨second, hsecond, h⟩ := reads_nextItem false w h
    refine hsecond.yields ((yields_expectText w h).bind fun content behind h => ?_)
    cases vs with
    | nil =>
      obtain ⟨rest, hend, hrest⟩ := reads_endList h
      exact hend.yields (.pure _ hrest)
    | cons x vs => exact Fails.bind (fails_endList h)

/-- The place before the end of an object. -/
def AtBrace (ts : List Token) (cs : List Char) : Prop := ∃ rest, cs = '}' :: rest ∧ Laid ts rest

theorem yields_fields (fs : List (String × Json)) (first : Bool) (read : Fields)
    (hn : (fieldTokens first fs).length < n)
    (h : Laid (fieldTokens first fs ++ .mark '}' :: ts) cs) :
    Yields (fields n first read) cs (scan read fs) (AtBrace ts) := by
  obtain ⟨n, rfl⟩ : ∃ m, n = m + 1 := ⟨n - 1, by omega⟩
  induction fs generalizing first read n cs with
  | nil =>
    obtain ⟨rest, hend, hrest⟩ := reads_nextKey_end first h
    unfold fields
    exact hend.yields (.pure read ⟨rest, rfl, hrest⟩)
  | cons field fs ih =>
    obtain ⟨key, v⟩ := field
    simp only [fieldTokens, List.append_assoc, List.cons_append] at h
    simp only [fieldTokens, List.length_append, List.length_cons] at hn
    obtain ⟨n, rfl⟩ : ∃ m, n = m + 1 := ⟨n - 1, by omega⟩
    obtain ⟨inner, colon, hnext, hkey, h⟩ := reads_nextKey first h
    obtain ⟨start, hcolon, h⟩ := reads_expectColon h
    unfold fields scan
    refine hnext.yields ((reads_textLiteral hkey colon).yields ?_)
    dsimp only
    split_ifs with hid hsome hcontent hsome
    · exact Fails.bind (fails_failBehind _ _ _)
    · refine hcolon.yields ((yields_expectText v h).bind fun id behind h => ?_)
      exact ih false _ h n (by omega)
    · exact Fails.bind (fails_failBehind _ _ _)
    · refine hcolon.yields ((yields_expectText v h).bind fun content behind h => ?_)
      exact ih false _ h n (by omega)
    · obtain ⟨behind, hignored, h⟩ := reads_ignored v (endsValue_fields fs ts) h
      exact hcolon.yields (hignored.yields (ih false read h n (by omega)))

theorem yields_objectEntry (fs : List (String × Json))
    (h : Laid (fieldTokens true fs ++ .mark '}' :: ts) cs) :
    Yields objectEntry cs (entryOf? (.object fs)) (Laid ts) := by
  have hlength := h.length_le
  rw [List.length_append] at hlength
  unfold objectEntry
  refine .get (fun _ => rfl) ((yields_fields (n := cs.length + 1) fs true {}
    (by omega) h).bind fun read _ hend => ?_)
  obtain ⟨rest, rfl, hrest⟩ := hend
  obtain ⟨id, content⟩ := read
  cases id with
  | none => exact fails_failBehind _ _ _
  | some id =>
    cases content with
    | none => exact fails_failBehind _ _ _
    | some content => exact (reads_skip '}' rest).yields (.pure (id, content) hrest)

/-- An entry is read as its value says, in whatever way it is written. -/
theorem yields_entry (v : Json) (h : Laid (v.tokens ++ ts) cs) :
    Yields entry cs (entryOf? v) (Laid ts) := by
  unfold entry
  cases v with
  | list vs =>
    obtain ⟨rest, hcs, h⟩ := h.list
    exact (reads_toValue hcs).yields ((reads_next? _).yields ((reads_skip _ _).yields
      (yields_listEntry vs h)))
  | object fs =>
    obtain ⟨rest, hcs, h⟩ := h.object
    exact (reads_toValue hcs).yields ((reads_next? _).yields ((reads_skip _ _).yields
      (yields_objectEntry fs h)))
  | _ =>
    obtain ⟨c, rest, hcs, hc⟩ := h.opens
    refine (reads_toValue hcs).fails ((reads_next? _).fails ?_)
    dsimp only [List.head?_cons]
    split
    case h_1 heq =>
      obtain ⟨vs, hvs⟩ := hc.kind.2.1 (Option.some.inj heq)
      cases hvs
    case h_2 heq =>
      obtain ⟨fs, hfs⟩ := hc.kind.2.2.1 (Option.some.inj heq)
      cases hfs
    case h_3 => exact .after fun _ _ => fails_failHere _ _

theorem yields_entries (vs : List Json) (first : Bool) (hn : (itemTokens first vs).length < n)
    (h : Laid (itemTokens first vs ++ .mark ']' :: ts) cs) :
    Yields (entries n first) cs (vs.mapM entryOf?) (Laid (.mark ']' :: ts)) := by
  obtain ⟨n, rfl⟩ : ∃ m, n = m + 1 := ⟨n - 1, by omega⟩
  induction vs generalizing first n cs with
  | nil =>
    obtain ⟨rest, hend, hrest⟩ := reads_nextItem_end first h
    unfold entries
    exact hend.yields (.pure [] (.cons_mark (by decide) hrest))
  | cons v vs ih =>
    have hpos := v.length_tokens_pos
    simp only [itemTokens, List.append_assoc] at h
    simp only [itemTokens, List.length_append] at hn
    obtain ⟨n, rfl⟩ : ∃ m, n = m + 1 := ⟨n - 1, by omega⟩
    obtain ⟨start, hnext, h⟩ := reads_nextItem first v h
    rw [List.mapM_cons]
    unfold entries
    refine hnext.yields ((yields_entry v h).bind fun e behind h => ?_)
    exact (ih false h n (by omega)).bind fun es rest hrest => .pure (e :: es) hrest

/-- A manifest is read as its value says, in whatever way it is written. -/
theorem yields_document (v : Json) (h : Laid (v.tokens ++ []) cs) :
    Yields document cs (entriesOf? v) fun _ => True := by
  unfold document
  cases v with
  | list vs =>
    obtain ⟨inside, hcs, h⟩ := h.list
    have hlength := h.length_le
    rw [List.length_append] at hlength
    refine (reads_toValue hcs).yields ((reads_sees _ _).yields ((reads_skip _ _).yields ?_))
    have hentries := yields_entries (n := inside.length + 1) vs true (by omega) h
    have hall : entriesOf? (.list vs) = (vs.mapM entryOf?).bind some := by
      rw [Option.bind_fun_some]
      rfl
    rw [hall]
    refine .get (fun _ => rfl) (hentries.bind fun all behind h => ?_)
    obtain ⟨left, hend, hleft⟩ := reads_endList h
    refine hend.yields ((reads_skipGap hleft.nil_dropWhile).yields ((reads_next? _).yields ?_))
    exact .pure all trivial
  | _ =>
    obtain ⟨c, rest, hcs, hc⟩ := h.opens
    refine (reads_toValue hcs).fails ((reads_sees '[' _).fails ?_)
    have hbracket : ¬ ((c :: rest).head? == some '[') = true := by
      intro heq
      obtain ⟨vs, hvs⟩ := hc.kind.2.1 (by simpa using heq)
      cases hvs
    rw [if_neg hbracket]
    exact .after fun _ _ => Fails.bind (fails_failHere _ _)

end ScriptAtlas.Manifest
