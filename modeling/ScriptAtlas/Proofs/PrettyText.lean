import Mathlib.Tactic.SplitIfs
import ScriptAtlas.Proofs.JsonSpelling

/-! # The printed text of a value

The text that `pretty` gives is one of the ways to write the value, if the numbers in it are numbers
(`Sound`): `laid_prettyAt`, `spelled_pretty`. -/

namespace ScriptAtlas.Json

/-- The numbers in a value are numbers. -/
inductive Sound : Json → Prop where
  | null : Sound .null
  | bool (b : Bool) : Sound (.bool b)
  | number {s : String} (h : IsNumber s.toList) : Sound (.number s)
  | text (s : String) : Sound (.text s)
  | list {vs : List Json} (h : ∀ v ∈ vs, Sound v) : Sound (.list vs)
  | object {fields : List (String × Json)} (h : ∀ field ∈ fields, Sound field.2) :
      Sound (.object fields)

variable {c : Char} {cs ds : List Char} {t : Token} {ts : List Token} {level n : Nat} {v : Json}

/-! ### String literals -/

theorem hexValue?_digitChar : ∀ i < 16, hexValue? i.digitChar = some i := by decide

theorem toList_hex4 : ∀ n < 0x20,
    (hex4 n).toList = ['0', '0', (n / 16).digitChar, (n % 16).digitChar] := by decide

theorem hexDigits_hex4 (h : n < 0x20) : HexDigits (hex4 n).toList n := by
  have hdigits := HexDigits.mk (a := '0') (b := '0') (i := 0) (j := 0) rfl rfl
    (hexValue?_digitChar (n / 16) (by omega)) (hexValue?_digitChar (n % 16) (by omega))
  have hn : ((0 * 16 + 0) * 16 + n / 16) * 16 + n % 16 = n := by omega
  rw [hn] at hdigits
  rwa [toList_hex4 n h]

theorem spelledChar_escaped (c : Char) : SpelledChar c (escaped c).toList := by
  unfold escaped
  split_ifs with hquote hback hline hreturn htab h8 h12 hcontrol
  · exact hquote ▸ .letter (by decide)
  · exact hback ▸ .letter (by decide)
  · exact hline ▸ .letter (by decide)
  · exact hreturn ▸ .letter (by decide)
  · exact htab ▸ .letter (by decide)
  · obtain rfl : c = '\x08' := Char.toNat_inj.mp h8
    exact .letter (by decide)
  · obtain rfl : c = '\x0c' := Char.toNat_inj.mp h12
    exact .letter (by decide)
  · rw [String.toList_append]
    exact .digits (hexDigits_hex4 hcontrol)
  · rw [Char.toString_eq_singleton, String.toList_singleton]
    exact .plain (by omega) hquote hback

theorem spelledChars_flatMap (cs : List Char) :
    SpelledChars cs ((cs.map escaped).flatMap String.toList) := by
  induction cs with
  | nil => exact .nil
  | cons c cs ih => exact .cons (spelledChar_escaped c) ih

theorem spelled_literal (s : String) : (Token.text s).Spelled (literal s).toList := by
  unfold literal
  rw [String.toList_append, String.toList_append, String.toList_join]
  exact .text (spelledChars_flatMap s.toList)

/-! ### Layout -/

theorem gap_newLine (level : Nat) : Gap (newLine level).toList := by
  intro c hc
  simp only [newLine, String.toList_append, String.toList_ofList, List.mem_append,
    List.mem_replicate] at hc
  rcases hc with hc | ⟨-, rfl⟩
  · exact Or.inr (Or.inl (by simpa using hc))
  · exact Or.inl rfl

/-- The printed text of `v`, wherever it stands, is laid out as the tokens of `v`. -/
def Printed (v : Json) : Prop :=
  ∀ level ts cs, Laid ts cs → Laid (v.tokens ++ ts) ((prettyAt level v).toList ++ cs)

theorem laid_prettyItems {vs : List Json} (hvs : ∀ v ∈ vs, Printed v) (h : Laid ts cs) :
    Laid (itemTokens true vs ++ ts) ((",".intercalate (prettyItems level vs)).toList ++ cs) := by
  induction vs with
  | nil => exact h
  | cons v vs ih =>
    rw [List.forall_mem_cons] at hvs
    rw [itemTokens, if_pos rfl, List.nil_append, List.append_assoc]
    cases vs with
    | nil =>
      rw [prettyItems, prettyItems, String.intercalate_singleton, String.toList_append,
        List.append_assoc]
      exact .gap (gap_newLine level) (hvs.1 level ts cs h)
    | cons w ws =>
      rw [prettyItems, String.intercalate_cons_of_ne_nil (by simp [prettyItems])]
      simp only [String.toList_append, List.append_assoc]
      refine .gap (gap_newLine level) (hvs.1 level _ _ ?_)
      exact .cons_mark (by decide) (ih hvs.2)

theorem laid_prettyFields {fields : List (String × Json)}
    (hfields : ∀ field ∈ fields, Printed field.2) (h : Laid ts cs) :
    Laid (fieldTokens true fields ++ ts)
      ((",".intercalate (prettyFields level fields)).toList ++ cs) := by
  induction fields with
  | nil => exact h
  | cons field fields ih =>
    obtain ⟨key, v⟩ := field
    rw [List.forall_mem_cons] at hfields
    rw [fieldTokens, if_pos rfl, List.nil_append, List.cons_append, List.cons_append,
      List.append_assoc]
    have hcolon {ts cs} (h : Laid ts cs) : Laid (.mark ':' :: ts) (": ".toList ++ cs) :=
      .cons_mark (by decide) (.gap (g := [' ']) (by simp [Gap]) h)
    cases fields with
    | nil =>
      rw [prettyFields, prettyFields, String.intercalate_singleton]
      simp only [String.toList_append, List.append_assoc]
      exact .gap (gap_newLine level) (.token (spelled_literal key) (hcolon
        (hfields.1 level ts cs h)))
    | cons w ws =>
      rw [prettyFields, String.intercalate_cons_of_ne_nil (by simp [prettyFields])]
      simp only [String.toList_append, List.append_assoc]
      refine .gap (gap_newLine level) (.token (spelled_literal key) (hcolon
        (hfields.1 level _ _ ?_)))
      exact .cons_mark (by decide) (ih hfields.2)

theorem Sound.printed (h : v.Sound) : v.Printed := by
  induction h with
  | null =>
    intro level ts cs h
    rw [prettyAt]
    exact .token .null h
  | bool b =>
    intro level ts cs h
    rw [prettyAt]
    have htoken := Laid.token (.bool b) h
    cases b <;> exact htoken
  | number hs =>
    intro level ts cs h
    rw [prettyAt]
    exact .token (.number hs) h
  | text s =>
    intro level ts cs h
    rw [prettyAt]
    exact .token (spelled_literal s) h
  | @list vs _ ih =>
    intro level ts cs h
    rw [prettyAt, tokens, List.cons_append, List.append_assoc]
    split
    · next hempty =>
      obtain rfl := List.isEmpty_iff.mp hempty
      exact .cons_mark (by decide) (.cons_mark (by decide) h)
    · simp only [String.toList_append, List.append_assoc]
      refine .cons_mark (by decide) (laid_prettyItems ih (.gap (gap_newLine level) ?_))
      exact .cons_mark (by decide) h
  | @object fields _ ih =>
    intro level ts cs h
    rw [prettyAt, tokens, List.cons_append, List.append_assoc]
    split
    · next hempty =>
      obtain rfl := List.isEmpty_iff.mp hempty
      exact .cons_mark (by decide) (.cons_mark (by decide) h)
    · simp only [String.toList_append, List.append_assoc]
      refine .cons_mark (by decide) (laid_prettyFields ih (.gap (gap_newLine level) ?_))
      exact .cons_mark (by decide) h

/-- A printed value, also with blanks behind it, is one of the spellings of the value. -/
theorem Sound.spelled_pretty (h : v.Sound) (blanks : String) (hblanks : Gap blanks.toList) :
    v.Spelled (v.pretty ++ blanks) := by
  have hlaid := h.printed 0 [] blanks.toList (.nil hblanks)
  rw [List.append_nil] at hlaid
  unfold Spelled pretty
  rwa [String.toList_append]

/-! ### Numbers -/

theorem head?_toDigits (h : 0 < n) : (Nat.toDigits 10 n).head? ≠ some '0' := by
  induction n using Nat.strongRecOn with
  | ind n ih =>
    by_cases hn : n < 10
    · rw [Nat.toDigits_of_lt_base hn]
      have hdigit : ∀ i < 10, 0 < i → i.digitChar ≠ '0' := by decide
      simpa using hdigit n hn h
    · have hhead := ih (n / 10) (by omega) (by omega)
      have hne : Nat.toDigits 10 (n / 10) ≠ [] := Nat.toDigits_ne_nil
      obtain ⟨d, ds, hds⟩ := List.exists_cons_of_ne_nil hne
      rw [Nat.toDigits_of_base_le (by decide) (by omega)]
      rw [hds] at hhead ⊢
      exact hhead

theorem isNumber_toDigits (n : Nat) : IsNumber (Nat.toDigits 10 n) := by
  have hdigits : IsDigits (Nat.toDigits 10 n) :=
    ⟨Nat.toDigits_ne_nil, fun d hd => Nat.isDigit_of_mem_toDigits (by decide) (by decide) hd⟩
  have hwhole : SpelledWhole (Nat.toDigits 10 n) := by
    rcases Nat.eq_zero_or_pos n with rfl | hn
    · exact .zero
    · exact .digits hdigits (head?_toDigits hn)
  simpa using IsNumber.mk (Or.inl rfl) hwhole .none .none

theorem sound_ofNat (n : Nat) : (ofNat n).Sound := by
  refine .number ?_
  rw [Nat.toString_eq_ofList_toDigits, String.toList_ofList]
  exact isNumber_toDigits n

end ScriptAtlas.Json
