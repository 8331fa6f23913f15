import ScriptAtlas.Proofs.ReaderRuns

/-! # Numbers

A number is written as a whole part, perhaps with a minus before it and a fraction and an exponent
behind it (`IsNumber`). Where what follows cannot belong to it, the reader of numbers passes over
all of it (`passes_numberParts`). -/

namespace ScriptAtlas.Json

/-! ### Spellings -/

/-- One digit or more. -/
def IsDigits (ds : List Char) : Prop := ds ≠ [] ∧ ∀ d ∈ ds, d.isDigit = true

inductive SpelledWhole : List Char → Prop where
  | zero : SpelledWhole ['0']
  | digits {ds : List Char} (h : IsDigits ds) (hzero : ds.head? ≠ some '0') : SpelledWhole ds

inductive SpelledFraction : List Char → Prop where
  | none : SpelledFraction []
  | digits {ds : List Char} (h : IsDigits ds) : SpelledFraction ('.' :: ds)

inductive SpelledExponent : List Char → Prop where
  | none : SpelledExponent []
  | digits {e : Char} {sign ds : List Char} (he : e = 'e' ∨ e = 'E')
      (hsign : sign = [] ∨ sign = ['+'] ∨ sign = ['-']) (h : IsDigits ds) :
      SpelledExponent (e :: (sign ++ ds))

/-- The numbers: a whole part, which begins with a zero only if it is one, and perhaps a minus, a
fraction and an exponent. -/
inductive IsNumber : List Char → Prop where
  | mk {sign whole fraction exponent : List Char} (hsign : sign = [] ∨ sign = ['-'])
      (hwhole : SpelledWhole whole) (hfraction : SpelledFraction fraction)
      (hexponent : SpelledExponent exponent) :
      IsNumber (sign ++ (whole ++ (fraction ++ exponent)))

/-- May this follow a number? -/
def EndsNumber (rest : List Char) : Prop :=
  ∀ c, rest.head? = some c → c.isDigit = false ∧ c ≠ '.' ∧ c ≠ 'e' ∧ c ≠ 'E'

variable {c : Char} {cs ds rest : List Char} {p : Problem} {n : Nat}

theorem reads_takeDigits_append (hds : ∀ d ∈ ds, d.isDigit = true)
    (hrest : ∀ c, rest.head? = some c → c.isDigit = false) :
    Reads takeDigits (ds ++ rest) ds rest := by
  have hread := reads_takeDigits (ds ++ rest)
  have hnil : rest.takeWhile Char.isDigit = [] ∧ rest.dropWhile Char.isDigit = rest := by
    cases rest with
    | nil => exact ⟨rfl, rfl⟩
    | cons c cs => simp [hrest c rfl]
  rw [List.takeWhile_append_of_pos hds, List.dropWhile_append_of_pos hds, hnil.1, hnil.2,
    List.append_nil] at hread
  exact hread

theorem IsDigits.isEmpty (h : IsDigits ds) : ¬ ds.isEmpty = true := by
  simpa using h.1

/-- A digit is no sign. -/
theorem IsDigits.head?_ne (h : IsDigits ds) {s : Char} (hs : s.isDigit = false) :
    ((ds ++ rest).head? == some s) = false := by
  obtain ⟨hne, hall⟩ := h
  obtain ⟨d, ds, rfl⟩ := List.exists_cons_of_ne_nil hne
  have hd : d.isDigit = true := hall d (by simp)
  have hds : d ≠ s := by
    rintro rfl
    rw [hd] at hs
    cases hs
  simpa using hds

theorem passes_exponentDigits (hds : IsDigits ds) (hrest : EndsNumber rest) (negative : Bool) :
    Passes (do
      let pos := (← get).pos
      let digits ← takeDigits
      if digits.isEmpty then failNext (if (← next?).isNone then p else .invalidNumber)
      return some (negative, digits, pos)) (ds ++ rest) rest := by
  refine .get fun pos => ?_
  refine (reads_takeDigits_append hds.2 fun c hc => (hrest c hc).1).then ?_
  rw [if_neg hds.isEmpty]
  exact (Reads.pure _ _).passes

theorem passes_exponent (h : SpelledExponent cs) (hrest : EndsNumber rest) :
    Passes (exponent p) (cs ++ rest) rest := by
  unfold exponent
  refine (reads_sees 'e' _).then ((reads_sees 'E' _).then ?_)
  cases h with
  | none =>
    have hnone : ¬ (rest.head? == some 'e' || rest.head? == some 'E') = true := by
      cases hhead : rest.head? with
      | none => simp
      | some c => simpa using (hrest c hhead).2.2
    rw [List.nil_append, if_neg hnone]
    exact (Reads.pure _ _).passes
  | @digits e sign ds he hsign hds =>
    have hmark : ((e :: (sign ++ ds) ++ rest).head? == some 'e' ||
        (e :: (sign ++ ds) ++ rest).head? == some 'E') = true := by
      rcases he with rfl | rfl <;> rfl
    rw [if_pos hmark, List.cons_append, List.append_assoc]
    refine (reads_skip e _).then ((reads_sees '-' _).then ((reads_sees '+' _).then ?_))
    -- Behind the sign, if there is one, the digits are read.
    have hdigits (negative : Bool) := passes_exponentDigits (p := p) hds hrest negative
    rcases hsign with rfl | rfl | rfl
    · rw [List.nil_append, hds.head?_ne (by decide), hds.head?_ne (by decide)]
      exact hdigits false
    · exact (reads_skip '+' _).then (hdigits false)
    · exact (reads_skip '-' _).then (hdigits true)

theorem passes_fraction (h : SpelledFraction cs)
    (hrest : ∀ c, rest.head? = some c → c.isDigit = false ∧ c ≠ '.') :
    Passes (fraction p) (cs ++ rest) rest := by
  unfold fraction
  refine (reads_sees '.' _).then ?_
  cases h with
  | none =>
    have hnone : ¬ (rest.head? == some '.') = true := by
      cases hhead : rest.head? with
      | none => simp
      | some c => simpa using (hrest c hhead).2
    rw [List.nil_append, if_neg hnone]
    exact (Reads.pure _ _).passes
  | @digits ds hds =>
    refine (reads_skip '.' (ds ++ rest)).then ?_
    refine (reads_takeDigits_append hds.2 fun c hc => (hrest c hc).1).then ?_
    rw [if_neg hds.isEmpty]
    exact (Reads.pure _ _).passes

theorem SpelledExponent.head? (h : SpelledExponent cs) (hrest : EndsNumber rest) :
    ∀ c, (cs ++ rest).head? = some c → c.isDigit = false ∧ c ≠ '.' := by
  intro c hc
  cases h with
  | none => exact ⟨(hrest c hc).1, (hrest c hc).2.1⟩
  | digits he _ _ =>
    obtain rfl : _ = c := Option.some.inj hc
    rcases he with rfl | rfl <;> decide

theorem SpelledFraction.head? (h : SpelledFraction cs)
    (hrest : ∀ c, rest.head? = some c → c.isDigit = false ∧ c ≠ '.') :
    ∀ c, (cs ++ rest).head? = some c → c.isDigit = false := by
  intro c hc
  cases h with
  | none => exact (hrest c hc).1
  | digits _ =>
    obtain rfl : '.' = c := Option.some.inj hc
    rfl

theorem SpelledWhole.isDigits (h : SpelledWhole cs) : IsDigits cs := by
  cases h with
  | zero => exact ⟨by simp, by simp⟩
  | digits h _ => exact h

theorem IsNumber.head (h : IsNumber cs) :
    ∃ c ds, cs = c :: ds ∧ (c = '-' ∨ c.isDigit = true) := by
  cases h with
  | mk hsign hwhole hfraction hexponent =>
    rcases hsign with rfl | rfl
    · obtain ⟨hne, hall⟩ := hwhole.isDigits
      obtain ⟨d, whole, rfl⟩ := List.exists_cons_of_ne_nil hne
      exact ⟨d, _, rfl, Or.inr (hall d (by simp))⟩
    · exact ⟨'-', _, rfl, Or.inl rfl⟩

/-- The whole part is read up to what follows it. -/
theorem passes_numberParts_of (h : SpelledWhole cs)
    (hds : ∀ c, ds.head? = some c → c.isDigit = false)
    (hbehind : ∀ whole : List Char, Passes (do
      return (⟨whole, ← fraction p, ← exponent p⟩ : NumberParts)) ds rest) :
    Passes (numberParts p) (cs ++ ds) rest := by
  unfold numberParts
  refine (reads_sees '0' _).then ?_
  cases h with
  | zero =>
    refine (reads_skip '0' ds).then ((reads_next? ds).then ?_)
    have hnot : ¬ (ds.head?.map Char.isDigit).getD false = true := by
      cases hhead : ds.head? with
      | none => simp
      | some c => simp [hds c hhead]
    rw [if_neg hnot]
    exact (Reads.pure _ _).then (hbehind ['0'])
  | digits hcs hzero =>
    have hnot : ¬ ((cs ++ ds).head? == some '0') = true := by
      obtain ⟨c, cs, rfl⟩ := List.exists_cons_of_ne_nil hcs.1
      simpa using hzero
    rw [if_neg hnot]
    refine (reads_takeDigits_append hcs.2 hds).then ?_
    dsimp only
    rw [if_neg hcs.isEmpty]
    exact hbehind cs

/-- A number behind its sign is passed over in whatever way it is written. -/
theorem passes_numberParts {whole fraction exponent : List Char} (hwhole : SpelledWhole whole)
    (hfraction : SpelledFraction fraction) (hexponent : SpelledExponent exponent)
    (hrest : EndsNumber rest) :
    Passes (numberParts p) (whole ++ (fraction ++ (exponent ++ rest))) rest := by
  have hbehind := hexponent.head? hrest
  refine passes_numberParts_of hwhole (hfraction.head? hbehind) fun _ => ?_
  refine (passes_fraction hfraction hbehind).bind fun _ => ?_
  exact (passes_exponent hexponent hrest).bind fun _ => (Reads.pure _ _).passes

end ScriptAtlas.Json
