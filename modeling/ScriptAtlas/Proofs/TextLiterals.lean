import ScriptAtlas.Proofs.ReaderRuns

/-! # String literals

A character stands for itself in a string literal, or it is written as an escape: by a letter, by
the four digits of its code point, or by two times four digits if it lies outside the first plane.
`SpelledChars` is the relation between a text and the ways to write it. The readers of string
literals take back whatever way was chosen (`reads_textLiteral`, `reads_skipTextLiteral`). -/

namespace ScriptAtlas.Json

/-! ### Spellings -/

/-- Four hexadecimal digits, in small or capital letters, and their value. -/
inductive HexDigits : List Char → Nat → Prop where
  | mk {a b c d : Char} {i j k l : Nat} (ha : hexValue? a = some i) (hb : hexValue? b = some j)
      (hc : hexValue? c = some k) (hd : hexValue? d = some l) :
      HexDigits [a, b, c, d] (((i * 16 + j) * 16 + k) * 16 + l)

/-- The letters of escapes and what they stand for. -/
def letterEscapes : List (Char × Char) :=
  [('"', '"'), ('\\', '\\'), ('/', '/'), ('b', '\x08'), ('f', '\x0c'), ('n', '\n'), ('r', '\r'),
    ('t', '\t')]

/-- The ways to write a character. -/
inductive SpelledChar : Char → List Char → Prop where
  | plain {c : Char} (hc : 0x20 ≤ c.toNat) (hquote : c ≠ '"') (hback : c ≠ '\\') :
      SpelledChar c [c]
  | letter {e c : Char} (h : (e, c) ∈ letterEscapes) : SpelledChar c ['\\', e]
  | digits {c : Char} {ds : List Char} (h : HexDigits ds c.toNat) :
      SpelledChar c ('\\' :: 'u' :: ds)
  /-- The two halves tell the ten upper and the ten lower bits behind the first plane. -/
  | pair {c : Char} {i j : Nat} {ds es : List Char} (hds : HexDigits ds (0xd800 + i))
      (hes : HexDigits es (0xdc00 + j)) (hi : i < 0x400) (hj : j < 0x400)
      (hc : c.toNat = 0x10000 + i * 0x400 + j) :
      SpelledChar c ('\\' :: 'u' :: ds ++ '\\' :: 'u' :: es)

/-- The ways to write a text. -/
inductive SpelledChars : List Char → List Char → Prop where
  | nil : SpelledChars [] []
  | cons {c : Char} {cs ds es : List Char} (h : SpelledChar c ds) (hs : SpelledChars cs es) :
      SpelledChars (c :: cs) (ds ++ es)

variable {c e : Char} {cs ds es rest : List Char} {n : Nat}

theorem SpelledChar.length_pos (h : SpelledChar c ds) : 0 < ds.length := by
  cases h <;> simp

/-! ### Escapes -/

theorem le_foldl_utf8Size (cs : List Char) (n : Nat) :
    n + cs.length ≤ cs.foldl (fun n c => n + c.utf8Size) n := by
  induction cs generalizing n with
  | nil => exact Nat.le_refl n
  | cons c cs ih =>
    have hc : 0 < c.utf8Size := c.utf8Size_pos
    have hrest := ih (n + c.utf8Size)
    rw [List.foldl_cons, List.length_cons]
    omega

theorem length_le_byteCount (cs : List Char) : cs.length ≤ byteCount cs := by
  have h := le_foldl_utf8Size cs 0
  unfold byteCount
  omega

theorem reads_hexEscape (h : HexDigits ds n) (rest : List Char) :
    Reads hexEscape (ds ++ rest) n rest := by
  have hbytes := length_le_byteCount (ds ++ rest)
  cases h with
  | @mk a b c d i j k l ha hb hc hd =>
    have hdigits : (([a, b, c, d] ++ rest).take 4).mapM hexValue? = some [i, j, k, l] := by
      simp [ha, hb, hc, hd]
    have hvalue : [i, j, k, l].foldl (fun n d => n * 16 + d) 0 =
        ((i * 16 + j) * 16 + k) * 16 + l := by simp
    rw [← hvalue]
    unfold hexEscape
    refine .get fun pos => ?_
    dsimp only
    rw [if_neg (by simp at hbytes ⊢; omega), hdigits]
    exact .bind (.set _ _ _) (.pure _ _)

theorem simpleEscape?_of_mem (h : (e, c) ∈ letterEscapes) : simpleEscape? e = some c := by
  simp only [letterEscapes, List.mem_cons, Prod.mk.injEq, List.not_mem_nil, or_false] at h
  rcases h with ⟨rfl, rfl⟩ | ⟨rfl, rfl⟩ | ⟨rfl, rfl⟩ | ⟨rfl, rfl⟩ | ⟨rfl, rfl⟩ | ⟨rfl, rfl⟩ |
    ⟨rfl, rfl⟩ | ⟨rfl, rfl⟩ <;> rfl

theorem reads_expectPaired (c : Char) (rest : List Char) :
    Reads (expectPaired c) (c :: rest) () rest := by
  unfold expectPaired
  refine .bind (reads_nextInText c rest) ?_
  rw [if_pos rfl]
  exact reads_skip c rest

theorem toNat_not_surrogate (c : Char) : c.toNat < 0xd800 ∨ 0xdfff < c.toNat := by
  rcases c.valid with h | h
  · exact Or.inl h
  · exact Or.inr h.1

theorem reads_unicodeEscape_digits (h : HexDigits ds c.toNat) (rest : List Char) :
    Reads unicodeEscape (ds ++ rest) c rest := by
  have hrange := toNat_not_surrogate c
  unfold unicodeEscape
  refine .bind (reads_hexEscape h rest) ?_
  dsimp only
  rw [if_neg (by simp; omega), if_pos (by simp; omega), Char.ofNat_toNat]
  exact .pure c rest

theorem reads_unicodeEscape_pair {i j : Nat} (hds : HexDigits ds (0xd800 + i))
    (hes : HexDigits es (0xdc00 + j)) (hi : i < 0x400) (hj : j < 0x400)
    (hc : c.toNat = 0x10000 + i * 0x400 + j) (rest : List Char) :
    Reads unicodeEscape (ds ++ '\\' :: 'u' :: (es ++ rest)) c rest := by
  unfold unicodeEscape
  refine .bind (reads_hexEscape hds _) ?_
  dsimp only
  rw [if_neg (by simp; omega), if_neg (by simp; omega)]
  refine .bind (reads_expectPaired '\\' _) (.bind (reads_expectPaired 'u' _)
    (.bind (reads_hexEscape hes rest) ?_))
  rw [if_neg (by simp; omega)]
  have hcode : (0xd800 + i - 0xd800) * 0x400 + (0xdc00 + j - 0xdc00) + 0x10000 = c.toNat := by omega
  rw [hcode, Char.ofNat_toNat]
  exact .pure c rest

theorem reads_escape_letter (h : (e, c) ∈ letterEscapes) (rest : List Char) :
    Reads escape (e :: rest) c rest := by
  unfold escape
  refine .bind (reads_nextInText e rest) ?_
  rw [simpleEscape?_of_mem h]
  exact .bind (reads_skip e rest) (.pure c rest)

theorem reads_escape_unicode (h : Reads unicodeEscape ds c rest) :
    Reads escape ('u' :: ds) c rest := by
  unfold escape
  refine .bind (reads_nextInText 'u' ds) ?_
  exact .bind (reads_skip 'u' ds) h

/-! ### Literals -/

/-- A character is read in whatever way it is written. -/
theorem Reads.textChars_cons (h : SpelledChar c ds) {read : List Char} {s : String}
    {cs rest : List Char} (hs : Reads (textChars n (c :: read)) cs s rest) :
    Reads (textChars (n + 1) read) (ds ++ cs) s rest := by
  unfold textChars
  cases h with
  | plain hc hquote hback =>
    refine .bind (reads_nextInText c cs) (.bind (reads_skip c cs) ?_)
    rw [if_neg hquote, if_neg hback, if_neg (by omega)]
    exact hs
  | letter hletter =>
    refine .bind (reads_nextInText _ _) (.bind (reads_skip _ _) ?_)
    exact .bind (reads_escape_letter hletter cs) hs
  | digits hds =>
    refine .bind (reads_nextInText _ _) (.bind (reads_skip _ _) ?_)
    exact .bind (reads_escape_unicode (reads_unicodeEscape_digits hds cs)) hs
  | pair hds hes hi hj hc =>
    rw [List.append_assoc]
    refine .bind (reads_nextInText _ _) (.bind (reads_skip _ _) ?_)
    exact .bind (reads_escape_unicode (reads_unicodeEscape_pair hds hes hi hj hc cs)) hs

theorem reads_textChars {s inner : List Char} (h : SpelledChars s inner) (read rest : List Char)
    (hn : inner.length < n) :
    Reads (textChars n read) (inner ++ '"' :: rest) (String.ofList (read.reverse ++ s)) rest := by
  obtain ⟨n, rfl⟩ : ∃ m, n = m + 1 := ⟨n - 1, by omega⟩
  induction h generalizing n read with
  | nil =>
    unfold textChars
    refine .bind (reads_nextInText '"' rest) (.bind (reads_skip '"' rest) ?_)
    rw [if_pos rfl, List.append_nil]
    exact .pure _ _
  | @cons c s ds es hc hs ih =>
    have hpos := hc.length_pos
    rw [List.length_append] at hn
    obtain ⟨n, rfl⟩ : ∃ m, n = m + 1 := ⟨n - 1, by omega⟩
    have htail := ih (c :: read) n (by omega)
    rw [List.reverse_cons, List.append_assoc, List.singleton_append] at htail
    rw [List.append_assoc]
    exact htail.textChars_cons hc

/-- A string literal is read in whatever way it is written. -/
theorem reads_textLiteral {s : String} {inner : List Char} (h : SpelledChars s.toList inner)
    (rest : List Char) : Reads textLiteral (inner ++ '"' :: rest) s rest := by
  unfold textLiteral
  refine .get fun pos => ?_
  have hlength : inner.length < (inner ++ '"' :: rest).length + 1 := by
    rw [List.length_append]
    omega
  have hread := reads_textChars h [] rest hlength
  rw [List.reverse_nil, List.nil_append, String.ofList_toList] at hread
  exact hread

/-! ### Literals passed over -/

theorem reads_skipChars_escape (hds : HexDigits ds n) {m : Nat} {cs rest : List Char}
    (hs : Reads (skipChars m) cs () rest) :
    Reads (skipChars (m + 1)) ('\\' :: 'u' :: (ds ++ cs)) () rest := by
  unfold skipChars
  refine .bind (reads_nextInText _ _) ?_
  refine .bind (reads_skip _ _) (.bind (reads_nextInText _ _) ?_)
  exact .bind (reads_skip _ _) (.bind (reads_hexEscape hds cs).passes.discard hs)

/-- A character is passed over in one step, and in two if it is written in two halves. -/
theorem Reads.skipChars_cons (h : SpelledChar c ds) {cs rest : List Char}
    (hs : ∀ m, n ≤ m → Reads (skipChars m) cs () rest) :
    Reads (skipChars (n + ds.length)) (ds ++ cs) () rest := by
  cases h with
  | plain hc hquote hback =>
    unfold skipChars
    refine .bind (reads_nextInText c cs) ?_
    dsimp only
    rw [if_neg (by omega)]
    refine .bind (reads_skip c cs) ?_
    rw [if_neg hquote, if_neg hback]
    exact hs n (Nat.le_refl n)
  | @letter e _ hletter =>
    have hsome : (simpleEscape? e).isSome = true := by rw [simpleEscape?_of_mem hletter]; rfl
    unfold skipChars
    refine .bind (reads_nextInText _ _) ?_
    refine .bind (reads_skip _ _) (.bind (reads_nextInText _ _) ?_)
    rw [if_pos hsome]
    exact .bind (reads_skip e cs) (hs (n + 1) (by omega))
  | @digits _ ds hds => exact reads_skipChars_escape hds (hs (n + (ds.length + 1)) (by omega))
  | @pair _ i j ds es hds hes hi hj hc =>
    have hlength : n + ('\\' :: 'u' :: ds ++ '\\' :: 'u' :: es).length =
        n + (ds.length + es.length + 2) + 1 + 1 := by simp; omega
    rw [hlength, List.append_assoc]
    exact reads_skipChars_escape hds (reads_skipChars_escape hes (hs _ (by omega)))

theorem reads_skipChars {s inner : List Char} (h : SpelledChars s inner) (rest : List Char)
    (hn : inner.length < n) : Reads (skipChars n) (inner ++ '"' :: rest) () rest := by
  induction h generalizing n with
  | nil =>
    obtain ⟨n, rfl⟩ : ∃ m, n = m + 1 := ⟨n - 1, by omega⟩
    unfold skipChars
    exact .bind (reads_nextInText _ _) (.bind (reads_skip _ _) (.pure _ _))
  | @cons c s ds es hc hs ih =>
    rw [List.length_append] at hn
    obtain ⟨m, rfl⟩ : ∃ m, n = m + ds.length := ⟨n - ds.length, by omega⟩
    rw [List.append_assoc]
    exact Reads.skipChars_cons hc fun k hk => ih (by omega)

/-- A string literal is passed over in whatever way it is written. -/
theorem reads_skipTextLiteral {s inner : List Char} (h : SpelledChars s inner)
    (rest : List Char) : Reads skipTextLiteral (inner ++ '"' :: rest) () rest := by
  have hlength : inner.length < (inner ++ '"' :: rest).length + 1 := by
    rw [List.length_append]
    omega
  unfold skipTextLiteral
  exact .get fun pos => reads_skipChars h rest hlength

end ScriptAtlas.Json
