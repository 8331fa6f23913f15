import ScriptAtlas.Text.Raw
import ScriptAtlas.Proofs.PathJoin

/-! # Bytes and the texts that they show

The UTF-8 form of a text shows that text (`shown_ofString`). Whatever the other bytes are, a byte of
the ASCII range stands for its character and ends what was broken before it
(`shownFrom_append_cons`), so a path is shown by showing its segments (`written_shown`), and
the segments that are no names are shown as nothing else is. -/

namespace ScriptAtlas.RawText

open Text ScriptAtlas.Path

/-! ### The UTF-8 form of a text -/

theorem fromUTF8?_eq_some_iff {bytes : ByteArray} {s : String} :
    String.fromUTF8? bytes = some s ↔ bytes = s.toUTF8 := by
  constructor
  · intro h
    unfold String.fromUTF8? at h
    split at h
    · cases h
      rfl
    · cases h
  · rintro rfl
    exact dif_pos s.isValidUTF8

theorem toByteArray_ofString (s : String) : (ofString s).bytes.toByteArray = s.toUTF8 := by
  have hbytes : (ofString s).bytes.toByteArray.data.toList = s.toUTF8.data.toList :=
    List.toList_data_toByteArray
  exact ByteArray.ext (Array.toList_inj.mp hbytes)

theorem text?_eq_some_iff {r : RawText} {s : String} : r.text? = some s ↔ r = ofString s := by
  rw [text?, fromUTF8?_eq_some_iff, ← toByteArray_ofString, List.toByteArray_inj]
  constructor
  · exact fun h => congrArg mk h
  · rintro rfl
    rfl

theorem ofString_inj {s s' : String} : ofString s = ofString s' ↔ s = s' := by
  constructor
  · intro h
    have hbytes := congrArg (·.bytes.toByteArray) h
    simp only [toByteArray_ofString] at hbytes
    exact String.toByteArray_inj.mp hbytes
  · rintro rfl
    rfl

theorem any_text?_iff {r : RawText} {l : List String} :
    r.text?.any l.contains = true ↔ ∃ s ∈ l, r = ofString s := by
  rw [Option.any_eq_true]
  constructor
  · rintro ⟨s, hs, hmem⟩
    exact ⟨s, List.contains_iff_mem.mp hmem, text?_eq_some_iff.mp hs⟩
  · rintro ⟨s, hmem, hs⟩
    exact ⟨s, text?_eq_some_iff.mpr hs, List.contains_iff_mem.mpr hmem⟩

/-- The bytes of some characters. -/
def encode (cs : List Char) : List UInt8 := cs.flatMap String.utf8EncodeChar

theorem bytes_ofString (s : String) : (ofString s).bytes = encode s.toList := by
  rw [← List.toByteArray_inj, toByteArray_ofString]
  exact String.utf8Encode_toList.symm

/-! ### Order -/

section Order

variable {x y z : RawText}

theorem le_trans (hxy : x ≤ y) (hyz : y ≤ z) : x ≤ z := List.le_trans hxy hyz

theorem le_total (x y : RawText) : x ≤ y ∨ y ≤ x := List.le_total x.bytes y.bytes

theorem le_antisymm (hxy : x ≤ y) (hyx : y ≤ x) : x = y :=
  congrArg mk (List.le_antisymm hxy hyx)

theorem not_lt : ¬ x < y ↔ y ≤ x := List.not_lt

end Order

/-! ### Bytes of the ASCII range -/

/-- The byte of a character of the ASCII range. -/
def asciiByte (c : Char) : UInt8 := UInt8.ofNat c.toNat

theorem utf8EncodeChar_of_ascii {c : Char} (hc : c.toNat < 0x80) :
    String.utf8EncodeChar c = [asciiByte c] := by
  have hle : c.val.toNat ≤ 0x7f := by
    have hval : c.val.toNat = c.toNat := rfl
    omega
  unfold String.utf8EncodeChar
  exact if_pos hle

/-- All bytes of a character are beyond the ASCII range, or it has only one. -/
theorem utf8EncodeChar_of_mem {c : Char} {b : UInt8} (hmem : b ∈ String.utf8EncodeChar c)
    (hb : b < 0x80) : c.toNat < 0x80 ∧ b = asciiByte c := by
  by_cases hc : c.toNat < 0x80
  · rw [utf8EncodeChar_of_ascii hc] at hmem
    exact ⟨hc, List.mem_singleton.mp hmem⟩
  · have hnot : ¬ c.val.toNat ≤ 0x7f := by
      have hval : c.val.toNat = c.toNat := rfl
      omega
    have hlarge : ∀ n, 0x80 ≤ n → n < 0x100 → ¬ UInt8.ofNat n < 0x80 := by
      intro n hlow hhigh hlt
      rw [UInt8.lt_iff_toNat_lt, UInt8.toNat_ofNat'] at hlt
      have hn : n % 2 ^ 8 = n := Nat.mod_eq_of_lt hhigh
      rw [hn] at hlt
      exact absurd hlow (Nat.not_le.mpr hlt)
    unfold String.utf8EncodeChar at hmem
    dsimp only at hmem
    rw [if_neg hnot] at hmem
    split at hmem
    · simp only [List.mem_cons, List.not_mem_nil, or_false] at hmem
      rcases hmem with rfl | rfl <;> exact absurd hb (hlarge _ (by omega) (by omega))
    · split at hmem
      · simp only [List.mem_cons, List.not_mem_nil, or_false] at hmem
        rcases hmem with rfl | rfl | rfl <;> exact absurd hb (hlarge _ (by omega) (by omega))
      · simp only [List.mem_cons, List.not_mem_nil, or_false] at hmem
        rcases hmem with rfl | rfl | rfl | rfl <;> exact absurd hb (hlarge _ (by omega) (by omega))

theorem asciiByte_lt {c : Char} (hc : c.toNat < 0x80) : asciiByte c < 0x80 := by
  rw [UInt8.lt_iff_toNat_lt, asciiByte, UInt8.toNat_ofNat']
  exact Nat.lt_of_le_of_lt (Nat.mod_le _ _) hc

theorem asciiByte_inj {c d : Char} (hc : c.toNat < 0x80) (hd : d.toNat < 0x80)
    (h : asciiByte c = asciiByte d) : c = d := by
  have htoNat : c.toNat % 2 ^ 8 = d.toNat % 2 ^ 8 := by
    simpa [asciiByte] using congrArg UInt8.toNat h
  rw [Nat.mod_eq_of_lt (by omega), Nat.mod_eq_of_lt (by omega)] at htoNat
  exact Char.toNat_inj.mp htoNat

/-- A byte of the ASCII range is in the UTF-8 form of a text just if its character is in it. -/
theorem asciiByte_mem_encode_iff {c : Char} {cs : List Char} (hc : c.toNat < 0x80) :
    asciiByte c ∈ encode cs ↔ c ∈ cs := by
  rw [encode, List.mem_flatMap]
  constructor
  · rintro ⟨d, hd, hmem⟩
    obtain ⟨hascii, hbyte⟩ := utf8EncodeChar_of_mem hmem (asciiByte_lt hc)
    rwa [asciiByte_inj hc hascii hbyte]
  · intro hmem
    exact ⟨c, hmem, by simp [utf8EncodeChar_of_ascii hc]⟩

/-! ### Characters that open bytes -/

variable {c : Char} {b : UInt8} {xs ys : List UInt8}

theorem firstChar?_eq_some_iff : firstChar? xs = some c ↔ String.utf8EncodeChar c <+: xs := by
  have hlength : (String.utf8EncodeChar c).length ≤ 4 := by
    rw [String.length_utf8EncodeChar]
    exact c.utf8Size_le_four
  have htake : String.utf8EncodeChar c <+: xs ↔ String.utf8EncodeChar c <+: xs.take 4 := by
    rw [List.prefix_take_iff, and_iff_left hlength]
  rw [htake, firstChar?]
  constructor
  · intro h
    obtain ⟨rest, hrest⟩ := ByteArray.exists_of_utf8DecodeChar?_eq_some h
    refine ⟨rest.data.toList, ?_⟩
    rw [← List.toByteArray_inj, List.toByteArray_append, hrest]
    congr 1
    exact ByteArray.ext (Array.toList_inj.mp List.toList_data_toByteArray)
  · rintro ⟨rest, hrest⟩
    rw [← hrest, List.toByteArray_append]
    exact ByteArray.utf8DecodeChar?_utf8EncodeChar_append

/-- Behind at least one byte, a byte of the ASCII range belongs to no character begun before. -/
theorem firstChar?_append_cons (hb : b < 0x80) (hxs : xs ≠ []) (ys : List UInt8) :
    firstChar? (xs ++ b :: ys) = firstChar? xs := by
  refine Option.ext fun c => ?_
  rw [firstChar?_eq_some_iff, firstChar?_eq_some_iff]
  refine ⟨fun h => ?_, fun h => h.trans (List.prefix_append _ _)⟩
  by_cases hle : (String.utf8EncodeChar c).length ≤ xs.length
  · exact List.prefix_of_prefix_length_le h (List.prefix_append _ _) hle
  · -- The character would have the byte and others.
    have hmem : b ∈ String.utf8EncodeChar c := by
      obtain ⟨rest, hrest⟩ := h
      have hget : (String.utf8EncodeChar c ++ rest)[xs.length]? = some b := by
        rw [hrest, List.getElem?_append_right (Nat.le_refl _)]
        simp
      rw [List.getElem?_append_left (Nat.not_le.mp hle)] at hget
      exact List.mem_of_getElem? hget
    have hascii := utf8EncodeChar_of_ascii (utf8EncodeChar_of_mem hmem hb).1
    rw [hascii, List.length_singleton] at hle
    exact absurd (List.length_pos_iff.mpr hxs) hle

theorem isTail_eq_false (hb : b < 0x80) : isTail b = false := by
  have hnot : ¬ 0x80 ≤ b := UInt8.not_le.mpr hb
  simp [isTail, hnot]

theorem brokenLength_append_cons (hb : b < 0x80) (hxs : xs ≠ []) (ys : List UInt8) :
    brokenLength (xs ++ b :: ys) = brokenLength xs := by
  match xs, hxs with
  | [x], _ => simp [brokenLength, opensLong, isTail_eq_false hb]
  | [x, y], _ => simp [brokenLength, isTail_eq_false hb]
  | x :: y :: z :: xs, _ => simp [brokenLength]

theorem brokenLength_le (hxs : xs ≠ []) : brokenLength xs ≤ xs.length := by
  match xs, hxs with
  | [x], _ => simp [brokenLength]
  | [x, y], _ =>
    simp only [brokenLength, List.head?_nil, Option.any_none, Bool.and_false]
    split <;> simp
  | x :: y :: z :: xs, _ =>
    have hthree : brokenLength (x :: y :: z :: xs) ≤ 3 := by
      rw [brokenLength]
      split
      · decide
      · split <;> decide
    exact hthree.trans (by simp)

/-! ### Shown characters -/

theorem shownFrom_length_append (xs ys : List UInt8) :
    shownFrom xs.length (xs ++ ys) = shownFrom 0 ys := by
  induction xs with
  | nil => rfl
  | cons x xs ih => exact ih

theorem shownFrom_of_firstChar? (h : firstChar? (b :: xs) = some c) :
    shownFrom 0 (b :: xs) = c :: shownFrom (c.utf8Size - 1) xs := by
  rw [shownFrom, h]

theorem shownFrom_utf8EncodeChar_append (c : Char) (ys : List UInt8) :
    shownFrom 0 (String.utf8EncodeChar c ++ ys) = c :: shownFrom 0 ys := by
  have hfirst : firstChar? (String.utf8EncodeChar c ++ ys) = some c :=
    firstChar?_eq_some_iff.mpr (List.prefix_append _ _)
  have hlength := String.length_utf8EncodeChar c
  cases hbytes : String.utf8EncodeChar c with
  | nil => exact absurd hbytes String.utf8EncodeChar_ne_nil
  | cons b bs =>
    rw [hbytes] at hfirst hlength
    rw [List.cons_append] at hfirst ⊢
    rw [shownFrom_of_firstChar? hfirst, ← hlength, List.length_cons, Nat.add_sub_cancel,
      shownFrom_length_append]

theorem shownFrom_encode (cs : List Char) : shownFrom 0 (encode cs) = cs := by
  induction cs with
  | nil => rfl
  | cons c cs ih =>
    have hcons : encode (c :: cs) = String.utf8EncodeChar c ++ encode cs := rfl
    rw [hcons, shownFrom_utf8EncodeChar_append, ih]

theorem shown_ofString (s : String) : (ofString s).shown = s := by
  rw [shown, bytes_ofString, shownFrom_encode, String.ofList_toList]

/-- A byte of the ASCII range ends what is shown before it. -/
theorem shownFrom_append_cons (hc : c.toNat < 0x80) {n : Nat} (hn : n ≤ xs.length)
    (ys : List UInt8) :
    shownFrom n (xs ++ asciiByte c :: ys) = shownFrom n xs ++ c :: shownFrom 0 ys := by
  have hbyte := asciiByte_lt hc
  induction xs generalizing n with
  | nil =>
    obtain rfl : n = 0 := Nat.le_zero.mp hn
    have hfirst := shownFrom_utf8EncodeChar_append c ys
    rwa [utf8EncodeChar_of_ascii hc] at hfirst
  | cons x xs ih =>
    cases n with
    | succ n => exact ih (Nat.le_of_succ_le_succ hn)
    | zero =>
      have hne : x :: xs ≠ [] := List.cons_ne_nil _ _
      have hfirst := firstChar?_append_cons hbyte hne ys
      have hbroken := brokenLength_append_cons hbyte hne ys
      rw [List.cons_append] at hfirst hbroken ⊢
      rw [shownFrom, shownFrom, hfirst, hbroken]
      cases hchar : firstChar? (x :: xs) with
      | some d =>
        have hlength := (firstChar?_eq_some_iff.mp hchar).length_le
        rw [String.length_utf8EncodeChar, List.length_cons] at hlength
        exact congrArg (d :: ·) (ih (by omega))
      | none =>
        have hlength := brokenLength_le hne
        rw [List.length_cons] at hlength
        exact congrArg (_ :: ·) (ih (by omega))

/-- Characters of the ASCII range are shown for their own bytes only. -/
theorem asciiByte_mem_of_mem_shownFrom (hc : c.toNat < 0x80) {n : Nat} (h : c ∈ shownFrom n xs) :
    asciiByte c ∈ xs := by
  induction xs generalizing n with
  | nil => simp [shownFrom] at h
  | cons x xs ih =>
    cases n with
    | succ n => exact List.mem_cons_of_mem _ (ih h)
    | zero =>
      rw [shownFrom] at h
      split at h
      · next d hchar =>
        rcases List.mem_cons.mp h with rfl | h
        · have hprefix := firstChar?_eq_some_iff.mp hchar
          rw [utf8EncodeChar_of_ascii hc] at hprefix
          exact hprefix.subset List.mem_cons_self
        · exact List.mem_cons_of_mem _ (ih h)
      · rcases List.mem_cons.mp h with rfl | h
        · exact absurd hc (by decide)
        · exact List.mem_cons_of_mem _ (ih h)

theorem shownFrom_eq_nil_iff : shownFrom 0 xs = [] ↔ xs = [] := by
  cases xs with
  | nil => simp [shownFrom]
  | cons x xs =>
    rw [shownFrom]
    split <;> simp

theorem shownFrom_eq_cons_iff (hc : c.toNat < 0x80) {cs : List Char} :
    shownFrom 0 xs = c :: cs ↔ ∃ ys, xs = asciiByte c :: ys ∧ shownFrom 0 ys = cs := by
  constructor
  · intro h
    cases xs with
    | nil => simp [shownFrom] at h
    | cons x xs =>
      rw [shownFrom] at h
      split at h
      · next d hchar =>
        obtain ⟨rfl, hrest⟩ := List.cons.inj h
        have hprefix := firstChar?_eq_some_iff.mp hchar
        have hsize := String.length_utf8EncodeChar d
        rw [utf8EncodeChar_of_ascii hc] at hprefix hsize
        obtain ⟨rfl, -⟩ := List.cons_prefix_cons.mp hprefix
        rw [← hsize] at hrest
        exact ⟨xs, rfl, hrest⟩
      · obtain ⟨rfl, -⟩ := List.cons.inj h
        exact absurd hc (by decide)
  · rintro ⟨ys, rfl, rfl⟩
    have hfirst := shownFrom_utf8EncodeChar_append c ys
    rwa [utf8EncodeChar_of_ascii hc] at hfirst

/-! ### Segments -/

section Separators

variable {α β : Type} {sep : α} {sep' : β} {f : List α → List β}

theorem apply_intercalate (hnil : f [] = [])
    (hsep : ∀ xs ys, f (xs ++ sep :: ys) = f xs ++ sep' :: f ys) (parts : List (List α)) :
    f ([sep].intercalate parts) = [sep'].intercalate (parts.map f) := by
  induction parts with
  | nil => simpa using hnil
  | cons part parts ih =>
    cases parts with
    | nil => simp
    | cons next parts =>
      rw [List.intercalate_cons_cons, List.append_assoc, List.singleton_append, hsep, ih]
      simp

/-- What keeps separators where they are keeps the parts between them. -/
theorem splitAt_apply [DecidableEq α] [DecidableEq β] (hnil : f [] = [])
    (hsep : ∀ xs ys, f (xs ++ sep :: ys) = f xs ++ sep' :: f ys)
    (hmem : ∀ xs, sep' ∈ f xs → sep ∈ xs) (xs : List α) :
    splitAt sep' (f xs) = (splitAt sep xs).map f := by
  have hjoined : [sep].intercalate (splitAt sep xs) = xs := by
    rw [splitAt_eq_splitOn]
    exact List.intercalate_splitOn sep
  have hne : splitAt sep xs ≠ [] := by
    rw [splitAt_eq_splitOn]
    exact List.splitOn_ne_nil sep xs
  conv_lhs => rw [← hjoined, apply_intercalate hnil hsep]
  refine splitAt_intercalate ?_ (by simpa using hne)
  exact List.forall_mem_map.mpr fun part hpart hsep' => (mem_splitAt hpart).1 (hmem part hsep')

end Separators

theorem segments_ofString (s : String) :
    (ofString s).segments = (splitAt '/' s.toList).map fun cs => ofString (String.ofList cs) := by
  have hsplit : splitAt slash (encode s.toList) = (splitAt '/' s.toList).map encode :=
    splitAt_apply rfl (fun xs ys => List.flatMap_append)
      (fun xs => (asciiByte_mem_encode_iff (c := '/') (by decide)).mp) s.toList
  rw [segments, bytes_ofString, hsplit, List.map_map]
  refine List.map_congr_left fun cs _ => ?_
  rw [Function.comp_apply, ← String.toList_ofList (l := cs), ← bytes_ofString,
    String.toList_ofList]

variable {path : RawText}

theorem toList_shown (r : RawText) : r.shown.toList = shownFrom 0 r.bytes := String.toList_ofList

theorem backslash_not_mem_shown (h : asciiByte '\\' ∉ path.bytes) : '\\' ∉ path.shown.toList := by
  rw [toList_shown]
  exact fun hmem => h (asciiByte_mem_of_mem_shownFrom (by decide) hmem)

/-- A path is shown by showing its segments. -/
theorem written_shown (h : asciiByte '\\' ∉ path.bytes) :
    written path.shown = path.segments.map (·.shown.toList) := by
  have hsplit : splitAt '/' (shownFrom 0 path.bytes) =
      (splitAt slash path.bytes).map (shownFrom 0) :=
    splitAt_apply rfl (fun xs ys => shownFrom_append_cons (c := '/') (by decide) (Nat.zero_le _) ys)
      (fun xs => asciiByte_mem_of_mem_shownFrom (c := '/') (by decide)) path.bytes
  rw [written, slashed_of_not_mem (backslash_not_mem_shown h), toList_shown, hsplit, segments,
    List.map_map]
  exact List.map_congr_left fun bytes _ => (toList_shown ⟨bytes⟩).symm

theorem isAbsolute_shown (path : RawText) :
    Path.isAbsolute path.shown.toList = path.isAbsolute := by
  unfold Path.isAbsolute isAbsolute
  rw [toList_shown, decide_eq_decide, List.head?_eq_some_iff, List.head?_eq_some_iff]
  simp only [shownFrom_eq_cons_iff (c := '/') (by decide)]
  constructor
  · rintro ⟨cs, ys, hys, -⟩
    exact ⟨ys, hys⟩
  · rintro ⟨ys, hys⟩
    exact ⟨_, ys, hys, rfl⟩

theorem isAbsolute_ofString (s : String) : (ofString s).isAbsolute = Path.isAbsolute s.toList := by
  rw [← isAbsolute_shown, shown_ofString]

/-! ### Segments that are no names -/

theorem shown_eq_nil_iff {r : RawText} : r.shown.toList = [] ↔ r = ⟨[]⟩ := by
  rw [toList_shown, shownFrom_eq_nil_iff]
  constructor
  · exact fun h => congrArg mk h
  · rintro rfl
    rfl

theorem shown_eq_dot_iff {r : RawText} : r.shown.toList = ['.'] ↔ r = here := by
  obtain ⟨bytes⟩ := r
  rw [toList_shown, shownFrom_eq_cons_iff (by decide)]
  simp only [shownFrom_eq_nil_iff, exists_eq_right, here, mk.injEq]
  rfl

theorem shown_eq_dotDot_iff {r : RawText} : r.shown.toList = dotDot ↔ r = up := by
  obtain ⟨bytes⟩ := r
  rw [toList_shown, dotDot, shownFrom_eq_cons_iff (by decide)]
  simp only [shownFrom_eq_cons_iff (c := '.') (by decide), shownFrom_eq_nil_iff, exists_eq_right,
    up, mk.injEq]
  rfl

end ScriptAtlas.RawText
