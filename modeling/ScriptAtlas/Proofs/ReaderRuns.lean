import ScriptAtlas.Json.Reader

/-! # Runs of readers

What a reader does depends on the text before it and not on the place it has reached: `Reads` says
that it succeeds, with what it gives and leaves, `Passes` only what it leaves, and `Fails` that it
does not succeed. All three follow the steps of a reader (`Reads.bind`, `Passes.bind`, `Fails.bind`,
`Fails.after`), so a reader is run by the runs of its parts. `Yields` compares a reader with a
partial function. -/

namespace ScriptAtlas.Json

variable {α β : Type} {r : Reader α} {f : α → Reader β} {a : α} {b : β} {c : Char}
  {cs ds rest : List Char} {p : Problem}

/-- The reader gives `a` and leaves `rest` of `cs`. -/
def Reads (r : Reader α) (cs : List Char) (a : α) (rest : List Char) : Prop :=
  ∀ pos, ∃ pos', r.run ⟨pos, cs⟩ = .ok (a, ⟨pos', rest⟩)

/-- The reader leaves `rest` of `cs`; what it gives may tell the place it was at. -/
def Passes (r : Reader α) (cs rest : List Char) : Prop :=
  ∀ pos, ∃ a pos', r.run ⟨pos, cs⟩ = .ok (a, ⟨pos', rest⟩)

/-- The reader does not succeed on `cs`. -/
def Fails (r : Reader α) (cs : List Char) : Prop := ∀ pos, ∃ e, r.run ⟨pos, cs⟩ = .error e

/-! ### Steps -/

theorem Reads.pure (a : α) (cs : List Char) : Reads (Pure.pure a : Reader α) cs a cs :=
  fun pos => ⟨pos, rfl⟩

theorem Reads.bind (h : Reads r cs a ds) (hf : Reads (f a) ds b rest) :
    Reads (r >>= f) cs b rest := by
  intro pos
  obtain ⟨mid, hr⟩ := h pos
  obtain ⟨pos', hb⟩ := hf mid
  refine ⟨pos', ?_⟩
  rw [StateT.run_bind, hr]
  exact hb

theorem Fails.bind (h : Fails r cs) : Fails (r >>= f) cs := by
  intro pos
  obtain ⟨e, hr⟩ := h pos
  refine ⟨e, ?_⟩
  rw [StateT.run_bind, hr]
  rfl

/-- A reader fails if it fails behind its first part. -/
theorem Reads.fails (h : Reads r cs a ds) (hf : Fails (f a) ds) : Fails (r >>= f) cs := by
  intro pos
  obtain ⟨mid, hr⟩ := h pos
  obtain ⟨e, hb⟩ := hf mid
  refine ⟨e, ?_⟩
  rw [StateT.run_bind, hr]
  exact hb

/-- A reader whose second part always fails does so whatever the first part finds. -/
theorem Fails.after (hf : ∀ a ds, Fails (f a) ds) : Fails (r >>= f) cs := by
  intro pos
  rw [StateT.run_bind]
  cases hr : r.run ⟨pos, cs⟩ with
  | error e => exact ⟨e, rfl⟩
  | ok found => exact hf found.1 found.2.rest found.2.pos

/-- A reader may look at the place it has reached. -/
theorem Reads.get {f : Cursor → Reader β} (h : ∀ pos, Reads (f ⟨pos, cs⟩) cs b rest) :
    Reads (get >>= f) cs b rest :=
  fun pos => h pos pos

theorem Fails.get {f : Cursor → Reader β} (h : ∀ pos, Fails (f ⟨pos, cs⟩) cs) :
    Fails (get >>= f) cs :=
  fun pos => h pos pos

theorem Reads.set (pos : Nat) (cs rest : List Char) :
    Reads (set (⟨pos, rest⟩ : Cursor)) cs ⟨⟩ rest :=
  fun _ => ⟨pos, rfl⟩

theorem Reads.passes (h : Reads r cs a rest) : Passes r cs rest := fun pos => ⟨a, h pos⟩

theorem Passes.bind (h : Passes r cs ds) (hf : ∀ a, Passes (f a) ds rest) :
    Passes (r >>= f) cs rest := by
  intro pos
  obtain ⟨a, mid, hr⟩ := h pos
  obtain ⟨b, pos', hb⟩ := hf a mid
  refine ⟨b, pos', ?_⟩
  rw [StateT.run_bind, hr]
  exact hb

theorem Reads.then (h : Reads r cs a ds) (hf : Passes (f a) ds rest) :
    Passes (r >>= f) cs rest := by
  intro pos
  obtain ⟨mid, hr⟩ := h pos
  obtain ⟨b, pos', hb⟩ := hf mid
  refine ⟨b, pos', ?_⟩
  rw [StateT.run_bind, hr]
  exact hb

theorem Passes.get {f : Cursor → Reader β} (h : ∀ pos, Passes (f ⟨pos, cs⟩) cs rest) :
    Passes (get >>= f) cs rest :=
  fun pos => h pos pos

/-- Without what it gives, a reader does not tell its place. -/
theorem Passes.discard (h : Passes r cs rest) : Reads (discard r) cs ⟨⟩ rest := by
  intro pos
  obtain ⟨a, pos', hr⟩ := h pos
  refine ⟨pos', ?_⟩
  show ((fun _ => PUnit.unit) <$> r).run _ = _
  rw [StateT.run_map, hr]
  rfl

/-! ### Readers and partial functions -/

section Yields

variable {o : Option α} {g : α → Option β} {q : Option β} {P Q : List Char → Prop}

/-- The reader gives what `o` says and leaves what `P` tells, or fails if `o` says nothing. -/
def Yields (r : Reader α) (cs : List Char) (o : Option α) (P : List Char → Prop) : Prop :=
  match o with
  | some a => ∃ rest, Reads r cs a rest ∧ P rest
  | none => Fails r cs

theorem Yields.pure (a : α) (h : P cs) : Yields (Pure.pure a) cs (some a) P := ⟨cs, .pure a cs, h⟩

theorem Reads.yields (hr : Reads r cs a rest) (h : Yields (f a) rest q Q) :
    Yields (r >>= f) cs q Q := by
  cases q with
  | none => exact hr.fails h
  | some b =>
    obtain ⟨left, hb, hleft⟩ := h
    exact ⟨left, hr.bind hb, hleft⟩

theorem Yields.bind (h : Yields r cs o P) (hf : ∀ a rest, P rest → Yields (f a) rest (g a) Q) :
    Yields (r >>= f) cs (o.bind g) Q := by
  cases o with
  | none => exact Fails.bind h
  | some a =>
    obtain ⟨rest, hr, hrest⟩ := h
    exact hr.yields (hf a rest hrest)

/-- A reader may look at the text before it. -/
theorem Yields.get {f : Cursor → Reader β} {r : Reader β} (hf : ∀ pos, f ⟨pos, cs⟩ = r)
    (h : Yields r cs q Q) : Yields (get >>= f) cs q Q := by
  cases q with
  | none => exact .get fun pos => hf pos ▸ h
  | some b =>
    obtain ⟨rest, hr, hrest⟩ := h
    exact ⟨rest, .get fun pos => hf pos ▸ hr, hrest⟩

end Yields

/-! ### Failures -/

theorem fails_failHere (p : Problem) (cs : List Char) : Fails (failHere p : Reader α) cs :=
  fun pos => ⟨⟨p, pos⟩, rfl⟩

theorem fails_failNext (p : Problem) (cs : List Char) : Fails (failNext p : Reader α) cs :=
  fun pos => ⟨⟨p, if cs.isEmpty then pos else pos + 1⟩, rfl⟩

/-! ### Characters and gaps -/

theorem reads_next? (cs : List Char) : Reads next? cs cs.head? cs := fun pos => ⟨pos, rfl⟩

theorem reads_sees (c : Char) (cs : List Char) : Reads (sees c) cs (cs.head? == some c) cs :=
  fun pos => ⟨pos, rfl⟩

theorem reads_skip (c : Char) (cs : List Char) : Reads skip (c :: cs) () cs :=
  fun pos => ⟨pos + c.utf8Size, rfl⟩

theorem reads_skipGap (h : cs.dropWhile isGap = ds) : Reads skipGap cs () ds :=
  fun pos => ⟨pos + (cs.takeWhile isGap).length, h ▸ rfl⟩

theorem reads_takeDigits (cs : List Char) :
    Reads takeDigits cs (cs.takeWhile Char.isDigit) (cs.dropWhile Char.isDigit) :=
  fun pos => ⟨pos + (cs.takeWhile Char.isDigit).length, rfl⟩

theorem reads_nextInText (c : Char) (cs : List Char) : Reads nextInText (c :: cs) c (c :: cs) :=
  fun pos => ⟨pos, rfl⟩

theorem reads_word (w cs : List Char) : Reads (word w) (w ++ cs) () cs := by
  induction w with
  | nil => exact .pure _ _
  | cons c w ih =>
    unfold word
    refine .bind (reads_next? _) ?_
    show Reads (if c = c then _ else _) _ _ _
    rw [if_pos rfl]
    exact .bind (reads_skip c _) ih

/-- Behind blanks there must be something to read. -/
theorem reads_toValue (h : cs.dropWhile isGap = c :: ds) : Reads toValue cs () (c :: ds) := by
  unfold toValue
  refine .bind (reads_skipGap h) (.bind (reads_next? _) ?_)
  exact .pure _ _

/-- A reader that looks at the first character behind blanks. -/
theorem Reads.afterGap {f : Option Char → Reader β} (h : cs.dropWhile isGap = ds)
    (hf : Reads (f ds.head?) ds b rest) : Reads (do skipGap; f (← next?)) cs b rest :=
  .bind (reads_skipGap h) (.bind (reads_next? ds) hf)

/-- A reader that looks at the first character of a value. -/
theorem Reads.atValue {f : Option Char → Reader β} (h : cs.dropWhile isGap = c :: ds)
    (hf : Reads (f (some c)) (c :: ds) b rest) : Reads (do toValue; f (← next?)) cs b rest :=
  .bind (reads_toValue h) (.bind (reads_next? _) hf)

end ScriptAtlas.Json
