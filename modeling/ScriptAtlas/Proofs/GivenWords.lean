import ScriptAtlas.CommandLine.Words
import ScriptAtlas.Proofs.RegularTrees

/-! # What the words of a command line give

`given` reads a command line without any checks: an option takes its value from behind the equals
sign or from the words that follow it, and every other word stands for itself. The reader with its
progress from word to word agrees with that on every line it accepts (`assigned_words`): each value
goes to the option before it or to the next position, none is lost and none is made up. -/

namespace ScriptAtlas.CommandLine

open Syntax (bind_eq_ok)

/-! ### Words and what they give -/

/-- Can the word be a value, as it does not look like an option? -/
def isPlain (w : String) : Bool :=
  match w.toList with
  | '-' :: _ :: _ => false
  | _ => true

/-- Something that a command line gives. -/
inductive Given where
  | option (name : String) (values : List String)
  | positional (word : String)
deriving DecidableEq, Repr

/-- The words at the front that an option of this arity takes for its values. -/
def Arity.valuesIn (arity : Arity) (ws : List String) : List String :=
  match arity with
  | .none => []
  | .one => (ws.takeWhile isPlain).take 1
  | .many => ws.takeWhile isPlain

/-- How many values an option takes. -/
def Layout.arityOf (layout : Layout) (name : String) : Arity :=
  ((layout.options.find? (·.name = name)).map (·.arity)).getD .none

/-- The option `w` with its values, attached or taken from the words `ws` behind it, and the words
that are left. -/
def Layout.takeOption (layout : Layout) (w : String) (ws : List String) : Given × List String :=
  match Progress.splitLong (w.toList.drop 2) with
  | (name, some v) => (.option name [v], ws)
  | (name, none) =>
    let values := (layout.arityOf name).valuesIn ws
    (.option name values, ws.drop values.length)

theorem Layout.length_takeOption_le (layout : Layout) (w : String) (ws : List String) :
    (layout.takeOption w ws).2.length ≤ ws.length := by
  unfold Layout.takeOption
  split
  · exact Nat.le_refl _
  · simp only [List.length_drop]
    omega

/-- What a command line gives. Behind two dashes all words stand for themselves. -/
def given (layout : Layout) : List String → List Given
  | [] => []
  | w :: ws =>
    if w = "--" then ws.map .positional
    else if isPlain w then .positional w :: given layout ws
    else (layout.takeOption w ws).1 :: given layout (layout.takeOption w ws).2
termination_by ws => ws.length
decreasing_by
  · simp
  · have := layout.length_takeOption_le w ws
    simp only [List.length_cons]
    omega

/-- The options in front of the first other word, and the words from there on. -/
def leading (layout : Layout) : List String → List Given × List String
  | [] => ([], [])
  | w :: ws =>
    if w = "--" || isPlain w then ([], w :: ws)
    else
      (leading layout (layout.takeOption w ws).2).map ((layout.takeOption w ws).1 :: ·) id
termination_by ws => ws.length
decreasing_by
  have := layout.length_takeOption_le w ws
  simp only [List.length_cons]
  omega

/-- The values that the positions and options of a layout get, with their names, when `k` positions
are filled. -/
def assignments (layout : Layout) : Nat → List Given → List (String × String)
  | _, [] => []
  | k, .option name values :: gs => values.map (name, ·) ++ assignments layout k gs
  | k, .positional w :: gs =>
    match layout.positions[k]? with
    | some o => (o.name, w) :: assignments layout (if o.arity = .many then k else k + 1) gs
    | none => assignments layout k gs

namespace Progress

variable {layout : Layout} {p q : Progress} {w : String} {ws : List String}

/-- All values read so far, with the names of their parameters. -/
def assigned (p : Progress) : List (String × String) :=
  (p.done ++ p.pending.toList).flatMap fun o => o.values.map (o.parameter.name, ·)

/-! ### One word -/

theorem accept_eq_ok {o : Occurrence} (h : p.accept o = .ok q) :
    q = { p with done := p.done ++ [o] } := by
  simp only [accept, bind, Except.bind, pure, Except.pure, throw, throwThe,
    MonadExceptOf.throw] at h
  split at h
  · cases h
  · split at h
    · cases h
    · split at h
      · cases h
      · cases h; rfl

theorem settle_eq_ok (h : p.settle = .ok q) :
    q = { p with done := p.done ++ p.pending.toList, pending := none, expecting := false } := by
  unfold settle at h
  split at h
  · next o hpending => rw [accept_eq_ok h, hpending]; rfl
  · next hpending => cases h; simp [hpending]

theorem assigned_settle (h : p.settle = .ok q) : q.assigned = p.assigned := by
  rw [settle_eq_ok h]
  simp [assigned]

theorem not_help_of_option_eq_ok {name : String} {attached : Option String}
    (h : p.option layout name attached = .ok q) :
    (name = "help" || (layout.hasVersion && name = "version")) = false := by
  rw [← Bool.not_eq_true]
  intro hhelp
  simp only [option, hhelp, if_true, bind, Except.bind, throw, throwThe,
    MonadExceptOf.throw] at h
  split at h
  · cases h
  · split at h <;> cases h

/-- What an option does: a value attached to it counts at once, and where none is attached but one
is needed, the words that follow are awaited. -/
theorem option_eq_ok {name : String} {attached : Option String}
    (h : p.option layout name attached = .ok q) :
    ∃ o, layout.options.find? (·.name = name) = some o ∧ q.filled = p.filled ∧
      q.escaped = p.escaped ∧ q.assigned = p.assigned ++ attached.toList.map (name, ·) ∧
      ((attached.isSome ∨ o.arity = .none) ∧ q.expecting = false ∨
        attached = none ∧ o.arity ≠ .none ∧ q.expecting = true ∧ q.pending = some ⟨o, []⟩) := by
  simp only [option, not_help_of_option_eq_ok h, Bool.false_eq_true, if_false] at h
  split at h
  · cases h
  · next o hfind =>
    obtain rfl : o.name = name := by simpa using List.find?_some hfind
    have haccepted : ∀ vs, (∃ p', p.settle = .ok p' ∧ p'.accept ⟨o, vs⟩ = .ok q) →
        q.filled = p.filled ∧ q.escaped = p.escaped ∧ q.expecting = false ∧
          q.assigned = p.assigned ++ vs.map (o.name, ·) := by
      rintro vs ⟨p', hsettle, haccept⟩
      rw [accept_eq_ok haccept, settle_eq_ok hsettle]
      simp [assigned]
    refine ⟨o, hfind, ?_⟩
    split at h
    · cases h
    · next harity =>
      obtain ⟨hfilled, hescaped, hexpecting, hassigned⟩ := haccepted [] (bind_eq_ok h)
      exact ⟨hfilled, hescaped, hassigned, .inl ⟨.inr harity, hexpecting⟩⟩
    · next v _ =>
      obtain ⟨hfilled, hescaped, hexpecting, hassigned⟩ := haccepted [v] (bind_eq_ok h)
      exact ⟨hfilled, hescaped, hassigned, .inl ⟨.inl rfl, hexpecting⟩⟩
    · next harity =>
      obtain ⟨p', hsettle, h⟩ := bind_eq_ok h
      cases h
      rw [settle_eq_ok hsettle]
      exact ⟨rfl, rfl, by simp [assigned], .inr ⟨rfl, harity, rfl, rfl⟩⟩

theorem positional_eq_ok (h : p.positional layout w = .ok q) :
    ∃ o, layout.positions[p.filled]? = some o ∧ q.assigned = p.assigned ++ [(o.name, w)] ∧
      q.filled = (if o.arity = .many then p.filled else p.filled + 1) ∧ q.escaped = p.escaped ∧
      (p.expecting = false → q.expecting = false) := by
  unfold positional at h
  split at h
  · split at h <;> cases h
  · next o hposition =>
    -- a value of a new occurrence, behind all that was read before
    have hnew : (do
        let p ← p.settle
        return { p with
          pending := some ⟨o, [w]⟩
          filled := if o.arity = .many then p.filled else p.filled + 1 }) = Except.ok q →
        q.assigned = p.assigned ++ [(o.name, w)] ∧
          q.filled = (if o.arity = .many then p.filled else p.filled + 1) ∧
          q.escaped = p.escaped ∧ (p.expecting = false → q.expecting = false) := by
      intro h
      obtain ⟨p', hsettle, h⟩ := bind_eq_ok h
      cases h
      rw [settle_eq_ok hsettle]
      simp [assigned]
    refine ⟨o, hposition, ?_⟩
    dsimp only at h
    split at h
    · next r values hpending =>
      split at h
      · next hsame =>
        cases h
        simp only [Bool.and_eq_true, decide_eq_true_eq] at hsame
        obtain ⟨rfl, harity⟩ := hsame
        simp [assigned, hpending, harity]
      · exact hnew h
    · exact hnew h

/-! ### Several words -/

/-- Does no value that is still awaited come next? -/
def Ready (p : Progress) (ws : List String) : Prop :=
  p.expecting = true → ∀ w ∈ ws.head?, isPlain w = false

theorem ready_of_not_expecting (h : p.expecting = false) (ws : List String) : p.Ready ws := by
  intro hexpecting
  rw [h] at hexpecting
  cases hexpecting

theorem Ready.not_expecting (h : p.Ready (w :: ws)) (hw : isPlain w = true) :
    p.expecting = false := by
  cases hexpecting : p.expecting with
  | false => rfl
  | true =>
    rw [h hexpecting w rfl] at hw
    cases hw

theorem word_of_isPlain (hescaped : p.escaped = false) (hw : isPlain w = true) :
    p.word layout w = if p.expecting then .ok (p.addValue w) else p.positional layout w := by
  simp only [word, hescaped, Bool.false_eq_true, if_false]
  unfold isPlain at hw
  split
  · next heq => simp [heq] at hw
  · next heq => simp [heq] at hw
  · next heq => simp [heq] at hw
  · split <;> rfl

theorem word_of_escaped (hescaped : p.escaped = true) :
    p.word layout w = p.positional layout w := by
  simp [word, hescaped]

theorem word_dashes (hescaped : p.escaped = false) :
    p.word layout "--" = .ok { p with escaped := true, expecting := false } := by
  simp only [word, hescaped, Bool.false_eq_true, if_false]
  rfl

/-- A word that is neither plain nor two dashes is a long option. -/
theorem option_of_word_eq_ok (hescaped : p.escaped = false) (hdashes : w ≠ "--")
    (hw : isPlain w = false) (h : p.word layout w = .ok q) :
    p.option layout (splitLong (w.toList.drop 2)).1 (splitLong (w.toList.drop 2)).2 = .ok q := by
  simp only [word, hescaped, Bool.false_eq_true, if_false] at h
  split at h
  · next heq => exact absurd (String.toList_inj.mp heq) hdashes
  · next cs _ heq => simpa [heq] using h
  · split at h
    · exact absurd (not_help_of_option_eq_ok h) (by simp)
    · split at h
      · next hversion =>
        have hnot := not_help_of_option_eq_ok h
        simp_all
      · cases h
  · next h1 h2 h3 =>
    unfold isPlain at hw
    split at hw
    · next c cs heq => exact absurd heq (h3 c cs)
    · cases hw

variable {r : Progress × Option (String × List String)}

theorem exists_word_of_words_eq_ok
    (hsub : p.expecting = true ∨ p.escaped = true ∨ w ∉ layout.subcommands)
    (h : p.words layout (w :: ws) = .ok r) :
    ∃ q, p.word layout w = .ok q ∧ q.words layout ws = .ok r := by
  rw [words, if_neg (by
    simp only [Bool.and_eq_true, Bool.not_eq_true', List.contains_iff_mem]
    rintro ⟨⟨hescaped, hexpecting⟩, hmem⟩
    simp_all)] at h
  exact bind_eq_ok h

theorem assigned_addValue {o : Parameter} {vs : List String} (hpending : p.pending = some ⟨o, vs⟩) :
    (p.addValue w).assigned = p.assigned ++ [(o.name, w)] := by
  simp [addValue, assigned, hpending]

/-- From `p` on, the values `vs` of an option were read, and the words `rest` are left. -/
structure Gains (p q : Progress) (vs : List (String × String)) (rest : List String) : Prop where
  assigned_eq : q.assigned = p.assigned ++ vs
  filled_eq : q.filled = p.filled
  escaped_eq : q.escaped = p.escaped
  ready : q.Ready rest

theorem Gains.none (h : p.Ready ws) : Gains p p [] ws := ⟨by simp, rfl, rfl, h⟩

/-- The values of an option are the plain words behind it, as many as it takes. -/
theorem words_values {o : Parameter} {vs : List String} (harity : o.arity ≠ .none)
    (hpending : p.pending = some ⟨o, vs⟩) (hexpecting : p.expecting = true)
    (hescaped : p.escaped = false) (h : p.words layout ws = .ok r) :
    ∃ q : Progress, q.words layout (ws.drop (o.arity.valuesIn ws).length) = .ok r ∧
      Gains p q ((o.arity.valuesIn ws).map (o.name, ·))
        (ws.drop (o.arity.valuesIn ws).length) := by
  induction ws generalizing p vs with
  | nil =>
    have hnone : o.arity.valuesIn [] = [] := by cases o.arity <;> rfl
    rw [hnone]
    exact ⟨p, h, .none (by simp [Ready])⟩
  | cons w ws ih =>
    by_cases hw : isPlain w = true
    · obtain ⟨q, hword, hrest⟩ := exists_word_of_words_eq_ok (.inl hexpecting) h
      rw [word_of_isPlain hescaped hw, if_pos hexpecting] at hword
      obtain rfl : p.addValue w = q := by cases hword; rfl
      have hassigned := assigned_addValue (w := w) hpending
      cases hcase : o.arity with
      | none => exact absurd hcase harity
      | one =>
        have hvalues : Arity.one.valuesIn (w :: ws) = [w] := by simp [Arity.valuesIn, hw]
        rw [hvalues]
        refine ⟨_, hrest, hassigned, ?_, ?_, ready_of_not_expecting ?_ ws⟩
        · simp [addValue, hpending]
        · simp [addValue, hpending]
        · simp [addValue, hpending, hcase]
      | many =>
        have hvalues : Arity.many.valuesIn (w :: ws) = w :: Arity.many.valuesIn ws := by
          simp [Arity.valuesIn, hw]
        have hnext : (p.addValue w).pending = some ⟨o, vs ++ [w]⟩ := by simp [addValue, hpending]
        have hawaits : (p.addValue w).expecting = true := by simp [addValue, hpending, hcase]
        have hsame : (p.addValue w).escaped = p.escaped := by simp [addValue, hpending]
        obtain ⟨q, hq, hgains⟩ := ih hnext hawaits (hsame.trans hescaped) hrest
        rw [hcase] at hq hgains
        rw [hvalues]
        refine ⟨q, hq, ?_, ?_, hgains.escaped_eq.trans hsame, hgains.ready⟩
        · rw [hgains.assigned_eq, hassigned, List.append_assoc]; rfl
        · rw [hgains.filled_eq]; simp [addValue, hpending]
    · have hnone : o.arity.valuesIn (w :: ws) = [] := by
        cases o.arity <;> simp [Arity.valuesIn, hw]
      rw [hnone]
      exact ⟨p, h, .none (by simpa [Ready] using fun _ => hw)⟩

/-- An option with its values. -/
theorem words_option (hescaped : p.escaped = false) (hdashes : w ≠ "--") (hw : isPlain w = false)
    (hsub : w ∉ layout.subcommands) (h : p.words layout (w :: ws) = .ok r) :
    ∃ (name : String) (values : List String) (q : Progress),
      (layout.takeOption w ws).1 = .option name values ∧ (∃ o ∈ layout.options, o.name = name) ∧
      q.words layout (layout.takeOption w ws).2 = .ok r ∧
      Gains p q (values.map (name, ·)) (layout.takeOption w ws).2 := by
  obtain ⟨q, hword, hrest⟩ := exists_word_of_words_eq_ok (.inr (.inr hsub)) h
  have hoption := option_of_word_eq_ok hescaped hdashes hw hword
  unfold Layout.takeOption
  generalize splitLong (w.toList.drop 2) = long at hoption ⊢
  obtain ⟨name, attached⟩ := long
  obtain ⟨o, hfind, hfilled, hkept, hassigned, hcase⟩ := option_eq_ok hoption
  have hname : o.name = name := by simpa using List.find?_some hfind
  have hknown : ∃ o ∈ layout.options, o.name = name :=
    ⟨o, List.mem_of_find?_eq_some hfind, hname⟩
  cases attached with
  | some v =>
    refine ⟨name, [v], q, rfl, hknown, hrest, hassigned, hfilled, hkept, ?_⟩
    rcases hcase with ⟨-, hexpecting⟩ | ⟨hnone, -⟩
    · exact ready_of_not_expecting hexpecting ws
    · cases hnone
  | none =>
    have harity : layout.arityOf name = o.arity := by simp [Layout.arityOf, hfind]
    rcases hcase with ⟨hnone | hnone, hexpecting⟩ | ⟨-, hsome, hexpecting, hpending⟩
    · cases hnone
    · have hvalues : (layout.arityOf name).valuesIn ws = [] := by rw [harity, hnone]; rfl
      dsimp only
      rw [hvalues]
      exact ⟨name, [], q, rfl, hknown, hrest, hassigned, hfilled, hkept,
        ready_of_not_expecting hexpecting ws⟩
    · obtain ⟨q', hrest', hgains⟩ :=
        words_values hsome hpending hexpecting (hkept.trans hescaped) hrest
      rw [← harity, hname] at hgains
      rw [← harity] at hrest'
      refine ⟨name, _, q', rfl, hknown, hrest', ?_, hgains.filled_eq.trans hfilled,
        hgains.escaped_eq.trans hkept, hgains.ready⟩
      rw [hgains.assigned_eq, hassigned]
      simp

/-! ### All words -/

/-- All options are options of the layout. -/
def Known (layout : Layout) (gs : List Given) : Prop :=
  ∀ name values, Given.option name values ∈ gs → ∃ o ∈ layout.options, o.name = name

theorem Known.cons {gs : List Given} {name : String} {values : List String}
    (h : Known layout gs) (hname : ∃ o ∈ layout.options, o.name = name) :
    Known layout (.option name values :: gs) := by
  intro n vs hmem
  rcases List.mem_cons.mp hmem with heq | hmem
  · cases heq
    exact hname
  · exact h n vs hmem

theorem Known.tail {g : Given} {gs : List Given} (h : Known layout (g :: gs)) :
    Known layout gs :=
  fun name values hmem => h name values (List.mem_cons_of_mem _ hmem)

theorem assigned_positional (hescaped : p.escaped = true) (h : p.words layout ws = .ok r) :
    r.2 = none ∧
      r.1.assigned = p.assigned ++ assignments layout p.filled (ws.map .positional) := by
  induction ws generalizing p with
  | nil =>
    cases h
    simp [assignments]
  | cons w ws ih =>
    obtain ⟨q, hword, hrest⟩ := exists_word_of_words_eq_ok (.inr (.inl hescaped)) h
    rw [word_of_escaped hescaped] at hword
    obtain ⟨o, hposition, hassigned, hfilled, hkept, -⟩ := positional_eq_ok hword
    obtain ⟨hnone, hrest⟩ := ih (hkept.trans hescaped) hrest
    refine ⟨hnone, ?_⟩
    rw [hrest, hassigned, hfilled, List.map_cons, assignments, hposition]
    simp

/-- **Each value is read for what it is given for**, if there are no subcommands. -/
theorem assigned_words (hsub : layout.subcommands = []) (hescaped : p.escaped = false)
    (hready : p.Ready ws) (h : p.words layout ws = .ok r) :
    r.2 = none ∧ Known layout (given layout ws) ∧
      r.1.assigned = p.assigned ++ assignments layout p.filled (given layout ws) := by
  induction ws using given.induct layout generalizing p with
  | case1 =>
    cases h
    rw [given]
    exact ⟨rfl, by simp [Known], by simp [assignments]⟩
  | case2 ws =>
    obtain ⟨q, hword, hrest⟩ := exists_word_of_words_eq_ok (.inr (.inr (by simp [hsub]))) h
    rw [word_dashes hescaped] at hword
    cases hword
    obtain ⟨hnone, hrest⟩ := assigned_positional rfl hrest
    rw [given, if_pos rfl]
    exact ⟨hnone, by simp [Known], hrest⟩
  | case3 w ws hdashes hw ih =>
    have hexpecting := hready.not_expecting hw
    obtain ⟨q, hword, hrest⟩ := exists_word_of_words_eq_ok (.inr (.inr (by simp [hsub]))) h
    rw [word_of_isPlain hescaped hw, if_neg (by simp [hexpecting])] at hword
    obtain ⟨o, hposition, hassigned, hfilled, hkept, hawaits⟩ := positional_eq_ok hword
    obtain ⟨hnone, hknown, hrest⟩ :=
      ih (hkept.trans hescaped) (ready_of_not_expecting (hawaits hexpecting) ws) hrest
    rw [given, if_neg hdashes, if_pos hw]
    refine ⟨hnone, by simpa [Known] using hknown, ?_⟩
    rw [hrest, hassigned, hfilled, assignments, hposition]
    simp
  | case4 w ws hdashes hw ih =>
    obtain ⟨name, values, q, htake, hoption, hrest, hgains⟩ :=
      words_option hescaped hdashes (by simpa using hw) (by simp [hsub]) h
    obtain ⟨hnone, hknown, hrest⟩ :=
      ih (hgains.escaped_eq.trans hescaped) hgains.ready hrest
    rw [given, if_neg hdashes, if_neg hw, htake]
    refine ⟨hnone, hknown.cons hoption, ?_⟩
    rw [hrest, hgains.assigned_eq, hgains.filled_eq, assignments, List.append_assoc]

/-- A subcommand is the first word that is no option and no value of one. -/
theorem leading_words {sub : String} {rest : List String} (hpositions : layout.positions = [])
    (hsubs : ∀ s ∈ layout.subcommands, isPlain s = true) (hescaped : p.escaped = false)
    (hready : p.Ready ws) (h : p.words layout ws = .ok (q, some (sub, rest))) :
    ∃ gs, leading layout ws = (gs, sub :: rest) ∧ Known layout gs ∧
      ∀ w, Given.positional w ∉ gs := by
  induction ws using leading.induct layout generalizing p with
  | case1 => cases h
  | case2 w ws hfirst =>
    rw [leading, if_pos hfirst]
    by_cases hmem : w ∈ layout.subcommands
    · have hexpecting := hready.not_expecting (hsubs w hmem)
      rw [words, if_pos (by simp [hescaped, hexpecting, hmem])] at h
      cases h
      exact ⟨[], rfl, by simp [Known], by simp⟩
    · exfalso
      obtain ⟨q', hword, hrest⟩ := exists_word_of_words_eq_ok (.inr (.inr hmem)) h
      rcases Bool.or_eq_true_iff.mp hfirst with hdashes | hw
      · obtain rfl : w = "--" := by simpa using hdashes
        rw [word_dashes hescaped] at hword
        cases hword
        cases (assigned_positional rfl hrest).1
      · rw [word_of_isPlain hescaped hw, if_neg (by simp [hready.not_expecting hw])] at hword
        obtain ⟨o, hposition, -⟩ := positional_eq_ok hword
        simp [hpositions] at hposition
  | case3 w ws hfirst ih =>
    obtain ⟨hdashes, hw⟩ : w ≠ "--" ∧ isPlain w = false := by simpa using hfirst
    have hmem : w ∉ layout.subcommands := fun hmem => by simp [hsubs w hmem] at hw
    obtain ⟨name, values, q', htake, hoption, hrest, hgains⟩ :=
      words_option hescaped hdashes hw hmem h
    obtain ⟨gs, hleading, hknown, hpositional⟩ :=
      ih (hgains.escaped_eq.trans hescaped) hgains.ready hrest
    rw [leading, if_neg hfirst, hleading, htake]
    exact ⟨_, rfl, hknown.cons hoption, by simpa using hpositional⟩

end Progress

end ScriptAtlas.CommandLine
