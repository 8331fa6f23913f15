import ScriptAtlas.Output.Record
import ScriptAtlas.Proofs.PrettyText
import ScriptAtlas.Proofs.ValueReading
import ScriptAtlas.Proofs.WordSets

/-! # Printed answers are read back

An answer is written as a JSON value and printed. `ReadBack` says of one answer that its value can
be printed and that the value gives the answer back; it passes from items to lists
(`ReadBack.list`) and from the parts of a record to the record. With the reader of values, which
takes every printed value back, no answer loses anything in print (`pretty_tells_answers`). -/

namespace ScriptAtlas

namespace Json

variable {α : Type} {v : Json} {key other : String} {fields : List (String × Json)}
  {write : α → Json} {read : Json → Option α} {a : α}

/-- The text is one of the spellings of `v`, and what is read from it gives `a`. -/
structure Tells (text : String) (v : Json) (read : Json → Option α) (a : α) : Prop where
  spelled : v.Spelled text
  decoded : (ofText? text).bind read = some a

/-- The value of `a` can be printed, and gives `a` back. -/
structure ReadBack (write : α → Json) (read : Json → Option α) (a : α) : Prop where
  sound : (write a).Sound
  read_write : read (write a) = some a

theorem ReadBack.tells (h : ReadBack write read a) {blanks : String}
    (hblanks : Gap blanks.toList) : Tells ((write a).pretty ++ blanks) (write a) read a := by
  have hspelled := h.sound.spelled_pretty blanks hblanks
  refine ⟨hspelled, ?_⟩
  rw [ofText?_eq_some hspelled, Option.bind_some, h.read_write]

/-! ### Parts of records -/

theorem ReadBack.text (s : String) : ReadBack .text text? s := ⟨.text s, rfl⟩

theorem ReadBack.list (as : List α) (h : ∀ a ∈ as, ReadBack write read a) :
    ReadBack (fun as => .list (as.map write)) (listOf? read) as := by
  constructor
  · refine .list fun v hv => ?_
    obtain ⟨a, ha, rfl⟩ := List.mem_map.mp hv
    exact (h a ha).sound
  · show (as.map write).mapM read = some as
    induction as with
    | nil => rfl
    | cons a as ih =>
      rw [List.forall_mem_cons] at h
      simp [h.1.read_write, ih h.2]

theorem ReadBack.texts (ss : List String) : ReadBack texts (listOf? text?) ss :=
  .list ss fun s _ => .text s

theorem ReadBack.ofNat (n : Nat) : ReadBack ofNat nat? n := by
  refine ⟨sound_ofNat n, ?_⟩
  have hdigits : (Nat.toDigits 10 n).all Char.isDigit = true := by
    rw [List.all_eq_true]
    exact fun d hd => Nat.isDigit_of_mem_toDigits (by decide) (by decide) hd
  have hvalue := Nat.ofDigitChars_ten_toDigits (n := n)
  rw [Nat.ofDigitChars_eq_foldl] at hvalue
  unfold Json.ofNat nat?
  rw [Nat.toString_eq_ofList_toDigits]
  dsimp only
  rw [String.toList_ofList, hdigits]
  simpa [Nat.mul_comm] using hvalue

@[simp]
theorem texts_ne_null (ss : List String) : texts ss ≠ .null := by simp [texts]

@[simp]
theorem ofNat_ne_null (n : Nat) : ofNat n ≠ .null := by simp [ofNat]

@[simp]
theorem field?_nil (key : String) : field? (.object []) key = none := rfl

@[simp]
theorem field?_null (key : String) (fields : List (String × Json)) :
    field? (.object ((key, .null) :: fields)) key = none := by
  simp [field?]

@[simp]
theorem field?_self (h : v ≠ .null) : field? (.object ((key, v) :: fields)) key = some v := by
  cases v <;> simp [field?] at h ⊢

@[simp]
theorem field?_of_ne (h : other ≠ key) :
    field? (.object ((other, v) :: fields)) key = field? (.object fields) key := by
  simp [field?, h]

end Json

open Json

namespace Function

/-! ### Records -/

theorem Dependency.readBack (d : Dependency) : ReadBack toJson ofJson? d := by
  constructor
  · exact .object (by simp [Sound.text])
  · simp [ofJson?, toJson, get?, text?]

theorem Dependencies.readBack (d : Dependencies) : ReadBack toJson ofJson? d := by
  obtain ⟨target, targetFile, dependencies⟩ := d
  have hlist := ReadBack.list dependencies fun d _ => d.readBack
  constructor
  · refine .object ?_
    cases target <;> cases targetFile <;>
      simp [Json.optional, Sound.text, Sound.null, hlist.sound]
  · have hread := hlist.read_write
    cases target <;> cases targetFile <;>
      simp [ofJson?, toJson, get?, text?, optionalText?, Json.optional, isObject, hread]

theorem Caller.readBack (c : Caller) : ReadBack toJson ofJson? c := by
  obtain ⟨name, content, file⟩ := c
  constructor
  · refine .object ?_
    cases file <;> simp [Json.optional, Sound.text]
  · cases file <;> simp [ofJson?, toJson, get?, text?, optionalText?, Json.optional, isObject]

theorem Callers.readBack (c : Callers) : ReadBack toJson ofJson? c := by
  have hlist := ReadBack.list c.callers fun c _ => c.readBack
  constructor
  · exact .object (by simp [Sound.text, hlist.sound])
  · simp [ofJson?, toJson, get?, text?, hlist.read_write]

theorem Finding.readBack (f : Finding) (hwords : f.foundKeywords.Pairwise (· < ·)) :
    ReadBack toJson ofJson? f := by
  obtain ⟨functionName, foundKeywords, content, file⟩ := f
  have hlist := ReadBack.texts foundKeywords
  constructor
  · refine .object ?_
    cases file <;> simp [Json.optional, Sound.text, hlist.sound]
  · have hread := hlist.read_write
    have hset : wordSet foundKeywords = foundKeywords := wordSet_eq_self hwords
    cases file <;>
      simp [ofJson?, toJson, get?, text?, optionalText?, Json.optional, isObject, hread, hset]

theorem Ranked.readBack (r : Ranked) : ReadBack toJson ofJson? r := by
  have hnat := ReadBack.ofNat r.complexity
  constructor
  · exact .object (by simp [Sound.text, hnat.sound])
  · simp [ofJson?, toJson, get?, text?, hnat.read_write]

end Function

namespace ModuleGraph

theorem Edge.readBack (e : Edge) : ReadBack toJson ofJson? e := by
  constructor
  · exact .object (by simp [Sound.text])
  · simp [ofJson?, toJson, get?, text?]

theorem Hub.readBack (h : Hub) : ReadBack toJson ofJson? h := by
  have hnat := ReadBack.ofNat h.importers
  constructor
  · exact .object (by simp [Sound.text, hnat.sound])
  · simp [ofJson?, toJson, get?, text?, hnat.read_write]

end ModuleGraph

theorem GraphReport.readBack (r : GraphReport) : ReadBack toJson ofJson? r := by
  have hnodes := ReadBack.texts r.nodes
  have hedges := ReadBack.list r.edges fun e _ => e.readBack
  have hcycles := ReadBack.list r.cycles fun c _ => .texts c
  have hhubs := ReadBack.list r.hubs fun h _ => h.readBack
  have horphans := ReadBack.texts r.orphans
  constructor
  · exact .object (by
      simp [hnodes.sound, hedges.sound, hcycles.sound, hhubs.sound, horphans.sound])
  · simp [ofJson?, toJson, get?, hnodes.read_write, hedges.read_write, hcycles.read_write,
      hhubs.read_write, horphans.read_write]

/-- **Nothing is lost in print.** The printed text of every answer, with any blanks behind it (a new
line, or nothing), is a spelling of its value, and the answer is read back from it. The keywords of
a finding are a set, in ascending order. -/
theorem pretty_tells_answers (blanks : String) (hblanks : ∀ c ∈ blanks.toList, isGap c = true) :
    (∀ d : Function.Dependencies,
      Tells (d.toJson.pretty ++ blanks) d.toJson Function.Dependencies.ofJson? d) ∧
    (∀ c : Function.Callers,
      Tells (c.toJson.pretty ++ blanks) c.toJson Function.Callers.ofJson? c) ∧
    (∀ fs : List Function.Finding, (∀ f ∈ fs, f.foundKeywords.Pairwise (· < ·)) →
      let v := Json.list (fs.map (·.toJson))
      Tells (v.pretty ++ blanks) v (listOf? Function.Finding.ofJson?) fs) ∧
    (∀ r : GraphReport, Tells (r.toJson.pretty ++ blanks) r.toJson GraphReport.ofJson? r) ∧
    ∀ rs : List Function.Ranked,
      let v := Json.list (rs.map (·.toJson))
      Tells (v.pretty ++ blanks) v (listOf? Function.Ranked.ofJson?) rs := by
  have hgap : Gap blanks.toList := fun c hc => isGap_iff.mp (hblanks c hc)
  refine ⟨fun d => d.readBack.tells hgap, fun c => c.readBack.tells hgap, fun fs hfs => ?_,
    fun r => r.readBack.tells hgap, fun rs => ?_⟩
  · exact (ReadBack.list fs fun f hf => f.readBack (hfs f hf)).tells hgap
  · exact (ReadBack.list rs fun r _ => r.readBack).tells hgap

/-- A finding with quotes, a backslash, control characters and characters beyond ASCII. -/
def oddFinding : Function.Finding := ⟨"f\x00", ["\"", "\\n", "é😀"], "\t\x1f\r\n/", none⟩

theorem pretty_tells_answers_oddFinding :
    let v := Json.list ([oddFinding].map (·.toJson))
    oddFinding.foundKeywords.Pairwise (· < ·) ∧
      Tells (v.pretty ++ "\n") v (listOf? Function.Finding.ofJson?) [oddFinding] := by
  have hwords : oddFinding.foundKeywords.Pairwise (· < ·) := by decide +kernel
  obtain ⟨-, -, hfindings, -, -⟩ := pretty_tells_answers "\n" (by simp [isGap])
  exact ⟨hwords, hfindings [oddFinding] (by simpa using hwords)⟩

end ScriptAtlas
