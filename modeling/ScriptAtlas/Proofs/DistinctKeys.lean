import ScriptAtlas.Toml.Reader

/-! # Keys of tables

No table of a document that can be read has a key twice (`isProper_of_parse`). A document is made
by putting entries into its tables, and `put` changes the entry of a key that is there: so tables
stay without repetition through assignments and headers (`IsProper.assign`, `IsProper.atPath`), and
inline tables, which are made in the same way, have none either. For the values inside a text,
`Gives` follows a reader through its steps. -/

namespace ScriptAtlas.Toml

/-! ### Entries -/

section Entries

variable {α : Type} {entries : List (String × α)} {key k : String} {v w : α}

theorem mem_of_find?_eq_some (h : find? entries key = some v) : (key, v) ∈ entries := by
  obtain ⟨e, he, rfl⟩ := Option.map_eq_some_iff.mp h
  have hkey : e.1 = key := by simpa using List.find?_some he
  exact hkey ▸ List.mem_of_find?_eq_some he

theorem find?_cons (k : String) (w : α) (entries : List (String × α)) (key : String) :
    find? ((k, w) :: entries) key = if k = key then some w else find? entries key := by
  by_cases h : k = key <;> simp [find?, h]

theorem mem_put {e : String × α} (h : e ∈ put key v entries) : e = (key, v) ∨ e ∈ entries := by
  fun_induction put key v entries with
  | case1 => simpa using h
  | case2 old es => exact (List.mem_cons.mp h).imp_right (List.mem_cons_of_mem _)
  | case3 k old es hk ih =>
    rcases List.mem_cons.mp h with rfl | h
    · exact .inr (List.mem_cons_self ..)
    · exact (ih h).imp_right (List.mem_cons_of_mem _)

theorem nodup_keys_put (h : (entries.map (·.1)).Nodup) :
    ((put key v entries).map (·.1)).Nodup := by
  fun_induction put key v entries with
  | case1 => simp
  | case2 es old => simpa using h
  | case3 k old es hk ih =>
    simp only [List.map_cons, List.nodup_cons] at h ⊢
    refine ⟨fun hmem => ?_, ih h.2⟩
    obtain ⟨e, he, hek⟩ := List.mem_map.mp hmem
    rcases mem_put he with rfl | he
    · exact hk hek.symm
    · exact h.1 (hek ▸ List.mem_map_of_mem he)

end Entries

/-! ### Values and items -/

/-- No table in the value has a key twice. -/
inductive Value.IsProper : Value → Prop
  | text (s : String) : IsProper (.text s)
  | integer (n : Int) : IsProper (.integer n)
  | float (ok : Bool) : IsProper (.float ok)
  | boolean (b : Bool) : IsProper (.boolean b)
  | datetime : IsProper .datetime
  | list {items : List Value} (h : ∀ v ∈ items, IsProper v) : IsProper (.list items)
  | table {entries : List (String × Value)} (hkeys : (entries.map (·.1)).Nodup)
      (h : ∀ e ∈ entries, IsProper e.2) : IsProper (.table entries)

/-- No table in the item has a key twice. -/
inductive Item.IsProper : Item → Prop
  | value {v : Value} (h : v.IsProper) : IsProper (.value v)
  | table {origin : Origin} {entries : Entries} (hkeys : (entries.map (·.1)).Nodup)
      (h : ∀ e ∈ entries, IsProper e.2) : IsProper (.table origin entries)
  | tables {rows : List Entries} (hkeys : ∀ row ∈ rows, (row.map (·.1)).Nodup)
      (h : ∀ row ∈ rows, ∀ e ∈ row, IsProper e.2) : IsProper (.tables rows)

theorem toValues_eq_map (entries : Entries) :
    toValues entries = entries.map fun e => (e.1, e.2.toValue) := by
  induction entries with
  | nil => rw [toValues, List.map_nil]
  | cons e es ih => rw [toValues, ih, List.map_cons]

theorem rowValues_eq_map (rows : List Entries) :
    rowValues rows = rows.map fun row => .table (toValues row) := by
  induction rows with
  | nil => rw [rowValues, List.map_nil]
  | cons row rows ih => rw [rowValues, ih, List.map_cons]

theorem map_fst_toValues (entries : Entries) :
    (toValues entries).map (·.1) = entries.map (·.1) := by
  simp [toValues_eq_map, Function.comp_def]

theorem isProper_toValues {entries : Entries} (hkeys : (entries.map (·.1)).Nodup)
    (h : ∀ e ∈ entries, e.2.toValue.IsProper) : (Value.table (toValues entries)).IsProper := by
  refine .table (by rwa [map_fst_toValues]) fun e he => ?_
  rw [toValues_eq_map] at he
  obtain ⟨i, hi, rfl⟩ := List.mem_map.mp he
  exact h i hi

theorem Item.IsProper.toValue {i : Item} (h : i.IsProper) : i.toValue.IsProper := by
  induction h with
  | value h => rwa [Item.toValue]
  | table hkeys _ ih =>
    rw [Item.toValue]
    exact isProper_toValues hkeys ih
  | @tables rows hkeys _ ih =>
    rw [Item.toValue, rowValues_eq_map]
    refine .list fun v hv => ?_
    obtain ⟨row, hrow, rfl⟩ := List.mem_map.mp (List.mem_reverse.mp hv)
    exact isProper_toValues (hkeys row hrow) (ih row hrow)

/-! ### Making a document -/

namespace Entries

variable {es es' : Entries} {key : String} {i : Item} {v : Value}

/-- No table among the entries has a key twice, and they have none twice themselves. -/
def IsProper (es : Entries) : Prop := (es.map (·.1)).Nodup ∧ ∀ e ∈ es, e.2.IsProper

theorem IsProper.nil : IsProper [] := ⟨List.nodup_nil, by simp⟩

theorem IsProper.find? (h : IsProper es) (hi : Toml.find? es key = some i) : i.IsProper :=
  h.2 _ (mem_of_find?_eq_some hi)

theorem IsProper.put (h : IsProper es) (hi : i.IsProper) : IsProper (put key i es) := by
  refine ⟨nodup_keys_put h.1, fun e he => ?_⟩
  rcases mem_put he with rfl | he
  · exact hi
  · exact h.2 e he

theorem IsProper.toTable (h : IsProper es) (origin : Origin) : (Item.table origin es).IsProper :=
  .table h.1 h.2

theorem isProper_of_table {origin : Origin} (h : (Item.table origin es).IsProper) :
    IsProper es := by
  cases h with
  | table hkeys h => exact ⟨hkeys, h⟩

theorem isProper_tables_cons {rows : List Entries} :
    (Item.tables (es :: rows)).IsProper ↔ IsProper es ∧ (Item.tables rows).IsProper := by
  constructor
  · intro h
    cases h with
    | tables hkeys h =>
      exact ⟨⟨hkeys _ (List.mem_cons_self ..), h _ (List.mem_cons_self ..)⟩,
        .tables (fun r hr => hkeys r (List.mem_cons_of_mem _ hr))
          fun r hr => h r (List.mem_cons_of_mem _ hr)⟩
  · rintro ⟨hes, h⟩
    cases h with
    | tables hkeys h =>
      exact .tables (List.forall_mem_cons.mpr ⟨hes.1, hkeys⟩) (List.forall_mem_cons.mpr ⟨hes.2, h⟩)

/-- A change at a path keeps tables proper if it keeps the table at its end so. -/
theorem IsProper.atPath {change : Entries → Option Entries}
    (hchange : ∀ es es', IsProper es → change es = some es' → IsProper es') (path : List String)
    (h : IsProper es) (heq : atPath change path es = some es') : IsProper es' := by
  fun_induction Entries.atPath change path es generalizing es' with
  | case1 es => exact hchange es es' h heq
  | case2 es key path hfind ih =>
    obtain ⟨inner, hinner, heq⟩ := Option.bind_eq_some_iff.mp heq
    cases heq
    exact h.put ((ih IsProper.nil hinner).toTable _)
  | case3 es key path origin old hfind ih =>
    obtain ⟨inner, hinner, heq⟩ := Option.bind_eq_some_iff.mp heq
    cases heq
    exact h.put ((ih (isProper_of_table (h.find? hfind)) hinner).toTable _)
  | case4 es key path row rows hfind ih =>
    obtain ⟨inner, hinner, heq⟩ := Option.bind_eq_some_iff.mp heq
    cases heq
    obtain ⟨hrow, hrows⟩ := isProper_tables_cons.mp (h.find? hfind)
    exact h.put (isProper_tables_cons.mpr ⟨ih hrow hinner, hrows⟩)
  | case5 => cases heq

theorem IsProper.openTable (h : IsProper es) (heq : openTable key es = some es') :
    IsProper es' := by
  unfold Entries.openTable at heq
  split at heq
  · cases heq
    exact h.put (IsProper.nil.toTable _)
  · next inner hfind =>
    cases heq
    exact h.put ((isProper_of_table (h.find? hfind)).toTable _)
  · cases heq

theorem IsProper.openRow (h : IsProper es) (heq : openRow key es = some es') : IsProper es' := by
  unfold Entries.openRow at heq
  split at heq
  · cases heq
    exact h.put (isProper_tables_cons.mpr ⟨IsProper.nil, .tables (by simp) (by simp)⟩)
  · next rows hfind =>
    cases heq
    exact h.put (isProper_tables_cons.mpr ⟨IsProper.nil, h.find? hfind⟩)
  · cases heq

theorem IsProper.assign (hv : v.IsProper) (path : List String) (h : IsProper es)
    (heq : assign v path es = some es') : IsProper es' := by
  fun_induction Entries.assign v path es generalizing es' with
  | case1 => cases heq
  | case2 => cases heq
  | case3 es key hfind =>
    cases heq
    exact h.put (.value hv)
  | case4 es key path hpath hfind ih =>
    obtain ⟨inner, hinner, heq⟩ := Option.bind_eq_some_iff.mp heq
    cases heq
    exact h.put ((ih IsProper.nil hinner).toTable _)
  | case5 es key path hpath origin old hfind horigin ih =>
    obtain ⟨inner, hinner, heq⟩ := Option.bind_eq_some_iff.mp heq
    cases heq
    exact h.put ((ih (isProper_of_table (h.find? hfind)) hinner).toTable _)
  | case6 => cases heq
  | case7 => cases heq

end Entries

/-- The value that a statement assigns, if it does, is proper. -/
def Statement.IsProper : Statement → Prop
  | .assignment _ v => v.IsProper
  | _ => True

open Entries (IsProper.atPath IsProper.openTable IsProper.openRow IsProper.assign IsProper.nil)

theorem Draft.isProper_add {d d' : Draft} {s : Statement} (hs : s.IsProper)
    (h : Entries.IsProper d.root) (heq : d.add s = some d') : Entries.IsProper d'.root := by
  cases s with
  | header path =>
    obtain ⟨key, _, heq⟩ := Option.bind_eq_some_iff.mp heq
    obtain ⟨root, hroot, heq⟩ := Option.bind_eq_some_iff.mp heq
    cases heq
    exact h.atPath (fun _ _ h => h.openTable) _ hroot
  | rowHeader path =>
    obtain ⟨key, _, heq⟩ := Option.bind_eq_some_iff.mp heq
    obtain ⟨root, hroot, heq⟩ := Option.bind_eq_some_iff.mp heq
    cases heq
    exact h.atPath (fun _ _ h => h.openRow) _ hroot
  | assignment path v =>
    obtain ⟨root, hroot, heq⟩ := Option.bind_eq_some_iff.mp heq
    cases heq
    exact h.atPath (fun _ _ h => h.assign hs path) _ hroot

/-- What every step of a fold keeps, the fold keeps. -/
theorem foldlM_keeps {σ β : Type} {step : σ → β → Option σ} {P : σ → Prop} {xs : List β}
    (hstep : ∀ x ∈ xs, ∀ s s', P s → step s x = some s' → P s') {s s' : σ} (h : P s)
    (heq : xs.foldlM step s = some s') : P s' := by
  induction xs generalizing s with
  | nil => cases heq; exact h
  | cons x xs ih =>
    rw [List.foldlM_cons] at heq
    obtain ⟨t, ht, heq⟩ := Option.bind_eq_some_iff.mp heq
    exact ih (fun y hy => hstep y (List.mem_cons_of_mem _ hy))
      (hstep x (List.mem_cons_self ..) s t h ht) heq

theorem isProper_table_toValues {es : Entries} (h : Entries.IsProper es) :
    (Value.table (toValues es)).IsProper :=
  isProper_toValues h.1 fun e he => (h.2 e he).toValue

theorem isProper_ofStatements {ss : List Statement} {entries : List (String × Value)}
    (hss : ∀ s ∈ ss, s.IsProper) (heq : ofStatements ss = some entries) :
    (Value.table entries).IsProper := by
  obtain ⟨d, hd, heq⟩ := Option.bind_eq_some_iff.mp heq
  cases heq
  refine isProper_table_toValues (foldlM_keeps (P := fun d => Entries.IsProper d.root) ?_ .nil hd)
  exact fun s hs d d' h => Draft.isProper_add (hss s hs) h

theorem isProper_inlineTable {pairs : List (List String × Value)}
    {entries : List (String × Value)} (hpairs : ∀ p ∈ pairs, p.2.IsProper)
    (heq : inlineTable pairs = some entries) : (Value.table entries).IsProper := by
  obtain ⟨es, hes, heq⟩ := Option.bind_eq_some_iff.mp heq
  cases heq
  refine isProper_table_toValues (foldlM_keeps (P := Entries.IsProper) ?_ .nil hes)
  exact fun p hp es es' h => h.assign (hpairs p hp) p.1

/-! ### Reading -/

section Gives

variable {α β : Type} {r : Reader α} {f : α → Reader β} {P : α → Prop} {Q : β → Prop}

/-- Whatever the reader gives satisfies `P`. -/
def Gives (r : Reader α) (P : α → Prop) : Prop := ∀ cs a cs', r.run cs = some (a, cs') → P a

theorem Gives.any (r : Reader α) : Gives r fun _ => True := fun _ _ _ _ => trivial

theorem Gives.pure {a : α} (h : P a) : Gives (Pure.pure a) P := by
  intro cs b cs' heq
  cases heq
  exact h

theorem Gives.failure : Gives (failure : Reader α) P := by
  intro cs a cs' heq
  cases heq

theorem Gives.bind (hr : Gives r P) (hf : ∀ a, P a → Gives (f a) Q) : Gives (r >>= f) Q := by
  intro cs b cs' heq
  rw [StateT.run_bind] at heq
  obtain ⟨⟨a, mid⟩, ha, hb⟩ := Option.bind_eq_some_iff.mp heq
  exact hf a (hr cs a mid ha) mid b cs' hb

/-- The first part of a reader does not matter if the second always gives what is asked. -/
theorem Gives.after (hf : ∀ a, Gives (f a) Q) : Gives (r >>= f) Q :=
  (Gives.any r).bind fun a _ => hf a

theorem Gives.lift {o : Option α} (h : ∀ a, o = some a → P a) : Gives (liftM o : Reader α) P := by
  intro cs a cs' heq
  obtain ⟨b, hb, heq⟩ := Option.bind_eq_some_iff.mp heq
  cases heq
  exact h _ hb

end Gives

theorem gives_scalar : Gives scalar Value.IsProper := by
  unfold scalar
  refine Gives.after fun cs => Gives.after fun rest => ?_
  -- a date may go on behind a blank; both ways join where the word is told apart
  extract_lets told
  have htold : ∀ cs, Gives (told cs) Value.IsProper := by
    intro cs
    simp only [told]
    split
    · exact .pure (.boolean _)
    · split
      · exact .pure (.boolean _)
      · split
        · exact .pure (.integer _)
        · split
          · exact .pure (.float _)
          · split
            · exact .pure .datetime
            · exact .failure
  split
  · exact Gives.after fun _ => Gives.after fun _ => Gives.after htold
  · exact Gives.after htold

/-- Values, the items of lists and the entries of inline tables, by the depth to which they are
read. -/
theorem gives_value (n : Nat) :
    Gives (value n) Value.IsProper ∧ Gives (items n) (fun vs => ∀ v ∈ vs, v.IsProper) ∧
      Gives (pairs n) fun ps => ∀ p ∈ ps, p.2.IsProper := by
  induction n with
  | zero =>
    rw [value, items, pairs]
    exact ⟨.failure, .failure, .failure⟩
  | succ n ih =>
    obtain ⟨ihvalue, ihitems, ihpairs⟩ := ih
    rw [value, items, pairs]
    refine ⟨?_, ?_, ?_⟩
    · refine Gives.after fun s => ?_
      split
      · exact .pure (.text _)
      · refine Gives.after fun isList => ?_
        split
        · exact ihitems.bind fun vs hvs => .pure (.list hvs)
        · refine Gives.after fun isTable => ?_
          split
          · refine ihpairs.bind fun ps hps => Gives.bind (P := fun es => (Value.table es).IsProper)
              (Gives.lift fun es => isProper_inlineTable hps) fun es hes => .pure hes
          · exact gives_scalar
    · refine Gives.after fun _ => Gives.after fun isClosed => ?_
      split
      · exact .pure (by simp)
      · refine ihvalue.bind fun v hv => Gives.after fun _ => Gives.after fun hasNext => ?_
        split
        · exact ihitems.bind fun vs hvs => .pure (List.forall_mem_cons.mpr ⟨hv, hvs⟩)
        · exact Gives.after fun _ => .pure (by simpa using hv)
    · refine Gives.after fun _ => Gives.after fun isClosed => ?_
      split
      · exact .pure (by simp)
      · refine Gives.after fun key => Gives.after fun _ => Gives.after fun _ => ?_
        refine ihvalue.bind fun v hv => Gives.after fun _ => Gives.after fun hasNext => ?_
        split
        · exact ihpairs.bind fun ps hps => .pure (List.forall_mem_cons.mpr ⟨hv, hps⟩)
        · exact Gives.after fun _ => .pure (by simpa using hv)

theorem gives_statement : Gives statement Statement.IsProper := by
  unfold statement
  refine Gives.after fun isRow => ?_
  split
  · exact Gives.after fun path => Gives.after fun _ => .pure trivial
  · refine Gives.after fun isHeader => ?_
    split
    · exact Gives.after fun path => Gives.after fun _ => .pure trivial
    · refine Gives.after fun path => Gives.after fun _ => Gives.after fun _ =>
        Gives.after fun cs => ?_
      exact (gives_value _).1.bind fun v hv => .pure hv

theorem gives_statements (n : Nat) : Gives (statements n) fun ss => ∀ s ∈ ss, s.IsProper := by
  induction n with
  | zero =>
    rw [statements]
    exact .failure
  | succ n ih =>
    rw [statements]
    refine Gives.after fun _ => Gives.after fun cs => ?_
    split
    · exact .pure (by simp)
    · refine gives_statement.bind fun s hs => Gives.after fun _ => Gives.after fun _ =>
        Gives.after fun rest => ?_
      split
      · exact .pure (by simpa using hs)
      · refine Gives.after fun isEnded => ?_
        extract_lets more
        have hmore : ∀ u, Gives (more u) fun ss => ∀ s ∈ ss, s.IsProper := fun _ =>
          ih.bind fun ss hss => .pure (List.forall_mem_cons.mpr ⟨hs, hss⟩)
        split
        · exact hmore ()
        · exact Gives.after hmore

/-- No table of a document has a key twice. -/
theorem isProper_of_parse {text : String} {entries : List (String × Value)}
    (h : parse text = some entries) : (Value.table entries).IsProper := by
  obtain ⟨⟨ss, rest⟩, hss, h⟩ := Option.bind_eq_some_iff.mp h
  exact isProper_ofStatements (gives_statements _ _ ss rest hss) h

end ScriptAtlas.Toml
