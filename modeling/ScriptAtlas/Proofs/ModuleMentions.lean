import Mathlib.Data.List.Forall2
import ScriptAtlas.Import
import ScriptAtlas.Proofs.RegularGrammar

/-! # Which mentions of modules are found

`IsMention` says which nodes mention a module, and `mention?` decides it. A file tells one record
for each of them, in the order of the text, wherever they stand, with one exception: what stands in
the options of `import(name, options)` is not looked at (`records_exact`). Two declarations are not
searched either, but in the tree of a file they have no children. -/

namespace ScriptAtlas.Import

open Syntax

/-! ### Mentions -/

/-- The node mentions the module that the record names, in the form that it says. -/
inductive IsMention (n : Node) : Record → Prop where
  | importFrom {source : String} (hkind : n.kind = .importFrom source) :
      IsMention n ⟨source, .static⟩
  | exportAll {source : String} (hkind : n.kind = .exportAll source) :
      IsMention n ⟨source, .reexport⟩
  | exportFrom {source : String} (hkind : n.kind = .exportFrom source) :
      IsMention n ⟨source, .reexport⟩
  | importCall {name : Node} {value : String} (hkind : n.kind = .importCall)
      (hname : n.children.head? = some name) (hvalue : name.kind = .text value) :
      IsMention n ⟨value, .dynamic⟩
  | require {callee argument : Node} {value : String} (hkind : n.kind = .call)
      (hcallee : n.children.head? = some callee) (hname : callee.kind = .identifier "require")
      (harguments : n.arguments = [argument]) (hvalue : argument.kind = .text value) :
      IsMention n ⟨value, .require⟩

/-- The module that the node itself mentions. -/
def mention? (n : Node) : Option Record :=
  match n.kind with
  | .importFrom source => some ⟨source, .static⟩
  | .exportAll source | .exportFrom source => some ⟨source, .reexport⟩
  | .importCall => (n.children.head?.bind literal?).map (⟨·, .dynamic⟩)
  | _ => (required? n).map (⟨·, .require⟩)

/-- Does the node mention a module? -/
def isMention (n : Node) : Bool := (mention? n).isSome

theorem literal?_eq_some_iff {n : Node} {value : String} :
    literal? n = some value ↔ n.kind = .text value := by
  unfold literal?
  cases n.kind <;> simp

theorem required?_eq_some_iff {n : Node} {value : String} :
    required? n = some value ↔ n.kind = .call ∧ (∃ callee, n.children.head? = some callee ∧
      callee.kind = .identifier "require") ∧
      ∃ argument, n.arguments = [argument] ∧ argument.kind = .text value := by
  unfold required?
  constructor
  · intro h
    split at h
    · next callee rest argument hkind hchildren harguments =>
      split at h
      · next hcallee =>
        exact ⟨hkind, ⟨callee, by simp [hchildren], hcallee⟩, argument, harguments,
          literal?_eq_some_iff.mp h⟩
      · cases h
    · cases h
  · rintro ⟨hkind, ⟨callee, hcallee, hname⟩, argument, harguments, hvalue⟩
    obtain ⟨rest, hchildren⟩ := List.head?_eq_some_iff.mp hcallee
    simp [hkind, hchildren, harguments, hname, literal?_eq_some_iff, hvalue]

theorem mention?_eq_some_iff {n : Node} {r : Record} : mention? n = some r ↔ IsMention n r := by
  constructor
  · intro h
    unfold mention? at h
    split at h
    · next source hkind =>
      cases h
      exact .importFrom hkind
    · next source hkind =>
      cases h
      exact .exportAll hkind
    · next source hkind =>
      cases h
      exact .exportFrom hkind
    · next hkind =>
      obtain ⟨value, hliteral, rfl⟩ := Option.map_eq_some_iff.mp h
      obtain ⟨name, hname, hvalue⟩ := Option.bind_eq_some_iff.mp hliteral
      exact .importCall hkind hname (literal?_eq_some_iff.mp hvalue)
    · obtain ⟨value, hrequired, rfl⟩ := Option.map_eq_some_iff.mp h
      obtain ⟨hkind, ⟨callee, hcallee, hname⟩, argument, harguments, hvalue⟩ :=
        required?_eq_some_iff.mp hrequired
      exact .require hkind hcallee hname harguments hvalue
  · rintro (hkind | hkind | hkind | ⟨hkind, hname, hvalue⟩ |
      ⟨hkind, hcallee, hname, harguments, hvalue⟩)
    · simp [mention?, hkind]
    · simp [mention?, hkind]
    · simp [mention?, hkind]
    · simp [mention?, hkind, hname, literal?_eq_some_iff, hvalue]
    · have h := required?_eq_some_iff.mpr ⟨hkind, ⟨_, hcallee, hname⟩, _, harguments, hvalue⟩
      simp [mention?, hkind, h]

/-! ### Places -/

/-- Does the address lead into the options of `import(name, options)`? -/
def inOptions (n : Node) : Address → Bool
  | [] => false
  | i :: a => (n.kind = .importCall && i ≠ 0) || n.children[i]?.any (inOptions · a)

/-- The record is that of the mention at an address. -/
def IsRecordAt (tree : Node) (a : Address) (r : Record) : Prop :=
  ∃ n, tree.at? a = some n ∧ IsMention n r

theorem IsRecordAt.cons {n c : Node} {i : Nat} (hc : n.children[i]? = some c) {a : Address}
    {r : Record} (h : IsRecordAt c a r) : IsRecordAt n (i :: a) r := by
  obtain ⟨m, hm, hr⟩ := h
  exact ⟨m, by rw [Node.at?_cons hc, hm], hr⟩

theorem inOptions_cons {n c : Node} {i : Nat} (hc : n.children[i]? = some c)
    (hi : n.kind = .importCall → i = 0) (a : Address) : inOptions n (i :: a) = inOptions c a := by
  by_cases hkind : n.kind = .importCall
  · obtain rfl := hi hkind
    simp [inOptions, hc]
  · simp [inOptions, hc, hkind]

/-! ### The search -/

theorem recordOf_eq_toList (form : Form) (name : Option String) :
    recordOf form name = (name.map (⟨·, form⟩)).toList := by
  cases name <;> rfl

/-- A node is searched for its own mention, then its children are; but of an import expression only
the name is, and a declaration that names a module has no children. -/
theorem inTree_eq {kind : Kind} {span : Span} {children : List Node} (h : kind.Takes children) :
    inTree (.mk kind span children) = (mention? (.mk kind span children)).toList ++
      inTrees (if kind = .importCall then children.take 1 else children) := by
  cases kind with
  | importFrom source =>
    obtain rfl : children = [] := h
    rfl
  | exportAll source =>
    obtain rfl : children = [] := h
    rfl
  | exportFrom source => rfl
  | importCall =>
    cases children with
    | nil => rfl
    | cons name options =>
      simp [inTree, inImportCall, inTrees, mention?, Node.kind, Node.children, recordOf_eq_toList]
  | _ => simp [inTree, mention?, Node.kind, recordOf_eq_toList]

variable {n : Node}

theorem forall₂_child {c : Node} {i : Nat} (hc : n.children[i]? = some c)
    (hi : n.kind = .importCall → i = 0)
    (h : List.Forall₂ (IsRecordAt c) ((c.addressesWhere isMention).filter (!inOptions c ·))
      (inTree c)) :
    List.Forall₂ (IsRecordAt n)
      (((c.addressesWhere isMention).map (i :: ·)).filter (!inOptions n ·)) (inTree c) := by
  rw [List.filter_map]
  refine List.forall₂_map_left_iff.mpr ?_
  have hfilter : (fun a => !inOptions n a) ∘ (i :: ·) = fun a => !inOptions c a :=
    funext fun a => by rw [Function.comp_apply, inOptions_cons hc hi]
  rw [hfilter]
  exact h.imp fun _ _ => IsRecordAt.cons hc

/-- The options of an import expression are the children behind the first. -/
theorem filter_addressesWhereFrom_options (hkind : n.kind = .importCall) (i : Nat)
    (ns : List Node) :
    (Node.addressesWhereFrom isMention (i + 1) ns).filter (!inOptions n ·) = [] := by
  refine List.filter_eq_nil_iff.mpr fun a ha => ?_
  obtain ⟨j, b, rfl, -⟩ := (Node.mem_addressesWhereFrom _ _ _).mp ha
  simp [inOptions, hkind]

mutual

theorem forall₂_inTree : ∀ n : Node, n.IsRegular →
    List.Forall₂ (IsRecordAt n) ((n.addressesWhere isMention).filter (!inOptions n ·)) (inTree n)
  | .mk kind span children, h => by
    obtain ⟨hkind, hchildren⟩ := Node.isRegular_mk.mp h
    rw [inTree_eq hkind, Node.addressesWhere, List.filter_append]
    refine List.rel_append ?_ ?_
    · cases hm : mention? (.mk kind span children) with
      | none => simp [isMention, hm]
      | some r =>
        have hr : IsRecordAt (.mk kind span children) [] r := ⟨_, rfl, mention?_eq_some_iff.mp hm⟩
        simpa [isMention, hm, inOptions] using hr
    · split
      · next hcall =>
        subst hcall
        cases children with
        | nil => exact .nil
        | cons name options =>
          have hname := forall₂_inTree name (hchildren name (List.mem_cons_self ..))
          rw [Node.addressesWhereFrom, List.filter_append, filter_addressesWhereFrom_options rfl,
            List.append_nil]
          simpa [inTrees] using forall₂_child rfl (fun _ => rfl) hname
      · next hcall =>
        exact forall₂_inTrees children hchildren (.mk kind span children) [] rfl hcall

theorem forall₂_inTrees : ∀ ns : List Node, (∀ c ∈ ns, c.IsRegular) → ∀ (n : Node)
    (before : List Node), n.children = before ++ ns → n.kind ≠ .importCall →
    List.Forall₂ (IsRecordAt n)
      ((Node.addressesWhereFrom isMention before.length ns).filter (!inOptions n ·)) (inTrees ns)
  | [], _, _, _, _, _ => .nil
  | c :: ns, h, n, before, hn, hkind => by
    obtain ⟨hc, hns⟩ := List.forall_mem_cons.mp h
    have hrest := forall₂_inTrees ns hns n (before ++ [c]) (by simp [hn]) hkind
    rw [Node.addressesWhereFrom, List.filter_append, inTrees]
    refine List.rel_append ?_ (by simpa using hrest)
    exact forall₂_child (by simp [hn]) (fun h => absurd h hkind) (forall₂_inTree c hc)

end

theorem mem_addressesWhere_isMention {tree : Node} {a : Address} :
    a ∈ tree.addressesWhere isMention ↔ ∃ r, IsRecordAt tree a r := by
  simp only [Node.mem_addressesWhere, isMention, Option.isSome_iff_exists, mention?_eq_some_iff,
    IsRecordAt]
  exact ⟨fun ⟨n, hn, r, hr⟩ => ⟨r, n, hn, hr⟩, fun ⟨r, n, hn, hr⟩ => ⟨n, hn, r, hr⟩⟩

/-- A file that can be read tells exactly one record for each mention of a module in it that does
not stand in the options of an import expression, in the order of the text. So it tells all mentions
exactly if none stands in such options. -/
theorem records_exact {file : SourceFile} {tree : Node} (h : file.tree? = some tree) :
    (∀ a, a ∈ tree.addressesWhere isMention ↔ ∃ r, IsRecordAt tree a r) ∧
    ∃ records, inFile? file = some records ∧
      List.Forall₂ (IsRecordAt tree)
        ((tree.addressesWhere isMention).filter (!inOptions tree ·)) records ∧
      (List.Forall₂ (IsRecordAt tree) (tree.addressesWhere isMention) records ↔
        ∀ a ∈ tree.addressesWhere isMention, inOptions tree a = false) := by
  have hrecords := forall₂_inTree tree (SourceFile.isRegular_of_tree? h)
  refine ⟨fun a => mem_addressesWhere_isMention, inTree tree, by rw [inFile?, h, Option.map_some],
    hrecords, fun hall => ?_, fun hno => ?_⟩
  -- Both lists of addresses have as many members as there are records, so nothing is left out.
  · have hlength := hrecords.length_eq.trans hall.length_eq.symm
    simpa using List.length_filter_eq_length_iff.mp hlength
  · have hfilter : (tree.addressesWhere isMention).filter (!inOptions tree ·) =
        tree.addressesWhere isMention := List.filter_eq_self.mpr fun a ha => by simp [hno a ha]
    rwa [hfilter] at hrecords

/-- All mentions are told in a file that has them at the top, in an exported function, in an
argument and in the name of an import expression. -/
theorem records_exact_nested :
    let file := SourceFile.of "m.ts" ("import './a'; export * from './b'; " ++
      "export const f = () => g(require('./c'), import(require('./d') + import('./e', {})));")
    let records : List Record := [⟨"./a", .static⟩, ⟨"./b", .reexport⟩, ⟨"./c", .require⟩,
      ⟨"./d", .require⟩, ⟨"./e", .dynamic⟩]
    ∃ tree, file.tree? = some tree ∧ inFile? file = some records ∧
      List.Forall₂ (IsRecordAt tree) (tree.addressesWhere isMention) records := by
  intro file records
  have hread : file.tree?.map (fun tree => (inTree tree,
      (tree.addressesWhere isMention).all (!inOptions tree ·))) = some (records, true) := by
    decide +kernel
  obtain ⟨tree, htree, hvalues⟩ := Option.map_eq_some_iff.mp hread
  obtain ⟨hrecords, hplaces⟩ := Prod.mk.inj hvalues
  obtain ⟨-, records', hfile, -, hiff⟩ := records_exact htree
  obtain rfl : records = records' := by simpa [inFile?, htree, hrecords] using hfile
  exact ⟨tree, htree, hfile, hiff.mpr (by simpa using hplaces)⟩

/-- What stands in the options of an import expression is missed. -/
theorem records_miss_options :
    let file := SourceFile.of "a.ts" "import('./b', require('./c'));"
    ∃ tree, file.tree? = some tree ∧ inFile? file = some [⟨"./b", .dynamic⟩] ∧
      IsRecordAt tree [0, 0, 1] ⟨"./c", .require⟩ ∧
      ¬ List.Forall₂ (IsRecordAt tree) (tree.addressesWhere isMention) [⟨"./b", .dynamic⟩] := by
  intro file
  have hread : file.tree?.map (fun tree => (inTree tree, (tree.at? [0, 0, 1]).bind mention?,
      (tree.addressesWhere isMention).length)) =
      some ([⟨"./b", .dynamic⟩], some ⟨"./c", .require⟩, 2) := by decide +kernel
  obtain ⟨tree, htree, hvalues⟩ := Option.map_eq_some_iff.mp hread
  simp only [Prod.mk.injEq, Option.bind_eq_some_iff, mention?_eq_some_iff] at hvalues
  obtain ⟨hrecords, hmention, hlength⟩ := hvalues
  refine ⟨tree, htree, by rw [inFile?, htree, Option.map_some, hrecords], hmention, fun h => ?_⟩
  have := h.length_eq
  simp [hlength] at this

end ScriptAtlas.Import
