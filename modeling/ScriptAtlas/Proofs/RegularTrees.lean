import ScriptAtlas.Function.Index
import ScriptAtlas.Proofs.Address

/-! # Regular trees

A tree is regular if the declarations in it that name another module have no children and the value
of every method in it is a function. Whether a rule of the grammar builds only regular trees is seen
from how it is put together (`Builds`). The laws for this stand here as instances, one for each way
of putting rules together, so that a rule is checked by unfolding it. A rule that asks for a goal
gets what the environment answers. -/

namespace ScriptAtlas.Syntax

/-! ### Trees -/

/-- May a node of this kind have these children? -/
abbrev Kind.Takes : Kind → List Node → Prop
  | .importFrom _, children | .exportAll _, children | .exportFrom _, children => children = []
  | .method _, children => ∃ f ∈ children.getLast?, Function.isFunctionValue f = true
  | _, _ => True

namespace Node

/-- Every node of the tree has children that its kind may have. -/
def IsRegular (n : Node) : Prop := ∀ a m, n.at? a = some m → m.kind.Takes m.children

theorem isRegular_mk {kind : Kind} {span : Span} {children : List Node} :
    (mk kind span children).IsRegular ↔
      kind.Takes children ∧ ∀ c ∈ children, c.IsRegular := by
  constructor
  · intro h
    refine ⟨h [] _ rfl, fun c hc a m hm => ?_⟩
    obtain ⟨i, hi⟩ := List.getElem?_of_mem hc
    exact h (i :: a) m (by rw [at?_cons hi, hm])
  · rintro ⟨hroot, hchildren⟩ a m hm
    cases a with
    | nil =>
      rw [at?_nil, Option.some.injEq] at hm
      exact hm ▸ hroot
    | cons i a =>
      obtain ⟨c, hc, hm⟩ := Option.bind_eq_some_iff.mp hm
      exact hchildren c (List.mem_of_getElem? hc) a m hm

end Node

/-! ### Values that hold trees -/

/-- The trees that a value of the type holds. -/
class HasNodes (α : Type) where
  nodes : α → List Node

export HasNodes (nodes)

/-- What is not listed below holds no trees. -/
instance (priority := low) hasNodesNone {α : Type} : HasNodes α := ⟨fun _ => []⟩

instance : HasNodes Node := ⟨([·])⟩

instance {α : Type} [HasNodes α] : HasNodes (List α) := ⟨List.flatMap nodes⟩

instance {α : Type} [HasNodes α] : HasNodes (Option α) := ⟨fun a => a.toList.flatMap nodes⟩

instance {α β : Type} [HasNodes α] [HasNodes β] : HasNodes (α × β) :=
  ⟨fun p => nodes p.1 ++ nodes p.2⟩

instance : HasNodes Key := ⟨Key.nodes⟩

instance : HasNodes ArrowHead := ⟨ArrowHead.children⟩

instance : HasNodes Chain := ⟨([·.node])⟩

/-- No value of the type holds trees. -/
class HasNoNodes (α : Type) [HasNodes α] : Prop where
  nodes_eq_nil : ∀ a : α, nodes a = []

/-- The value holds only regular trees. -/
class Regular {α : Type} [HasNodes α] (a : α) : Prop where
  isRegular : ∀ n ∈ nodes a, n.IsRegular

/-- A value that holds only regular trees. -/
abbrev RegularValue (α : Type) [HasNodes α] : Type := { a : α // Regular a }

section Values

variable {α β : Type} [HasNodes α] [HasNodes β]

instance (priority := low) hasNoNodesNone {α : Type} : HasNoNodes α := ⟨fun _ => rfl⟩

instance [HasNoNodes α] : HasNoNodes (List α) :=
  ⟨fun _ => List.flatMap_eq_nil_iff.mpr fun a _ => HasNoNodes.nodes_eq_nil a⟩

instance (priority := high) regular_of_hasNoNodes [HasNoNodes α] (a : α) : Regular a :=
  ⟨by simp [HasNoNodes.nodes_eq_nil]⟩

instance regular_val (a : RegularValue α) : Regular a.1 := a.2

theorem regular_list_iff {as : List α} : Regular as ↔ ∀ a ∈ as, Regular a := by
  constructor
  · intro h a ha
    exact ⟨fun n hn => h.isRegular n (List.mem_flatMap.mpr ⟨a, ha, hn⟩)⟩
  · intro h
    refine ⟨fun n hn => ?_⟩
    obtain ⟨a, ha, hn⟩ := List.mem_flatMap.mp hn
    exact (h a ha).isRegular n hn

theorem regular_node_iff {n : Node} : Regular n ↔ n.IsRegular :=
  ⟨fun h => h.isRegular n (List.mem_singleton.mpr rfl),
    fun h => ⟨fun _ hm => List.mem_singleton.mp hm ▸ h⟩⟩

instance regular_nil : Regular ([] : List α) := regular_list_iff.mpr (by simp)

theorem regular_cons_iff {a : α} {as : List α} : Regular (a :: as) ↔ Regular a ∧ Regular as := by
  simp only [regular_list_iff, List.forall_mem_cons]

instance regular_cons (a : α) (as : List α) [ha : Regular a] [has : Regular as] :
    Regular (a :: as) := regular_cons_iff.mpr ⟨ha, has⟩

instance regular_append (as bs : List α) [has : Regular as] [hbs : Regular bs] :
    Regular (as ++ bs) :=
  regular_list_iff.mpr (List.forall_mem_append.mpr
    ⟨regular_list_iff.mp has, regular_list_iff.mp hbs⟩)

instance regular_reverse (as : List α) [has : Regular as] : Regular as.reverse :=
  regular_list_iff.mpr fun a ha => regular_list_iff.mp has a (List.mem_reverse.mp ha)

instance regular_flatten (ass : List (List α)) [h : Regular ass] : Regular ass.flatten := by
  refine regular_list_iff.mpr fun a ha => ?_
  obtain ⟨as, has, ha⟩ := List.mem_flatten.mp ha
  exact regular_list_iff.mp (regular_list_iff.mp h as has) a ha

instance regular_ite (p : Prop) [Decidable p] (a b : α) [ha : Regular a] [hb : Regular b] :
    Regular (if p then a else b) := by
  split
  · exact ha
  · exact hb

instance regular_none : Regular (none : Option α) := ⟨by simp [nodes]⟩

theorem regular_some_iff {a : α} : Regular (some a) ↔ Regular a :=
  ⟨fun h => ⟨by simpa [nodes] using h.isRegular⟩, fun h => ⟨by simpa [nodes] using h.isRegular⟩⟩

instance regular_some (a : α) [h : Regular a] : Regular (some a) := regular_some_iff.mpr h

instance regular_toList (a : Option α) [h : Regular a] : Regular a.toList := ⟨h.isRegular⟩

instance regular_optionBind (a : Option α) (f : α → Option β) [h : Regular a]
    [hf : ∀ a : RegularValue α, Regular (f a.1)] : Regular (a >>= f) := by
  cases a with
  | none => exact regular_none
  | some a => exact hf ⟨a, regular_some_iff.mp h⟩

instance regular_optionPure (a : α) [Regular a] : Regular (pure a : Option α) := regular_some a

instance regular_optionMap (f : α → β) (a : Option α) [Regular a]
    [∀ a : RegularValue α, Regular (f a.1)] : Regular (a.map f) := by
  rw [Option.map_eq_bind]
  exact regular_optionBind a fun a => pure (f a)

theorem regular_pair_iff {a : α} {b : β} : Regular (a, b) ↔ Regular a ∧ Regular b :=
  ⟨fun ⟨h⟩ => ⟨⟨(List.forall_mem_append.mp h).1⟩, ⟨(List.forall_mem_append.mp h).2⟩⟩,
    fun ⟨ha, hb⟩ => ⟨List.forall_mem_append.mpr ⟨ha.isRegular, hb.isRegular⟩⟩⟩

instance regular_pair (a : α) (b : β) [ha : Regular a] [hb : Regular b] : Regular (a, b) :=
  regular_pair_iff.mpr ⟨ha, hb⟩

instance regular_fst (p : α × β) [h : Regular p] : Regular p.1 := (regular_pair_iff.mp h).1

instance regular_snd (p : α × β) [h : Regular p] : Regular p.2 := (regular_pair_iff.mp h).2

end Values

instance regular_key (name : Option String) (ns : List Node) [h : Regular ns] :
    Regular (Key.mk name ns) := ⟨by simpa [nodes] using h.isRegular⟩

instance regular_key_nodes (k : Key) [h : Regular k] : Regular k.nodes := ⟨by
  simpa [nodes] using h.isRegular⟩

instance regular_chain (n : Node) (optional : Bool) [h : Regular n] :
    Regular (Chain.mk n optional) := ⟨h.isRegular⟩

instance regular_chain_node (c : Chain) [h : Regular c] : Regular c.node := ⟨h.isRegular⟩

instance regular_arrowHead (start : Nat) (isAsync hasResult : Bool) (ns : List Node)
    [h : Regular ns] : Regular (ArrowHead.mk start isAsync ns hasResult) := ⟨by
  simpa [nodes] using h.isRegular⟩

instance regular_arrowHead_children (head : ArrowHead) [h : Regular head] :
    Regular head.children := ⟨by simpa [nodes] using h.isRegular⟩

/-- A proposition that instances can be found for. -/
class Given (p : Prop) : Prop where
  out : p

instance : Given True := ⟨trivial⟩

instance {α : Type} (a : α) : Given (a = a) := ⟨rfl⟩

/-- A kind that depends on what was read. -/
instance (p : Prop) [Decidable p] (k k' : Kind) (children : List Node)
    [hk : Given (k.Takes children)] [hk' : Given (k'.Takes children)] :
    Given ((if p then k else k').Takes children) := by
  split
  · exact hk
  · exact hk'

instance regular_mk (kind : Kind) (span : Span) (children : List Node)
    [hkind : Given (kind.Takes children)] [h : Regular children] :
    Regular (Node.mk kind span children) := by
  refine regular_node_iff.mpr (Node.isRegular_mk.mpr ⟨hkind.out, fun c hc => ?_⟩)
  exact regular_node_iff.mp (regular_list_iff.mp h c hc)

instance regular_leaf (kind : Kind) (span : Span) [Given (kind.Takes [])] :
    Regular (Node.leaf kind span) := regular_mk kind span []

theorem Regular.children {kind : Kind} {span : Span} {children : List Node}
    (h : Regular (Node.mk kind span children)) : Regular children := by
  refine regular_list_iff.mpr fun c hc => ?_
  exact regular_node_iff.mpr ((Node.isRegular_mk.mp (regular_node_iff.mp h)).2 c hc)

instance regular_children (n : Node) [h : Regular n] : Regular n.children := by
  obtain ⟨kind, span, children⟩ := n
  exact h.children

/-! ### Rules -/

/-- The environment answers with regular trees. -/
def Env.IsRegular (env : Env) : Prop :=
  ∀ context goal c n c', env.answer context goal c = .ok (n, c') → n.IsRegular

/-- The rule gives only regular trees where the environment does. -/
class Builds {α : Type} [HasNodes α] (p : Parser α) : Prop where
  regular : ∀ {env : Env} {c c' : Cursor} {a : α}, env.IsRegular → p env c = .ok (a, c') → Regular a

theorem bind_eq_ok {ε α β : Type} {x : Except ε α} {f : α → Except ε β} {b : β}
    (h : (x >>= f) = .ok b) : ∃ a, x = .ok a ∧ f a = .ok b := by
  cases x with
  | error e => cases h
  | ok a => exact ⟨a, rfl, h⟩

section Rules

variable {α β : Type} [HasNodes α] [HasNodes β]

instance (priority := high) builds_of_hasNoNodes [HasNoNodes α] (p : Parser α) : Builds p :=
  ⟨fun _ _ => inferInstance⟩

instance builds_pure (a : α) [h : Regular a] : Builds (pure a : Parser α) := ⟨by
  intro env c c' b _ hb
  cases hb
  exact h⟩

instance builds_ite (b : Prop) [Decidable b] (p q : Parser α) [hp : Builds p] [hq : Builds q] :
    Builds (if b then p else q) := by
  split
  · exact hp
  · exact hq

instance builds_bind (p : Parser α) (f : α → Parser β) [hp : Builds p]
    [hf : ∀ a : RegularValue α, Builds (f a.1)] : Builds (p >>= f) := ⟨by
  intro env c c' b henv hb
  obtain ⟨⟨a, c''⟩, ha, hb⟩ := bind_eq_ok hb
  exact (hf ⟨a, hp.regular henv ha⟩).regular henv hb⟩

/-- A part that only moves on. -/
instance (priority := high) builds_bind_unit (p : Parser Unit) (f : Unit → Parser β)
    [hf : Builds (f ())] : Builds (p >>= f) :=
  have (u : RegularValue Unit) : Builds (f u.1) := hf
  builds_bind p f

/-- A question that decides how to go on. -/
instance (priority := high) builds_bind_ite (p : Parser Bool) (q r : Parser β) [Builds q]
    [Builds r] : Builds (p >>= fun b => if b = true then q else r) :=
  builds_bind p _

/-- An optional part, with a case for each. -/
instance (priority := high) builds_bind_option (p : Parser (Option α)) (f : Option α → Parser β)
    [Builds p] [hnone : Builds (f none)] [hsome : ∀ a : RegularValue α, Builds (f (some a.1))] :
    Builds (p >>= f) :=
  have (o : RegularValue (Option α)) : Builds (f o.1) := by
    obtain ⟨_ | a, ha⟩ := o
    · exact hnone
    · exact hsome ⟨a, regular_some_iff.mp ha⟩
  builds_bind p f

/-- For what comes behind a part of a rule and is told apart by cases. -/
theorem Builds.bind {p : Parser α} {f : α → Parser β} (_ : Builds p)
    (hf : ∀ a, Regular a → Builds (f a)) : Builds (p >>= f) :=
  have (a : RegularValue α) : Builds (f a.1) := hf a.1 a.2
  inferInstance

instance builds_map (f : α → β) (p : Parser α) [Builds p]
    [hf : ∀ a : RegularValue α, Regular (f a.1)] : Builds (f <$> p) :=
  inferInstanceAs (Builds (p >>= fun a => pure (f a)))

instance builds_throw (e : SyntaxError) : Builds (throw e : Parser α) := ⟨by
  intro env c c' a _ ha
  cases ha⟩

instance builds_unexpected : Builds (unexpected : Parser α) := ⟨by
  intro env c c' a _ ha
  cases ha⟩

instance builds_attempt (p : Parser α) [hp : Builds p] : Builds (attempt p) := ⟨by
  intro env c c' a henv ha
  unfold attempt at ha
  split at ha
  · next b c'' hb =>
    cases ha
    have hb : Regular b := hp.regular henv hb
    infer_instance
  · cases ha
    infer_instance⟩

instance builds_within (change : Context → Context) (p : Parser α) [hp : Builds p] :
    Builds (within change p) := ⟨by
  intro env c c' a henv ha
  have henv : Env.IsRegular { env with context := change env.context } := henv
  exact hp.regular henv ha⟩

instance builds_parse (g : Goal) : Builds (parse g) := ⟨by
  intro env c c' n henv hn
  exact regular_node_iff.mpr (henv _ _ _ _ _ hn)⟩

/-- Repeated steps, each from a regular value to a regular one. -/
instance builds_iterateFor (step : α → Parser (Option α)) (count : Nat) (a : α)
    [hstep : ∀ a : RegularValue α, Builds (step a.1)] [ha : Regular a] :
    Builds (iterateFor step count a) := by
  induction count generalizing a with
  | zero => exact builds_unexpected
  | succ count ih =>
    refine Builds.bind (hstep ⟨a, ha⟩) fun next hnext => ?_
    cases next with
    | none => exact builds_pure a
    | some a' =>
      have : Regular a' := regular_some_iff.mp hnext
      exact ih a'

instance builds_iterate (step : α → Parser (Option α)) (a : α)
    [∀ a : RegularValue α, Builds (step a.1)] [Regular a] : Builds (iterate step a) := by
  unfold iterate
  infer_instance

instance builds_many (item : Parser (Option α)) [Builds item] : Builds (many item) := by
  unfold many
  infer_instance

instance builds_manyUntil (close : String) (item : Parser α) [Builds item] :
    Builds (manyUntil close item) := by
  unfold manyUntil
  infer_instance

instance builds_commaList (close : String) (item : Parser α) [Builds item] :
    Builds (commaList close item) := by
  unfold commaList
  infer_instance

instance builds_bracketed (p : Parser α) [Builds p] : Builds (bracketed p) := by
  unfold bracketed
  infer_instance

end Rules

instance builds_parseAssignment : Builds parseAssignment := builds_parse _

instance builds_node (kind : Kind) (start : Nat) (children : List Node)
    [Given (kind.Takes children)] [Regular children] : Builds (node kind start children) := by
  unfold node
  infer_instance

instance builds_tokenNode (kind : Kind) [Given (kind.Takes [])] : Builds (tokenNode kind) := by
  unfold tokenNode
  infer_instance

end ScriptAtlas.Syntax
