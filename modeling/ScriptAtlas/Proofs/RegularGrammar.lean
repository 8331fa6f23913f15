import ScriptAtlas.Proofs.RegularTrees
import ScriptAtlas.Source

/-! # The trees of source files are regular

One instance for each rule of the grammar that gives trees. Most rules are put together in ways
that `RegularTrees` has a law for; where a rule tells cases apart, so does its proof. The rules ask
each other for goals through the environment, so by induction on the depth every goal is answered
with a regular tree, and the tree of a file is regular (`SourceFile.isRegular_of_tree?`). -/

-- The instance for a rule is as large as the rule.
set_option synthInstance.maxSize 2048

namespace ScriptAtlas

namespace Syntax

open Node

/-! ### Targets -/

mutual

theorem regular_asTarget? (n : Node) [h : Regular n] : Regular n.asTarget? := by
  unfold asTarget?
  split
  · next s items =>
    have := h.children
    have := regular_targetItems? items
    infer_instance
  · next s items =>
    have := h.children
    have := regular_targetItems? items
    infer_instance
  · infer_instance

theorem regular_asDefaulted? (n : Node) [h : Regular n] : Regular n.asDefaulted? := by
  unfold asDefaulted?
  split
  · infer_instance
  · have := h.children
    infer_instance
  · infer_instance
  · next k s children =>
    have := h.children
    have := regular_lastTarget? children
    infer_instance
  · infer_instance
  · next s items =>
    have := h.children
    have := regular_targetItems? items
    infer_instance
  · next s items =>
    have := h.children
    have := regular_targetItems? items
    infer_instance
  · infer_instance

theorem regular_lastTarget? (ns : List Node) [h : Regular ns] : Regular (lastTarget? ns) := by
  unfold lastTarget?
  split
  · infer_instance
  · next n =>
    obtain ⟨_, _⟩ := regular_cons_iff.mp h
    have := regular_asDefaulted? n
    infer_instance
  · next n ns _ =>
    obtain ⟨_, _⟩ := regular_cons_iff.mp h
    have := regular_lastTarget? ns
    infer_instance

theorem regular_targetItems? (ns : List Node) [h : Regular ns] : Regular (targetItems? ns) := by
  unfold targetItems?
  split
  · infer_instance
  · next s e =>
    obtain ⟨he, _⟩ := regular_cons_iff.mp h
    obtain ⟨_, _⟩ := regular_cons_iff.mp he.children
    have := regular_asTarget? e
    infer_instance
  · next n ns _ =>
    obtain ⟨_, _⟩ := regular_cons_iff.mp h
    have := regular_asDefaulted? n
    have := regular_targetItems? ns
    infer_instance

end

theorem regular_of_asTarget? {n target : Node} [Regular n] (h : n.asTarget? = some target) :
    Regular target := regular_some_iff.mp (h ▸ regular_asTarget? n)

/-! ### Modifiers and keys -/

instance builds_computedKey : Builds computedKey := by unfold computedKey; infer_instance

instance builds_propertyKey : Builds propertyKey := by
  unfold propertyKey
  refine .bind inferInstance fun t _ => ?_
  split <;> infer_instance

instance builds_memberKey : Builds memberKey := by
  unfold memberKey
  refine .bind inferInstance fun t _ => ?_
  split <;> infer_instance

instance builds_decorator : Builds decorator := by unfold decorator; infer_instance
instance builds_decorators : Builds decorators := by unfold decorators; infer_instance

/-! ### Bindings -/

instance builds_initializer : Builds initializer := by unfold initializer; infer_instance
instance builds_typeAnnotation : Builds typeAnnotation := by unfold typeAnnotation; infer_instance

instance builds_bindingElement : Builds bindingElement := by
  unfold bindingElement
  refine .bind inferInstance fun start _ => .bind inferInstance fun pattern _ => ?_
  refine .bind inferInstance fun init _ => ?_
  split <;> infer_instance

instance builds_restElement : Builds restElement := by unfold restElement; infer_instance

instance builds_itemsUntil (close : String) (item : Parser (Bool × Node)) [Builds item] :
    Builds (itemsUntil close item) := by
  unfold itemsUntil
  infer_instance

instance builds_elementsUntil (close : String) (element : Parser Node) [Builds element] :
    Builds (elementsUntil close element) := by
  unfold elementsUntil
  infer_instance

instance builds_bindingProperty : Builds bindingProperty := by
  unfold bindingProperty
  infer_instance

instance builds_bindingItem : Builds bindingItem := by unfold bindingItem; infer_instance
instance builds_bindingPattern : Builds bindingPattern := by unfold bindingPattern; infer_instance
instance builds_parameter : Builds parameter := by unfold parameter; infer_instance
instance builds_thisParameter : Builds thisParameter := by unfold thisParameter; infer_instance
instance builds_parameters : Builds parameters := by unfold parameters; infer_instance

/-! ### Types -/

instance builds_anyType {α : Type} [HasNodes α] (p : Parser α) [Builds p] : Builds (anyType p) := by
  unfold anyType
  infer_instance

instance builds_plainType {α : Type} [HasNodes α] (p : Parser α) [Builds p] :
    Builds (plainType p) := by
  unfold plainType
  infer_instance

instance builds_typeParameter : Builds typeParameter := by unfold typeParameter; infer_instance
instance builds_typeParameters : Builds typeParameters := by unfold typeParameters; infer_instance
instance builds_typeArguments : Builds typeArguments := by unfold typeArguments; infer_instance
instance builds_typeArguments? : Builds typeArguments? := by unfold typeArguments?; infer_instance
instance builds_typeReference : Builds typeReference := by unfold typeReference; infer_instance
instance builds_typeQuery : Builds typeQuery := by unfold typeQuery; infer_instance

instance builds_importTypeOptions : Builds importTypeOptions := by
  unfold importTypeOptions
  infer_instance

instance builds_importType : Builds importType := by unfold importType; infer_instance
instance builds_resultType : Builds resultType := by unfold resultType; infer_instance

instance builds_resultAnnotation : Builds resultAnnotation := by
  unfold resultAnnotation
  infer_instance

instance builds_assertion : Builds assertion := by unfold assertion; infer_instance
instance builds_indexParameter : Builds indexParameter := by unfold indexParameter; infer_instance

instance builds_indexSignature (start : Nat) : Builds (indexSignature start) := by
  unfold indexSignature
  infer_instance

instance builds_signatureTail : Builds signatureTail := by unfold signatureTail; infer_instance
instance builds_typeMember : Builds typeMember := by unfold typeMember; infer_instance
instance builds_typeMembers : Builds typeMembers := by unfold typeMembers; infer_instance
instance builds_mappedType : Builds mappedType := by unfold mappedType; infer_instance
instance builds_tupleElement : Builds tupleElement := by unfold tupleElement; infer_instance
instance builds_tupleType : Builds tupleType := by unfold tupleType; infer_instance

instance builds_substitution (p : Parser Node) [Builds p] : Builds (substitution p) := by
  unfold substitution
  infer_instance

instance builds_templateParts (p : Parser Node) [Builds p] : Builds (templateParts p) := by
  have : Builds (many do
      match (← token).lexeme with
      | .templateTail => return none
      | .templateMiddle =>
        advance
        return some []
      | _ => return some [← substitution p]) := by
    refine @builds_many _ _ _ (.bind inferInstance fun t _ => ?_)
    split <;> infer_instance
  unfold templateParts
  infer_instance

instance builds_nullableType : Builds nullableType := by unfold nullableType; infer_instance

instance builds_bareType : Builds bareType := by
  unfold bareType
  refine .bind inferInstance fun start _ => .bind inferInstance fun t _ => ?_
  split <;> infer_instance

instance builds_atomicType : Builds atomicType := by unfold atomicType; infer_instance
instance builds_postfixType : Builds postfixType := by unfold postfixType; infer_instance

instance builds_inferConstraint : Builds inferConstraint := by
  unfold inferConstraint
  infer_instance

instance builds_operatorType : Builds operatorType := by unfold operatorType; infer_instance

instance builds_joinedType (mark : String) (item : Parser Node) [Builds item] :
    Builds (joinedType mark item) := by
  unfold joinedType
  infer_instance

instance builds_unionType : Builds unionType := by unfold unionType; infer_instance
instance builds_functionType : Builds functionType := by unfold functionType; infer_instance
instance builds_type : Builds type := by unfold type; infer_instance

/-! ### Functions -/

instance builds_insideFunction {α : Type} [HasNodes α] (isAsync isGenerator : Bool) (p : Parser α)
    [Builds p] : Builds (insideFunction isAsync isGenerator p) := by
  unfold insideFunction
  infer_instance

instance builds_statements : Builds statements := by unfold statements; infer_instance
instance builds_block : Builds block := by unfold block; infer_instance

instance builds_functionTail (start : Nat) (name : Option String) (isAsync isGenerator : Bool)
    (ending : FunctionEnd) : Builds (functionTail start name isAsync isGenerator ending) := by
  unfold functionTail
  cases ending <;> infer_instance

instance builds_functionNamed (start : Nat) (isAsync isGenerator : Bool) (ending : FunctionEnd) :
    Builds (functionNamed start isAsync isGenerator ending) := by
  unfold functionNamed
  infer_instance

instance builds_functionFrom (start : Nat) (isAsync : Bool) (ending : FunctionEnd) :
    Builds (functionFrom start isAsync ending) := by
  unfold functionFrom
  infer_instance

instance builds_declaredFunction (start : Nat) (isAsync : Bool) :
    Builds (declaredFunction start isAsync) := by
  unfold declaredFunction
  infer_instance

instance builds_function (ending : FunctionEnd) : Builds (function ending) := by
  unfold function
  infer_instance

instance builds_arrowBody (start : Nat) (isAsync arrowResult : Bool) (head : List Node)
    [Regular head] : Builds (arrowBody start isAsync arrowResult head) := by
  unfold arrowBody
  infer_instance

instance builds_simpleArrow (start : Nat) (param : Node) (isAsync arrowResult : Bool)
    [Regular param] : Builds (simpleArrow start param isAsync arrowResult) := by
  unfold simpleArrow
  infer_instance

instance builds_arrowHead : Builds arrowHead := by unfold arrowHead; infer_instance

instance builds_parenthesizedArrow? (arrowResult : Bool) :
    Builds (parenthesizedArrow? arrowResult) := by
  unfold parenthesizedArrow?
  refine .bind inferInstance fun likelihood _ => ?_
  cases likelihood <;> infer_instance

instance builds_asyncSimpleArrow? (arrowResult : Bool) :
    Builds (asyncSimpleArrow? arrowResult) := by
  unfold asyncSimpleArrow?
  infer_instance

/-! ### Classes -/

instance builds_superclass : Builds superclass := by unfold superclass; infer_instance

instance builds_commaSeparated {α : Type} [HasNodes α] (item : Parser (List α)) [Builds item] :
    Builds (commaSeparated item) := by
  unfold commaSeparated
  infer_instance

instance builds_heritage : Builds heritage := by unfold heritage; infer_instance

instance builds_fieldInitializer : Builds fieldInitializer := by
  unfold fieldInitializer
  infer_instance

theorem isFunctionValue_of_functionTail {start : Nat} {name : Option String}
    {isAsync isGenerator : Bool} {ending : FunctionEnd} {env : Env} {c c' : Cursor} {n : Node}
    (h : functionTail start name isAsync isGenerator ending env c = .ok (n, c')) :
    Function.isFunctionValue n = true := by
  unfold functionTail at h
  obtain ⟨⟨⟨children, hasBody⟩, c₁⟩, -, h⟩ := bind_eq_ok h
  have hnode : ∃ c₂, node (.function name hasBody) start children env c₂ = .ok (n, c') := by
    dsimp only at h
    split at h
    · split at h
      · exact ⟨c₁, h⟩
      · cases h
    · split at h
      · exact ⟨c₁, h⟩
      · obtain ⟨⟨_, c₂⟩, -, h⟩ := bind_eq_ok h
        exact ⟨c₂, h⟩
    · obtain ⟨⟨_, c₂⟩, -, h⟩ := bind_eq_ok h
      exact ⟨c₂, h⟩
  obtain ⟨c₂, hnode⟩ := hnode
  cases hnode
  rfl

/-- The last child of a method comes from `functionTail`. -/
instance builds_methodTail (start : Nat) (decs : List Node) (key : Key)
    (isAsync isGenerator : Bool) [Regular decs] [Regular key] :
    Builds (methodTail start decs key isAsync isGenerator) := ⟨by
  intro env c c' n henv h
  unfold methodTail at h
  obtain ⟨⟨body, c₂⟩, hbody, h⟩ := bind_eq_ok h
  have : Regular body := (builds_functionTail ..).regular henv hbody
  have : Given ((Kind.method key.name).Takes (decs ++ key.nodes ++ [body])) :=
    ⟨body, by simp, isFunctionValue_of_functionTail hbody⟩
  exact (builds_node ..).regular henv h⟩

instance builds_fieldTail (start : Nat) (decs : List Node) (key : Key) [Regular decs]
    [Regular key] : Builds (fieldTail start decs key) := by
  unfold fieldTail
  infer_instance

instance builds_staticBlock : Builds staticBlock := by unfold staticBlock; infer_instance
instance builds_classMember : Builds classMember := by unfold classMember; infer_instance
instance builds_classBody : Builds classBody := by unfold classBody; infer_instance

instance builds_classTail (start : Nat) (decs : List Node) [Regular decs] :
    Builds (classTail start decs) := by
  unfold classTail
  infer_instance

instance builds_classFrom (start : Nat) (decs : List Node) [Regular decs] :
    Builds (classFrom start decs) := by
  unfold classFrom
  infer_instance

/-! ### Tags -/

instance builds_embedded (inside : Bool) : Builds (embedded inside) := by
  unfold embedded
  infer_instance

instance builds_attributeValue : Builds attributeValue := by unfold attributeValue; infer_instance
instance builds_tagAttribute : Builds tagAttribute := by unfold tagAttribute; infer_instance
instance builds_tagChildren : Builds tagChildren := by unfold tagChildren; infer_instance
instance builds_tag (inside : Bool) : Builds (tag inside) := by unfold tag; infer_instance

/-! ### Declarations -/

instance builds_declarator : Builds declarator := by unfold declarator; infer_instance

instance builds_declarators (start : Nat) : Builds (declarators start) := by
  unfold declarators
  infer_instance

instance builds_variableStatement (start : Nat) : Builds (variableStatement start) := by
  unfold variableStatement
  infer_instance

instance builds_interfaceTail (start : Nat) : Builds (interfaceTail start) := by
  unfold interfaceTail
  infer_instance

instance builds_aliasedType : Builds aliasedType := by unfold aliasedType; infer_instance

instance builds_typeAliasTail (start : Nat) : Builds (typeAliasTail start) := by
  unfold typeAliasTail
  infer_instance

instance builds_enumMember : Builds enumMember := by unfold enumMember; infer_instance

instance builds_enumTail (start : Nat) : Builds (enumTail start) := by
  unfold enumTail
  infer_instance

instance builds_namespaceTail (start : Nat) : Builds (namespaceTail start) := by
  unfold namespaceTail
  infer_instance

instance builds_moduleTail (start : Nat) : Builds (moduleTail start) := by
  unfold moduleTail
  infer_instance

instance builds_importEqualsTail (start : Nat) : Builds (importEqualsTail start) := by
  unfold importEqualsTail
  infer_instance

instance builds_declaration (start : Nat) (decs : List Node) (mods : List String) [Regular decs] :
    Builds (declaration start decs mods) := by
  unfold declaration
  refine .bind inferInstance fun t _ => ?_
  split <;> infer_instance

instance builds_declarationStatement : Builds declarationStatement := by
  unfold declarationStatement
  infer_instance

/-! ### Imports and exports -/

instance builds_importTail (start : Nat) (hasDefault : Bool) :
    Builds (importTail start hasDefault) := by
  unfold importTail
  infer_instance

instance builds_importDefaultTail (start : Nat) : Builds (importDefaultTail start) := by
  unfold importDefaultTail
  infer_instance

instance builds_importNamedTail (start : Nat) : Builds (importNamedTail start) := by
  unfold importNamedTail
  infer_instance

instance builds_importDeclaration (start : Nat) : Builds (importDeclaration start) := by
  unfold importDeclaration
  infer_instance

instance builds_exportAll (start : Nat) : Builds (exportAll start) := by
  unfold exportAll
  infer_instance

instance builds_exportNames (start : Nat) : Builds (exportNames start) := by
  unfold exportNames
  infer_instance

instance builds_exportDefault (start : Nat) (decs : List Node) [Regular decs] :
    Builds (exportDefault start decs) := by
  unfold exportDefault
  infer_instance

instance builds_exportedImport (start : Nat) : Builds (exportedImport start) := by
  unfold exportedImport
  refine .bind inferInstance fun inner _ => ?_
  split <;> infer_instance

instance builds_exportedClass (decs : List Node) [Regular decs] : Builds (exportedClass decs) := by
  unfold exportedClass
  infer_instance

instance builds_exportDeclaration (decs : List Node) [Regular decs] :
    Builds (exportDeclaration decs) := by
  unfold exportDeclaration
  infer_instance

/-! ### Expressions -/

instance builds_spreadable : Builds spreadable := by unfold spreadable; infer_instance
instance builds_arrayItem : Builds arrayItem := by unfold arrayItem; infer_instance
instance builds_arrayLiteral : Builds arrayLiteral := by unfold arrayLiteral; infer_instance

instance builds_propertyMethod (start : Nat) (key : Key) (isMethod isAsync isGenerator : Bool)
    [Regular key] : Builds (propertyMethod start key isMethod isAsync isGenerator) := by
  unfold propertyMethod
  infer_instance

instance builds_objectProperty : Builds objectProperty := by unfold objectProperty; infer_instance
instance builds_objectLiteral : Builds objectLiteral := by unfold objectLiteral; infer_instance

instance builds_templateLiteral : Builds templateLiteral := by
  unfold templateLiteral
  infer_instance

instance builds_parenthesized : Builds parenthesized := by unfold parenthesized; infer_instance
instance builds_arguments : Builds arguments := by unfold arguments; infer_instance

instance builds_importCall (start : Nat) : Builds (importCall start) := by
  unfold importCall
  infer_instance

instance builds_importExpression : Builds importExpression := by
  unfold importExpression
  infer_instance

instance builds_regularExpression : Builds regularExpression := by
  unfold regularExpression
  infer_instance

instance builds_expressionTypeArguments : Builds expressionTypeArguments := by
  unfold expressionTypeArguments
  infer_instance

instance builds_memberName (start : Nat) (object : Node) [Regular object] :
    Builds (memberName start object) := by
  unfold memberName
  refine .bind inferInstance fun t _ => ?_
  split <;> infer_instance

instance builds_elementIndex (start : Nat) (object : Node) [Regular object] :
    Builds (elementIndex start object) := by
  unfold elementIndex
  infer_instance

instance regular_uninstantiated (n : Node) [h : Regular n] : Regular (uninstantiated n) := by
  unfold uninstantiated
  split
  · obtain ⟨_, _⟩ := regular_cons_iff.mp h.children
    infer_instance
  · infer_instance

instance builds_taggedTemplate (start : Nat) (function : Node) [Regular function] :
    Builds (taggedTemplate start function) := by
  obtain ⟨_, _⟩ := regular_pair_iff.mp (regular_uninstantiated function)
  unfold taggedTemplate
  infer_instance

instance builds_memberStep (start : Nat) (c : Chain) [Regular c] : Builds (memberStep start c) := by
  unfold memberStep
  refine .bind inferInstance fun t _ => ?_
  dsimp only
  split <;> infer_instance

instance builds_members (start : Nat) (c : Chain) [Regular c] : Builds (members start c) := by
  unfold members
  infer_instance

instance builds_callWith (start : Nat) (callee : Node) (types : List Node) [Regular callee]
    [Regular types] : Builds (callWith start callee types) := by
  obtain ⟨_, _⟩ := regular_pair_iff.mp (regular_uninstantiated callee)
  unfold callWith
  infer_instance

instance builds_callStep (start : Nat) (c : Chain) [Regular c] : Builds (callStep start c) := by
  unfold callStep
  infer_instance

instance builds_newExpression : Builds newExpression := by unfold newExpression; infer_instance

instance builds_atom : Builds atom := by
  unfold atom
  refine .bind inferInstance fun start _ => .bind inferInstance fun t _ => ?_
  split <;> infer_instance

instance regular_close (c : Chain) [Regular c] : Regular c.close := by
  unfold Chain.close
  split
  · split
    · next s e args hc =>
      have h := regular_chain_node c
      rw [hc] at h
      obtain ⟨_, _⟩ := regular_cons_iff.mp h.children
      infer_instance
    · infer_instance
  · infer_instance

instance builds_leftSide : Builds leftSide := by
  unfold leftSide
  infer_instance

instance builds_update : Builds update := by unfold update; infer_instance
instance builds_typeAssertion : Builds typeAssertion := by unfold typeAssertion; infer_instance
instance builds_unary : Builds unary := by unfold unary; infer_instance

instance builds_privateIn (level : Nat) : Builds (privateIn level) := by
  unfold privateIn
  infer_instance

instance builds_binaryStep (start level : Nat) (left : Node) [Regular left] :
    Builds (binaryStep start level left) := by
  unfold binaryStep
  infer_instance

instance builds_binary (level : Nat) : Builds (binary level) := by unfold binary; infer_instance

instance builds_yieldExpression : Builds yieldExpression := by
  unfold yieldExpression
  infer_instance

instance builds_conditionalRest (start : Nat) (arrowResult : Bool) (condition : Node)
    [Regular condition] : Builds (conditionalRest start arrowResult condition) := by
  unfold conditionalRest
  infer_instance

instance builds_targetOf (mark : String) (left : Node) [Regular left] :
    Builds (targetOf mark left) := by
  unfold targetOf
  split
  · split
    · next target h =>
      have := regular_of_asTarget? h
      infer_instance
    · infer_instance
  · infer_instance

instance builds_assignment (arrowResult : Bool) : Builds (assignment arrowResult) := by
  unfold assignment
  infer_instance

instance builds_expression : Builds expression := by unfold expression; infer_instance

/-! ### Statements -/

instance builds_condition : Builds condition := by unfold condition; infer_instance
instance builds_body : Builds body := by unfold body; infer_instance
instance builds_ifStatement : Builds ifStatement := by unfold ifStatement; infer_instance
instance builds_whileStatement : Builds whileStatement := by unfold whileStatement; infer_instance

instance builds_doWhileStatement : Builds doWhileStatement := by
  unfold doWhileStatement
  infer_instance

instance builds_withStatement : Builds withStatement := by unfold withStatement; infer_instance

instance builds_forTail (start : Nat) (init : List Node) [Regular init] :
    Builds (forTail start init) := by
  unfold forTail
  infer_instance

instance builds_forEachTail (start : Nat) (target : Node) [Regular target] :
    Builds (forEachTail start target) := by
  unfold forEachTail
  infer_instance

instance builds_forStatement : Builds forStatement := by
  unfold forStatement
  have (init : RegularValue Node) (start initStart : Nat) : Builds (match init.1.asTarget? with
      | some target => forEachTail start target
      | none => throw ⟨initStart⟩) := by
    split
    · next target h =>
      have := regular_of_asTarget? h
      infer_instance
    · infer_instance
  infer_instance

instance builds_jumpStatement : Builds jumpStatement := by unfold jumpStatement; infer_instance

instance builds_returnStatement : Builds returnStatement := by
  unfold returnStatement
  infer_instance

instance builds_throwStatement : Builds throwStatement := by unfold throwStatement; infer_instance
instance builds_caseBody : Builds caseBody := by unfold caseBody; infer_instance
instance builds_switchCase : Builds switchCase := by unfold switchCase; infer_instance

instance builds_switchStatement : Builds switchStatement := by
  unfold switchStatement
  infer_instance

instance builds_catchParameter : Builds catchParameter := by unfold catchParameter; infer_instance
instance builds_tryStatement : Builds tryStatement := by unfold tryStatement; infer_instance

instance builds_expressionStatement : Builds expressionStatement := by
  unfold expressionStatement
  infer_instance

instance builds_assignmentStatement : Builds assignmentStatement := by
  unfold assignmentStatement
  infer_instance

instance builds_letStatement (nested : Bool) : Builds (letStatement nested) := by
  unfold letStatement
  infer_instance

instance builds_decoratedStatement : Builds decoratedStatement := by
  unfold decoratedStatement
  infer_instance

instance builds_importStatement : Builds importStatement := by
  unfold importStatement
  infer_instance

instance builds_wordStatement (nested : Bool) (w : String) : Builds (wordStatement nested w) := by
  unfold wordStatement
  refine .bind inferInstance fun start _ => ?_
  split <;> infer_instance

instance builds_statement (nested : Bool) : Builds (statement nested) := by
  unfold statement
  refine .bind inferInstance fun t _ => ?_
  split <;> infer_instance

/-! ### Programs -/

instance builds_rule (goal : Goal) : Builds (rule goal) := by
  cases goal <;> unfold rule <;> infer_instance

/-- By induction on the depth: a rule that asks for a goal is answered from one level below. -/
theorem isRegular_answer (d : Dialect) (rounds depth : Nat) (context : Context) (goal : Goal)
    (c : Cursor) (n : Node) (c' : Cursor) (h : answer d rounds depth context goal c = .ok (n, c')) :
    n.IsRegular := by
  induction depth generalizing context goal c n c' with
  | zero => cases h
  | succ depth ih =>
    have henv : Env.IsRegular ⟨d, context, rounds, answer d rounds depth⟩ := ih
    exact regular_node_iff.mp ((builds_rule goal).regular henv h)

theorem regular_topStatement {env : Env} (henv : env.IsRegular) {c c' : Cursor} {n : Node}
    (h : topStatement env c = .ok (n, c')) : Regular n := (builds_parse _).regular henv h

theorem regular_readStatements {env : Env} (henv : env.IsRegular) (count : Nat)
    (acc : List (Cursor × Node)) (c : Cursor) [Regular acc] :
    Regular (readStatements env count acc c).statements := by
  induction count generalizing acc c with
  | zero => exact regular_reverse acc
  | succ count ih =>
    unfold readStatements
    split
    · exact regular_reverse acc
    · split
      · next s c' h =>
        have := regular_topStatement henv h
        exact ih ((c, s) :: acc) c'
      · exact regular_reverse acc

namespace Reading

theorem regular_result {r : Reading} [h : Regular r.statements] {body : List Node}
    (hbody : r.result = .ok body) : Regular body := by
  unfold result at hbody
  split at hbody
  · cases hbody
    refine regular_list_iff.mpr fun n hn => ?_
    obtain ⟨x, hx, rfl⟩ := List.mem_map.mp hn
    exact (regular_pair_iff.mp (regular_list_iff.mp h x hx)).2
  · cases hbody

theorem regular_again {r : Reading} {env : Env} (henv : env.IsRegular) {body : List Node}
    (hbody : r.again env = .ok body) : Regular body := by
  unfold again at hbody
  generalize r.statements.map (·.1) ++ r.refused.toList.map (·.1) = cursors at hbody
  induction cursors generalizing body with
  | nil =>
    cases hbody
    exact regular_nil
  | cons c cursors ih =>
    rw [List.mapM_cons] at hbody
    obtain ⟨n, hn, hbody⟩ := bind_eq_ok hbody
    rw [map_eq_pure_bind] at hn
    obtain ⟨⟨m, c'⟩, hc, hn⟩ := bind_eq_ok hn
    obtain ⟨ns, hns, hbody⟩ := bind_eq_ok hbody
    cases hn
    cases hbody
    have := regular_topStatement henv hc
    have := ih hns
    infer_instance

end Reading

theorem settledAll_eq_map (ns : List Node) : settledAll ns = ns.map settled := by
  induction ns with
  | nil => rfl
  | cons n ns ih => rw [settledAll, ih, List.map_cons]

theorem isFunctionValue_settled {n : Node} (h : Function.isFunctionValue n = true) :
    Function.isFunctionValue n.settled = true := by
  obtain ⟨kind, span, children⟩ := n
  cases kind <;> simp_all [Function.isFunctionValue, settled, Node.kind]

theorem takes_settledAll {kind : Kind} {children : List Node} (h : kind.Takes children) :
    kind.Takes (settledAll children) := by
  rw [settledAll_eq_map]
  cases kind with
  | importFrom | exportAll | exportFrom => simpa [Kind.Takes] using h
  | method =>
    obtain ⟨f, hf, hfunction⟩ := h
    exact ⟨f.settled, by simp [Option.mem_def.mp hf], isFunctionValue_settled hfunction⟩
  | _ => trivial

mutual

theorem regular_settled (n : Node) [h : Regular n] : Regular n.settled := by
  unfold settled
  split
  · infer_instance
  · next kind s children _ =>
    have hkind := (isRegular_mk.mp (regular_node_iff.mp h)).1
    have : Given (kind.Takes (settledAll children)) := ⟨takes_settledAll hkind⟩
    have := h.children
    have := regular_settledAll children
    infer_instance

theorem regular_settledAll (ns : List Node) [h : Regular ns] : Regular (settledAll ns) := by
  unfold settledAll
  split
  · infer_instance
  · next n ns =>
    obtain ⟨_, _⟩ := regular_cons_iff.mp h
    have := regular_settled n
    have := regular_settledAll ns
    infer_instance

end

theorem isRegular_parseProgram {d : Dialect} {text : String} {tree : Node}
    (h : parseProgram d text = .ok tree) : tree.IsRegular := by
  have henv (size : Nat) (context : Context) :
      Env.IsRegular ⟨d, context, size, answer d size (16 * size)⟩ :=
    isRegular_answer d size (16 * size)
  have hread (size : Nat) (context : Context) (c : Cursor) := regular_readStatements
    (henv size context) size [] c
  unfold parseProgram at h
  dsimp only at h
  split at h
  · obtain ⟨body, hbody, h⟩ := bind_eq_ok h
    have := Reading.regular_again (henv _ _) hbody
    cases h
    exact regular_node_iff.mp (regular_settled _)
  · obtain ⟨body, hbody, h⟩ := bind_eq_ok h
    have := Reading.regular_result hbody
    cases h
    exact regular_node_iff.mp (regular_settled _)

end Syntax

/-- In the tree of a file, the declarations that name another module have no children, and the value
of every method is a function. -/
theorem SourceFile.isRegular_of_tree? {file : SourceFile} {tree : Syntax.Node}
    (h : file.tree? = some tree) : tree.IsRegular := by
  unfold tree? at h
  cases htree : Syntax.parseProgram (dialectOf file.id) file.content with
  | error e =>
    rw [htree] at h
    cases h
  | ok n =>
    rw [htree] at h
    cases h
    exact Syntax.isRegular_parseProgram htree

end ScriptAtlas
