import Mathlib.Data.List.GetD
import Mathlib.Data.List.Nodup
import Lox.Proofs.Syntax.Relabel

/-!
# Trees of one shape

Trees of one shape have as many uses, and each is the other one with other
identities: which ones, the lists of identities say.
-/

namespace Lox

variable {use : UseId → UseId}

/-! ## Lists of identities -/

/-- Identities that are all different can be replaced by any others. -/
theorem exists_map_eq {ids others : List UseId} (nodup : ids.Nodup)
    (sameLength : others.length = ids.length) : ∃ use : UseId → UseId, others = ids.map use := by
  refine ⟨fun id => others.getD (ids.idxOf id) 0, List.ext_getElem ?_ ?_⟩
  · rw [List.length_map, sameLength]
  · intro index inOthers inIds
    rw [List.length_map] at inIds
    rw [List.getElem_map, nodup.idxOf_getElem index inIds, List.getD_eq_getElem _ _ inOthers]

/-- Lists put together are relabelled part by part. -/
theorem map_parts {first second ids more : List UseId} (sameLength : first.length = ids.length)
    (both : first ++ second = (ids ++ more).map use) :
    first = ids.map use ∧ second = more.map use := by
  rw [List.map_append] at both
  apply List.append_inj both
  rw [sameLength, List.length_map]

/-! ## Expressions -/

namespace Expr

theorem length_uses {expr other : Expr} (same : other.shape = expr.shape) :
    other.uses.length = expr.uses.length := by
  have lengths := congrArg (fun shape => shape.uses.length) same
  simpa only [shape, uses_relabel, List.length_map] using lengths

mutual

theorem eq_relabel : ∀ (expr other : Expr), other.shape = expr.shape →
    other.uses = expr.uses.map use → other = expr.relabel use id
  | .literal value, other, same, _ => by
      cases other with
      | literal => simpa [shape, relabel] using same
      | _ => simp [shape, relabel] at same
  | .group inner, other, same, ids => by
      cases other with
      | group otherInner =>
          simp only [shape, relabel, group.injEq] at same
          rw [relabel, ← eq_relabel inner otherInner same ids]
      | _ => simp [shape, relabel] at same
  | .binary left operator right, other, same, ids => by
      cases other with
      | binary otherLeft otherOperator otherRight =>
          simp only [shape, relabel, Token.moved_id, binary.injEq] at same
          rcases same with ⟨sameLeft, rfl, sameRight⟩
          rcases map_parts (length_uses sameLeft) ids with ⟨leftIds, rightIds⟩
          rw [relabel, ← eq_relabel left otherLeft sameLeft leftIds,
            ← eq_relabel right otherRight sameRight rightIds, Token.moved_id]
      | _ => simp [shape, relabel] at same
  | .unary operator operand, other, same, ids => by
      cases other with
      | unary otherOperator otherOperand =>
          simp only [shape, relabel, Token.moved_id, unary.injEq] at same
          rcases same with ⟨rfl, sameOperand⟩
          rw [relabel, ← eq_relabel operand otherOperand sameOperand ids, Token.moved_id]
      | _ => simp [shape, relabel] at same
  | .logical left operator right, other, same, ids => by
      cases other with
      | logical otherLeft otherOperator otherRight =>
          simp only [shape, relabel, Token.moved_id, logical.injEq] at same
          rcases same with ⟨sameLeft, rfl, sameRight⟩
          rcases map_parts (length_uses sameLeft) ids with ⟨leftIds, rightIds⟩
          rw [relabel, ← eq_relabel left otherLeft sameLeft leftIds,
            ← eq_relabel right otherRight sameRight rightIds, Token.moved_id]
      | _ => simp [shape, relabel] at same
  | .var id name, other, same, ids => by
      cases other with
      | var otherId otherName =>
          simp only [shape, relabel, Name.moved_id, var.injEq, true_and] at same
          obtain rfl := same
          rw [relabel, (List.cons.inj ids).1, Name.moved_id]
      | _ => simp [shape, relabel] at same
  | .assign id name value, other, same, ids => by
      cases other with
      | assign otherId otherName otherValue =>
          simp only [shape, relabel, Name.moved_id, assign.injEq, true_and] at same
          rcases same with ⟨rfl, sameValue⟩
          rcases List.cons.inj ids with ⟨first, valueIds⟩
          rw [relabel, first, ← eq_relabel value otherValue sameValue valueIds, Name.moved_id]
      | _ => simp [shape, relabel] at same
  | .call callee line arguments, other, same, ids => by
      cases other with
      | call otherCallee otherLine otherArguments =>
          simp only [shape, relabel, call.injEq] at same
          rcases same with ⟨sameCallee, sameLine, sameArguments⟩
          rcases map_parts (length_uses sameCallee) ids with ⟨calleeIds, argumentIds⟩
          rw [relabel, ← eq_relabel callee otherCallee sameCallee calleeIds,
            ← eq_relabelEach arguments otherArguments sameArguments argumentIds, ← sameLine]
          rfl
      | _ => simp [shape, relabel] at same
  | .get object name, other, same, ids => by
      cases other with
      | get otherObject otherName =>
          simp only [shape, relabel, Name.moved_id, get.injEq] at same
          rcases same with ⟨sameObject, rfl⟩
          rw [relabel, ← eq_relabel object otherObject sameObject ids, Name.moved_id]
      | _ => simp [shape, relabel] at same
  | .set object name value, other, same, ids => by
      cases other with
      | set otherObject otherName otherValue =>
          simp only [shape, relabel, Name.moved_id, set.injEq] at same
          rcases same with ⟨sameObject, rfl, sameValue⟩
          rcases map_parts (length_uses sameObject) ids with ⟨objectIds, valueIds⟩
          rw [relabel, ← eq_relabel object otherObject sameObject objectIds,
            ← eq_relabel value otherValue sameValue valueIds, Name.moved_id]
      | _ => simp [shape, relabel] at same
  | .this id line, other, same, ids => by
      cases other with
      | this otherId otherLine =>
          simp only [shape, relabel, this.injEq, true_and] at same
          rw [relabel, (List.cons.inj ids).1, ← same]
          rfl
      | _ => simp [shape, relabel] at same
  | .super id line method, other, same, ids => by
      cases other with
      | super otherId otherLine otherMethod =>
          simp only [shape, relabel, Name.moved_id, super.injEq, true_and] at same
          rcases same with ⟨sameLine, rfl⟩
          rw [relabel, (List.cons.inj ids).1, Name.moved_id, ← sameLine]
          rfl
      | _ => simp [shape, relabel] at same

theorem eq_relabelEach : ∀ exprs others : List Expr,
    relabelEach (fun _ => 0) id others = relabelEach (fun _ => 0) id exprs →
    usesEach others = (usesEach exprs).map use → others = relabelEach use id exprs
  | [], others, same, ids => by
      cases others with
      | nil => rw [relabelEach]
      | cons => simp [relabelEach] at same
  | first :: rest, others, same, ids => by
      cases others with
      | nil => simp [relabelEach] at same
      | cons otherFirst otherRest =>
          simp only [relabelEach, List.cons.injEq] at same
          rcases map_parts (length_uses same.1) ids with ⟨firstIds, restIds⟩
          rw [relabelEach, ← eq_relabel first otherFirst same.1 firstIds,
            ← eq_relabelEach rest otherRest same.2 restIds]

end

theorem eq_map_relabel {expr other : Option Expr}
    (same : other.map (relabel (fun _ => 0) id) = expr.map (relabel (fun _ => 0) id))
    (ids : optionUses other = (optionUses expr).map use) : other = expr.map (·.relabel use id) := by
  cases expr with
  | none =>
      cases other with
      | none => rfl
      | some => cases same
  | some value =>
      cases other with
      | none => cases same
      | some otherValue =>
          exact congrArg some (eq_relabel value otherValue (Option.some.inj same) ids)

end Expr

/-! ## Statements -/

namespace Stmt

theorem length_ids {stmt other : Stmt} (same : other.shape = stmt.shape) :
    other.ids.length = stmt.ids.length := by
  have lengths := congrArg (fun shape => shape.ids.length) same
  simpa only [shape, ids_relabel, List.length_map] using lengths

theorem length_optionUses {expr other : Option Expr}
    (same : other.map (Expr.relabel (fun _ => 0) id) = expr.map (Expr.relabel (fun _ => 0) id)) :
    (Expr.optionUses other).length = (Expr.optionUses expr).length := by
  have lengths := congrArg (fun shape => (Expr.optionUses shape).length) same
  simpa only [Expr.optionUses_relabel, List.length_map] using lengths

theorem length_functionIds {declaration other : FunctionDecl}
    (same : functionShape other = functionShape declaration) :
    (functionIds other).length = (functionIds declaration).length := by
  have lengths := congrArg (fun shape => (functionIds shape).length) same
  simpa only [functionShape, functionIds_relabel, List.length_map] using lengths

mutual

theorem eq_relabel : ∀ stmt other : Stmt, other.shape = stmt.shape →
    other.ids = stmt.ids.map use → other = stmt.relabel use id
  | .expression value, other, same, ids => by
      cases other with
      | expression otherValue =>
          simp only [shape, relabel, expression.injEq] at same
          rw [relabel, ← value.eq_relabel otherValue same ids]
      | _ => simp [shape, relabel, relabel_if] at same
  | .print value, other, same, ids => by
      cases other with
      | print otherValue =>
          simp only [shape, relabel, print.injEq] at same
          rw [relabel, ← value.eq_relabel otherValue same ids]
      | _ => simp [shape, relabel, relabel_if] at same
  | .var name initializer, other, same, ids => by
      cases other with
      | var otherName otherInitializer =>
          simp only [shape, relabel, Name.moved_id, var.injEq] at same
          rcases same with ⟨rfl, sameInitializer⟩
          rw [relabel, ← Expr.eq_map_relabel sameInitializer ids, Name.moved_id]
      | _ => simp [shape, relabel, relabel_if] at same
  | .block body, other, same, ids => by
      cases other with
      | block otherBody =>
          simp only [shape, relabel, block.injEq] at same
          rw [relabel, ← eq_relabelEach body otherBody same ids]
      | _ => simp [shape, relabel, relabel_if] at same
  | .if_ condition thenBranch none, other, same, ids => by
      cases other with
      | if_ otherCondition otherThen otherElse =>
          simp only [shape, relabel_if, if_.injEq, Option.map_none, Option.map_eq_none_iff] at same
          rcases same with ⟨sameCondition, sameThen, rfl⟩
          rcases map_parts (Expr.length_uses sameCondition) ids with ⟨conditionIds, thenIds⟩
          rw [relabel, ← condition.eq_relabel otherCondition sameCondition conditionIds,
            ← eq_relabel thenBranch otherThen sameThen thenIds]
      | _ => simp [shape, relabel] at same
  | .if_ condition thenBranch (some elseBranch), other, same, ids => by
      cases other with
      | if_ otherCondition otherThen otherElse =>
          cases otherElse with
          | none => simp [shape, relabel_if] at same
          | some otherElse =>
              simp only [shape, relabel, if_.injEq, Option.some.injEq] at same
              rcases same with ⟨sameCondition, sameThen, sameElse⟩
              rw [Stmt.ids, Stmt.ids, List.append_assoc, List.append_assoc] at ids
              rcases map_parts (Expr.length_uses sameCondition) ids with ⟨conditionIds, restIds⟩
              rcases map_parts (length_ids sameThen) restIds with ⟨thenIds, elseIds⟩
              rw [relabel, ← condition.eq_relabel otherCondition sameCondition conditionIds,
                ← eq_relabel thenBranch otherThen sameThen thenIds,
                ← eq_relabel elseBranch otherElse sameElse elseIds]
      | _ => simp [shape, relabel] at same
  | .while_ condition body, other, same, ids => by
      cases other with
      | while_ otherCondition otherBody =>
          simp only [shape, relabel, while_.injEq] at same
          rcases same with ⟨sameCondition, sameBody⟩
          rcases map_parts (Expr.length_uses sameCondition) ids with ⟨conditionIds, bodyIds⟩
          rw [relabel, ← condition.eq_relabel otherCondition sameCondition conditionIds,
            ← eq_relabel body otherBody sameBody bodyIds]
      | _ => simp [shape, relabel, relabel_if] at same
  | .function declaration, other, same, ids => by
      cases other with
      | function otherDeclaration =>
          simp only [shape, relabel, function.injEq] at same
          rw [relabel, ← eq_relabelFunction declaration otherDeclaration same ids]
      | _ => simp [shape, relabel, relabel_if] at same
  | .return_ line value, other, same, ids => by
      cases other with
      | return_ otherLine otherValue =>
          simp only [shape, relabel, return_.injEq] at same
          rcases same with ⟨sameLine, sameValue⟩
          rw [relabel, ← Expr.eq_map_relabel sameValue ids, ← sameLine]
          rfl
      | _ => simp [shape, relabel, relabel_if] at same
  | .class_ name superclass methods, other, same, ids => by
      cases other with
      | class_ otherName otherSuperclass otherMethods =>
          simp only [shape, relabel, Name.moved_id, class_.injEq] at same
          rcases same with ⟨rfl, sameSuperclass, sameMethods⟩
          rcases map_parts (length_optionUses sameSuperclass) ids with ⟨superclassIds, methodIds⟩
          rw [relabel, ← Expr.eq_map_relabel sameSuperclass superclassIds,
            ← eq_relabelMethods methods otherMethods sameMethods methodIds, Name.moved_id]
      | _ => simp [shape, relabel, relabel_if] at same

theorem eq_relabelEach : ∀ stmts others : List Stmt,
    relabelEach (fun _ => 0) id others = relabelEach (fun _ => 0) id stmts →
    idsEach others = (idsEach stmts).map use → others = relabelEach use id stmts
  | [], others, same, _ => by
      cases others with
      | nil => rw [relabelEach]
      | cons => simp [relabelEach] at same
  | first :: rest, others, same, ids => by
      cases others with
      | nil => simp [relabelEach] at same
      | cons otherFirst otherRest =>
          simp only [relabelEach, List.cons.injEq] at same
          rcases map_parts (length_ids same.1) ids with ⟨firstIds, restIds⟩
          rw [relabelEach, ← eq_relabel first otherFirst same.1 firstIds,
            ← eq_relabelEach rest otherRest same.2 restIds]

theorem eq_relabelFunction : ∀ declaration other : FunctionDecl,
    functionShape other = functionShape declaration →
    functionIds other = (functionIds declaration).map use →
    other = relabelFunction use id declaration
  | ⟨name, params, body⟩, ⟨otherName, otherParams, otherBody⟩, same, ids => by
      simp only [functionShape, relabelFunction, funext Name.moved_id, List.map_id', Name.moved_id,
        FunctionDecl.mk.injEq] at same
      rcases same with ⟨rfl, rfl, sameBody⟩
      rw [relabelFunction, ← eq_relabelEach body otherBody sameBody ids, Name.moved_id,
        funext Name.moved_id, List.map_id']

theorem eq_relabelMethods : ∀ methods others : List FunctionDecl,
    relabelMethods (fun _ => 0) id others = relabelMethods (fun _ => 0) id methods →
    methodIds others = (methodIds methods).map use → others = relabelMethods use id methods
  | [], others, same, _ => by
      cases others with
      | nil => rw [relabelMethods]
      | cons => simp [relabelMethods] at same
  | first :: rest, others, same, ids => by
      cases others with
      | nil => simp [relabelMethods] at same
      | cons otherFirst otherRest =>
          simp only [relabelMethods, List.cons.injEq] at same
          rcases map_parts (length_functionIds same.1) ids with ⟨firstIds, restIds⟩
          rw [relabelMethods, ← eq_relabelFunction first otherFirst same.1 firstIds,
            ← eq_relabelMethods rest otherRest same.2 restIds]

end

/-- A program whose uses all have identities of their own can be relabelled to any
other program of its shape. -/
theorem exists_eq_relabelEach {stmts others : List Stmt} (nodup : (idsEach stmts).Nodup)
    (same : others.map shape = stmts.map shape) :
    ∃ use : UseId → UseId, others = relabelEach use id stmts := by
  have shapes : relabelEach (fun _ => 0) id others = relabelEach (fun _ => 0) id stmts := by
    rw [relabelEach_eq_map, relabelEach_eq_map]
    exact same
  have lengths := congrArg (fun shapes => (idsEach shapes).length) shapes
  simp only [idsEach_relabel, List.length_map] at lengths
  rcases exists_map_eq nodup lengths with ⟨use, ids⟩
  exact ⟨use, eq_relabelEach stmts others shapes ids⟩

end Stmt

end Lox
