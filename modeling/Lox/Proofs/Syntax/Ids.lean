import Lox.Syntax.Uses

/-!
# The identities in a tree

All identities of uses, those in function bodies included, and identities that
are fresh: each of a range of identities occurs at most once, and no other does.
-/

namespace Lox

namespace Stmt

mutual

/-- The identities of all uses in a statement. -/
def ids : Stmt → List UseId
  | .expression value => value.uses
  | .print value => value.uses
  | .var _ initializer => Expr.optionUses initializer
  | .block body => idsEach body
  | .if_ condition thenBranch none => condition.uses ++ thenBranch.ids
  | .if_ condition thenBranch (some elseBranch) =>
      condition.uses ++ thenBranch.ids ++ elseBranch.ids
  | .while_ condition body => condition.uses ++ body.ids
  | .function declaration => functionIds declaration
  | .return_ _ value => Expr.optionUses value
  | .class_ _ superclass methods => Expr.optionUses superclass ++ methodIds methods

/-- The identities of all uses in statements. -/
def idsEach : List Stmt → List UseId
  | [] => []
  | first :: rest => first.ids ++ idsEach rest

/-- The identities of all uses in the body of a function. -/
def functionIds : FunctionDecl → List UseId
  | ⟨_, _, body⟩ => idsEach body

/-- The identities of all uses in the bodies of methods. -/
def methodIds : List FunctionDecl → List UseId
  | [] => []
  | first :: rest => functionIds first ++ methodIds rest

end

theorem idsEach_append (before after : List Stmt) :
    idsEach (before ++ after) = idsEach before ++ idsEach after := by
  induction before with
  | nil => rfl
  | cons first rest inductionHypothesis =>
      rw [List.cons_append, idsEach, inductionHypothesis, idsEach, List.append_assoc]

theorem methodIds_append (before after : List FunctionDecl) :
    methodIds (before ++ after) = methodIds before ++ methodIds after := by
  induction before with
  | nil => rfl
  | cons first rest inductionHypothesis =>
      rw [List.cons_append, methodIds, inductionHypothesis, methodIds, List.append_assoc]

theorem ids_if (condition : Expr) (thenBranch : Stmt) (elseBranch : Option Stmt) :
    (Stmt.if_ condition thenBranch elseBranch).ids =
      condition.uses ++ thenBranch.ids ++ idsEach elseBranch.toList := by
  cases elseBranch with
  | none => simp [ids, idsEach]
  | some stmt => simp [ids, idsEach]

end Stmt

/-- Only identities from `low` on and below `high` occur, and none twice. -/
def Fresh (low high : Nat) (ids : List Nat) : Prop :=
  ∀ id, ids.count id ≤ if low ≤ id ∧ id < high then 1 else 0

namespace Fresh

variable {low middle high : Nat} {ids more : List Nat}

theorem nil : Fresh low high [] :=
  fun _ => Nat.zero_le _

theorem nodup (fresh : Fresh low high ids) : ids.Nodup := by
  rw [List.nodup_iff_count]
  intro id
  have bounded := fresh id
  split at bounded <;> omega

theorem mem_bounds (fresh : Fresh low high ids) {id : Nat} (member : id ∈ ids) :
    low ≤ id ∧ id < high := by
  have bounded := fresh id
  have positive := List.count_pos_iff.mpr member
  split at bounded
  next inside => exact inside
  next => omega

theorem of_count_le (fresh : Fresh low high ids)
    (fewer : ∀ id, more.count id ≤ ids.count id) : Fresh low high more :=
  fun id => Nat.le_trans (fewer id) (fresh id)

theorem append (first : Fresh low middle ids) (second : Fresh middle high more)
    (ordered : middle ≤ high) (bounded : low ≤ middle) : Fresh low high (ids ++ more) := by
  intro id
  have inFirst := first id
  have inSecond := second id
  rw [List.count_append]
  by_cases below : id < middle
  · have outside : ¬ (middle ≤ id ∧ id < high) := by omega
    rw [if_neg outside] at inSecond
    split at inFirst <;> split <;> omega
  · have outside : ¬ (low ≤ id ∧ id < middle) := by omega
    rw [if_neg outside] at inFirst
    split at inSecond <;> split <;> omega

theorem mono (fresh : Fresh low middle ids) (ordered : middle ≤ high) : Fresh low high ids := by
  intro id
  have bounded := fresh id
  split at bounded <;> split <;> omega

theorem singleton (id : Nat) : Fresh id (id + 1) [id] := by
  intro other
  rw [List.count_singleton]
  by_cases same : other = id
  · simp [same]
  · have different : (id == other) = false := by simpa using Ne.symm same
    simp [different]

end Fresh

end Lox
