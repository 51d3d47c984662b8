import Mathlib
import Lox.Proofs.Resolution.Recordings
import Lox.Proofs.Session.Histories

/-!
# Identities are unique

Whatever token lists are parsed one after the other, and whether or not they parse, no
two uses in the trees that come of them have the same identity.  So the distance that
resolution records for a use never takes the place of one that belongs to another use,
in whatever order the trees are resolved, resolved again and released.
-/

namespace Lox

/-! ## Calls of the parser -/

/-- A token list to parse, as a program or as an expression. -/
inductive ParseCall where
  | program (tokens : List Token)
  | expression (tokens : List Token)

/-- What the parser returns: a program, an expression, or nothing but errors. -/
inductive ParseResult where
  | program (stmts : List Stmt)
  | expression (expr : Expr)
  | failed

/-- The identities of all uses in the tree. -/
def ParseResult.ids : ParseResult → List UseId
  | .program stmts => Stmt.idsEach stmts
  | .expression expr => expr.uses
  | .failed => []

/-- The result of a call that gives out identities from `nextId` on, and the next
identity behind it. -/
def ParseCall.run (nextId : UseId) : ParseCall → ParseResult × UseId
  | .program tokens =>
      match parseProgram nextId tokens with
      | (.ok stmts, finalId) => (.program stmts, finalId)
      | (.error _, finalId) => (.failed, finalId)
  | .expression tokens =>
      match parseExpression nextId tokens with
      | (.ok expr, finalId) => (.expression expr, finalId)
      | (.error _, finalId) => (.failed, finalId)

/-- The results of calls one after the other. -/
def parseAll (nextId : UseId) : List ParseCall → List ParseResult
  | [] => []
  | call :: rest => (call.run nextId).1 :: parseAll (call.run nextId).2 rest

theorem ParseCall.run_fresh (call : ParseCall) (nextId : UseId) :
    Fresh nextId (call.run nextId).2 (call.run nextId).1.ids := by
  cases call with
  | program tokens =>
      rw [run]
      split
      next stmts finalId parsed => exact parseProgram_fresh parsed
      next => exact .nil
  | expression tokens =>
      rw [run]
      split
      next expr finalId parsed => exact parseExpression_fresh parsed
      next => exact .nil

theorem ParseCall.nextId_le_run (call : ParseCall) (nextId : UseId) :
    nextId ≤ (call.run nextId).2 := by
  cases call with
  | program tokens =>
      have ascending := parseProgram_nextId_le nextId tokens
      rw [run]
      split
      next parsed => rwa [parsed] at ascending
      next parsed => rwa [parsed] at ascending
  | expression tokens =>
      have ascending := parseExpression_nextId_le nextId tokens
      rw [run]
      split
      next parsed => rwa [parsed] at ascending
      next parsed => rwa [parsed] at ascending

/-- No identity is given out that was given out before. -/
theorem le_of_mem_parseAll {nextId : UseId} {calls : List ParseCall} {result : ParseResult}
    (returned : result ∈ parseAll nextId calls) {id : UseId} (member : id ∈ result.ids) :
    nextId ≤ id := by
  induction calls generalizing nextId with
  | nil => cases returned
  | cons call rest inductionHypothesis =>
      rw [parseAll] at returned
      rcases List.mem_cons.mp returned with rfl | later
      · exact ((call.run_fresh nextId).mem_bounds member).1
      · exact Nat.le_trans (call.nextId_le_run nextId) (inductionHypothesis later)

/-- All identities in the second tree are larger than those in the first. -/
def ParseResult.Precedes (earlier later : ParseResult) : Prop :=
  ∀ id ∈ earlier.ids, ∀ other ∈ later.ids, id < other

theorem pairwise_parseAll (nextId : UseId) (calls : List ParseCall) :
    (parseAll nextId calls).Pairwise ParseResult.Precedes := by
  induction calls generalizing nextId with
  | nil => exact .nil
  | cons call rest inductionHypothesis =>
      rw [parseAll, List.pairwise_cons]
      refine ⟨?_, inductionHypothesis (call.run nextId).2⟩
      intro later returned id member other otherMember
      have bounds := (call.run_fresh nextId).mem_bounds member
      exact Nat.lt_of_lt_of_le bounds.2 (le_of_mem_parseAll returned otherMember)

theorem nodup_ids_of_mem_parseAll {nextId : UseId} {calls : List ParseCall}
    {result : ParseResult} (returned : result ∈ parseAll nextId calls) : result.ids.Nodup := by
  induction calls generalizing nextId with
  | nil => cases returned
  | cons call rest inductionHypothesis =>
      rw [parseAll] at returned
      rcases List.mem_cons.mp returned with rfl | later
      · exact (call.run_fresh nextId).nodup
      · exact inductionHypothesis later

theorem nodup_parseAll (nextId : UseId) (calls : List ParseCall) :
    ((parseAll nextId calls).flatMap ParseResult.ids).Nodup := by
  rw [List.nodup_flatMap]
  refine ⟨fun result returned => nodup_ids_of_mem_parseAll returned, ?_⟩
  apply (pairwise_parseAll nextId calls).imp
  intro earlier later precedes id member otherMember
  exact Nat.lt_irrefl id (precedes id member id otherMember)

/-! ## Trees by number -/

/-- The program that the call of this number returned, and no statements if it returned
none. -/
def programOf (results : List ParseResult) (number : Nat) : List Stmt :=
  match results[number]? with
  | some (.program stmts) => stmts
  | _ => []

theorem mem_ids_of_programOf {results : List ParseResult} {number : Nat} {id : UseId}
    (member : id ∈ Stmt.idsEach (programOf results number)) :
    ∃ bound : number < results.length, id ∈ results[number].ids := by
  unfold programOf at member
  split at member
  next stmts found =>
    obtain ⟨bound, tree⟩ := List.getElem?_eq_some_iff.mp found
    refine ⟨bound, ?_⟩
    rw [tree]
    exact member
  next =>
    rw [Stmt.idsEach] at member
    cases member

/-- An identity occurs in the programs of one call only. -/
theorem number_unique {results : List ParseResult}
    (ordered : results.Pairwise ParseResult.Precedes) {number other : Nat} {id : UseId}
    (member : id ∈ Stmt.idsEach (programOf results number))
    (otherMember : id ∈ Stmt.idsEach (programOf results other)) : number = other := by
  obtain ⟨bound, inTree⟩ := mem_ids_of_programOf member
  obtain ⟨otherBound, inOther⟩ := mem_ids_of_programOf otherMember
  rw [List.pairwise_iff_getElem] at ordered
  by_contra different
  rcases Nat.lt_or_gt_of_ne different with before | behind
  · exact Nat.lt_irrefl id (ordered number other bound otherBound before id inTree id inOther)
  · exact Nat.lt_irrefl id (ordered other number otherBound bound behind id inOther id inTree)

/-! ## Distances -/

/-- What may happen to the table of distances: the program that the call of this number
returned is resolved, where these global names exist, or it is released. -/
inductive TableEvent where
  | resolve (globals : List String) (number : Nat)
  | release (number : Nat)

/-- What resolution finds in the program that the call of this number returned. -/
def usesOf (results : List ParseResult) (globals : List String) (number : Nat) : List Use :=
  (resolveProgram globals (programOf results number)).uses

/-- One event. -/
def Machine.after (results : List ParseResult) (machine : Machine) : TableEvent → Machine
  | .resolve globals number => machine.record (usesOf results globals number)
  | .release number => machine.release (programOf results number)

theorem mem_ids_of_usesOf {results : List ParseResult} {globals : List String} {number : Nat}
    {use : Use} (recorded : use ∈ usesOf results globals number) :
    use.id ∈ Stmt.idsEach (programOf results number) := by
  have bound := count_resolveProgram_uses globals (programOf results number) use.id
  have positive := List.count_pos_iff.mpr (List.mem_map_of_mem (f := Use.id) recorded)
  exact List.count_pos_iff.mp (Nat.lt_of_lt_of_le positive bound)

/-- A distance in the table was just recorded or was there before. -/
theorem Machine.getElem?_record_cases {machine : Machine} {uses : List Use} {id : UseId}
    {distance : Nat} (entry : (machine.record uses).distances[id]? = some distance) :
    (∃ use ∈ uses, use.id = id ∧ use.distance = some distance) ∨
      machine.distances[id]? = some distance := by
  change (uses.foldl recordUse machine.distances)[id]? = _ at entry
  generalize machine.distances = distances at entry ⊢
  induction uses generalizing distances with
  | nil => exact .inr entry
  | cons first rest inductionHypothesis =>
      rw [List.foldl_cons] at entry
      rcases inductionHypothesis (recordUse distances first) entry with
        ⟨use, inRest, found⟩ | before
      · exact .inl ⟨use, List.mem_cons_of_mem first inRest, found⟩
      · rw [getElem?_recordUse] at before
        by_cases same : first.id = id
        · rw [if_pos same, Option.or_eq_some_iff] at before
          rcases before with found | ⟨-, kept⟩
          · exact .inl ⟨first, List.mem_cons_self, same, found⟩
          · exact .inr kept
        · rw [if_neg same] at before
          exact .inr before

/-- A distance in the table was there at first, or was recorded by one of the events. -/
theorem Machine.getElem?_after_cases {results : List ParseResult} {machine : Machine}
    {events : List TableEvent} {id : UseId} {distance : Nat}
    (entry : (events.foldl (Machine.after results) machine).distances[id]? = some distance) :
    (∃ globals number, .resolve globals number ∈ events ∧
        ∃ use ∈ usesOf results globals number, use.id = id ∧ use.distance = some distance) ∨
      machine.distances[id]? = some distance := by
  induction events generalizing machine with
  | nil => exact .inr entry
  | cons event rest inductionHypothesis =>
      rw [List.foldl_cons] at entry
      rcases inductionHypothesis entry with ⟨globals, number, later, found⟩ | before
      · exact .inl ⟨globals, number, List.mem_cons_of_mem event later, found⟩
      · cases event with
        | resolve globals number =>
            rcases getElem?_record_cases before with found | kept
            · exact .inl ⟨globals, number, List.mem_cons_self, found⟩
            · exact .inr kept
        | release number =>
            rw [after, getElem?_release] at before
            split at before
            · cases before
            · exact .inr before

/-- In one pass, resolution records at most one distance for each identity. -/
theorem nodup_usesOf (nextId : UseId) (calls : List ParseCall) (globals : List String)
    (number : Nat) : ((usesOf (parseAll nextId calls) globals number).map Use.id).Nodup := by
  rw [List.nodup_iff_count]
  intro id
  apply Nat.le_trans (count_resolveProgram_uses globals _ id)
  rw [programOf]
  split
  next stmts found =>
    have nodup := nodup_ids_of_mem_parseAll (List.mem_of_getElem? found)
    exact List.nodup_iff_count.mp nodup id
  next => exact Nat.zero_le 1

/-- The identities of all uses in the trees that the parser returns, one call after the
other, are distinct, and they are larger from call to call, whether or not the calls
between them fail.  What resolution records belongs to uses in the tree that it resolves.
So whatever programs among these have been resolved or released before, where resolution
records a distance for a use and one is in the table already, it was recorded for the
same use, when the same tree was resolved before. -/
theorem identities_are_unique (nextId : UseId) (calls : List ParseCall) :
    ((parseAll nextId calls).flatMap ParseResult.ids).Nodup ∧
      (parseAll nextId calls).Pairwise ParseResult.Precedes ∧
      (∀ globals number, ∀ use ∈ usesOf (parseAll nextId calls) globals number,
        use.id ∈ Stmt.idsEach (programOf (parseAll nextId calls) number)) ∧
      ∀ machine : Machine, (∀ id, nextId ≤ id → machine.distances[id]? = none) →
        ∀ (events : List TableEvent) (globals : List String) (number : Nat)
          (done rest : List Use) (use : Use) (distance : Nat),
          usesOf (parseAll nextId calls) globals number = done ++ use :: rest →
          ((events.foldl (Machine.after (parseAll nextId calls)) machine).record
            done).distances[use.id]? = some distance →
          ∃ before, .resolve before number ∈ events ∧
            ∃ prior ∈ usesOf (parseAll nextId calls) before number,
              prior.id = use.id ∧ prior.distance = some distance := by
  refine ⟨nodup_parseAll nextId calls, pairwise_parseAll nextId calls,
    fun _ _ _ recorded => mem_ids_of_usesOf recorded, ?_⟩
  intro machine unknown events globals number done rest use distance uses entry
  have recorded : use ∈ usesOf (parseAll nextId calls) globals number := by simp [uses]
  have inTree := mem_ids_of_usesOf recorded
  rcases Machine.getElem?_record_cases entry with ⟨prior, earlier, same, -⟩ | before
  · -- not in the same pass, where every identity is recorded once
    have nodup := nodup_usesOf nextId calls globals number
    rw [uses, List.map_append, List.nodup_append] at nodup
    have different := nodup.2.2 prior.id (List.mem_map_of_mem earlier) use.id (by simp)
    exact absurd same different
  · rcases Machine.getElem?_after_cases before with
      ⟨others, number', resolved, prior, found, same, priorDistance⟩ | initially
    · have inOther := mem_ids_of_usesOf found
      rw [same] at inOther
      obtain rfl := number_unique (pairwise_parseAll nextId calls) inOther inTree
      exact ⟨others, resolved, prior, found, same, priorDistance⟩
    · obtain ⟨bound, member⟩ := mem_ids_of_programOf inTree
      rw [unknown use.id (le_of_mem_parseAll (List.getElem_mem bound) member)] at initially
      cases initially

/-- A call that fails behind a use, and two that do not. -/
def mixedCalls : List ParseCall :=
  [.program (scanTokens "a = ;"), .expression (scanTokens "b"),
    .program (scanTokens "\x7b var a; print a; \x7d")]

theorem mixedCalls_results :
    parseAll 0 mixedCalls =
      [.failed, .expression (.var 1 ⟨"b", 1⟩),
        .program [.block [.var ⟨"a", 1⟩ none, .print (.var 2 ⟨"a", 1⟩)]]] := by
  simp only [mixedCalls, scanTokens_eq]
  cbv

theorem mixedCalls_usesOf : usesOf (parseAll 0 mixedCalls) ["clock"] 2 = [⟨2, "a", some 0⟩] := by
  rw [mixedCalls_results]
  decide +kernel

/-- When the last tree is resolved again, its own distance is in the table. -/
theorem mixedCalls_unique :
    ((parseAll 0 mixedCalls).flatMap ParseResult.ids) = [1, 2] ∧
      ((parseAll 0 mixedCalls).flatMap ParseResult.ids).Nodup ∧
      ∃ before, .resolve before 2 ∈ [TableEvent.resolve ["clock"] 2] ∧
        ∃ prior ∈ usesOf (parseAll 0 mixedCalls) before 2,
          prior.id = 2 ∧ prior.distance = some 0 := by
  obtain ⟨nodup, -, -, recorded⟩ := identities_are_unique 0 mixedCalls
  refine ⟨by rw [mixedCalls_results]; rfl, nodup, ?_⟩
  apply recorded (.initial .unlimited (.startingAt 0)) (fun id _ => by simp [Machine.initial])
    [.resolve ["clock"] 2] ["clock"] 2 [] [] ⟨2, "a", some 0⟩ 0 mixedCalls_usesOf
  change ((usesOf (parseAll 0 mixedCalls) ["clock"] 2).foldl Machine.recordUse ∅)[2]? = some 0
  rw [mixedCalls_usesOf]
  decide +kernel

end Lox
