import Mathlib.Data.List.Nodup
import Lox.Session
import Lox.Proofs.Evaluation.Readiness
import Lox.Proofs.Parser.Acceptance
import Lox.Proofs.Parser.Numbering
import Lox.Proofs.Resolution.Walk
import Lox.Proofs.Scan.Tokens

/-!
# Sessions between units

Between the units of a session, the machine is in the global scope, identities
from the next one on have no distance, and all functions close over scopes that
realize what resolution knew when it visited their bodies, whose distances are
still recorded.
-/

namespace Lox

/-! ## Distances -/

namespace Machine

theorem getElem?_recordUse (distances : Std.TreeMap UseId Nat) (use : Use) (id : UseId) :
    (recordUse distances use)[id]? =
      if use.id = id then use.distance.or distances[id]? else distances[id]? := by
  unfold recordUse
  cases use.distance with
  | none => simp
  | some distance =>
      simp only [Option.some_or]
      exact Table.getElem?_insert distances use.id id distance

theorem getElem?_record_of_not_mem (machine : Machine) {uses : List Use} {id : UseId}
    (absent : id ∉ uses.map Use.id) :
    (machine.record uses).distances[id]? = machine.distances[id]? := by
  change (uses.foldl recordUse machine.distances)[id]? = _
  generalize machine.distances = distances
  induction uses generalizing distances with
  | nil => rfl
  | cons first rest inductionHypothesis =>
      rw [List.map_cons, List.mem_cons, not_or] at absent
      rw [List.foldl_cons, inductionHypothesis absent.2, getElem?_recordUse,
        if_neg (Ne.symm absent.1)]

theorem getElem?_record (machine : Machine) {uses : List Use} (nodup : (uses.map Use.id).Nodup)
    {use : Use} (member : use ∈ uses) (unused : machine.distances[use.id]? = none) :
    (machine.record uses).distances[use.id]? = use.distance := by
  change (uses.foldl recordUse machine.distances)[use.id]? = _
  generalize machine.distances = distances at unused
  induction uses generalizing distances with
  | nil => cases member
  | cons first rest inductionHypothesis =>
      rw [List.map_cons, List.nodup_cons] at nodup
      rw [List.foldl_cons]
      rcases List.mem_cons.mp member with rfl | inRest
      · have recorded : (recordUse distances use)[use.id]? = use.distance := by
          rw [getElem?_recordUse, if_pos rfl, unused, Option.or_none]
        have kept := getElem?_record_of_not_mem
          { machine with distances := recordUse distances use } nodup.1
        exact kept.trans recorded
      · have other : first.id ≠ use.id := by
          intro same
          exact nodup.1 (same ▸ List.mem_map_of_mem inRest)
        apply inductionHypothesis nodup.2 inRest
        rw [getElem?_recordUse, if_neg other, unused]

theorem getElem?_release (machine : Machine) (program : List Stmt) (id : UseId) :
    (machine.release program).distances[id]? =
      if id ∈ Stmt.outerUsesEach program then none else machine.distances[id]? := by
  change ((Stmt.outerUsesEach program).foldl (·.erase ·) machine.distances)[id]? = _
  generalize machine.distances = distances
  induction Stmt.outerUsesEach program generalizing distances with
  | nil => rfl
  | cons first rest inductionHypothesis =>
      rw [List.foldl_cons, inductionHypothesis, Table.getElem?_erase]
      by_cases inRest : id ∈ rest
      · rw [if_pos inRest, if_pos (List.mem_cons_of_mem _ inRest)]
      · rw [if_neg inRest]
        by_cases same : first = id
        · rw [if_pos same, if_pos (same ▸ List.mem_cons_self)]
        · rw [if_neg same, if_neg]
          rw [List.mem_cons, not_or]
          exact ⟨Ne.symm same, inRest⟩

end Machine

/-! ## Units -/

/-- What is parsed from scanned tokens is well-formed. -/
theorem wellFormed_of_parse {tokens : List Token} {firstId nextId : UseId} {program : List Stmt}
    (scanned : Scanned tokens) (parsed : parseProgram firstId tokens = (.ok program, nextId)) :
    Stmt.WellFormedEach program := by
  rcases scanned with ⟨before, last, rfl, isEnd, inside, plain⟩
  exact (derivesProgram_of_parse inside isEnd parsed).wellFormed plain

theorem fresh_of_parse {tokens : List Token} {firstId nextId : UseId} {program : List Stmt}
    (parsed : parseProgram firstId tokens = (.ok program, nextId)) :
    Fresh firstId nextId ((Stmt.visitsEach [] false program).map Visit.id) :=
  (parseProgram_fresh parsed).of_count_le fun id =>
    Nat.le_of_eq (Stmt.count_visitsEach [] false program id)

theorem nextId_le_of_parse {tokens : List Token} {firstId nextId : UseId} {program : List Stmt}
    (parsed : parseProgram firstId tokens = (.ok program, nextId)) : firstId ≤ nextId := by
  have ascending := parseProgram_nextId_le firstId tokens
  rw [parsed] at ascending
  exact ascending

namespace Session

/-- The unit has neither lexical nor syntax errors, and is this program. -/
structure Reads (session : Session) (source : String) (program : List Stmt)
    (nextId : UseId) : Prop where
  lexical : scanErrors source = []
  parsed : parseProgram session.nextId (scanTokens source) = (.ok program, nextId)

/-- The unit has no static errors, and runs as this program. -/
def Accepts (session : Session) (source : String) (program : List Stmt) : Prop :=
  (∃ nextId, session.Reads source program nextId) ∧
    (resolveProgram session.machine.globalNames program).errors = []

/-- The machine in which a program is run, with the distances that resolution
found. -/
def resolved (session : Session) (program : List Stmt) : Machine :=
  session.machine.record (resolveProgram session.machine.globalNames program).uses

/-- The machine in which the run of a program ends. -/
def finalMachine (session : Session) (fuel : Nat) (program : List Stmt) : Machine :=
  Actions.endState (executeProgram fuel program (session.resolved program))

/-- Run units, each with its fuel, one after another. -/
def runAll (session : Session) (units : List (Nat × String)) : Session :=
  units.foldl (fun session unit => (session.run unit.1 unit.2).2) session

theorem runAll_append_singleton (session : Session) (units : List (Nat × String))
    (unit : Nat × String) :
    session.runAll (units ++ [unit]) = ((session.runAll units).run unit.1 unit.2).2 := by
  rw [runAll, List.foldl_append]
  rfl

variable {session : Session} {source : String} {program : List Stmt} {nextId : UseId}

/-- A unit without lexical errors that is parsed runs. -/
theorem runTokens_parsed {tokens : List Token} (fuel : Nat)
    (parsed : parseProgram session.nextId tokens = (.ok program, nextId)) :
    session.runTokens fuel [] tokens =
      ((session.machine.runProgram fuel program).1,
        ⟨(session.machine.runProgram fuel program).2, nextId⟩) := by
  simp only [runTokens, parsed, List.isEmpty_nil, if_true]

theorem Reads.run_eq (reads : session.Reads source program nextId) (fuel : Nat) :
    session.run fuel source =
      ((session.machine.runProgram fuel program).1,
        ⟨(session.machine.runProgram fuel program).2, nextId⟩) := by
  have lexical : (scanErrors source).map Diagnostic.lexical = [] := by
    rw [reads.lexical, List.map_nil]
  have unfolded : session.run fuel source = session.runTokens fuel
      ((scanErrors source).map .lexical) (scanTokens source) := rfl
  rw [unfolded, lexical, runTokens_parsed fuel reads.parsed]

theorem runProgram_clean (clean : (resolveProgram session.machine.globalNames program).errors = [])
    {fuel : Nat} : (session.machine.runProgram fuel program).2 =
      (session.finalMachine fuel program).release program := by
  rw [Machine.runProgram, clean, finalMachine, resolved]
  cases executeProgram fuel program
    (session.machine.record (resolveProgram session.machine.globalNames program).uses) <;> rfl

theorem runProgram_unclean
    (unclean : (resolveProgram session.machine.globalNames program).errors ≠ []) {fuel : Nat} :
    (session.machine.runProgram fuel program).2 =
      (session.resolved program).release program := by
  have nonempty : (resolveProgram session.machine.globalNames program).errors.isEmpty = false := by
    rw [List.isEmpty_eq_false_iff]
    exact unclean
  simp only [Machine.runProgram, nonempty]
  rfl

/-- A unit with syntax errors is rejected. -/
theorem runTokens_malformed {fuel : Nat} {tokens : List Token} {errors : List SyntaxError}
    (lexical : List Diagnostic)
    (parsed : parseProgram session.nextId tokens = (.error errors, nextId)) :
    session.runTokens fuel lexical tokens =
      (.rejected (lexical ++ errors.map .syntactic), { session with nextId }) := by
  simp only [runTokens, parsed]

/-- A unit with lexical errors is rejected. -/
theorem runTokens_misspelled {fuel : Nat} {tokens : List Token} {lexical : List Diagnostic}
    (parsed : parseProgram session.nextId tokens = (.ok program, nextId)) (faulty : lexical ≠ []) :
    session.runTokens fuel lexical tokens = (.rejected lexical, { session with nextId }) := by
  have nonempty : lexical.isEmpty = false := by
    rw [List.isEmpty_eq_false_iff]
    exact faulty
  simp only [runTokens, parsed, nonempty]
  rfl

theorem run_malformed {fuel : Nat} {errors : List SyntaxError}
    (parsed : parseProgram session.nextId (scanTokens source) = (.error errors, nextId)) :
    session.run fuel source =
      (.rejected ((scanErrors source).map .lexical ++ errors.map .syntactic),
        { session with nextId }) :=
  runTokens_malformed _ parsed

theorem run_misspelled {fuel : Nat}
    (parsed : parseProgram session.nextId (scanTokens source) = (.ok program, nextId))
    (lexical : scanErrors source ≠ []) :
    session.run fuel source =
      (.rejected ((scanErrors source).map .lexical), { session with nextId }) :=
  runTokens_misspelled parsed (by rwa [ne_eq, List.map_eq_nil_iff])

/-- Tokens are rejected before resolution, or parsed and run. -/
theorem runTokens_cases (session : Session) (fuel : Nat) (lexical : List Diagnostic)
    (tokens : List Token) :
    (∃ program nextId, lexical = [] ∧
        parseProgram session.nextId tokens = (.ok program, nextId)) ∨
      ∃ errors nextId, session.nextId ≤ nextId ∧
        session.runTokens fuel lexical tokens = (.rejected errors, { session with nextId }) := by
  have ascending := parseProgram_nextId_le session.nextId tokens
  cases parsed : parseProgram session.nextId tokens with
  | mk result nextId =>
      rw [parsed] at ascending
      cases result with
      | error errors =>
          exact .inr ⟨_, nextId, ascending, runTokens_malformed lexical parsed⟩
      | ok program =>
          by_cases faultless : lexical = []
          · exact .inl ⟨program, nextId, faultless, rfl⟩
          · exact .inr ⟨_, nextId, ascending, runTokens_misspelled parsed faultless⟩

/-- A unit is rejected before resolution, or read. -/
theorem run_cases (session : Session) (fuel : Nat) (source : String) :
    (∃ program nextId, session.Reads source program nextId) ∨
      ∃ errors nextId, session.nextId ≤ nextId ∧
        session.run fuel source = (.rejected errors, { session with nextId }) := by
  rcases session.runTokens_cases fuel ((scanErrors source).map .lexical) (scanTokens source) with
    ⟨program, nextId, lexical, parsed⟩ | rejected
  · exact .inl ⟨program, nextId, List.map_eq_nil_iff.mp lexical, parsed⟩
  · exact .inr rejected

/-- The program is a well-formed tree, and its uses have the next identities. -/
structure Takes (session : Session) (program : List Stmt) (nextId : UseId) : Prop where
  wellFormed : Stmt.WellFormedEach program
  fresh : Fresh session.nextId nextId ((Stmt.visitsEach [] false program).map Visit.id)
  nextId_le : session.nextId ≤ nextId

theorem takes_of_parse {tokens : List Token} (scanned : Scanned tokens)
    (parsed : parseProgram session.nextId tokens = (.ok program, nextId)) :
    session.Takes program nextId :=
  ⟨wellFormed_of_parse scanned parsed, fresh_of_parse parsed, nextId_le_of_parse parsed⟩

theorem Reads.takes (reads : session.Reads source program nextId) :
    session.Takes program nextId :=
  takes_of_parse (scanned_scanTokens source) reads.parsed

/-! ## The invariant -/

/-- The visit comes from an accepted unit, and its distance is recorded. -/
structure Knows (origin : Visit → Prop) (distances : Std.TreeMap UseId Nat) (nextId : UseId)
    (visit : Visit) : Prop where
  origin : origin visit
  bounded : visit.id < nextId
  legal : visit.Legal
  recorded : distances[visit.id]? = visit.use.distance

/-- Nothing is running, and all functions can be called. -/
structure Settled (origin : Visit → Prop) (session : Session) : Prop where
  atGlobals : session.machine.Realizes []
  unused : ∀ id, session.nextId ≤ id → session.machine.distances[id]? = none
  faithful : session.machine.Faithful (Knows origin session.machine.distances session.nextId)

variable {origin : Visit → Prop}

theorem Knows.mono {weaker : Visit → Prop} {distances others : Std.TreeMap UseId Nat}
    {nextId later : UseId} {visit : Visit} (knows : Knows origin distances nextId visit)
    (imp : origin visit → weaker visit) (ascending : nextId ≤ later)
    (same : others[visit.id]? = distances[visit.id]?) :
    Knows weaker others later visit :=
  ⟨imp knows.origin, Nat.lt_of_lt_of_le knows.bounded ascending, knows.legal,
    same.trans knows.recorded⟩

theorem Settled.imp {weaker : Visit → Prop} (settled : session.Settled origin)
    (imp : ∀ visit, origin visit → weaker visit) : session.Settled weaker where
  atGlobals := settled.atGlobals
  unused := settled.unused
  faithful := settled.faithful.imp fun visit _ knows =>
    knows.mono (imp visit) (Nat.le_refl _) rfl

theorem settled_initial (sink : Sink) (clock : Clock) : (initial sink clock).Settled origin where
  atGlobals := rfl
  unused _ _ := rfl
  faithful := by
    refine ⟨Nat.zero_lt_one, ?_, ?_, ?_⟩
    · intro ref
      have absent : (initial sink clock).machine.heap.function ref = default := by
        simp [Heap.function, initial, Machine.initial, Heap.empty]
      rw [absent]
      refine ⟨[], rfl, ⟨⟨by decide, by decide⟩, ?_, trivial⟩, ?_⟩
      · intro param member
        cases member
      · intro visit member
        cases member
    · intro ref name method found
      have absent : (initial sink clock).machine.heap.classInfo ref = default := by
        simp [Heap.classInfo, initial, Machine.initial, Heap.empty]
      rw [absent] at found
      cases found
    · intro ref value found
      have present := Scopes.lt_of_own (Option.isSome_of_eq_some found)
      have isGlobal : ref = ⟨0⟩ := congrArg ScopeRef.mk (Nat.lt_one_iff.mp present)
      subst isGlobal
      have entry : ((∅ : Bindings).insert "clock" (.native ⟨0⟩))["super"]? = some value := found
      rw [Table.getElem?_insert, if_neg (by decide)] at entry
      cases entry

/-- Identities that are given out later do not matter. -/
theorem Settled.later (settled : session.Settled origin) (ascending : session.nextId ≤ nextId) :
    ({ session with nextId } : Session).Settled origin where
  atGlobals := settled.atGlobals
  unused id beyond := settled.unused id (Nat.le_trans ascending beyond)
  faithful := settled.faithful.imp fun _ _ knows => knows.mono id ascending rfl

/-! ### A unit that runs -/

/-- The identities of earlier units are not touched by resolution. -/
theorem Takes.resolved_old (takes : session.Takes program nextId) {id : UseId}
    (outside : id < session.nextId ∨ nextId ≤ id) :
    (session.resolved program).distances[id]? = session.machine.distances[id]? := by
  apply Machine.getElem?_record_of_not_mem
  intro member
  rcases List.mem_map.mp member with ⟨use, used, rfl⟩
  have visited := resolveProgram_known session.machine.globalNames takes.wellFormed use used
  have bounds := takes.fresh.mem_bounds visited
  rcases outside with before | beyond
  · exact Nat.lt_irrefl _ (Nat.lt_of_lt_of_le before bounds.1)
  · exact Nat.lt_irrefl _ (Nat.lt_of_lt_of_le bounds.2 beyond)

/-- A use outside function bodies belongs to this unit. -/
theorem Takes.outer_bounds (takes : session.Takes program nextId) {id : UseId}
    (outer : id ∈ Stmt.outerUsesEach program) : session.nextId ≤ id ∧ id < nextId := by
  rcases Stmt.exists_outerVisitEach [] program outer with ⟨visit, visited, rfl, -⟩
  exact takes.fresh.mem_bounds (List.mem_map_of_mem visited)

/-- The visit is one of the unit, or comes from before it. -/
def WithUnit (session : Session) (origin : Visit → Prop) (program : List Stmt)
    (visit : Visit) : Prop :=
  (origin visit ∧ visit.id < session.nextId) ∨ visit ∈ Stmt.visitsEach [] false program

/-- The distances that resolution finds in an accepted unit are recorded when it
starts. -/
theorem Takes.recorded (takes : session.Takes program nextId)
    (settled : session.Settled origin)
    (clean : (resolveProgram session.machine.globalNames program).errors = []) {use : Use}
    (used : use ∈ (resolveProgram session.machine.globalNames program).uses) :
    (session.resolved program).distances[use.id]? = use.distance := by
  have visited := resolveProgram_known session.machine.globalNames takes.wellFormed use used
  have bounds := takes.fresh.mem_bounds visited
  have nodup : ((resolveProgram session.machine.globalNames program).uses.map Use.id).Nodup := by
    rw [(resolveProgram_visits takes.wellFormed clean).1, List.map_map]
    exact takes.fresh.nodup
  exact session.machine.getElem?_record nodup used (settled.unused use.id bounds.1)

/-- The visits of an accepted unit are known when it starts. -/
theorem Takes.knows_new (takes : session.Takes program nextId)
    (settled : session.Settled origin)
    (clean : (resolveProgram session.machine.globalNames program).errors = []) {visit : Visit}
    (visited : visit ∈ Stmt.visitsEach [] false program) :
    Knows (session.WithUnit origin program) (session.resolved program).distances nextId visit := by
  rcases resolveProgram_visits takes.wellFormed clean with ⟨uses, legal⟩
  have bounds := takes.fresh.mem_bounds (List.mem_map_of_mem visited)
  have used : visit.use ∈ (resolveProgram session.machine.globalNames program).uses := by
    rw [uses]
    exact List.mem_map_of_mem visited
  exact ⟨.inr visited, bounds.2, legal visit visited, takes.recorded settled clean used⟩

/-- When an accepted unit starts, everything it needs is known. -/
theorem Takes.ready (takes : session.Takes program nextId)
    (settled : session.Settled origin)
    (clean : (resolveProgram session.machine.globalNames program).errors = []) (fuel : Nat) :
    Moment.Ready
      (Knows (session.WithUnit origin program) (session.resolved program).distances nextId)
      ⟨fuel, .executeProgram program, session.resolved program⟩ := by
  refine ⟨?_, takes.wellFormed, settled.atGlobals, fun visit visited =>
    takes.knows_new settled clean visited⟩
  exact settled.faithful.imp fun visit _ knows =>
    knows.mono (fun isOld => .inl ⟨isOld, knows.bounded⟩) takes.nextId_le
      (takes.resolved_old (.inl knows.bounded))

/-- A use in a function body is not forgotten when the unit is released. -/
theorem Takes.not_outer (takes : session.Takes program nextId) {visit : Visit}
    (isInner : visit.place.isInner = true) (known : session.WithUnit origin program visit) :
    visit.id ∉ Stmt.outerUsesEach program := by
  intro outer
  rcases known with isOld | isNew
  · have bounds := takes.outer_bounds outer
    exact Nat.lt_irrefl _ (Nat.lt_of_lt_of_le isOld.2 bounds.1)
  · rcases Stmt.exists_outerVisitEach [] program outer with ⟨other, visited, same, isOuter⟩
    have equal := List.inj_on_of_nodup_map takes.fresh.nodup visited isNew same
    rw [equal, isInner] at isOuter
    cases isOuter

/-- What is known in function bodies is still known when the unit is released. -/
theorem Takes.knows_released (takes : session.Takes program nextId) {machine : Machine}
    {visit : Visit} (isInner : visit.place.isInner = true)
    (knows : Knows (session.WithUnit origin program) machine.distances nextId visit) :
    Knows (session.WithUnit origin program) (machine.release program).distances nextId visit := by
  refine knows.mono id (Nat.le_refl _) ?_
  rw [Machine.getElem?_release, if_neg (takes.not_outer isInner knows.origin)]

/-- The run of an accepted unit is safe. -/
theorem Takes.safe (takes : session.Takes program nextId)
    (settled : session.Settled origin)
    (clean : (resolveProgram session.machine.globalNames program).errors = []) (fuel : Nat) :
    Safe (Knows (session.WithUnit origin program) (session.resolved program).distances nextId)
      (executeProgram fuel program) (session.resolved program) := by
  have start := takes.ready settled clean fuel
  exact safe_executeProgram start.faithful settled.atGlobals takes.wellFormed start.task.2.2

/-- After an accepted unit, however it ended, the session is settled. -/
theorem Takes.settled_accepted (takes : session.Takes program nextId)
    (settled : session.Settled origin)
    (clean : (resolveProgram session.machine.globalNames program).errors = []) (fuel : Nat) :
    Session.Settled (session.WithUnit origin program)
      ⟨(session.finalMachine fuel program).release program, nextId⟩ := by
  have atGlobals : (session.resolved program).Realizes [] := settled.atGlobals
  have safe := takes.safe settled clean fuel
  have grows : (session.resolved program).Grows (session.finalMachine fuel program) := safe.grows
  have still : (session.finalMachine fuel program).Realizes [] := atGlobals.mono grows
  refine ⟨still, ?_, ?_⟩
  · intro id beyond
    rw [Machine.getElem?_release]
    split
    · rfl
    · rw [grows.distances, takes.resolved_old (.inr beyond)]
      exact settled.unused id (Nat.le_trans takes.nextId_le beyond)
  · refine Heap.Faithful.imp safe.faithful ?_
    intro visit isInner knows
    rw [← grows.distances] at knows
    exact takes.knows_released isInner knows

/-- What was known before a unit that resolution rejects is known after it. -/
theorem Takes.knows_unresolved (takes : session.Takes program nextId) {visit : Visit}
    (knows : Knows origin session.machine.distances session.nextId visit) :
    Knows origin ((session.resolved program).release program).distances nextId visit := by
  have notOuter : visit.id ∉ Stmt.outerUsesEach program := by
    intro outer
    exact Nat.lt_irrefl _ (Nat.lt_of_lt_of_le knows.bounded (takes.outer_bounds outer).1)
  refine knows.mono id takes.nextId_le ?_
  rw [Machine.getElem?_release, if_neg notOuter, takes.resolved_old (.inl knows.bounded)]

/-- After a unit that resolution rejects, the session is settled. -/
theorem Takes.settled_rejected (takes : session.Takes program nextId)
    (settled : session.Settled origin) :
    Session.Settled origin ⟨(session.resolved program).release program, nextId⟩ where
  atGlobals := settled.atGlobals
  unused := by
    intro id beyond
    rw [Machine.getElem?_release]
    split
    · rfl
    · rw [takes.resolved_old (.inr beyond)]
      exact settled.unused id (Nat.le_trans takes.nextId_le beyond)
  faithful := Heap.Faithful.imp settled.faithful fun _ _ knows => takes.knows_unresolved knows

/-- After a unit that was parsed, the session is settled.  Only an accepted unit adds
visits. -/
theorem Takes.settled_run (takes : session.Takes program nextId) (settled : session.Settled origin)
    (fuel : Nat) {later : Visit → Prop} (old : ∀ visit, origin visit → later visit)
    (accepted : (resolveProgram session.machine.globalNames program).errors = [] →
      ∀ visit ∈ Stmt.visitsEach [] false program, later visit) :
    Session.Settled later ⟨(session.machine.runProgram fuel program).2, nextId⟩ := by
  by_cases clean : (resolveProgram session.machine.globalNames program).errors = []
  · rw [runProgram_clean clean]
    have imp : ∀ visit, session.WithUnit origin program visit → later visit := by
      rintro visit (isOld | isNew)
      · exact old visit isOld.1
      · exact accepted clean visit isNew
    exact (takes.settled_accepted settled clean fuel).imp imp
  · rw [runProgram_unclean clean]
    exact (takes.settled_rejected settled).imp old

/-- A session stays settled. -/
theorem Settled.run (settled : session.Settled origin) (fuel : Nat) (source : String)
    {later : Visit → Prop} (old : ∀ visit, origin visit → later visit)
    (accepted : ∀ program, session.Accepts source program →
      ∀ visit ∈ Stmt.visitsEach [] false program, later visit) :
    (session.run fuel source).2.Settled later := by
  rcases session.run_cases fuel source with
    ⟨program, nextId, reads⟩ | ⟨errors, nextId, ascending, rejected⟩
  · rw [reads.run_eq fuel]
    exact reads.takes.settled_run settled fuel old fun clean =>
      accepted program ⟨⟨nextId, reads⟩, clean⟩
  · rw [rejected]
    exact (settled.later ascending).imp old

/-- A session stays settled when tokens are run. -/
theorem Settled.runTokens (settled : session.Settled fun _ => True) (fuel : Nat)
    (lexical : List Diagnostic) {tokens : List Token} (scanned : Scanned tokens) :
    (session.runTokens fuel lexical tokens).2.Settled fun _ => True := by
  rcases session.runTokens_cases fuel lexical tokens with
    ⟨program, nextId, rfl, parsed⟩ | ⟨errors, nextId, ascending, rejected⟩
  · rw [runTokens_parsed fuel parsed]
    exact (takes_of_parse scanned parsed).settled_run settled fuel (fun _ => id) fun _ _ _ => trivial
  · rw [rejected]
    exact settled.later ascending

end Session

end Lox
