import Mathlib
import Lox.Proofs.Resolution.Recordings
import Lox.Proofs.Session.Context
import Lox.Proofs.Syntax.Bodies

/-!
# Distances that stay

A unit that is resolved, with whatever result, adds to the recorded distances
exactly those of the uses in its function and method bodies.  The distances of its
other uses are forgotten when it ends, and those of earlier units are not touched.
-/

namespace Lox

namespace Session

/-- The unit has lexical or syntax errors. -/
def Malformed (session : Session) (source : String) : Prop :=
  scanErrors source ≠ [] ∨
    ∃ errors nextId, parseProgram session.nextId (scanTokens source) = (.error errors, nextId)

/-- Resolution of the program finds the distance for the use. -/
def Finds (session : Session) (program : List Stmt) (id : UseId) (distance : Nat) : Prop :=
  ∃ use ∈ (resolveProgram session.machine.globalNames program).uses,
    use.id = id ∧ use.distance = some distance

/-- The session has served some requests since it was new. -/
def Reachable (session : Session) : Prop :=
  ∃ sink clock requests, session = (initial sink clock).serveAll requests

/-- Nothing is recorded for identities that have not been given out. -/
def Unnumbered (session : Session) : Prop :=
  ∀ id, session.nextId ≤ id → session.machine.distances[id]? = none

variable {session : Session} {source : String} {program : List Stmt} {nextId : UseId}

/-! ## Units that are read -/

theorem exists_reads (formed : ¬ session.Malformed source) :
    ∃ program nextId, session.Reads source program nextId := by
  rw [Malformed, not_or, ne_eq, not_not] at formed
  rcases formed with ⟨lexical, syntactic⟩
  cases parsed : parseProgram session.nextId (scanTokens source) with
  | mk result nextId =>
      cases result with
      | ok program => exact ⟨program, nextId, lexical, parsed⟩
      | error errors => exact absurd ⟨errors, nextId, parsed⟩ syntactic

theorem Malformed.run_eq (malformed : session.Malformed source) (fuel : Nat) :
    ∃ errors nextId, session.nextId ≤ nextId ∧
      session.run fuel source = (.rejected errors, { session with nextId }) := by
  rcases session.run_cases fuel source with ⟨program, nextId, reads⟩ | rejected
  · rcases malformed with lexical | ⟨errors, otherId, failed⟩
    · exact absurd reads.lexical lexical
    · have parsed := reads.parsed
      rw [failed] at parsed
      cases (Prod.mk.inj parsed).1
  · exact rejected

theorem Reads.fresh_ids (reads : session.Reads source program nextId) :
    Fresh session.nextId nextId (Stmt.idsEach program) :=
  parseProgram_fresh reads.parsed

/-- The identities for which resolution records something, each once. -/
theorem Reads.fresh_uses (reads : session.Reads source program nextId) :
    Fresh session.nextId nextId
      ((resolveProgram session.machine.globalNames program).uses.map Use.id) :=
  reads.fresh_ids.of_count_le (count_resolveProgram_uses session.machine.globalNames program)

/-- However the unit ends, its outer uses are forgotten and nothing else. -/
theorem Reads.getElem?_distances (reads : session.Reads source program nextId) (fuel : Nat)
    (id : UseId) :
    (session.run fuel source).2.machine.distances[id]? =
      if id ∈ Stmt.outerUsesEach program then none
      else (session.resolved program).distances[id]? := by
  rw [reads.run_eq]
  by_cases clean : (resolveProgram session.machine.globalNames program).errors = []
  · have grows := framed_executeProgram fuel program (session.resolved program)
    rw [runProgram_clean clean, Machine.getElem?_release]
    exact congrArg (fun distances : Std.TreeMap UseId Nat =>
      if id ∈ Stmt.outerUsesEach program then none else distances[id]?) grows.distances
  · rw [runProgram_unclean clean, Machine.getElem?_release]

/-! ## Recorded distances -/

theorem Unnumbered.later (unnumbered : session.Unnumbered) (ascending : session.nextId ≤ nextId) :
    Unnumbered { session with nextId } :=
  fun id beyond => unnumbered id (Nat.le_trans ascending beyond)

/-- What is recorded when a unit is resolved: what was recorded before, and what
resolution finds. -/
theorem Reads.resolved_iff (reads : session.Reads source program nextId)
    (unnumbered : session.Unnumbered) {id : UseId} {distance : Nat} :
    (session.resolved program).distances[id]? = some distance ↔
      session.machine.distances[id]? = some distance ∨ session.Finds program id distance := by
  have fresh := reads.fresh_uses
  by_cases recorded :
      id ∈ (resolveProgram session.machine.globalNames program).uses.map Use.id
  · have unused := unnumbered id (fresh.mem_bounds recorded).1
    rcases List.mem_map.mp recorded with ⟨use, used, rfl⟩
    have found : (session.resolved program).distances[use.id]? = use.distance :=
      session.machine.getElem?_record fresh.nodup used unused
    rw [found, unused]
    constructor
    · intro isDistance
      exact .inr ⟨use, used, rfl, isDistance⟩
    · rintro (impossible | ⟨other, otherUsed, sameId, isDistance⟩)
      · cases impossible
      · rw [List.inj_on_of_nodup_map fresh.nodup used otherUsed sameId.symm]
        exact isDistance
  · have old : (session.resolved program).distances[id]? = session.machine.distances[id]? :=
      session.machine.getElem?_record_of_not_mem recorded
    rw [old]
    constructor
    · exact .inl
    · rintro (isOld | ⟨use, used, rfl, -⟩)
      · exact isOld
      · exact absurd (List.mem_map_of_mem used) recorded

/-- An identity that resolution records belongs to the program. -/
theorem Finds.mem_ids {id : UseId} {distance : Nat} (finds : session.Finds program id distance) :
    id ∈ Stmt.idsEach program := by
  rcases finds with ⟨use, used, rfl, -⟩
  have bound := count_resolveProgram_uses session.machine.globalNames program use.id
  have positive := List.count_pos_iff.mpr (List.mem_map_of_mem (f := Use.id) used)
  exact List.count_pos_iff.mp (Nat.lt_of_lt_of_le positive bound)

/-- An identity with a distance was given out before. -/
theorem Unnumbered.lt_nextId (unnumbered : session.Unnumbered) {id : UseId} {distance : Nat}
    (recorded : session.machine.distances[id]? = some distance) : id < session.nextId := by
  rcases Nat.lt_or_ge id session.nextId with given | beyond
  · exact given
  · rw [unnumbered id beyond] at recorded
    cases recorded

/-- What is recorded after a unit that was read: what was recorded before it, and
what resolution found in function bodies. -/
theorem Reads.released_iff (reads : session.Reads source program nextId)
    (unnumbered : session.Unnumbered) (fuel : Nat) {id : UseId} {distance : Nat} :
    (session.run fuel source).2.machine.distances[id]? = some distance ↔
      session.machine.distances[id]? = some distance ∨
        (Stmt.InBody program id ∧ session.Finds program id distance) := by
  have fresh := reads.fresh_ids
  rw [reads.getElem?_distances]
  by_cases outer : id ∈ Stmt.outerUsesEach program
  · have member : id ∈ Stmt.idsEach program := Stmt.mem_idsEach_iff.mpr (.inl outer)
    have unused := unnumbered id (fresh.mem_bounds member).1
    have notInner : ¬ Stmt.InBody program id := fun inner =>
      (Stmt.inBody_iff_not_outer fresh.nodup member).mp inner outer
    rw [if_pos outer, unused]
    simp [notInner]
  · rw [if_neg outer, reads.resolved_iff unnumbered]
    constructor
    · rintro (isOld | finds)
      · exact .inl isOld
      · exact .inr ⟨(Stmt.inBody_iff_not_outer fresh.nodup finds.mem_ids).mpr outer, finds⟩
    · rintro (isOld | ⟨-, finds⟩)
      · exact .inl isOld
      · exact .inr finds

/-! ## Reachable sessions -/

theorem unnumbered_initial (sink : Sink) (clock : Clock) : (initial sink clock).Unnumbered :=
  fun _ _ => rfl

theorem Unnumbered.run (unnumbered : session.Unnumbered) (fuel : Nat) (source : String) :
    (session.run fuel source).2.Unnumbered := by
  by_cases malformed : session.Malformed source
  · rcases malformed.run_eq fuel with ⟨errors, nextId, ascending, rejected⟩
    rw [rejected]
    exact unnumbered.later ascending
  · rcases exists_reads malformed with ⟨program, nextId, reads⟩
    intro id beyond
    have ended : (session.run fuel source).2.nextId = nextId := by rw [reads.run_eq]
    rw [ended] at beyond
    rw [← Option.not_isSome_iff_eq_none, Option.isSome_iff_exists]
    rintro ⟨distance, recorded⟩
    rcases (reads.released_iff unnumbered fuel).mp recorded with isOld | ⟨-, finds⟩
    · have given := Nat.lt_of_lt_of_le (unnumbered.lt_nextId isOld) reads.takes.nextId_le
      exact Nat.not_lt.mpr beyond given
    · exact Nat.not_lt.mpr beyond (reads.fresh_ids.mem_bounds finds.mem_ids).2

theorem Unnumbered.evaluate (unnumbered : session.Unnumbered) (fuel : Nat) (source : String) :
    (session.evaluate fuel source).2.Unnumbered := by
  have ascending := parseExpression_nextId_le session.nextId (scanTokens source)
  rw [Session.evaluate]
  split
  next errors nextId parsed =>
    rw [parsed] at ascending
    exact unnumbered.later ascending
  next expr nextId parsed =>
    rw [parsed] at ascending
    have grows := (framedAt fuel).evaluate expr session.machine
    generalize Lox.evaluate fuel expr session.machine = result at grows ⊢
    cases result with
    | ok value machine =>
        intro id beyond
        exact (congrArg (·[id]?) grows.distances).trans (unnumbered.later ascending id beyond)
    | error cause machine =>
        intro id beyond
        exact (congrArg (·[id]?) grows.distances).trans (unnumbered.later ascending id beyond)

theorem Unnumbered.serveAll (unnumbered : session.Unnumbered) (requests : List Request) :
    (session.serveAll requests).Unnumbered :=
  serveAll_invariant (fun _ fuel source before => before.run fuel source)
    (fun _ fuel source before => before.evaluate fuel source) unnumbered requests

theorem Reachable.unnumbered (reachable : session.Reachable) : session.Unnumbered := by
  rcases reachable with ⟨sink, clock, requests, rfl⟩
  exact (unnumbered_initial sink clock).serveAll requests

end Session

/-- A unit with lexical or syntax errors leaves the recorded distances alone.  Any
other unit, however it ends, adds exactly the distances that resolution found for
uses in its function and method bodies: what was recorded stays, and nothing is left
of its other uses. -/
theorem unit_keeps_distances_of_bodies {session : Session} (reachable : session.Reachable)
    (fuel : Nat) (source : String) :
    (session.Malformed source →
      (session.run fuel source).2.machine.distances = session.machine.distances) ∧
    (¬ session.Malformed source → ∃ program nextId, session.Reads source program nextId ∧
      (∀ (id : UseId) (distance : Nat),
        (session.run fuel source).2.machine.distances[id]? = some distance ↔
          session.machine.distances[id]? = some distance ∨
            (Stmt.InBody program id ∧ session.Finds program id distance)) ∧
      (∀ (id : UseId) (distance : Nat), session.machine.distances[id]? = some distance →
        (session.run fuel source).2.machine.distances[id]? = some distance) ∧
      ∀ id ∈ Stmt.idsEach program, ¬ Stmt.InBody program id →
        (session.run fuel source).2.machine.distances[id]? = none) := by
  have unnumbered := reachable.unnumbered
  constructor
  · intro malformed
    rcases malformed.run_eq fuel with ⟨errors, nextId, -, rejected⟩
    rw [rejected]
  · intro formed
    rcases Session.exists_reads formed with ⟨program, nextId, reads⟩
    refine ⟨program, nextId, reads, ?_, ?_, ?_⟩
    · intro id distance
      exact reads.released_iff unnumbered fuel
    · intro id distance isOld
      exact (reads.released_iff unnumbered fuel).mpr (.inl isOld)
    · intro id member outside
      rw [← Option.not_isSome_iff_eq_none, Option.isSome_iff_exists]
      rintro ⟨distance, recorded⟩
      rcases (reads.released_iff unnumbered fuel).mp recorded with isOld | ⟨inside, -⟩
      · have own := (reads.fresh_ids.mem_bounds member).1
        exact Nat.not_lt.mpr own (unnumbered.lt_nextId isOld)
      · exact outside inside

/-- Uses of a local variable around and in a method. -/
def releasingSource : String :=
  "\x7b var a; if (a) \x7b class C \x7b m() \x7b return a; \x7d \x7d \x7d print a; \x7d"

/-- The tree of `releasingSource`. -/
def releasingProgram : List Stmt :=
  [.block [.var ⟨"a", 1⟩ none,
    .if_ (.var 0 ⟨"a", 1⟩)
      (.block [.class_ ⟨"C", 1⟩ none [⟨⟨"m", 1⟩, [], [.return_ 1 (some (.var 1 ⟨"a", 1⟩))]⟩]]) none,
    .print (.var 2 ⟨"a", 1⟩)]]

theorem releasingSource_read :
    (Session.initial .unlimited (.startingAt 0)).Reads releasingSource releasingProgram 3 :=
  ⟨by decide +kernel, by rw [scanTokens_eq]; cbv⟩

theorem releasingSource_formed :
    ¬ (Session.initial .unlimited (.startingAt 0)).Malformed releasingSource := by
  have reads := releasingSource_read
  rintro (lexical | ⟨errors, nextId, failed⟩)
  · exact lexical reads.lexical
  · rw [reads.parsed] at failed
    cases (Prod.mk.inj failed).1

/-- Of three uses of the variable, the one in the method keeps its distance. -/
theorem releasingSource_releases :
    ((Session.initial .unlimited (.startingAt 0)).run 9 releasingSource).2.machine.distances[1]? =
        some 3 ∧
      ((Session.initial .unlimited (.startingAt 0)).run 9 releasingSource).2.machine.distances[2]? =
        none := by
  have reachable : (Session.initial .unlimited (.startingAt 0)).Reachable :=
    ⟨.unlimited, .startingAt 0, [], rfl⟩
  rcases (unit_keeps_distances_of_bodies reachable 9 releasingSource).2 releasingSource_formed with
    ⟨program, nextId, reads, entries, -, released⟩
  have parsed := releasingSource_read.parsed
  rw [reads.parsed] at parsed
  cases parsed
  constructor
  · rw [entries]
    refine .inr ⟨?_, ⟨1, "a", some 3⟩, by decide +kernel, rfl, rfl⟩
    refine ⟨_, List.mem_cons_self, _, .block (.tail _ (.head _)) (.thenBranch (.block
      (.head _) (.method (.head _)))), by decide +kernel⟩
  · apply released 2 (by decide +kernel)
    rw [Stmt.inBody_iff_not_outer (by decide +kernel) (by decide +kernel)]
    decide +kernel

end Lox
