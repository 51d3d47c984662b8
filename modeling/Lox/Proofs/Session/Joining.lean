import Lox.Proofs.Evaluation.Output
import Lox.Proofs.Resolution.Joining
import Lox.Proofs.Scan.Joining
import Lox.Proofs.Session.Globals
import Lox.Proofs.Session.Numbering
import Lox.Proofs.Session.Rejection
import Lox.Proofs.Syntax.Shapes

/-!
# Units one after another

A unit that runs to its end and the unit after it run alike if they are put together
into one.  The trees of the longer unit are copies of those of the two, of which the
second ones stand on lower lines.  A runtime error stays on the line of its token: it
moves with the second unit if that token is there, and stays where it is if not.
-/

namespace Lox

open Actions Eval

/-! ## Programs and tokens one after another -/

theorem eq_of_flush {machine final : Machine} (flushed : flush machine = .ok () final) :
    machine = final := by
  rcases bind_eq_ok_iff.mp flushed with ⟨_, _, read, ended⟩
  cases read
  by_cases fails : machine.sink.flushFails
  · rw [if_pos fails] at ended
    cases ended
  · rw [if_neg fails] at ended
    exact (pure_eq_ok_iff.mp ended).2

/-- Behind a program that runs to its end, another one starts from the machine that it
leaves. -/
theorem executeProgram_append {fuel : Nat} {first : List Stmt} {machine middle : Machine}
    (executed : executeProgram fuel first machine = .ok () middle) (second : List Stmt) :
    executeProgram fuel (first ++ second) machine = executeProgram fuel second middle := by
  induction first generalizing machine with
  | nil =>
      cases eq_of_flush executed
      rfl
  | cons stmt rest inductionHypothesis =>
      rcases bind_eq_ok_iff.mp executed with ⟨flow, next, firstExecuted, restExecuted⟩
      have continued : executeProgram fuel (stmt :: (rest ++ second)) machine =
          executeProgram fuel (rest ++ second) next := bind_of_ok firstExecuted
      rw [List.cons_append, continued, inductionHypothesis restExecuted]

/-- There a run comes to the other one. -/
theorem reaches_append {fuel : Nat} {first : List Stmt} {machine middle : Machine}
    (executed : executeProgram fuel first machine = .ok () middle) (second : List Stmt) :
    Reaches ⟨fuel, .executeProgram (first ++ second), machine⟩
      ⟨fuel, .executeProgram second, middle⟩ := by
  induction first generalizing machine with
  | nil =>
      cases eq_of_flush executed
      exact .refl
  | cons stmt rest inductionHypothesis =>
      rcases bind_eq_ok_iff.mp executed with ⟨flow, next, firstExecuted, restExecuted⟩
      exact .head (.restOfProgram firstExecuted) (inductionHypothesis restExecuted)

theorem Grammar.DerivesProgram.append {nearest : Bool} {tokens tokens' : List Token}
    {program program' : List Stmt} (derived : DerivesProgram nearest tokens program)
    (derived' : DerivesProgram nearest tokens' program') :
    DerivesProgram nearest (tokens ++ tokens') (program ++ program') := by
  rcases derived with ⟨parts⟩
  rcases derived' with ⟨parts'⟩
  rw [← List.flatMap_append, ← List.map_append]
  apply DerivesProgram.mk
  intro part member
  rcases List.mem_append.mp member with isFirst | isSecond
  · exact parts part isFirst
  · exact parts' part isSecond

/-- A copy of two programs, each moved to other lines. -/
def Stmt.joinCopies (use : UseId → UseId) (firstLine secondLine : Nat → Nat)
    (first second : List Stmt) : List Stmt :=
  relabelEach use firstLine first ++ relabelEach use secondLine second

section Parsing

variable {tokens before : List Token} {last : Token} {firstId nextId middleId laterId : UseId}
  {program firstProgram secondProgram : List Stmt}

theorem Scanned.parsed_moved (scanned : Scanned tokens) (line : Nat → Nat)
    (parsed : parseProgram firstId tokens = (.ok program, nextId)) :
    parseProgram firstId (tokens.map (Token.moved line)) =
      (.ok (Stmt.relabelEach id line program), nextId) := by
  have moved := scanned.parse_moved 0 line firstId
  rw [parsed] at moved
  exact moved

theorem Scanned.derives (scanned : Scanned (before ++ [last]))
    (parsed : parseProgram firstId (before ++ [last]) = (.ok program, nextId)) :
    Grammar.DerivesProgram true before program := by
  rcases scanned with ⟨others, otherLast, split, isEnd, inside, -⟩
  rcases List.append_inj' split rfl with ⟨rfl, lasts⟩
  cases lasts
  exact derivesProgram_of_parse inside isEnd parsed

/-- What is parsed from two lists of tokens is parsed from both together, the end of the
first one apart, but for identities. -/
theorem parseProgram_joined (scanned : Scanned (before ++ [last])) (scanned' : Scanned tokens)
    (parsed : parseProgram firstId (before ++ [last]) = (.ok firstProgram, middleId))
    (parsed' : parseProgram middleId tokens = (.ok secondProgram, laterId))
    (firstLine secondLine : Nat → Nat) (joinedId : UseId) :
    ∃ use finalId, parseProgram joinedId
        (before.map (Token.moved firstLine) ++ tokens.map (Token.moved secondLine)) =
      (.ok (Stmt.joinCopies use firstLine secondLine firstProgram secondProgram), finalId) := by
  have movedFirst := scanned.parsed_moved firstLine parsed
  have movedSecond := scanned'.parsed_moved secondLine parsed'
  have scannedFirst := scanned.moved firstLine
  have scannedSecond := scanned'.moved secondLine
  rw [List.map_append] at movedFirst scannedFirst
  rcases scannedSecond with ⟨rest, end_, split, isEnd, inside, plain⟩
  rw [split] at movedSecond
  have derived := scannedFirst.derives movedFirst
  have laterDerived := derivesProgram_of_parse inside isEnd movedSecond
  rcases parseProgram_complete (derived.append laterDerived) isEnd joinedId with
    ⟨joined, finalId, joinedParsed, shapes⟩
  -- Identities are given out anew, but in both readings no two uses share one.
  have fresh := (parseProgram_fresh movedFirst).append (parseProgram_fresh movedSecond)
    (nextId_le_of_parse movedSecond) (nextId_le_of_parse movedFirst)
  rw [← Stmt.idsEach_append] at fresh
  rcases Stmt.exists_eq_relabelEach fresh.nodup shapes with ⟨use, copied⟩
  rw [Stmt.relabelEach_append, Stmt.relabelEach_relabelEach, Stmt.relabelEach_relabelEach] at copied
  refine ⟨use, finalId, ?_⟩
  rw [split, ← List.append_assoc, joinedParsed, copied]
  rfl

end Parsing

theorem resolveProgram_relabel_clean {globals : List String}
    (clean : (resolveProgram globals program).errors = []) (use : UseId → UseId)
    (line : Nat → Nat) :
    (resolveProgram globals (Stmt.relabelEach use line program)).errors = [] := by
  rw [resolveProgram_relabel, clean, List.map_nil]

namespace Copying

/-- Only the ways in which trees are moved matter for how units end. -/
theorem Outcomes.recast {copying later : Copying} {outcome outcome' : Outcome}
    (outcomes : copying.Outcomes outcome outcome')
    (moves : ∀ move, copying.Moves move → later.Moves move) : later.Outcomes outcome outcome' := by
  cases outcomes with
  | completed => exact .completed
  | interrupted interrupts =>
      apply Outcomes.interrupted
      cases interrupts with
      | runtime fault lines =>
          rcases lines with ⟨move, isMove, moved⟩
          exact .runtime fault ⟨move, moves move isMove, moved⟩
      | output error => exact .output error
      | outOfFuel => exact .outOfFuel

end Copying

namespace Session

/-! ## The longer unit -/

/-- The tokens run in the same way in both sessions and leave the same behind, but for lines
that are moved in these ways.  If they fail, they do so by copies of the same evaluation. -/
structure RunAlike (Moves : (Nat → Nat) → Prop) (fuel : Nat) (session session' : Session)
    (tokens tokens' : List Token) : Prop where
  outcome : ((session.runTokens fuel [] tokens).2.machine.copying
      (session'.runTokens fuel [] tokens').2.machine Moves).Outcomes
    (session.runTokens fuel [] tokens).1 (session'.runTokens fuel [] tokens').1
  machines : ((session.runTokens fuel [] tokens).2.machine.copying
      (session'.runTokens fuel [] tokens').2.machine Moves).Machines
    (session.runTokens fuel [] tokens).2.machine (session'.runTokens fuel [] tokens').2.machine
  failures : ∀ {moment error}, session.FailsBy fuel tokens moment error → ∃ moment' error',
    session'.FailsBy fuel tokens' moment' error' ∧
      (moment.machine.copying moment'.machine Moves).Moments moment moment' ∧
      (moment.machine.copying moment'.machine Moves).Errors error error'

section Joined

variable {session session' : Session} {Moves : (Nat → Nat) → Prop} {fuel : Nat}
  {firstTokens secondTokens longer : List Token} {firstProgram secondProgram : List Stmt}
  {use : UseId → UseId} {firstLine secondLine : Nat → Nat} {middleId laterId finalId : UseId}
  (machines : (session.machine.copying session'.machine Moves).Machines session.machine
    session'.machine)
  (settled' : session'.Settled fun _ => True)
  (runs : session.Runs firstTokens firstProgram middleId)
  (executed : executeProgram fuel firstProgram (session.resolved firstProgram) =
    .ok () (session.finalMachine fuel firstProgram))
  (later : (session.after fuel firstProgram middleId).Runs secondTokens secondProgram laterId)
  (scanned' : Scanned longer)
  (parsed' : parseProgram session'.nextId longer =
    (.ok (Stmt.joinCopies use firstLine secondLine firstProgram secondProgram), finalId))

include machines settled' runs executed later scanned' parsed'

/-- The longer unit is accepted, and resolution finds in it what it finds in the two. -/
theorem Runs.joined :
    session'.Runs longer (Stmt.joinCopies use firstLine secondLine firstProgram secondProgram)
        finalId ∧
      (resolveProgram session'.machine.globalNames
          (Stmt.joinCopies use firstLine secondLine firstProgram secondProgram)).uses =
        (resolveProgram session.machine.globalNames firstProgram).uses.map (Use.relabel use) ++
          (resolveProgram (session.after fuel firstProgram middleId).machine.globalNames
            secondProgram).uses.map (Use.relabel use) := by
  have sameNames : session'.machine.globalNames = session.machine.globalNames := by
    rw [Machine.globalNames, Machine.globalNames, machines.heap.scopes, machines.globals]
  have known : ∀ name, name ∈ (session.after fuel firstProgram middleId).machine.globalNames ↔
      name ∈ session.machine.globalNames ∨
        name ∈ Stmt.declaredNames (Stmt.relabelEach use firstLine firstProgram) := by
    intro name
    rw [Stmt.declaredNames_relabel]
    exact runs.takes.mem_globalNames runs.settled runs.clean executed name
  have resolution := resolveProgram_append (takes_of_parse scanned' parsed').wellFormed known
    (resolveProgram_relabel_clean runs.clean use firstLine)
    (resolveProgram_relabel_clean later.clean use secondLine)
  simp only [resolveProgram_relabel] at resolution
  rw [← sameNames] at resolution
  refine ⟨⟨settled', scanned', parsed', resolution.1⟩, ?_⟩
  rw [← sameNames]
  exact resolution.2

/-- The first program runs to its end also in the longer unit. -/
theorem Runs.joined_first (moves : Moves firstLine) :
    ∃ middle, executeProgram fuel (Stmt.relabelEach use firstLine firstProgram)
        (session'.resolved
          (Stmt.joinCopies use firstLine secondLine firstProgram secondProgram)) =
        .ok () middle ∧
      ((session.resolved firstProgram).copying (session'.resolved
          (Stmt.joinCopies use firstLine secondLine firstProgram secondProgram)) Moves).Machines
        (session.finalMachine fuel firstProgram) middle := by
  rcases Runs.joined machines settled' runs executed later scanned' parsed' with ⟨joined, uses⟩
  have labels : ((session.resolved firstProgram).copying (session'.resolved
      (Stmt.joinCopies use firstLine secondLine firstProgram secondProgram)) Moves).Labels
      use firstLine (Stmt.idsEach firstProgram) := by
    refine ⟨moves, runs.takes.same_distances joined.takes runs.settled settled' runs.clean
      joined.clean ?_⟩
    intro found member
    rw [uses]
    exact List.mem_append_left _ (List.mem_map_of_mem member)
  have starts := runs.takes.resolved_copied joined.takes runs.settled settled' machines
  exact (Copying.executeProgram_agree fuel firstProgram starts labels).exists_ok executed

/-- The second program starts alike behind the first one. -/
theorem Runs.joined_starts (firstMoves : Moves firstLine) (secondMoves : Moves secondLine) :
    ∃ middle, executeProgram fuel (Stmt.relabelEach use firstLine firstProgram)
        (session'.resolved
          (Stmt.joinCopies use firstLine secondLine firstProgram secondProgram)) =
        .ok () middle ∧
      (((session.after fuel firstProgram middleId).resolved secondProgram).copying
        (session'.resolved
          (Stmt.joinCopies use firstLine secondLine firstProgram secondProgram)) Moves).Machines
        ((session.after fuel firstProgram middleId).resolved secondProgram) middle ∧
      (((session.after fuel firstProgram middleId).resolved secondProgram).copying
        (session'.resolved
          (Stmt.joinCopies use firstLine secondLine firstProgram secondProgram)) Moves).Labels
        use secondLine (Stmt.idsEach secondProgram) := by
  rcases Runs.joined machines settled' runs executed later scanned' parsed' with ⟨joined, uses⟩
  rcases Runs.joined_first machines settled' runs executed later scanned' parsed' firstMoves with
    ⟨middle, firstExecuted, firstMachines⟩
  refine ⟨middle, firstExecuted, ?_, secondMoves, ?_⟩
  · refine ⟨firstMachines.heap.recast (fun _ => id) ?_ fun _ _ => rfl, firstMachines.globals,
      firstMachines.current, firstMachines.callDepth, firstMachines.callLimit, rfl,
      firstMachines.others, firstMachines.sink, firstMachines.clock⟩
    -- What is released between the two units is not mentioned by the heap.
    intro id mentions
    have kept := runs.takes.released_mentioned runs.settled runs.clean mentions
    exact (later.takes.resolved_mentioned later.settled mentions).trans kept
  · refine later.takes.same_distances joined.takes later.settled settled' later.clean
      joined.clean ?_
    intro found member
    rw [uses]
    exact List.mem_append_right _ (List.mem_map_of_mem member)

/-- The second unit runs alike behind the first one. -/
theorem Runs.joined_second (firstMoves : Moves firstLine) (secondMoves : Moves secondLine) :
    RunAlike Moves fuel (session.after fuel firstProgram middleId) session' secondTokens
      longer := by
  rcases Runs.joined machines settled' runs executed later scanned' parsed' with ⟨joined, -⟩
  rcases Runs.joined_starts machines settled' runs executed later scanned' parsed' firstMoves
    secondMoves with ⟨middle, firstExecuted, starts, labels⟩
  have agree := Copying.executeProgram_agree fuel secondProgram starts labels
  have continued : executeProgram fuel
      (Stmt.joinCopies use firstLine secondLine firstProgram secondProgram)
      (session'.resolved
        (Stmt.joinCopies use firstLine secondLine firstProgram secondProgram)) =
      executeProgram fuel (Stmt.relabelEach use secondLine secondProgram) middle :=
    executeProgram_append firstExecuted _
  have machines' := agree.endState
  have outcomes := agree.outcomes
  rw [← continued] at machines' outcomes
  have released := later.takes.released_copied joined.takes later.settled settled' later.clean
    joined.clean machines'
  constructor
  · rw [later.run_eq, joined.run_eq]
    exact outcomes.recast fun _ => id
  · rw [later.run_eq, joined.run_eq]
    exact released
  · intro moment error failsBy
    rcases failsBy.copied later.parsed joined.parsed (reaches_append firstExecuted _)
      ⟨rfl, .executeProgram labels, starts⟩ with ⟨moment', error', failsBy', copied, errors⟩
    have same := copied.copying_eq
    exact ⟨moment', error', failsBy', same ▸ copied, same ▸ errors⟩

end Joined

/-- Two lists of tokens that run one after the other, and a longer one that consists of
them, the end of the first one apart, moved to other lines. -/
theorem Settled.runAlike {session session' : Session} {Moves : (Nat → Nat) → Prop} {fuel : Nat}
    {before secondTokens longer : List Token} {last : Token} {firstLine secondLine : Nat → Nat}
    (settled : session.Settled fun _ => True) (settled' : session'.Settled fun _ => True)
    (machines : (session.machine.copying session'.machine Moves).Machines session.machine
      session'.machine)
    (firstMoves : Moves firstLine) (secondMoves : Moves secondLine)
    (scanned : Scanned (before ++ [last])) (laterScanned : Scanned secondTokens)
    (scanned' : Scanned longer)
    (joined : longer =
      before.map (Token.moved firstLine) ++ secondTokens.map (Token.moved secondLine))
    (completed : (session.runTokens fuel [] (before ++ [last])).1 = .completed)
    (accepted : ∀ errors, ((session.runTokens fuel [] (before ++ [last])).2.runTokens fuel []
      secondTokens).1 ≠ .rejected errors) :
    RunAlike Moves fuel (session.runTokens fuel [] (before ++ [last])).2 session' secondTokens
      longer := by
  rcases settled.exists_runs scanned (not_rejected_of_completed completed) with
    ⟨-, firstProgram, middleId, runs⟩
  have executed := runs.executed completed
  rw [runs.run_eq] at accepted ⊢
  rcases (runs.settled_after fuel).exists_runs laterScanned accepted with
    ⟨-, secondProgram, laterId, later⟩
  rcases parseProgram_joined scanned laterScanned runs.parsed later.parsed firstLine secondLine
    session'.nextId with ⟨use, finalId, parsed'⟩
  rw [← joined] at parsed'
  exact Runs.joined_second machines settled' runs executed later scanned' parsed' firstMoves
    secondMoves

/-! ## The result -/

/-- Output is only added by a unit. -/
theorem prints_run (session : Session) (fuel : Nat) (source : String) :
    session.machine.Prints (session.run fuel source).2.machine := by
  rcases session.run_cases fuel source with ⟨program, nextId, reads⟩ | ⟨errors, nextId, -, rejected⟩
  · rw [reads.run_eq]
    by_cases clean : (resolveProgram session.machine.globalNames program).errors = []
    · rw [runProgram_clean clean]
      exact printing_executeProgram fuel program (session.resolved program)
    · rw [runProgram_unclean clean]
      exact Machine.prints_of_sink rfl
  · rw [rejected]
    exact Machine.prints_of_sink rfl

/-- The second unit fails with this error, and behind the first one with that error.  In the
session `numbered`, where all tokens are numbered and those of earlier units are the first
ones, the error names the token: the unit fails there by an evaluation of the node to which
the token belongs.  Otherwise it fails by copies of that evaluation, of the same node with
all tokens on their lines. -/
structure FailsAlike (session numbered : Session) (earlier : List Token) (fuel : Nat)
    (first second : String) (named error error' : RuntimeError) : Prop where
  outcome : (numbered.runNumbered fuel earlier.length second).1 = .interrupted (.runtime named)
  failures : ∃ failing alone joined : Moment,
    numbered.FailsBy fuel (numberTokens earlier.length (scanTokens second)) failing named ∧
    (session.run fuel first).2.FailsBy fuel (scanTokens second) alone error ∧
    session.FailsBy fuel (scanTokens (first ++ "\n" ++ second)) joined error' ∧
    failing.Moved (lineAt (earlier ++ scanTokens second)) alone ∧
    failing.Moved
      (lineAt (earlier ++ (scanTokens second).map (Token.moved (· + lineCount first)))) joined

/-- How the second unit ends by itself, and how it ends behind the first one. -/
inductive EndsAlike (session numbered : Session) (earlier : List Token) (fuel : Nat)
    (first second : String) : Outcome → Outcome → Prop where
  | completed : EndsAlike session numbered earlier fuel first second .completed .completed
  /-- The unit fails at a token of an earlier unit: the error is on its line. -/
  | outside {number : Nat} {token : Token} {fault : RuntimeFault} :
      session.FailsAlike numbered earlier fuel first second ⟨number, fault⟩ ⟨token.line, fault⟩
        ⟨token.line, fault⟩ →
      earlier[number]? = some token →
      EndsAlike session numbered earlier fuel first second
        (.interrupted (.runtime ⟨token.line, fault⟩)) (.interrupted (.runtime ⟨token.line, fault⟩))
  /-- The unit fails at a token of its own: the error is on its line, which is further
  down behind the first unit. -/
  | inside {index : Nat} {token : Token} {fault : RuntimeFault} :
      session.FailsAlike numbered earlier fuel first second ⟨earlier.length + index, fault⟩
        ⟨token.line, fault⟩ ⟨token.line + lineCount first, fault⟩ →
      (scanTokens second)[index]? = some token →
      EndsAlike session numbered earlier fuel first second
        (.interrupted (.runtime ⟨token.line, fault⟩))
        (.interrupted (.runtime ⟨token.line + lineCount first, fault⟩))
  | output (error : OutputError) : EndsAlike session numbered earlier fuel first second
      (.interrupted (.output error)) (.interrupted (.output error))
  | outOfFuel : EndsAlike session numbered earlier fuel first second
      (.interrupted .outOfFuel) (.interrupted .outOfFuel)

/-- Two units, one after the other, run alike as one longer unit.  The session `numbered`
has run the first unit, and all units before it, with numbers in place of the lines of
their tokens, which are the earlier ones. -/
structure JoinsAlike (session numbered : Session) (earlier : List Token) (fuel : Nat)
    (first second : String) : Prop where
  /-- The longer unit prints what the two print. -/
  output : ∃ printed printed' : ByteArray,
    (session.run fuel first).2.machine.sink.written =
        session.machine.sink.written ++ printed ∧
      ((session.run fuel first).2.run fuel second).2.machine.sink.written =
        (session.run fuel first).2.machine.sink.written ++ printed' ∧
      (session.run fuel (first ++ "\n" ++ second)).2.machine.sink.written =
        session.machine.sink.written ++ (printed ++ printed')
  /-- It ends as the second unit does, and a runtime error is on a lower line exactly if
  the token at which it was found belongs to that unit. -/
  outcome : session.EndsAlike numbered earlier fuel first second
    ((session.run fuel first).2.run fuel second).1
    (session.run fuel (first ++ "\n" ++ second)).1
  globalNames : (session.run fuel (first ++ "\n" ++ second)).2.machine.globalNames =
    ((session.run fuel first).2.run fuel second).2.machine.globalNames
  /-- All values are the same, but for functions whose trees stand on lower lines and
  have other identities. -/
  machines : (((session.run fuel first).2.run fuel second).2.machine.copying
      (session.run fuel (first ++ "\n" ++ second)).2.machine
      fun move => move = id ∨ move = (· + lineCount first)).Machines
    ((session.run fuel first).2.run fuel second).2.machine
    (session.run fuel (first ++ "\n" ++ second)).2.machine
  /-- Numbers in place of lines change nothing else, neither in the units that have been
  run nor in the second one. -/
  numbers : Numbered earlier numbered (session.run fuel first).2 ∧
    Numbered (earlier ++ scanTokens second) (numbered.runNumbered fuel earlier.length second).2
      ((session.run fuel first).2.run fuel second).2

section JoinsAlike

variable {session numbered : Session} {before : List Token} {fuel : Nat} {first second : String}

theorem run_faultless {source : String} (lexical : scanErrors source = []) :
    session.run fuel source = session.runTokens fuel [] (scanTokens source) := by
  have unfolded : session.run fuel source = session.runTokens fuel
      ((scanErrors source).map .lexical) (scanTokens source) := rfl
  rw [unfolded, lexical, List.map_nil]

theorem runNumbered_faultless {source : String} {number : Nat} (lexical : scanErrors source = []) :
    session.runNumbered fuel number source =
      session.runTokens fuel [] (numberTokens number (scanTokens source)) := by
  rw [runNumbered, lexical, List.map_nil]

/-- A unit that is not rejected has no lexical errors. -/
theorem Settled.faultless (settled : session.Settled fun _ => True)
    {source : String} (notRejected : ∀ errors, (session.run fuel source).1 ≠ .rejected errors) :
    scanErrors source = [] :=
  List.map_eq_nil_iff.mp (settled.exists_runs (scanned_scanTokens source) notRejected).1

/-- A unit that completes and an accepted unit after it run alike as one longer unit. -/
theorem Settled.joined_alike (settled : session.Settled fun _ => True)
    (completed : (session.run fuel first).1 = .completed)
    (accepted : ∀ errors, ((session.run fuel first).2.run fuel second).1 ≠ .rejected errors) :
    RunAlike (fun move => move = id ∨ move = (· + lineCount first)) fuel
      (session.run fuel first).2 session (scanTokens second)
      (scanTokens (first ++ "\n" ++ second)) := by
  have lexical := settled.faultless (not_rejected_of_completed completed)
  have settledLater := settled.run fuel first (fun _ => id) fun _ _ _ _ => trivial
  have lexical' := settledLater.faultless accepted
  rcases scanTokens_joined second lexical with ⟨tokens, last, split, joined⟩
  have scanned := scanned_scanTokens first
  have still : tokens.map (Token.moved id) = tokens := by
    rw [funext Token.moved_id, List.map_id']
  rw [run_faultless lexical'] at accepted
  rw [run_faultless lexical, split] at completed accepted ⊢
  rw [split] at scanned
  refine settled.runAlike settled ⟨?_, rfl, rfl, rfl, rfl, rfl, rfl, rfl, rfl⟩ (.inl rfl) (.inr rfl)
    scanned (scanned_scanTokens second) (scanned_scanTokens _) ?_ completed accepted
  · exact Copying.Heaps.of_same (.inl rfl) fun _ _ => rfl
  · rw [joined, still]

/-- What two units with numbered tokens do is what the longer unit does, on the lines of
its tokens. -/
theorem Numbered.joined_alike (numbers : Numbered before numbered session)
    (lexical : scanErrors first = []) (lexical' : scanErrors second = [])
    (completed : (numbered.runNumbered fuel before.length first).1 = .completed)
    (accepted : ∀ errors, ((numbered.runNumbered fuel before.length first).2.runNumbered fuel
      (before ++ scanTokens first).length second).1 ≠ .rejected errors)
    {line : Nat → Nat} (placed : Placed line 0 (before ++ scanTokens first ++
      (scanTokens second).map (Token.moved (· + lineCount first)))) :
    RunAlike (· = line) fuel (numbered.runNumbered fuel before.length first).2 session
      (numberTokens (before ++ scanTokens first).length (scanTokens second))
      (scanTokens (first ++ "\n" ++ second)) := by
  rcases scanTokens_joined second lexical with ⟨tokens, last, split, joined⟩
  have placedFirst := placed.left.right
  have placedSecond := placed.right
  have scanned := (scanned_scanTokens first).numbered before.length
  rw [Nat.zero_add, split] at placedFirst
  rw [Nat.zero_add] at placedSecond
  generalize (before ++ scanTokens first).length = count at placedSecond accepted ⊢
  rw [runNumbered_faultless lexical'] at accepted
  rw [runNumbered_faultless lexical, split, numberTokens_append] at completed accepted ⊢
  rw [split, numberTokens_append] at scanned
  refine numbers.settled.runAlike numbers.settled' (numbers.copies line placed.left.left).machines
    rfl rfl scanned ((scanned_scanTokens second).numbered count) (scanned_scanTokens _) ?_ completed
    accepted
  rw [joined, placedFirst.left.moved, ← numberTokens_moved count (· + lineCount first),
    placedSecond.moved]

/-- If the second unit fails, it fails at the token that its error names, and so does the
longer unit. -/
theorem Numbered.failsAlike (numbers : Numbered before numbered (session.run fuel first).2)
    (lexical' : scanErrors second = []) {named : RuntimeError}
    (failed : (numbered.runNumbered fuel before.length second).1 = .interrupted (.runtime named))
    (joined : RunAlike
      (· = lineAt (before ++ (scanTokens second).map (Token.moved (· + lineCount first)))) fuel
      numbered session (numberTokens before.length (scanTokens second))
      (scanTokens (first ++ "\n" ++ second))) :
    session.FailsAlike numbered before fuel first second named
      ⟨lineAt (before ++ scanTokens second) named.line, named.fault⟩
      ⟨lineAt (before ++ (scanTokens second).map (Token.moved (· + lineCount first))) named.line,
        named.fault⟩ := by
  have ended := failed
  rw [runNumbered_faultless lexical'] at ended
  have notRejected : ∀ errors, (numbered.runTokens fuel []
      (numberTokens before.length (scanTokens second))).1 ≠ .rejected errors := by
    rw [ended]
    exact nofun
  rcases numbers.settled.exists_runs ((scanned_scanTokens second).numbered before.length)
    notRejected with ⟨-, program, nextId, runs⟩
  rcases runs.exists_failsBy ended with ⟨failing, failsBy⟩
  have placed := placed_lineAt (before ++ scanTokens second)
  have own := placed.right
  rw [Nat.zero_add] at own
  rcases (numbers.copies _ placed.left).failsBy numbers.settled' runs failsBy with
    ⟨alone, aloneFails, aloneMoved⟩
  rw [own.moved] at aloneFails
  rcases joined.failures failsBy with ⟨behind, error', behindFails, behindMoved, errors⟩
  rw [errors.moved rfl] at behindFails
  exact ⟨failed, failing, alone, behind, failsBy, aloneFails, behindFails, aloneMoved, behindMoved⟩

/-- The unit ends with the error of the token at which it fails, and so does the longer
unit. -/
theorem Numbered.endsAlike (numbers : Numbered before numbered (session.run fuel first).2)
    (lexical : scanErrors first = []) (lexical' : scanErrors second = [])
    (accepted : ∀ errors, (numbered.runNumbered fuel before.length second).1 ≠ .rejected errors)
    (joined : RunAlike
      (· = lineAt (before ++ (scanTokens second).map (Token.moved (· + lineCount first)))) fuel
      numbered session (numberTokens before.length (scanTokens second))
      (scanTokens (first ++ "\n" ++ second))) :
    session.EndsAlike numbered before fuel first second
      ((session.run fuel first).2.run fuel second).1
      (session.run fuel (first ++ "\n" ++ second)).1 := by
  have endsJoined := joined.outcome.moved
  rw [← run_faultless (scanErrors_joined lexical lexical'), ← runNumbered_faultless lexical']
    at endsJoined
  rw [(numbers.run_copies fuel (placed_lineAt _)).1, endsJoined]
  cases failed : (numbered.runNumbered fuel before.length second).1 with
  | completed => exact .completed
  | rejected errors => exact absurd failed (accepted errors)
  | interrupted cause =>
      cases cause with
      | output error => exact .output error
      | outOfFuel => exact .outOfFuel
      | runtime error =>
          have failsAlike := numbers.failsAlike lexical' failed joined
          rcases numbers.exists_token failed with ⟨token, found⟩
          rcases error with ⟨number, fault⟩
          rw [Outcome.moved, Outcome.moved, Interrupt.moved, Interrupt.moved]
          by_cases isEarlier : number < before.length
          · rw [List.getElem?_append_left isEarlier] at found
            rw [lineAt_left found, lineAt_left found] at failsAlike ⊢
            exact .outside failsAlike found
          · rcases Nat.exists_eq_add_of_le (Nat.not_lt.mp isEarlier) with ⟨index, rfl⟩
            rw [List.getElem?_append_right (Nat.le_add_right _ _), Nat.add_sub_cancel_left] at found
            have moved : ((scanTokens second).map (Token.moved (· + lineCount first)))[index]? =
                some (token.moved (· + lineCount first)) := by
              rw [List.getElem?_map, found]
              rfl
            rw [lineAt_right before found, lineAt_right before moved] at failsAlike ⊢
            exact .inside failsAlike found

theorem Numbered.joinsAlike (numbers : Numbered before numbered session)
    (completed : (session.run fuel first).1 = .completed)
    (accepted : ∀ errors, ((session.run fuel first).2.run fuel second).1 ≠ .rejected errors) :
    session.JoinsAlike (numbered.runNumbered fuel before.length first).2
      (before ++ scanTokens first) fuel first second := by
  have numbersLater := numbers.run fuel first
  have ends := (numbers.run_copies fuel (placed_lineAt (before ++ scanTokens first))).1
  have endsLater := (numbersLater.run_copies fuel
    (placed_lineAt (before ++ scanTokens first ++ scanTokens second))).1
  have numberedCompleted : (numbered.runNumbered fuel before.length first).1 = .completed := by
    rw [completed] at ends
    exact Outcome.eq_completed_of_moved ends.symm
  have numberedAccepted : ∀ errors, ((numbered.runNumbered fuel before.length first).2.runNumbered
      fuel (before ++ scanTokens first).length second).1 ≠ .rejected errors := by
    intro errors rejected
    rw [rejected] at endsLater
    exact accepted _ endsLater
  have joined := numbers.settled'.joined_alike completed accepted
  have lexical := numbers.settled'.faultless (not_rejected_of_completed completed)
  have lexical' := numbersLater.settled'.faultless accepted
  have numberedJoined := numbers.joined_alike lexical lexical' numberedCompleted numberedAccepted
    (placed_lineAt _)
  have machines := joined.machines
  rw [← run_faultless lexical', ← run_faultless (scanErrors_joined lexical lexical')] at machines
  rcases session.prints_run fuel first with ⟨printed, written⟩
  rcases (session.run fuel first).2.prints_run fuel second with ⟨printed', writtenLater⟩
  refine ⟨⟨printed, printed', written, writtenLater, ?_⟩,
    numbersLater.endsAlike lexical lexical' numberedAccepted numberedJoined, ?_, machines,
    numbersLater, numbersLater.run fuel second⟩
  · rw [machines.sink, writtenLater, written, ByteArray.append_assoc]
  · rw [Machine.globalNames, Machine.globalNames, machines.heap.scopes, machines.globals]

end JoinsAlike

end Session

/-- In whatever session, a unit that completes and an accepted unit after it run alike as
one longer unit, with a line break between them.  The line of a runtime error is moved
exactly if the error was found at a token of the second unit. -/
theorem joined_units_run_alike (sink : Sink) (clock : Clock) (history : List (Nat × String))
    (fuel : Nat) (first second : String)
    (completed : (((Session.initial sink clock).runAll history).run fuel first).1 = .completed)
    (accepted : ∀ errors, ((((Session.initial sink clock).runAll history).run fuel first).2.run
      fuel second).1 ≠ .rejected errors) :
    ((Session.initial sink clock).runAll history).JoinsAlike
      ((Session.initial sink clock).runAllNumbered 0 (history ++ [(fuel, first)]))
      (Session.unitTokens (history ++ [(fuel, first)])) fuel first second := by
  have joins := (Session.numbered_runAll sink clock history).joinsAlike completed accepted
  rw [Session.runAllNumbered_append_singleton, Session.unitTokens_append_singleton, Nat.zero_add]
  exact joins

/-- A function of no parameters. -/
def constantSource : String :=
  "fun f() \x7b return x; \x7d"

/-- A call of that function, on a line below another statement, whose result is used
wrongly. -/
def misusingSource : String :=
  "print f;\nf().y;"

theorem constantSource_read : oneGlobal.Reads constantSource
    [.function ⟨⟨"f", 1⟩, [], [.return_ 1 (some (.var 1 ⟨"x", 1⟩))]⟩] 2 := by
  refine ⟨by decide +kernel, ?_⟩
  rw [oneGlobal_eq]
  change parseProgram 1 (scanTokens constantSource) = _
  rw [scanTokens_eq]
  cbv

theorem constantSource_completed : (oneGlobal.run 9 constantSource).1 = .completed := by
  rw [constantSource_read.run_eq, oneGlobal_eq]
  decide +kernel

theorem misusingSource_read : (oneGlobal.run 9 constantSource).2.Reads misusingSource
    [.print (.var 2 ⟨"f", 1⟩), .expression (.get (.call (.var 3 ⟨"f", 2⟩) 2 []) ⟨"y", 2⟩)] 4 := by
  refine ⟨by decide +kernel, ?_⟩
  rw [constantSource_read.run_eq]
  change parseProgram 2 (scanTokens misusingSource) = _
  rw [scanTokens_eq]
  cbv

theorem misusingSource_fails : ((oneGlobal.run 9 constantSource).2.run 9 misusingSource).1 =
    .interrupted (.runtime ⟨2, .propertyOfNonObject⟩) := by
  rw [misusingSource_read.run_eq, constantSource_read.run_eq, oneGlobal_eq]
  decide +kernel

theorem misusingSource_joins_alike :
    ((oneGlobal.run 9 constantSource).2.run 9 misusingSource).1 =
        .interrupted (.runtime ⟨2, .propertyOfNonObject⟩) ∧
      oneGlobal.JoinsAlike
        ((Session.initial .unlimited (.startingAt 0)).runAllNumbered 0
          [(9, "var x = clock;"), (9, constantSource)])
        (Session.unitTokens [(9, "var x = clock;"), (9, constantSource)]) 9 constantSource
        misusingSource := by
  refine ⟨misusingSource_fails, ?_⟩
  apply joined_units_run_alike .unlimited (.startingAt 0) [(9, "var x = clock;")] 9 constantSource
    misusingSource constantSource_completed
  intro errors rejected
  have failed := misusingSource_fails.symm.trans rejected
  cases failed

end Lox
