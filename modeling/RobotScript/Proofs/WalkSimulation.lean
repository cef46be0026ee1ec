/-
Module: RobotScript.Proofs.WalkSimulation
Purpose: The machine does what the recursive walk does. Wherever a walk goes, the course of the
  program goes too, at the same price, and a block that the walk has come through is left by the
  machine. The course being one, and a walk that is broken off having spent at least its rounds,
  this decides both ways what a call can answer.
Main exports: Follows, Tree.walk_follows, Tree.walkBlock_follows, parsed_calls_follow_walk
-/
import RobotScript.Proofs.Course
import RobotScript.Proofs.TreeWalk

namespace RobotScript

/-! ### Following a walk -/

/-- The stage that a walk has come to, if the machine has these frames there. -/
def Walk.stage (walk : Walk) (frames : List Frame) : Stage :=
  ⟨walk.letters, walk.gas, frames⟩

/-- The course comes to the place that the walk has come to, and if the walk was not broken off,
with these frames. -/
def Follows (program : Program) (scopes : Nat → Scope) (before : Stage) (walk : Walk)
    (frames : List Frame) : Prop :=
  ∃ reached, Stage.Leads program scopes before (walk.stage reached) ∧
    (walk.ended = true → reached = frames)

namespace Follows

variable {program : Program} {scopes : Nat → Scope} {before : Stage} {walk : Walk}
  {frames : List Frame}

theorem refl (walk : Walk) (frames : List Frame) :
    Follows program scopes (walk.stage frames) walk frames :=
  ⟨frames, .refl, fun _ => rfl⟩

theorem head {next : Stage} (moves : Stage.Moves program scopes before next)
    (follows : Follows program scopes next walk frames) :
    Follows program scopes before walk frames := by
  obtain ⟨reached, leads, same⟩ := follows
  exact ⟨reached, leads.head moves, same⟩

theorem andThen {middle : List Frame} {next : Walk → Walk}
    (first : Follows program scopes before walk middle)
    (second : walk.ended = true →
      Follows program scopes (walk.stage middle) (next walk) frames) :
    Follows program scopes before (walk.andThen next) frames := by
  obtain ⟨reached, leads, same⟩ := first
  simp only [Walk.andThen]
  split
  · rename_i ended
    obtain rfl := same ended
    obtain ⟨last, goesOn, sameLast⟩ := second ended
    exact ⟨last, leads.trans goesOn, sameLast⟩
  · rename_i broken
    exact ⟨reached, leads, fun ended => absurd ended broken⟩

end Follows

/-- From this cursor on, the machine comes through a block as the walk does, whatever kind of
frame runs it: at the end of the block the frame makes the move of its kind. -/
def FollowsBlock (program : Program) (scopes : Nat → Scope) (id : BlockId) (cursor : Nat)
    (block : Walk → Walk) : Prop :=
  ∀ (kind : FrameKind) (outer : List Frame) (walk : Walk), walk.ended = true →
    Follows program scopes (walk.stage (⟨id, cursor, kind⟩ :: outer)) (block walk)
      ((kind.move (scopes (block walk).letters.length)).apply ⟨id, cursor, kind⟩ outer)

namespace FollowsBlock

variable {program : Program} {scopes : Nat → Scope} {id : BlockId} {block : Walk → Walk}

/-- A frame with so many rounds remaining makes one round more. -/
theorem times (follows : FollowsBlock program scopes id 0 block) (outer : List Frame)
    {count : Nat} {remaining : UInt32} (rounds : remaining.toNat + 1 = count) {walk : Walk}
    (ended : walk.ended = true) :
    Follows program scopes (walk.stage (.enter id (.repeated remaining) :: outer))
      (.times block count walk) outer := by
  induction count generalizing remaining walk with
  | zero => cases rounds
  | succ count inductionHypothesis =>
      apply (follows (.repeated remaining) outer walk ended).andThen
      intro goesOn
      rw [FrameKind.move]
      split
      · rename_i noneLeft
        subst noneLeft
        obtain rfl : 0 = count := Nat.succ.inj rounds
        exact .refl _ outer
      · rename_i someLeft
        apply inductionHypothesis _ goesOn
        rw [toNat_pred_add_one someLeft]
        exact Nat.succ.inj rounds

/-- The condition is read where the loop is entered and at every end of its block. -/
theorem whileHolds (follows : FollowsBlock program scopes id 0 block) (condition : String)
    (outer : List Frame) (rounds : Nat) {walk : Walk} (ended : walk.ended = true) :
    Follows program scopes
      (walk.stage (if walk.reads scopes condition then .enter id (.loop condition) :: outer
        else outer))
      (.whileHolds scopes condition block rounds walk) outer := by
  induction rounds generalizing walk with
  | zero =>
      rw [Walk.whileHolds]
      split
      · exact ⟨_, .refl, fun ended => absurd ended Bool.false_ne_true⟩
      · exact .refl walk outer
  | succ rounds inductionHypothesis =>
      rw [Walk.whileHolds]
      split
      · apply (follows (.loop condition) outer walk ended).andThen
        intro goesOn
        -- The end of the block reads what the next round of the walk reads.
        have rest := inductionHypothesis goesOn
        unfold Walk.reads at rest
        rw [FrameKind.move]
        split
        · rename_i holds
          rwa [if_pos holds] at rest
        · rename_i fails
          rwa [if_neg fails] at rest
      · exact .refl walk outer

end FollowsBlock

/-! ### Statements and blocks -/

section Moves

variable {program : Program} {scopes : Nat → Scope} {frame : Frame} {outer : List Frame}
  {block : Block}

theorem Walk.moves_on (walk : Walk) (here : program.block? frame.block = some block)
    {move : Move} (makes : frame.move (scopes walk.letters.length) block = move)
    (noAction : ∀ letter, move ≠ .act letter) :
    Stage.Moves program scopes (walk.stage (frame :: outer))
      (walk.spend.stage (move.apply frame outer)) := by
  have moves : Stage.Moves program scopes (walk.stage (frame :: outer)) _ := .move here
  rw [makes, Move.letters_eq_nil noAction, List.append_nil] at moves
  exact moves

theorem Walk.moves_start (walk : Walk) (here : program.block? frame.block = some block)
    {stmt : Stmt} (there : block.stmts[frame.cursor]? = some stmt) {reading? : Option Reading}
    {opened? : Option Frame}
    (starts : stmt.move (scopes walk.letters.length) = .call reading? opened?) :
    Stage.Moves program scopes (walk.stage (frame :: outer))
      (walk.spend.stage ((Move.call reading? opened?).apply frame outer)) := by
  refine walk.moves_on here ?_ nofun
  rw [Frame.move, there]
  exact starts

theorem Walk.moves_end (walk : Walk) (here : program.block? frame.block = some block)
    (atEnd : block.stmts[frame.cursor]? = none) :
    Stage.Moves program scopes (walk.stage (frame :: outer))
      (walk.spend.stage ((frame.kind.move (scopes walk.letters.length)).apply frame outer)) := by
  refine walk.moves_on here ?_ ?_
  · rw [Frame.move, atEnd]
  · intro letter acts
    rcases frame.kind.move_cases (scopes walk.letters.length) with leaves | ⟨next, again⟩
    · rw [leaves] at acts
      cases acts
    · rw [again] at acts
      cases acts

/-- Ending a block does not depend on where its cursor was. -/
theorem FrameKind.apply_move (kind : FrameKind) (scope : Scope) (id : BlockId)
    (cursor other : Nat) (outer : List Frame) :
    (kind.move scope).apply ⟨id, cursor, kind⟩ outer =
      (kind.move scope).apply ⟨id, other, kind⟩ outer := by
  rcases kind.move_cases scope with leaves | ⟨next, again⟩
  · rw [leaves]
    rfl
  · rw [again]
    rfl

end Moves

/-- Where trees are left from a cursor on, the first one is that of the statement at the cursor. -/
theorem Block.unfolds_at {program : Program} {block : Block} {cursor : Nat} {tree : Tree}
    {trees : List Tree}
    (stmtsUnfold : List.Forall₂ (Stmt.Unfolds program) (block.stmts.toList.drop cursor)
      (tree :: trees)) :
    ∃ stmt, block.stmts[cursor]? = some stmt ∧
      block.stmts.toList.drop cursor = stmt :: block.stmts.toList.drop (cursor + 1) ∧
      stmt.Unfolds program tree ∧
      List.Forall₂ (Stmt.Unfolds program) (block.stmts.toList.drop (cursor + 1)) trees := by
  obtain ⟨stmt, later, unfolds, laterUnfold, whole⟩ := List.forall₂_cons_right_iff.mp stmtsUnfold
  have there : block.stmts[cursor]? = some stmt := by
    rw [← Array.getElem?_toList, ← Nat.add_zero cursor, ← List.getElem?_drop, whole]
    rfl
  have suffix : later = block.stmts.toList.drop (cursor + 1) := by
    rw [← List.tail_drop, whole]
    rfl
  rw [suffix] at laterUnfold whole
  exact ⟨stmt, there, whole, unfolds, laterUnfold⟩

section Simulation

variable {program : Program} (scopes : Nat → Scope) (rounds : Nat)

mutual

/-- A statement that the walk has come through is one the cursor has passed. -/
theorem Tree.walk_follows {frame : Frame} {block : Block}
    (here : program.block? frame.block = some block) (outer : List Frame) (walk : Walk)
    (ended : walk.ended = true) :
    ∀ (tree : Tree) (stmt : Stmt), stmt.Unfolds program tree →
      block.stmts[frame.cursor]? = some stmt →
      Follows program scopes (walk.stage (frame :: outer)) (tree.walk scopes rounds walk)
        ({ frame with cursor := frame.cursor + 1 } :: outer)
  | .action letter, _, .action _ span, there => by
      have moves : Stage.Moves program scopes (walk.stage (frame :: outer)) _ := .move here
      have acts : frame.move (scopes walk.letters.length) block = .act letter := by
        rw [Frame.move, there]
        rfl
      rw [acts] at moves
      exact .head moves (.refl (walk.spend.act letter) _)
  | .block body, _, .block unfolds, there => by
      obtain ⟨inner, innerHere, stmtsUnfold⟩ := Program.unfolds_iff.mp unfolds
      apply Follows.head (walk.moves_start here there rfl)
      exact walkBlock_follows innerHere 0 body stmtsUnfold .block _ walk.spend ended
  | .repeated count body, _, .repeated unfolds, there => by
      obtain ⟨inner, innerHere, stmtsUnfold⟩ := Program.unfolds_iff.mp unfolds
      apply Follows.head (walk.moves_start here there rfl)
      split
      · rename_i zero
        subst zero
        exact .refl _ _
      · rename_i positive
        have follows := walkBlock_follows innerHere 0 body stmtsUnfold
        exact follows.times _ (toNat_pred_add_one positive) ended
  | .conditional _ body, _, .conditional unfolds, there => by
      obtain ⟨inner, innerHere, stmtsUnfold⟩ := Program.unfolds_iff.mp unfolds
      apply Follows.head (walk.moves_start here there rfl)
      rw [Tree.walk]
      unfold Walk.reads
      split
      · exact walkBlock_follows innerHere 0 body stmtsUnfold .block _ walk.spend ended
      · exact .refl _ _
  | .alternative _ body otherwise, _, .alternative unfolds otherUnfolds, there => by
      obtain ⟨inner, innerHere, stmtsUnfold⟩ := Program.unfolds_iff.mp unfolds
      obtain ⟨other, otherHere, otherUnfold⟩ := Program.unfolds_iff.mp otherUnfolds
      apply Follows.head (walk.moves_start here there rfl)
      rw [Tree.walk]
      unfold Walk.reads
      split
      · exact walkBlock_follows innerHere 0 body stmtsUnfold .block _ walk.spend ended
      · exact walkBlock_follows otherHere 0 otherwise otherUnfold .block _ walk.spend ended
  | .loop _ body, _, .loop unfolds, there => by
      obtain ⟨inner, innerHere, stmtsUnfold⟩ := Program.unfolds_iff.mp unfolds
      apply Follows.head (walk.moves_start here there rfl)
      -- Starting the loop reads the condition for its first round.
      rename_i condition id span
      have spent : walk.spend.ended = true := ended
      have follows := (walkBlock_follows innerHere 0 body stmtsUnfold).whileHolds condition.name
        ({ frame with cursor := frame.cursor + 1 } :: outer) rounds spent
      have sameScope : walk.spend.reads scopes condition.name =
        (scopes walk.letters.length).isTruthy condition.name := rfl
      rw [sameScope] at follows
      split
      · rename_i holds
        rwa [if_pos holds] at follows
      · rename_i fails
        rwa [if_neg fails] at follows

/-- A block that the walk has come through is one the machine has come to the end of. -/
theorem Tree.walkBlock_follows {id : BlockId} {block : Block}
    (here : program.block? id = some block) (cursor : Nat) :
    ∀ trees : List Tree,
      List.Forall₂ (Stmt.Unfolds program) (block.stmts.toList.drop cursor) trees →
      FollowsBlock program scopes id cursor (Tree.walkBlock scopes rounds trees)
  | [], stmtsUnfold => by
      intro kind outer walk ended
      have atEnd : block.stmts[cursor]? = none := by
        have ends := List.drop_eq_nil_iff.mp (List.forall₂_nil_right_iff.mp stmtsUnfold)
        exact Array.getElem?_eq_none ends
      exact .head (walk.moves_end here atEnd) (.refl walk.spend _)
  | tree :: trees, stmtsUnfold => by
      intro kind outer walk ended
      obtain ⟨stmt, there, -, unfolds, laterUnfold⟩ := Block.unfolds_at stmtsUnfold
      -- The move at the end is made further on, but leads to the same frames.
      rw [Tree.walkBlock, kind.apply_move _ id cursor (cursor + 1)]
      apply (walk_follows here outer walk ended tree stmt unfolds there).andThen
      intro goesOn
      rw [Walk.andThen, if_pos goesOn]
      exact walkBlock_follows here (cursor + 1) trees laterUnfold kind outer _ goesOn

end

end Simulation

/-! ### Walks and calls -/

variable {program : Program} {scopes : Nat → Scope}

/-- The whole program is the block at its root. -/
theorem Program.Unfolds.follows {trees : List Tree}
    (unfolds : program.Unfolds program.root trees) (scopes : Nat → Scope) (rounds : Nat) :
    Follows program scopes (.start program) (Tree.walkBlock scopes rounds trees .start) [] := by
  obtain ⟨block, here, stmtsUnfold⟩ := Program.unfolds_iff.mp unfolds
  exact Tree.walkBlock_follows scopes rounds here 0 trees stmtsUnfold .block [] .start rfl

/-- A walk that answers a call has come to a stage that answers it. -/
theorem Walk.stage_answers {walk : Walk} {frames : List Frame}
    (left : walk.ended = true → frames = []) {call : Nat} {answer : Option Char}
    (answers : walk.answer? call = some answer) : (walk.stage frames).Answers call answer := by
  simp only [answer?] at answers
  split at answers
  · rename_i letter found
    obtain rfl := Option.some.inj answers
    exact found
  · rename_i beyond
    split at answers
    · rename_i ended
      obtain rfl := Option.some.inj answers
      exact ⟨left ended, List.getElem?_eq_none_iff.mp beyond⟩
    · cases answers

/-- A stage where a walk has come to answers for it, if it has not been broken off before the
end. -/
theorem Walk.answer?_of_stage {walk : Walk} {frames : List Frame} {call : Nat}
    {answer : Option Char} (answers : (walk.stage frames).Answers call answer)
    (through : answer = none → walk.ended = true) : walk.answer? call = some answer := by
  cases answer with
  | some letter =>
      have found : walk.letters[call]? = some letter := answers
      rw [answer?, found]
  | none =>
      have beyond : walk.letters[call]? = none := List.getElem?_eq_none answers.2
      rw [answer?, beyond]
      exact if_pos (through rfl)

/-- A walk that is allowed enough rounds answers what a stage of the course answers. -/
theorem Program.Unfolds.walk_answers {trees : List Tree}
    (unfolds : program.Unfolds program.root trees) {stage : Stage}
    (course : Stage.Leads program scopes (.start program) stage) {call : Nat}
    {answer : Option Char} (answers : stage.Answers call answer) :
    (Tree.walkBlock scopes (stage.gas + 1) trees .start).answer? call = some answer := by
  obtain ⟨reached, walked, left⟩ := unfolds.follows scopes (stage.gas + 1)
  have spends := Tree.walkBlock_spends scopes (stage.gas + 1) .start rfl trees
  cases ended : (Tree.walkBlock scopes (stage.gas + 1) trees .start).ended with
  | true =>
      have leads := course.to_end walked (left ended)
      exact Walk.answer?_of_stage (answers.later leads) fun _ => ended
  | false =>
      -- Having spent more than the stage, the walk has come past it.
      have more : stage.gas < (Tree.walkBlock scopes (stage.gas + 1) trees .start).gas :=
        Nat.lt_of_lt_of_le (by omega) (spends.broken ended)
      have leads := course.ordered walked (Nat.le_of_lt more)
      apply Walk.answer?_of_stage (answers.later leads)
      rintro rfl
      have same := leads.eq_of_ended answers.1
      have sameGas : (Tree.walkBlock scopes (stage.gas + 1) trees .start).gas = stage.gas :=
        congrArg Stage.gas same
      exact absurd more (by omega)

/-- A call is answered as soon as the counter has room for the walk to its answer. -/
theorem Program.Unfolds.outcome {trees : List Tree}
    (unfolds : program.Unfolds program.root trees) {capacity call rounds : Nat}
    {result : StepResult} (outcome : Execution.Outcome capacity program scopes call result)
    {answer : Option Char}
    (answers : (Tree.walkBlock scopes rounds trees .start).answer? call = some answer)
    (room : (Tree.walkBlock scopes rounds trees .start).gas < capacity) : result = .ok answer := by
  obtain ⟨reached, walked, left⟩ := unfolds.follows scopes rounds
  have stageAnswers := Walk.stage_answers left answers
  cases outcome with
  | answers course alsoAnswers =>
      rw [course.answers_unique walked alsoAnswers stageAnswers]
  | @overflows stage course few running full =>
      have later : (Tree.walkBlock scopes rounds trees .start).gas ≤ stage.gas := by omega
      have unanswered := stageAnswers.later (walked.ordered course later)
      cases answer with
      | some letter =>
          have found : stage.letters[call]? = some letter := unanswered
          rw [List.getElem?_eq_none few] at found
          cases found
      | none => exact absurd unanswered.1 running

/-- Calls without a limit on an accepted script, each under a scope of its own, answer what the
recursive walk through its trees answers, with a gas counter of any capacity, that of
`Execution.step` among them. An answer that is given is that of a walk; the answer of a walk is
given if the counter has room for the walk; and a call without an answer has found the counter
full. -/
theorem parsed_calls_follow_walk {source : SourceFile} {program : Program}
    (accepted : parse source = .ok program) (few : program.blocks.size < UInt32.size) :
    ∃ trees, program.unfold? = some trees ∧
      ∀ (scopes : Nat → Scope) (call capacity : Nat),
        (∀ answer, (Execution.callWithin capacity program scopes call).1 = .ok answer →
          ∃ rounds, (Tree.walkBlock scopes rounds trees .start).answer? call = some answer) ∧
        (∀ rounds answer,
          (Tree.walkBlock scopes rounds trees .start).answer? call = some answer →
          (Tree.walkBlock scopes rounds trees .start).gas < capacity →
          (Execution.callWithin capacity program scopes call).1 = .ok answer) ∧
        (∀ error, (Execution.callWithin capacity program scopes call).1 = .error error →
          error = .counterOverflow) := by
  obtain ⟨isTree, trees, unfolded⟩ := parse_isTree_and_unfolds accepted few
  have unfolds : program.Unfolds program.root trees := ⟨_, unfolded⟩
  refine ⟨trees, unfolded, ?_⟩
  intro scopes call capacity
  obtain ⟨outcome, -⟩ :=
    Execution.callWithin_tracks isTree.inTable isTree.holds_root capacity scopes call
  refine ⟨?_, ?_, ?_⟩
  · intro answer returned
    rw [returned] at outcome
    cases outcome with
    | answers course answers => exact ⟨_, unfolds.walk_answers course answers⟩
  · intro rounds answer answers room
    exact unfolds.outcome outcome answers room
  · intro error failed
    rw [failed] at outcome
    cases outcome with
    | overflows => rfl

/-- A loop whose condition the host ends after two actions. -/
theorem parsed_calls_ended_loop :
    ∃ program, parse ⟨"aula", "enquanto luz {A} B"⟩ = .ok program ∧
      program.blocks.size < UInt32.size ∧
      (Execution.callWithin gasCapacity program
        (fun call => Scope.empty.set "luz" (.bool (call < 2))) 2).1 = .ok (some 'B') := by
  have walks : (parse ⟨"aula", "enquanto luz {A} B"⟩).toOption.any (fun program =>
      program.blocks.size < UInt32.size && program.unfold?.any fun trees =>
        let walk := Tree.walkBlock (fun call => Scope.empty.set "luz" (.bool (call < 2))) 2 trees
          .start
        walk.answer? 2 == some (some 'B') && walk.gas < gasCapacity) = true := by
    decide +kernel
  cases accepted : parse ⟨"aula", "enquanto luz {A} B"⟩ with
  | error report =>
      rw [accepted] at walks
      cases walks
  | ok program =>
      rw [accepted] at walks
      obtain ⟨small, answered⟩ := (Bool.and_eq_true _ _).mp walks
      have few := of_decide_eq_true small
      obtain ⟨trees, unfolded, calls⟩ := parsed_calls_follow_walk accepted few
      rw [unfolded] at answered
      obtain ⟨answers, room⟩ := (Bool.and_eq_true _ _).mp answered
      exact ⟨program, rfl, few,
        (calls _ 2 gasCapacity).2.1 2 _ (beq_iff_eq.mp answers) (of_decide_eq_true room)⟩

end RobotScript
