/-
Module: RobotScript.Proofs.Course
Purpose: The course of a program through all its calls, each under a scope of its own. Since a call
  ends with every action, the number of actions so far says which scope is in force, and the
  course is one sequence of moves: every stage of it leads to at most one next stage. Calls read
  their answers off the course.
Main exports: Stage, Stage.Moves, Stage.Leads, Stage.Answers, Execution.callWithin,
  Execution.Outcome, Execution.callWithin_outcome
-/
import Mathlib.Logic.Relation
import RobotScript.Proofs.FrameStack

namespace RobotScript

/-! ### The course of a program -/

/-- A moment in the course of a program. -/
structure Stage where
  /-- The actions so far, the first one first. -/
  letters : List Char
  gas : Nat
  frames : List Frame

def Stage.start (program : Program) : Stage :=
  ⟨[], 0, [Frame.enter program.root .block]⟩

/-- The letters that a move adds to the actions. -/
def Move.letters : Move → List Char
  | .act letter => [letter]
  | _ => []

theorem Move.letters_eq_nil {move : Move} (noAction : ∀ letter, move ≠ .act letter) :
    move.letters = [] := by
  cases move with
  | act letter => exact absurd rfl (noAction letter)
  | _ => rfl

namespace Stage

variable {program : Program} {scopes : Nat → Scope}

/-- One move, under the scope of the call that makes it. -/
inductive Moves (program : Program) (scopes : Nat → Scope) : Stage → Stage → Prop where
  | move {letters : List Char} {gas : Nat} {frame : Frame} {outer : List Frame} {block : Block}
      (here : program.block? frame.block = some block) :
      Moves program scopes ⟨letters, gas, frame :: outer⟩
        ⟨letters ++ (frame.move (scopes letters.length) block).letters, gas + 1,
          (frame.move (scopes letters.length) block).apply frame outer⟩

/-- Any number of moves. -/
abbrev Leads (program : Program) (scopes : Nat → Scope) : Stage → Stage → Prop :=
  Relation.ReflTransGen (Moves program scopes)

theorem moves_rightUnique (program : Program) (scopes : Nat → Scope) :
    Relator.RightUnique (Moves program scopes) := by
  intro before first second one two
  cases one with
  | move here =>
      cases two with
      | move alsoHere =>
          obtain rfl := Option.some.inj (here.symm.trans alsoHere)
          rfl

namespace Leads

variable {before after : Stage}

theorem gas_le (leads : Leads program scopes before after) : before.gas ≤ after.gas := by
  induction leads with
  | refl => exact Nat.le_refl _
  | tail _ moves inductionHypothesis =>
      cases moves with
      | move here => exact Nat.le_succ_of_le inductionHypothesis

theorem letters_prefix (leads : Leads program scopes before after) :
    before.letters <+: after.letters := by
  induction leads with
  | refl => exact List.prefix_refl _
  | tail _ moves inductionHypothesis =>
      cases moves with
      | move here => exact inductionHypothesis.trans (List.prefix_append _ _)

/-- Every move takes gas. -/
theorem eq_of_gas_le (leads : Leads program scopes before after)
    (gas_le : after.gas ≤ before.gas) : after = before := by
  rcases Relation.ReflTransGen.cases_head leads with same | ⟨next, moves, rest⟩
  · exact same.symm
  · cases moves with
    | move here =>
        have later := Leads.gas_le rest
        exact absurd later (Nat.not_le_of_lt (Nat.lt_succ_of_le gas_le))

/-- Nothing comes after the end. -/
theorem eq_of_ended (leads : Leads program scopes before after) (ended : before.frames = []) :
    after = before := by
  rcases Relation.ReflTransGen.cases_head leads with same | ⟨next, moves, _⟩
  · exact same.symm
  · cases moves with
    | move here => cases ended

/-- Of two stages of one course, the one with less gas comes first. -/
theorem ordered {first second : Stage} (one : Leads program scopes before first)
    (two : Leads program scopes before second) (gas_le : first.gas ≤ second.gas) :
    Leads program scopes first second := by
  rcases Relation.ReflTransGen.total_of_right_unique (moves_rightUnique program scopes) one two
    with forward | backward
  · exact forward
  · rw [eq_of_gas_le backward gas_le]

/-- Every stage of a course comes before its end. -/
theorem to_end {stage last : Stage} (one : Leads program scopes before stage)
    (all : Leads program scopes before last) (ended : last.frames = []) :
    Leads program scopes stage last := by
  rcases Relation.ReflTransGen.total_of_right_unique (moves_rightUnique program scopes) one all
    with forward | backward
  · exact forward
  · rw [eq_of_ended backward ended]

theorem frameStack (closed : program.Closed) (leads : Leads program scopes before after)
    (stack : FrameStack program before.frames) : FrameStack program after.frames := by
  induction leads with
  | refl => exact stack
  | tail _ moves inductionHypothesis =>
      cases moves with
      | move here => exact inductionHypothesis.move closed here _

end Leads

/-! ### Answers -/

/-- What a stage of the course says about the answer to a call, the first one having number
zero. -/
def Answers (stage : Stage) (call : Nat) : Option Char → Prop
  | some letter => stage.letters[call]? = some letter
  | none => stage.frames = [] ∧ stage.letters.length ≤ call

theorem Answers.later {before after : Stage} (leads : Leads program scopes before after)
    {call : Nat} {answer : Option Char} (answers : before.Answers call answer) :
    after.Answers call answer := by
  cases answer with
  | some letter =>
      obtain ⟨inside, -⟩ := List.getElem?_eq_some_iff.mp answers
      obtain ⟨later, grown⟩ := leads.letters_prefix
      rw [Answers, ← grown, List.getElem?_append_left inside]
      exact answers
  | none =>
      rw [leads.eq_of_ended answers.1]
      exact answers

theorem Answers.unique {stage : Stage} {call : Nat} {first second : Option Char}
    (one : stage.Answers call first) (two : stage.Answers call second) : first = second := by
  match first, second, one, two with
  | some _, some _, one, two => exact one.symm.trans two
  | some _, none, one, two =>
      rw [Answers, List.getElem?_eq_none two.2] at one
      cases one
  | none, some _, one, two =>
      rw [Answers, List.getElem?_eq_none one.2] at two
      cases two
  | none, none, _, _ => rfl

/-- All stages of one course that answer a call give the same answer. -/
theorem Leads.answers_unique {before first second : Stage}
    (one : Leads program scopes before first) (two : Leads program scopes before second)
    {call : Nat} {answer other : Option Char} (firstAnswers : first.Answers call answer)
    (secondAnswers : second.Answers call other) : answer = other := by
  rcases Nat.le_total first.gas second.gas with less | greater
  · exact (firstAnswers.later (one.ordered two less)).unique secondAnswers
  · exact firstAnswers.unique (secondAnswers.later (two.ordered one greater))

end Stage

/-! ### Calls -/

namespace Execution

/-- What a call returns and leaves behind, if the program is run without a limit on a gas counter
of the given capacity, and the host hands each call a scope of its own. -/
def callWithin (capacity : Nat) (program : Program) (scopes : Nat → Scope) :
    Nat → StepResult × Execution
  | 0 => (start program none).stepWithin capacity program (scopes 0)
  | call + 1 =>
      (callWithin capacity program scopes call).2.stepWithin capacity program (scopes (call + 1))

variable {capacity : Nat} {program : Program} {scopes : Nat → Scope} {call : Nat}

/-- What a call without a limit can return: the answer of the course, or that the counter is too
small for it. -/
inductive Outcome (capacity : Nat) (program : Program) (scopes : Nat → Scope) (call : Nat) :
    StepResult → Prop where
  | answers {stage : Stage} {answer : Option Char}
      (course : Stage.Leads program scopes (.start program) stage)
      (answers : stage.Answers call answer) : Outcome capacity program scopes call (.ok answer)
  | overflows {stage : Stage} (course : Stage.Leads program scopes (.start program) stage)
      (few : stage.letters.length ≤ call) (running : stage.frames ≠ [])
      (full : capacity ≤ stage.gas + 1) :
      Outcome capacity program scopes call (.error .counterOverflow)

/-- An execution before a call stands at a stage of the course. It may have stopped before the
other calls are made up for only at the end of the program or where the counter is full. -/
structure Tracks (capacity : Nat) (program : Program) (scopes : Nat → Scope) (call : Nat)
    (execution : Execution) (stage : Stage) : Prop where
  course : Stage.Leads program scopes (.start program) stage
  frames : execution.frames = stage.frames
  gas : execution.gasUsed = stage.gas
  unlimited : execution.gasLimit = none
  finished : execution.finished = true → stage.frames = []
  calls : stage.letters.length ≤ call
  upToDate : stage.letters.length = call ∨ stage.frames = [] ∨ capacity ≤ stage.gas + 1

namespace Tracks

variable {execution : Execution} {stage : Stage}

/-- Where a call has stopped short of an action, the next one starts. -/
theorem stay (tracks : Tracks capacity program scopes call execution stage)
    (stopped : stage.frames = [] ∨ capacity ≤ stage.gas + 1) :
    Tracks capacity program scopes (call + 1) execution stage :=
  { tracks with
    calls := Nat.le_succ_of_le tracks.calls
    upToDate := Or.inr stopped }

theorem moves (tracks : Tracks capacity program scopes call execution stage)
    {frame : Frame} {outer : List Frame} {block : Block}
    (top : execution.frames = frame :: outer) (here : program.block? frame.block = some block)
    (room : execution.gasUsed + 1 < capacity) :
    stage.letters.length = call ∧
      Stage.Moves program scopes stage
        ⟨stage.letters ++ (frame.move (scopes call) block).letters, stage.gas + 1,
          (frame.move (scopes call) block).apply frame outer⟩ := by
  have stageTop : stage.frames = frame :: outer := tracks.frames.symm.trans top
  have upToDate : stage.letters.length = call := by
    rcases tracks.upToDate with upToDate | ended | full
    · exact upToDate
    · rw [stageTop] at ended
      cases ended
    · rw [tracks.gas] at room
      exact absurd full (Nat.not_le_of_lt room)
  refine ⟨upToDate, ?_⟩
  subst upToDate
  obtain ⟨letters, gas, frames⟩ := stage
  obtain rfl : frames = frame :: outer := stageTop
  exact .move here

/-- While a call goes on, the execution follows the course. -/
theorem next (tracks : Tracks capacity program scopes call execution stage) {after : Execution}
    (advances : Advances capacity program (scopes call) execution (.next after)) :
    ∃ later, Tracks capacity program scopes call after later := by
  cases advances with
  | goesOn top here room _ noAction =>
      obtain ⟨upToDate, moves⟩ := tracks.moves top here room
      rw [Move.letters_eq_nil noAction, List.append_nil] at moves
      refine ⟨_, tracks.course.tail moves, rfl, congrArg (· + 1) tracks.gas, tracks.unlimited, ?_,
        tracks.calls, Or.inl upToDate⟩
      intro finished
      have ended := tracks.finished finished
      rw [← tracks.frames, top] at ended
      cases ended

/-- Where a call stops, it has the answer of the course, or the counter is full. -/
theorem stop (tracks : Tracks capacity program scopes call execution stage)
    (stack : FrameStack program stage.frames) {result : StepResult} {after : Execution}
    (advances : Advances capacity program (scopes call) execution (.stop result after)) :
    Outcome capacity program scopes call result ∧
      ∃ later, Tracks capacity program scopes (call + 1) after later := by
  cases advances with
  | ends empty =>
      have ended : stage.frames = [] := tracks.frames.symm.trans empty
      refine ⟨.answers tracks.course ⟨ended, tracks.calls⟩, stage, ?_⟩
      exact { tracks.stay (Or.inl ended) with finished := fun _ => ended }
  | dangles top missing =>
      rw [← tracks.frames, top] at stack
      obtain ⟨block, here, _⟩ := stack.held
      rw [missing] at here
      cases here
  | overflows top _ full =>
      rw [tracks.gas] at full
      have running : stage.frames ≠ [] := by
        rw [← tracks.frames, top]
        exact List.cons_ne_nil _ _
      exact ⟨.overflows tracks.course tracks.calls running full, stage, tracks.stay (Or.inr full)⟩
  | starves _ _ _ exceeded =>
      simp [exceededLimit?, charged, tracks.unlimited] at exceeded
  | @acts frame outer block letter top here room _ action =>
      obtain ⟨upToDate, moves⟩ := tracks.moves top here room
      rw [action] at moves
      have course := tracks.course.tail moves
      have length : (stage.letters ++ [letter]).length = call + 1 := by
        rw [List.length_append, upToDate, List.length_singleton]
      refine ⟨.answers course ?_, _, course, rfl, congrArg (· + 1) tracks.gas, tracks.unlimited, ?_,
        Nat.le_of_eq length, Or.inl length⟩
      · rw [Stage.Answers, ← upToDate]
        exact List.getElem?_concat_length
      · intro finished
        have ended := tracks.finished finished
        rw [← tracks.frames, top] at ended
        cases ended

theorem step (closed : program.Closed) (root : program.Holds ⟨program.root, 0, .block⟩)
    (tracks : Tracks capacity program scopes call execution stage) :
    Outcome capacity program scopes call
        (execution.stepWithin capacity program (scopes call)).1 ∧
      ∃ later, Tracks capacity program scopes (call + 1)
        (execution.stepWithin capacity program (scopes call)).2 later := by
  simp only [stepWithin]
  split
  · rename_i finished
    have ended := tracks.finished finished
    exact ⟨.answers tracks.course ⟨ended, tracks.calls⟩, stage, tracks.stay (Or.inl ended)⟩
  · refine drive_preserves
      (P := fun execution => ∃ stage, Tracks capacity program scopes call execution stage)
      (Q := fun result after => Outcome capacity program scopes call result ∧
        ∃ later, Tracks capacity program scopes (call + 1) after later) ?_ ?_ ⟨stage, tracks⟩
    · rintro execution after ⟨stage, tracks⟩ advances
      exact tracks.next advances
    · rintro execution result after ⟨stage, tracks⟩ advances
      exact tracks.stop (tracks.course.frameStack closed (.root root)) advances

end Tracks

theorem callWithin_tracks (closed : program.Closed)
    (root : program.Holds ⟨program.root, 0, .block⟩) (capacity : Nat) (scopes : Nat → Scope)
    (call : Nat) :
    Outcome capacity program scopes call (callWithin capacity program scopes call).1 ∧
      ∃ stage, Tracks capacity program scopes (call + 1)
        (callWithin capacity program scopes call).2 stage := by
  induction call with
  | zero =>
      have starts : Tracks capacity program scopes 0 (start program none) (.start program) :=
        ⟨.refl, rfl, rfl, rfl, nofun, Nat.le_refl _, Or.inl rfl⟩
      exact starts.step closed root
  | succ call inductionHypothesis =>
      obtain ⟨-, stage, tracks⟩ := inductionHypothesis
      exact tracks.step closed root

end Execution

end RobotScript
