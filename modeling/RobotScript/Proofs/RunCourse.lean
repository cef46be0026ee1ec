/-
Module: RobotScript.Proofs.RunCourse
Purpose: Runs without a limit under one scope. A run that ends well has gone through the course of
  the program to its end, and if the counter has room for the course, the run does end well. So
  what a program does under a scope is what the recursive walk through its trees does: the run has
  the letters of the walk and takes its gas.
Main exports: Stage.outcome, Stage.Leads.outcome_eq, Stage.leads_of_outcome,
  Program.Unfolds.walk_of_run, Program.Unfolds.run_of_walk
-/
import RobotScript.Proofs.GasLimit
import RobotScript.Proofs.WalkSimulation

namespace RobotScript

/-! ### Runs along the course -/

namespace Stage

/-- The execution without a limit that stands at this stage. -/
def execution (stage : Stage) : Execution :=
  ⟨stage.frames, false, stage.gas, none⟩

/-- What a run gives in the end that has come to this stage. -/
def outcome (capacity : Nat) (program : Program) (scope : Scope) (stage : Stage) :
    RunResult × Execution :=
  stage.execution.runOnto capacity program scope stage.letters.toArray

variable {capacity : Nat} {program : Program} {scope : Scope} {stage next last : Stage}

theorem stepWithin_execution (capacity : Nat) (program : Program) (scope : Scope) (stage : Stage) :
    stage.execution.stepWithin capacity program scope =
      stage.execution.drive capacity program scope :=
  if_neg Bool.false_ne_true

/-- What the run gives depends on the next step only. -/
theorem outcome_eq_of_step (sameLetters : stage.letters = next.letters)
    (sameStep : stage.execution.stepWithin capacity program scope =
      next.execution.stepWithin capacity program scope) :
    stage.outcome capacity program scope = next.outcome capacity program scope := by
  have sameRun : stage.execution.runWithin capacity program scope =
      next.execution.runWithin capacity program scope := by
    rw [Execution.runWithin_eq, Execution.runWithin_eq, sameStep]
  rw [outcome, outcome, Execution.runOnto_eq, Execution.runOnto_eq, sameLetters, sameRun]

/-- A step that fails ends the run. -/
theorem outcome_of_error {error : EvalError} {after : Execution}
    (advances : Execution.Advances capacity program scope stage.execution
      (.stop (.error error) after)) :
    stage.outcome capacity program scope = (.error error, after) := by
  have fails : stage.execution.stepWithin capacity program scope = (.error error, after) := by
    rw [stepWithin_execution, Execution.drive_of_stop advances.advance_eq]
  rw [outcome, Execution.runOnto_eq, Execution.runWithin_eq, fails]
  rfl

theorem outcome_of_ended (ended : stage.frames = []) :
    stage.outcome capacity program scope = (.ok stage.letters, ⟨[], true, stage.gas, none⟩) := by
  have advances : Execution.Advances capacity program scope stage.execution _ := .ends ended
  have ends := Execution.drive_of_stop advances.advance_eq
  rw [← stepWithin_execution] at ends
  rw [outcome, Execution.runOnto_eq, Execution.runWithin_eq, ends]
  simp [Except.map, execution, ended]

/-- As long as the counter has room, a move along the course does not change what the run gives. -/
theorem Moves.outcome_eq (moves : Moves program (fun _ => scope) stage next)
    (room : stage.gas + 1 < capacity) :
    stage.outcome capacity program scope = next.outcome capacity program scope := by
  cases moves with
  | @move letters gas frame outer block here =>
      let before : Stage := ⟨letters, gas, frame :: outer⟩
      have within : before.execution.charged.exceededLimit? = none :=
        Execution.exceededLimit?_of_no_limit rfl
      by_cases acts : ∃ letter, frame.move scope block = .act letter
      · rcases acts with ⟨letter, action⟩
        have advances := Execution.Advances.acts rfl here room within action
        have steps := Execution.drive_of_stop advances.advance_eq
        rw [← stepWithin_execution] at steps
        rw [outcome, Execution.runOnto_of_action _ steps, outcome]
        simp only [action, Move.letters, List.push_toArray]
        rfl
      · have noAction : ∀ letter, frame.move scope block ≠ .act letter :=
          fun letter action => acts ⟨letter, action⟩
        have advances := Execution.Advances.goesOn rfl here room within noAction
        have goesOn := Execution.drive_of_next advances.advance_eq
        apply outcome_eq_of_step
        · rw [Move.letters_eq_nil noAction, List.append_nil]
        · rw [stepWithin_execution, stepWithin_execution]
          exact goesOn

/-- So what the run gives from the beginning it gives from every later stage that the counter has
room for. -/
theorem Leads.outcome_eq (leads : Leads program (fun _ => scope) stage last)
    (room : last.gas < capacity) :
    stage.outcome capacity program scope = last.outcome capacity program scope := by
  induction leads using Relation.ReflTransGen.head_induction_on with
  | refl => rfl
  | head moves rest inductionHypothesis =>
      rw [← inductionHypothesis]
      apply moves.outcome_eq
      have later := Leads.gas_le rest
      cases moves with
      | move here => exact Nat.lt_of_le_of_lt later room

/-- A run that ends well has come to the end of the course. -/
theorem leads_of_outcome {letters : List Char} {final : Execution}
    (ends : stage.outcome capacity program scope = (.ok letters, final)) :
    Leads program (fun _ => scope) stage ⟨letters, final.gasUsed, []⟩ := by
  -- Every move leaves less room in the counter, and without room the run would have failed.
  induction left : capacity - stage.gas using Nat.strongRecOn generalizing stage with
  | ind left inductionHypothesis =>
      rcases stage with ⟨done, gas, frames⟩
      cases frames with
      | nil =>
          rw [outcome_of_ended rfl] at ends
          simp only [Prod.mk.injEq, Except.ok.injEq] at ends
          rcases ends with ⟨rfl, rfl⟩
          exact .refl
      | cons frame outer =>
          cases here : program.block? frame.block with
          | none =>
              rw [outcome_of_error (.dangles rfl here)] at ends
              simp at ends
          | some block =>
              by_cases room : gas + 1 < capacity
              · have moves : Moves program (fun _ => scope) ⟨done, gas, frame :: outer⟩ _ :=
                  .move here
                rw [moves.outcome_eq room] at ends
                refine .head moves (inductionHypothesis _ ?_ ends rfl)
                subst left
                exact Nat.sub_lt_sub_left (Nat.lt_of_succ_lt room) (Nat.lt_succ_self gas)
              · rw [outcome_of_error (.overflows rfl here (Nat.le_of_not_lt room))] at ends
                simp at ends

end Stage

/-! ### Runs and walks -/

namespace Program.Unfolds

variable {program : Program} {trees : List Tree} {capacity rounds gas : Nat} {scope : Scope}
  {letters : List Char}

/-- Where the course has an end, the walk comes to it if it is allowed as many rounds as the course
takes gas: a walk that is broken off has spent more. -/
theorem walk_of_course {scopes : Nat → Scope} (unfolds : program.Unfolds program.root trees)
    (course : Stage.Leads program scopes (.start program) ⟨letters, gas, []⟩)
    (enough : gas ≤ rounds) :
    Tree.walkBlock scopes rounds trees .start = ⟨letters, gas, true⟩ := by
  rcases unfolds.follows scopes rounds with ⟨reached, walked, left⟩
  have spends := Tree.walkBlock_spends scopes rounds .start rfl trees
  generalize Tree.walkBlock scopes rounds trees .start = walk at walked left spends
  rcases walk with ⟨walkLetters, walkGas, ended⟩
  cases ended with
  | true =>
      have leads := walked.to_end course rfl
      rw [left rfl] at leads
      have same := leads.eq_of_ended rfl
      simp only [Walk.stage, Stage.mk.injEq] at same
      rw [same.1, same.2.1]
  | false =>
      -- Having spent more than the whole course, the walk would have gone on beyond its end.
      have more : 1 + rounds ≤ walkGas := spends.broken rfl
      have later : gas ≤ walkGas := by omega
      have same := (course.ordered walked later).eq_of_ended rfl
      simp only [Walk.stage, Stage.mk.injEq] at same
      omega

/-- A run that ends well has done what the walk does. -/
theorem walk_of_run (unfolds : program.Unfolds program.root trees) {final : Execution}
    (runs : (Execution.start program none).runWithin capacity program scope = (.ok letters, final))
    (enough : final.gasUsed ≤ rounds) :
    Tree.walkBlock (fun _ => scope) rounds trees .start = ⟨letters, final.gasUsed, true⟩ := by
  have atStart : (Stage.start program).outcome capacity program scope = (.ok letters, final) := runs
  exact unfolds.walk_of_course (Stage.leads_of_outcome atStart) enough

/-- What a walk that comes to an end has done, the run does, if the counter has room for it. -/
theorem run_of_walk (unfolds : program.Unfolds program.root trees)
    (walks : Tree.walkBlock (fun _ => scope) rounds trees .start = ⟨letters, gas, true⟩)
    (room : gas < capacity) :
    (Execution.start program none).runWithin capacity program scope =
      (.ok letters, ⟨[], true, gas, none⟩) := by
  rcases unfolds.follows (fun _ => scope) rounds with ⟨reached, walked, left⟩
  rw [walks] at walked left
  rw [left rfl] at walked
  exact (walked.outcome_eq room).trans (Stage.outcome_of_ended rfl)

end Program.Unfolds

end RobotScript
