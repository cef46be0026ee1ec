/-
Module: RobotScript.Proofs.LogReplay
Purpose: The log tells what the machine did. Whoever reads it with a stack of block numbers, pushing
  at every entry and popping at every exit, holds the blocks of the frames after every call, and
  finds every depth in the log to be the height of that stack. A move writes its events and changes
  the frames together, or does neither; so the stretches of a log can be put one behind the other.
Main exports: Event.replay?, replayLog?, Execution.Recounts, Execution.Recounts.append,
  Execution.Advances.recounts, Execution.step_recounts, Execution.callLog_recounts,
  log_replays_calls
-/
import Mathlib.Data.List.Basic
import RobotScript.Execution.Event
import RobotScript.Proofs.Exhaustion

namespace RobotScript

/-! ### Reading a log -/

namespace Event

/-- The blocks that are open after an event, innermost first, if they were `stack` before it. An
entry has to give the height of the stack with the new block on it; an exit has to name the block on
top and to give the height before that is taken off. -/
def replay? (stack : List BlockId) : Event → Option (List BlockId)
  | enter block depth => if depth = stack.length + 1 then some (block :: stack) else none
  | exit block depth =>
      match stack with
      | [] => none
      | top :: outer => if block = top ∧ depth = stack.length then some outer else none
  | _ => some stack

/-- The letter, if the event is an action. -/
def letter? : Event → Option Char
  | action letter => some letter
  | _ => none

/-- The gas that has been counted, if the event is the end of the program. -/
def finalGas? : Event → Option Nat
  | finished gasUsed => some gasUsed
  | _ => none

end Event

/-- Replays a log from first to last; nothing if one of its events does not fit. -/
def replayLog? (stack : List BlockId) (log : List Event) : Option (List BlockId) :=
  log.foldlM Event.replay? stack

/-- The letter that a step hands out. -/
def letterOf? : StepResult → Option Char
  | .ok letter? => letter?
  | .error _ => none

/-- The letter that a move hands out, as a list. -/
def Transition.letters : Transition → List Char
  | .next _ => []
  | .stop result _ => (letterOf? result).toList

/-- The events of a move replay what it does to the frames. -/
theorem Move.replay_events (move : Move) (frame : Frame) (outer : List Frame) :
    replayLog? ((frame :: outer).map Frame.block) (move.events frame.block (outer.length + 1)) =
      some ((move.apply frame outer).map Frame.block) := by
  cases move with
  | act letter => rfl
  | call reading? opened? =>
      cases reading? <;> cases opened? <;>
        simp [Move.events, Move.apply, replayLog?, Event.replay?]
  | again kind => rfl
  | leave => simp [Move.events, Move.apply, replayLog?, Event.replay?]

theorem Move.letters_events {move : Move} (noAction : ∀ letter, move ≠ .act letter)
    (block : BlockId) (depth : Nat) :
    (move.events block depth).filterMap Event.letter? = [] := by
  cases move with
  | act letter => exact absurd rfl (noAction letter)
  | call reading? opened? => cases reading? <;> cases opened? <;> rfl
  | again kind => rfl
  | leave => rfl

theorem Move.finalGas_events (move : Move) (block : BlockId) (depth : Nat) :
    (move.events block depth).filterMap Event.finalGas? = [] := by
  cases move with
  | act letter => rfl
  | call reading? opened? => cases reading? <;> cases opened? <;> rfl
  | again kind => rfl
  | leave => rfl

namespace Execution

variable {capacity : Nat} {program : Program} {scope : Scope} {execution : Execution}

/-! ### Stretches of a log -/

/-- The blocks being run, innermost first. -/
def openBlocks (execution : Execution) : List BlockId :=
  execution.frames.map Frame.block

/-- The announcements of the end that have been made, each by the gas counted. -/
def announced (execution : Execution) : List Nat :=
  if execution.finished then [execution.gasUsed] else []

theorem announced_of_running (running : execution.finished = false) : execution.announced = [] := by
  simp only [announced, running, Bool.false_eq_true, if_false]

/-- The events tell how one execution came from the other, and which letters were handed out on the
way. -/
structure Recounts (before after : Execution) (letters : List Char) (events : List Event) :
    Prop where
  stack : replayLog? before.openBlocks events = some after.openBlocks
  actions : events.filterMap Event.letter? = letters
  ending : before.announced ++ events.filterMap Event.finalGas? = after.announced

namespace Recounts

variable {before between after : Execution} {letters more : List Char} {events later : List Event}

theorem refl (execution : Execution) : Recounts execution execution [] [] :=
  ⟨rfl, rfl, List.append_nil _⟩

theorem append (first : Recounts before between letters events)
    (second : Recounts between after more later) :
    Recounts before after (letters ++ more) (events ++ later) := by
  refine ⟨?_, ?_, ?_⟩
  · rw [replayLog?, List.foldlM_append, ← replayLog?, first.stack]
    exact second.stack
  · rw [List.filterMap_append, first.actions, second.actions]
  · rw [List.filterMap_append, ← List.append_assoc, first.ending, second.ending]

/-- Where nothing is logged and the frames stay, the counter may go on. -/
theorem silent (running : before.finished = false) (stillRunning : after.finished = false)
    (same : after.frames = before.frames) : Recounts before after [] [] := by
  refine ⟨?_, rfl, ?_⟩
  · rw [openBlocks, openBlocks, same]
    rfl
  · rw [announced_of_running running, announced_of_running stillRunning]
    rfl

end Recounts

/-! ### Moves -/

/-- A move that is paid for is logged. -/
theorem advanceEvents_of_paid {frame : Frame} {outer : List Frame} {block : Block}
    (top : execution.frames = frame :: outer) (here : program.block? frame.block = some block)
    (room : execution.gasUsed + 1 < capacity)
    (within : execution.charged.exceededLimit? = none) :
    execution.advanceEvents capacity program scope =
      (frame.move scope block).events frame.block (outer.length + 1) := by
  simp only [advanceEvents, top, here, charge_of_room room, within, Option.map_none]

theorem moved_recounts {frame : Frame} {outer : List Frame}
    (running : execution.finished = false) (top : execution.frames = frame :: outer) (move : Move)
    {letters : List Char}
    (acts : (move.events frame.block (outer.length + 1)).filterMap Event.letter? = letters) :
    Recounts execution (execution.moved move frame outer) letters
      (move.events frame.block (outer.length + 1)) := by
  refine ⟨?_, acts, ?_⟩
  · rw [openBlocks, top]
    exact move.replay_events frame outer
  · have stillRunning : (execution.moved move frame outer).finished = false := running
    rw [move.finalGas_events, announced_of_running running, announced_of_running stillRunning]
    rfl

/-- Every move writes in the log what it does, and nothing if it cannot be made. -/
theorem Advances.recounts {transition : Transition} (running : execution.finished = false)
    (advances : Advances capacity program scope execution transition) :
    Recounts execution transition.execution transition.letters
      (execution.advanceEvents capacity program scope) := by
  cases advances with
  | ends empty =>
      simp only [advanceEvents, empty]
      refine ⟨?_, rfl, ?_⟩
      · rw [openBlocks, empty]
        rfl
      · rw [announced_of_running running]
        rfl
  | dangles top missing =>
      simp only [advanceEvents, top, missing]
      exact .silent running running rfl
  | overflows top here full =>
      simp only [advanceEvents, top, here, charge_of_full full]
      exact .silent running running rfl
  | starves top here room exceeded =>
      simp only [advanceEvents, top, here, charge_of_room room, exceeded, Option.map_some]
      exact .silent running running rfl
  | acts top here room within action =>
      rw [advanceEvents_of_paid top here room within, action]
      exact moved_recounts running top _ rfl
  | goesOn top here room within noAction =>
      rw [advanceEvents_of_paid top here room within]
      exact moved_recounts running top _ (Move.letters_events noAction _ _)

/-! ### Steps -/

/-- What has been logged is kept, and the moves of a step are told behind it. -/
theorem driveEventsOnto_recounts {before : Execution} {log : Array Event}
    (running : execution.finished = false) (sofar : Recounts before execution [] log.toList) :
    Recounts before (execution.drive capacity program scope).2
      (letterOf? (execution.drive capacity program scope).1).toList
      (execution.driveEventsOnto capacity program scope log).toList := by
  -- By the moves of the step: what is told so far grows by the events of one move at a time.
  fun_induction driveEventsOnto capacity program scope log execution with
  | case1 log execution logged after goesOn inductionHypothesis =>
      have advances : Advances capacity program scope execution (.next after) :=
        goesOn ▸ execution.advances capacity program scope
      rw [drive_of_next goesOn]
      apply inductionHypothesis (advances.running_of_next running)
      rw [Array.toList_appendList]
      exact sofar.append (advances.recounts running)
  | case2 log execution logged result stopped stops =>
      have advances : Advances capacity program scope execution (.stop result stopped) :=
        stops ▸ execution.advances capacity program scope
      rw [drive_of_stop stops, Array.toList_appendList]
      exact sofar.append (advances.recounts running)

theorem step_recounts (program : Program) (scope : Scope) (execution : Execution) :
    Recounts execution (execution.step program scope).2
      (letterOf? (execution.step program scope).1).toList (execution.stepEvents program scope) := by
  cases running : execution.finished with
  | true =>
      simp only [step, stepWithin, stepEvents, stepEventsOnto, running, if_true]
      exact .refl execution
  | false =>
      simp only [step, stepWithin_of_running running, stepEvents, stepEventsOnto, running,
        Bool.false_eq_true, if_false]
      exact driveEventsOnto_recounts running (.refl execution)

/-! ### Calls -/

/-- What a call returns, if the calls before it were made under these scopes. -/
def callResult (program : Program) (scopes : Nat → Scope) (execution : Execution) (call : Nat) :
    StepResult :=
  ((execution.afterCalls gasCapacity program scopes call).step program (scopes call)).1

/-- The log of a number of calls. -/
def callLog (program : Program) (scopes : Nat → Scope) (execution : Execution) (calls : Nat) :
    List Event :=
  (List.range calls).flatMap fun call =>
    (execution.afterCalls gasCapacity program scopes call).stepEvents program (scopes call)

theorem callLog_recounts (program : Program) (scopes : Nat → Scope) (execution : Execution)
    (calls : Nat) :
    Recounts execution (execution.afterCalls gasCapacity program scopes calls)
      ((List.range calls).filterMap fun call => letterOf? (execution.callResult program scopes call))
      (execution.callLog program scopes calls) := by
  induction calls with
  | zero => exact .refl execution
  | succ calls inductionHypothesis =>
      have called := step_recounts program (scopes calls)
        (execution.afterCalls gasCapacity program scopes calls)
      rw [callLog, List.range_succ, List.flatMap_append, List.filterMap_append,
        List.flatMap_singleton, List.filterMap_eq_flatMap_toList _ [calls], List.flatMap_singleton]
      exact inductionHypothesis.append called

/-- A finished execution is one to which a call has announced the end. -/
theorem afterCalls_finished_iff (running : execution.finished = false) (program : Program)
    (scopes : Nat → Scope) (calls : Nat) :
    (execution.afterCalls gasCapacity program scopes calls).finished = true ↔
      ∃ call < calls, execution.callResult program scopes call = .ok none := by
  induction calls with
  | zero => exact iff_of_false (Bool.eq_false_iff.mp running) nofun
  | succ calls inductionHypothesis =>
      rw [afterCalls, stepWithin_finished_iff]
      constructor
      · intro ends
        exact ⟨calls, Nat.lt_succ_self calls, ends⟩
      · rintro ⟨call, before, ends⟩
        rcases Nat.lt_succ_iff_lt_or_eq.mp before with earlier | rfl
        · have finished := inductionHypothesis.mpr ⟨call, earlier, ends⟩
          exact congrArg Prod.fst (if_pos finished)
        · exact ends

end Execution

/-- Whatever the program, the limit and the scopes of the calls, the log of the calls so far, replayed
from the root block, gives the blocks of the frames; its actions are the letters that were returned;
and it holds no end of the program before a call returns nothing, and from that call on just one,
with the gas that has been counted. -/
theorem log_replays_calls (program : Program) (gasLimit : Option Nat) (scopes : Nat → Scope) :
    let start := Execution.start program gasLimit
    let execution := start.afterCalls gasCapacity program scopes
    let result := start.callResult program scopes
    let log := start.callLog program scopes
    ∀ calls,
      replayLog? [program.root] (log calls) = some ((execution calls).frames.map Frame.block) ∧
      (log calls).filterMap Event.letter? =
        (List.range calls).filterMap (fun call => letterOf? (result call)) ∧
      ((∀ call < calls, result call ≠ .ok none) → (log calls).filterMap Event.finalGas? = []) ∧
      ((∃ call < calls, result call = .ok none) →
        (log calls).filterMap Event.finalGas? = [(execution calls).gasUsed]) := by
  intro start execution result log calls
  have told := start.callLog_recounts program scopes calls
  have running : start.finished = false := rfl
  have finished_iff := Execution.afterCalls_finished_iff running program scopes calls
  have ending : (log calls).filterMap Event.finalGas? = (execution calls).announced := told.ending
  refine ⟨told.stack, told.actions, ?_, ?_⟩
  · intro noneEnds
    have stillRunning : (execution calls).finished = false := by
      rw [Bool.eq_false_iff]
      intro finished
      obtain ⟨call, before, ends⟩ := finished_iff.mp finished
      exact noneEnds call before ends
    rw [ending, Execution.announced_of_running stillRunning]
  · intro ends
    rw [ending]
    exact if_pos (finished_iff.mpr ends)

/-- A block that is run twice is entered and left once; the condition of the loop behind it holds when
the loop is reached, and no more when the fourth call comes to the end of its body. With four units of
gas the second action is still done, but the block is never left. -/
theorem log_replays_calls_of_repeated_block :
    let program : Program :=
      ⟨#[⟨#[.repeated 2 ⟨1⟩ .origin, .loop ⟨"luz", .origin⟩ ⟨2⟩ .origin], .origin⟩,
        ⟨#[.action 'A' .origin], .origin⟩, ⟨#[.action 'B' .origin], .origin⟩], ⟨0⟩⟩
    let scopes : Nat → Scope := fun call => Scope.empty.set "luz" (.bool (call == 2))
    let free := Execution.start program none
    let metered := Execution.start program (some 4)
    free.callLog program scopes 5 =
      [.enter ⟨1⟩ 2, .action 'A', .action 'A', .exit ⟨1⟩ 2, .read ⟨.enquanto, "luz", true⟩,
        .enter ⟨2⟩ 2, .action 'B', .exit ⟨2⟩ 2, .exit ⟨0⟩ 1, .finished 9] ∧
    (free.callLog program scopes 5).filterMap Event.finalGas? =
      [(free.afterCalls gasCapacity program scopes 5).gasUsed] ∧
    metered.callLog program scopes 5 = [.enter ⟨1⟩ 2, .action 'A', .action 'A'] ∧
    replayLog? [⟨0⟩] (metered.callLog program scopes 5) =
      some ((metered.afterCalls gasCapacity program scopes 5).frames.map Frame.block) ∧
    (metered.callLog program scopes 5).filterMap Event.finalGas? = [] := by
  intro program scopes free metered
  have ends : free.callResult program scopes 3 = .ok none := by decide +kernel
  have starves : ∀ call < 5, metered.callResult program scopes call ≠ .ok none := by decide +kernel
  have whole := log_replays_calls program none scopes 5
  have cut := log_replays_calls program (some 4) scopes 5
  refine ⟨by decide +kernel, whole.2.2.2 ⟨3, by decide, ends⟩, by decide +kernel, cut.1,
    cut.2.2.1 starves⟩

end RobotScript
