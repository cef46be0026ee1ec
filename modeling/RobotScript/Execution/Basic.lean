/-
Module: RobotScript.Execution.Basic
Purpose: A running program as plain data: the blocks being run with the place reached in each, and
  the gas spent. An execution refers to its program by block numbers only, so it can be stored,
  copied and resumed on its own.
Main exports: FrameKind, Frame, Execution, Execution.start, EvalError, EvalError.message
-/
import RobotScript.Program.Basic

namespace RobotScript

/-- What happens when a block has been run to its end. -/
inductive FrameKind where
  /-- The block is left. -/
  | block
  /-- The block is run again as long as rounds remain. -/
  | repeated (remaining : UInt32)
  /-- The condition is read anew; the block is run again if it holds. -/
  | loop (condition : String)
  deriving Repr, Inhabited, DecidableEq

/-- The place reached in one block: `cursor` is the index of the next statement. -/
structure Frame where
  block : BlockId
  cursor : Nat
  kind : FrameKind
  deriving Repr, Inhabited, DecidableEq

/-- The frame of a block that is just being entered. -/
def Frame.enter (block : BlockId) (kind : FrameKind) : Frame :=
  ⟨block, 0, kind⟩

/-- A program in the course of being run. -/
structure Execution where
  /-- The blocks being run, the innermost first. -/
  frames : List Frame
  /-- Whether the end has been announced. -/
  finished : Bool
  /-- Statements started plus ends of blocks reached. -/
  gasUsed : Nat
  gasLimit : Option Nat
  deriving Repr, Inhabited, DecidableEq

/-- Before the first statement of a program. -/
def Execution.start (program : Program) (gasLimit : Option Nat) : Execution :=
  { frames := [Frame.enter program.root .block]
    finished := false
    gasUsed := 0
    gasLimit := gasLimit }

/-- Why a program cannot go on. -/
inductive EvalError where
  /-- There is no program to run. -/
  | noProgram
  /-- The gas limit does not allow another step. -/
  | gasExhausted (limit : Nat)
  /-- A frame refers to a block that the program does not have. -/
  | danglingBlock (block : BlockId)
  /-- The gas counter has reached the last number it can hold. The language knows no such error:
  this one stands for the overflow of the counter itself, where counting on would either abort or
  start again at zero. -/
  | counterOverflow
  deriving Repr, Inhabited, DecidableEq

/-- The wording of each error. The one for an overflow is chosen here; the language has none. -/
def EvalError.message : EvalError → String
  | noProgram => "no program loaded: parse a program successfully before running it"
  | gasExhausted limit => s!"gas exhausted: limit of {limit} steps reached"
  | danglingBlock block => s!"execution state refers to missing block {block.display}"
  | counterOverflow => "gas counter overflow"

end RobotScript
