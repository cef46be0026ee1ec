/-
Module: RobotScript.Program.Basic
Purpose: A parsed script. Blocks live side by side in one table and statements refer to them by
  number, so that an execution can name the block it is in without holding on to the program.
Main exports: BlockId, Ident, Stmt, Block, Program, Program.block?, Program.actionCount, Stmt.span?
-/
import RobotScript.Span

namespace RobotScript

/-- The number of a block in its program. -/
structure BlockId where
  number : UInt32
  deriving Repr, Inhabited, DecidableEq

/-- How a block is named in a message. -/
def BlockId.display (id : BlockId) : String :=
  s!"BlockId({id.number.toNat})"

/-- The name of a condition and where it stands. -/
structure Ident where
  name : String
  span : Span
  deriving Repr, Inhabited, DecidableEq

/-- One statement. -/
inductive Stmt where
  /-- The robot does the action of this letter. -/
  | action (letter : Char) (span : Span)
  /-- A block on its own. -/
  | block (body : BlockId)
  /-- The body is run `count` times. -/
  | repeated (count : UInt32) (body : BlockId) (span : Span)
  /-- The condition is read once and chooses the branch. -/
  | conditional (condition : Ident) (thenBlock : BlockId) (elseBlock? : Option BlockId)
      (span : Span)
  /-- The condition is read before every round, the first included. -/
  | loop (condition : Ident) (body : BlockId) (span : Span)
  deriving Repr, Inhabited, DecidableEq

namespace Stmt

/-- Whether the statement is an action. -/
def isAction : Stmt → Bool
  | action _ _ => true
  | _ => false

/-- The blocks that a statement refers to, in the order of the text. -/
def blocks : Stmt → List BlockId
  | action _ _ => []
  | block body => [body]
  | repeated _ body _ => [body]
  | conditional _ thenBlock elseBlock? _ => thenBlock :: elseBlock?.toList
  | loop _ body _ => [body]

/-- The name of the condition that a statement reads. -/
def condition? : Stmt → Option String
  | conditional condition _ _ _ => some condition.name
  | loop condition _ _ => some condition.name
  | _ => none

end Stmt

/-- Statements in order: what stands between two braces, or at top level. -/
structure Block where
  stmts : Array Stmt
  span : Span
  deriving Repr, Inhabited, DecidableEq

/-- A script: its table of blocks and the block that holds the top level. The numbers need not
name blocks of the table, since a program may also come from outside. -/
structure Program where
  blocks : Array Block
  root : BlockId
  deriving Repr, Inhabited, DecidableEq

namespace Program

/-- The block with this number. -/
def block? (program : Program) (id : BlockId) : Option Block :=
  program.blocks[id.number.toNat]?

/-- The top level. -/
def rootBlock? (program : Program) : Option Block :=
  program.block? program.root

/-- The statements of all blocks, block after block. -/
def stmts (program : Program) : List Stmt :=
  program.blocks.toList.flatMap fun block => block.stmts.toList

/-- How many actions stand in the text, whether they are run or not. -/
def actionCount (program : Program) : Nat :=
  program.stmts.countP Stmt.isAction

end Program

/-- Where a statement stands. A block on its own stands where its braces do. -/
def Stmt.span? (program : Program) : Stmt → Option Span
  | action _ span => some span
  | block body => (program.block? body).map Block.span
  | repeated _ _ span => some span
  | conditional _ _ _ span => some span
  | loop _ _ span => some span

end RobotScript
