/-
Module: RobotScript.Program.Tree
Purpose: Programs as trees, each block standing inside the statement it belongs to, without
  places. Printing a tree gives the tokens it is written with; unfolding a program follows its
  block numbers from the top level down.
Main exports: Tree, Tree.kinds, Tree.kindsOfAll, Program.unfold?
-/
import RobotScript.Program.Basic
import RobotScript.Token.Basic

namespace RobotScript

/-- A statement with its blocks in place. -/
inductive Tree where
  | action (letter : Char)
  | block (body : List Tree)
  | repeated (count : UInt32) (body : List Tree)
  /-- A conditional without `senao`. -/
  | conditional (condition : String) (body : List Tree)
  /-- A conditional with `senao`. -/
  | alternative (condition : String) (body otherwise : List Tree)
  | loop (condition : String) (body : List Tree)
  deriving Repr, Inhabited

/-! ### Printing -/

mutual

/-- The tokens that a tree is written with. -/
def Tree.kinds : Tree → List TokenKind
  | .action letter => [.action letter]
  | .block body => .openBrace :: (kindsOfAll body ++ [.closeBrace])
  | .repeated count body => .integer count :: .openBrace :: (kindsOfAll body ++ [.closeBrace])
  | .conditional condition body =>
      .keyword .se :: .identifier condition :: .openBrace :: (kindsOfAll body ++ [.closeBrace])
  | .alternative condition body otherwise =>
      .keyword .se :: .identifier condition :: .openBrace ::
        (kindsOfAll body ++ .closeBrace :: .keyword .senao :: .openBrace ::
          (kindsOfAll otherwise ++ [.closeBrace]))
  | .loop condition body =>
      .keyword .enquanto :: .identifier condition :: .openBrace ::
        (kindsOfAll body ++ [.closeBrace])

/-- The tokens that trees are written with, one after the other. -/
def Tree.kindsOfAll : List Tree → List TokenKind
  | [] => []
  | tree :: trees => tree.kinds ++ kindsOfAll trees

end

@[simp] theorem Tree.kindsOfAll_nil : Tree.kindsOfAll [] = [] := by
  simp [kindsOfAll]

@[simp] theorem Tree.kindsOfAll_cons (tree : Tree) (trees : List Tree) :
    Tree.kindsOfAll (tree :: trees) = tree.kinds ++ Tree.kindsOfAll trees := by
  simp [kindsOfAll]

theorem Tree.kindsOfAll_append (first second : List Tree) :
    Tree.kindsOfAll (first ++ second) = Tree.kindsOfAll first ++ Tree.kindsOfAll second := by
  induction first with
  | nil => simp
  | cons tree trees inductionHypothesis => simp [inductionHypothesis]

/-! ### Unfolding -/

/-- The tree of a statement, given the trees of the blocks it refers to. -/
def Stmt.tree? (trees? : BlockId → Option (List Tree)) : Stmt → Option Tree
  | action letter _ => some (.action letter)
  | block body => (trees? body).map .block
  | repeated count body _ => (trees? body).map (.repeated count)
  | conditional condition thenBlock none _ => (trees? thenBlock).map (.conditional condition.name)
  | conditional condition thenBlock (some elseBlock) _ =>
      (trees? thenBlock).bind fun body =>
        (trees? elseBlock).map fun otherwise => .alternative condition.name body otherwise
  | loop condition body _ => (trees? body).map (.loop condition.name)

/-- The trees of a block whose blocks are nested at most `depth` deep, itself included. -/
def Program.unfoldBlock? (program : Program) : Nat → BlockId → Option (List Tree)
  | 0, _ => none
  | depth + 1, id =>
      (program.block? id).bind fun block =>
        block.stmts.toList.mapM (Stmt.tree? (program.unfoldBlock? depth))

/-- The program as trees. There are none if a block is missing or holds itself: in a program
without such a block no chain of nested blocks is longer than the table. -/
def Program.unfold? (program : Program) : Option (List Tree) :=
  program.unfoldBlock? program.blocks.size program.root

end RobotScript
