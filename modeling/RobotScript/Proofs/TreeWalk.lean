/-
Module: RobotScript.Proofs.TreeWalk
Purpose: A plain recursive walk through the trees of a program, the meaning that the machine is
  measured against. A condition reached after `n` actions is read from the `n`-th scope. Loops
  need not end: a walk is allowed a number of rounds for every loop it enters and breaks off
  where a loop wants one more, so what a program does is what its walks do, however many rounds
  they are allowed.
Main exports: Walk, Walk.answer?, Tree.walk, Tree.walkBlock, Tree.walkBlock_spends
-/
import RobotScript.Program.Tree
import RobotScript.Scope

namespace RobotScript

/-! ### Walks -/

/-- How far a walk has come. -/
structure Walk where
  /-- The actions on the way, the first one first. -/
  letters : List Char
  /-- Statements started plus ends of blocks reached. -/
  gas : Nat
  /-- Whether the walk has come through to its end, and was not broken off. -/
  ended : Bool
  deriving Repr, Inhabited, DecidableEq

namespace Walk

/-- Before the first statement. -/
def start : Walk := ⟨[], 0, true⟩

def spend (walk : Walk) : Walk := { walk with gas := walk.gas + 1 }

def act (walk : Walk) (letter : Char) : Walk :=
  { walk with letters := walk.letters ++ [letter] }

def breakOff (walk : Walk) : Walk := { walk with ended := false }

/-- Goes on, unless the walk was broken off. -/
def andThen (walk : Walk) (next : Walk → Walk) : Walk :=
  if walk.ended then next walk else walk

/-- Reads a condition where the walk has come to. -/
def reads (scopes : Nat → Scope) (condition : String) (walk : Walk) : Bool :=
  (scopes walk.letters.length).isTruthy condition

/-- What the walk answers to a call, the first one having number zero: the letter of an action,
or the end of the program. A walk that was broken off before has no answer. -/
def answer? (walk : Walk) (call : Nat) : Option (Option Char) :=
  match walk.letters[call]? with
  | some letter => some (some letter)
  | none => if walk.ended then some none else none

/-- Goes through a block a number of times. -/
def times (block : Walk → Walk) : Nat → Walk → Walk
  | 0, walk => walk
  | count + 1, walk => (block walk).andThen (times block count)

/-- Goes through a block as long as the condition holds, reading it before every round. -/
def whileHolds (scopes : Nat → Scope) (condition : String) (block : Walk → Walk) :
    Nat → Walk → Walk
  | 0, walk => if walk.reads scopes condition then walk.breakOff else walk
  | rounds + 1, walk =>
      if walk.reads scopes condition then
        (block walk).andThen (whileHolds scopes condition block rounds)
      else walk

end Walk

mutual

/-- Walks through a statement. -/
def Tree.walk (scopes : Nat → Scope) (rounds : Nat) : Tree → Walk → Walk
  | .action letter, walk => walk.spend.act letter
  | .block body, walk => walkBlock scopes rounds body walk.spend
  | .repeated count body, walk => .times (walkBlock scopes rounds body) count.toNat walk.spend
  | .conditional condition body, walk =>
      if walk.reads scopes condition then walkBlock scopes rounds body walk.spend else walk.spend
  | .alternative condition body otherwise, walk =>
      if walk.reads scopes condition then walkBlock scopes rounds body walk.spend
      else walkBlock scopes rounds otherwise walk.spend
  | .loop condition body, walk =>
      .whileHolds scopes condition (walkBlock scopes rounds body) rounds walk.spend

/-- Walks through the statements of a block, and through its end. -/
def Tree.walkBlock (scopes : Nat → Scope) (rounds : Nat) : List Tree → Walk → Walk
  | [], walk => walk.spend
  | tree :: trees, walk => (tree.walk scopes rounds walk).andThen (walkBlock scopes rounds trees)

end

/-! ### Breaking off takes time -/

namespace Walk

/-- The gas of a part of a walk: it is never given back, and breaking off takes at least as much
as there were rounds. -/
structure Spends (rounds : Nat) (before after : Walk) : Prop where
  gas_le : before.gas ≤ after.gas
  broken : after.ended = false → before.gas + rounds ≤ after.gas

namespace Spends

variable {rounds : Nat} {before middle after : Walk}

theorem of_ended (ended : after.ended = true) (gas_le : before.gas ≤ after.gas) :
    Spends rounds before after := by
  refine ⟨gas_le, ?_⟩
  intro broken
  rw [ended] at broken
  cases broken

theorem fewer {allowed : Nat} (spends : Spends allowed before after) (fewer : rounds ≤ allowed) :
    Spends rounds before after := by
  refine ⟨spends.gas_le, ?_⟩
  intro broken
  exact Nat.le_trans (Nat.add_le_add_left fewer before.gas) (spends.broken broken)

/-- The unit spent first makes up for a round. -/
theorem oneMore (spends : Spends rounds before.spend after) : Spends (rounds + 1) before after := by
  refine ⟨Nat.le_of_succ_le spends.gas_le, ?_⟩
  intro broken
  calc before.gas + (rounds + 1)
      = before.spend.gas + rounds := Nat.add_right_comm before.gas rounds 1
    _ ≤ after.gas := spends.broken broken

theorem unspend (spends : Spends rounds before.spend after) : Spends rounds before after :=
  spends.oneMore.fewer (Nat.le_succ rounds)

theorem andThen {next : Walk → Walk} (first : Spends rounds before middle)
    (second : middle.ended = true → Spends rounds middle (next middle)) :
    Spends rounds before (middle.andThen next) := by
  simp only [Walk.andThen]
  split
  · rename_i ended
    have spends := second ended
    refine ⟨Nat.le_trans first.gas_le spends.gas_le, ?_⟩
    intro broken
    exact Nat.le_trans (Nat.add_le_add_right first.gas_le rounds) (spends.broken broken)
  · exact first

end Spends

variable {rounds : Nat} {block : Walk → Walk}

theorem times_spends
    (each : ∀ walk : Walk, walk.ended = true → Spends rounds walk.spend (block walk))
    (count : Nat) {walk : Walk} (ended : walk.ended = true) :
    Spends rounds walk (times block count walk) := by
  induction count generalizing walk with
  | zero => exact .of_ended ended (Nat.le_refl _)
  | succ count inductionHypothesis =>
      exact (each walk ended).unspend.andThen fun goesOn => inductionHypothesis goesOn

theorem whileHolds_spends {scopes : Nat → Scope} {condition : String}
    (each : ∀ walk : Walk, walk.ended = true → Spends rounds walk.spend (block walk))
    {left : Nat} (enough : left ≤ rounds) {walk : Walk} (ended : walk.ended = true) :
    Spends left walk (whileHolds scopes condition block left walk) := by
  induction left generalizing walk with
  | zero =>
      rw [whileHolds]
      split
      · exact ⟨Nat.le_refl _, fun _ => Nat.le_refl _⟩
      · exact .of_ended ended (Nat.le_refl _)
  | succ left inductionHypothesis =>
      rw [whileHolds]
      split
      · apply Spends.oneMore
        apply ((each walk ended).fewer (Nat.le_of_succ_le enough)).andThen
        exact fun goesOn => inductionHypothesis (Nat.le_of_succ_le enough) goesOn
      · exact .of_ended ended (Nat.le_refl _)

end Walk

mutual

/-- A statement takes one unit for its start. -/
theorem Tree.walk_spends (scopes : Nat → Scope) (rounds : Nat) (walk : Walk)
    (ended : walk.ended = true) :
    ∀ tree : Tree, Walk.Spends rounds walk.spend (tree.walk scopes rounds walk)
  | .action letter => .of_ended ended (Nat.le_refl _)
  | .block body => (walkBlock_spends scopes rounds walk.spend ended body).unspend
  | .repeated count body =>
      Walk.times_spends (fun walk ended => walkBlock_spends scopes rounds walk ended body) _ ended
  | .conditional condition body => by
      rw [Tree.walk]
      split
      · exact (walkBlock_spends scopes rounds walk.spend ended body).unspend
      · exact .of_ended ended (Nat.le_refl _)
  | .alternative condition body otherwise => by
      rw [Tree.walk]
      split
      · exact (walkBlock_spends scopes rounds walk.spend ended body).unspend
      · exact (walkBlock_spends scopes rounds walk.spend ended otherwise).unspend
  | .loop condition body =>
      Walk.whileHolds_spends (fun walk ended => walkBlock_spends scopes rounds walk ended body)
        (Nat.le_refl rounds) ended

/-- A block takes one unit for its end. -/
theorem Tree.walkBlock_spends (scopes : Nat → Scope) (rounds : Nat) (walk : Walk)
    (ended : walk.ended = true) :
    ∀ trees : List Tree, Walk.Spends rounds walk.spend (Tree.walkBlock scopes rounds trees walk)
  | [] => .of_ended ended (Nat.le_refl _)
  | tree :: trees => by
      rw [Tree.walkBlock]
      apply (walk_spends scopes rounds walk ended tree).andThen
      intro goesOn
      exact (walkBlock_spends scopes rounds _ goesOn trees).unspend

end

end RobotScript
