/-
Module: RobotScript.Proofs.GasCost
Purpose: What a program costs under a scope in which it enters no loop, read off its trees: one unit
  for every statement that is started and one for every end of a block. A repeat multiplies the
  price of its rounds, a conditional costs its chosen branch. The run without a limit takes
  exactly this much, so a limit of this much, and no smaller one, lets it through.
Main exports: Tree.cost, Tree.entersLoop, Tree.walkBlock_takes, Execution.runWithin_metered,
  run_takes_cost_of_trees
-/
import RobotScript.Proofs.Exhaustion
import RobotScript.Proofs.RunCourse

namespace RobotScript

/-! ### Prices -/

mutual

/-- The gas that a statement takes, if no loop is entered on the way. -/
def Tree.cost (scope : Scope) : Tree → Nat
  | .action _ => 1
  | .block body => 1 + costOfAll scope body + 1
  | .repeated count body => 1 + count.toNat * (costOfAll scope body + 1)
  | .conditional condition body =>
      1 + if scope.isTruthy condition then costOfAll scope body + 1 else 0
  | .alternative condition body otherwise =>
      1 + if scope.isTruthy condition then costOfAll scope body + 1
        else costOfAll scope otherwise + 1
  | .loop _ _ => 1

/-- The gas that statements take one after the other. -/
def Tree.costOfAll (scope : Scope) : List Tree → Nat
  | [] => 0
  | tree :: trees => tree.cost scope + costOfAll scope trees

end

mutual

/-- Whether a loop is reached whose condition holds: neither one in a body that is repeated zero
times, nor one in a branch that is not chosen. -/
def Tree.entersLoop (scope : Scope) : Tree → Bool
  | .action _ => false
  | .block body => entersLoopInAll scope body
  | .repeated count body => count != 0 && entersLoopInAll scope body
  | .conditional condition body => scope.isTruthy condition && entersLoopInAll scope body
  | .alternative condition body otherwise =>
      if scope.isTruthy condition then entersLoopInAll scope body
      else entersLoopInAll scope otherwise
  | .loop condition _ => scope.isTruthy condition

/-- Whether one of several statements reaches a loop whose condition holds. -/
def Tree.entersLoopInAll (scope : Scope) : List Tree → Bool
  | [] => false
  | tree :: trees => tree.entersLoop scope || entersLoopInAll scope trees

end

/-! ### Walks at these prices -/

namespace Walk

/-- A part of a walk that comes through to its end and takes so much gas. -/
structure Takes (cost : Nat) (before after : Walk) : Prop where
  ended : after.ended = true
  gas : after.gas = before.gas + cost

namespace Takes

variable {before after : Walk}

theorem nothing (ended : before.ended = true) : Takes 0 before before :=
  ⟨ended, rfl⟩

theorem unspend {cost : Nat} (takes : Takes cost before.spend after) :
    Takes (1 + cost) before after := by
  refine ⟨takes.ended, ?_⟩
  rw [takes.gas, Walk.spend, Nat.add_assoc]

theorem andThen {first second : Nat} {next : Walk → Walk} (takes : Takes first before after)
    (goesOn : Takes second after (next after)) :
    Takes (first + second) before (after.andThen next) := by
  rw [Walk.andThen, if_pos takes.ended]
  refine ⟨goesOn.ended, ?_⟩
  rw [goesOn.gas, takes.gas, Nat.add_assoc]

end Takes

/-- Every round costs the same. -/
theorem times_takes {cost : Nat} {block : Walk → Walk} {count : Nat}
    (each : count ≠ 0 → ∀ walk : Walk, walk.ended = true → Takes cost walk (block walk))
    {walk : Walk} (ended : walk.ended = true) :
    Takes (count * cost) walk (times block count walk) := by
  induction count generalizing walk with
  | zero =>
      rw [Nat.zero_mul]
      exact .nothing ended
  | succ count inductionHypothesis =>
      have round := each (Nat.succ_ne_zero count)
      have first := round walk ended
      rw [Nat.succ_mul, Nat.add_comm]
      exact first.andThen (inductionHypothesis (fun _ => round) first.ended)

end Walk

section Prices

variable (scope : Scope) (rounds : Nat)

mutual

/-- A walk that comes to no loop it would have to enter takes the price of the statement. -/
theorem Tree.walk_takes (walk : Walk) (ended : walk.ended = true) :
    ∀ tree : Tree, tree.entersLoop scope = false →
      Walk.Takes (tree.cost scope) walk (tree.walk (fun _ => scope) rounds walk)
  | .action letter, _ => ⟨ended, rfl⟩
  | .block body, skips => by
      rw [Tree.entersLoop] at skips
      rw [Tree.cost, Nat.add_assoc]
      exact (walkBlock_takes walk.spend ended body skips).unspend
  | .repeated count body, skips => by
      rw [Tree.entersLoop, Bool.and_eq_false_imp] at skips
      rw [Tree.cost, Tree.walk]
      apply Walk.Takes.unspend
      refine Walk.times_takes (fun positive walk ended => ?_) ended
      apply walkBlock_takes walk ended body
      apply skips
      rw [bne_iff_ne]
      rintro rfl
      exact positive rfl
  | .conditional condition body, skips => by
      rw [Tree.entersLoop, Bool.and_eq_false_imp] at skips
      rw [Tree.cost, Tree.walk]
      unfold Walk.reads
      split
      · rename_i holds
        exact (walkBlock_takes walk.spend ended body (skips holds)).unspend
      · exact Walk.Takes.unspend (.nothing ended)
  | .alternative condition body otherwise, skips => by
      rw [Tree.entersLoop] at skips
      rw [Tree.cost, Tree.walk]
      unfold Walk.reads
      split
      · rename_i holds
        rw [if_pos holds] at skips
        exact (walkBlock_takes walk.spend ended body skips).unspend
      · rename_i fails
        rw [if_neg fails] at skips
        exact (walkBlock_takes walk.spend ended otherwise skips).unspend
  | .loop condition body, skips => by
      rw [Tree.entersLoop] at skips
      rw [Tree.cost, Tree.walk]
      -- The condition is read once, whatever number of rounds is allowed.
      have leaves : Walk.whileHolds (fun _ => scope) condition
          (Tree.walkBlock (fun _ => scope) rounds body) rounds walk.spend = walk.spend := by
        have fails : ¬walk.spend.reads (fun _ => scope) condition = true := by
          simp only [Walk.reads, skips, Bool.false_eq_true, not_false_eq_true]
        cases rounds with
        | zero => exact if_neg fails
        | succ rounds => exact if_neg fails
      rw [leaves]
      exact Walk.Takes.unspend (.nothing ended)

/-- A block takes the prices of its statements and one unit for its end. -/
theorem Tree.walkBlock_takes (walk : Walk) (ended : walk.ended = true) :
    ∀ trees : List Tree, Tree.entersLoopInAll scope trees = false →
      Walk.Takes (Tree.costOfAll scope trees + 1) walk
        (Tree.walkBlock (fun _ => scope) rounds trees walk)
  | [], _ => ⟨ended, rfl⟩
  | tree :: trees, skips => by
      rw [Tree.entersLoopInAll, Bool.or_eq_false_iff] at skips
      rw [Tree.costOfAll, Tree.walkBlock, Nat.add_assoc]
      have first := walk_takes walk ended tree skips.1
      exact first.andThen (walkBlock_takes _ first.ended trees skips.2)

end

end Prices

/-! ### Runs under a limit -/

namespace Execution

variable {capacity limit : Nat} {program : Program} {scope : Scope} {execution final : Execution}

theorem runWithin_gasUsed_le (capacity : Nat) (program : Program) (scope : Scope)
    (execution : Execution) :
    execution.gasUsed ≤ (execution.runWithin capacity program scope).2.gasUsed := by
  refine runWithin_preserves (P := fun later => execution.gasUsed ≤ later.gasUsed) ?_
    (Nat.le_refl _)
  intro later spent
  exact Nat.le_trans spent (later.stepWithin_gasUsed_le capacity program scope)

/-- A run that ends well finds the end at once, or an action and then the rest. -/
theorem runWithin_ok_cases {letters : List Char}
    (runs : execution.runWithin capacity program scope = (.ok letters, final)) :
    (letters = [] ∧ execution.stepWithin capacity program scope = (.ok none, final)) ∨
    ∃ letter later stopped, letters = letter :: later ∧
      execution.stepWithin capacity program scope = (.ok (some letter), stopped) ∧
      stopped.runWithin capacity program scope = (.ok later, final) := by
  rw [runWithin_eq] at runs
  split at runs
  · rename_i letter stopped acts
    cases rest : stopped.runWithin capacity program scope with
    | mk result last =>
        rw [rest] at runs
        cases result with
        | error error => cases runs
        | ok later =>
            cases runs
            exact Or.inr ⟨letter, later, stopped, rfl, acts, rest⟩
  · rename_i stopped ends
    cases runs
    exact Or.inl ⟨rfl, ends⟩
  · cases runs

/-- A run that ends well without a limit does the same under a limit that it does not exceed, and
finds the gas exhausted under any other. -/
theorem runWithin_metered (unlimited : execution.gasLimit = none)
    (before : execution.gasUsed ≤ limit) {letters : List Char}
    (runs : execution.runWithin capacity program scope = (.ok letters, final)) :
    ((execution.limited limit).runWithin capacity program scope).1 =
      if final.gasUsed ≤ limit then .ok letters else .error (.gasExhausted limit) := by
  -- Over the letters of the run: each is a step, and the first step that exceeds the limit ends the
  -- run there; that the whole run exceeds it follows, since the counter never goes back.
  induction letters generalizing execution with
  | nil =>
      rcases runWithin_ok_cases runs with ⟨-, ends⟩ | ⟨letter, later, stopped, impossible, -⟩
      · rcases stepWithin_metered capacity program scope unlimited before with
          ⟨within, same⟩ | ⟨beyond, middle, -, -, -, refused⟩
        · rw [ends] at within same
          rw [runWithin_eq, same, if_pos within]
        · rw [ends] at beyond
          rw [runWithin_eq, refused, if_neg (Nat.not_le_of_lt beyond)]
      · cases impossible
  | cons first rest inductionHypothesis =>
      rcases runWithin_ok_cases runs with
        ⟨impossible, -⟩ | ⟨letter, later, stopped, same, acts, goesOn⟩
      · cases impossible
      · cases same
        rcases stepWithin_metered capacity program scope unlimited before with
          ⟨within, same⟩ | ⟨beyond, middle, -, -, -, refused⟩
        · have stillUnlimited := execution.stepWithin_gasLimit_eq capacity program scope
          rw [acts] at within same stillUnlimited
          rw [runWithin_eq, same]
          simp only
          rw [inductionHypothesis (stillUnlimited.trans unlimited) within goesOn]
          split <;> rfl
        · have spent := stopped.runWithin_gasUsed_le capacity program scope
          rw [acts] at beyond
          rw [goesOn] at spent
          rw [runWithin_eq, refused, if_neg (Nat.not_le_of_lt (Nat.lt_of_lt_of_le beyond spent))]

end Execution

/-! ### Accepted scripts -/

/-- An accepted script costs what its trees say. Under a scope under which it comes to no loop whose
condition holds, and with fewer than 2^64 units to pay, its run without a limit ends with just so
much gas used; under a limit it does the same if the limit is no smaller, and finds the gas
exhausted otherwise. -/
theorem run_takes_cost_of_trees {source : SourceFile} {program : Program}
    (accepted : parse source = .ok program) (few : program.blocks.size < UInt32.size) :
    ∃ trees, program.unfold? = some trees ∧
      ∀ scope : Scope, Tree.entersLoopInAll scope trees = false →
        Tree.costOfAll scope trees + 1 < gasCapacity →
        ∃ letters,
          (Execution.start program none).run program scope =
            (.ok letters, ⟨[], true, Tree.costOfAll scope trees + 1, none⟩) ∧
          ∀ limit : Nat, ((Execution.start program (some limit)).run program scope).1 =
            if Tree.costOfAll scope trees + 1 ≤ limit then .ok letters
            else .error (.gasExhausted limit) := by
  obtain ⟨-, trees, unfolded⟩ := parse_isTree_and_unfolds accepted few
  have unfolds : program.Unfolds program.root trees := ⟨_, unfolded⟩
  refine ⟨trees, unfolded, ?_⟩
  intro scope skips room
  have takes := Tree.walkBlock_takes scope 0 .start rfl trees skips
  cases walked : Tree.walkBlock (fun _ => scope) 0 trees .start with
  | mk letters gas ended =>
      rw [walked] at takes
      obtain ⟨rfl, paid⟩ := takes
      have costs : gas = Tree.costOfAll scope trees + 1 := paid.trans (Nat.zero_add _)
      rw [costs] at walked
      have runs := unfolds.run_of_walk walked room
      refine ⟨letters, runs, ?_⟩
      intro limit
      exact Execution.runWithin_metered rfl (Nat.zero_le _) runs

/-- Two rounds of an action and a conditional, a loop that is not reached and one whose condition
does not hold: fifteen units, and not one less. -/
theorem run_takes_cost_of_nested_script :
    let source : SourceFile :=
      ⟨"aula", "2{A se luz {B} 0{enquanto luz {}}} enquanto fim {C}"⟩
    let scope := Scope.empty.set "luz" (.bool true)
    ∃ program letters, parse source = .ok program ∧ program.blocks.size < UInt32.size ∧
      (Execution.start program none).run program scope = (.ok letters, ⟨[], true, 15, none⟩) ∧
      ((Execution.start program (some 15)).run program scope).1 = .ok letters ∧
      ((Execution.start program (some 14)).run program scope).1 = .error (.gasExhausted 14) := by
  intro source scope
  have priced : (parse source).toOption.any (fun program =>
      program.blocks.size < UInt32.size && program.unfold?.any fun trees =>
        !Tree.entersLoopInAll scope trees && Tree.costOfAll scope trees == 14) = true := by
    decide +kernel
  obtain ⟨program, found, holds⟩ := (Option.any_eq_true _ _).mp priced
  obtain ⟨small, treesPriced⟩ := (Bool.and_eq_true _ _).mp holds
  have accepted : parse source = .ok program := toOption_eq_some_iff.mp found
  have few := of_decide_eq_true small
  obtain ⟨trees, unfolded, runs⟩ := run_takes_cost_of_trees accepted few
  rw [unfolded] at treesPriced
  obtain ⟨skips, costs⟩ := (Bool.and_eq_true _ _).mp treesPriced
  have skipped : Tree.entersLoopInAll scope trees = false := by simpa using skips
  have fourteen : Tree.costOfAll scope trees = 14 := beq_iff_eq.mp costs
  have room : Tree.costOfAll scope trees + 1 < gasCapacity := by
    rw [fourteen]
    decide
  obtain ⟨letters, ends, limited⟩ := runs scope skipped room
  rw [fourteen] at ends limited
  exact ⟨program, letters, accepted, few, ends, limited 15, limited 14⟩

end RobotScript
