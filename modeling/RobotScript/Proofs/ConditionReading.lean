/-
Module: RobotScript.Proofs.ConditionReading
Purpose: What an execution can learn from a scope. Conditions are read at three places: by `se`, by
  `enquanto` when it is reached, and at the end of each of its rounds, through the name that the
  frame has taken along. All three ask only whether the name holds, and frames take along no name
  that does not stand in the program. So scopes that agree on these names cannot be told apart, not
  by what calls return nor by the executions they leave behind.
Main exports: Scope.isTruthy_eq_false_iff, Execution.CanRead, Execution.Advances.agreeing,
  Execution.Advances.canRead, Execution.stepWithin_agreeing, calls_read_only_truth
-/
import RobotScript.Proofs.FrameStack
import RobotScript.Proofs.GasLimit

namespace RobotScript

/-! ### Conditions -/

/-- A condition fails if its name is unset, or set to false or to zero. -/
theorem Scope.isTruthy_eq_false_iff (scope : Scope) (name : String) :
    scope.isTruthy name = false ↔
      scope.lookup? name = none ∨ scope.lookup? name = some (.bool false) ∨
        scope.lookup? name = some (.int 0) := by
  simp only [isTruthy, get]
  cases scope.lookup? name with
  | none => simp [Value.unset, Value.isTruthy]
  | some value => cases value <;> simp [Value.isTruthy]

/-- The names that an execution of the program can ever read: those of the conditions in the program,
and those that the frames of loops have taken along. -/
def Execution.CanRead (program : Program) (execution : Execution) (name : String) : Prop :=
  (∃ stmt ∈ program.stmts, stmt.condition? = some name) ∨
    ∃ frame ∈ execution.frames, frame.kind = .loop name

/-- The scopes agree on whether the names that can be read hold. -/
def Execution.Agreeing (program : Program) (execution : Execution) (scope other : Scope) : Prop :=
  ∀ name, execution.CanRead program name → scope.isTruthy name = other.isTruthy name

/-! ### What a move reads -/

section Reads

variable {scope other : Scope}

theorem Stmt.move_congr {stmt : Stmt}
    (agree : ∀ name, stmt.condition? = some name → scope.isTruthy name = other.isTruthy name) :
    stmt.move scope = stmt.move other := by
  cases stmt with
  | action letter span => rfl
  | block body => rfl
  | repeated count body span => rfl
  | conditional condition thenBlock elseBlock? span =>
      simp only [Stmt.move, agree condition.name rfl]
  | loop condition body span => simp only [Stmt.move, agree condition.name rfl]

theorem FrameKind.move_congr {kind : FrameKind}
    (agree : ∀ name, kind = .loop name → scope.isTruthy name = other.isTruthy name) :
    kind.move scope = kind.move other := by
  cases kind with
  | block => rfl
  | repeated remaining => rfl
  | loop condition => simp only [FrameKind.move, agree condition rfl]

/-- The innermost frame reads a condition of its block, or its own. -/
theorem Frame.move_congr {program : Program} {execution : Execution} {frame : Frame}
    {outer : List Frame} {block : Block} (agreeing : execution.Agreeing program scope other)
    (top : execution.frames = frame :: outer) (here : program.block? frame.block = some block) :
    frame.move scope block = frame.move other block := by
  simp only [Frame.move]
  split
  · rename_i stmt there
    apply Stmt.move_congr
    intro name reads
    exact agreeing name (Or.inl ⟨stmt, Program.mem_stmts here there, reads⟩)
  · apply FrameKind.move_congr
    intro name loops
    exact agreeing name (Or.inr ⟨frame, top ▸ List.mem_cons_self, loops⟩)

end Reads

/-! ### What frames take along -/

theorem Stmt.Opened.condition?_eq {stmt : Stmt} {frame : Frame} (opened : stmt.Opened frame)
    {name : String} (loops : frame.kind = .loop name) : stmt.condition? = some name := by
  cases opened with
  | loop condition id span cursor =>
      cases loops
      rfl
  | _ => cases loops

theorem FrameKind.eq_of_again {kind : FrameKind} {scope : Scope} {name : String}
    (again : kind.move scope = .again (.loop name)) : kind = .loop name := by
  cases kind with
  | block => cases again
  | repeated remaining =>
      simp only [FrameKind.move] at again
      split at again <;> cases again
  | loop condition =>
      simp only [FrameKind.move] at again
      split at again
      · cases again
        rfl
      · cases again

namespace Execution

variable {capacity : Nat} {program : Program} {scope other : Scope} {execution : Execution}

theorem CanRead.of_frame {frame : Frame} (inside : frame ∈ execution.frames) {name : String}
    (loops : frame.kind = .loop name) : execution.CanRead program name :=
  Or.inr ⟨frame, inside, loops⟩

/-- After a move nothing can be read that could not be read before it. -/
theorem canRead_of_moved {frame : Frame} {outer : List Frame} {block : Block}
    (top : execution.frames = frame :: outer) (here : program.block? frame.block = some block)
    (scope : Scope) {name : String}
    (reads : (execution.moved (frame.move scope block) frame outer).CanRead program name) :
    execution.CanRead program name := by
  have isFirst : frame ∈ execution.frames := top ▸ List.mem_cons_self
  rcases reads with inProgram | ⟨later, inside, loops⟩
  · exact Or.inl inProgram
  have kept (member : later ∈ { frame with cursor := frame.cursor + 1 } :: outer) :
      execution.CanRead program name := by
    rcases List.mem_cons.mp member with rfl | below
    · exact .of_frame isFirst loops
    · exact .of_frame (top ▸ List.mem_cons_of_mem frame below) loops
  change later ∈ (frame.move scope block).apply frame outer at inside
  rcases frame.apply_move_cases scope block outer with
    stepped | ⟨stmt, opened, there, opens, -, entered⟩ | ⟨kind, again, restarted⟩ | left
  · rw [stepped] at inside
    exact kept inside
  · rw [entered] at inside
    rcases List.mem_cons.mp inside with rfl | below
    · exact Or.inl ⟨stmt, Program.mem_stmts here there, opens.condition?_eq loops⟩
    · exact kept below
  · rw [restarted] at inside
    rcases List.mem_cons.mp inside with rfl | below
    · -- The frame goes back to its beginning with the name it had.
      cases loops
      exact .of_frame isFirst (FrameKind.eq_of_again again)
    · exact .of_frame (top ▸ List.mem_cons_of_mem frame below) loops
  · rw [left] at inside
    exact .of_frame (top ▸ List.mem_cons_of_mem frame inside) loops

theorem Advances.canRead {transition : Transition}
    (advances : Advances capacity program scope execution transition) {name : String}
    (reads : transition.execution.CanRead program name) : execution.CanRead program name := by
  cases advances with
  | ends => exact reads
  | dangles => exact reads
  | overflows => exact reads
  | starves => exact reads
  | acts top here _ _ action =>
      apply canRead_of_moved top here scope
      rw [action]
      exact reads
  | goesOn top here => exact canRead_of_moved top here scope reads

/-- The same move is made under every scope that agrees on what can be read. -/
theorem Advances.agreeing {transition : Transition}
    (advances : Advances capacity program scope execution transition)
    (agreeing : execution.Agreeing program scope other) :
    Advances capacity program other execution transition := by
  cases advances with
  | ends empty => exact .ends empty
  | dangles top missing => exact .dangles top missing
  | overflows top here full => exact .overflows top here full
  | starves top here room exceeded => exact .starves top here room exceeded
  | acts top here room within action =>
      rw [Frame.move_congr agreeing top here] at action
      exact .acts top here room within action
  | goesOn top here room within noAction =>
      rw [Frame.move_congr agreeing top here] at noAction ⊢
      exact .goesOn top here room within noAction

/-! ### Steps and calls -/

theorem drive_agreeing (agreeing : execution.Agreeing program scope other) :
    execution.drive capacity program scope = execution.drive capacity program other := by
  fun_induction drive capacity program scope execution with
  | case1 execution after goesOn inductionHypothesis =>
      have advances := execution.advances capacity program scope
      rw [goesOn] at advances
      rw [drive_of_next (advances.agreeing agreeing).advance_eq]
      apply inductionHypothesis
      intro name reads
      exact agreeing name (advances.canRead reads)
  | case2 execution result after stops =>
      have advances := execution.advances capacity program scope
      rw [stops] at advances
      exact (drive_of_stop (advances.agreeing agreeing).advance_eq).symm

/-- A step under either of two scopes that agree is the same step. -/
theorem stepWithin_agreeing (agreeing : execution.Agreeing program scope other)
    (capacity : Nat) :
    execution.stepWithin capacity program scope = execution.stepWithin capacity program other := by
  simp only [stepWithin, drive_agreeing agreeing]

theorem stepWithin_canRead {name : String}
    (reads : (execution.stepWithin capacity program scope).2.CanRead program name) :
    execution.CanRead program name := by
  simp only [stepWithin] at reads
  split at reads
  · exact reads
  · revert reads
    apply drive_preserves
      (P := fun later => later.CanRead program name → execution.CanRead program name)
      (Q := fun _ later => later.CanRead program name → execution.CanRead program name)
    · intro later after before advances reads
      exact before (advances.canRead reads)
    · intro later result after before advances reads
      exact before (advances.canRead reads)
    · exact id

theorem afterCalls_canRead {scopes : Nat → Scope} {calls : Nat} {name : String}
    (reads : (execution.afterCalls capacity program scopes calls).CanRead program name) :
    execution.CanRead program name := by
  induction calls with
  | zero => exact reads
  | succ calls inductionHypothesis => exact inductionHypothesis (stepWithin_canRead reads)

theorem afterCalls_agreeing {scopes others : Nat → Scope}
    (agree : ∀ call, execution.Agreeing program (scopes call) (others call)) (calls : Nat) :
    execution.afterCalls capacity program scopes calls =
      execution.afterCalls capacity program others calls := by
  induction calls with
  | zero => rfl
  | succ calls inductionHypothesis =>
      have stillAgree : (execution.afterCalls capacity program others calls).Agreeing program
          (scopes calls) (others calls) :=
        fun name reads => agree calls name (afterCalls_canRead reads)
      simp only [afterCalls, inductionHypothesis, stepWithin_agreeing stillAgree capacity]

end Execution

/-- Whatever the program and the execution, calls depend on their scopes only through which
conditions hold, and only on the names that stand in the program or that loops under way have taken
along. Under scopes that agree on these, call by call, the calls return the same letters and the
same errors, leave the same executions behind, gas included, and go on for ever together. A
condition fails if its name is unset, false or zero, and nothing else about its value matters. The
counter may have any capacity, that of `Execution.step` among them. -/
theorem calls_read_only_truth (program : Program) (execution : Execution)
    (scopes others : Nat → Scope)
    (agree : ∀ call name, execution.CanRead program name →
      (scopes call).isTruthy name = (others call).isTruthy name) :
    (∀ capacity call,
      let one := execution.afterCalls capacity program scopes call
      let two := execution.afterCalls capacity program others call
      one = two ∧
        one.stepWithin capacity program (scopes call) =
          two.stepWithin capacity program (others call) ∧
        (one.NeverReturns program (scopes call) ↔ two.NeverReturns program (others call))) ∧
    ∀ (scope : Scope) (name : String),
      scope.isTruthy name = false ↔
        scope.lookup? name = none ∨ scope.lookup? name = some (.bool false) ∨
          scope.lookup? name = some (.int 0) := by
  refine ⟨?_, Scope.isTruthy_eq_false_iff⟩
  intro capacity call one two
  have same : one = two := Execution.afterCalls_agreeing agree call
  have stillAgree : two.Agreeing program (scopes call) (others call) :=
    fun name reads => agree call name (Execution.afterCalls_canRead reads)
  rw [same]
  refine ⟨rfl, Execution.stepWithin_agreeing stillAgree capacity, ?_⟩
  simp only [Execution.NeverReturns, Execution.stepWithin_agreeing stillAgree]

/-- A loop under way whose name does not stand in the program, and a conditional. One scope is full
of numbers, the other of truth values and of a name that nobody reads. -/
theorem calls_read_only_truth_of_foreign_loop :
    let program : Program :=
      ⟨#[⟨#[.action 'A' .origin], .origin⟩, ⟨#[.action 'B' .origin], .origin⟩,
        ⟨#[.conditional ⟨"luz", .origin⟩ ⟨0⟩ (some ⟨1⟩) .origin], .origin⟩], ⟨2⟩⟩
    let execution : Execution := ⟨[⟨⟨2⟩, 0, .loop "sol"⟩], false, 0, some 9⟩
    let scopes : Nat → Scope
      | 0 => .ofList [("luz", .int 7), ("sol", .int 1)]
      | _ => .ofList [("luz", .int 0), ("sol", .int (-1))]
    let others : Nat → Scope
      | 0 => .ofList [("luz", .bool true), ("sol", .bool true), ("eco", .int 3)]
      | _ => .ofList [("sol", .bool true)]
    let second := (execution.afterCalls gasCapacity program scopes 1).step program (scopes 1)
    (∀ call name, execution.CanRead program name →
      (scopes call).isTruthy name = (others call).isTruthy name) ∧
    second = (.ok (some 'B'), ⟨[⟨⟨1⟩, 1, .block⟩, ⟨⟨2⟩, 1, .loop "sol"⟩], false, 6, some 9⟩) ∧
    second = (execution.afterCalls gasCapacity program others 1).step program (others 1) := by
  intro program execution scopes others second
  have agree : ∀ call name, execution.CanRead program name →
      (scopes call).isTruthy name = (others call).isTruthy name := by
    intro call name reads
    have isRead : name = "luz" ∨ name = "sol" := by
      rcases reads with ⟨stmt, inProgram, condition⟩ | ⟨frame, inside, loops⟩
      · have listed : name ∈ program.stmts.filterMap Stmt.condition? :=
          List.mem_filterMap.mpr ⟨stmt, inProgram, condition⟩
        exact Or.inl (List.mem_singleton.mp listed)
      · obtain rfl := List.mem_singleton.mp inside
        exact Or.inr (FrameKind.loop.inj loops).symm
    rcases isRead with rfl | rfl <;> cases call <;> rfl
  have same := (calls_read_only_truth program execution scopes others agree).1 gasCapacity 1
  exact ⟨agree, by decide +kernel, same.2.1⟩

end RobotScript
