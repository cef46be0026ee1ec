/-
Module: RobotScript.Proofs.Unfolding
Purpose: Unfolding as a relation, free of the depth that `Program.unfoldBlock?` counts down. A
  larger table unfolds a block to the same trees, and where blocks refer only to blocks before them
  the size of the table is depth enough.
Main exports: Program.Unfolds, Stmt.Unfolds, Program.unfolds_iff, Program.Extends,
  Program.Descending, Program.Descending.exists_unfolds, Program.unfold?_eq_some
-/
import Mathlib.Data.List.Forall2
import RobotScript.Program.Tree

namespace RobotScript

/-- The list that `mapM` gives holds the results one by one. -/
theorem mapM_eq_some_iff_forall₂ {α β : Type} {f : α → Option β} {xs : List α} {ys : List β} :
    xs.mapM f = some ys ↔ List.Forall₂ (fun x y => f x = some y) xs ys := by
  induction xs generalizing ys with
  | nil =>
      rw [List.mapM_nil, List.forall₂_nil_left_iff]
      exact ⟨fun same => (Option.some.inj same).symm, fun same => congrArg some same.symm⟩
  | cons x xs inductionHypothesis =>
      rw [List.mapM_cons, List.forall₂_cons_left_iff]
      constructor
      · intro found
        obtain ⟨y, first, found⟩ := Option.bind_eq_some_iff.mp found
        obtain ⟨later, rest, same⟩ := Option.bind_eq_some_iff.mp found
        exact ⟨y, later, first, inductionHypothesis.mp rest, (Option.some.inj same).symm⟩
      · rintro ⟨y, later, first, rest, rfl⟩
        refine Option.bind_eq_some_iff.mpr ⟨y, first, ?_⟩
        exact Option.bind_eq_some_iff.mpr ⟨later, inductionHypothesis.mpr rest, rfl⟩

/-- What can be found for every item of a list can be found for the list. -/
theorem exists_forall₂ {α β : Type} {R : α → β → Prop} {xs : List α}
    (each : ∀ x ∈ xs, ∃ y, R x y) : ∃ ys, List.Forall₂ R xs ys := by
  induction xs with
  | nil => exact ⟨[], .nil⟩
  | cons x later inductionHypothesis =>
      obtain ⟨y, first⟩ := each x List.mem_cons_self
      obtain ⟨ys, rest⟩ := inductionHypothesis fun z member => each z (List.mem_cons_of_mem x member)
      exact ⟨y :: ys, .cons first rest⟩

/-! ### Larger tables and greater depths -/

/-- A statement becomes the same tree wherever its blocks become the same trees. -/
theorem Stmt.tree?_mono {before after : BlockId → Option (List Tree)} {stmt : Stmt} {tree : Tree}
    (kept : ∀ id ∈ stmt.blocks, ∀ trees, before id = some trees → after id = some trees)
    (found : stmt.tree? before = some tree) : stmt.tree? after = some tree := by
  have keptMap : ∀ {id : BlockId} {wrap : List Tree → Tree}, id ∈ stmt.blocks →
      (before id).map wrap = some tree → (after id).map wrap = some tree := by
    intro id wrap member mapped
    obtain ⟨trees, same, rfl⟩ := Option.map_eq_some_iff.mp mapped
    rw [kept id member trees same]
    rfl
  cases stmt with
  | action letter span => exact found
  | block body => exact keptMap List.mem_cons_self found
  | repeated count body span => exact keptMap List.mem_cons_self found
  | loop condition body span => exact keptMap List.mem_cons_self found
  | conditional condition thenBlock elseBlock? span =>
      cases elseBlock? with
      | none => exact keptMap List.mem_cons_self found
      | some elseBlock =>
          obtain ⟨body, thenFound, found⟩ := Option.bind_eq_some_iff.mp found
          obtain ⟨otherwise, elseFound, rfl⟩ := Option.map_eq_some_iff.mp found
          have thenKept := kept thenBlock List.mem_cons_self body thenFound
          have elseKept := kept elseBlock (by simp [Stmt.blocks]) otherwise elseFound
          simp [Stmt.tree?, thenKept, elseKept]

namespace Program

/-- Every block of `program` stands under its number in `larger` too. -/
def Extends (larger program : Program) : Prop :=
  ∀ id block, program.block? id = some block → larger.block? id = some block

theorem Extends.refl (program : Program) : program.Extends program :=
  fun _ _ found => found

theorem unfoldBlock?_mono {program larger : Program} (extension : larger.Extends program)
    {depth deeper : Nat} (enough : depth ≤ deeper) {id : BlockId} {trees : List Tree}
    (found : program.unfoldBlock? depth id = some trees) :
    larger.unfoldBlock? deeper id = some trees := by
  induction depth generalizing deeper id trees with
  | zero => simp [unfoldBlock?] at found
  | succ depth inductionHypothesis =>
      match deeper, enough with
      | deeper + 1, enough =>
          obtain ⟨block, here, unfolded⟩ := Option.bind_eq_some_iff.mp found
          refine Option.bind_eq_some_iff.mpr ⟨block, extension id block here, ?_⟩
          rw [mapM_eq_some_iff_forall₂] at unfolded ⊢
          refine unfolded.imp fun stmt tree treeFound => ?_
          apply Stmt.tree?_mono _ treeFound
          intro inner _ innerTrees innerFound
          exact inductionHypothesis (Nat.le_of_succ_le_succ enough) innerFound

/-- The block unfolds to these trees, however deep it has to be followed. -/
def Unfolds (program : Program) (id : BlockId) (trees : List Tree) : Prop :=
  ∃ depth, program.unfoldBlock? depth id = some trees

theorem Unfolds.extend {program larger : Program} (extension : larger.Extends program)
    {id : BlockId} {trees : List Tree} (unfolds : program.Unfolds id trees) :
    larger.Unfolds id trees := by
  obtain ⟨depth, found⟩ := unfolds
  exact ⟨depth, unfoldBlock?_mono extension (Nat.le_refl depth) found⟩

end Program

/-! ### Statement by statement -/

/-- The tree of a statement, given what its blocks unfold to. -/
inductive Stmt.Unfolds (program : Program) : Stmt → Tree → Prop where
  | action (letter : Char) (span : Span) :
      Unfolds program (.action letter span) (.action letter)
  | block {id : BlockId} {body : List Tree} (unfolds : program.Unfolds id body) :
      Unfolds program (.block id) (.block body)
  | repeated {count : UInt32} {id : BlockId} {span : Span} {body : List Tree}
      (unfolds : program.Unfolds id body) :
      Unfolds program (.repeated count id span) (.repeated count body)
  | conditional {condition : Ident} {id : BlockId} {span : Span} {body : List Tree}
      (unfolds : program.Unfolds id body) :
      Unfolds program (.conditional condition id none span) (.conditional condition.name body)
  | alternative {condition : Ident} {id other : BlockId} {span : Span}
      {body otherwise : List Tree} (unfolds : program.Unfolds id body)
      (otherUnfolds : program.Unfolds other otherwise) :
      Unfolds program (.conditional condition id (some other) span)
        (.alternative condition.name body otherwise)
  | loop {condition : Ident} {id : BlockId} {span : Span} {body : List Tree}
      (unfolds : program.Unfolds id body) :
      Unfolds program (.loop condition id span) (.loop condition.name body)

theorem Stmt.Unfolds.extend {program larger : Program} (extension : larger.Extends program)
    {stmt : Stmt} {tree : Tree} (unfolds : stmt.Unfolds program tree) :
    stmt.Unfolds larger tree := by
  cases unfolds with
  | action letter span => exact .action letter span
  | block body => exact .block (body.extend extension)
  | repeated body => exact .repeated (body.extend extension)
  | conditional body => exact .conditional (body.extend extension)
  | alternative body other => exact .alternative (body.extend extension) (other.extend extension)
  | loop body => exact .loop (body.extend extension)

theorem Stmt.unfolds_iff {program : Program} {stmt : Stmt} {tree : Tree} :
    stmt.Unfolds program tree ↔
      ∃ depth, stmt.tree? (program.unfoldBlock? depth) = some tree := by
  constructor
  · intro unfolds
    cases unfolds with
    | action letter span => exact ⟨0, rfl⟩
    | block body =>
        obtain ⟨depth, found⟩ := body
        exact ⟨depth, by simp [Stmt.tree?, found]⟩
    | repeated body =>
        obtain ⟨depth, found⟩ := body
        exact ⟨depth, by simp [Stmt.tree?, found]⟩
    | conditional body =>
        obtain ⟨depth, found⟩ := body
        exact ⟨depth, by simp [Stmt.tree?, found]⟩
    | loop body =>
        obtain ⟨depth, found⟩ := body
        exact ⟨depth, by simp [Stmt.tree?, found]⟩
    | alternative body other =>
        -- Two blocks may need different depths; the greater one serves both.
        obtain ⟨depth, found⟩ := body
        obtain ⟨deeper, otherFound⟩ := other
        have bodyAgain :=
          Program.unfoldBlock?_mono (.refl program) (Nat.le_max_left depth deeper) found
        have otherAgain :=
          Program.unfoldBlock?_mono (.refl program) (Nat.le_max_right depth deeper) otherFound
        exact ⟨max depth deeper, by simp [Stmt.tree?, bodyAgain, otherAgain]⟩
  · rintro ⟨depth, found⟩
    cases stmt with
    | action letter span =>
        obtain rfl := Option.some.inj found
        exact .action letter span
    | block id =>
        obtain ⟨body, unfolds, rfl⟩ := Option.map_eq_some_iff.mp found
        exact .block ⟨depth, unfolds⟩
    | repeated count id span =>
        obtain ⟨body, unfolds, rfl⟩ := Option.map_eq_some_iff.mp found
        exact .repeated ⟨depth, unfolds⟩
    | loop condition id span =>
        obtain ⟨body, unfolds, rfl⟩ := Option.map_eq_some_iff.mp found
        exact .loop ⟨depth, unfolds⟩
    | conditional condition id other? span =>
        cases other? with
        | none =>
            obtain ⟨body, unfolds, rfl⟩ := Option.map_eq_some_iff.mp found
            exact .conditional ⟨depth, unfolds⟩
        | some other =>
            obtain ⟨body, unfolds, found⟩ := Option.bind_eq_some_iff.mp found
            obtain ⟨otherwise, otherUnfolds, rfl⟩ := Option.map_eq_some_iff.mp found
            exact .alternative ⟨depth, unfolds⟩ ⟨depth, otherUnfolds⟩

/-- A statement unfolds if the blocks that it refers to do. -/
theorem Stmt.exists_unfolds {program : Program} (stmt : Stmt)
    (blocksUnfold : ∀ id ∈ stmt.blocks, ∃ trees, program.Unfolds id trees) :
    ∃ tree, stmt.Unfolds program tree := by
  cases stmt with
  | action letter span => exact ⟨_, .action letter span⟩
  | block id =>
      obtain ⟨body, unfolds⟩ := blocksUnfold id List.mem_cons_self
      exact ⟨_, .block unfolds⟩
  | repeated count id span =>
      obtain ⟨body, unfolds⟩ := blocksUnfold id List.mem_cons_self
      exact ⟨_, .repeated unfolds⟩
  | loop condition id span =>
      obtain ⟨body, unfolds⟩ := blocksUnfold id List.mem_cons_self
      exact ⟨_, .loop unfolds⟩
  | conditional condition id other? span =>
      obtain ⟨body, unfolds⟩ := blocksUnfold id List.mem_cons_self
      cases other? with
      | none => exact ⟨_, .conditional unfolds⟩
      | some other =>
          obtain ⟨otherwise, otherUnfolds⟩ := blocksUnfold other (by simp [Stmt.blocks])
          exact ⟨_, .alternative unfolds otherUnfolds⟩

namespace Program

/-- One depth serves all statements of a list. -/
theorem exists_depth {program : Program} {stmts : List Stmt} {trees : List Tree}
    (stmtsUnfold : List.Forall₂ (Stmt.Unfolds program) stmts trees) :
    ∃ depth, stmts.mapM (Stmt.tree? (program.unfoldBlock? depth)) = some trees := by
  simp only [mapM_eq_some_iff_forall₂]
  induction stmtsUnfold with
  | nil => exact ⟨0, .nil⟩
  | cons first _ inductionHypothesis =>
      obtain ⟨depth, found⟩ := Stmt.unfolds_iff.mp first
      obtain ⟨deeper, rest⟩ := inductionHypothesis
      refine ⟨max depth deeper, .cons ?_ (rest.imp fun stmt tree treeFound => ?_)⟩
      · apply Stmt.tree?_mono _ found
        intro _ _ _
        exact unfoldBlock?_mono (.refl program) (Nat.le_max_left depth deeper)
      · apply Stmt.tree?_mono _ treeFound
        intro _ _ _
        exact unfoldBlock?_mono (.refl program) (Nat.le_max_right depth deeper)

/-- A block unfolds exactly as its statements do, one after the other. -/
theorem unfolds_iff {program : Program} {id : BlockId} {trees : List Tree} :
    program.Unfolds id trees ↔
      ∃ block, program.block? id = some block ∧
        List.Forall₂ (Stmt.Unfolds program) block.stmts.toList trees := by
  constructor
  · rintro ⟨depth, found⟩
    cases depth with
    | zero => simp [unfoldBlock?] at found
    | succ depth =>
        obtain ⟨block, here, unfolded⟩ := Option.bind_eq_some_iff.mp found
        rw [mapM_eq_some_iff_forall₂] at unfolded
        refine ⟨block, here, unfolded.imp ?_⟩
        intro stmt tree treeFound
        exact Stmt.unfolds_iff.mpr ⟨depth, treeFound⟩
  · rintro ⟨block, here, stmtsUnfold⟩
    obtain ⟨depth, unfolded⟩ := exists_depth stmtsUnfold
    exact ⟨depth + 1, Option.bind_eq_some_iff.mpr ⟨block, here, unfolded⟩⟩

/-! ### How deep a table can be -/

/-- Every block refers only to blocks with smaller numbers. -/
def Descending (program : Program) : Prop :=
  ∀ (index : Nat) (block : Block), program.blocks[index]? = some block →
    ∀ stmt ∈ block.stmts.toList, ∀ id ∈ stmt.blocks, id.number.toNat < index

theorem Descending.unfoldBlock? {program : Program} (descending : program.Descending)
    {id : BlockId} {trees : List Tree} (unfolds : program.Unfolds id trees) :
    program.unfoldBlock? (id.number.toNat + 1) id = some trees := by
  obtain ⟨depth, found⟩ := unfolds
  induction depth generalizing id trees with
  | zero => simp [Program.unfoldBlock?] at found
  | succ depth inductionHypothesis =>
      obtain ⟨block, here, unfolded⟩ := Option.bind_eq_some_iff.mp found
      refine Option.bind_eq_some_iff.mpr ⟨block, here, ?_⟩
      rw [mapM_eq_some_iff_forall₂] at unfolded ⊢
      have inBlock := (List.forall₂_and_left block.stmts.toList trees).mpr
        ⟨fun stmt (member : stmt ∈ block.stmts.toList) => member, unfolded⟩
      refine inBlock.imp fun stmt tree => ?_
      rintro ⟨member, treeFound⟩
      apply Stmt.tree?_mono _ treeFound
      intro inner refers innerTrees innerFound
      have below := descending id.number.toNat block here stmt member inner refers
      exact unfoldBlock?_mono (.refl program) below (inductionHypothesis innerFound)

/-- In a table whose blocks refer downwards, every block unfolds: those that it refers to do so by
induction on their numbers. -/
theorem Descending.exists_unfolds {program : Program} (descending : program.Descending)
    {id : BlockId} (inTable : id.number.toNat < program.blocks.size) :
    ∃ trees, program.Unfolds id trees := by
  induction bound : id.number.toNat using Nat.strongRecOn generalizing id with
  | ind number inductionHypothesis =>
      subst bound
      obtain ⟨block, here⟩ : ∃ block, program.block? id = some block :=
        ⟨_, Array.getElem?_eq_getElem inTable⟩
      have each : ∀ stmt ∈ block.stmts.toList, ∃ tree, stmt.Unfolds program tree := by
        intro stmt member
        apply stmt.exists_unfolds
        intro inner refers
        have below := descending _ block here stmt member inner refers
        exact inductionHypothesis _ below (Nat.lt_trans below inTable) rfl
      obtain ⟨trees, stmtsUnfold⟩ := exists_forall₂ each
      exact ⟨trees, unfolds_iff.mpr ⟨block, here, stmtsUnfold⟩⟩

/-- The size of the table is depth enough for the top level. -/
theorem unfold?_eq_some {program : Program} (descending : program.Descending)
    {trees : List Tree} (unfolds : program.Unfolds program.root trees) :
    program.unfold? = some trees := by
  obtain ⟨block, here, -⟩ := unfolds_iff.mp unfolds
  have inTable : program.root.number.toNat < program.blocks.size := by
    obtain ⟨inTable, -⟩ := Array.getElem?_eq_some_iff.mp here
    exact inTable
  exact unfoldBlock?_mono (.refl program) inTable (descending.unfoldBlock? unfolds)

end Program

end RobotScript
