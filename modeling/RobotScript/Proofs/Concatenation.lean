/-
Module: RobotScript.Proofs.Concatenation
Purpose: Two scripts with a blank between them are one script. Its tokens are theirs, one after the
  other, since the first script does not end where a name is expected; so are its trees; and under
  one scope, where what comes next does not depend on what has been, a run of it is a run of the
  first and then of the second, of which only the last has to leave the program.
Main exports: kinds_lex_append, Walk.Uniform, Tree.walkBlock_uniform, Tree.walkBlock_append,
  scripts_concatenate
-/
import RobotScript.Proofs.RunCourse
import RobotScript.Proofs.SourceRoundTrip

namespace RobotScript

/-! ### Tokens -/

/-- The tokens of a text are those before the end of the file, and that. -/
theorem kinds_lex (text : String) :
    (lex text).map Token.kind = kindsBeforeEnd (lex text) ++ [.endOfFile] := by
  rcases lex_scanned text with ⟨tokens, lexed, scanned⟩
  have spelt : (lex text).map Token.kind = tokens.map Token.kind ++ [.endOfFile] := by
    rw [lexed, List.map_append]
    rfl
  have noEnd : ∀ kind ∈ tokens.map Token.kind, kind ≠ .endOfFile := by
    intro kind member
    rcases List.mem_map.mp member with ⟨token, inTokens, rfl⟩
    rcases scanned token inTokens with ⟨named, lexeme, after, isScanned⟩
    exact isScanned.kind_ne_endOfFile
  rw [kindsBeforeEnd_eq spelt noEnd, spelt]

theorem namedAfter_append (named : Bool) (first second : List TokenKind) :
    namedAfter named (first ++ second) = namedAfter (namedAfter named first) second :=
  List.foldl_append

/-- A statement ends with a letter or a brace, and no name is expected after these. -/
theorem Tree.namedAfter_kinds (tree : Tree) : namedAfter false tree.kinds = false := by
  cases tree <;> simp [Tree.kinds, namedAfter, TokenKind.introducesName]

theorem Tree.namedAfter_kindsOfAll (trees : List Tree) :
    namedAfter false (Tree.kindsOfAll trees) = false := by
  induction trees with
  | nil => rfl
  | cons tree trees inductionHypothesis =>
      rw [Tree.kindsOfAll_cons, namedAfter_append, tree.namedAfter_kinds, inductionHypothesis]

/-- With a blank between them, two texts have the tokens of the first and then those of the second,
unless the first ends where a name is expected. -/
theorem kinds_lex_append {first gap : String} (nonempty : gap ≠ "")
    (blanks : ∀ c ∈ gap.toList, isBlank c = true)
    (noName : namedAfter false (kindsBeforeEnd (lex first)) = false) (second : String) :
    kindsBeforeEnd (lex (first ++ gap ++ second)) =
      kindsBeforeEnd (lex first) ++ kindsBeforeEnd (lex second) := by
  have apart : StartsBlank (gap.toList ++ second.toList) := by
    cases chars : gap.toList with
    | nil => exact absurd (String.toList_eq_nil_iff.mp chars) nonempty
    | cons c later =>
        have blank : isBlank c = true := blanks c (by simp [chars])
        simpa [StartsBlank] using blank
  rcases tokensFrom_append false Position.start first.toList apart with ⟨tokens, alone, continued⟩
  -- At the seam the text begins with a blank, so it adds nothing to the last token before it.
  have firstKinds : tokens.map Token.kind = kindsBeforeEnd (lex first) := by
    have spelt := kinds_lex first
    rw [lex_eq_tokensFrom first, alone, List.map_append, ← alone, ← lex_eq_tokensFrom] at spelt
    exact List.append_cancel_right spelt
  have whole : (lex (first ++ gap ++ second)).map Token.kind =
      kindsBeforeEnd (lex first) ++ kindsBeforeEnd (lex second) ++ [.endOfFile] := by
    rw [lex_eq_tokensFrom, String.toList_append, String.toList_append, List.append_assoc, continued,
      tokensFrom_skip _ _ blanks, List.map_append, firstKinds, noName,
      kinds_tokensFrom_eq false _ Position.start, ← lex_eq_tokensFrom, kinds_lex,
      List.append_assoc]
  apply kindsBeforeEnd_eq whole
  intro kind member
  rcases List.mem_append.mp member with inFirst | inSecond
  · simpa using List.mem_takeWhile_imp inFirst
  · simpa using List.mem_takeWhile_imp inSecond

/-! ### Walks under one scope -/

namespace Walk

/-- The same walk after something else. -/
def after (letters : List Char) (gas : Nat) (walk : Walk) : Walk :=
  ⟨letters ++ walk.letters, gas + walk.gas, walk.ended⟩

/-- What comes next does not depend on what has been. -/
def Uniform (next : Walk → Walk) : Prop :=
  ∀ (letters : List Char) (gas : Nat) (walk : Walk),
    next (walk.after letters gas) = (next walk).after letters gas

namespace Uniform

variable {first second : Walk → Walk}

theorem spend : Uniform Walk.spend :=
  fun _ _ _ => rfl

theorem breakOff : Uniform Walk.breakOff :=
  fun _ _ _ => rfl

theorem act (letter : Char) : Uniform fun walk => walk.spend.act letter := by
  intro letters gas walk
  simp only [Walk.act, Walk.spend, after, List.append_assoc]
  rfl

/-- What comes after a unit of gas has been spent. -/
theorem spent (uniform : Uniform second) : Uniform fun walk => second walk.spend :=
  fun letters gas walk => uniform letters gas walk.spend

theorem andThen (uniform : Uniform first) (next : Uniform second) :
    Uniform fun walk => (first walk).andThen second := by
  intro letters gas walk
  have sameEnded : ((first walk).after letters gas).ended = (first walk).ended := rfl
  simp only [uniform letters gas walk, Walk.andThen, sameEnded]
  cases (first walk).ended with
  | true => exact next letters gas (first walk)
  | false => rfl

/-- A condition holds all the time or never. -/
theorem branch (holds : Bool) (uniform : Uniform first) (otherwise : Uniform second) :
    Uniform fun walk => if holds then first walk else second walk := by
  cases holds with
  | true => exact uniform
  | false => exact otherwise

theorem times (uniform : Uniform first) (count : Nat) : Uniform (Walk.times first count) := by
  induction count with
  | zero => exact fun _ _ _ => rfl
  | succ count inductionHypothesis => exact uniform.andThen inductionHypothesis

theorem whileHolds (uniform : Uniform first) (scope : Scope) (condition : String) (rounds : Nat) :
    Uniform (Walk.whileHolds (fun _ => scope) condition first rounds) := by
  have stays : Uniform fun walk => walk := fun _ _ _ => rfl
  induction rounds with
  | zero => exact breakOff.branch (scope.isTruthy condition) stays
  | succ rounds inductionHypothesis =>
      exact (uniform.andThen inductionHypothesis).branch (scope.isTruthy condition) stays

end Uniform

end Walk

mutual

theorem Tree.walk_uniform (scope : Scope) (rounds : Nat) :
    ∀ tree : Tree, Walk.Uniform (tree.walk (fun _ => scope) rounds)
  | .action letter => .act letter
  | .block body => (walkBlock_uniform scope rounds body).spent
  | .repeated count body => ((walkBlock_uniform scope rounds body).times count.toNat).spent
  | .conditional condition body =>
      (walkBlock_uniform scope rounds body).spent.branch (scope.isTruthy condition) .spend
  | .alternative condition body otherwise =>
      (walkBlock_uniform scope rounds body).spent.branch (scope.isTruthy condition)
        (walkBlock_uniform scope rounds otherwise).spent
  | .loop condition body =>
      ((walkBlock_uniform scope rounds body).whileHolds scope condition rounds).spent

/-- Under one scope a walk goes the same way wherever it starts. -/
theorem Tree.walkBlock_uniform (scope : Scope) (rounds : Nat) :
    ∀ trees : List Tree, Walk.Uniform (Tree.walkBlock (fun _ => scope) rounds trees)
  | [] => .spend
  | tree :: trees => (walk_uniform scope rounds tree).andThen (walkBlock_uniform scope rounds trees)

end

/-- A walk through two lists of statements is a walk through the second one from where the first one
was about to end. -/
theorem Tree.walkBlock_append {scopes : Nat → Scope} {rounds : Nat} {first : List Tree}
    {walk : Walk} (ended : (Tree.walkBlock scopes rounds first walk).ended = true)
    (second : List Tree) :
    ∃ middle : Walk, middle.spend = Tree.walkBlock scopes rounds first walk ∧
      Tree.walkBlock scopes rounds (first ++ second) walk =
        Tree.walkBlock scopes rounds second middle := by
  induction first generalizing walk with
  | nil => exact ⟨walk, rfl, rfl⟩
  | cons tree trees inductionHypothesis =>
      rw [List.cons_append, Tree.walkBlock, Tree.walkBlock]
      rw [Tree.walkBlock] at ended
      simp only [Walk.andThen] at ended ⊢
      split at ended
      · rename_i goesOn
        rw [if_pos goesOn, if_pos goesOn]
        exact inductionHypothesis ended
      · rename_i broken
        exact absurd ended broken

/-- Two walks that come to an end under one scope make one, which spares the first end. -/
theorem Tree.walkBlock_append_of_ended {scope : Scope} {rounds : Nat} {first second : List Tree}
    {firstLetters secondLetters : List Char} {firstGas secondGas : Nat}
    (firstWalks : Tree.walkBlock (fun _ => scope) rounds first .start =
      ⟨firstLetters, firstGas, true⟩)
    (secondWalks : Tree.walkBlock (fun _ => scope) rounds second .start =
      ⟨secondLetters, secondGas, true⟩) :
    Tree.walkBlock (fun _ => scope) rounds (first ++ second) .start =
      ⟨firstLetters ++ secondLetters, firstGas + secondGas - 1, true⟩ := by
  have ended : (Tree.walkBlock (fun _ => scope) rounds first .start).ended = true := by
    rw [firstWalks]
  rcases Tree.walkBlock_append ended second with ⟨⟨letters, gas, going⟩, ends, goesOn⟩
  rw [firstWalks, Walk.spend, Walk.mk.injEq] at ends
  rcases ends with ⟨rfl, rfl, rfl⟩
  have middle : Walk.start.after letters gas = ⟨letters, gas, true⟩ := by
    simp [Walk.after, Walk.start]
  have fromMiddle := Tree.walkBlock_uniform scope rounds second letters gas .start
  rw [secondWalks, middle] at fromMiddle
  have spared : gas + 1 + secondGas - 1 = gas + secondGas := by omega
  simp only [goesOn, fromMiddle, Walk.after, spared]

/-! ### Two scripts as one -/

theorem Tree.blockCountOfAll_append (first second : List Tree) :
    Tree.blockCountOfAll (first ++ second) =
      Tree.blockCountOfAll first + Tree.blockCountOfAll second := by
  simp only [← Tree.count_openBrace_kindsOfAll, Tree.kindsOfAll_append, List.count_append]

/-- Scripts compose by concatenation. Two scripts that are accepted, with fewer than 2^32 blocks
together, are accepted as one with any blanks between them, and its trees are those of the first
and then those of the second. Under every scope under which both come to an end without a limit,
so does the whole: it has the letters of both, in order, and takes the gas of both but for one
unit. The counters may have any capacities, as long as the last one has room for the whole. -/
theorem scripts_concatenate {first second : SourceFile} {firstProgram secondProgram : Program}
    (firstAccepted : parse first = .ok firstProgram)
    (secondAccepted : parse second = .ok secondProgram)
    (few : firstProgram.blocks.size + secondProgram.blocks.size < 2 ^ 32) {gap : String}
    (nonempty : gap ≠ "") (blanks : ∀ c ∈ gap.toList, isBlank c = true) (name : String) :
    ∃ program firstTrees secondTrees,
      parse ⟨name, first.text ++ gap ++ second.text⟩ = .ok program ∧
      firstProgram.unfold? = some firstTrees ∧ secondProgram.unfold? = some secondTrees ∧
      program.unfold? = some (firstTrees ++ secondTrees) ∧
      ∀ (scope : Scope) (firstCapacity secondCapacity capacity : Nat)
        (firstLetters secondLetters : List Char) (firstEnd secondEnd : Execution),
        (Execution.start firstProgram none).runWithin firstCapacity firstProgram scope =
          (.ok firstLetters, firstEnd) →
        (Execution.start secondProgram none).runWithin secondCapacity secondProgram scope =
          (.ok secondLetters, secondEnd) →
        firstEnd.gasUsed + secondEnd.gasUsed - 1 < capacity →
        (Execution.start program none).runWithin capacity program scope =
          (.ok (firstLetters ++ secondLetters),
            ⟨[], true, firstEnd.gasUsed + secondEnd.gasUsed - 1, none⟩) := by
  have firstFew : firstProgram.blocks.size ≤ UInt32.size := by
    rw [UInt32.size]
    omega
  have secondFew : secondProgram.blocks.size ≤ UInt32.size := by
    rw [UInt32.size]
    omega
  rcases kinds_of_parse firstAccepted firstFew with
    ⟨firstTrees, firstUnfolded, firstKinds, firstCount⟩
  rcases kinds_of_parse secondAccepted secondFew with
    ⟨secondTrees, secondUnfolded, secondKinds, secondCount⟩
  have noName : namedAfter false (kindsBeforeEnd (lex first.text)) = false := by
    rw [firstKinds]
    exact Tree.namedAfter_kindsOfAll firstTrees
  have kinds := kinds_lex_append nonempty blanks noName second.text
  rw [firstKinds, secondKinds, ← Tree.kindsOfAll_append] at kinds
  have wholeFew : Tree.blockCountOfAll (firstTrees ++ secondTrees) < UInt32.size := by
    rw [Tree.blockCountOfAll_append, UInt32.size]
    omega
  rcases parse_of_kinds kinds wholeFew name with ⟨program, accepted, unfolded⟩
  refine ⟨program, firstTrees, secondTrees, accepted, firstUnfolded, secondUnfolded, unfolded, ?_⟩
  intro scope _ _ capacity firstLetters secondLetters firstEnd secondEnd firstRuns secondRuns room
  have firstUnfolds : firstProgram.Unfolds firstProgram.root firstTrees := ⟨_, firstUnfolded⟩
  have secondUnfolds : secondProgram.Unfolds secondProgram.root secondTrees := ⟨_, secondUnfolded⟩
  have unfolds : program.Unfolds program.root (firstTrees ++ secondTrees) := ⟨_, unfolded⟩
  -- As many rounds as both runs together take gas are enough for either walk.
  have firstWalks := firstUnfolds.walk_of_run firstRuns (Nat.le_add_right _ secondEnd.gasUsed)
  have secondWalks := secondUnfolds.walk_of_run secondRuns (Nat.le_add_left _ firstEnd.gasUsed)
  exact unfolds.run_of_walk (Tree.walkBlock_append_of_ended firstWalks secondWalks) room

/-- A script that ends with the letter `s` and one that begins with the letter `e`: what stands at the
seam is no word. -/
theorem scripts_concatenate_at_letters :
    let first : SourceFile := ⟨"aula", "se luz \x7b A \x7d s"⟩
    let second : SourceFile := ⟨"aula", "e 2 \x7b B \x7d"⟩
    let scope := Scope.empty.set "luz" (.bool true)
    ∃ firstProgram secondProgram program,
      parse first = .ok firstProgram ∧ parse second = .ok secondProgram ∧
      parse ⟨"aula", first.text ++ "\n" ++ second.text⟩ = .ok program ∧
      (Execution.start program none).run program scope =
        (.ok ['A', 's', 'e', 'B', 'B'], ⟨[], true, 11, none⟩) := by
  intro first second scope
  have extract (source : SourceFile) (letters : List Char) (gas : Nat)
      (runs : (parse source).toOption.any (fun program =>
        let run := (Execution.start program none).runWithin 100 program scope
        program.blocks.size < 100 && run.1.toOption == some letters &&
          run.2 == ⟨[], true, gas, none⟩) = true) :
      ∃ program, parse source = .ok program ∧ program.blocks.size < 100 ∧
        (Execution.start program none).runWithin 100 program scope =
          (.ok letters, ⟨[], true, gas, none⟩) := by
    rcases (Option.any_eq_true _ _).mp runs with ⟨program, found, holds⟩
    simp only [Bool.and_eq_true, decide_eq_true_eq, beq_iff_eq] at holds
    rcases holds with ⟨⟨few, letters⟩, final⟩
    exact ⟨program, toOption_eq_some_iff.mp found, few,
      Prod.ext (toOption_eq_some_iff.mp letters) final⟩
  rcases extract first ['A', 's'] 5 (by decide +kernel) with
    ⟨firstProgram, firstAccepted, firstFew, firstRuns⟩
  rcases extract second ['e', 'B', 'B'] 7 (by decide +kernel) with
    ⟨secondProgram, secondAccepted, secondFew, secondRuns⟩
  have few : firstProgram.blocks.size + secondProgram.blocks.size < 2 ^ 32 := by omega
  have nonempty : "\n" ≠ "" := by decide
  have blanks : ∀ c ∈ "\n".toList, isBlank c = true := List.all_eq_true.mp (by decide)
  rcases scripts_concatenate firstAccepted secondAccepted few nonempty blanks "aula" with
    ⟨program, -, -, accepted, -, -, -, runs⟩
  exact ⟨firstProgram, secondProgram, program, firstAccepted, secondAccepted, accepted,
    runs scope 100 100 gasCapacity _ _ _ _ firstRuns secondRuns (by decide)⟩

end RobotScript
