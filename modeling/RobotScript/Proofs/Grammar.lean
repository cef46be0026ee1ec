/-
Module: RobotScript.Proofs.Grammar
Purpose: The grammar of scripts as derivations, each with the tree it stands for. A derivation
  spells exactly the tokens its tree is printed with, and no token list has two trees: the token
  after a statement never continues it, because only `senao` could and no statement begins so.
Main exports: IsStatement, IsBlock, IsProgram, isProgram_iff, IsProgram.unique
-/
import RobotScript.Program.Tree

namespace RobotScript

mutual

/-- statement := ACTION | block | INTEGER block | "se" NAME block ("senao" block)?
  | "enquanto" NAME block -/
inductive IsStatement : List TokenKind → Tree → Prop where
  | action (letter : Char) : IsStatement [.action letter] (.action letter)
  | block {kinds : List TokenKind} {body : List Tree} (inner : IsBlock kinds body) :
      IsStatement kinds (.block body)
  | repeated {kinds : List TokenKind} {body : List Tree} (count : UInt32)
      (inner : IsBlock kinds body) :
      IsStatement (.integer count :: kinds) (.repeated count body)
  | conditional {kinds : List TokenKind} {body : List Tree} (name : String)
      (inner : IsBlock kinds body) :
      IsStatement (.keyword .se :: .identifier name :: kinds) (.conditional name body)
  | alternative {kinds others : List TokenKind} {body otherwise : List Tree} (name : String)
      (inner : IsBlock kinds body) (other : IsBlock others otherwise) :
      IsStatement (.keyword .se :: .identifier name :: (kinds ++ .keyword .senao :: others))
        (.alternative name body otherwise)
  | loop {kinds : List TokenKind} {body : List Tree} (name : String)
      (inner : IsBlock kinds body) :
      IsStatement (.keyword .enquanto :: .identifier name :: kinds) (.loop name body)

/-- block := open brace, statement*, close brace -/
inductive IsBlock : List TokenKind → List Tree → Prop where
  | braces {kinds : List TokenKind} {body : List Tree} (inner : IsProgram kinds body) :
      IsBlock (.openBrace :: (kinds ++ [.closeBrace])) body

/-- program := statement* -/
inductive IsProgram : List TokenKind → List Tree → Prop where
  | nil : IsProgram [] []
  | cons {first later : List TokenKind} {tree : Tree} {trees : List Tree}
      (head : IsStatement first tree) (tail : IsProgram later trees) :
      IsProgram (first ++ later) (tree :: trees)

end

/-! ### Derivations and printing -/

mutual

theorem IsStatement.kinds_eq : ∀ {kinds : List TokenKind} {tree : Tree},
    IsStatement kinds tree → kinds = tree.kinds
  | _, _, .action letter => rfl
  | _, _, .block inner => inner.kinds_eq
  | _, _, .repeated count inner => congrArg (.integer count :: ·) inner.kinds_eq
  | _, _, .conditional name inner =>
      congrArg (.keyword .se :: .identifier name :: ·) inner.kinds_eq
  | _, _, .alternative name inner other => by
      rw [inner.kinds_eq, other.kinds_eq]
      simp [Tree.kinds]
  | _, _, .loop name inner =>
      congrArg (.keyword .enquanto :: .identifier name :: ·) inner.kinds_eq

theorem IsBlock.kinds_eq : ∀ {kinds : List TokenKind} {body : List Tree},
    IsBlock kinds body → kinds = .openBrace :: (Tree.kindsOfAll body ++ [.closeBrace])
  | _, _, .braces inner => by
      rw [inner.kinds_eq]

theorem IsProgram.kinds_eq : ∀ {kinds : List TokenKind} {trees : List Tree},
    IsProgram kinds trees → kinds = Tree.kindsOfAll trees
  | _, _, .nil => rfl
  | _, _, .cons head tail => by
      rw [head.kinds_eq, tail.kinds_eq, Tree.kindsOfAll_cons]

end

mutual

theorem isStatement_kinds : ∀ tree : Tree, IsStatement tree.kinds tree
  | .action letter => .action letter
  | .block body => .block (.braces (isProgram_kindsOfAll body))
  | .repeated count body => .repeated count (.braces (isProgram_kindsOfAll body))
  | .conditional name body => .conditional name (.braces (isProgram_kindsOfAll body))
  | .alternative name body otherwise => by
      have derivation := IsStatement.alternative name (.braces (isProgram_kindsOfAll body))
        (.braces (isProgram_kindsOfAll otherwise))
      simpa [Tree.kinds] using derivation
  | .loop name body => .loop name (.braces (isProgram_kindsOfAll body))

theorem isProgram_kindsOfAll : ∀ trees : List Tree, IsProgram (Tree.kindsOfAll trees) trees
  | [] => .nil
  | tree :: trees => by
      rw [Tree.kindsOfAll_cons]
      exact .cons (isStatement_kinds tree) (isProgram_kindsOfAll trees)

end

/-- Deriving and printing are the same relation between tokens and trees. -/
theorem isProgram_iff {kinds : List TokenKind} {trees : List Tree} :
    IsProgram kinds trees ↔ kinds = Tree.kindsOfAll trees := by
  constructor
  · exact IsProgram.kinds_eq
  · rintro rfl
    exact isProgram_kindsOfAll trees

/-! ### No token list has two trees

Two printed trees that agree as beginnings of one token list are equal. The induction is on the
first of them; what follows a tree is kept general, and only two facts about it matter: after a
statement no `senao` comes, and after the statements of a block its closing brace or the end. -/

/-- What comes next is not an alternative for the statement just read. -/
def NoElse (rest : List TokenKind) : Prop :=
  rest.head? ≠ some (.keyword .senao)

/-- What comes next, if anything, closes the block. -/
def EndsBlock (rest : List TokenKind) : Prop :=
  ∀ kind ∈ rest.head?, kind = .closeBrace

theorem endsBlock_nil : EndsBlock [] := by
  simp [EndsBlock]

theorem endsBlock_closeBrace (rest : List TokenKind) : EndsBlock (.closeBrace :: rest) := by
  simp [EndsBlock]

theorem EndsBlock.noElse {rest : List TokenKind} (ends : EndsBlock rest) : NoElse rest := by
  intro continued
  have closes := ends _ continued
  cases closes

/-- A statement is printed with at least one token, and that token can begin a statement. -/
theorem Tree.kinds_eq_cons (tree : Tree) :
    ∃ first later, tree.kinds = first :: later ∧ first.startsStatement = true := by
  cases tree <;> exact ⟨_, _, rfl, rfl⟩

theorem EndsBlock.noElse_kindsOfAll {rest : List TokenKind} (ends : EndsBlock rest)
    (trees : List Tree) : NoElse (Tree.kindsOfAll trees ++ rest) := by
  cases trees with
  | nil => exact ends.noElse
  | cons tree trees =>
      obtain ⟨first, later, printed, starts⟩ := tree.kinds_eq_cons
      intro continued
      rw [Tree.kindsOfAll_cons, printed] at continued
      obtain rfl : first = .keyword .senao := by simpa using continued
      cases starts

theorem EndsBlock.not_kindsOfAll_cons {rest later : List TokenKind} (ends : EndsBlock rest)
    {tree : Tree} {trees : List Tree} (same : rest = Tree.kindsOfAll (tree :: trees) ++ later) :
    False := by
  obtain ⟨first, others, printed, starts⟩ := tree.kinds_eq_cons
  have closes : first = .closeBrace := ends first (by simp [same, printed])
  subst closes
  cases starts

mutual

theorem Tree.kinds_append_inj : ∀ (tree other : Tree) {rest later : List TokenKind},
    NoElse rest → NoElse later → tree.kinds ++ rest = other.kinds ++ later →
      tree = other ∧ rest = later
  | .action letter, other, rest, later, _, _, same => by
      cases other <;> simp_all [Tree.kinds]
  | .block body, other, rest, later, _, _, same => by
      cases other with
      | block otherBody =>
          simp only [Tree.kinds, List.cons_append, List.append_assoc, List.cons.injEq,
            true_and] at same
          obtain ⟨rfl, after⟩ := Tree.kindsOfAll_append_inj body otherBody
            (endsBlock_closeBrace _) (endsBlock_closeBrace _) same
          simpa using after
      | _ => simp [Tree.kinds] at same
  | .repeated count body, other, rest, later, _, _, same => by
      cases other with
      | repeated otherCount otherBody =>
          simp only [Tree.kinds, List.cons_append, List.append_assoc, List.cons.injEq,
            TokenKind.integer.injEq, true_and] at same
          obtain ⟨rfl, same⟩ := same
          obtain ⟨rfl, after⟩ := Tree.kindsOfAll_append_inj body otherBody
            (endsBlock_closeBrace _) (endsBlock_closeBrace _) same
          simpa using after
      | _ => simp [Tree.kinds] at same
  | .conditional name body, other, rest, later, noElse, _, same => by
      cases other with
      | conditional otherName otherBody =>
          simp only [Tree.kinds, List.cons_append, List.append_assoc, List.cons.injEq,
            TokenKind.identifier.injEq, true_and] at same
          obtain ⟨rfl, same⟩ := same
          obtain ⟨rfl, after⟩ := Tree.kindsOfAll_append_inj body otherBody
            (endsBlock_closeBrace _) (endsBlock_closeBrace _) same
          simpa using after
      | alternative otherName otherBody otherwise =>
          simp only [Tree.kinds, List.cons_append, List.append_assoc, List.cons.injEq,
            true_and] at same
          obtain ⟨-, after⟩ := Tree.kindsOfAll_append_inj body otherBody
            (endsBlock_closeBrace _) (endsBlock_closeBrace _) same.2
          simp only [List.cons.injEq, List.nil_append, true_and] at after
          simp [NoElse, after] at noElse
      | _ => simp [Tree.kinds] at same
  | .alternative name body otherwise, other, rest, later, _, noElse, same => by
      cases other with
      | conditional otherName otherBody =>
          simp only [Tree.kinds, List.cons_append, List.append_assoc, List.cons.injEq,
            true_and] at same
          obtain ⟨-, after⟩ := Tree.kindsOfAll_append_inj body otherBody
            (endsBlock_closeBrace _) (endsBlock_closeBrace _) same.2
          simp only [List.cons.injEq, List.nil_append, true_and] at after
          simp [NoElse, ← after] at noElse
      | alternative otherName otherBody otherOtherwise =>
          simp only [Tree.kinds, List.cons_append, List.append_assoc, List.cons.injEq,
            TokenKind.identifier.injEq, true_and] at same
          obtain ⟨rfl, same⟩ := same
          obtain ⟨rfl, after⟩ := Tree.kindsOfAll_append_inj body otherBody
            (endsBlock_closeBrace _) (endsBlock_closeBrace _) same
          simp only [List.cons.injEq, true_and] at after
          obtain ⟨rfl, after⟩ := Tree.kindsOfAll_append_inj otherwise otherOtherwise
            (endsBlock_closeBrace _) (endsBlock_closeBrace _) after
          simpa using after
      | _ => simp [Tree.kinds] at same
  | .loop name body, other, rest, later, _, _, same => by
      cases other with
      | loop otherName otherBody =>
          simp only [Tree.kinds, List.cons_append, List.append_assoc, List.cons.injEq,
            TokenKind.identifier.injEq, true_and] at same
          obtain ⟨rfl, same⟩ := same
          obtain ⟨rfl, after⟩ := Tree.kindsOfAll_append_inj body otherBody
            (endsBlock_closeBrace _) (endsBlock_closeBrace _) same
          simpa using after
      | _ => simp [Tree.kinds] at same

theorem Tree.kindsOfAll_append_inj : ∀ (trees others : List Tree) {rest later : List TokenKind},
    EndsBlock rest → EndsBlock later →
      Tree.kindsOfAll trees ++ rest = Tree.kindsOfAll others ++ later →
      trees = others ∧ rest = later
  | [], [], rest, later, _, _, same => ⟨rfl, same⟩
  | [], _ :: _, rest, later, ends, _, same => (ends.not_kindsOfAll_cons same).elim
  | _ :: _, [], rest, later, _, ends, same => (ends.not_kindsOfAll_cons same.symm).elim
  | tree :: trees, other :: others, rest, later, ends, laterEnds, same => by
      rw [Tree.kindsOfAll_cons, Tree.kindsOfAll_cons, List.append_assoc, List.append_assoc] at same
      obtain ⟨rfl, tails⟩ := Tree.kinds_append_inj tree other (ends.noElse_kindsOfAll trees)
        (laterEnds.noElse_kindsOfAll others) same
      obtain ⟨rfl, after⟩ := Tree.kindsOfAll_append_inj trees others ends laterEnds tails
      exact ⟨rfl, after⟩

end

/-- A token list is derived from one program at most. -/
theorem IsProgram.unique {kinds : List TokenKind} {trees others : List Tree}
    (one : IsProgram kinds trees) (two : IsProgram kinds others) : trees = others := by
  have printed := one.kinds_eq.symm.trans two.kinds_eq
  have padded : Tree.kindsOfAll trees ++ [] = Tree.kindsOfAll others ++ [] := by
    rw [printed]
  exact (Tree.kindsOfAll_append_inj trees others endsBlock_nil endsBlock_nil padded).1

end RobotScript
