/-
Module: RobotScript.Proofs.NamePlaces
Purpose: Names stand where the parser takes them. The reader gives a name only right after a word
  that introduces one, and the parser takes such a word only together with the name behind it:
  recovery stops at these words, so it never leaves a name without its word. Hence every round
  begins at a token that the grammar has a use for or that has a complaint of its own, and the
  complaint about a token that begins no statement is never made.
Main exports: NamesAwaited, lex_namesAwaited, TokenStream.ofList_lex, NamesAwaited.recover,
  Round.namesAwaited, FailedRound.namesAwaited, scripts_have_no_unexpected_token
-/
import RobotScript.Proofs.ParserRounds
import RobotScript.Proofs.WrittenTokens

namespace RobotScript

/-! ### Where names are read -/

/-- A name may stand here only if one is expected; any other token may stand anywhere. -/
def TokenKind.Awaited (named : Bool) : TokenKind → Prop
  | .identifier _ => named = true
  | _ => True

/-- Names stand only where they are expected; `named` tells whether the first token may be one. -/
def NamesAwaited : Bool → List Token → Prop
  | _, [] => True
  | named, token :: rest =>
      token.kind.Awaited named ∧ NamesAwaited token.kind.introducesName rest

theorem Scanned.awaited {named : Bool} {kind : TokenKind} {lexeme after : List Char}
    (scanned : Scanned named kind lexeme after) : kind.Awaited named := by
  cases scanned with
  | digits =>
      simp only [numeral]
      split <;> trivial
  | name expected => exact expected
  | _ => trivial

theorem tokensFrom_namesAwaited (named : Bool) (position : Position) (cs : List Char) :
    NamesAwaited named (tokensFrom named position cs) := by
  fun_induction tokensFrom named position cs with
  | case1 named position => exact ⟨trivial, trivial⟩
  | case2 named position c cs blank inductionHypothesis => exact inductionHypothesis
  | case3 named position c cs notBlank lexeme stop inductionHypothesis =>
      have noBlank : isBlank c = false := by simpa using notBlank
      exact ⟨(scan_scanned named cs noBlank).awaited, inductionHypothesis⟩

/-- A name is read only right after a word that introduces one. -/
theorem lex_namesAwaited (text : String) : NamesAwaited false (lex text) := by
  rw [lex_eq_tokensFrom]
  exact tokensFrom_namesAwaited false Position.start text.toList

/-- What the parser reads of a text are its tokens up to the one for the end of the file, which is
the last one and the only one of its kind. -/
theorem TokenStream.ofList_lex (text : String) :
    lex text = (TokenStream.ofList (lex text)).tokens ++
        [⟨.endOfFile, (TokenStream.ofList (lex text)).finish⟩] ∧
      ∀ token ∈ (TokenStream.ofList (lex text)).tokens, token.kind ≠ .endOfFile := by
  rcases lex_scanned text with ⟨tokens, lexed, scanned⟩
  have noEnd : ∀ token ∈ tokens, token.kind ≠ .endOfFile := by
    intro token member
    rcases scanned token member with ⟨named, lexeme, after, isScanned⟩
    exact isScanned.kind_ne_endOfFile
  have cut : TokenStream.ofList (lex text) =
      ⟨tokens, (Position.start.advance text.toList).point⟩ := by
    rw [lexed]
    exact TokenStream.ofList_of_end noEnd rfl []
  rw [cut]
  exact ⟨lexed, noEnd⟩

/-! ### What rounds keep -/

namespace NamesAwaited

variable {named : Bool} {first rest : List Token}

theorem left (awaited : NamesAwaited named (first ++ rest)) : NamesAwaited named first := by
  induction first generalizing named with
  | nil => trivial
  | cons token later inductionHypothesis => exact ⟨awaited.1, inductionHypothesis awaited.2⟩

theorem right (awaited : NamesAwaited named (first ++ rest)) :
    NamesAwaited (namedAfter named (first.map Token.kind)) rest := by
  induction first generalizing named with
  | nil => exact awaited
  | cons token later inductionHypothesis => exact inductionHypothesis awaited.2

/-- Where a name is expected but does not come, none has to be expected. -/
theorem of_noName {finish : Span} (awaited : NamesAwaited named rest)
    (noName : ∀ name, (nextToken finish rest).kind ≠ .identifier name) :
    NamesAwaited false rest := by
  cases rest with
  | nil => trivial
  | cons token later =>
      refine ⟨?_, awaited.2⟩
      cases kind : token.kind with
      | identifier name => exact absurd kind (noName name)
      | _ => trivial

end NamesAwaited

theorem TokenKind.resumesAt_of_introducesName {kind : TokenKind}
    (introduces : kind.introducesName = true) : kind.resumesAt = true := by
  cases kind with
  | keyword word => cases word <;> first | rfl | cases introduces
  | _ => cases introduces

/-- Recovery stops at every word that introduces a name, so it leaves no name without its word. -/
theorem NamesAwaited.recover {rest : List Token} (awaited : NamesAwaited false rest) :
    NamesAwaited false (recover rest) := by
  induction rest with
  | nil => exact awaited
  | cons token later inductionHypothesis =>
      simp only [RobotScript.recover, List.dropWhile_cons]
      cases resumes : token.kind.resumesAt with
      | true => exact awaited
      | false =>
          have noWord : token.kind.introducesName = false := by
            by_contra introduces
            have stops := TokenKind.resumesAt_of_introducesName (by simpa using introduces)
            cases resumes.symm.trans stops
          have skipped := awaited.2
          rw [noWord] at skipped
          exact inductionHypothesis skipped

theorem Header.namedAfter_eq {read : List Token} {block : OpenBlock} (header : Header read block) :
    namedAfter false (read.map Token.kind) = false := by
  cases header <;> rfl

/-- A clean round ends with a letter or a brace, after which no name is expected. -/
theorem Round.namesAwaited {state after : ParseState} {tokens rest : List Token}
    (round : Round state tokens after rest) (awaited : NamesAwaited false tokens) :
    NamesAwaited false rest := by
  cases round with
  | acts letter span => exact awaited.2
  | opens header =>
      have later := awaited.right
      rw [header.namedAfter_eq] at later
      exact later
  | closes nested brace => exact awaited.2
  | reopens nested owned brace word openBrace => exact awaited.2.2.2

/-- A statement that is given up takes its name with it, unless no name came at all; and what it is
blamed for is not a name, nor the end of the file. -/
theorem Abandoned.namesAwaited {finish : Span} {rest read : List Token} {problem : Problem}
    (abandoned : Abandoned finish rest read problem) (awaited : NamesAwaited false (read ++ rest))
    (noEnd : ∀ token ∈ read, token.kind ≠ .endOfFile) :
    NamesAwaited false rest ∧ ∀ found, problem.cause ≠ .unexpectedToken found := by
  cases abandoned with
  | repeated count start noBlock => exact ⟨awaited.2, nofun⟩
  | nameless word introduces start noName => exact ⟨awaited.2.of_noName noName, nofun⟩
  | conditional condition start noBlock => exact ⟨awaited.2.2, nofun⟩
  | loop condition start noBlock => exact ⟨awaited.2.2, nofun⟩
  | strayElse word => exact ⟨awaited.2, nofun⟩
  | invalid text place => exact ⟨awaited.2, nofun⟩
  | strayName name place => cases awaited.1
  | strayEnd place => exact absurd rfl (noEnd _ List.mem_cons_self)

theorem FailedRound.namesAwaited {finish : Span} {state after : ParseState}
    {tokens rest : List Token} {problem : Problem}
    (failed : FailedRound finish state tokens problem after rest)
    (awaited : NamesAwaited false tokens) (noEnd : ∀ token ∈ tokens, token.kind ≠ .endOfFile) :
    NamesAwaited false rest ∧ ∀ found, problem.cause ≠ .unexpectedToken found := by
  cases failed with
  | unmatched outermost brace => exact ⟨awaited.2, nofun⟩
  | abandons abandoned =>
      have passed := abandoned.namesAwaited awaited fun token member =>
        noEnd token (List.mem_append_left _ member)
      exact ⟨passed.1.recover, passed.2⟩
  | elseless nested owned brace word noBlock blamed =>
      subst blamed
      exact ⟨NamesAwaited.recover awaited.2.2, nofun⟩

/-! ### Scripts -/

/-- However far a text is read, nothing is found in it that begins no statement. -/
theorem TokenStream.problems_expected (limit : Option Nat) (text : String) :
    ∀ problem ∈ (TokenStream.ofList (lex text)).problems limit,
      ∀ found, problem.cause ≠ .unexpectedToken found := by
  rcases TokenStream.ofList_lex text with ⟨whole, noEnd⟩
  have awaited := lex_namesAwaited text
  rw [whole] at awaited
  have fewer {tokens rest : List Token} (takes : ∃ taken, taken ≠ [] ∧ tokens = taken ++ rest)
      (noEnd : ∀ token ∈ tokens, token.kind ≠ .endOfFile) :
      ∀ token ∈ rest, token.kind ≠ .endOfFile := by
    rcases takes with ⟨taken, -, split⟩
    intro token member
    exact noEnd token (split ▸ List.mem_append_right taken member)
  rw [TokenStream.problems_eq, List.forall_mem_append, List.forall_mem_map]
  constructor
  · apply TokenStream.found_forall
      (P := fun left => NamesAwaited false left ∧ ∀ token ∈ left, token.kind ≠ .endOfFile)
      (Q := fun problem => ∀ found, problem.cause ≠ .unexpectedToken found)
    · intro state after tokens rest clean left
      exact ⟨clean.namesAwaited left.1, fewer clean.takes left.2⟩
    · intro state after tokens rest problem failed left
      have kept := failed.namesAwaited left.1 left.2
      exact ⟨⟨kept.1, fewer failed.takes left.2⟩, kept.2⟩
    · exact ⟨awaited.left, noEnd⟩
  · intro block nested found isUnexpected
    cases isUnexpected

theorem Cause.code_eq_unexpected_iff (cause : Cause) :
    cause.code = ⟨100⟩ ↔ ∃ found, cause = .unexpectedToken found := by
  cases cause <;> simp [Cause.code]

/-- No script is told that a token begins no statement, whatever else is wrong with it: not in the
complaints that are stored, nor in any that are counted only, however far it is read. -/
theorem scripts_have_no_unexpected_token (source : SourceFile) :
    ⟨100⟩ ∉ (complaintsAbout source).map Diagnostic.code ∧
      ∀ limit found, Cause.unexpectedToken found ∉
        ((TokenStream.ofList (lex source.text)).problems limit).map Problem.cause := by
  have expected := fun limit => TokenStream.problems_expected limit source.text
  constructor
  · rw [complaintsAbout_eq, List.map_map]
    intro listed
    rcases List.mem_map.mp listed with ⟨problem, member, isUnexpected⟩
    rcases (Cause.code_eq_unexpected_iff _).mp isUnexpected with ⟨found, cause⟩
    exact expected _ problem (List.mem_of_mem_take member) found cause
  · intro limit found listed
    rcases List.mem_map.mp listed with ⟨problem, member, isUnexpected⟩
    exact expected limit problem member found isUnexpected

/-- Words that introduce a name, with and without one, and a name without a block. -/
example : (complaintsAbout ⟨"aula", "se se sol luz 3 enquanto \x7d"⟩).map Diagnostic.code =
    [⟨103⟩, ⟨104⟩, ⟨104⟩, ⟨103⟩, ⟨102⟩] := by
  decide +kernel

/-- Tokens that were not read from a text may hold a name on its own. -/
example : (reportOn ⟨"aula", ""⟩ [⟨.identifier "sol", .origin⟩]).stored.map Diagnostic.code =
    [⟨100⟩] := by
  decide +kernel

end RobotScript
