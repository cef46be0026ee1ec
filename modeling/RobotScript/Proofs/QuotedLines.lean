/-
Module: RobotScript.Proofs.QuotedLines
Purpose: A complaint quotes the line it is about. Two counts of lines meet here: the reader counts
  lines and columns in characters while it goes along, and the source finds a line as the slice
  between two byte offsets. The slices are the pieces of the text between its line feeds, whatever
  characters stand in them; so the line with the number that the reader has counted exists and is
  the one that the blamed token stands in, at the column that the reader has counted. Carriage
  returns are blanks, so removing them from the end of the line takes nothing away from the token.
Main exports: slice_of_line, SourceFile.line?_eq, splitOn_getElem?_count, prefix_rdropWhile,
  Token.Stands, lex_stands, TokenStream.problems_at_tokens, Token.Stands.line?_eq,
  complaints_quote_their_line
-/
import RobotScript.Proofs.ComplaintOrder

namespace RobotScript

/-! ### Slices between line starts -/

/-- No line has a line feed in it. -/
theorem lineFeed_not_mem_of_mem_splitOn (text : List Char) :
    ∀ line ∈ text.splitOn '\n', '\n' ∉ line := by
  induction text with
  | nil => simp
  | cons c rest inductionHypothesis =>
      rw [List.splitOn_cons_eq_if_modifyHead]
      by_cases lineFeed : c = '\n'
      · rw [if_pos (beq_iff_eq.mpr lineFeed), List.forall_mem_cons]
        exact ⟨List.not_mem_nil, inductionHypothesis⟩
      · rw [if_neg (by simpa using lineFeed)]
        obtain ⟨line, others, shape⟩ :=
          List.exists_cons_of_ne_nil (List.splitOn_ne_nil '\n' rest)
        rw [shape, List.forall_mem_cons] at inductionHypothesis
        rw [shape, List.modifyHead_cons, List.forall_mem_cons]
        refine ⟨?_, inductionHypothesis.2⟩
        rw [List.mem_cons, not_or]
        exact ⟨Ne.symm lineFeed, inductionHypothesis.1⟩

/-- Lines that are joined by line feeds begin at as many offsets as there are lines. -/
theorem length_lineStartsFrom {lines : List (List Char)} (nonempty : lines ≠ [])
    (noLineFeed : ∀ line ∈ lines, '\n' ∉ line) (offset : Nat) :
    (lineStartsFrom offset (['\n'].intercalate lines)).length = lines.length := by
  induction lines generalizing offset with
  | nil => exact absurd rfl nonempty
  | cons line lines inductionHypothesis =>
      rw [List.forall_mem_cons] at noLineFeed
      cases lines with
      | nil =>
          rw [List.intercalate_singleton, lineStartsFrom_line noLineFeed.1]
          rfl
      | cons next lines =>
          rw [List.intercalate_cons_cons, List.append_assoc, List.singleton_append,
            lineStartsFrom_line_append noLineFeed.1, List.length_cons,
            inductionHypothesis (List.cons_ne_nil _ _) noLineFeed.2]
          rfl

/-- Of lines that are joined by line feeds behind another text, each begins at its byte offset, and
ends one byte before the next one begins, or with the last. -/
theorem slice_of_line {lines : List (List Char)} (noLineFeed : ∀ line ∈ lines, '\n' ∉ line)
    {index : Nat} {line : List Char} (found : lines[index]? = some line) (before : List Char) :
    let text := ['\n'].intercalate lines
    let starts := lineStartsFrom (byteSize before) text
    ∃ front back, text = front ++ line ++ back ∧
      starts[index]? = some (byteSize (before ++ front)) ∧
      (starts[index + 1]?.map (· - 1)).getD (byteSize (before ++ text)) =
        byteSize (before ++ (front ++ line)) := by
  induction lines generalizing index before with
  | nil => cases found
  | cons first lines inductionHypothesis =>
      rw [List.forall_mem_cons] at noLineFeed
      cases lines with
      | nil =>
          obtain ⟨rfl, rfl⟩ : index = 0 ∧ first = line := by
            cases index with
            | zero => exact ⟨rfl, Option.some.inj found⟩
            | succ index => cases found
          refine ⟨[], [], ?_⟩
          simp [lineStartsFrom_line noLineFeed.1]
      | cons next lines =>
          have text : ['\n'].intercalate (first :: next :: lines) =
              first ++ '\n' :: ['\n'].intercalate (next :: lines) := by
            rw [List.intercalate_cons_cons, List.append_assoc, List.singleton_append]
          have nextStart : byteSize before + byteSize first + 1 =
              byteSize (before ++ first ++ ['\n']) := by
            rw [byteSize_append, byteSize_append]
            rfl
          have starts := lineStartsFrom_line_append noLineFeed.1 (byteSize before)
            (['\n'].intercalate (next :: lines))
          rw [nextStart] at starts
          dsimp only
          rw [text, starts]
          cases index with
          | zero =>
              obtain rfl : first = line := Option.some.inj found
              refine ⟨[], '\n' :: ['\n'].intercalate (next :: lines), rfl, ?_, ?_⟩
              · rw [List.append_nil]
                rfl
              · rw [← nextStart]
                simp [lineStartsFrom]
          | succ index =>
              obtain ⟨front, back, whole, start, stop⟩ :=
                inductionHypothesis noLineFeed.2 found (before ++ first ++ ['\n'])
              refine ⟨first ++ '\n' :: front, back, ?_, ?_, ?_⟩
              · rw [whole]
                simp
              · rw [List.getElem?_cons_succ, start]
                simp
              · rw [List.getElem?_cons_succ]
                simpa using stop

/-- The line that the source finds by its byte offsets is the piece between line feeds with that
number, without the carriage returns at its end. -/
theorem SourceFile.line?_eq (source : SourceFile) {number : UInt32} (notZero : number ≠ 0) :
    source.line? number =
      (source.text.toList.splitOn '\n')[number.toNat - 1]?.map fun line =>
        String.ofList (dropTrailingReturns line) := by
  have joined : ['\n'].intercalate (source.text.toList.splitOn '\n') = source.text.toList :=
    List.intercalate_splitOn '\n'
  have noLineFeed := lineFeed_not_mem_of_mem_splitOn source.text.toList
  rw [SourceFile.line?, if_neg notZero]
  cases found : (source.text.toList.splitOn '\n')[number.toNat - 1]? with
  | none =>
      have noStart : source.lineStarts[number.toNat - 1]? = none := by
        have count := length_lineStartsFrom (List.splitOn_ne_nil '\n' _) noLineFeed 0
        rw [joined] at count
        rw [List.getElem?_eq_none_iff] at found ⊢
        exact count.trans_le found
      simp [noStart]
  | some line =>
      obtain ⟨front, back, whole, start, stop⟩ := slice_of_line noLineFeed found []
      rw [joined] at whole start stop
      simp only [List.nil_append, byteSize_nil, byteSize_toList] at start stop
      have slice := sliceBytes?_append front line back
      rw [← whole] at slice
      simp only [SourceFile.lineStarts, start, stop, slice, Option.bind_eq_bind, Option.bind_some,
        Option.map_some]
      rfl

/-! ### Lines of a text -/

/-- There is one line more than there are line feeds. -/
theorem length_splitOn_lineFeed (text : List Char) :
    (text.splitOn '\n').length = text.count '\n' + 1 := by
  induction text with
  | nil => rfl
  | cons c rest inductionHypothesis =>
      rw [List.splitOn_cons_eq_if_modifyHead, List.count_cons]
      split
      · rw [List.length_cons, inductionHypothesis]
      · rw [List.length_modifyHead, inductionHypothesis]

theorem splitOn_getElem?_zero (text : List Char) :
    (text.splitOn '\n')[0]? = some (text.takeWhile (· != '\n')) := by
  induction text with
  | nil => rfl
  | cons c rest inductionHypothesis =>
      rw [List.splitOn_cons_eq_if_modifyHead, List.takeWhile_cons]
      by_cases lineFeed : c = '\n'
      · subst lineFeed
        rfl
      · simp only [beq_iff_eq, lineFeed, if_false, bne_iff_ne, ne_eq, not_false_eq_true, if_true,
          List.getElem?_modifyHead_zero, inductionHypothesis, Option.map_some]

/-- As many lines come before a place of a text as there are line feeds before it, and the line of
that place is what stands around it up to the next line feeds. -/
theorem splitOn_getElem?_count (before rest : List Char) :
    ((before ++ rest).splitOn '\n')[before.count '\n']? =
      some (before.rtakeWhile (· != '\n') ++ rest.takeWhile (· != '\n')) := by
  induction before using List.reverseRecOn generalizing rest with
  | nil => exact splitOn_getElem?_zero rest
  | append_singleton before c inductionHypothesis =>
      rw [List.append_assoc, List.singleton_append, List.count_append, List.rtakeWhile_concat]
      by_cases lineFeed : c = '\n'
      · subst lineFeed
        have behind : (before.splitOn '\n').length = before.count '\n' + ['\n'].count '\n' :=
          length_splitOn_lineFeed before
        rw [List.splitOn_append_cons_self, ← behind, List.getElem?_append_right (Nat.le_refl _),
          Nat.sub_self]
        exact splitOn_getElem?_zero rest
      · have sameLine : [c].count '\n' = 0 :=
          List.count_eq_zero.mpr fun member => lineFeed (List.mem_singleton.mp member).symm
        have goesOn : (c :: rest).takeWhile (· != '\n') = c :: rest.takeWhile (· != '\n') :=
          List.takeWhile_cons_of_pos (bne_iff_ne.mpr lineFeed)
        rw [sameLine, Nat.add_zero, inductionHypothesis, goesOn, if_pos (bne_iff_ne.mpr lineFeed),
          List.append_assoc, List.singleton_append]

/-- What ends in a character that is kept is kept. -/
theorem prefix_rdropWhile {drops : Char → Bool} {kept : List Char}
    (stays : ∀ c, kept.getLast? = some c → drops c = false) (tail : List Char) :
    kept <+: (kept ++ tail).rdropWhile drops := by
  induction tail using List.reverseRecOn with
  | nil =>
      have whole : kept.rdropWhile drops = kept := by
        rw [List.rdropWhile_eq_self_iff]
        intro nonempty dropped
        cases (stays _ (List.getLast?_eq_some_getLast nonempty)).symm.trans dropped
      refine ⟨[], ?_⟩
      rw [List.append_nil, whole]
  | append_singleton tail c inductionHypothesis =>
      rw [← List.append_assoc, List.rdropWhile_concat]
      split
      · exact inductionHypothesis
      · rw [List.append_assoc]
        exact List.prefix_append _ _

/-! ### Tokens in their lines -/

/-- Where a token stands: the text before it, the lexeme it was read from, which is empty at the end
of the file only, and the text after it. -/
structure Token.Stands (token : Token) (before lexeme after : List Char) : Prop where
  place : token.span.StartsAfter before
  noBlank : ∀ c ∈ lexeme, isBlank c = false
  spelt : token.kind ≠ .endOfFile → lexeme ≠ [] ∧ token.kind.Spells lexeme after

theorem lex_stands (text : String) (short : text.length < 2 ^ 32 - 1) :
    ∀ token ∈ lex text, ∃ before lexeme after,
      text.toList = before ++ (lexeme ++ after) ∧ token.Stands before lexeme after := by
  rcases lex_cut text with ⟨pieces, trailing, whole, tokens, cut⟩
  have size : UInt32.size = 2 ^ 32 := rfl
  have fewChars : text.toList.length + 1 < UInt32.size := by
    rw [String.length_toList]
    omega
  intro token member
  rw [tokens] at member
  rcases List.mem_append.mp member with inPieces | last
  · rcases List.mem_map.mp inPieces with ⟨piece, inside, rfl⟩
    rcases List.append_of_mem inside with ⟨earlier, later, rfl⟩
    have fits := cut.fits
    rw [List.nil_append] at fits
    rcases fits.scanned with ⟨named, scanned⟩
    have split : text.toList = Piece.charsOfAll earlier ++ piece.blanks ++
        (piece.lexeme ++ (Piece.charsOfAll later ++ trailing)) := by
      rw [← whole]
      simp [Piece.charsOfAll, Piece.chars]
    have shorter : (Piece.charsOfAll earlier ++ piece.chars).length + 1 < UInt32.size := by
      rw [split] at fewChars
      simp only [Piece.chars, List.length_append] at fewChars ⊢
      omega
    exact ⟨_, _, _, split, (fits.placed shorter).1, scanned.noBlank,
      fun _ => ⟨scanned.ne_nil, scanned.spells⟩⟩
  · rw [List.mem_singleton.mp last]
    have noChar : ∀ c ∈ ([] : List Char), isBlank c = false := List.forall_mem_nil _
    refine ⟨text.toList, [], [], by simp, ?_, noChar, fun noEnd => absurd rfl noEnd⟩
    exact Span.startsAfter_of_short fewChars rfl rfl rfl

theorem Token.Stands.line?_eq {token : Token} {before lexeme after : List Char}
    {source : SourceFile} (stands : token.Stands before lexeme after)
    (whole : source.text.toList = before ++ (lexeme ++ after)) :
    (source.text.toList.splitOn '\n')[token.span.startLine.toNat - 1]? =
        some (before.rtakeWhile (· != '\n') ++ (lexeme ++ after).takeWhile (· != '\n')) ∧
      source.line? token.span.startLine = some (String.ofList
        ((before.rtakeWhile (· != '\n') ++ (lexeme ++ after).takeWhile (· != '\n')).rdropWhile
          (· == '\r'))) := by
  have number := stands.place.startLine
  have index : token.span.startLine.toNat - 1 = before.count '\n' := by omega
  have notZero : token.span.startLine ≠ 0 := by
    intro zero
    rw [zero] at number
    have : (0 : UInt32).toNat = 0 := rfl
    omega
  have line := splitOn_getElem?_count before (lexeme ++ after)
  rw [index, whole]
  refine ⟨line, ?_⟩
  rw [source.line?_eq notZero, index, whole, line]
  rfl

/-- The lexeme of a token is found in its line without the carriage returns at the end, at the
column of the token. -/
theorem Token.Stands.lexeme_at_column {token : Token} {before lexeme after : List Char}
    (stands : token.Stands before lexeme after) (nonempty : lexeme ≠ []) :
    lexeme <+:
      ((before.rtakeWhile (· != '\n') ++ (lexeme ++ after).takeWhile (· != '\n')).rdropWhile
        (· == '\r')).drop (token.span.startCol.toNat - 1) := by
  have column : token.span.startCol.toNat - 1 = (before.rtakeWhile (· != '\n')).length := by
    rw [stands.place.startCol]
    omega
  have oneLine : ∀ c ∈ lexeme, (c != '\n') = true := by
    intro c member
    apply bne_iff_ne.mpr
    intro lineFeed
    subst lineFeed
    cases stands.noBlank _ member
  have stays : ∀ c, (before.rtakeWhile (· != '\n') ++ lexeme).getLast? = some c →
      (c == '\r') = false := by
    intro c last
    rw [List.getLast?_append_of_ne_nil _ nonempty] at last
    apply beq_false_of_ne
    intro isReturn
    subst isReturn
    cases stands.noBlank _ (List.mem_of_getLast? last)
  rw [List.takeWhile_append_of_pos oneLine, ← List.append_assoc, column]
  rcases prefix_rdropWhile stays (after.takeWhile (· != '\n')) with ⟨tail, kept⟩
  rw [← kept, List.append_assoc, List.drop_left]
  exact List.prefix_append _ _

/-! ### What complaints are about -/

/-- Every problem of a stream is about one of its tokens, or its end. -/
theorem TokenStream.problems_at_tokens (limit : Option Nat) (stream : TokenStream) :
    ∀ problem ∈ stream.problems limit,
      ∃ token ∈ withEnd stream.finish stream.tokens, token.span = problem.span := by
  have shorter {tokens rest : List Token} (takes : ∃ taken, taken ≠ [] ∧ tokens = taken ++ rest)
      (left : tokens <:+ stream.tokens) : rest <:+ stream.tokens := by
    rcases takes with ⟨taken, -, split⟩
    exact List.IsSuffix.trans ⟨taken, split.symm⟩ left
  rw [stream.problems_eq, List.forall_mem_append, List.forall_mem_map]
  constructor
  · apply TokenStream.found_forall (P := fun left => left <:+ stream.tokens)
      (Q := fun problem =>
        ∃ token ∈ withEnd stream.finish stream.tokens, token.span = problem.span)
    · intro state after tokens rest clean left
      exact shorter clean.takes left
    · intro state after tokens rest problem failed left
      refine ⟨shorter failed.takes left, ?_⟩
      rcases failed.blames.mem with ⟨blamed, member, place⟩
      rcases left with ⟨read, whole⟩
      refine ⟨blamed, ?_, place⟩
      rw [← whole, withEnd, List.append_assoc]
      exact List.mem_append_right read member
    · exact List.suffix_rfl
  · intro block nested
    rcases stream.finalState_halfway limit with ⟨left, ⟨⟨read, split, tracks⟩, -⟩, -⟩
    have listed : block.brace ∈ (bracesOf read).opening.map Brace.span := by
      rw [← tracks.nested]
      exact List.mem_map_of_mem nested
    rcases List.mem_map.mp listed with ⟨brace, isOpen, place⟩
    have stands := List.mem_of_getElem? ((bracesOf_stacked read).stands brace isOpen)
    refine ⟨⟨.openBrace, brace.span⟩, ?_, place⟩
    rw [withEnd, split]
    exact List.mem_append_left _ (List.mem_append_left left stands)

/-- Every stored complaint about a script of fewer than 2^32 - 1 characters names the script, is
about one of its tokens, and quotes the line of that token: the piece between line feeds with the
number that the token has counted, without carriage returns at its end. Such a line exists; and
unless the token is the end of the file, what it was read from stands in the line at the column that
the token has counted. -/
theorem complaints_quote_their_line (source : SourceFile)
    (short : source.text.length < 2 ^ 32 - 1) :
    ∀ diagnostic ∈ complaintsAbout source,
      diagnostic.file = source.name ∧
      ∃ token ∈ lex source.text, diagnostic.span = token.span ∧
      ∃ line, 1 ≤ diagnostic.span.startLine.toNat ∧
        (source.text.toList.splitOn '\n')[diagnostic.span.startLine.toNat - 1]? = some line ∧
        source.line? diagnostic.span.startLine =
          some (String.ofList (line.rdropWhile (· == '\r'))) ∧
        diagnostic.sourceLine = String.ofList (line.rdropWhile (· == '\r')) ∧
        (token.kind ≠ .endOfFile → ∃ before lexeme after,
          source.text.toList = before ++ (lexeme ++ after) ∧ token.span.StartsAfter before ∧
          lexeme ≠ [] ∧ token.kind.Spells lexeme after ∧
          lexeme <+: diagnostic.sourceLine.toList.drop (diagnostic.span.startCol.toNat - 1)) := by
  rw [complaintsAbout_eq, List.forall_mem_map]
  intro problem member
  have listed := List.mem_of_mem_take member
  rcases TokenStream.problems_at_tokens _ _ problem listed with ⟨token, inStream, place⟩
  have inText : token ∈ lex source.text := by
    rw [(TokenStream.ofList_lex source.text).1]
    exact inStream
  rcases lex_stands source.text short token inText with ⟨before, lexeme, after, whole, stands⟩
  rcases stands.line?_eq whole with ⟨line, quoted⟩
  have number := stands.place.startLine
  simp only [Problem.diagnose, ← place, quoted, Option.getD_some, String.toList_ofList]
  refine ⟨trivial, token, inText, rfl, _, by omega, line, rfl, rfl, ?_⟩
  intro noEnd
  rcases stands.spelt noEnd with ⟨nonempty, spelt⟩
  exact ⟨before, lexeme, after, whole, stands.place, nonempty, spelt,
    stands.lexeme_at_column nonempty⟩

/-- A stray brace behind letters of two bytes, in a line between lines that end in carriage
returns. -/
theorem complaints_quote_line_between_returns :
    let source : SourceFile := ⟨"aula", "A\r\nçé 3 \x7d\r\n"⟩
    let stray := Problem.diagnose source ⟨.unmatchedBrace, ⟨2, 6, 2, 6, 10⟩⟩
    source.text.length < 2 ^ 32 - 1 ∧ stray ∈ complaintsAbout source ∧
      stray.sourceLine = "çé 3 \x7d" ∧ ∃ token ∈ lex source.text, stray.span = token.span ∧
      ∃ line, (source.text.toList.splitOn '\n')[1]? = some line ∧
        source.line? 2 = some (String.ofList (line.rdropWhile (· == '\r'))) ∧
        stray.sourceLine = String.ofList (line.rdropWhile (· == '\r')) := by
  intro source stray
  have short : source.text.length < 2 ^ 32 - 1 := by decide +kernel
  have listed : stray ∈ complaintsAbout source := by decide +kernel
  rcases complaints_quote_their_line source short stray listed with
    ⟨-, token, inText, place, line, -, piece, found, quoted, -⟩
  exact ⟨short, listed, by decide +kernel, token, inText, place, line, piece, found, quoted⟩

end RobotScript
