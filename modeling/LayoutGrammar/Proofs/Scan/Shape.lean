import LayoutGrammar.Proofs.Scan.Offside
import LayoutGrammar.Proofs.Scan.Orderly

/-!
# The shape of a token stream

The kinds of the tokens of a text are those of some logical lines and the end of the text, so that the marks
among them are in order (`kinds_of_ofSource`).  The lines are those that the text is laid out in.
-/

namespace LayoutGrammar

open LogicalLine

/-- The kind of a lexeme that is not a mark. -/
def PlainLexeme.kind (l : PlainLexeme) : PlainKind := ⟨l.val.kind, l.property⟩

/-- The kind of a part of a stream. -/
def Part.kind : Part → Terminal
  | .inl l => l.val.kind
  | .inr kind => kind

theorem Lexeme.kind_part (l : Lexeme) : l.part.kind = l.kind := by
  unfold part
  split <;> rfl

theorem Lexeme.exists_kinds_of_ofText {text : List Char} {found : List Lexeme}
    (h : Lexeme.ofText text = .ok found) :
  ∃ lines, found.map Lexeme.kind = kinds lines ++ [.eof]
  := by
  rcases Lexeme.exists_isLaidOut_or_cause text with ⟨lines, -, hparts⟩ | ⟨fault, _, hfault, -⟩
  · have hkinds : found.map Lexeme.kind = (found.map Lexeme.part).map Part.kind := by
      simp [Lexeme.kind_part]
    have hitem (l : PlainLexeme) : Part.kind (.inl l) = l.kind.val := rfl
    have hmark (kind : Terminal) : Part.kind (.inr kind) = id kind := rfl
    use mapEach PlainLexeme.kind lines
    rw [hkinds, hparts found h, List.map_append, map_streamEach hitem hmark lines]
    rfl
  · simp [hfault] at h

/-- The kinds of the tokens of a source are those of some logical lines, and of the end of the text, so that
the marks among them are where they should be. -/
theorem kinds_of_ofSource (source file : String) (tokens : List Token)
    (h : Token.ofSource source file = .ok tokens) :
  (∃ lines, tokens.map Token.kind = kinds lines ++ [.eof]) ∧ Orderly (tokens.map Token.kind)
  := by
  obtain ⟨lexemes, hlexemes, rfl⟩ := Token.ofSource_eq_ok_iff.mp h
  obtain ⟨lines, hlines⟩ := Lexeme.exists_kinds_of_ofText hlexemes
  have hkinds : (lexemes.map (Token.ofLexeme file)).map Token.kind = kinds lines ++ [.eof] := by
    rw [← hlines, List.map_map]
    rfl
  rw [hkinds]
  constructor
  · use lines
  · apply orderly_kinds

/-- A block, with comments, an empty line and a literal of two lines in it. -/
def quotedBlock : String := "if x then // two\n\n  print \"a\n b\"\n// end\n  y"

/-- The literal is on one logical line, and the comments and the empty line are on none. -/
theorem kinds_quotedBlock :
  ∃ tokens, Token.ofSource quotedBlock "block" = .ok tokens
    ∧ tokens.map Token.kind = [.ifWord, .identifier, .thenWord, .endOfLine, .indent, .printWord, .string,
      .endOfLine, .identifier, .endOfLine, .dedent, .endOfLine, .eof]
    ∧ (∃ lines, tokens.map Token.kind = kinds lines ++ [.eof]) ∧ Orderly (tokens.map Token.kind)
  := by
  have hkinds : (Token.ofSource quotedBlock "block").toOption.map (List.map Token.kind)
      = some [.ifWord, .identifier, .thenWord, .endOfLine, .indent, .printWord, .string, .endOfLine,
        .identifier, .endOfLine, .dedent, .endOfLine, .eof] := by
    decide +kernel
  obtain ⟨tokens, htokens, hkinds⟩ := Option.map_eq_some_iff.mp hkinds
  have hsource : Token.ofSource quotedBlock "block" = .ok tokens := by
    cases h : Token.ofSource quotedBlock "block" <;> simp_all [Except.toOption]
  use tokens, hsource, hkinds
  apply kinds_of_ofSource _ _ _ hsource

end LayoutGrammar
