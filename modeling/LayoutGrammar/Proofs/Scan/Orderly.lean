import LayoutGrammar.Proofs.Scan.Layout
import Mathlib.Data.List.Chain

/-!
# Order in a token stream

What may follow what in the stream of some logical lines and the end of the text, with no regard to how the
lines are nested (`Orderly`): the marks of blocks are balanced, a block starts after the end of a line and
is not empty, and the end of a line is marked once (`LogicalLine.orderly_kinds`).  It is shown on streams
read from left to right (`Flat`), where a place of the stream keeps nothing but the number of open blocks
and what was there before.
-/

namespace LayoutGrammar

open LogicalLine

/-- Whether a kind may come right after another one. -/
def MayFollow : Terminal → Terminal → Prop
  | .eof, _ => False
  | .indent, next => next.isMark = false
  | .dedent, next => next = .endOfLine
  | .endOfLine, next => next ≠ .endOfLine
  | _, next => next.isMark = false ∨ next = .endOfLine

/-- Whether the marks in a stream of kinds are where they should be. -/
structure Orderly (ks : List Terminal) : Prop where
  /-- A token or the end of the text comes first. -/
  head : ∀ kind ∈ ks.head?, kind.isMark = false ∨ kind = .eof
  /-- Every kind may come after the one before. -/
  isChain : ks.IsChain MayFollow
  /-- No block starts right after the end of another one. -/
  not_reopened : ¬ [.dedent, .endOfLine, .indent] <:+: ks
  /-- No block ends before it starts. -/
  nested : ∀ front, front <+: ks → front.count .dedent ≤ front.count .indent
  /-- All blocks end. -/
  balanced : ks.count .dedent = ks.count .indent
  /-- The end of the text comes once, at the end. -/
  last : ∃ front, ks = front ++ [.eof] ∧ .eof ∉ front

/-! ## Streams from left to right -/

/-- What was before a place in a stream. -/
inductive Before where
  /-- A token of a line. -/
  | token
  /-- The end of a line with tokens. -/
  | line
  /-- The end of a block, or nothing. -/
  | block

/-- Which kinds may be left in a stream, within a number of open blocks. -/
inductive Flat : (opened : Nat) → Before → List Terminal → Prop
  /-- The end of the text. -/
  | eof {before : Before} (hbefore : before ≠ .token) : Flat 0 before [.eof]
  /-- A token. -/
  | token {opened : Nat} {before : Before} {kind : Terminal} {ks : List Terminal}
      (hkind : kind.isMark = false) (more : Flat opened .token ks) : Flat opened before (kind :: ks)
  /-- The end of a line. -/
  | endOfLine {opened : Nat} {ks : List Terminal} (more : Flat opened .line ks) :
      Flat opened .token (.endOfLine :: ks)
  /-- The start of a block, before a token. -/
  | indent {opened : Nat} {kind : Terminal} {ks : List Terminal} (hkind : kind.isMark = false)
      (more : Flat (opened + 1) .block (kind :: ks)) : Flat opened .line (.indent :: kind :: ks)
  /-- The end of a block. -/
  | dedent {opened : Nat} {before : Before} {ks : List Terminal} (hbefore : before ≠ .token)
      (more : Flat opened .block ks) : Flat (opened + 1) before (.dedent :: .endOfLine :: ks)

section

variable {opened : Nat} {before : Before} {ks : List Terminal}

/-- After a line may come what may come after a block. -/
theorem Flat.afterLine (h : Flat opened .block ks) :
  Flat opened .line ks
  := by
  cases h with
  | eof => apply Flat.eof (by simp)
  | token hkind more => apply Flat.token hkind more
  | dedent _ more => apply Flat.dedent (by simp) more

theorem Flat.tokens (kinds : List PlainKind) (h : Flat opened .token ks) :
  Flat opened .token (kinds.map Subtype.val ++ ks)
  := by
  induction kinds with
  | nil => apply h
  | cons kind kinds ih => apply Flat.token kind.property ih

end

mutual

theorem LogicalLine.flat_stream {opened : Nat} {before : Before} {ks : List Terminal}
    (line : LogicalLine PlainKind) (h : Flat opened .block ks) :
  Flat opened before (line.stream Subtype.val id ++ ks)
  := by
  cases line with
  | mk first others block =>
    have hblock := flat_streamBlock block h
    have hline := Flat.tokens others (Flat.endOfLine hblock)
    rw [stream]
    apply Flat.token first.property
    simpa using hline

theorem LogicalLine.flat_streamBlock {opened : Nat} {ks : List Terminal}
    (block : List (LogicalLine PlainKind)) (h : Flat opened .block ks) :
  Flat opened .line (streamBlock Subtype.val id block ++ ks)
  := by
  cases block with
  | nil => apply h.afterLine
  | cons line lines =>
    have hlines := flat_streamEach lines (Flat.dedent (by simp) h)
    have hline : Flat (opened + 1) .block _ := flat_stream line hlines
    cases line with
    | mk first others inner =>
      have hblock := Flat.indent first.property (by simpa [stream] using hline)
      simpa [streamBlock, stream] using hblock

theorem LogicalLine.flat_streamEach {opened : Nat} {ks : List Terminal}
    (lines : List (LogicalLine PlainKind)) (h : Flat opened .block ks) :
  Flat opened .block (streamEach Subtype.val id lines ++ ks)
  := by
  cases lines with
  | nil => apply h
  | cons line lines =>
    rw [streamEach, List.append_assoc]
    apply flat_stream line (flat_streamEach lines h)

end

/-! ## What may follow what -/

section

variable {opened : Nat} {before : Before} {ks : List Terminal}

/-- Whether a kind may be what was before a place. -/
def Before.Is : Before → Terminal → Prop
  | token, kind => kind.isMark = false
  | line, kind | block, kind => kind = .endOfLine

theorem mayFollow_of_isMark {kind next : Terminal} (hkind : kind.isMark = false)
    (hnext : next.isMark = false ∨ next = .endOfLine) :
  MayFollow kind next
  := by
  cases kind <;> first | contradiction | exact hnext

theorem mayFollow_endOfLine {next : Terminal} (hnext : next ≠ .endOfLine) :
  MayFollow .endOfLine next
  := hnext

/-- Only the end of a line is before a place with no token before it. -/
theorem Before.Is.eq_endOfLine {last : Terminal} (h : before.Is last) (hbefore : before ≠ .token) :
  last = .endOfLine
  := by
  cases before with
  | token => contradiction
  | line | block => apply h

theorem Flat.isChain (h : Flat opened before ks) {last : Terminal} (hlast : before.Is last) :
  (last :: ks).IsChain MayFollow
  := by
  induction h generalizing last with
  | eof hbefore =>
    obtain rfl := hlast.eq_endOfLine hbefore
    simp [MayFollow]
  | @token _ before kind _ hkind _ ih =>
    rw [List.isChain_cons_cons]
    use ?_, ih hkind
    cases before with
    | token => apply mayFollow_of_isMark hlast (.inl hkind)
    | line | block =>
      obtain rfl := hlast
      apply mayFollow_endOfLine
      rintro rfl
      cases hkind
  | endOfLine _ ih =>
    rw [List.isChain_cons_cons]
    use mayFollow_of_isMark hlast (.inr rfl), ih rfl
  | indent hkind _ ih =>
    obtain rfl := hlast
    rw [List.isChain_cons_cons, List.isChain_cons_cons]
    use mayFollow_endOfLine (by simp), hkind, (ih rfl).tail
  | dedent hbefore _ ih =>
    obtain rfl := hlast.eq_endOfLine hbefore
    rw [List.isChain_cons_cons, List.isChain_cons_cons]
    use mayFollow_endOfLine (by simp), rfl, ih rfl

/-- A token or the end of the text comes first. -/
theorem Flat.head (h : Flat 0 .block ks) :
  ∀ kind ∈ ks.head?, kind.isMark = false ∨ kind = .eof
  := by
  cases h with
  | eof => simp
  | token hkind => simp [hkind]

/-- No block starts where another one ends. -/
theorem Flat.head_ne_indent (h : Flat opened .block ks) :
  ¬ [.indent] <+: ks
  := by
  cases h with
  | token hkind =>
    rw [List.prefix_cons_iff]
    rintro (h | ⟨_, h, -⟩)
    · cases h
    · cases h
      cases hkind
  | eof | dedent => simp

theorem Flat.not_reopened (h : Flat opened before ks) :
  ¬ [.dedent, .endOfLine, .indent] <:+: ks
  := by
  induction h with
  | eof => simp [List.infix_cons_iff]
  | token hkind _ ih =>
    rw [List.infix_cons_iff, List.cons_prefix_cons]
    rintro (⟨rfl, -⟩ | hinfix)
    · cases hkind
    · apply ih hinfix
  | endOfLine _ ih | indent _ _ ih => simpa [List.infix_cons_iff] using ih
  | dedent _ more ih => simpa [List.infix_cons_iff] using ⟨more.head_ne_indent, ih⟩

/-- Up to any place there are no more ends of blocks than are open and started. -/
theorem Flat.count_le (h : Flat opened before ks) {front : List Terminal} (hfront : front <+: ks) :
  front.count .dedent ≤ opened + front.count .indent
  := by
  induction h generalizing front with
  | eof =>
    obtain rfl | ⟨others, rfl, hothers⟩ := List.prefix_cons_iff.mp hfront
    · simp
    · obtain rfl := List.prefix_nil.mp hothers
      simp
  | @token _ _ kind _ hkind _ ih =>
    obtain rfl | ⟨others, rfl, hothers⟩ := List.prefix_cons_iff.mp hfront
    · simp
    · have hcounts := ih hothers
      cases kind <;> simp_all [Terminal.isMark]
  | endOfLine _ ih =>
    obtain rfl | ⟨others, rfl, hothers⟩ := List.prefix_cons_iff.mp hfront
    · simp
    · simpa using ih hothers
  | indent _ _ ih =>
    obtain rfl | ⟨others, rfl, hothers⟩ := List.prefix_cons_iff.mp hfront
    · simp
    · have hcounts := ih hothers
      rw [List.count_cons_self, List.count_cons_of_ne (by simp)]
      omega
  | @dedent opened _ _ _ _ ih =>
    obtain rfl | ⟨ended, rfl, hended⟩ := List.prefix_cons_iff.mp hfront
    · simp
    · obtain rfl | ⟨others, rfl, hothers⟩ := List.prefix_cons_iff.mp hended
      · simp
      · have hcounts := ih hothers
        simp only [List.count_cons_self, List.count_cons, reduceCtorEq, beq_iff_eq, if_false]
        omega

theorem Flat.count_eq (h : Flat opened before ks) :
  ks.count .dedent = opened + ks.count .indent
  := by
  induction h with
  | eof => simp
  | @token _ _ kind _ hkind _ ih => cases kind <;> simp_all [Terminal.isMark]
  | endOfLine _ ih => simpa using ih
  | indent _ _ ih =>
    rw [List.count_cons_self, List.count_cons_of_ne (by simp), ih]
    omega
  | dedent _ _ ih =>
    rw [List.count_cons_self]
    simp [ih]
    omega

theorem Flat.exists_last (h : Flat opened before ks) :
  ∃ front, ks = front ++ [.eof] ∧ .eof ∉ front
  := by
  induction h with
  | eof =>
    use []
    simp
  | @token _ _ kind _ hkind _ ih =>
    obtain ⟨front, rfl, hfront⟩ := ih
    use kind :: front, rfl
    rintro (_ | ⟨_, hmem⟩)
    · cases hkind
    · apply hfront hmem
  | endOfLine _ ih =>
    obtain ⟨front, rfl, hfront⟩ := ih
    use .endOfLine :: front, rfl
    simpa using hfront
  | indent _ _ ih =>
    obtain ⟨front, heq, hfront⟩ := ih
    use .indent :: front
    rw [heq]
    simpa using hfront
  | dedent _ _ ih =>
    obtain ⟨front, rfl, hfront⟩ := ih
    use .dedent :: .endOfLine :: front, rfl
    simpa using hfront

end

/-- The marks in the stream of some logical lines and the end of the text are where they should be. -/
theorem LogicalLine.orderly_kinds (lines : List (LogicalLine PlainKind)) :
  Orderly (kinds lines ++ [.eof])
  := by
  have hflat : Flat 0 .block (kinds lines ++ [.eof]) := flat_streamEach lines (Flat.eof (by simp))
  have hchain : (.endOfLine :: (kinds lines ++ [.eof])).IsChain MayFollow := hflat.isChain rfl
  constructor
  · apply hflat.head
  · apply hchain.tail
  · apply hflat.not_reopened
  · intro front hfront
    simpa using hflat.count_le hfront
  · simpa using hflat.count_eq
  · apply hflat.exists_last

end LayoutGrammar
