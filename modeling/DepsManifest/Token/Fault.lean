import DepsManifest.Text.Quoted
import DepsManifest.Token.Basic
/-! # Why a text cannot be read

A fault is a cause at a line. The name of the file is known only to whoever read the text; it is
added when the fault becomes a message.

The causes of all stages are one type, from a character that begins no token to an expression
without its end, so a text that cannot be read has a single fault whatever the stage. Causes hold
what the message needs as data: brackets and keywords and not their texts, the token that was found
and not its description.
-/
namespace DepsManifest

/-- A cause with the line it stands on. -/
structure Located (ε : Type) where
  line : Nat
  cause : ε
  deriving DecidableEq

def inFile (file : String) (line : Nat) (text : String) : String :=
  text ++ " (file " ++ Text.quoted file ++ ", line " ++ String.ofList (Text.decimal line) ++ ")"

/-- Why a text is no manifest. -/
inductive SyntaxFault where
  | unterminatedLiteral
  | invalidCharacter (c : Char)
  | truncatedEscape (marker : Char)
  | invalidCodePoint (marker : Char) (code : Nat)
  | mismatchedClose (close opening : Op)
  | unmatchedClose (close : Op)
  | neverClosed (opening : Op)
  | expectedOp (op : Op) (found : TokenKind)
  | expectedKeyword (keyword : String) (found : TokenKind)
  | unexpected (found : TokenKind)
  | mixedLiterals
  | tooDeep
  deriving DecidableEq

def SyntaxFault.message : SyntaxFault → String
  | unterminatedLiteral => "unterminated string literal"
  | invalidCharacter c => "invalid character " ++ Text.quotedChar c
  | truncatedEscape marker => "truncated \\" ++ marker.toString ++ " escape"
  | invalidCodePoint marker code =>
    "invalid \\" ++ marker.toString ++ " escape: code point 0x"
      ++ String.ofList (Text.hexadecimal code)
  | mismatchedClose close opening =>
    "closing '" ++ close.text ++ "' does not match opening '" ++ opening.text ++ "'"
  | unmatchedClose close => "unmatched '" ++ close.text ++ "'"
  | neverClosed opening => "'" ++ opening.text ++ "' was never closed"
  | expectedOp op found =>
    "invalid syntax: expected '" ++ op.text ++ "', found " ++ found.description
  | expectedKeyword keyword found =>
    "invalid syntax: expected '" ++ keyword ++ "', found " ++ found.description
  | unexpected found => "invalid syntax: unexpected " ++ found.description
  | mixedLiterals => "cannot mix bytes and nonbytes literals"
  | tooDeep => "expression nested too deeply"

end DepsManifest
