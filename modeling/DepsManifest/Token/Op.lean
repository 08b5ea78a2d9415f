/-! # Operators and delimiters

The fixed lexemes of a manifest that are no names: brackets, separators, operators and augmented
assignments. Each has one text. `Op.longestFirst` lists them so that a text stands before each of
its beginnings; the first of the list that a text begins with is then the longest.

Which brackets open, which close, and which close which is decided here too, since it is a matter of
the lexemes and not of the grammar. What an operator means is left to the parser; the same lexeme
can be a binary operator, a sign, or the mark of a starred argument.
-/
namespace DepsManifest

/-- An operator or delimiter. -/
inductive Op where
  | leftParen | rightParen | leftBracket | rightBracket | leftBrace | rightBrace
  | comma | colon | semicolon | dot | ellipsis | arrow | walrus | assign | atSign
  | plus | minus | star | doubleStar | slash | doubleSlash | percent
  | ampersand | bar | caret | tilde | shiftLeft | shiftRight
  | less | greater | lessEqual | greaterEqual | equal | notEqual
  | plusAssign | minusAssign | starAssign | doubleStarAssign | slashAssign | doubleSlashAssign
  | percentAssign | ampersandAssign | barAssign | caretAssign | shiftLeftAssign
  | shiftRightAssign | atAssign
  deriving DecidableEq, Inhabited

namespace Op

def chars : Op → List Char
  | leftParen => ['('] | rightParen => [')'] | leftBracket => ['['] | rightBracket => [']']
  | leftBrace => ['{'] | rightBrace => ['}'] | comma => [','] | colon => [':']
  | semicolon => [';'] | dot => ['.'] | ellipsis => ['.', '.', '.'] | arrow => ['-', '>']
  | walrus => [':', '='] | assign => ['='] | atSign => ['@'] | plus => ['+'] | minus => ['-']
  | star => ['*'] | doubleStar => ['*', '*'] | slash => ['/'] | doubleSlash => ['/', '/']
  | percent => ['%'] | ampersand => ['&'] | bar => ['|'] | caret => ['^'] | tilde => ['~']
  | shiftLeft => ['<', '<'] | shiftRight => ['>', '>'] | less => ['<'] | greater => ['>']
  | lessEqual => ['<', '='] | greaterEqual => ['>', '='] | equal => ['=', '=']
  | notEqual => ['!', '='] | plusAssign => ['+', '='] | minusAssign => ['-', '=']
  | starAssign => ['*', '='] | doubleStarAssign => ['*', '*', '='] | slashAssign => ['/', '=']
  | doubleSlashAssign => ['/', '/', '='] | percentAssign => ['%', '=']
  | ampersandAssign => ['&', '='] | barAssign => ['|', '='] | caretAssign => ['^', '=']
  | shiftLeftAssign => ['<', '<', '='] | shiftRightAssign => ['>', '>', '=']
  | atAssign => ['@', '=']

def text (op : Op) : String := String.ofList op.chars

/-- All operators, those of three characters first and those of one last. -/
def longestFirst : List Op :=
  [ellipsis, doubleStarAssign, doubleSlashAssign, shiftLeftAssign, shiftRightAssign,
    arrow, walrus, doubleStar, doubleSlash, shiftLeft, shiftRight, lessEqual, greaterEqual,
    equal, notEqual, plusAssign, minusAssign, starAssign, slashAssign, percentAssign,
    ampersandAssign, barAssign, caretAssign, atAssign,
    leftParen, rightParen, leftBracket, rightBracket, leftBrace, rightBrace, comma, colon,
    semicolon, dot, assign, atSign, plus, minus, star, slash, percent, ampersand, bar, caret,
    tilde, less, greater]

/-- The operator with a given text. -/
def ofChars? (cs : List Char) : Option Op := longestFirst.find? fun op => op.chars == cs

def opensGroup : Op → Bool
  | leftParen | leftBracket | leftBrace => true
  | _ => false

def closesGroup : Op → Bool
  | rightParen | rightBracket | rightBrace => true
  | _ => false

/-- Whether a closing bracket is of the kind of an opening one. -/
def closes : Op → Op → Bool
  | rightParen, leftParen => true
  | rightBracket, leftBracket => true
  | rightBrace, leftBrace => true
  | _, _ => false

end Op

end DepsManifest
