import DepsManifest.Text.Basic
/-! # Texts as bytes

A text is stored as the bytes of its characters, one to four for each. An offset into the bytes is a
place in the text only if it stands between two characters.

Cutting at an offset therefore can fail, and so can taking a part between two offsets. It is defined
on characters and not on bytes, by counting down: what it gives is made of whole characters without
any reading of bytes.
-/
namespace DepsManifest.Text

def bytes (cs : List Char) : List UInt8 := cs.flatMap String.utf8EncodeChar

/-- A text cut at an offset into its bytes; nothing if the offset is beyond the end or inside a
character. -/
def cut? : Nat → List Char → Option (List Char × List Char)
  | 0, cs => some ([], cs)
  | _ + 1, [] => none
  | n + 1, c :: cs =>
    if c.utf8Size ≤ n + 1 then
      (cut? (n + 1 - c.utf8Size) cs).map fun (before, after) => (c :: before, after)
    else none

/-- The part of a text between two offsets into its bytes; nothing if they are out of order, or if
one of them is no place in the text. -/
def slice? (start stop : Nat) (cs : List Char) : Option (List Char) := do
  let (before, _) ← cut? stop cs
  let (_, part) ← cut? start before
  return part

end DepsManifest.Text
