import DepsManifest.Toml.Quoted
import DepsManifest.Toml.Scalar
import DepsManifest.Toml.Table
/-! # Reading TOML

A document is a sequence of lines: entries, headers of tables, comments. An entry of the document
stands on one line. Arrays and inline tables may go over several lines, and with them the entries of
an inline table; both may have a comma after their last element. They are nested at most eighty
deep.

A text is cut into lines first, and these are then put into a document one after the other. The
first step knows nothing of tables, the second nothing of text; a document is refused in the one for
how it is written, in the other for a key that stands twice or a table that is opened twice. In an
inline table the second step is made at once, as no later line can add to it.
-/
namespace DepsManifest.Toml

/-! ## Values -/

/-- The elements of an array, at most a given number, up to its closing bracket. -/
def arrayItems? (value : List Char → Option (Toml × List Char)) :
    Nat → List Char → Option (List Toml × List Char)
  | 0, _ => none
  | n + 1, cs =>
    match skipLines cs with
    | ']' :: rest => some ([], rest)
    | cs => do
      let (item, rest) ← value cs
      match skipLines rest with
      | ',' :: rest => do
        let (items, rest) ← arrayItems? value n rest
        return (item :: items, rest)
      | ']' :: rest => return ([item], rest)
      | _ => none

/-- An entry: its keys, its value, and what follows. What may stand around its equals sign is given
as a function that takes it away. -/
def pair? (skip : List Char → List Char) (value : List Char → Option (Toml × List Char))
    (cs : List Char) : Option (List String × Toml × List Char) := do
  let (path, rest) ← keyPath? cs
  match skip rest with
  | '=' :: rest => do
    let (v, rest) ← value (skip rest)
    return (path, v, rest)
  | _ => none

/-- The entries of an inline table, at most a given number, up to its closing brace. -/
def inlineEntries? (value : List Char → Option (Toml × List Char)) (entries : Entries) :
    Nat → List Char → Option (Entries × List Char)
  | 0, _ => none
  | n + 1, cs =>
    match skipLines cs with
    | '}' :: rest => some (entries, rest)
    | cs => do
      let (path, v, rest) ← pair? skipLines value cs
      let entries ← entries.insertPath? v path
      match skipLines rest with
      | ',' :: rest => inlineEntries? value entries n rest
      | '}' :: rest => return (entries, rest)
      | _ => none

/-- The value that a text begins with, and what follows it, with at most a given nesting. -/
def value? : Nat → List Char → Option (Toml × List Char)
  | depth, '[' :: cs =>
    match depth with
    | 0 => none
    | depth + 1 => do
      let (items, rest) ← arrayItems? (value? depth) (cs.length + 1) cs
      return (.arr items, rest)
  | depth, '{' :: cs =>
    match depth with
    | 0 => none
    | depth + 1 => do
      let (entries, rest) ← inlineEntries? (value? depth) [] (cs.length + 1) cs
      return (.table (Node.entriesToToml entries), rest)
  | _, c :: cs =>
    if isQuote c then (string? (c :: cs)).map fun (text, rest) => (.str (String.ofList text), rest)
    else scalar? (c :: cs)
  | _, [] => none

/-! ## Lines -/

inductive Line where
  | entry (path : List String) (value : Toml)
  | table (path : List String)
  | tables (path : List String)
  | blank

/-- The keys of a header up to its closing brackets, and what follows. -/
def header? (close : List Char) (cs : List Char) : Option (List String × List Char) := do
  let (path, rest) ← keyPath? cs
  return (path, ← Text.afterBeginning? close (skipSpaces rest))

/-- The line that a text begins with, and what follows it on the line. -/
def line : List Char → Option (Line × List Char)
  | '[' :: '[' :: cs => (header? [']', ']'] cs).map fun (path, rest) => (.tables path, rest)
  | '[' :: cs => (header? [']'] cs).map fun (path, rest) => (.table path, rest)
  | [] => some (.blank, [])
  | c :: cs =>
    if c = '#' ∨ c = '\n' ∨ c = '\r' then some (.blank, c :: cs)
    else
      (pair? skipSpaces (value? nestingLimit) (c :: cs)).map fun (path, v, rest) =>
        (.entry path v, rest)

/-- The lines of a document, at most a given number. -/
def lines? : Nat → List Char → Option (List Line)
  | 0, _ => none
  | n + 1, cs => do
    let (first, rest) ← line (skipSpaces cs)
    match skipComment (skipSpaces rest) with
    | [] => return [first]
    | rest => return first :: (← lines? n (← skipBreak? rest))

/-! ## Documents -/

structure Document where
  entries : Entries
  current : List String

/-- A document with one more line. -/
def Document.add? (d : Document) : Line → Option Document
  | .blank => some d
  | .entry path v => do
    return { d with entries := ← d.entries.within? (·.insertPath? v path) d.current }
  | .table path => do
    let key ← path.getLast?
    return ⟨← d.entries.within? (·.openTable? key) path.dropLast, path⟩
  | .tables path => do
    let key ← path.getLast?
    return ⟨← d.entries.within? (·.addTable? key) path.dropLast, path⟩

/-- A text without the mark of its byte order. -/
def skipMark : List Char → List Char
  | '\ufeff' :: cs => cs
  | cs => cs

/-- The entries of the document that a text denotes; nothing if it is none. -/
def read? (text : String) : Option (List (String × Toml)) := do
  let cs := skipMark text.toList
  let lines ← lines? (cs.length + 1) cs
  let d ← lines.foldlM Document.add? ⟨[], []⟩
  return Node.entriesToToml d.entries

end DepsManifest.Toml
