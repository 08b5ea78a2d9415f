import DepsManifest.Toml.Basic
/-! # Tables under construction

A document is built entry by entry, and how a table came about decides what may still be added to
it. A table with a header of its own is opened once and not extended by keys with points. A table
that only lies on the way to another can still get its header, or be extended by keys with points;
once it is, it counts as made by them. A table made by keys with points is extended only by such
keys, and by headers of tables within it. A value, an inline table included, is never extended.

Several tables under one header are an array, and what comes after the header goes into the last of
them. Entries stay in the order in which their keys came first. Once the document is complete the
ways in which tables came about are forgotten (`Node.toToml`).
-/
namespace DepsManifest.Toml

/-- How a table came about. -/
inductive Origin where
  | header
  | passage
  | dotted
  deriving DecidableEq

/-- A value, or a table that may still grow. Of several tables under one header only the last
grows. -/
inductive Node where
  | value (v : Toml)
  | table (origin : Origin) (entries : List (String × Node))
  | tables (earlier : List (List (String × Node))) (last : List (String × Node))

abbrev Entries := List (String × Node)

namespace Entries

def replace (key : String) (node : Node) (entries : Entries) : Entries :=
  entries.map fun entry => if entry.1 = key then (key, node) else entry

/-- Entries with something done to the table that the keys of a header lead to. Tables that are not
there yet are made on the way; of several tables the last is entered. -/
def within? (f : Entries → Option Entries) : List String → Entries → Option Entries
  | [], entries => f entries
  | key :: keys, entries =>
    match entries.lookup key with
    | none => do
      let inner ← within? f keys []
      return entries ++ [(key, .table .passage inner)]
    | some (.table origin inner) => do
      let inner ← within? f keys inner
      return replace key (.table origin inner) entries
    | some (.tables earlier last) => do
      let last ← within? f keys last
      return replace key (.tables earlier last) entries
    | some (.value _) => none

/-- Entries with a table opened by its header. -/
def openTable? (key : String) (entries : Entries) : Option Entries :=
  match entries.lookup key with
  | none => some (entries ++ [(key, .table .header [])])
  | some (.table .passage inner) => some (replace key (.table .header inner) entries)
  | some _ => none

/-- Entries with one more table under a header that stands for several. -/
def addTable? (key : String) (entries : Entries) : Option Entries :=
  match entries.lookup key with
  | none => some (entries ++ [(key, .tables [] [])])
  | some (.tables earlier last) => some (replace key (.tables (earlier ++ [last]) []) entries)
  | some _ => none

/-- Entries with a value put under keys with points between them. -/
def insert? (v : Toml) (last : String) : List String → Entries → Option Entries
  | [], entries =>
    match entries.lookup last with
    | none => some (entries ++ [(last, .value v)])
    | some _ => none
  | key :: keys, entries =>
    match entries.lookup key with
    | none => do
      let inner ← insert? v last keys []
      return entries ++ [(key, .table .dotted inner)]
    | some (.table .header _) => none
    | some (.table _ inner) => do
      let inner ← insert? v last keys inner
      return replace key (.table .dotted inner) entries
    | some (.tables earlier inner) =>
      if keys.isEmpty then none
      else do
        let inner ← insert? v last keys inner
        return replace key (.tables earlier inner) entries
    | some (.value _) => none

/-- Entries with a value put under the keys of a key path. -/
def insertPath? (v : Toml) (path : List String) (entries : Entries) : Option Entries := do
  insert? v (← path.getLast?) path.dropLast entries

end Entries

mutual

def Node.toToml : Node → Toml
  | .value v => v
  | .table _ entries => .table (Node.entriesToToml entries)
  | .tables earlier last =>
    .arr (Node.tablesToToml earlier ++ [.table (Node.entriesToToml last)])

/-- Finished entries as the entries of a value. -/
def Node.entriesToToml : List (String × Node) → List (String × Toml)
  | [] => []
  | (key, node) :: rest => (key, node.toToml) :: Node.entriesToToml rest

/-- Finished tables as values. -/
def Node.tablesToToml : List (List (String × Node)) → List Toml
  | [] => []
  | entries :: rest => .table (Node.entriesToToml entries) :: Node.tablesToToml rest

end

end DepsManifest.Toml
