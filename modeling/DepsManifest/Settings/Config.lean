import DepsManifest.NameMap
import DepsManifest.Toml.Reader
import DepsManifest.Value.Basic
/-! # Configurations

What a configuration file can say, each part of it optional. Keys that mean nothing are ignored,
unless a number out of range stands under them; a value of the wrong kind is a fault. A check can
also be given as the array of its two parts.

Words are kept as they stand: whether a profile or a severity exists is asked when settings are
made. The number of findings has to fit 32 bits. All faults of a configuration are alike, so reading
it gives a configuration or nothing.

A blank text is the empty configuration and never gets to the reader of documents. Blank means every
kind of blank that texts know, more than a document may have between its parts.
-/
namespace DepsManifest

/-- The value of a variable that is set from outside. -/
inductive CustomVar where
  | bool (b : Bool)
  | str (s : String)
  deriving DecidableEq, Inhabited

/-- A variable's value as a value of manifests. -/
def CustomVar.toValue : CustomVar → Value
  | .bool b => .bool b
  | .str s => .str s

/-- What a configuration says about a check. -/
structure CheckConfig where
  enabled : Option Bool
  severity : Option String
  deriving DecidableEq, Inhabited

structure Config where
  profile : Option String
  failOn : Option String
  maxFindings : Option Nat
  customVars : NameMap CustomVar
  checks : NameMap CheckConfig

namespace Config

/-- The configuration that says nothing. -/
def empty : Config := ⟨none, none, none, .empty, .empty⟩

instance : Inhabited Config := ⟨empty⟩

/-! ## Reading -/

/-- The entries of a table. A date or a time counts as a table with one entry, its text. -/
def entries? : Toml → Option (List (String × Toml))
  | .table entries => some entries
  | .dateTime text => some [("$__toml_private_datetime", .str text)]
  | _ => none

/-- Whether the entries that mean nothing can be passed over: a number out of range cannot. -/
def canIgnore (known : List String) (entries : List (String × Toml)) : Bool :=
  entries.all fun entry => known.contains entry.1 || entry.2.isInRange

/-- What is read from an entry that may be missing. -/
def optional? {α : Type} (read : Toml → Option α) (name : String) (entries : List (String × Toml)) :
    Option (Option α) :=
  match entries.lookup name with
  | none => some none
  | some v => (read v).map some

def text? : Toml → Option String
  | .str s => some s
  | _ => none

def bool? : Toml → Option Bool
  | .bool b => some b
  | _ => none

def number? : Toml → Option Nat
  | .int i => if 0 ≤ i ∧ i.toNat < UInt32.size then some i.toNat else none
  | _ => none

def customVar? : Toml → Option CustomVar
  | .bool b => some (.bool b)
  | .str s => some (.str s)
  | _ => none

/-- What entries say about a check. -/
def checkOfEntries? (entries : List (String × Toml)) : Option CheckConfig := do
  let enabled ← optional? bool? "enabled" entries
  let severity ← optional? text? "severity" entries
  if canIgnore ["enabled", "severity"] entries then some ⟨enabled, severity⟩ else none

/-- What a configuration says about a check. Of an array only the two parts are looked at. -/
def check? : Toml → Option CheckConfig
  | .arr [] => some ⟨none, none⟩
  | .arr [enabled] => do return ⟨some (← bool? enabled), none⟩
  | .arr (enabled :: severity :: _) => do
    return ⟨some (← bool? enabled), some (← text? severity)⟩
  | v => do checkOfEntries? (← entries? v)

/-- The map of a table with values of one kind. -/
def map? {α : Type} (read : Toml → Option α) (v : Toml) : Option (NameMap α) := do
  return NameMap.ofList (← (← entries? v).mapM fun e => do return (e.1, ← read e.2))

def keys : List String := ["profile", "fail_on", "max_findings", "custom_vars", "checks"]

/-- The configuration of the entries of a document. -/
def ofEntries? (entries : List (String × Toml)) : Option Config := do
  guard (canIgnore keys entries)
  return {
    profile := ← optional? text? "profile" entries
    failOn := ← optional? text? "fail_on" entries
    maxFindings := ← optional? number? "max_findings" entries
    customVars := (← optional? (map? customVar?) "custom_vars" entries).getD .empty
    checks := (← optional? (map? check?) "checks" entries).getD .empty }

/-- The configuration that a text denotes; a blank text says nothing. -/
def ofText? (text : String) : Option Config :=
  if text.toList.all Text.isBlank then some empty
  else do ofEntries? (← Toml.read? text)

end Config

end DepsManifest
