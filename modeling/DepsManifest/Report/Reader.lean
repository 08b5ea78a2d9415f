import DepsManifest.Json.Reader
import DepsManifest.Report.Writer
/-! # Reading reports

A report is read from any JSON object that has its members; further members are ignored. What may be
left out may also be null. Inside a report a record may be written as the array of its members in
order, and a word as an object whose only member has that name and is null.

Once a text is JSON its schema is looked at first, so a report of another schema is refused as such,
even if it could not be read. Whatever else is wrong is one fault (`ReportFault.malformed`). A
payload can be any JSON value and is kept as it was read; an absent payload is null.
-/
namespace DepsManifest

namespace Json

/-- The members of a record in the order of their names, each absent or present; in an array all of
them are present. -/
def recordMembers? (names : List String) : Json → Option (List (Option Json))
  | .obj members => some (names.map fun name => members.lookup name)
  | .arr items => if items.length = names.length then some (items.map some) else none
  | _ => none

/-- The word that a JSON value stands for. -/
def word? : Json → Option String
  | .str s => some s
  | .obj [(name, .null)] => some name
  | _ => none

/-- A number of 32 bits. -/
def asUInt32? : Json → Option UInt32
  | .num (.integer i) => if 0 ≤ i ∧ i.toNat < UInt32.size then some (.ofNat i.toNat) else none
  | _ => none

def asArray? : Json → Option (List Json)
  | .arr items => some items
  | _ => none

/-- What is read from a member that must be present. -/
def required {α : Type} (read : Json → Option α) (member : Option Json) : Option α :=
  member.bind read

/-- What is read from a member that may be absent or null. -/
def optional {α : Type} (read : Json → Option α) : Option Json → Option (Option α)
  | none => some none
  | some .null => some none
  | some j => (read j).map some

end Json

def Severity.ofWord? (word : String) : Option Severity :=
  [Severity.info, .warning, .error].find? (·.word == word)

def Verdict.ofWord? (word : String) : Option Verdict :=
  [Verdict.pass, .warn, .fail].find? (·.word == word)

/-- The place that a JSON value describes. -/
def Location.ofJson? (j : Json) : Option Location := do
  match ← j.recordMembers? ["path", "line", "col"] with
  | [path, line, column] =>
    return ⟨← Json.required Json.asString? path, ← Json.optional Json.asUInt32? line,
      ← Json.optional Json.asUInt32? column⟩
  | _ => none

namespace Finding

/-- The names of a finding's members, in order, without the payload. -/
def memberNames : List String :=
  ["severity", "check_id", "code", "message", "location", "help", "fingerprint"]

/-- The members of a finding; the payload may be missing even from an array. -/
def members? (j : Json) : Option (List (Option Json)) :=
  j.recordMembers? (memberNames ++ ["data"])
    <|> (j.recordMembers? memberNames).map (· ++ [none])

/-- The finding that a JSON value describes. -/
def ofJson? (j : Json) : Option Finding := do
  match ← members? j with
  | [severity, checkId, code, message, location, help, fingerprint, data] =>
    return {
      severity := ← Json.required (fun j => j.word?.bind Severity.ofWord?) severity
      checkId := ← Json.required Json.asString? checkId
      code := ← Json.required Json.asString? code
      message := ← Json.required Json.asString? message
      location := ← Json.optional Location.ofJson? location
      help := ← Json.optional Json.asString? help
      fingerprint := ← Json.optional Json.asString? fingerprint
      data := data.getD .null }
  | _ => none

end Finding

def Tool.ofJson? (j : Json) : Option Tool := do
  match ← j.recordMembers? ["name", "version"] with
  | [name, version] =>
    return ⟨← Json.required Json.asString? name, ← Json.required Json.asString? version⟩
  | _ => none

def Summary.ofJson? (j : Json) : Option Summary := do
  let names :=
    ["profile", "manifests_scanned", "findings_total", "findings_emitted", "truncated_reason"]
  match ← j.recordMembers? names with
  | [profile, scanned, total, emitted, truncation] =>
    return {
      profile := ← Json.required Json.asString? profile
      manifestsScanned := ← Json.required Json.asUInt32? scanned
      findingsTotal := ← Json.required Json.asUInt32? total
      findingsEmitted := ← Json.required Json.asUInt32? emitted
      truncation := ← Json.optional Json.asString? truncation }
  | _ => none

/-- Why a text is no report. -/
inductive ReportFault where
  | notJson
  | unknownSchema (schema : String)
  | malformed
  deriving DecidableEq

namespace Report

/-- The time stamp that a JSON value holds. -/
def timestamp? (j : Json) : Option Timestamp := j.asString?.bind Timestamp.ofText?

/-- The report that a JSON value describes, its schema aside. -/
def ofJson? (j : Json) : Option Report := do
  match ← j.recordMembers? ["tool", "started_at", "finished_at", "verdict", "findings", "data"] with
  | [tool, startedAt, finishedAt, verdict, findings, summary] =>
    let items ← Json.required Json.asArray? findings
    return {
      tool := ← Json.required Tool.ofJson? tool
      startedAt := ← Json.required timestamp? startedAt
      finishedAt := ← Json.required timestamp? finishedAt
      verdict := ← Json.required (fun j => j.word?.bind Verdict.ofWord?) verdict
      findings := ← items.mapM Finding.ofJson?
      summary := ← Json.required Summary.ofJson? summary }
  | _ => none

/-- The schema that a JSON value names; nothing that it names is the empty one. -/
def schemaOf (j : Json) : String := ((j.member? "schema").bind Json.asString?).getD ""

/-- The report that a text denotes. -/
def ofText (text : String) : Except ReportFault Report :=
  match Json.read? text with
  | none => .error .notJson
  | some j =>
    if schemaOf j ≠ schema then .error (.unknownSchema (schemaOf j))
    else
      match ofJson? j with
      | none => .error .malformed
      | some report => .ok report

end Report

end DepsManifest
