import DepsManifest.Json.Printer
import DepsManifest.Report.Basic
/-! # Writing reports

A report is written as a JSON object, the members in a fixed order. What is absent is left out, and
so is the payload of a finding that has none.

Every part of a report has its document, and the document of the whole is put together from these.
The text is the indented one. The schema is written first; it is not part of the report itself, as
there is only one.
-/
namespace DepsManifest

/-- A member that is left out if it is absent. -/
def Json.optionalMember (name : String) : Option Json → List (String × Json)
  | some value => [(name, value)]
  | none => []

/-- A number of 32 bits. -/
def Json.ofUInt32 (n : UInt32) : Json := .ofNat n.toNat

def Location.document (l : Location) : Json :=
  .obj (("path", .str l.path) :: Json.optionalMember "line" (l.line.map .ofUInt32)
    ++ Json.optionalMember "col" (l.column.map .ofUInt32))

/-- A payload as it is written. -/
def Finding.payload? (f : Finding) : Option Json :=
  match f.data with
  | .null => none
  | data => some data

def Finding.document (f : Finding) : Json :=
  .obj ([("severity", .str f.severity.word), ("check_id", .str f.checkId), ("code", .str f.code),
      ("message", .str f.message)]
    ++ Json.optionalMember "location" (f.location.map Location.document)
    ++ Json.optionalMember "help" (f.help.map .str)
    ++ Json.optionalMember "fingerprint" (f.fingerprint.map .str)
    ++ Json.optionalMember "data" f.payload?)

def Summary.document (s : Summary) : Json :=
  .obj ([("profile", .str s.profile), ("manifests_scanned", .ofUInt32 s.manifestsScanned),
      ("findings_total", .ofUInt32 s.findingsTotal),
      ("findings_emitted", .ofUInt32 s.findingsEmitted)]
    ++ Json.optionalMember "truncated_reason" (s.truncation.map .str))

def Tool.document (t : Tool) : Json := .obj [("name", .str t.name), ("version", .str t.version)]

namespace Report

/-- A report as it is written. -/
def document (r : Report) : Json :=
  .obj [("schema", .str schema), ("tool", r.tool.document), ("started_at", .str r.startedAt.text),
    ("finished_at", .str r.finishedAt.text), ("verdict", .str r.verdict.word),
    ("findings", .arr (r.findings.map Finding.document)), ("data", r.summary.document)]

/-- The text of a report. -/
def serialized (r : Report) : String := r.document.indented

end Report

end DepsManifest
