import DepsManifest.Proofs.Policy.Order
import DepsManifest.Proofs.Report.Fields
import DepsManifest.Proofs.Timestamp
import DepsManifest.Report.Annotations
import DepsManifest.Report.Markdown
/-! # Reports survive the file

A report is read back from the file it is written to (`Report.ofText_serialized`), so whatever is
made of it, Markdown or annotations, can as well be made of the file (`Report.Survives`).
`Report.survives_file` says for which reports:

  * for that of any policy's outcome;
  * for that of any outcome at all with payloads that a file keeps;
  * for that of a run that could not be finished, whatever the message.

## The way of the proof

There is one step for each kind of record: places, findings, the tool, the numbers and the report.
Each has its `fields`; the record is written with them (`document_eq`), its document can be read
(`readable_document`), and the reader finds the fields as they were (`ofJson?_document`). The parts
that are records themselves come first, so a field added to one of them changes the lemmas about
that record and no others.

Only the payload of a finding is written as it stands, and has to be one that a file keeps. The
payloads of the checks are: objects of words, of lists of words, and of nothing
(`Check.kept_of_mem`). How deep a payload may be nested (`payloadDepth`) is what the format allows,
less what is around it.
-/
namespace DepsManifest

open Json (written)

/-! ## Places -/

namespace Location

def fields (l : Location) : List (String × Option Json) :=
  [("path", some (.str l.path)), ("line", l.line.map .ofUInt32), ("col", l.column.map .ofUInt32)]

theorem document_eq (l : Location) : l.document = .obj (written l.fields) := by
  simp [document, written, fields, Json.optionalMember]

theorem readable_document {d : Nat} (l : Location) : Json.Readable (d + 1) l.document := by
  rw [document_eq]
  refine Json.readable_written ?_
  simp [fields, Json.Readable.str, Json.Readable.ofUInt32]

theorem ofJson?_document (l : Location) : ofJson? l.document.canonical = some l := by
  have hfields : l.document.canonical.recordMembers? ["path", "line", "col"] =
      some (l.fields.map fun f => f.2.map Json.canonical) :=
    Json.recordMembers?_of_eq (document_eq _) (by simp [fields])
  have hline := Json.optional_map Json.asUInt32?_ofUInt32 rfl l.line
  have hcolumn := Json.optional_map Json.asUInt32?_ofUInt32 rfl l.column
  simp only [ofJson?, hfields, fields, List.map_cons, List.map_nil, Option.bind_eq_bind,
    Option.bind_some, hline, hcolumn]
  rfl

end Location

/-! ## Findings -/

theorem Severity.ofWord?_word (s : Severity) :
    (Json.str s.word).canonical.word?.bind ofWord? = some s := by
  cases s <;> rfl

namespace Finding

def fields (f : Finding) : List (String × Option Json) :=
  [("severity", some (.str f.severity.word)), ("check_id", some (.str f.checkId)),
    ("code", some (.str f.code)), ("message", some (.str f.message)),
    ("location", f.location.map Location.document), ("help", f.help.map .str),
    ("fingerprint", f.fingerprint.map .str), ("data", f.payload?)]

theorem document_eq (f : Finding) : f.document = .obj (written f.fields) := by
  simp [document, written, fields, Json.optionalMember]

variable {d : Nat} {f : Finding}

theorem eq_data_of_mem_payload? {j : Json} (h : j ∈ f.payload?) : j = f.data := by
  rw [payload?] at h
  split at h
  · cases h
  · cases h
    rfl

theorem readable_document (h : f.data.Kept (d + 1)) : Json.Readable (d + 2) f.document := by
  have hpayload : ∀ j, f.payload? = some j → Json.Readable (d + 1) j := by
    intro j hj
    rw [eq_data_of_mem_payload? hj]
    exact h.readable
  rw [document_eq]
  refine Json.readable_written ?_
  simpa [fields, Json.Readable.str, Location.readable_document] using hpayload

theorem getD_payload? (h : f.data.Kept d) :
    (f.payload?.map Json.canonical).getD .null = f.data := by
  rw [payload?]
  split
  · rename_i hnull
    exact hnull.symm
  · exact h.canonical

theorem ofJson?_document (h : f.data.Kept d) : ofJson? f.document.canonical = some f := by
  have hrecord : f.document.canonical.recordMembers? (memberNames ++ ["data"]) =
      some (f.fields.map fun f => f.2.map Json.canonical) :=
    Json.recordMembers?_of_eq (document_eq _) (by simp [fields])
  have hmembers : members? f.document.canonical =
      some (f.fields.map fun f => f.2.map Json.canonical) := by
    rw [members?, hrecord]
    rfl
  have hlocation := Json.optional_map Location.ofJson?_document rfl f.location
  simp only [ofJson?, hmembers, fields, List.map_cons, List.map_nil, Option.bind_eq_bind,
    Option.bind_some, hlocation, Json.optional_str, Option.map_some, Json.required,
    Severity.ofWord?_word,
    getD_payload? h]
  rfl

end Finding

/-! ## The tool and the numbers -/

namespace Tool

def fields (t : Tool) : List (String × Option Json) :=
  [("name", some (.str t.name)), ("version", some (.str t.version))]

theorem document_eq (t : Tool) : t.document = .obj (written t.fields) := rfl

theorem readable_document {d : Nat} (t : Tool) : Json.Readable (d + 1) t.document := by
  rw [document_eq]
  refine Json.readable_written ?_
  simp [fields, Json.Readable.str]

theorem ofJson?_document (t : Tool) : ofJson? t.document.canonical = some t := by
  have hrecord : t.document.canonical.recordMembers? ["name", "version"] =
      some (t.fields.map fun f => f.2.map Json.canonical) :=
    Json.recordMembers?_of_eq (document_eq _) (by simp [fields])
  rw [ofJson?, hrecord]
  rfl

end Tool

namespace Summary

def fields (s : Summary) : List (String × Option Json) :=
  [("profile", some (.str s.profile)), ("manifests_scanned", some (.ofUInt32 s.manifestsScanned)),
    ("findings_total", some (.ofUInt32 s.findingsTotal)),
    ("findings_emitted", some (.ofUInt32 s.findingsEmitted)),
    ("truncated_reason", s.truncation.map .str)]

theorem document_eq (s : Summary) : s.document = .obj (written s.fields) := by
  simp [document, written, fields, Json.optionalMember]

theorem readable_document {d : Nat} (s : Summary) : Json.Readable (d + 1) s.document := by
  rw [document_eq]
  refine Json.readable_written ?_
  simp [fields, Json.Readable.str, Json.Readable.ofUInt32]

theorem ofJson?_document (s : Summary) : ofJson? s.document.canonical = some s := by
  have hrecord : s.document.canonical.recordMembers? ["profile", "manifests_scanned",
      "findings_total", "findings_emitted", "truncated_reason"] =
      some (s.fields.map fun f => f.2.map Json.canonical) :=
    Json.recordMembers?_of_eq (document_eq _) (by simp [fields])
  simp only [ofJson?, hrecord, fields, List.map_cons, List.map_nil, Option.bind_eq_bind,
    Option.bind_some, Option.map_some, Json.required, Json.asUInt32?_ofUInt32, Json.optional_str]
  rfl

end Summary

/-! ## Reports -/

theorem Verdict.ofWord?_word (v : Verdict) :
    (Json.str v.word).canonical.word?.bind ofWord? = some v := by
  cases v <;> rfl

namespace Report

def fields (r : Report) : List (String × Option Json) :=
  [("schema", some (.str schema)), ("tool", some r.tool.document),
    ("started_at", some (.str r.startedAt.text)), ("finished_at", some (.str r.finishedAt.text)),
    ("verdict", some (.str r.verdict.word)),
    ("findings", some (.arr (r.findings.map Finding.document))), ("data", some r.summary.document)]

variable {d : Nat} {r : Report}

theorem document_eq (r : Report) : r.document = .obj (written r.fields) := rfl

theorem nodup_fields (r : Report) : (r.fields.map (·.1)).Nodup := by
  simp [fields]

theorem readable_document (h : ∀ f ∈ r.findings, f.data.Kept (d + 1)) :
    Json.Readable (d + 4) r.document := by
  have hfindings : Json.Readable (d + 3) (.arr (r.findings.map Finding.document)) :=
    .arr (List.forall_mem_map.mpr fun f hf => Finding.readable_document (h f hf))
  rw [document_eq]
  refine Json.readable_written ?_
  simp [fields, Json.Readable.str, Tool.readable_document, Summary.readable_document, hfindings]

theorem schemaOf_document (r : Report) : schemaOf r.document.canonical = schema := by
  have hmember : r.document.canonical.member? "schema" = some (Json.str schema).canonical :=
    Json.member?_written r.nodup_fields List.mem_cons_self
  rw [schemaOf, hmember]
  rfl

theorem timestamp?_text (t : Timestamp) : timestamp? (Json.str t.text).canonical = some t := by
  have hstring : (Json.str t.text).canonical.asString? = some t.text := rfl
  rw [timestamp?, hstring, Option.bind_some, Timestamp.ofText?_text]

theorem mapM_ofJson?_document {findings : List Finding} (h : ∀ f ∈ findings, f.data.Kept d) :
    ((findings.map Finding.document).map Json.canonical).mapM Finding.ofJson? = some findings := by
  induction findings with
  | nil => rfl
  | cons f findings ih =>
      obtain ⟨hf, hfindings⟩ := List.forall_mem_cons.mp h
      rw [List.map_cons, List.map_cons, List.mapM_cons, Finding.ofJson?_document hf, ih hfindings]
      rfl

theorem ofJson?_document (h : ∀ f ∈ r.findings, f.data.Kept d) :
    ofJson? r.document.canonical = some r := by
  have hrecord : r.document.canonical.recordMembers? ["tool", "started_at", "finished_at",
      "verdict", "findings", "data"] = some (r.fields.tail.map fun f => f.2.map Json.canonical) :=
    Json.recordMembers?_written r.nodup_fields (List.tail_sublist _).subset
  have hitems : (Json.arr (r.findings.map Finding.document)).canonical.asArray? =
      some ((r.findings.map Finding.document).map Json.canonical) :=
    congrArg some (Json.canonicalItems_eq_map _)
  simp only [ofJson?, hrecord, fields, List.tail_cons, List.map_cons, List.map_nil,
    Option.bind_eq_bind, Option.bind_some, Option.map_some, Json.required, Tool.ofJson?_document,
    timestamp?_text, Verdict.ofWord?_word, hitems, mapM_ofJson?_document h,
    Summary.ofJson?_document]
  rfl

/-- How deep containers may be nested in the payload of a finding: the report, the list of its
findings and the finding are around it. -/
def payloadDepth : Nat := Json.nestingLimit - 3

/-- A report is read back from its text, if that keeps the payloads. -/
theorem ofText_serialized (h : ∀ f ∈ r.findings, f.data.Kept payloadDepth) :
    ofText r.serialized = .ok r := by
  have hread : Json.read? (r.document.indented ++ "") = some r.document.canonical :=
    Json.read?_indented (readable_document h) (Nat.le_refl _) nofun
  rw [String.append_empty] at hread
  rw [ofText, serialized, hread]
  dsimp only
  rw [if_neg (not_not_intro r.schemaOf_document), ofJson?_document h]

/-- A report survives the file that it is written to: it is read back, and the Markdown and the
annotations of the file are those of the report. -/
structure Survives (r : Report) : Prop where
  reread : ofText r.serialized = .ok r
  markdown : (ofText r.serialized).map Report.markdown = .ok r.markdown
  annotations : (ofText r.serialized).map Report.annotations = .ok r.annotations

theorem survives (h : ∀ f ∈ r.findings, f.data.Kept payloadDepth) : r.Survives := by
  have hread := ofText_serialized h
  refine ⟨hread, ?_, ?_⟩
  · rw [hread]
    rfl
  · rw [hread]
    rfl

end Report

/-! ## Payloads of the checks -/

/-- The payload of a finding of a check is an object of words, of lists of words, and of nothing. -/
theorem Check.kept_of_mem {severity : Severity} {m : Manifest} {c : Check} {f : Finding} (d : Nat)
    (h : f ∈ c.findings severity m) : f.data.Kept (d + 2) := by
  cases c with
  | schemaMismatch =>
      obtain ⟨found, -, rfl⟩ := List.mem_map.mp h
      refine .object ?_
      simp [Json.Kept.str]
  | allowedHosts =>
      rw [findings] at h
      split at h
      · cases h
      · rename_i allowed _
        obtain ⟨dep, -, hfound⟩ := List.mem_filterMap.mp h
        obtain ⟨_, -, rfl⟩ := Option.map_eq_some_iff.mp hfound
        have hos : Json.Kept (d + 1) ((dep.os.map Json.str).getD .null) := by
          cases dep.os with
          | none => exact .null
          | some os => exact .str os
        have hallowed : Json.Kept (d + 1) (.arr (allowed.map .str)) :=
          .arr (List.forall_mem_map.mpr fun host _ => .str host)
        refine .object ?_
        simp [Json.Kept.str, hos, hallowed]
  | unknownDependency =>
      obtain ⟨⟨name, index⟩, -, rfl⟩ := List.mem_map.mp h
      refine .object ?_
      simp [Json.Kept.str]

theorem Policy.kept_of_mem {p : Policy} {manifests : List Manifest} {f : Finding}
    (h : f ∈ (p.apply manifests).findings) : f.data.Kept Report.payloadDepth := by
  obtain ⟨c, severity, -, m, -, hc⟩ := Policy.mem_found_iff.mp (Policy.mem_found_of_mem_apply h)
  exact Check.kept_of_mem _ hc

namespace Report

/-- Every report survives the file: that of a policy's outcome, that of any outcome at all with
payloads that a file keeps, and that of a run that could not be finished, whatever the message. -/
theorem survives_file :
    (∀ (startedAt finishedAt : Timestamp) (p : Policy) (manifests : List Manifest),
      (ofOutcome startedAt finishedAt (p.apply manifests)).Survives) ∧
    (∀ (startedAt finishedAt : Timestamp) (o : Outcome),
      (∀ f ∈ o.findings, f.data.Kept payloadDepth) →
      (ofOutcome startedAt finishedAt o).Survives) ∧
    ∀ (now : Timestamp) (message : String), (ofRuntimeError now message).Survives := by
  refine ⟨fun _ _ p manifests => survives fun f hf => Policy.kept_of_mem hf,
    fun _ _ o h => survives h, fun now message => survives ?_⟩
  exact List.forall_mem_singleton.mpr Json.Kept.null

def sparsePayload : Json :=
  .object [("os", .null), ("hosts", .arr [.str "a.example", .str "\"\n"]), ("path", .str "deps")]

/-- An outcome with a finding that has no line, no help and no fingerprint, but a payload. -/
def sparseOutcome : Outcome :=
  ⟨.warn, "default", 1, 2,
  [⟨.warning, "deps.allowed_hosts", "disallowed_host", "", some ⟨"DEPS", none,
    none⟩, none, none, sparsePayload⟩], some "cut"⟩

theorem survives_file_sparse : sparsePayload.Kept payloadDepth ∧
    (ofOutcome .epoch .epoch sparseOutcome).Survives := by
  have hhosts : Json.Kept 123 (.arr [.str "a.example", .str "\"\n"]) :=
    .arr (by simp [Json.Kept.str])
  have hkept : sparsePayload.Kept payloadDepth :=
    Json.Kept.object (by simp [Json.Kept.str, Json.Kept.null, hhosts])
  exact ⟨hkept, survives_file.2.1 .epoch .epoch sparseOutcome (List.forall_mem_singleton.mpr hkept)⟩

end Report

end DepsManifest
