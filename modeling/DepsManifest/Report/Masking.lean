import DepsManifest.Json.Basic
/-! # Masking what differs from run to run

Two reports of one run at different times are made alike: time stamps become a fixed text wherever
they stand, and the version of the tool does where the whole value is a report.

A time stamp is known by the name of its member and not by its value. A report is known by four of
its members, and its tool by two. The version is masked first. Masking works on any JSON value,
keeps the names of its members and their order, and leaves a value with none of these members as it
is.
-/
namespace DepsManifest.Json

def maskedTimestamp : Json := .str "__TIMESTAMP__"

def maskedVersion : Json := .str "__VERSION__"

/-- Whether a member holds a time stamp. -/
def isTimestampName (name : String) : Bool := name == "started_at" || name == "finished_at"

mutual

/-- A value with its time stamps masked. -/
def maskTimestamps : Json → Json
  | .arr items => .arr (maskItems items)
  | .obj members => .obj (maskMembers members)
  | j => j

/-- Elements with their time stamps masked. -/
def maskItems : List Json → List Json
  | [] => []
  | item :: rest => maskTimestamps item :: maskItems rest

/-- Members with their time stamps masked. -/
def maskMembers : List (String × Json) → List (String × Json)
  | [] => []
  | (name, value) :: rest =>
    (name, if isTimestampName name then maskedTimestamp else maskTimestamps value)
      :: maskMembers rest

end

def haveAll (names : List String) (members : List (String × Json)) : Bool :=
  names.all fun name => (members.lookup name).isSome

/-- A member with its value replaced, if it has a given name. -/
def replaceMember (name : String) (f : Json → Json) (members : List (String × Json)) :
    List (String × Json) :=
  members.map fun (n, value) => (n, if n = name then f value else value)

/-- A tool with its version masked. -/
def maskTool : Json → Json
  | .obj members =>
    if haveAll ["name", "version"] members then
      .obj (replaceMember "version" (fun _ => maskedVersion) members)
    else .obj members
  | j => j

/-- A value with the version of the tool masked, if it is a report. -/
def maskVersion : Json → Json
  | .obj members =>
    if haveAll ["schema", "tool", "verdict", "findings"] members then
      .obj (replaceMember "tool" maskTool members)
    else .obj members
  | j => j

/-- A value without what differs from run to run. -/
def masked (j : Json) : Json := j.maskVersion.maskTimestamps

end DepsManifest.Json
