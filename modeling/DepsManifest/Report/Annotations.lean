import DepsManifest.Report.Basic
/-! # Reports as annotations

One line for each finding that a build server shows next to the manifest: a command with the file
and the line, then the message. What would end the line or one of its parts is escaped: percent
signs and line breaks everywhere, and colons and commas in a property. So the parts of a line can be
told apart whatever stands in them.

A finding without a place is a command without properties, and one without a line has only the file.
-/
namespace DepsManifest

def Severity.command : Severity → String
  | info => "notice"
  | warning => "warning"
  | error => "error"

namespace Annotation

def messageChar (c : Char) : List Char :=
  if c = '%' then ['%', '2', '5']
  else if c = '\r' then ['%', '0', 'D']
  else if c = '\n' then ['%', '0', 'A']
  else [c]

def propertyChar (c : Char) : List Char :=
  if c = ':' then ['%', '3', 'A']
  else if c = ',' then ['%', '2', 'C']
  else messageChar c

/-- A message with what would end it escaped. -/
def escapedMessage (text : String) : String := String.ofList (text.toList.flatMap messageChar)

/-- A property with what would end it escaped. -/
def escapedProperty (text : String) : String := String.ofList (text.toList.flatMap propertyChar)

/-- The properties of a command. -/
def properties (l : Location) : String :=
  " file=" ++ escapedProperty l.path
    ++ (match l.line with
      | some line => ",line=" ++ String.ofList (Text.decimal line.toNat)
      | none => "")

def line (f : Finding) : String :=
  "::" ++ f.severity.command ++ (f.location.map properties).getD "" ++ "::"
    ++ escapedMessage ("[" ++ f.checkId ++ ":" ++ f.code ++ "] " ++ f.message)

end Annotation

def Report.annotations (r : Report) : List String := r.findings.map Annotation.line

end DepsManifest
