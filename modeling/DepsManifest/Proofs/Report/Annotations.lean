import DepsManifest.Proofs.Text.Digits
import DepsManifest.Proofs.Text.Splitting
import DepsManifest.Report.Annotations
import Mathlib.Data.List.Forall2
/-! # What an annotation says

An annotation is a line of a report for a machine: a command with the severity, the properties with
the place, and the message. What a manifest supplies stands in it with everything escaped that could
end the line or a part of it.

## What is recovered

A report has one annotation for each finding, in order, and `Report.annotations_recovered` says what
can be known from it:

  * it is one line;
  * its severity, its place and its text can be read from it (`Annotation.read?_line`), which is all
    that it says (`Annotation.Content`);
  * so two findings have the same annotation exactly if they agree in that.

The reader in this is a definition of its own. It cuts an annotation where its parts were put
together: the properties end at the first `::` after the one that the annotation begins with, and
the path at `,line=`. With the escapes undone each part is what was put in.

## Escapes

Escapes are undone in one pass from the left, character by character (`unescaped_flatMap`), as a
percent sign in the text is escaped itself. That is also why the characters may be escaped one kind
after another if the percent sign comes first (`toList_escapedMessage`, `toList_escapedProperty`).
-/
namespace DepsManifest

/-- The severity that a command is for. -/
def Severity.ofCommand? (command : List Char) : Option Severity :=
  [Severity.info, .warning, .error].find? (·.command.toList == command)

theorem Severity.ofCommand?_command (s : Severity) : ofCommand? s.command.toList = some s := by
  cases s <;> rfl

namespace Annotation

/-! ## Escapes -/

/-- The character that the two digits of an escape stand for. -/
def escaped? (high low : Char) : Option Char :=
  (Text.hexadecimalCode? 2 0 [high, low]).bind Text.ofCode?

/-- A text with its escapes undone. -/
def unescaped : List Char → List Char
  | [] => []
  | '%' :: high :: low :: cs =>
    match escaped? high low with
    | some c => c :: unescaped cs
    | none => '%' :: unescaped (high :: low :: cs)
  | c :: cs => c :: unescaped cs

theorem unescaped_cons {c : Char} (h : c ≠ '%') (cs : List Char) :
    unescaped (c :: cs) = c :: unescaped cs := by
  rw [unescaped]
  intro _ _ _ hc
  exact absurd hc h

def inMessage : List Char := ['%', '\r', '\n']

def inProperty : List Char := [':', ',', '%', '\r', '\n']

theorem messageChar_of_not_mem {c : Char} (h : c ∉ inMessage) : messageChar c = [c] := by
  simp only [inMessage, List.mem_cons, List.not_mem_nil, or_false, not_or] at h
  rw [messageChar, if_neg h.1, if_neg h.2.1, if_neg h.2.2]

theorem propertyChar_of_not_mem {c : Char} (h : c ∉ inProperty) : propertyChar c = [c] := by
  rw [inProperty, List.mem_cons, List.mem_cons, not_or, not_or] at h
  rw [propertyChar, if_neg h.1, if_neg h.2.1, messageChar_of_not_mem h.2.2]

/-! ### Undoing them -/

theorem unescaped_messageChar (c : Char) (cs : List Char) :
    unescaped (messageChar c ++ cs) = c :: unescaped cs := by
  by_cases hc : c ∈ inMessage
  · simp only [inMessage, List.mem_cons, List.not_mem_nil, or_false] at hc
    rcases hc with rfl | rfl | rfl <;> rfl
  · rw [messageChar_of_not_mem hc]
    exact unescaped_cons (List.ne_of_not_mem_cons hc) cs

theorem unescaped_propertyChar (c : Char) (cs : List Char) :
    unescaped (propertyChar c ++ cs) = c :: unescaped cs := by
  by_cases hcolon : c = ':'
  · subst hcolon
    rfl
  · by_cases hcomma : c = ','
    · subst hcomma
      rfl
    · rw [propertyChar, if_neg hcolon, if_neg hcomma]
      exact unescaped_messageChar c cs

/-- Escapes are undone character by character, if that is how each character is read back. -/
theorem unescaped_flatMap {f : Char → List Char}
    (hf : ∀ c cs, unescaped (f c ++ cs) = c :: unescaped cs) (cs : List Char) :
    unescaped (cs.flatMap f) = cs := by
  induction cs with
  | nil => rfl
  | cons c cs ih => rw [List.flatMap_cons, hf, ih]

theorem unescaped_escapedMessage (text : String) :
    unescaped (escapedMessage text).toList = text.toList := by
  rw [escapedMessage, String.toList_ofList, unescaped_flatMap unescaped_messageChar]

theorem unescaped_escapedProperty (text : String) :
    unescaped (escapedProperty text).toList = text.toList := by
  rw [escapedProperty, String.toList_ofList, unescaped_flatMap unescaped_propertyChar]

/-! ### What they leave out -/

theorem not_mem_messageChar {d : Char} (hd : d ∈ ['\r', '\n']) (c : Char) : d ∉ messageChar c := by
  by_cases hc : c ∈ inMessage
  · have hescape : ∀ c ∈ inMessage, ∀ d ∈ ['\r', '\n'], d ∉ messageChar c := by
      simp [inMessage, messageChar]
    exact hescape c hc d hd
  · rw [messageChar_of_not_mem hc, List.mem_singleton]
    rintro rfl
    exact hc (List.mem_cons_of_mem _ hd)

theorem not_mem_propertyChar {d : Char} (hd : d ∈ [':', ',', '\r', '\n']) (c : Char) :
    d ∉ propertyChar c := by
  by_cases hc : c ∈ inProperty
  · have hescape : ∀ c ∈ inProperty, ∀ d ∈ [':', ',', '\r', '\n'], d ∉ propertyChar c := by
      simp [inProperty, propertyChar, messageChar]
    exact hescape c hc d hd
  · have hends : [':', ',', '\r', '\n'] ⊆ inProperty := by decide
    rw [propertyChar_of_not_mem hc, List.mem_singleton]
    rintro rfl
    exact hc (hends hd)

theorem not_mem_flatMap {f : Char → List Char} {d : Char} (hf : ∀ c, d ∉ f c) (cs : List Char) :
    d ∉ cs.flatMap f := by
  rw [List.mem_flatMap]
  rintro ⟨c, -, hd⟩
  exact hf c hd

theorem not_mem_escapedMessage {d : Char} (hd : d ∈ ['\r', '\n']) (text : String) :
    d ∉ (escapedMessage text).toList := by
  rw [escapedMessage, String.toList_ofList]
  exact not_mem_flatMap (not_mem_messageChar hd) _

theorem not_mem_escapedProperty {d : Char} (hd : d ∈ [':', ',', '\r', '\n']) (text : String) :
    d ∉ (escapedProperty text).toList := by
  rw [escapedProperty, String.toList_ofList]
  exact not_mem_flatMap (not_mem_propertyChar hd) _

/-! ### One kind of character after another -/

/-- A message may be escaped one kind of character after another, the percent sign first. -/
theorem toList_escapedMessage (text : String) : (escapedMessage text).toList =
    Text.replace '\n' ['%', '0', 'A'] (Text.replace '\r' ['%', '0', 'D']
      (Text.replace '%' ['%', '2', '5'] text.toList)) := by
  rw [escapedMessage, String.toList_ofList]
  simp only [Text.replace, List.flatMap_assoc]
  refine congrArg (List.flatMap · text.toList) (funext fun c => ?_)
  by_cases hc : c ∈ inMessage
  · have hescape : ∀ c ∈ inMessage, messageChar c =
        ((if c = '%' then ['%', '2', '5'] else [c]).flatMap fun c =>
          (if c = '\r' then ['%', '0', 'D'] else [c]).flatMap fun c =>
            if c = '\n' then ['%', '0', 'A'] else [c]) := by
      simp [inMessage, messageChar]
    exact hescape c hc
  · rw [messageChar_of_not_mem hc]
    simp only [inMessage, List.mem_cons, List.not_mem_nil, or_false, not_or] at hc
    simp [hc]

/-- A property is a message with two more kinds of characters escaped after it. -/
theorem toList_escapedProperty (text : String) : (escapedProperty text).toList =
    Text.replace ',' ['%', '2', 'C'] (Text.replace ':' ['%', '3', 'A']
      (escapedMessage text).toList) := by
  rw [escapedProperty, escapedMessage, String.toList_ofList, String.toList_ofList]
  simp only [Text.replace, List.flatMap_assoc]
  refine congrArg (List.flatMap · text.toList) (funext fun c => ?_)
  by_cases hc : c ∈ inProperty
  · have hescape : ∀ c ∈ inProperty, propertyChar c =
        (messageChar c).flatMap fun c =>
          (if c = ':' then ['%', '3', 'A'] else [c]).flatMap fun c =>
            if c = ',' then ['%', '2', 'C'] else [c] := by
      simp [inProperty, propertyChar, messageChar]
    exact hescape c hc
  · have hmessage : inMessage ⊆ inProperty := by decide
    rw [propertyChar_of_not_mem hc, messageChar_of_not_mem fun h => hc (hmessage h)]
    simp only [inProperty, List.mem_cons, List.not_mem_nil, or_false, not_or] at hc
    simp [hc]

/-! ## What is recovered -/

/-- The place that an annotation names: the path of a manifest, with a line if there is one. -/
structure Site where
  path : String
  line : Option UInt32
  deriving DecidableEq

/-- What an annotation says. -/
structure Content where
  severity : Severity
  site : Option Site
  text : String
  deriving DecidableEq

/-- What the annotation of a finding is to say. -/
def content (f : Finding) : Content where
  severity := f.severity
  site := f.location.map fun l => ⟨l.path, l.line⟩
  text := "[" ++ f.checkId ++ ":" ++ f.code ++ "] " ++ f.message

/-- The place that properties name, given what comes after the name of the first. -/
def readSite? (properties : List Char) : Option Site :=
  match Text.splitAtFirst? [',', 'l', 'i', 'n', 'e', '='] properties with
  | none => some ⟨String.ofList (unescaped properties), none⟩
  | some (path, line) => do
    return ⟨String.ofList (unescaped path), some (.ofNat (← Text.readDecimal? line))⟩

/-- The severity and the place that stand before a message. -/
def readHead? (head : List Char) : Option (Severity × Option Site) :=
  match Text.splitAtFirst? [' ', 'f', 'i', 'l', 'e', '='] head with
  | none => do return (← Severity.ofCommand? head, none)
  | some (command, properties) => do
    return (← Severity.ofCommand? command, some (← readSite? properties))

/-- What an annotation says, read from its text. -/
def read? (text : String) : Option Content := do
  let body ← Text.afterBeginning? [':', ':'] text.toList
  let (head, message) ← Text.splitAtFirst? [':', ':'] body
  let (severity, site) ← readHead? head
  return ⟨severity, site, String.ofList (unescaped message)⟩

/-! ## Annotations read back -/

def lineProperty : Option UInt32 → List Char
  | none => []
  | some line => ',' :: ['l', 'i', 'n', 'e', '='] ++ Text.decimal line.toNat

/-- The properties for a place, with the blank before them. -/
def Site.properties (site : Site) : List Char :=
  ' ' :: ['f', 'i', 'l', 'e', '='] ++ ((escapedProperty site.path).toList ++ lineProperty site.line)

/-- What stands before the message of an annotation that says something. -/
def Content.head (c : Content) : List Char :=
  c.severity.command.toList ++ (c.site.map Site.properties).getD []

/-- The annotation that says something. -/
def Content.chars (c : Content) : List Char :=
  [':', ':'] ++ (c.head ++ [':', ':'] ++ (escapedMessage c.text).toList)

theorem toList_properties (l : Location) :
    (properties l).toList = Site.properties ⟨l.path, l.line⟩ := by
  rw [properties, Site.properties]
  cases l.line with
  | none =>
      simp only [String.toList_append, List.append_assoc]
      rfl
  | some line =>
      simp only [String.toList_append, String.toList_ofList, List.append_assoc]
      rfl

theorem toList_line (f : Finding) : (line f).toList = (content f).chars := by
  have hplace : ((f.location.map properties).getD "").toList =
      ((content f).site.map Site.properties).getD [] := by
    rw [content]
    cases f.location with
    | none => rfl
    | some l => exact toList_properties l
  rw [line, Content.chars, Content.head]
  simp only [String.toList_append, hplace, List.append_assoc]
  rfl

theorem readSite?_properties (path : String) (line : Option UInt32) :
    readSite? ((escapedProperty path).toList ++ lineProperty line) = some ⟨path, line⟩ := by
  have hcomma : ',' ∉ (escapedProperty path).toList := not_mem_escapedProperty (by decide) path
  cases line with
  | none =>
      rw [lineProperty, List.append_nil, readSite?, Text.splitAtFirst?_eq_none hcomma,
        unescaped_escapedProperty, String.ofList_toList]
  | some line =>
      rw [lineProperty, ← List.append_assoc, readSite?, Text.splitAtFirst?_append hcomma]
      simp only [Text.readDecimal?_decimal, Option.bind_eq_bind, Option.bind_some,
        unescaped_escapedProperty, String.ofList_toList, UInt32.ofNat_toNat, Option.pure_def]

theorem not_mem_command {d : Char} (hd : d ∈ [' ', ':', '\r', '\n']) (s : Severity) :
    d ∉ s.command.toList := by
  have hcommand : ∀ s : Severity, ∀ d ∈ [' ', ':', '\r', '\n'], d ∉ s.command.toList := by
    intro s
    cases s <;> simp [Severity.command]
  exact hcommand s d hd

theorem readHead?_head (c : Content) : readHead? c.head = some (c.severity, c.site) := by
  have hspace : ' ' ∉ c.severity.command.toList := not_mem_command (by decide) _
  obtain ⟨severity, site, text⟩ := c
  rw [Content.head]
  cases site with
  | none =>
      rw [Option.map_none, Option.getD_none, List.append_nil, readHead?,
        Text.splitAtFirst?_eq_none hspace]
      dsimp only
      rw [Severity.ofCommand?_command]
      rfl
  | some site =>
      rw [Option.map_some, Option.getD_some, Site.properties, ← List.append_assoc, readHead?,
        Text.splitAtFirst?_append hspace]
      dsimp only
      rw [Severity.ofCommand?_command, readSite?_properties]
      rfl

theorem not_mem_head {d : Char} (hd : d ∈ [':', '\r', '\n']) (c : Content) : d ∉ c.head := by
  have hnames : ∀ d ∈ [':', '\r', '\n'], d ∉ [' ', 'f', 'i', 'l', 'e', '='] ∧
      d ∉ [',', 'l', 'i', 'n', 'e', '='] ∧ d.isDigit = false ∧ d ∈ [' ', ':', '\r', '\n'] ∧
      d ∈ [':', ',', '\r', '\n'] := by
    simp [Char.isDigit]
  obtain ⟨hfile, hline, hdigit, hcommand, hproperty⟩ := hnames d hd
  rw [Content.head, List.mem_append, not_or]
  refine ⟨not_mem_command hcommand _, ?_⟩
  cases c.site with
  | none => exact List.not_mem_nil
  | some site =>
      rw [Option.map_some, Option.getD_some, Site.properties, List.mem_append, List.mem_append,
        not_or, not_or]
      refine ⟨hfile, not_mem_escapedProperty hproperty _, ?_⟩
      cases site.line with
      | none => exact List.not_mem_nil
      | some line =>
          rw [lineProperty, List.mem_append, not_or]
          refine ⟨hline, fun hmem => ?_⟩
          rw [Text.isDigit_of_mem_decimal hmem] at hdigit
          cases hdigit

/-- What an annotation is to say is what is read from it. -/
theorem read?_line (f : Finding) : read? (line f) = some (content f) := by
  have hcolon : ':' ∉ (content f).head := not_mem_head (by decide) _
  rw [read?, toList_line, Content.chars, Text.afterBeginning?_append, Option.bind_eq_bind,
    Option.bind_some, Text.splitAtFirst?_append hcolon, Option.bind_eq_bind, Option.bind_some]
  dsimp only
  rw [readHead?_head, unescaped_escapedMessage, String.ofList_toList]
  rfl

theorem not_mem_line {d : Char} (hd : d ∈ ['\r', '\n']) (f : Finding) : d ∉ (line f).toList := by
  have hends : ∀ d ∈ ['\r', '\n'], d ∉ [':', ':'] ∧ d ∈ [':', '\r', '\n'] := by simp
  obtain ⟨hcolons, hhead⟩ := hends d hd
  rw [toList_line, Content.chars]
  simp only [List.mem_append, not_or]
  exact ⟨hcolons, ⟨not_mem_head hhead _, hcolons⟩, not_mem_escapedMessage hd _⟩

theorem line_eq_iff {f g : Finding} : line f = line g ↔ content f = content g := by
  constructor
  · intro h
    have hread := read?_line f
    rw [h, read?_line, Option.some.injEq] at hread
    exact hread.symm
  · intro h
    rw [← String.toList_inj, toList_line, toList_line, h]

end Annotation

open Annotation

/-- A report has one annotation for each finding, in order. Each is one line, and what it is to say
can be read from it: cut at the first `::` after the one that it begins with and at `,line=`, with
the escapes of each part undone. So two findings have the same annotation only if they agree in
severity, manifest, line and text. -/
theorem Report.annotations_recovered (r : Report) :
    List.Forall₂ (fun f a => ('\r' ∉ a.toList ∧ '\n' ∉ a.toList) ∧ read? a = some (content f))
      r.findings r.annotations ∧
    ∀ f g, line f = line g ↔ content f = content g := by
  refine ⟨?_, fun f g => line_eq_iff⟩
  rw [annotations, List.forall₂_map_right_iff, List.forall₂_same]
  intro f _
  exact ⟨⟨not_mem_line (by decide) f, not_mem_line (by decide) f⟩, read?_line f⟩

/-- A path with the marks that separate properties, and a message with an escape of its own. -/
example : read? "::error file=a%2Cline=7%3A%3Ab,line=3::[c:d] %250A%0A::" =
    some ⟨.error, some ⟨"a,line=7::b", some 3⟩, "[c:d] %0A\n::"⟩ := by decide +kernel

end DepsManifest
