import DepsManifest.Text.Basic
/-! # The words of a command line

The words are options and operands in any order. An option is `--name`, or a letter after a single
dash, where several letters can share the dash. Its value is the next word, or stands in the same
word: after `=` behind a name, directly or after `=` behind a letter. A word that starts with a dash
is no value, except a dash alone. After `--` all words are operands.

What a command line may contain is data: a list of `OptionForm`s. `Given.read?` knows no option by
name; it reads words by any such list and keeps the options with their values in the order in which
they came. Whether a value is acceptable is asked as it is read, so a refusal does not depend on
what follows.
-/
namespace DepsManifest

/-- How an option is used: alone, alone as the last word that is read, or with a value, once or any
number of times. -/
inductive OptionKind where
  | flag
  | final
  | single
  | repeated
  deriving DecidableEq

/-- The form of an option. -/
structure OptionForm where
  name : String
  letter : Option Char
  kind : OptionKind
  accepts : String → Bool

namespace OptionForm

def flag (name : String) (letter : Option Char) : OptionForm := ⟨name, letter, .flag, fun _ => true⟩

/-- An option with any value. -/
def single (name : String) : OptionForm := ⟨name, none, .single, fun _ => true⟩

def takesValue (form : OptionForm) : Bool :=
  match form.kind with
  | .flag => false
  | .final => false
  | .single => true
  | .repeated => true

end OptionForm

/-- What has been read: options with their values, and operands. -/
structure Given where
  options : List (String × String)
  operands : List String
  deriving DecidableEq

namespace Given

def empty : Given := ⟨[], []⟩

def values (g : Given) (name : String) : List String :=
  (g.options.filter (·.1 == name)).map (·.2)

def has (g : Given) (name : String) : Bool := !(g.values name).isEmpty

/-- The value of an option that is given once. -/
def value? (g : Given) (name : String) : Option String := (g.values name).head?

/-- What has been read with one more option. An option is given once unless it can be repeated, and
with a value that it accepts. -/
def addOption? (g : Given) (form : OptionForm) (value : String) : Option Given :=
  if form.accepts value ∧ (form.kind = .repeated ∨ ¬ g.has form.name) then
    some { g with options := g.options ++ [(form.name, value)] }
  else none

/-- What has been read with more operands. -/
def addOperands (g : Given) (operands : List String) : Given :=
  { g with operands := g.operands ++ operands }

/-- What comes after a word of options: the next word, the value of an option, or nothing more. -/
inductive Step where
  | next (g : Given)
  | awaiting (g : Given) (form : OptionForm)
  | done (g : Given)

/-- The step for an option, its value with it in one word or not. -/
def option? (g : Given) (form : OptionForm) (value : Option (List Char)) : Option Step :=
  match form.takesValue, value with
  | true, some value => (g.addOption? form (String.ofList value)).map .next
  | true, none => some (.awaiting g form)
  | false, some _ => none
  | false, none =>
    (g.addOption? form "").map (if form.kind = .final then .done else .next)

/-- The step for an option under its name. -/
def named? (forms : List OptionForm) (g : Given) (body : List Char) : Option Step := do
  let (name, value) := match Text.splitAtFirst? ['='] body with
    | some (name, value) => (name, some value)
    | none => (body, none)
  let form ← forms.find? (·.name == String.ofList name)
  g.option? form value

/-- The value that follows a letter in the same word. -/
def attached : List Char → Option (List Char)
  | [] => none
  | '=' :: value => some value
  | value => some value

/-- The step for options under their letters. -/
def lettered? (forms : List OptionForm) : Given → List Char → Option Step
  | g, [] => some (.next g)
  | g, c :: cs => do
    let form ← forms.find? (·.letter == some c)
    if form.takesValue then g.option? form (attached cs)
    else
      match ← g.option? form none with
      | .next g => lettered? forms g cs
      | step => return step

/-- Whether a word can be a value or an operand. -/
def isPlain (word : String) : Bool :=
  match word.toList with
  | '-' :: _ :: _ => false
  | _ => true

/-- What is read from words, and the words that are left. Reading ends at the first operand where
it has to; the operand is left then. -/
def read? (forms : List OptionForm) (endsAtOperand : Bool) :
    List String → Given → Option (Given × List String)
  | [], g => some (g, [])
  | word :: rest, g =>
    if isPlain word then
      if endsAtOperand then some (g, word :: rest)
      else read? forms endsAtOperand rest (g.addOperands [word])
    else if word = "--" then
      if endsAtOperand then none else some (g.addOperands rest, [])
    else do
      let step ← match word.toList with
        | '-' :: '-' :: body => named? forms g body
        | cs => lettered? forms g cs.tail
      match step with
      | .next g => read? forms endsAtOperand rest g
      | .done g => return (g, [])
      | .awaiting g form =>
        match rest with
        | [] => none
        | value :: rest =>
          if isPlain value then do
            read? forms endsAtOperand rest (← g.addOption? form value)
          else none

end Given

end DepsManifest
