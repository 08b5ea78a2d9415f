import DepsManifest.Text.Quoted
import DepsManifest.Value.Dict
import DepsManifest.Value.Literal
/-! # Formatting text

The `%` operator on a string. A format text is a sequence of plain characters and directives. A
directive is a percent sign, an optional key in parentheses, flags, a width and a conversion; two
percent signs stand for one. A width is a number of 64 bits, and the digits of one that is larger
wrap around. A tuple supplies one argument after the other, a dict the arguments with a key, and any
other value is a single argument.

A format text is read into parts first (`parts`) and filled in afterwards (`expand`). A malformed
directive is a failure only after the parts before it have been filled in, so reading keeps the
failure next to the parts. What follows a malformed directive is never looked at.

That reading ends is shown by lengths: each directive takes at least its conversion.
-/
namespace DepsManifest.Format

/-- Why a text cannot be formatted. -/
inductive Failure where
  | incompleteKey
  | incompleteDirective
  | mappingRequired
  | keyNotFound (key : String)
  | notEnoughArguments
  | leftoverArguments
  | numberRequired (conversion : Char) (typeName : String)
  | unsupportedConversion (conversion : Char)
  deriving DecidableEq

def Failure.message : Failure → String
  | .incompleteKey => "incomplete format key"
  | .incompleteDirective => "incomplete format"
  | .mappingRequired => "format requires a mapping"
  | .keyNotFound key => "format key " ++ Text.quoted key ++ " not found"
  | .notEnoughArguments => "not enough arguments for format string"
  | .leftoverArguments => "not all arguments converted during string formatting"
  | .numberRequired conversion typeName =>
    "%" ++ conversion.toString ++ " format: a number is required, not " ++ typeName
  | .unsupportedConversion conversion =>
    "unsupported format character " ++ Text.quotedChar conversion
      ++ " (0x" ++ String.ofList (Text.hexadecimal conversion.toNat) ++ ")"

/-! ## Layout of a field -/

/-- How a converted argument is laid out. -/
structure Layout where
  leftAlign : Bool := false
  zeroPad : Bool := false
  width : UInt64 := 0
  deriving DecidableEq, Inhabited

/-- A converted argument filled up to the width: with blanks after it or before it, or, a number,
with zeros after its sign. -/
def Layout.pad (l : Layout) (text : List Char) (numeric : Bool) : List Char :=
  let fill := l.width.toNat - text.length
  if l.leftAlign then text ++ List.replicate fill ' '
  else if l.zeroPad && numeric then
    match text with
    | '-' :: digits => '-' :: List.replicate fill '0' ++ digits
    | digits => List.replicate fill '0' ++ digits
  else List.replicate fill ' ' ++ text

/-- The whole number of an argument. -/
def integerOf (conversion : Char) : Value → Except Failure Int
  | .int i => .ok i.toInt
  | .bool b => .ok (if b then 1 else 0)
  | v => .error (.numberRequired conversion v.typeName)

def signedHexadecimal (i : Int) : List Char :=
  if i < 0 then '-' :: Text.hexadecimal i.natAbs else Text.hexadecimal i.natAbs

/-- An argument converted and laid out. -/
def convert (l : Layout) (conversion : Char) (argument : Value) : Except Failure (List Char) :=
  if conversion = 's' then .ok (l.pad argument.text false)
  else if conversion = 'r' then .ok (l.pad argument.literal false)
  else if conversion = 'd' ∨ conversion = 'i' then do
    let i ← integerOf conversion argument
    return l.pad (Text.signedDecimal i) true
  else if conversion = 'x' then do
    let i ← integerOf conversion argument
    return l.pad (signedHexadecimal i) true
  else .error (.unsupportedConversion conversion)

/-! ## Directives -/

/-- The key of a directive up to the parenthesis that closes it, and the rest. Parentheses inside a
key are balanced. -/
def readKey? (depth : Nat) : List Char → Option (List Char × List Char)
  | [] => none
  | '(' :: cs => (readKey? (depth + 1) cs).map fun (key, rest) => ('(' :: key, rest)
  | ')' :: cs =>
    match depth with
    | 0 => some ([], cs)
    | depth + 1 => (readKey? depth cs).map fun (key, rest) => (')' :: key, rest)
  | c :: cs => (readKey? depth cs).map fun (key, rest) => (c :: key, rest)

def readFlags (l : Layout) : List Char → Layout × List Char
  | '-' :: cs => readFlags { l with leftAlign := true } cs
  | '0' :: cs => readFlags { l with zeroPad := true } cs
  | ' ' :: cs => readFlags l cs
  | '+' :: cs => readFlags l cs
  | '#' :: cs => readFlags l cs
  | cs => (l, cs)

/-- The width of a directive, and the rest. -/
def readWidth (l : Layout) : List Char → Layout × List Char
  | [] => (l, [])
  | c :: cs =>
    match Text.digitValue? 10 c with
    | some d => readWidth { l with width := l.width * 10 + .ofNat d } cs
    | none => (l, c :: cs)

/-- A part of a format text: a plain character, or a directive. -/
inductive Part where
  | plain (c : Char)
  | directive (key : Option String) (layout : Layout) (conversion : Char)
  deriving DecidableEq

/-- The key of the directive that a text begins with, if it has one, and the rest. -/
def readKeyPart : List Char → Except Failure (Option String × List Char)
  | '(' :: cs =>
    match readKey? 0 cs with
    | some (key, cs) => .ok (some (String.ofList key), cs)
    | none => .error .incompleteKey
  | cs => .ok (none, cs)

/-- The rest of a directive after its key: flags, width and conversion. -/
def readConversion (key : Option String) (cs : List Char) : Except Failure (Part × List Char) :=
  let (layout, cs) := readFlags {} cs
  let (layout, cs) := readWidth layout cs
  match cs with
  | [] => .error .incompleteDirective
  | c :: cs =>
    if c = '%' ∧ key = none then .ok (.plain '%', cs) else .ok (.directive key layout c, cs)

/-- The directive after a percent sign, and the rest. -/
def readDirective (cs : List Char) : Except Failure (Part × List Char) := do
  let (key, cs) ← readKeyPart cs
  readConversion key cs

theorem readKey?_length {depth : Nat} {cs key rest : List Char}
    (h : readKey? depth cs = some (key, rest)) : rest.length ≤ cs.length := by
  fun_induction readKey? depth cs generalizing key with
  | case1 => simp at h
  | case2 depth cs ih =>
    obtain ⟨⟨k, r⟩, hr, heq⟩ := Option.map_eq_some_iff.1 h
    cases heq
    exact Nat.le_succ_of_le (ih hr)
  | case3 cs =>
    cases h
    exact Nat.le_succ _
  | case4 cs depth ih =>
    obtain ⟨⟨k, r⟩, hr, heq⟩ := Option.map_eq_some_iff.1 h
    cases heq
    exact Nat.le_succ_of_le (ih hr)
  | case5 depth c cs _ _ ih =>
    obtain ⟨⟨k, r⟩, hr, heq⟩ := Option.map_eq_some_iff.1 h
    cases heq
    exact Nat.le_succ_of_le (ih hr)

theorem readFlags_length (l : Layout) (cs : List Char) :
    (readFlags l cs).2.length ≤ cs.length := by
  fun_induction readFlags l cs with
  | case6 => exact Nat.le_refl _
  | _ => exact Nat.le_succ_of_le ‹_›

theorem readWidth_length (l : Layout) (cs : List Char) :
    (readWidth l cs).2.length ≤ cs.length := by
  fun_induction readWidth l cs with
  | case1 => exact Nat.le_refl _
  | case2 _ _ _ _ _ ih => exact Nat.le_succ_of_le ih
  | case3 => exact Nat.le_refl _

theorem readKeyPart_length {cs rest : List Char} {key : Option String}
    (h : readKeyPart cs = .ok (key, rest)) : rest.length ≤ cs.length := by
  unfold readKeyPart at h
  split at h
  · split at h
    · rename_i hk
      cases h
      exact Nat.le_succ_of_le (readKey?_length hk)
    · cases h
  · cases h
    exact Nat.le_refl _

theorem readConversion_length {key : Option String} {cs rest : List Char} {part : Part}
    (h : readConversion key cs = .ok (part, rest)) : rest.length < cs.length := by
  unfold readConversion at h
  have hflags := readFlags_length {} cs
  have hwidth := readWidth_length (readFlags {} cs).1 (readFlags {} cs).2
  simp only at h
  split at h
  · cases h
  · rename_i c r heq
    have hlen := congrArg List.length heq
    simp only [List.length_cons] at hlen
    split at h <;> (cases h; omega)

theorem readDirective_length {cs rest : List Char} {part : Part}
    (h : readDirective cs = .ok (part, rest)) : rest.length < cs.length := by
  unfold readDirective at h
  cases hk : readKeyPart cs with
  | error e => simp [hk, bind, Except.bind] at h
  | ok pair =>
    obtain ⟨key, tail⟩ := pair
    simp only [hk, bind, Except.bind] at h
    exact Nat.lt_of_lt_of_le (readConversion_length h) (readKeyPart_length hk)

/-- The parts of a format text up to the first malformed directive, and what is wrong with that. -/
def parts : List Char → List Part × Option Failure
  | [] => ([], none)
  | c :: cs =>
    if c = '%' then
      match h : readDirective cs with
      | .error failure => ([], some failure)
      | .ok (part, rest) =>
        have : rest.length < cs.length + 1 := Nat.lt_succ_of_lt (readDirective_length h)
        let (more, failure) := parts rest
        (part :: more, failure)
    else
      let (more, failure) := parts cs
      (.plain c :: more, failure)
  termination_by cs => cs.length

/-! ## Arguments -/

/-- What the directives take their arguments from: the values not yet taken in order, and the dict
that keys are looked up in. -/
structure Arguments where
  positional : List Value
  mapping : Option Dict

/-- The arguments that the right operand supplies. A dict is also a single argument. -/
def Arguments.of : Value → Arguments
  | .tuple items => ⟨items, none⟩
  | .dict entries => ⟨[.dict entries], some ⟨entries⟩⟩
  | v => ⟨[v], none⟩

/-- The argument of a directive, and the arguments that are left. -/
def Arguments.take (a : Arguments) : Option String → Except Failure (Value × Arguments)
  | some key =>
    match a.mapping with
    | none => .error .mappingRequired
    | some d =>
      match d.getString? key with
      | some v => .ok (v, a)
      | none => .error (.keyNotFound key)
  | none =>
    match a.positional with
    | [] => .error .notEnoughArguments
    | v :: rest => .ok (v, { a with positional := rest })

/-- The text of a part, and the arguments that are left. -/
def Part.expand (a : Arguments) : Part → Except Failure (List Char × Arguments)
  | .plain c => .ok ([c], a)
  | .directive key layout conversion => do
    let (v, a) ← a.take key
    let text ← convert layout conversion v
    return (text, a)

/-- The text of a sequence of parts, and the arguments that are left. -/
def expand : List Part → Arguments → Except Failure (List Char × Arguments)
  | [], a => .ok ([], a)
  | part :: rest, a => do
    let (text, a) ← part.expand a
    let (more, a) ← expand rest a
    return (text ++ more, a)

/-- A format text filled in with the arguments of a value. Parts before a malformed directive are
filled in first. Without a dict every argument has to be taken. -/
def format (text : List Char) (value : Value) : Except Failure (List Char) := do
  let (ps, failure) := parts text
  let (out, left) ← expand ps (Arguments.of value)
  match failure with
  | some failure => .error failure
  | none =>
    if left.mapping.isNone && !left.positional.isEmpty then .error .leftoverArguments
    else .ok out

end DepsManifest.Format
