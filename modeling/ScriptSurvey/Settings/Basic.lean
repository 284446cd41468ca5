import ScriptSurvey.Settings.Json
import ScriptSurvey.Text.Word

/-!
# Settings

What a project sets in its configuration file.  Every field may be missing, and then has its
default.  The file holds a JSON object; a list of values, in the order of the fields, is taken
as well.  Fields of other names are skipped, and no field may be given twice.
-/

namespace ScriptSurvey

/-- The settings of a project. -/
structure Settings where
  /-- The extensions that a module may have, in the order in which they are tried. -/
  extensions : List Text
  /-- The name, without extension, of the file that stands for its directory. -/
  indexFile : Text
  /-- The extensions of style sheets. -/
  styleExtensions : List Text
  /-- The greatest length of a suffix made from a module. -/
  suffixMaxLength : Nat
  /-- Names that no import is given. -/
  reservedNames : List Text
  /-- The name under which a provider exports its table. -/
  providerExportName : Text
  /-- The functions whose calls are looked for. -/
  callees : List Text
deriving DecidableEq, Repr

namespace Settings

/-- The settings of a project that sets nothing. -/
def standard : Settings where
  extensions := [".ts", ".tsx", ".js", ".jsx"].map String.toList
  indexFile := "index".toList
  styleExtensions := [".css", ".scss", ".sass", ".less", ".styl", ".pcss"].map String.toList
  suffixMaxLength := 20
  reservedNames := []
  providerExportName := "modules".toList
  callees := []

/-- The fields, in their order. -/
inductive Field where
  | extensions
  | indexFile
  | styleExtensions
  | suffixMaxLength
  | reservedNames
  | providerExportName
  | callees
deriving DecidableEq, Repr

namespace Field

/-- All fields, in order. -/
def all : List Field :=
  [extensions, indexFile, styleExtensions, suffixMaxLength, reservedNames, providerExportName,
   callees]

/-- The key of a field in a configuration file. -/
def key : Field → Text
  | extensions => "extensions".toList
  | indexFile => "indexFile".toList
  | styleExtensions => "styleExtensions".toList
  | suffixMaxLength => "suffixMaxLength".toList
  | reservedNames => "reservedNames".toList
  | providerExportName => "providerExportName".toList
  | callees => "callees".toList

/-- The field of a key. -/
def ofKey? (k : Text) : Option Field :=
  all.find? (·.key == k)

/-- Read the value of a field, and set it. -/
def read (f : Field) (s : Settings) (t : Text) : Json.Result Settings t :=
  match f with
  | extensions => (Json.readTexts t).map (Json.Taken.map fun v => { s with extensions := v })
  | indexFile => (Json.readText t).map (Json.Taken.map fun v => { s with indexFile := v })
  | styleExtensions =>
    (Json.readTexts t).map (Json.Taken.map fun v => { s with styleExtensions := v })
  | suffixMaxLength =>
    (Json.readCount t).map (Json.Taken.map fun v => { s with suffixMaxLength := v })
  | reservedNames => (Json.readTexts t).map (Json.Taken.map fun v => { s with reservedNames := v })
  | providerExportName =>
    (Json.readText t).map (Json.Taken.map fun v => { s with providerExportName := v })
  | callees => (Json.readTexts t).map (Json.Taken.map fun v => { s with callees := v })

end Field

/-! ## Reading -/

/-- The value of a key and the fields seen with it, behind the key. -/
def readMember (seen : List Field) (s : Settings) (key t : Text) :
    Json.Result (List Field × Settings) t :=
  match Field.ofKey? key with
  | none =>
    match Json.readColon t with
    | .error e => .error e
    | .ok colon =>
      colon.andThen fun t => (Json.skipValue [] t).map (Json.Taken.map fun _ => (seen, s))
  | some f =>
    if f ∈ seen then .error .mismatched
    else
      match Json.readColon t with
      | .error e => .error e
      | .ok colon =>
        colon.andThen fun t => (f.read s t).map (Json.Taken.map fun s => (f :: seen, s))

/-- A key, its colon and its value. -/
def readEntry (seen : List Field) (s : Settings) (t : Text) :
    Json.Result (List Field × Settings) t :=
  match Json.readKey false t with
  | .error e => .error e
  | .ok key => key.andThen (readMember seen s key.value)

/-- The members of an object, behind its opening brace or a member. -/
def readMembers (isFirst : Bool) (seen : List Field) (s : Settings) (t : Text) :
    Json.Result Settings t :=
  match _h : Json.nextItem '\x7d' isFirst t with
  | .error e => .error e
  | .ok next =>
    match next.value with
    | .finish => .ok (next.map fun _ => s)
    | .item =>
      match readEntry seen s next.rest with
      | .error e => .error e
      | .ok entry =>
        (readMembers false entry.value.1 entry.value.2 entry.rest).map
          (Json.Taken.widen (Nat.le_trans entry.le next.le))
termination_by 2 * t.length + isFirst.toNat
decreasing_by
  have := entry.le
  cases isFirst with
  | true =>
      have := next.le
      simp only [Bool.toNat_true, Bool.toNat_false]
      omega
  | false =>
      have := Json.length_nextItem _h
      simp only [Bool.toNat_false]
      omega

/-- The values of a list, behind its opening bracket or a value, for the given fields.  No value
may follow that of the last field. -/
def readValues (isFirst : Bool) (s : Settings) : List Field → (t : Text) → Json.Result Settings t
  | [], t =>
    match h : Json.skipSpace t with
    | [] => .error .truncated
    | c :: r =>
      if c = ']' then .ok ⟨s, r, Nat.le_of_lt (Json.length_of_skipSpace_eq h)⟩
      else .error .malformed
  | f :: fs, t =>
    match Json.nextItem ']' isFirst t with
    | .error e => .error e
    | .ok next =>
      match next.value with
      | .finish => .ok (next.map fun _ => s)
      | .item =>
        match f.read s next.rest with
        | .error e => .error e
        | .ok value =>
          (readValues false value.value fs value.rest).map
            (Json.Taken.widen (Nat.le_trans value.le next.le))

/-- The settings in a configuration file, which must hold nothing else. -/
def read (t : Text) : Except Json.Fault Settings :=
  match Json.skipSpace t with
  | [] => .error .truncated
  | c :: r =>
    match
      if c = '\x7b' then readMembers true [] standard r
      else if c = '[' then readValues true standard Field.all r
      else .error (Json.rejectValue c r) with
    | .error e => .error e
    | .ok s => if Json.skipSpace s.rest = [] then .ok s.value else .error .malformed

/-! ## Validity -/

/-- Why there are no settings. -/
inductive Error where
  /-- The file cannot be read as text. -/
  | unreadable (path : Text)
  /-- The file is no configuration. -/
  | faulty (fault : Json.Fault)
  /-- An extension has no dot in front, or nothing behind it. -/
  | badExtension (extension : Text)
  /-- A field has a value that it cannot have. -/
  | badValue (field : Field) (value : Text)
deriving DecidableEq, Repr

/-- The words for an error. -/
def Error.message : Error → Text
  | unreadable path => "failed to read ".toList ++ path
  | faulty _ => "invalid configuration".toList
  | badExtension extension => "extension '".toList ++ extension ++ "' must start with '.'".toList
  | badValue field value =>
    "invalid value for '".toList ++ field.key ++ "': '".toList ++ value ++ ['\'']

/-- Whether a text is an extension: a dot and something behind it. -/
def isExtension : Text → Bool
  | '.' :: _ :: _ => true
  | _ => false

/-- The first thing wrong with some settings. -/
def flaw? (s : Settings) : Option Error :=
  match (s.extensions ++ s.styleExtensions).find? (!isExtension ·) with
  | some e => some (.badExtension e)
  | none =>
    if s.indexFile.isEmpty || s.indexFile.contains '/' then some (.badValue .indexFile s.indexFile)
    else if !Text.isPlainName s.providerExportName then
      some (.badValue .providerExportName s.providerExportName)
    else none

/-- The settings in the text of a configuration file, if nothing is wrong with them. -/
def parse (t : Text) : Except Error Settings :=
  match read t with
  | .error fault => .error (.faulty fault)
  | .ok s =>
    match s.flaw? with
    | some e => .error e
    | none => .ok s

end Settings

end ScriptSurvey
