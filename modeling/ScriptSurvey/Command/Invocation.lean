import ScriptSurvey.Text.Basic

/-!
# Invocations

The words of a command line.  A command is named by the first word that is no switch, and takes
switches of its own and operands behind it.  A switch is long (`--name`, `--name value`,
`--name=value`) or a letter (`-n`, `-n value`, `-nvalue`, `-n=value`), letters may share a dash,
and behind `--` everything is an operand.  A lone dash is an operand too.

Words are taken from left to right, and the first that is wrong ends the reading, as does a
request for the version.
-/

namespace ScriptSurvey

/-- What to do. -/
inductive Command where
  /-- Read an argument list and write it again, or its outline. -/
  | arguments (text : Text) (outline : Bool)
  /-- List the imports of files. -/
  | imports (files : List Text)
  /-- List the calls in files. -/
  | calls (files callees : List Text)
  /-- Resolve specifiers, from a directory. -/
  | resolve (specifiers : List Text) (start? : Option Text)
  /-- Write the provider of some files. -/
  | consolidate (files : List Text)
deriving DecidableEq, Repr

/-- A command, and the configuration file to use. -/
structure Invocation where
  config? : Option Text
  command : Command
deriving DecidableEq, Repr

/-- Why a command line names no command to run. -/
inductive Halt where
  /-- It is not well formed. -/
  | usage
  /-- It asks for the version. -/
  | version
deriving DecidableEq, Repr

namespace Invocation

/-- The switches. -/
inductive Switch where
  | config
  | verbose
  | version
  | tree
  | callee
  | start
deriving DecidableEq, Repr

namespace Switch

/-- The long name. -/
def name : Switch → Text
  | config => "config".toList
  | verbose => "verbose".toList
  | version => "version".toList
  | tree => "tree".toList
  | callee => "callee".toList
  | start => "from".toList

/-- The letter, if there is one. -/
def letter? : Switch → Option Char
  | config => some 'c'
  | verbose => some 'v'
  | version => some 'V'
  | _ => none

/-- Whether a value follows the switch. -/
def takesValue : Switch → Bool
  | config => true
  | callee => true
  | start => true
  | _ => false

/-- The switches in front of a command. -/
def leading : List Switch := [config, verbose, version]

/-- The switches behind any command. -/
def shared : List Switch := [config, verbose]

end Switch

/-- The switches read so far. -/
structure Chosen where
  config? : Option Text
  tree : Bool
  callees : List Text
  start? : Option Text
deriving DecidableEq, Repr

namespace Chosen

/-- No switches. -/
def none : Chosen := ⟨.none, false, [], .none⟩

/-- The switches with one more.  Only a callee and the wish for words may come twice, and a path
must not be empty. -/
def add (s : Switch) (value : Text) (c : Chosen) : Except Halt Chosen :=
  match s with
  | .config =>
    if c.config?.isSome || value.isEmpty then .error .usage
    else .ok { c with config? := some value }
  | .verbose => .ok c
  | .version => .error .version
  | .tree => if c.tree then .error .usage else .ok { c with tree := true }
  | .callee => .ok { c with callees := c.callees ++ [value] }
  | .start =>
    if c.start?.isSome || value.isEmpty then .error .usage
    else .ok { c with start? := some value }

end Chosen

/-- Whether a word is a switch: a dash and more. -/
def isSwitch : Text → Bool
  | '-' :: _ :: _ => true
  | _ => false

/-- A long switch, without its dashes.  It leaves open the switch whose value is still to come. -/
def readLong (allowed : List Switch) (t : Text) (c : Chosen) :
    Except Halt (Chosen × Option Switch) :=
  let name := t.takeWhile (· != '=')
  match allowed.find? (·.name == name), t.dropWhile (· != '=') with
  | none, _ => .error .usage
  | some s, [] =>
    if s.takesValue then .ok (c, some s) else (c.add s []).map fun c => (c, none)
  | some s, _ :: value =>
    if s.takesValue then (c.add s value).map fun c => (c, none) else .error .usage

/-- Letters that share a dash.  What follows the letter of a switch with a value is the value. -/
def readLetters (allowed : List Switch) : Text → Chosen → Except Halt (Chosen × Option Switch)
  | [], c => .ok (c, none)
  | letter :: rest, c =>
    match allowed.find? (·.letter? == some letter) with
    | none => .error .usage
    | some s =>
      if s.takesValue then
        match rest with
        | [] => .ok (c, some s)
        | '=' :: value => (c.add s value).map fun c => (c, none)
        | value => (c.add s value).map fun c => (c, none)
      else
        match c.add s [] with
        | .error h => .error h
        | .ok c => readLetters allowed rest c

/-- A switch of either kind. -/
def readSwitch (allowed : List Switch) (word : Text) (c : Chosen) :
    Except Halt (Chosen × Option Switch) :=
  match word with
  | '-' :: '-' :: t => readLong allowed t c
  | _ :: t => readLetters allowed t c
  | [] => .error .usage

/-- The switches and the operands behind a command; `pending` is a switch whose value comes
next. -/
def readOperands (allowed : List Switch) (pending : Option Switch) (c : Chosen) :
    List Text → Except Halt (Chosen × List Text)
  | [] => if pending.isSome then .error .usage else .ok (c, [])
  | word :: words =>
    if word = ['-', '-'] then if pending.isSome then .error .usage else .ok (c, words)
    else if isSwitch word then
      if pending.isSome then .error .usage
      else
        match readSwitch allowed word c with
        | .error h => .error h
        | .ok (c, pending) => readOperands allowed pending c words
    else
      match pending with
      | some s =>
        match c.add s word with
        | .error h => .error h
        | .ok c => readOperands allowed none c words
      | none => (readOperands allowed none c words).map fun p => (p.1, word :: p.2)

/-- The switches in front of a command, the name of that, and the words behind it. -/
def readLeading (pending : Option Switch) (c : Chosen) :
    List Text → Except Halt (Chosen × Text × List Text)
  | [] => .error .usage
  | word :: words =>
    if word = ['-', '-'] then .error .usage
    else if isSwitch word then
      if pending.isSome then .error .usage
      else
        match readSwitch Switch.leading word c with
        | .error h => .error h
        | .ok (c, pending) => readLeading pending c words
    else
      match pending with
      | some s =>
        match c.add s word with
        | .error h => .error h
        | .ok c => readLeading none c words
      | none => .ok (c, word, words)

/-- At least one path, and none that is empty. -/
def somePaths (operands : List Text) : Except Halt (List Text) :=
  if operands.isEmpty || operands.any List.isEmpty then .error .usage else .ok operands

/-- The command of a name, with the words behind it. -/
def readCommand (name : Text) (words : List Text) : Except Halt (Chosen × Command) :=
  let operands (own : List Switch) := readOperands (Switch.shared ++ own) none Chosen.none words
  if name = "args".toList then do
    match ← operands [.tree] with
    | (c, [text]) => return (c, .arguments text c.tree)
    | _ => .error .usage
  else if name = "imports".toList then do
    let (c, files) ← operands []
    return (c, .imports (← somePaths files))
  else if name = "calls".toList then do
    let (c, files) ← operands [.callee]
    return (c, .calls (← somePaths files) c.callees)
  else if name = "resolve".toList then do
    let (c, specifiers) ← operands [.start]
    if specifiers.isEmpty then .error .usage else return (c, .resolve specifiers c.start?)
  else if name = "consolidate".toList then do
    let (c, files) ← operands []
    return (c, .consolidate (← somePaths files))
  else .error .usage

/-- The invocation that the words of a command line make.  A configuration file named behind the
command goes before one named in front of it. -/
def read (words : List Text) : Except Halt Invocation := do
  let (leading, name, rest) ← readLeading none Chosen.none words
  let (own, command) ← readCommand name rest
  return ⟨own.config?.or leading.config?, command⟩

end Invocation

end ScriptSurvey
