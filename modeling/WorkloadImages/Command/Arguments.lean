import WorkloadImages.Text.Split

/-!
# The command line

The arguments of the program as a command. Options may stand before or after what they go with; a
value follows its option or an equals sign. After two hyphens nothing is an option.

## Main definitions

* `Command`: what is asked for
* `Command.ofArguments`: arguments as a command, or why they are none
-/

namespace WorkloadImages

/-- The form in which results are written. -/
inductive Format where
  /-- As lines for people. -/
  | text
  /-- As JSON. -/
  | json
  /-- As YAML. -/
  | yaml
  deriving Repr, DecidableEq

/-- The form that a word names. -/
def Format.ofWord? : String → Option Format
  | "text" => some text
  | "json" => some json
  | "yaml" => some yaml
  | _ => none

/-- Where a manifest is read from. -/
inductive Source where
  /-- The standard input. -/
  | stdin
  /-- A file. -/
  | file (path : String)
  deriving Repr, DecidableEq

/-- The name of a source in messages. -/
def Source.name : Source → String
  | stdin => "stdin"
  | file path => path

/-- Whether a path is a lone hyphen. What names the same place again may follow it: slashes, and
periods between them. -/
def isHyphen (path : List Char) : Bool :=
  match Text.pieces '/' path with
  | first :: rest => first = ['-'] && rest.all fun segment => segment = [] || segment = ['.']
  | [] => false

/-- The source that a path names; a hyphen names the standard input. -/
def Source.ofPath (path : String) : Source := if isHyphen path.toList then stdin else file path

/-- What is asked of the program. -/
inductive Command where
  /-- The parts of references. -/
  | parse (references : List String) (format : Format)
  /-- The images of a manifest. -/
  | images (source : Source) (format : Format) (strict : Bool)
  /-- A manifest with its images written in full, in its own format unless one is given. -/
  | canonicalize (source : Source) (format : Option Format) (strict : Bool)
  /-- How the program is used. -/
  | help
  /-- The version of the program or of one of its commands. -/
  | version (name : String)
  deriving Repr, DecidableEq

namespace Command

/-- The name of the program. -/
def program : String := "kanon"

/-- A command by its word. -/
inductive Verb where
  | parse
  | images
  | canonicalize
  deriving Repr, DecidableEq

/-- The word of a command. -/
def Verb.word : Verb → String
  | parse => "parse"
  | images => "images"
  | canonicalize => "canonicalize"

/-- The command that a word names. -/
def Verb.ofWord? (word : String) : Option Verb :=
  [parse, images, canonicalize].find? (·.word = word)

/-- Why arguments are no command of their own. -/
inductive Stop where
  /-- They are not understood. -/
  | usage
  /-- Help is asked for before anything that is not understood. -/
  | help
  /-- The version is asked for before anything that is not understood. -/
  | version
  deriving Repr, DecidableEq

/-- What has been read of the arguments of a command. -/
structure Settings where
  /-- The arguments that are no options. -/
  operands : List String
  /-- The form that is asked for. -/
  format : Option Format
  /-- Whether every image has to be readable. -/
  strict : Bool
  /-- Whether more diagnostics are asked for. -/
  debug : Bool
  deriving Repr, DecidableEq

namespace Settings

/-- Nothing has been read. -/
def empty : Settings := ⟨[], none, false, false⟩

/-- The settings with a form, which may be given once. -/
def setFormat (settings : Settings) (word : List Char) : Except Stop Settings :=
  match settings.format, Format.ofWord? (String.ofList word) with
  | none, some format => .ok { settings with format := some format }
  | _, _ => .error .usage

/-- The settings with a flag for strictness, which some commands have, once. -/
def setStrict (verb : Verb) (settings : Settings) : Except Stop Settings :=
  if verb = .parse ∨ settings.strict then .error .usage else .ok { settings with strict := true }

/-- The settings with a flag for diagnostics, which may be given once. -/
def setDebug (settings : Settings) : Except Stop Settings :=
  if settings.debug then .error .usage else .ok { settings with debug := true }

/-- The settings with one more operand. A manifest is read from one path, which is not empty. -/
def addOperand (verb : Verb) (settings : Settings) (operand : String) : Except Stop Settings :=
  if verb ≠ .parse ∧ (operand = "" ∨ settings.operands ≠ []) then .error .usage
  else .ok { settings with operands := settings.operands ++ [operand] }

end Settings

/-! ## Options -/

/-- The name of a long option and the value after an equals sign, from after its hyphens. -/
def splitLong (option : List Char) : List Char × Option (List Char) :=
  match option.dropWhile (· ≠ '=') with
  | [] => (option, none)
  | _ :: value => (option.takeWhile (· ≠ '='), some value)

/-- The settings after a form that is given here or as the next argument, and the arguments that
are left. -/
def readFormat (settings : Settings) (value : Option (List Char)) (rest : List String) :
    Except Stop (Settings × List String) :=
  match value, rest with
  | some value, rest => (settings.setFormat value).map (·, rest)
  | none, value :: rest => (settings.setFormat value.toList).map (·, rest)
  | none, [] => .error .usage

/-- The settings after a long option, and the arguments that are left. -/
def readLong (verb : Verb) (settings : Settings) (option : List Char) (rest : List String) :
    Except Stop (Settings × List String) :=
  match splitLong option with
  | (name, value) =>
    if name = "output".toList then readFormat settings value rest
    else if value.isSome then .error .usage
    else if name = "help".toList then .error .help
    else if name = "version".toList then .error .version
    else if name = "strict".toList then (settings.setStrict verb).map (·, rest)
    else if name = "debug".toList then settings.setDebug.map (·, rest)
    else .error .usage

/-- The settings after short options behind one hyphen, and the arguments that are left. -/
def readShort (settings : Settings) (options : List Char) (rest : List String) :
    Except Stop (Settings × List String) :=
  match options with
  | 'h' :: _ => .error .help
  | 'V' :: _ => .error .version
  | 'o' :: '=' :: value => readFormat settings (some value) rest
  | 'o' :: [] => readFormat settings none rest
  | 'o' :: value => readFormat settings (some value) rest
  | _ => .error .usage

/-- The settings after arguments from left to right; each takes one argument or two, which `fuel`
bounds. -/
def readSettings (verb : Verb) : Nat → Settings → List String → Except Stop Settings
  | 0, settings, _ => .ok settings
  | _, settings, [] => .ok settings
  | fuel + 1, settings, argument :: rest =>
    match argument.toList with
    -- From here on a hyphen at the front of an argument means nothing.
    | ['-', '-'] => rest.foldlM (Settings.addOperand verb) settings
    | '-' :: '-' :: option => do
      let (settings, rest) ← readLong verb settings option rest
      readSettings verb fuel settings rest
    -- A lone hyphen is an operand.
    | '-' :: option :: options => do
      let (settings, rest) ← readShort settings (option :: options) rest
      readSettings verb fuel settings rest
    | _ => do
      let settings ← settings.addOperand verb argument
      readSettings verb fuel settings rest

/-- The command of a word with settings, if nothing is missing. -/
def ofSettings (verb : Verb) (settings : Settings) : Except Stop Command :=
  let source := Source.ofPath (settings.operands.headD "-")
  match verb with
  | .parse =>
    if settings.operands.isEmpty then .error .usage
    else .ok (.parse settings.operands (settings.format.getD .text))
  | .images => .ok (.images source (settings.format.getD .text) settings.strict)
  | .canonicalize => .ok (.canonicalize source settings.format settings.strict)

/-- The command of a word with its arguments. -/
def ofVerb (verb : Verb) (arguments : List String) : Except Stop Command :=
  match readSettings verb (arguments.length + 1) .empty arguments with
  | .error .help => .ok .help
  | .error .version => .ok (.version (program ++ "-" ++ verb.word))
  | .error .usage => .error .usage
  | .ok settings => ofSettings verb settings

/-- The help that words after the word `help` ask for. -/
def helpFor : List String → Except Stop Command
  | [] => .ok .help
  | [word] => if word = "help" ∨ (Verb.ofWord? word).isSome then .ok .help else .error .usage
  | _ => .error .usage

/-- Arguments as a command. Before its word only the options of all commands may stand; `debug`
tells whether one has. -/
def ofArgumentsFrom (debug : Bool) : List String → Except Stop Command
  | [] => .error .usage
  | argument :: rest =>
    match argument.toList with
    | '-' :: 'h' :: _ => .ok .help
    | '-' :: 'V' :: _ => .ok (.version program)
    | _ =>
      if argument = "--debug" then
        if debug then .error .usage else ofArgumentsFrom true rest
      else if argument = "--help" then .ok .help
      else if argument = "--version" then .ok (.version program)
      else if argument = "help" then helpFor rest
      else match Verb.ofWord? argument with
        | some verb => ofVerb verb rest
        | none => .error .usage

/-- Arguments as a command, or why they are none. -/
def ofArguments (arguments : List String) : Except Stop Command := ofArgumentsFrom false arguments

end Command

end WorkloadImages
