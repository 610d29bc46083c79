import ObjectIds.Command

/-!
# Command-line arguments

The first argument that is not an option names the command.  Options may stand before
and after the path of a command, short options may be joined, and a value may be
attached to its option or follow it.  After `--` every argument is a path.  Arguments
that do not fit are a usage error, whatever else is asked for.
-/

namespace ObjectIds

namespace Command

/-- The commands that take arguments. -/
inductive Verb where
  | scan
  | check
deriving DecidableEq, Repr

/-- The options that take a value. -/
inductive ValueOption where
  | define
  | consumption
deriving DecidableEq, Repr

/-- An argument of a command. -/
inductive Argument where
  /-- A path. -/
  | operand (text : String)
  /-- The end of the options. -/
  | endOfOptions
  /-- A request for more messages. -/
  | verbose
  /-- A request for a JSON document. -/
  | json
  /-- An option that takes a value, and the value if it is attached. -/
  | valued (option : ValueOption) (attached : Option String)
deriving DecidableEq, Repr

namespace Argument

/-- The value attached to a short option: what follows it, less an equals sign. -/
def attached? : List Char → Option String
  | [] => none
  | '=' :: value => some (String.ofList value)
  | value => some (String.ofList value)

/-- Reads short options that are joined. -/
def ofShort? : List Char → Option Argument
  | [] => some .verbose
  | 'v' :: others => ofShort? others
  | 'D' :: value => some (.valued .define (attached? value))
  | _ => none

/-- Reads the name of a long option, and its value if one is attached. -/
def ofLong? (verb : Verb) (name : String) (attached : Option String) :
    Option Argument :=
  match verb, name, attached with
  | _, "define", _ => some (.valued .define attached)
  | _, "verbose", none => some .verbose
  | .scan, "json", none => some .json
  | .check, "consumption", _ => some (.valued .consumption attached)
  | _, _, _ => none

/-- The name of a long option and the value attached to it with an equals sign. -/
def splitLong (option : List Char) : String × Option String :=
  let name := String.ofList (option.takeWhile (· != '='))
  match option.dropWhile (· != '=') with
  | [] => (name, none)
  | _ :: value => (name, some (String.ofList value))

/-- Reads an argument of a command. -/
def ofText? (verb : Verb) (text : String) : Option Argument :=
  match text.toList with
  | ['-', '-'] => some .endOfOptions
  | '-' :: '-' :: option =>
      let (name, attached) := splitLong option
      ofLong? verb name attached
  | '-' :: first :: others => ofShort? (first :: others)
  | _ => some (.operand text)

end Argument

/-- Whether an argument cannot be the value of the option before it. -/
def looksLikeOption (text : String) : Bool :=
  match text.toList with
  | '-' :: _ :: _ => true
  | _ => false

/-- What the arguments of a command say; symbols are given latest first. -/
structure Options where
  path : Option String
  consumption : Option String
  defines : List String
  json : Bool
deriving DecidableEq, Repr

namespace Options

/-- The options of a command without arguments. -/
def none : Options := ⟨.none, .none, [], false⟩

/-- Sets the path, once. -/
def setPath? (options : Options) (path : String) : Option Options :=
  if options.path.isSome then .none else some { options with path := some path }

/-- Asks for a JSON document, once. -/
def setJson? (options : Options) : Option Options :=
  if options.json then .none else some { options with json := true }

/-- Sets a value: symbols any number of times, the recorded ids once. -/
def setValue? (options : Options) (value : String) : ValueOption → Option Options
  | .define => some { options with defines := value :: options.defines }
  | .consumption =>
      if options.consumption.isSome then .none
      else some { options with consumption := some value }

/-- Reads paths. -/
def readOperands? (options : Options) : List String → Option Options
  | [] => some options
  | path :: rest => (options.setPath? path).bind (readOperands? · rest)

/-- Reads the arguments of a command. -/
def read? (verb : Verb) (options : Options) : List String → Option Options
  | [] => some options
  | text :: rest =>
      match Argument.ofText? verb text with
      | .none => .none
      | some (.operand path) => (options.setPath? path).bind (read? verb · rest)
      | some .endOfOptions => options.readOperands? rest
      | some .verbose => read? verb options rest
      | some .json => options.setJson?.bind (read? verb · rest)
      | some (.valued option (some value)) =>
          (options.setValue? value option).bind (read? verb · rest)
      | some (.valued option .none) =>
          match rest with
          | [] => .none
          | value :: others =>
              if looksLikeOption value then .none
              else (options.setValue? value option).bind (read? verb · others)

end Options

/-- The path of a command that is given none. -/
def defaultPath : String := "."

/-- The command with given options. -/
def ofOptions? (verb : Verb) (options : Options) : Option Command :=
  let path : Path := ⟨options.path.getD defaultPath⟩
  let defines := options.defines.reverse
  match verb with
  | .scan => some (.scan path defines options.json)
  | .check => options.consumption.map fun file => .check path ⟨file⟩ defines

/-- Reads options that stand before a command and are joined: whether the version is
asked for. -/
def readLeading? : List Char → Option Bool
  | [] => some false
  | 'v' :: others => readLeading? others
  | 'V' :: _ => some true
  | _ => none

/-- Reads the arguments of the program. -/
def ofArguments? : List String → Option Command
  | [] => none
  | text :: rest =>
      match text with
      | "scan" => (Options.none.read? .scan rest).bind (ofOptions? .scan)
      | "check" => (Options.none.read? .check rest).bind (ofOptions? .check)
      | "--version" => some .version
      | "--verbose" => ofArguments? rest
      | _ =>
          match text.toList with
          | '-' :: first :: others =>
              match readLeading? (first :: others) with
              | none => none
              | some true => some .version
              | some false => ofArguments? rest
          | _ => none

/-- Carries out the command that the arguments ask for. -/
def runArguments (files : Files) (arguments : List String) : Outcome :=
  match ofArguments? arguments with
  | none => ⟨usageError, [.complain "usage: objid <scan|check> [PATH] [OPTIONS]"]⟩
  | some command => command.run files

end Command

end ObjectIds
