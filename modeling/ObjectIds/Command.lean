import ObjectIds.Check
import ObjectIds.Listing

/-!
# Commands

A command is carried out on the files that are found at paths.  What it prints and what
it complains about, one after the other, are its effects.  A command that fails on the
way keeps the effects that it had before.
-/

namespace ObjectIds

/-- What the program is asked to do. -/
inductive Command where
  /-- Print the version. -/
  | version
  /-- List the declarations below a path, as a JSON document if so asked. -/
  | scan (path : Path) (defines : List String) (json : Bool)
  /-- Check the ids below a path against the ids recorded in a file. -/
  | check (path consumption : Path) (defines : List String)
deriving DecidableEq, Repr

namespace Command

/-- Something that can be seen of a command from outside. -/
inductive Effect where
  /-- A text is printed. -/
  | print (text : String)
  /-- A complaint is made, which is not part of what is printed. -/
  | complain (text : String)
deriving DecidableEq, Repr

/-- The text that an effect prints, if it does. -/
def Effect.printed? : Effect → Option String
  | .print text => some text
  | .complain _ => none

/-- What a command does: its exit code, and its effects in the order in which they
happen. -/
structure Outcome where
  exitCode : UInt32
  effects : List Effect
deriving DecidableEq, Repr

/-- The text that a command prints. -/
def Outcome.output (outcome : Outcome) : String :=
  String.join (outcome.effects.filterMap Effect.printed?)

/-- The exit code when all is well. -/
def success : UInt32 := 0

/-- The exit code when a command fails or finds something wrong. -/
def problem : UInt32 := 1

/-- The exit code when the arguments are not a command. -/
def usageError : UInt32 := 2

/-- A part of a command, which may fail.  The effects until now are given last
first. -/
abbrev Action := ExceptT Failure (StateM (List Effect))

/-- Has an effect. -/
def perform (effect : Effect) : Action Unit := modify (effect :: ·)

/-- Lists the declarations below a path. -/
def list (files : Files) (path : Path) (defines : List String) (json : Bool) :
    Action Unit := do
  let scans ← FileScan.listInApp files path defines
  perform (.print (if json then Listing.json scans else Listing.text scans))

/-- The complaint about an id. -/
def complaint (report : Report) : String := report.file ++ ": " ++ report.message

/-- Checks the ids below a path, first those in the source files and then those that
are left.  Gives the number of problems in the source files. -/
def checkIds (files : Files) (path consumption : Path) (defines : List String) :
    Action Nat := do
  let check ← Check.run files path consumption defines
  check.reports.forM fun report => perform (.complain (complaint report))
  check.warnings.forM fun warning =>
    perform (.print (Check.warningLine check.app warning))
  return check.reports.length

/-- The name and the number of this version of the program. -/
def versionText : String := "objid 0.1.0\n"

/-- What is done for a command.  Gives the number of problems that are found. -/
def act (files : Files) : Command → Action Nat
  | .version => do
      perform (.print versionText)
      return 0
  | .scan path defines json => do
      list files path defines json
      return 0
  | .check path consumption defines => checkIds files path consumption defines

/-- Carries out a command.  If it fails it complains about that last. -/
def run (files : Files) (command : Command) : Outcome :=
  match (command.act files).run.run [] with
  | (.ok problems, effects) =>
      ⟨if problems = 0 then success else problem, effects.reverse⟩
  | (.error failure, effects) =>
      ⟨problem, (.complain failure.message :: effects).reverse⟩

/-- The paths at which a command may look: a path and the manifests of the directories
above it, and the file with the recorded ids. -/
def paths : Command → List Path
  | .version => []
  | .scan path _ _ => path :: path.ancestors.map Manifest.pathIn
  | .check path consumption _ =>
      consumption :: path :: path.ancestors.map Manifest.pathIn

end Command

end ObjectIds
