import ObjectIds.Consumption.Document
import ObjectIds.Consumption.Remaining
import ObjectIds.Diagnostic.Report
import ObjectIds.FileScan

/-!
# Checking the ids of an app

A check compares the declarations below a path with the recorded ids and with the
ranges of the app.  It reports, file by file, first the ids without a record and then
the ids outside the ranges, and it warns about kinds that run out of ids.
-/

namespace ObjectIds

/-- What a check finds: the name of the app, what is wrong with its ids, and the kinds
that run out of ids. -/
structure Check where
  app : String
  reports : List Report
  warnings : List Consumption.Warning

namespace Check

/-- Reads recorded ids from the file at a path. -/
def readConsumption (files : Files) (path : Path) : Except Failure Consumption :=
  match (files path).text? with
  | none => .error (.consumptionUnreadable path)
  | some text =>
      match Consumption.ofText? text with
      | none => .error (.consumptionMalformed path)
      | some consumption => .ok consumption

/-- What is wrong with the ids in a file. -/
def reportsOf (consumption : Consumption) (ranges : List IdRange) (file : FileScan) :
    List Report :=
  let declarations := file.scan.declarations
  (Diagnostic.unsynchronized consumption declarations ++
      Diagnostic.outOfRange ranges declarations).map
    (Report.ofDiagnostic file.file.text file.source)

/-- What is wrong with the ids in some files. -/
def reportsOfAll (consumption : Consumption) (ranges : List IdRange)
    (scans : List FileScan) : List Report :=
  scans.flatMap (reportsOf consumption ranges)

/-- Checks the source files that a path stands for against the ids recorded in a
file. -/
def run (files : Files) (path consumptionPath : Path) (defines : List String) :
    Except Failure Check := do
  let manifest ← Manifest.load files path
  let consumption ← readConsumption files consumptionPath
  let scans ← FileScan.listAt files path (manifest.initialSymbols defines)
  return {
    app := manifest.displayName
    reports := reportsOfAll consumption manifest.ranges scans
    warnings := consumption.warnings manifest.ranges }

/-- The line for a warning about an app. -/
def warningLine (app : String) (warning : Consumption.Warning) : String :=
  app ++ ": " ++ Nat.repr warning.remaining ++ " " ++ warning.kind ++ " ids left (" ++
    Nat.repr warning.consumed ++ " used)\n"

end Check

end ObjectIds
