import ObjectIds.Command
import ObjectIds.Proofs.DiscoveredSources

/-!
# Outcomes of commands

A command meets its possible failures in a fixed order: first those of the manifest in force,
then those of the recorded ids, of the path, and of the source files one by one.  The first of
them is its outcome, and without any it answers for all source files.
-/

namespace ObjectIds

namespace Manifest

/-- What is wrong with the manifest in force for a path. -/
def failures (files : Files) (path : Path) : List Failure :=
  match discover? files path with
  | none => []
  | some directory =>
      match (files (pathIn directory)).text? with
      | none => [.manifestUnreadable (pathIn directory)]
      | some text =>
          if (ofText? text).isSome then [] else [.manifestMalformed (pathIn directory)]

/-- The manifest in force for a path, when nothing is wrong with it. -/
def inForce (files : Files) (path : Path) : Manifest :=
  ((discover? files path).bind fun directory =>
    (files (pathIn directory)).text?.bind ofText?).getD empty

theorem exists_eq_file_of_discover? {files : Files} {path directory : Path}
    (isDiscovered : discover? files path = some directory) :
    ∃ content, files (pathIn directory) = .file content := by
  have isFile := List.find?_some isDiscovered
  exact Entry.exists_eq_file_of_isFile isFile

theorem load_eq (files : Files) (path : Path) :
    load files path = Failure.firstOr (failures files path) (inForce files path) := by
  unfold load failures inForce
  cases isDiscovered : discover? files path with
  | none => rfl
  | some directory =>
      obtain ⟨content, found⟩ := exists_eq_file_of_discover? isDiscovered
      simp only [find, found, read, Option.bind_some]
      cases (Entry.file content).text? with
      | none => rfl
      | some text =>
          dsimp only [Option.bind_some]
          cases ofText? text <;> rfl

end Manifest

namespace Consumption

/-- What is wrong with the recorded ids in a file. -/
def failures (files : Files) (path : Path) : List Failure :=
  match (files path).text? with
  | none => [.consumptionUnreadable path]
  | some text => if (ofText? text).isSome then [] else [.consumptionMalformed path]

/-- The recorded ids in a file, when nothing is wrong with them. -/
def recordedIn (files : Files) (path : Path) : Consumption :=
  ((files path).text?.bind ofText?).getD empty

theorem readConsumption_eq (files : Files) (path : Path) :
    Check.readConsumption files path =
      Failure.firstOr (failures files path) (recordedIn files path) := by
  unfold Check.readConsumption failures recordedIn
  cases (files path).text? with
  | none => rfl
  | some text =>
      dsimp only [Option.bind_some]
      cases ofText? text <;> rfl

end Consumption

namespace SourceFile

/-- The source files that a path stands for, when nothing is wrong with it. -/
def foundAt (files : Files) (path : Path) : List SourceFile :=
  match files path with
  | .missing | .obstructed => []
  | .file content => if isSourceName path.name then [⟨path, content⟩] else []
  | .directory entries =>
      (sortedBelow entries).map fun found => ⟨path.below found.1, found.2⟩

/-- What is wrong with a path that should stand for source files. -/
def pathFailures (files : Files) (path : Path) : List Failure :=
  match files path with
  | .missing | .obstructed => [.pathMissing path]
  | .file _ => if isSourceName path.name then [] else [.notSource path]
  | .directory entries => failuresBelow path entries

/-- What is wrong with a source file that cannot be read or is not a text. -/
def readFailure? (file : SourceFile) : Option Failure :=
  if file.path.canBeFollowed = true ∧ (String.fromUTF8? file.content).isSome = true then none
  else some (.sourceUnreadable file.path)

theorem listAt_eq (files : Files) (path : Path) :
    listAt files path = Failure.firstOr (pathFailures files path) (foundAt files path) := by
  unfold listAt pathFailures foundAt
  cases files path with
  | missing | obstructed => rfl
  | file content =>
      dsimp only
      split <;> rfl
  | directory entries =>
      dsimp only
      rw [collectBelow_eq]
      cases failuresBelow path entries <;> rfl

/-- A readable source file with what a scan finds in its text. -/
def scanned (symbols : SymbolTable) (file : SourceFile) : FileScan :=
  let text := (String.fromUTF8? file.content).getD ""
  ⟨file.path, text, Scan.ofText text symbols⟩

theorem ofSourceFile_eq (symbols : SymbolTable) (file : SourceFile) :
    FileScan.ofSourceFile symbols file =
      Failure.firstOr file.readFailure?.toList (scanned symbols file) := by
  unfold FileScan.ofSourceFile text readFailure? scanned
  cases followed : file.path.canBeFollowed with
  | false => simp [Failure.firstOr, Except.map]
  | true => cases decoded : String.fromUTF8? file.content <;> simp [Failure.firstOr, Except.map]

theorem mapM_ofSourceFile (symbols : SymbolTable) (sources : List SourceFile) :
    sources.mapM (FileScan.ofSourceFile symbols) =
      Failure.firstOr (sources.filterMap readFailure?) (sources.map (scanned symbols)) := by
  induction sources with
  | nil => rfl
  | cons file sources ih =>
      rw [List.mapM_cons, ofSourceFile_eq, ih, List.filterMap_cons, List.map_cons]
      cases file.readFailure? with
      | some failure => rfl
      | none => cases sources.filterMap readFailure? <;> rfl

theorem scansAt_eq (files : Files) (path : Path) (symbols : SymbolTable) :
    FileScan.listAt files path symbols =
      Failure.firstOr (pathFailures files path ++ (foundAt files path).filterMap readFailure?)
        ((foundAt files path).map (scanned symbols)) := by
  rw [FileScan.listAt, listAt_eq]
  cases pathFailures files path with
  | nil => exact mapM_ofSourceFile symbols (foundAt files path)
  | cons failure later => rfl

end SourceFile

namespace Command

/-- The failures that a command meets, in the order in which it meets them. -/
def failures (files : Files) : Command → List Failure
  | .version => []
  | .scan path _ _ =>
      Manifest.failures files path ++ SourceFile.pathFailures files path ++
        (SourceFile.foundAt files path).filterMap SourceFile.readFailure?
  | .check path consumption _ =>
      Manifest.failures files path ++ Consumption.failures files consumption ++
        SourceFile.pathFailures files path ++
          (SourceFile.foundAt files path).filterMap SourceFile.readFailure?

/-- The path below which a command works. -/
def path? : Command → Option Path
  | .version => none
  | .scan path _ _ | .check path _ _ => some path

/-- The file with the recorded ids for a command. -/
def records? : Command → Option Path
  | .version | .scan _ _ _ => none
  | .check _ consumption _ => some consumption

/-- What a command answers when nothing fails: a listing of all source files, or complaints
about the source files and then the warnings about the recorded ids. -/
def answer (manifest : Manifest) (recorded : Consumption) (sources : List SourceFile) :
    Command → Outcome
  | .version => ⟨0, [.print versionText]⟩
  | .scan _ defines json =>
      let scans := sources.map (SourceFile.scanned (manifest.initialSymbols defines))
      ⟨0, [.print (if json then Listing.json scans else Listing.text scans)]⟩
  | .check _ _ defines =>
      let scans := sources.map (SourceFile.scanned (manifest.initialSymbols defines))
      let reports := scans.flatMap (Check.reportsOf recorded manifest.ranges)
      ⟨if reports = [] then 0 else 1,
        (reports.map fun report => .complain (report.file ++ ": " ++ report.message)) ++
          (recorded.warnings manifest.ranges).map fun warning =>
            .print (Check.warningLine manifest.displayName warning)⟩

/-- What a command answers from files when nothing fails. -/
def answerFrom (files : Files) (command : Command) : Outcome :=
  command.answer ((command.path?.map (Manifest.inForce files)).getD .empty)
    ((command.records?.map (Consumption.recordedIn files)).getD .empty)
    ((command.path?.map (SourceFile.foundAt files)).getD [])

theorem failures_eq_nil_iff {files : Files} {command : Command} {path : Path}
    (isPath : command.path? = some path) :
    command.failures files = [] ↔
      Manifest.failures files path = [] ∧
      (∀ file ∈ command.records?, Consumption.failures files file = []) ∧
      SourceFile.pathFailures files path = [] ∧
      (SourceFile.foundAt files path).filterMap SourceFile.readFailure? = [] := by
  cases command with
  | version => contradiction
  | scan other defines json =>
      obtain rfl : other = path := Option.some.inj isPath
      simp [failures, records?]
  | check other consumption defines =>
      obtain rfl : other = path := Option.some.inj isPath
      simp [failures, records?]

theorem listInApp_eq (files : Files) (path : Path) (defines : List String) (json : Bool) :
    FileScan.listInApp files path defines =
      Failure.firstOr (failures files (.scan path defines json))
        ((SourceFile.foundAt files path).map
          (SourceFile.scanned ((Manifest.inForce files path).initialSymbols defines))) := by
  rw [FileScan.listInApp, Manifest.load_eq, failures, List.append_assoc]
  cases Manifest.failures files path with
  | cons failure later => rfl
  | nil => exact SourceFile.scansAt_eq files path _

theorem check_eq (files : Files) (path consumption : Path) (defines : List String) :
    Check.run files path consumption defines =
      let manifest := Manifest.inForce files path
      let recorded := Consumption.recordedIn files consumption
      let scans := (SourceFile.foundAt files path).map
        (SourceFile.scanned (manifest.initialSymbols defines))
      Failure.firstOr (failures files (.check path consumption defines))
        ⟨manifest.displayName, Check.reportsOfAll recorded manifest.ranges scans,
          recorded.warnings manifest.ranges⟩ := by
  rw [Check.run, Manifest.load_eq, Consumption.readConsumption_eq, failures,
    List.append_assoc, List.append_assoc]
  cases Manifest.failures files path with
  | cons failure later => rfl
  | nil =>
      cases Consumption.failures files consumption with
      | cons failure later => rfl
      | nil =>
          simp only [Failure.firstOr, List.nil_append, SourceFile.scansAt_eq]
          cases SourceFile.pathFailures files path ++ _ <;> rfl

/-- What comes next has its effects after those of what comes first, unless this fails. -/
theorem run_bind {α β : Type} (first : Action α) (next : α → Action β) (effects : List Effect) :
    (first >>= next).run.run effects =
      match first.run.run effects with
      | (.ok value, later) => (next value).run.run later
      | (.error failure, later) => (.error failure, later) := by
  show (match first.run.run effects with
    | (result, later) => StateT.run (ExceptT.bindCont next result) later) = _
  rcases first.run.run effects with ⟨failure | value, later⟩ <;> rfl

/-- Effects that are had one after the other come after those before, in the same order. -/
theorem run_forM_perform {α : Type} (effect : α → Effect) (items : List α)
    (effects : List Effect) :
    (items.forM fun item => perform (effect item) : Action PUnit).run.run effects =
      (.ok (), (items.map effect).reverse ++ effects) := by
  induction items generalizing effects with
  | nil => rfl
  | cons item items ih =>
      rw [List.map_cons, List.reverse_cons, List.append_assoc]
      exact ih (effect item :: effects)

/-- What is done for a command adds the effects of its answer to those before, or it fails and
leaves them as they are. -/
theorem run_act (files : Files) (command : Command) (effects : List Effect) :
    ∃ problems,
      (command.answerFrom files).exitCode = (if problems = 0 then success else problem) ∧
      (command.act files).run.run effects =
        match command.failures files with
        | [] => (.ok problems, (command.answerFrom files).effects.reverse ++ effects)
        | failure :: _ => (.error failure, effects) := by
  cases command with
  | version => exact ⟨0, rfl, rfl⟩
  | scan path defines json =>
      refine ⟨0, rfl, ?_⟩
      rw [act, list, listInApp_eq]
      cases failures files (.scan path defines json) <;> rfl
  | check path consumption defines =>
      let manifest := Manifest.inForce files path
      let recorded := Consumption.recordedIn files consumption
      let reports := ((SourceFile.foundAt files path).map
        (SourceFile.scanned (manifest.initialSymbols defines))).flatMap
          (Check.reportsOf recorded manifest.ranges)
      refine ⟨reports.length, ?_, ?_⟩
      · show (if reports = [] then 0 else 1) = _
        simp only [List.length_eq_zero_iff]
        rfl
      · rw [act, checkIds, check_eq]
        cases failures files (.check path consumption defines) with
        | cons failure later => rfl
        | nil =>
            show (reports.forM _ >>= fun _ => _ : Action Nat).run.run effects = _
            rw [run_bind, run_forM_perform]
            dsimp only
            rw [run_bind, run_forM_perform, ← List.append_assoc, ← List.reverse_append]
            rfl

theorem run_eq (files : Files) (command : Command) :
    command.run files =
      match command.failures files with
      | [] => command.answerFrom files
      | failure :: _ => ⟨1, [.complain failure.message]⟩ := by
  obtain ⟨problems, isCode, isRun⟩ := run_act files command []
  rw [run, isRun]
  cases command.failures files with
  | cons failure later => rfl
  | nil =>
      dsimp only
      rw [← isCode, List.append_nil, List.reverse_reverse]

/-- A command that fails has printed nothing, and so has what was done for it. -/
theorem run_of_failures_ne_nil (files : Files) (command : Command)
    (fails : command.failures files ≠ []) :
    (command.run files).output = "" ∧
      ∀ effects, ((command.act files).run.run effects).2 = effects := by
  obtain ⟨failure, later, isFirst⟩ := List.exists_cons_of_ne_nil fails
  refine ⟨?_, fun effects => ?_⟩
  · rw [run_eq, isFirst]
    rfl
  · obtain ⟨problems, -, isRun⟩ := run_act files command effects
    rw [isRun, isFirst]

end Command

end ObjectIds
