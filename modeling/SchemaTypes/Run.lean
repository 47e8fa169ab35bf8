import SchemaTypes.Disk
import SchemaTypes.Settings

/-! A whole run: settings, input, interface, output. -/
namespace SchemaTypes

inductive RunError where
  | directoryUnknown (cause : SystemError)
  | configUnread (path : String) (cause : SystemError)
  | configInvalid (path : String)
  | settings (cause : Settings.Error)
  | inputUnread (path : String) (cause : SystemError)
  | notGenerated (path : String) (cause : GenerateError)
  | directoryNotMade (cause : SystemError)
  | notWritten (path : String) (cause : SystemError)
  | notPrinted (cause : SystemError)
deriving DecidableEq, Repr

def RunError.message : RunError → String
  | .directoryUnknown cause => "Failed to determine working directory: " ++ cause.message
  | .configUnread path cause => "Failed to read config file " ++ path ++ ": " ++ cause.message
  | .configInvalid path => "Failed to parse config file " ++ path
  | .settings cause => cause.message
  | .inputUnread path cause => "Failed to read " ++ path ++ ": " ++ cause.message
  | .notGenerated path cause => "Failed to generate types from " ++ path ++ ": " ++ cause.message
  | .directoryNotMade cause => "Failed to create output directory: " ++ cause.message
  | .notWritten path cause => "Failed to write " ++ path ++ ": " ++ cause.message
  | .notPrinted cause => "Failed to write to stdout: " ++ cause.message

/-- What a run leaves: its result, the files, and what it printed. -/
structure RunResult where
  result : Except RunError Unit
  disk : Disk
  printed : ByteArray := .empty

namespace Config

def load (place : Place) (path : String) : Except RunError Config :=
  match place.disk.readText place.directory path with
  | .error cause => .error (.configUnread path cause)
  | .ok text =>
    match ofToml? text with
    | some config => .ok config
    | none => .error (.configInvalid path)

/-- The file of the standard name in a directory, if there is one. -/
def discover (place : Place) (directory : String) : Except RunError Config :=
  let path := Path.join directory fileName
  if place.disk.isPresent place.directory path then load place path else .ok {}

end Config

namespace RunOptions

/-- The interface for the document in a file, and the files as the formatter leaves them. -/
def generateFile (place : Place) (path : String) (generator : Generator Disk) :
    Except RunError String × Disk :=
  match place.disk.readText place.directory path with
  | .error cause => (.error (.inputUnread path cause), place.disk)
  | .ok text =>
    let run : Noted (Except GenerateError String × Disk) :=
      match InputFormat.ofPath path with
      | .json => generator.generateJson text place.disk
      | .yaml => generator.generateYaml text place.disk
    match run.value with
    | (.ok source, disk) => (.ok source, disk)
    | (.error cause, disk) => (.error (.notGenerated path cause), disk)

/-- The configuration file that is named, or the one of the standard name in the working
directory. -/
def loadConfig (options : RunOptions) (place : Place) : Except RunError Config :=
  match options.config with
  | some path => Config.load place path
  | none =>
    match place.currentDirectory with
    | .ok directory => Config.discover place directory
    | .error cause => .error (.directoryUnknown cause)

/-- Everything before the output: the settings first, then the input. -/
def source (options : RunOptions) (place : Place) (launch : Launcher Disk) :
    Except RunError String × Disk :=
  match options.loadConfig place with
  | .error error => (.error error, place.disk)
  | .ok config =>
    match (Settings.resolve config options).generator launch with
    | .error cause => (.error (.settings cause), place.disk)
    | .ok generator => generateFile place options.input generator

/-- Makes the missing directories that the file at a path stands in. -/
def makeParents (place : Place) (path : String) : Except SystemError Unit × Disk :=
  match Path.parent? path with
  | none | some "" => (.ok (), place.disk)
  | some parent =>
    place.disk.makeDirectories place.directory ((Path.components path).length + 1) parent

/-- Writes the output file, and the directories it stands in. -/
def writeOutput (place : Place) (path source : String) : Except RunError Unit × Disk :=
  match makeParents place path with
  | (.error cause, disk) => (.error (.directoryNotMade cause), disk)
  | (.ok (), disk) =>
    match disk.write place.directory path source.toUTF8 with
    | .ok disk => (.ok (), disk)
    | .error cause => (.error (.notWritten path cause), disk)

/-- Runs the program. Without an output file the source is printed. -/
def run (options : RunOptions) (place : Place) (launch : Launcher Disk)
    (console : Console := .unlimited) : RunResult :=
  match options.source place launch with
  | (.error error, disk) => { result := .error error, disk }
  | (.ok source, disk) =>
    match options.output with
    | none =>
      let (result, printed) := console.print source.toUTF8
      { result := result.mapError .notPrinted, disk, printed }
    | some path =>
      let (result, disk) := writeOutput { place with disk } path source
      { result, disk }

end RunOptions
end SchemaTypes
