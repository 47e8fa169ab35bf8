import SchemaTypes.CommandLine

/-! The program: reads the files that the arguments name, and writes what a run has changed. The
programs that may be formatters come from outside. -/
namespace SchemaTypes.Main

/-- The answer behind a failure of the real system. -/
def causeOf : IO.Error → SystemError
  | .noFileOrDirectory _ _ _ => .notFound
  | .permissionDenied _ _ _ => .permissionDenied
  | error => .other (toString error)

/-- The places that a path from the root goes through. -/
def placesFrom (place : List String) : List String → List (List String)
  | [] => []
  | part :: rest =>
    if part = "" ∨ part = "." then placesFrom place rest
    else
      let place := if part = ".." then place.dropLast else place ++ [part]
      place :: placesFrom place rest

def pathOf (place : List String) : String := "/" ++ "/".intercalate place

/-- The entry at a place, if it can be read. -/
def entryAt? (place : List String) : IO (Option Entry) := do
  try
    let path ← IO.FS.realPath (pathOf place)
    if ← path.isDir then return some .directory
    return some (.file (← IO.FS.readBinFile path))
  catch _ => return none

/-- Adds what stands along some paths. -/
def load (place : Place) (paths : List String) : IO Place := do
  let mut disk := place.disk
  for path in paths do
    for found in placesFrom (Disk.start place.directory path) (Path.split path) do
      if let some entry ← entryAt? found then disk := disk.put found entry
  return { place with disk }

/-- The paths that a run reads, and the one that it writes. -/
def pathsOf (options : RunOptions) (config : Config) : List String :=
  let words := ((Settings.resolve config options).formatter.map Text.words).getD []
  options.input :: options.output.toList ++ words

/-- The place that the arguments need. -/
def placeFor (arguments : List String) : IO Place := do
  let current : Except SystemError String ←
    try pure (.ok (← IO.currentDir).toString)
    catch error => pure (.error (causeOf error))
  -- Nothing is found from a directory that is gone.
  let directory := current.toOption.getD "/(unreachable)"
  let place ← load { disk := ⟨[]⟩, directory, currentDirectory := current } [directory]
  match CommandLine.request arguments with
  | .run options =>
    let place ← load place [options.config.getD Config.fileName]
    match options.loadConfig place with
    | .ok config => load place (pathsOf options config)
    | .error _ => return place
  | _ => return place

def sameEntry : Option Entry → Entry → Bool
  | some .directory, .directory => true
  | some (.file old), .file new => old == new
  | _, _ => false

/-- Writes the entries that are new or changed; directories come before what they hold. -/
def save (old new : Disk) : IO Unit := do
  for (place, entry) in new.entries.mergeSort fun a b => a.1.length ≤ b.1.length do
    unless sameEntry (old.find? place) entry do
      match entry with
      | .directory => IO.FS.createDirAll (pathOf place)
      | .file content => IO.FS.writeBinFile (pathOf place) content

/-- Runs the program on the real files, with the programs of a working directory. -/
def run (programs : String → Launcher Disk) (arguments : List String) : IO UInt32 := do
  let place ← placeFor arguments
  let launch := programs place.directory
  let exit := CommandLine.exit arguments place launch
  save place.disk exit.disk
  let stdout ← IO.getStdout
  let exit : Exit ←
    try
      stdout.write exit.printed
      stdout.flush
      pure exit
    catch error => pure (CommandLine.exit arguments place launch (.limited 0 (causeOf error)))
  IO.eprint exit.errors
  return exit.code.toUInt32

end SchemaTypes.Main
