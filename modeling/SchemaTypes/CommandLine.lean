import SchemaTypes.Run

/-! The command line. -/
namespace SchemaTypes

/-- What a command line asks for. -/
inductive Request where
  | run (options : RunOptions)
  | version
  | help
  /-- The arguments cannot be understood. -/
  | misuse
deriving DecidableEq, Repr

namespace CommandLine

def versionText : String := "swagger-ts 0.1.0\n"

def helpText : String :=
  "Generate TypeScript types from Swagger 2.0 definitions\n\n"
    ++ "Usage: swagger-ts [OPTIONS] <INPUT>\n\n"
    ++ "Arguments:\n"
    ++ "  <INPUT>  Swagger document (.json, .yaml or .yml)\n\n"
    ++ "Options:\n"
    ++ "  -o, --output <OUTPUT>        Output file. Prints to stdout when omitted\n"
    ++ "      --config <CONFIG>        Config file (defaults to ./swagger-ts.toml when present)\n"
    ++ "      --formatter <FORMATTER>  Formatter command the output is piped through, "
    ++ "e.g. \"npx prettier\"\n"
    ++ "      --container <CONTAINER>  Name of the exported interface\n"
    ++ "  -h, --help                   Print help\n"
    ++ "  -V, --version                Print version\n"

/-- What is printed for arguments that cannot be understood. -/
def usageText : String :=
  "error: the arguments cannot be understood\n\n"
    ++ "Usage: swagger-ts [OPTIONS] <INPUT>\n\n"
    ++ "For more information, try '--help'.\n"

inductive Flag where
  | output
  | config
  | formatter
  | container
  | help
  | version
deriving DecidableEq, Repr

namespace Flag

def ofName? (name : String) : Option Flag :=
  [("output", output), ("config", config), ("formatter", formatter), ("container", container),
    ("help", help), ("version", version)].lookup name

def ofLetter? (letter : Char) : Option Flag :=
  [('o', output), ('h', help), ('V', version)].lookup letter

end Flag

/-- The options read so far, and whether the input was among them. -/
structure Reading where
  options : RunOptions := {}
  hasInput : Bool := false

/-- Gives a flag its value. A flag comes at most once, and no path is empty. -/
def Reading.set? (r : Reading) (flag : Flag) (value : String) : Option Reading :=
  let once := fun (old : Option String) (options : RunOptions) =>
    if old.isSome then none else some { r with options }
  match flag with
  | .output =>
    if value = "" then none else once r.options.output { r.options with output := some value }
  | .config =>
    if value = "" then none else once r.options.config { r.options with config := some value }
  | .formatter => once r.options.formatter { r.options with formatter := some value }
  | .container => once r.options.container { r.options with container := some value }
  | _ => none

def Reading.input? (r : Reading) (value : String) : Option Reading :=
  if r.hasInput ∨ value = "" then none
  else some { options := { r.options with input := value }, hasInput := true }

/-- What an argument is, as long as no `--` came before. -/
inductive Argument where
  | endOfFlags
  | flag (flag : Flag) (value : Option String)
  | unknown
  | input (value : String)

/-- Splits `--name=value`. -/
def splitEquals (cs : List Char) : String × Option String :=
  let name := String.ofList (cs.takeWhile (· != '='))
  match cs.dropWhile (· != '=') with
  | _ :: value => (name, some (String.ofList value))
  | [] => (name, none)

def argument (text : String) : Argument :=
  match text.toList with
  | ['-', '-'] => .endOfFlags
  | '-' :: '-' :: rest =>
    let (name, value) := splitEquals rest
    match Flag.ofName? name with
    | some flag => .flag flag value
    | none => .unknown
  | '-' :: letter :: rest =>
    match Flag.ofLetter? letter with
    | some .output =>
      match rest with
      | [] => .flag .output none
      | '=' :: value => .flag .output (some (String.ofList value))
      | value => .flag .output (some (String.ofList value))
    | some flag => .flag flag none
    | none => .unknown
  | _ => .input text

/-- Reads the arguments in order; the first one that decides the request ends the reading. -/
def requestFrom (r : Reading) (flagsEnded : Bool) : List String → Request
  | [] => if r.hasInput then .run r.options else .misuse
  | text :: rest =>
    if flagsEnded then
      match r.input? text with
      | some r => requestFrom r true rest
      | none => .misuse
    else
      match argument text with
      | .endOfFlags => requestFrom r true rest
      | .unknown => .misuse
      | .input value =>
        match r.input? value with
        | some r => requestFrom r false rest
        | none => .misuse
      | .flag .help none => .help
      | .flag .version none => .version
      | .flag flag (some value) =>
        match r.set? flag value with
        | some r => requestFrom r false rest
        | none => .misuse
      | .flag flag none =>
        match rest with
        | [] => .misuse
        | value :: rest =>
          match argument value with
          | .input value =>
            match r.set? flag value with
            | some r => requestFrom r false rest
            | none => .misuse
          | _ => .misuse

def request (arguments : List String) : Request := requestFrom {} false arguments

end CommandLine

/-- What the program leaves when it ends. -/
structure Exit where
  code : Nat
  printed : ByteArray := .empty
  errors : String := ""
  disk : Disk

/-- The program: a failed run ends with 1, arguments that cannot be understood with 2. -/
def CommandLine.exit (arguments : List String) (place : Place)
    (launch : Launcher Disk) (console : Console := .unlimited) : Exit :=
  match request arguments with
  | .help => { code := 0, printed := (console.print helpText.toUTF8).2, disk := place.disk }
  | .version => { code := 0, printed := (console.print versionText.toUTF8).2, disk := place.disk }
  | .misuse => { code := 2, errors := usageText, disk := place.disk }
  | .run options =>
    let run := options.run place launch console
    match run.result with
    | .ok () => { code := 0, printed := run.printed, disk := run.disk }
    | .error error =>
      { code := 1, printed := run.printed, errors := "Error: " ++ error.message ++ "\n",
        disk := run.disk }

end SchemaTypes
