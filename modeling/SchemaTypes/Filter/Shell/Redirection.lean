import SchemaTypes.Filter.Shell.Expansion

/-! The channels behind redirections. -/
namespace SchemaTypes.Filter.Shell

def cannotOpen (path : String) : String := "cannot open " ++ path ++ ": No such file"

/-- What is said of a file that cannot be made. -/
def cannotCreate (path : String) (cause : SystemError) : String :=
  "cannot create " ++ path ++ ": " ++ match cause with
    | .notFound | .notDirectory => "Directory nonexistent"
    | cause => briefCause cause

/-- Opens a file for writing; what is in it goes unless `keeps` holds. -/
def openOutput (shell : Shell) (keeps : Bool) (path : String) :
    Except String (Shell × Option Channel) :=
  let place := shell.place
  let old := if keeps then
      match place.read path with
      | .ok content => content
      | .error _ => .empty
    else .empty
  match place.disk.spot place.directory path, place.disk.write place.directory path old with
  | .ok (.named found _), .ok disk => .ok (shell.setDisk disk, some (.file found))
  | _, .error cause | .error cause, _ => .error (cannotCreate path cause)
  | .ok .fixed, .ok _ => .error (cannotCreate path .isDirectory)

/-- Opens the target of a redirection, or finds what is wrong with it. -/
def openTarget (shell : Shell) (direction : Direction) (target : String) :
    Except String (Shell × Option Channel) :=
  let same (n : Nat) : Option Channel := shell.channels.lookup n
  if target = "/dev/null" ∧ direction ≠ .here ∧ direction ≠ .same then .ok (shell, some .void)
  else
    match direction with
    | .here =>
      let (shell, source) := shell.addSource target.toUTF8
      .ok (shell, some source)
    | .input =>
      if target = "/dev/stdin" then .ok (shell, same 0)
      else
        match shell.place.read target with
        | .ok bytes =>
          let (shell, source) := shell.addSource bytes
          .ok (shell, some source)
        | .error .isDirectory => .ok (shell, some .void)
        | .error _ => .error (cannotOpen target)
    | .output | .append =>
      if target = "/dev/stdout" then .ok (shell, same 1)
      else if target = "/dev/stderr" then .ok (shell, same 2)
      else shell.openOutput (direction == .append) target
    | .same =>
      if target = "-" then .ok (shell, none)
      else
        match target.toNat?.filter fun n => target == toString n with
        | some n => match same n with
          | some channel => .ok (shell, some channel)
          | none => .error (target ++ ": Bad file descriptor")
        | none => .error (target ++ ": Bad file descriptor")

/-- Whether a target is the number of a channel. -/
def isChannelNumber (target : String) : Bool :=
  match target.toList with
  | [c] => c.isDigit
  | _ => false

/-- The targets of redirections as texts, but for inputs that stand in the script. -/
def targets (world : World) (line : Nat) : List Redirect → StateM Shell (List (Redirect × String))
  | [] => return []
  | r :: rest => do
    let target ← if r.direction == .here then pure "" else wordText world line r.target
    if r.direction == .same && target != "-" && !isChannelNumber target then
      refuse line "Syntax error: Bad fd number"
    return (r, target) :: (← targets world line rest)

/-- The text of an input that stands in the script. An error in it is one of the redirection. -/
def hereText? (world : World) (line : Nat) (word : Word) : StateM Shell (Option String) := do
  let text ← wordText world line word
  let shell ← get
  if shell.halt = some .abort then
    set { shell with halt := none }
    return none
  else return some text

/-- Applies redirections from left to right, and says whether all of them could be. -/
def redirect (world : World) (line : Nat) : List (Redirect × String) → StateM Shell Bool
  | [] => return true
  | (r, target) :: rest => do
    let text ← if r.direction == .here then hereText? world line r.target else pure (some target)
    match text, (← get).openTarget r.direction (text.getD "") with
    | none, _ => return false
    | some _, .ok (shell, opened) =>
      set { shell with channels := shell.channels.set r.channel opened }
      redirect world line rest
    | some _, .error problem =>
      modify (·.fail line problem 2)
      return false

/-- Expands and applies redirections, and says whether all of them could be applied. -/
def redirectAll (world : World) (line : Nat) (redirects : List Redirect) : StateM Shell Bool := do
  let targets ← targets world line redirects
  if (← get).isHalted then return false
  redirect world line targets

/-- Gives the channels of redirections what they were before. -/
def undo (before : Channels) (redirects : List Redirect) (shell : Shell) : Shell :=
  { shell with channels := redirects.foldl (fun channels r =>
      channels.set r.channel (before.lookup r.channel)) shell.channels }

/-- Ends a strict shell behind a command that has failed. -/
def settle (shell : Shell) (tested : Bool) : Shell :=
  if shell.isStrict && !tested && shell.status != 0 && !shell.isHalted then
    shell.leave shell.status
  else shell

/-- Runs something behind redirections and undoes them. Nothing is run if one of them fails. -/
def redirected (world : World) (tested : Bool) (line : Nat) (redirects : List Redirect)
    (run : Shell → Shell) (shell : Shell) : Shell :=
  let (opened, after) := (redirectAll world line redirects).run shell
  (if opened then run after else after.settle tested).undo shell.channels redirects

end SchemaTypes.Filter.Shell
