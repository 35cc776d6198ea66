import Quorum.Group

namespace Quorum

/-- What the demonstration is to do. -/
structure DemoOptions where
  members : List MemberId := [1, 2, 3]
  /-- The file that holds the settings. -/
  configPath : Option String := none
  group : String := GroupId.default.name
  /-- Whether to go on without the leader after the first round. -/
  failover : Bool := false
  deriving DecidableEq

namespace CommandLine

/-- Why arguments ask for no demonstration. -/
inductive Refusal where
  | help
  | version
  | unreadable
  deriving DecidableEq

/-- What was read of the arguments so far. Only members may be given more than once. -/
structure Reading where
  members : List MemberId := []
  configPath : Option String := none
  group : Option String := none
  failover : Bool := false

/-- The options that take a value. -/
inductive ValueOption where
  | members
  | config
  | group
  deriving DecidableEq

def ValueOption.ofName? : String → Option ValueOption
  | "members" => some .members
  | "config" => some .config
  | "group" => some .group
  | _ => none

/-- A member id in decimal digits, which a plus sign may precede. -/
def memberId? (text : List Char) : Option MemberId :=
  let digits := match text with
    | '+' :: digits => digits
    | digits => digits
  if digits = [] ∨ !digits.all (·.isDigit) then none
  else
    let n := digits.foldl (fun n c => 10 * n + (c.toNat - '0'.toNat)) 0
    if n < UInt64.size then some (UInt64.ofNat n) else none

/-- Member ids between commas. -/
def memberIds? (text : String) : Option (List MemberId) :=
  (text.toList.splitOn ',').mapM memberId?

/-- Takes the value of an option. -/
def Reading.take (reading : Reading) (option : ValueOption) (value : String) :
    Except Refusal Reading :=
  match option with
  | .members =>
    match memberIds? value with
    | some members => .ok { reading with members := reading.members ++ members }
    | none => .error .unreadable
  | .config =>
    if reading.configPath.isSome ∨ value = "" then .error .unreadable
    else .ok { reading with configPath := some value }
  | .group =>
    if reading.group.isSome then .error .unreadable
    else .ok { reading with group := some value }

/-- Whether an argument can only be the name of an option. -/
def isOption (argument : String) : Bool :=
  argument.startsWith "-" && argument != "-"

/-- The name of a long option, and the value after the equals sign if there is one. -/
def splitLong (argument : List Char) : String × Option String :=
  let name := argument.takeWhile (· ≠ '=')
  (String.ofList name,
    if name.length < argument.length then some (String.ofList (argument.drop (name.length + 1)))
    else none)

/-- Reads the arguments. -/
def read (reading : Reading) : List String → Except Refusal Reading
  | [] => .ok reading
  | argument :: rest =>
    match argument.toList with
    | ['-', '-'] => if rest = [] then .ok reading else .error .unreadable
    | '-' :: '-' :: long =>
      match splitLong long with
      | ("help", none) => .error .help
      | ("version", none) => .error .version
      | ("failover", none) =>
        if reading.failover then .error .unreadable
        else read { reading with failover := true } rest
      | (name, value) =>
        match ValueOption.ofName? name, value, rest with
        | none, _, _ | some _, none, [] => .error .unreadable
        | some option, some value, rest => do read (← reading.take option value) rest
        | some option, none, value :: rest =>
          if isOption value then .error .unreadable
          else do read (← reading.take option value) rest
    | '-' :: 'h' :: _ => .error .help
    | '-' :: 'V' :: _ => .error .version
    | _ => .error .unreadable

/-- The options that the arguments ask for. They are read from left to right, and the first one that
    asks for help, or that cannot be read, decides. -/
def parse (arguments : List String) : Except Refusal DemoOptions := do
  let reading ← read {} arguments
  let options : DemoOptions := {}
  return {
    members := if reading.members = [] then options.members else reading.members
    configPath := reading.configPath
    group := reading.group.getD options.group
    failover := reading.failover }

/-- What is printed on a request for help. -/
def helpLines : List String := [
  "Run an in-process CP group and exercise its data structures",
  "",
  "Usage: cp-node [OPTIONS]",
  "",
  "Options:",
  "      --members <MEMBERS>  Member ids of the group [default: 1,2,3]",
  "      --config <CONFIG>    JSON file with \x60CpConfig\x60 overrides",
  "      --group <GROUP>      [default: default]",
  "      --failover           Cut the leader off after the first round and repeat on the new leader",
  "  -h, --help               Print help",
  "  -V, --version            Print version"]

def versionLine : String := "cp-subsystem 0.1.0"

end CommandLine

end Quorum
