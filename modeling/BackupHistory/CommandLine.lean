import BackupHistory.Config
import BackupHistory.Json.Writer
import BackupHistory.Replay
import BackupHistory.Tree.Outline

namespace BackupHistory

/-!
# The command line

The command replays a log and prints the tree of its flows, drawn or as JSON.
It answers a wrong use, a configuration or a log that cannot be read by an exit
code alone. Everything outside, the files and the standard input, is given to
it as values.
-/

namespace CommandLine

/-- What the arguments ask for. -/
structure Request where
  /-- The file of the log, the standard input if it is not given. -/
  events : Option String
  planView : Bool
  showAll : Bool
  asJson : Bool
  /-- The file of the configuration in place of the usual one. -/
  config : Option String
  /-- The instance to expand in place of the configured one. -/
  expandInstance : Option String
  verbosity : Nat
  deriving Repr, DecidableEq

def Request.empty : Request where
  events := none
  planView := false
  showAll := false
  asJson := false
  config := none
  expandInstance := none
  verbosity := 0

/-- An argument that stands for itself. -/
inductive Switch where
  | planView
  | showAll
  | asJson
  | verbose
  deriving Repr, DecidableEq

/-- An argument that a value belongs to. -/
inductive Setting where
  | events
  | config
  | expandInstance
  deriving Repr, DecidableEq

/-- What an argument's name stands for. -/
inductive Name where
  | switch (switch : Switch)
  | setting (setting : Setting)
  deriving Repr, DecidableEq

def longName? (name : String) : Option Name :=
  match name with
  | "events" => some (.setting .events)
  | "plan-view" => some (.switch .planView)
  | "all" => some (.switch .showAll)
  | "json" => some (.switch .asJson)
  | "config" => some (.setting .config)
  | "instance" => some (.setting .expandInstance)
  | "verbose" => some (.switch .verbose)
  | _ => none

def shortName? (letter : Char) : Option Name :=
  match letter with
  | 'e' => some (.setting .events)
  | 'c' => some (.setting .config)
  | 'v' => some (.switch .verbose)
  | _ => none

/-- Turn a switch on, which can be done once but for the verbosity. -/
def Request.turnOn? (request : Request) : Switch → Option Request
  | .planView =>
      if request.planView then
        none
      else
        some { request with planView := true }
  | .showAll =>
      if request.showAll then
        none
      else
        some { request with showAll := true }
  | .asJson =>
      if request.asJson then
        none
      else
        some { request with asJson := true }
  | .verbose => some { request with verbosity := request.verbosity + 1 }

/-- Give a setting its value, which can be done once; no path is empty. -/
def Request.give? (request : Request) (value : String) :
    Setting → Option Request
  | .events =>
      if request.events.isSome || value.isEmpty then
        none
      else
        some { request with events := some value }
  | .config =>
      if request.config.isSome || value.isEmpty then
        none
      else
        some { request with config := some value }
  | .expandInstance =>
      if request.expandInstance.isSome then
        none
      else
        some { request with expandInstance := some value }

/-- Read letters after one hyphen; a setting takes the rest as its value. -/
def readLetters (request : Request) :
    List Char → Option (Request × Option Setting)
  | [] => some (request, none)
  | letter :: rest =>
      match shortName? letter with
      | none => none
      | some (.switch switch) =>
          (request.turnOn? switch).bind fun request =>
            readLetters request rest
      | some (.setting setting) =>
          match rest with
          | [] => some (request, some setting)
          | '=' :: value =>
              (request.give? (String.ofList value) setting).map (·, none)
          | value =>
              (request.give? (String.ofList value) setting).map (·, none)

/-- Read a name after two hyphens, perhaps with its value. -/
def readLong (request : Request) (text : List Char) :
    Option (Request × Option Setting) :=
  let name := String.ofList (text.takeWhile (· ≠ '='))
  let value :=
    match text.dropWhile (· ≠ '=') with
    | [] => none
    | _ :: value => some (String.ofList value)
  match longName? name, value with
  | some (.switch switch), none =>
      (request.turnOn? switch).map (·, none)
  | some (.setting setting), none => some (request, some setting)
  | some (.setting setting), some value =>
      (request.give? value setting).map (·, none)
  | _, _ => none

/-- Read an argument that starts with a hyphen. -/
def readOption (request : Request) (argument : String) :
    Option (Request × Option Setting) :=
  match argument.toList with
  | '-' :: '-' :: name => readLong request name
  | '-' :: letter :: letters => readLetters request (letter :: letters)
  | _ => none

/-- Whether an argument is a value and no name. -/
def isValue (argument : String) : Bool :=
  argument == "-" || argument.toList.head? != some '-'

/--
Read arguments, the value of a setting being awaited or not.

Nothing but names and their values may be given, also after two hyphens alone.
-/
def readFrom (request : Request) (awaited : Option Setting) :
    List String → Option Request
  | [] =>
      match awaited with
      | none => some request
      | some _ => none
  | argument :: rest =>
      match awaited with
      | some setting =>
          if isValue argument then
            (request.give? argument setting).bind fun request =>
              readFrom request none rest
          else
            none
      | none =>
          if argument = "--" then
            if rest.isEmpty then
              some request
            else
              none
          else
            (readOption request argument).bind fun (request, awaited) =>
              readFrom request awaited rest

/-- The request that arguments make, if they are used rightly. -/
def read? (arguments : List String) : Option Request :=
  readFrom .empty none arguments

/-- Whether a path leads from the root of the file system. -/
def isFullPath (path : String) : Bool :=
  path.toList.head? == some '/'

/--
The place of the configuration where none is named.

It is in the directory that is given for configurations, or else in the usual
one in the home directory. A directory that is no full path is not taken.
-/
def usualConfigPath? (configHome home : Option String) : Option String :=
  let usual := (home.filter (! ·.isEmpty)).map (· ++ "/.config")
  let directory := (configHome.filter isFullPath).or usual
  directory.map (· ++ "/oplog-view/config.toml")

/-- What is outside the command. -/
structure Surroundings where
  file : String → Option (List UInt8)
  standardInput : List UInt8
  /-- The configuration at its usual place. -/
  usualConfig : Option (List UInt8)
  /-- The seconds that the viewer's clock is ahead of universal time. -/
  offset : Int

/-- How the command ends. -/
structure Ending where
  exitCode : Nat
  output : String
  deriving Repr, DecidableEq

def wrongUse : Ending :=
  ⟨2, ""⟩

/-- The ending where something outside cannot be read. -/
def unreadable : Ending :=
  ⟨1, ""⟩

def Request.configuration (request : Request) (outside : Surroundings) :
    Except Config.Failure Config :=
  match request.config with
  | some path => Config.load (outside.file path)
  | none =>
      match outside.usualConfig with
      | some file => Config.load (some file)
      | none => .ok Config.default

/-- The log of a request, if it can be opened. -/
def Request.log? (request : Request) (outside : Surroundings) :
    Option (List UInt8) :=
  match request.events with
  | some path => outside.file path
  | none => some outside.standardInput

def Request.scope (request : Request) : Tree.Scope :=
  if request.planView then
    .plan
  else
    .repository

/-- The arrangement that a request and a configuration ask for. -/
def Request.arrangement
    (request : Request)
    (config : Config)
    (offset : Int) :
    Arrangement :=
  let options := config.treeOptions request.scope
  { scope := request.scope
    offset := offset
    options :=
      { options with
        expandInstance :=
          request.expandInstance.or options.expandInstance } }

def Request.print (request : Request) (tree : Tree) : String :=
  if request.asJson then
    tree.toJson.spreadText ++ "\n"
  else if tree.isEmpty then
    "No operations.\n"
  else
    String.join ((tree.draw request.showAll).map (· ++ "\n"))

def Request.perform (request : Request) (outside : Surroundings) : Ending :=
  match request.configuration outside with
  | .error _ => unreadable
  | .ok config =>
      match request.log? outside with
      | none => unreadable
      | some log =>
          let (replay, complete) := Replay.read .trackingRemarkable log
          if complete then
            let arrangement := request.arrangement config outside.offset
            ⟨0, request.print (arrangement.build replay.ledger.flows)⟩
          else
            unreadable

def run (outside : Surroundings) (arguments : List String) : Ending :=
  match read? arguments with
  | none => wrongUse
  | some request => request.perform outside

end CommandLine

end BackupHistory
