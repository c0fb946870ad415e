import BackupHistory.CommandLine

namespace BackupHistory.CommandLine

/-!
# The program

Reads what the command needs from outside, carries it out and prints the result.
-/

/-- The bytes of a file, absent if it cannot be read. -/
def fileBytes? (path : String) : IO (Option (List UInt8)) := do
  try
    let bytes ← IO.FS.readBinFile path
    pure (some bytes.toList)
  catch _ =>
    pure none

/-- The bytes of a file that may not be named. -/
def optionalBytes? (path : Option String) : IO (Option (List UInt8)) :=
  match path with
  | none => pure none
  | some path => fileBytes? path

/-- The bytes of the configuration at its usual place. -/
def usualConfigBytes? : IO (Option (List UInt8)) := do
  let configHome ← IO.getEnv "XDG_CONFIG_HOME"
  let home ← IO.getEnv "HOME"
  optionalBytes? (usualConfigPath? configHome home)

/-- The bytes of the standard input, which are read only for a log. -/
def inputBytes (request : Request) : IO (List UInt8) := do
  if request.events.isSome then
    pure []
  else
    let bytes ← (← IO.getStdin).readBinToEnd
    pure bytes.toList

/--
What is outside the command on this machine.

The viewer's clock is taken to show universal time: the local time zone, whose
offset may change from one instant to another, is not looked up.
-/
def surroundings (request : Request) : IO Surroundings := do
  let config ← optionalBytes? request.config
  let usualConfig ← usualConfigBytes?
  let events ← optionalBytes? request.events
  let input ← inputBytes request
  pure {
    file := fun path =>
      if request.config = some path then config else events
    standardInput := input
    usualConfig := usualConfig
    offset := 0 }

/-- Carry out a command and print its output. -/
def execute (arguments : List String) : IO UInt32 := do
  let ending ←
    match read? arguments with
    | none => pure wrongUse
    | some request => pure (request.perform (← surroundings request))
  IO.print ending.output
  pure ending.exitCode.toUInt32

end BackupHistory.CommandLine

/-- Print the operation history in a log of operation events. -/
def main (arguments : List String) : IO UInt32 :=
  BackupHistory.CommandLine.execute arguments
