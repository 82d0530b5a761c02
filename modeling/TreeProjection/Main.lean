import TreeProjection.Command.Run

/-! # The command line

Reads the one location that a command asks for, runs the command and writes what it leaves behind. -/

namespace TreeProjection

/-- The failure that the system's error stands for. -/
def readFailure : IO.Error → ReadFailure
  | .noFileOrDirectory _ code details => .system details code.toNat
  | .permissionDenied _ code details => .system details code.toNat
  | .inappropriateType _ code details => .system details code.toNat
  | .invalidArgument _ code details => .system details code.toNat
  | .resourceExhausted _ code details => .system details code.toNat
  | .otherError code details => .system details code.toNat
  | e => .system e.toString 5

/-- Read all that is piped in. -/
partial def readAll (stream : IO.FS.Stream) (read : ByteArray) : IO ByteArray := do
  let bytes ← stream.read 65536
  if bytes.isEmpty then return read
  readAll stream (read ++ bytes)

/-- Read a location. -/
def readLocation (l : Location) : IO (Except ReadFailure ByteArray) := do
  try
    match l with
    | .standardInput => return .ok (← readAll (← IO.getStdin) .empty)
    | .file path => return .ok (← IO.FS.readBinFile path)
  catch e => return .error (readFailure e)

/-- Run a command on what it reads. -/
def runCommand (c : Command) : IO UInt32 := do
  let contents ← match c.location? with
    | some l => readLocation l
    | none => pure (.error .notFound)
  let terminal := (← (← IO.getStdout).isTty) && (← (← IO.getStderr).isTty)
  let outcome := c.run terminal fun _ => contents
  IO.print outcome.out
  IO.eprint outcome.err
  return outcome.code.toUInt32

end TreeProjection

/-- Run the command that the arguments ask for. -/
def main (arguments : List String) : IO UInt32 := do
  match TreeProjection.Command.ofArguments arguments with
  | .ok c => TreeProjection.runCommand c
  | .error .help =>
    IO.println TreeProjection.Command.usage
    return 0
  | .error .misuse =>
    IO.eprintln TreeProjection.Command.usage
    return 2
