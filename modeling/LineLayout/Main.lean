import LineLayout.Command.Request

/-!
# The program

Reads the script that a request names, and prints the report.
-/

namespace LineLayout

/-- Why reading a file failed, by the error that the system gave. Its number may come negated. -/
def ReadFailure.ofError : IO.Error → ReadFailure
  | .noFileOrDirectory .. => notFound
  | .permissionDenied .. => notPermitted
  | error@(.inappropriateType _ number _) =>
    match min number (-number) with
    | 20 => notDirectory
    | 21 => isDirectory
    | _ => other (toString error)
  | error => other (toString error)

/-- Reads a stream to its end, behind the bytes read so far. -/
partial def readStream (stream : IO.FS.Stream) (bytes : ByteArray) : IO ByteArray := do
  let chunk ← stream.read 65536
  if chunk.isEmpty then return bytes else readStream stream (bytes ++ chunk)

/-- The content of the script at a path. -/
def readScript (path : String) : IO (Except ReadFailure String) := do
  try
    if path = stdinPath then return decodeScript (← readStream (← IO.getStdin) ByteArray.empty)
    return decodeScript (← IO.FS.readBinFile path)
  catch error => return .error (.ofError error)

/-- The report for the arguments of the program. -/
def answer (args : List String) : IO Report := do
  match Request.ofArgs args with
  | .answer report => return report
  | .script path job => return job.report path (← readScript path)

end LineLayout

/-- Answers the request and ends with its exit code; what goes wrong is printed first. -/
def main (args : List String) : IO UInt32 := do
  let report ← LineLayout.answer args
  (← IO.getStderr).putStr report.stderr
  (← IO.getStdout).putStr report.stdout
  return report.code.toUInt32
