import WasmStream.CommandLine.Run

/-! The program: it reads the files that a command line names, runs the command on them, and prints
what comes of it. -/
namespace WasmStream
namespace CommandLine

/-- A failure to read a file, in the words of the system. -/
def FileFault.ofError : IO.Error → FileFault
  | .noFileOrDirectory .. | .noSuchThing .. => .missing
  | .inappropriateType _ code details | .otherError code details =>
    if code = 21 then .isDirectory
    else if code = 20 then .notDirectory
    else .other s!"{details} (os error {code})"
  | .permissionDenied _ code details => .other s!"{details} (os error {code})"
  | error => .other (toString error)

def readPath (path : String) : IO (Except FileFault (List UInt8)) := do
  try return .ok (← IO.FS.readBinFile path).data.toList
  catch error => return .error (FileFault.ofError error)

/-- Run the program in the working directory and give its exit status. -/
def runIn (directory : String) (args : List String) : IO UInt32 := do
  let found ← (paths directory args).mapM fun path => do return (path, ← readPath path)
  let files : Files := fun path => (found.lookup path).getD (.error .missing)
  let report := execute files directory args
  (← IO.getStdout).putStr report.output
  match report.diagnostics with
  | some text => IO.eprintln text
  | none => pure ()
  return report.exitStatus

end CommandLine
end WasmStream

def main (args : List String) : IO UInt32 := do
  WasmStream.CommandLine.runIn ((← IO.currentDir).toString ++ "/") args
