import AccessReplay.Program

/-!
# Running the program

The outer layer: jobs are done with real files and streams, and the environment
and the exit code are those of the process.
-/

namespace AccessReplay

/-- The fault that an error of the system stands for. -/
def FileFault.ofError : IO.Error → FileFault
  | .noFileOrDirectory _ _ _ => .notFound
  | .noSuchThing _ 6 _ => .noDevice
  | .hardwareFault 5 _ => .inputOutput
  | .permissionDenied _ 13 _ => .permissionDenied
  | .inappropriateType _ 20 _ => .notDirectory
  | .inappropriateType _ _ _ => .isDirectory
  | .invalidArgument _ 36 _ => .tooLong
  | .invalidArgument _ 22 _ => .invalidArgument
  | .resourceExhausted _ 28 _ => .noSpace
  | error => .other (toString error)

/-- The answer to a request to the system. -/
def answerOf {α : Type} (action : IO α) : IO (Except FileFault α) :=
  tryCatch (Except.ok <$> action) fun error => return .error (.ofError error)

/-- How the system opens a file that is written. -/
def WriteMode.toSystem : WriteMode → IO.FS.Mode
  | .replace => .write
  | .extend => .append

/-- The stream of the process that is meant. -/
def StandardStream.ofProcess : StandardStream → IO IO.FS.Stream
  | .output => IO.getStdout
  | .errors => IO.getStderr

/-- Does a job with real files and streams.  What is printed goes out at once, for a
file may lead to the same stream. -/
def Job.inProcess {α : Type} : Job α → IO α
  | .done a => return a
  | .read path next => do
    let answer ← answerOf (ByteArray.toList <$> IO.FS.readBinFile path)
    inProcess (next answer)
  | .write path mode bytes next => do
    let answer ← answerOf do
      let handle ← IO.FS.Handle.mk path mode.toSystem
      handle.write bytes.toByteArray
      handle.flush
    inProcess (next answer)
  | .print stream text next => do
    let stream ← stream.ofProcess
    stream.putStr text
    stream.flush
    inProcess next

end AccessReplay

open AccessReplay

/-- Runs the program. -/
def main (args : List String) : IO UInt32 := do
  let names := [LogVariables.filterName, LogVariables.fileName, LogVariables.appendFileName,
    LogVariables.bufferName]
  let values ← names.mapM fun name => do return (name, ← IO.getEnv name)
  let settings := LogVariables.ofEnvironment fun name => (values.lookup name).join
  UInt32.ofNat <$> (Program.run settings args).inProcess
