import AccessReplay.Log.Sink
import AccessReplay.Report

/-!
# The program

The program as a whole: it reads its command line, carries the command out, logs
what there was to say, prints its report, and ends with an exit code.  The reading and
writing is left to whoever runs it.
-/

namespace AccessReplay

/-- A notice as something to be logged. -/
def Notice.entry (n : Notice) : LogEntry where
  level := n.level
  path := n.module
  message := n.message
  file := n.module
  line := 0
  thread := some "main"

namespace Program

/-- How the program is used. -/
def usage : String := "usage: shreplay [OPTIONS] <info|dump|simulate> [ARGUMENTS]\n"

/-- What the program says about itself. -/
def helpText : String :=
  "Replays the recorded order of shared memory accesses\n\n" ++ usage ++
    "\noptions:\n" ++
    "  --max-retries N      how often a thread asks again for an access (20000)\n" ++
    "  --yield-limit N      how many of the retries only give way (1000)\n" ++
    "  --sleep-us N         microseconds slept at each of the others (100)\n" ++
    "\ncommands:\n" ++
    "  info DUMP            print a summary\n" ++
    "  dump [-l N:FIELD] DUMP\n" ++
    "                       print the recorded accesses\n" ++
    "  simulate [-o FILE] [--chaos] [--settle-ms N] DUMP\n" ++
    "                       act the dump out\n"

/-- The name and version of the program. -/
def versionText : String := "shreplay 0.0.0\n"

/-- Ends the program with a last word. -/
def endWith (stream : StandardStream) (text : String) (code : Nat) : Job Nat := do
  Job.say stream text
  return code

/-- Refuses a command line, or answers a question about the program. -/
def refuse : CommandLine.Refusal → Job Nat
  | .help => endWith .output helpText 0
  | .version => endWith .output versionText 0
  | .value => endWith .errors ("error: an option has an invalid value\n" ++ usage) 1
  | .usage => endWith .errors ("error: the arguments are not understood\n" ++ usage) 1

/-- The log lines of a journal. -/
def logged (v : LogVariables) (journal : List Notice) : List LogEntry :=
  (journal.map Notice.entry).filter fun e => v.logFilter.admits e.level e.path

/-- Carries out what a command line asks for, and says with which code the program
ends. -/
def run (v : LogVariables) (args : List String) : Job Nat :=
  match Options.read args with
  | .error refusal => refuse refusal
  | .ok options => do
    let report ← options.command.run options.budget
    v.emit (logged v report.journal)
    Job.say .output report.output
    endWith .errors (report.fault.elim "" CommandFault.complaint) report.exitCode

end Program
end AccessReplay
