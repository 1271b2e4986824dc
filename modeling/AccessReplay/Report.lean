import AccessReplay.CommandLine.Options
import AccessReplay.Simulation

/-!
# Reports

What a command prints about a dump, and how it ends.  A summary is JSON in the
pretty layout.  A listing names the threads by position and then, location by
location, the accesses in the order they were recorded.
-/

namespace AccessReplay

/-- Why a command did not end well. -/
inductive CommandFault where
  /-- The dump cannot be loaded. -/
  | load (fault : LoadFault)
  /-- The location asked for has no recorded accesses. -/
  | nothingRecorded (key : LocationKey)
  | simulation (fault : SimulationFault)
deriving DecidableEq, Repr, Inhabited

namespace CommandFault

/-- The wording of a command's fault. -/
def message : CommandFault → String
  | .load fault => fault.message
  | .nothingRecorded key => s!"nothing was recorded for {key.text}"
  | .simulation fault => fault.message

/-- Does the fault end the program at once, without a report of its own? -/
def isFatal : CommandFault → Bool
  | .simulation (.plan .placeOutOfReach) => true
  | _ => false

/-- The exit code that tells of a fault: a replay that broke down is told apart from a
dump that is not as it should be. -/
def exitCode : CommandFault → Nat
  | .simulation (.agent _) => 2
  | .simulation (.plan .placeOutOfReach) => 101
  | _ => 1

/-- What is said of a fault at the end of the program. -/
def complaint (fault : CommandFault) : String :=
  (if fault.isFatal then "Fatal: " else "Error: ") ++ fault.message ++ "\n"

end CommandFault

/-- How a command ends. -/
structure Report where
  /-- What is printed. -/
  output : String := ""
  fault : Option CommandFault := none
  /-- What there was to say on the way, oldest first. -/
  journal : List Notice := []
deriving DecidableEq, Repr, Inhabited

namespace Report

/-- The exit code. -/
def exitCode (r : Report) : Nat := r.fault.elim 0 CommandFault.exitCode

/-! ## Summaries -/

/-- A thread in a summary. -/
def threadJson (t : ThreadId) : Json :=
  .ofMembers
    [("id", .ofNat t.raw.toNat), ("position", .array (t.position.map fun i => .ofNat i.toNat)),
      ("parent", t.parent?.elim .null fun p => .ofNat p.raw.toNat)]

/-- The summary of a trace. -/
def summaryJson (t : Trace) : Json :=
  .ofMembers
    [("checksum", .ofNat t.checksum.toNat),
      ("threads", .array (t.recording.threads.map threadJson)),
      ("shared_fields",
        .ofMembers (t.recording.catalogue.listing.map fun entry =>
          (entry.1, .array (entry.2.map Json.ofText)))),
      ("locations", .ofNat t.recording.accesses.size),
      ("events", .ofNat t.recording.accesses.eventCount)]

/-- The text of a summary. -/
def summary (t : Trace) : String := String.ofList ((summaryJson t).pretty ++ ['\n'])

/-! ## Listings -/

/-- The line of a thread. -/
def threadLine (t : ThreadId) : String := s!"thread {t.raw} at {t.position.text}\n"

/-- The line of an access: its place among those of its location, and where the
recorder gives one, its place in the whole recording. -/
def accessLine (index : Nat) (a : RecordedAccess) : String :=
  let seq := a.seq.elim "" fun n => s!" @{n}"
  s!"  {Text.alignRight 4 (toString index)} {a.kind.letter} thread {a.thread}" ++ seq ++ "\n"

/-- The lines of a location. -/
def locationLines (c : Catalogue) (key : LocationKey) (l : RecordedLocation) : String :=
  let shared := if c.isShared l.className key.field then "" else " [not shared]"
  s!"{key.text} ({l.className}){shared}: {l.events.length} events\n" ++
    String.join (l.events.mapIdx accessLine)

/-- The listing of a recording, or of one of its locations. -/
def listing (r : Recording) (only : Option LocationKey) : String :=
  let threads := if only.isNone then r.threads.map threadLine else []
  let locations := r.accesses.toList.filter fun entry => only.all (· == entry.1)
  String.join (threads ++ locations.map fun entry => locationLines r.catalogue entry.1 entry.2)

end Report

namespace Command

/-- Loads a dump and reports on it. -/
def withTrace (dump : String) (report : Trace → List Notice → Job Report) : Job Report := do
  let contents ← Job.contents dump
  let journal := Trace.remarks dump contents
  match Trace.load dump contents with
  | .error fault => return { fault := some (.load fault), journal }
  | .ok trace => report trace journal

/-- Prints a summary. -/
def runInfo (dump : String) : Job Report :=
  withTrace dump fun trace journal => return { output := Report.summary trace, journal }

/-- Prints the recorded accesses. -/
def runListing (dump : String) (only : Option LocationKey) : Job Report :=
  withTrace dump fun trace journal =>
    match only.filter fun key => key ∉ trace.recording.accesses with
    | some key => return { fault := some (.nothingRecorded key), journal }
    | none => return { output := Report.listing trace.recording only, journal }

/-- How a simulation that was carried out is reported. -/
def performed (p : Performance) (journal : List Notice) : Report where
  output := s!"{p.divergences} divergences\n"
  fault :=
    if p.harvest.diverged then some (.simulation (.diverged p.divergences)) else none
  journal := journal

/-- Acts a dump out. -/
def runSimulation (s : Simulation) : Job Report :=
  withTrace s.config.dumpPath fun trace journal =>
    match Plan.ofRecording trace.recording with
    | .error fault => return { fault := some (.simulation (.plan fault)), journal }
    | .ok plan => do
      let (agent, result) ← s.perform plan
      let journal := journal ++ agent.archive.journal.toList
      match result with
      | .ok performance => return performed performance journal
      | .error fault => return { fault := some (.simulation fault), journal }

/-- Carries a command out.  The delays that a simulation can be asked for change
nothing but its timing. -/
def run (budget : Budget) : Command → Job Report
  | .info dump => runInfo dump
  | .listing dump only => runListing dump only
  | .simulate dump output _ settleMillis =>
    runSimulation ⟨⟨dump, budget, .ofMillis settleMillis⟩, output⟩

end Command
end AccessReplay
