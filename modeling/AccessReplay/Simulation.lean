import AccessReplay.Agent
import AccessReplay.Job
import AccessReplay.Simulation.Plan

/-!
# Simulations

A simulation acts a dump out under its own replay: it stands in for the program
that the dump was recorded from.  A consistent dump replays without a divergence.
-/

namespace AccessReplay

/-- What is simulated, and how. -/
structure Simulation where
  config : AgentConfig
  /-- The file that the harvest is written to. -/
  output : Option String := none
deriving DecidableEq, Repr, Inhabited

/-- Why a simulation did not end well. -/
inductive SimulationFault where
  /-- The dump cannot be acted out. -/
  | plan (fault : PlanFault)
  /-- The replay could not be started or ended. -/
  | agent (fault : AgentFault)
  /-- The replay diverged. -/
  | diverged (count : Nat)
deriving DecidableEq, Repr, Inhabited

/-- The wording of a simulation's fault. -/
def SimulationFault.message : SimulationFault → String
  | .plan fault => fault.message
  | .agent fault => fault.message
  | .diverged count => s!"replay diverged {count} times"

/-- What is left of a simulation that was carried out. -/
structure Performance where
  harvest : Harvest
  /-- How many divergences were observed. -/
  divergences : Nat
deriving DecidableEq, Repr, Inhabited

namespace Simulation

/-- The simulated thread that everything starts from. -/
def rootThread : AnnouncedThread := ⟨1, "sim-root"⟩

/-- Where the harvest goes. -/
def store (s : Simulation) : Harvest.Store := s.output.elim .memory .file

/-- Creates the plan's objects and lets its threads do their work. -/
def actOut (p : Plan) (e : Engine) : Engine :=
  (Crew.perform p.script (p.objects.foldl Engine.objectCreated e)).site.engine

/-- An active agent after its program has run. -/
def act (p : Plan) (a : Agent) : Agent :=
  match a.active? with
  | some e => { a with engine := some (actOut p e) }
  | none => a

/-- Keeps a harvest where the simulation wants it. -/
def keep (s : Simulation) (h : Harvest) : Job (Except FileFault Unit) :=
  match s.store with
  | .memory => .done (.ok ())
  | .file path => Job.save path (utf8 h.text)

/-- How many divergences an agent observed. -/
def observed (a : Agent) : Nat := a.engine.elim 0 fun e => e.reported.size

/-- Carries a plan out. -/
def perform (s : Simulation) (p : Plan) : Job (Agent × Except SimulationFault Performance) := do
  let agent : Agent := { config := s.config, observer := some fun _ => true }
  let contents ← Job.contents s.config.dumpPath
  match agent.startup contents rootThread with
  | (agent, .error fault) => return (agent, .error (.agent fault))
  | (agent, .ok _) =>
    let agent := act p agent
    match agent.close with
    | (agent, .error fault) => return (agent, .error (.agent fault))
    | (agent, .ok harvest) =>
      let kept ← s.keep harvest
      match agent.conclude harvest s.store kept with
      | (agent, .error fault) => return (agent, .error (.agent fault))
      | (agent, .ok harvest) => return (agent, .ok ⟨harvest, observed agent⟩)

end Simulation
end AccessReplay
