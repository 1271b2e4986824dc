import AccessReplay.Engine.Progress
import AccessReplay.Main
import AccessReplay.Proofs.ConsistentReplay
import AccessReplay.Proofs.OverlappingAccesses
import AccessReplay.Proofs.SchedulingIndependence
import AccessReplay.Proofs.SpawnCorrelation
import AccessReplay.Proofs.HookSteps
import AccessReplay.Proofs.LiveLocations
import AccessReplay.Proofs.WholeHooks
import AccessReplay.Proofs.SequentialCalls
import AccessReplay.Proofs.AccessAccounts
import AccessReplay.Proofs.DivergenceAgreement
import AccessReplay.Proofs.Traffic
import AccessReplay.Proofs.Shutdown
import AccessReplay.Proofs.LiveThreads
import AccessReplay.Proofs.TrustedRecords
import AccessReplay.Proofs.DumpText
import AccessReplay.Proofs.AgentLife
import AccessReplay.Proofs.DetachedContexts
import AccessReplay.Proofs.ScheduleAnswers
import AccessReplay.Proofs.SelfCheck
import AccessReplay.Proofs.LastingVerdicts
import AccessReplay.Proofs.FreshReads
import AccessReplay.Proofs.ConsistentDumps
import AccessReplay.Proofs.BoundedRetries
import AccessReplay.Proofs.CanonicalLocations
import AccessReplay.Proofs.SimulatedThreads
import AccessReplay.Proofs.LocationArguments
import AccessReplay.Proofs.HarvestedThreads
import AccessReplay.Proofs.LooseDumps
import AccessReplay.Proofs.SpawnTreeShape
import AccessReplay.Proofs.SpentBudgets
