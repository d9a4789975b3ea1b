import SwarmKV.Monitor.Adequacy
import SwarmKV.Monitor.Progress
import SwarmKV.Monitor.Termination
import SwarmKV.Native.Error
import SwarmKV.Native.World
import SwarmKV.Monitor.Hoare
import SwarmKV.Native.AnalyticalNode
import SwarmKV.Native.PrefillNode
import SwarmKV.Native.Orchestrator
import SwarmKV.Native.Baseline
import SwarmKV.Spec.Prefix
import SwarmKV.Spec.Effects
import SwarmKV.Spec.Graph
import SwarmKV.Spec.Invariant
import SwarmKV.Spec.Outline
import SwarmKV.Spec.Frame
import SwarmKV.Spec.Helpers
import SwarmKV.Spec.Protocol
import SwarmKV.Spec.Decode
import SwarmKV.Spec.Commit
import SwarmKV.Spec.Publish
import SwarmKV.Spec.Prefill
import SwarmKV.Spec.Fork
import SwarmKV.Spec.Analytical
import SwarmKV.Spec.Worker
import SwarmKV.Spec.Run
import SwarmKV.Spec.Acyclic
import SwarmKV.Spec.Stuck
import SwarmKV.Spec.PrefillCorrect
import SwarmKV.Spec.ForkCorrect
import SwarmKV.Spec.Toy
import SwarmKV.Spec.SnapshotCorrect
import SwarmKV.Spec.LivenessCorrect
import SwarmKV.Spec.FailureCorrect
import SwarmKV.Monitor.Observer
import SwarmKV.Spec.AcyclicCorrect
import SwarmKV.Spec.BatchCorrect
import SwarmKV.Spec.OrderCorrect
import SwarmKV.Spec.Lifecycle
import SwarmKV.Spec.SettleCorrect
import SwarmKV.Spec.GateCorrect
import SwarmKV.Spec.GuardCorrect
import SwarmKV.Spec.PoolCorrect
import SwarmKV.Spec.VramWatch
import SwarmKV.Spec.VramCorrect
import SwarmKV.Spec.View
import SwarmKV.Spec.ViewCorrect
import SwarmKV.Spec.Provenance
import SwarmKV.Spec.ProvenanceCorrect
import SwarmKV.Monitor.Alone
import SwarmKV.Spec.BudgetCorrect
import SwarmKV.Spec.CommitCorrect
import SwarmKV.Native.Blackboard
import SwarmKV.Spec.WakeupCorrect
import SwarmKV.Spec.Custody
import SwarmKV.Spec.CustodyCorrect
import SwarmKV.Spec.PositionCorrect
import SwarmKV.Monitor.Twin
import SwarmKV.Spec.Deeds
import SwarmKV.Spec.Isolation
import SwarmKV.Spec.IsolationCorrect
import SwarmKV.Spec.TotalCorrect
import SwarmKV.Spec.OutputsCorrect
import SwarmKV.Spec.Pauses
import SwarmKV.Spec.ReturnCorrect
import SwarmKV.Native.CodebaseAudit
import SwarmKV.Spec.CodebaseAuditCorrect
import SwarmKV.Native.Benchmark
import SwarmKV.Spec.BenchmarkCorrect
import SwarmKV.Spec.WorkCorrect
import SwarmKV.Monitor.Spurious
import SwarmKV.Spec.SpuriousCorrect
import SwarmKV.Spec.PoolClients
