import NeuralEngine.Channel.Replay
import NeuralEngine.Client.Batch
import NeuralEngine.FixedPoint
import NeuralEngine.Proofs.Scheduler.ExpectedOutputs
import NeuralEngine.Proofs.Scheduler.FatalCode
import NeuralEngine.Proofs.Scheduler.RequestOrder
import NeuralEngine.Proofs.Scheduler.ResponseUse
import NeuralEngine.Proofs.Scheduler.SlotPool
import NeuralEngine.Scheduler.Basic
import NeuralEngine.Simulator.Answer
import NeuralEngine.Proofs.Simulator.Orderly
import NeuralEngine.Proofs.Client.OpenOrder
import NeuralEngine.Proofs.Scheduler.Rerun
import NeuralEngine.Proofs.Simulator.Wait
import NeuralEngine.Proofs.Scheduler.Progress
import NeuralEngine.Proofs.Scheduler.Completion
import NeuralEngine.Proofs.Table.AppendOnly
import NeuralEngine.Proofs.Simulator.Performs
import NeuralEngine.Proofs.Client.Lease
import NeuralEngine.Proofs.Simulator.Account
import NeuralEngine.Proofs.Client.Primed
import NeuralEngine.Proofs.Simulator.Label
import NeuralEngine.Proofs.Scheduler.Mirror
import NeuralEngine.Proofs.Scheduler.SlotTable
import NeuralEngine.Proofs.Client.Refusal
import NeuralEngine.Proofs.Scheduler.Admission
import NeuralEngine.Proofs.Scheduler.Accounting
import NeuralEngine.Proofs.Scheduler.Agreement
import NeuralEngine.Proofs.Simulator.TableInvariant
import NeuralEngine.Proofs.Simulator.Sizing
import NeuralEngine.Proofs.Simulator.Exhaustion
import NeuralEngine.Proofs.Table.Delivery
import NeuralEngine.Proofs.Client.WriteStream
import NeuralEngine.Proofs.Client.ReadStream
import NeuralEngine.Proofs.Client.Attempts
import NeuralEngine.Proofs.Scheduler.CycleBudget
import NeuralEngine.Proofs.Simulator.RequestFrame
import NeuralEngine.Proofs.Simulator.HeldBack
import NeuralEngine.Proofs.Simulator.Intake
import NeuralEngine.Proofs.Simulator.Timing
import NeuralEngine.Proofs.Client.Comparison
import NeuralEngine.Proofs.Params.RoundTrip
import NeuralEngine.Proofs.Params.FirstFlaw
import NeuralEngine.Proofs.Scheduler.RoundRobin
import NeuralEngine.Proofs.Request
import NeuralEngine.Proofs.Response
import NeuralEngine.Proofs.Binary32
import NeuralEngine.Proofs.FixedPoint
import NeuralEngine.Proofs.Table.BlockStorage
import NeuralEngine.Proofs.Table.IoQueues
