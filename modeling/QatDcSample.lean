import QatDcSample.Lib.Program
import QatDcSample.Lib.Transition
import QatDcSample.Lib.Memory
import QatDcSample.Lib.HandOver
import QatDcSample.Lib.Ledger
import QatDcSample.Lib.Bitmap
import QatDcSample.Lib.FirstFit
import QatDcSample.Lib.Radix
import QatDcSample.Lib.Ring
import QatDcSample.Lib.LinkedList
import QatDcSample.Lib.BinaryPolynomial
import QatDcSample.Lib.Tally
import QatDcSample.Cpa
import QatDcSample.Worker
import QatDcSample.Sample
import QatDcSample.System
import QatDcSample.Blocks
import QatDcSample.Threads
import QatDcSample.Replay
import QatDcSample.WorkerCalls
import QatDcSample.Operation
import QatDcSample.InFlight
import QatDcSample.RequestMemory
import QatDcSample.BufferStructure
import QatDcSample.CleanUp
import QatDcSample.Discovery
import QatDcSample.OperationStatus
import QatDcSample.MainThread
import QatDcSample.WorkerLifetime
import QatDcSample.MainResources
import QatDcSample.TraceReading
import QatDcSample.Detaching
import QatDcSample.StartStop
import QatDcSample.RunResult
import QatDcSample.RequestRegions
import QatDcSample.StopPolling
import QatDcSample.IntermediateBuffers
import QatDcSample.Waiting
import QatDcSample.JoinProgress
import QatDcSample.Slab
import QatDcSample.SlabRuns
import QatDcSample.PageTable
import QatDcSample.NumaMemory
import QatDcSample.NumaSlabs
import QatDcSample.NumaRuns
import QatDcSample.NumaSystem
import QatDcSample.Transport
import QatDcSample.TransportRuns
import QatDcSample.TransportSystem
import QatDcSample.MemPool
import QatDcSample.MemPoolRuns
import QatDcSample.MemPoolSystem
import QatDcSample.Crc64
import QatDcSample.Crc64Remainder
import QatDcSample.Session
import QatDcSample.SessionRuns
