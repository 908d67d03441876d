import ConsoleBus.Main
import ConsoleBus.Proofs.Registration
import ConsoleBus.Watch.StopSignal
import ConsoleBus.Proofs.Acceptance
import ConsoleBus.Proofs.Landing
import ConsoleBus.Proofs.Roster
import ConsoleBus.Proofs.Runs
import ConsoleBus.Proofs.Matching
import ConsoleBus.Proofs.Delivery
import ConsoleBus.Proofs.Updates
import ConsoleBus.Proofs.Frames
import ConsoleBus.Proofs.RequestStream
import ConsoleBus.Proofs.CutStreams
import ConsoleBus.Proofs.DedupeTrace
import ConsoleBus.Proofs.FlushIntervals
import ConsoleBus.Proofs.Repeats
import ConsoleBus.Proofs.Silence
import ConsoleBus.Proofs.Strikes
import ConsoleBus.Proofs.CacheIsolation
import ConsoleBus.Proofs.IsolationScope
import ConsoleBus.Proofs.FlatStore
import ConsoleBus.Proofs.HandleAccess
import ConsoleBus.Proofs.ByteRanges
import ConsoleBus.Proofs.Transcript
import ConsoleBus.Proofs.NotificationCodec
import ConsoleBus.Proofs.CodeCoherence
import ConsoleBus.Proofs.Handover
import ConsoleBus.Proofs.PauseGate
import ConsoleBus.Proofs.Dispatch
import ConsoleBus.Proofs.Answers
import ConsoleBus.Proofs.HookSeparation
import ConsoleBus.Proofs.OrderlyExit
import ConsoleBus.Proofs.DeferredWork
import ConsoleBus.Proofs.WholeTicks
import ConsoleBus.Proofs.MemoryImages
import ConsoleBus.Proofs.HookRecords
import ConsoleBus.Proofs.RequestScope
import ConsoleBus.Proofs.QuerySegments
import ConsoleBus.Proofs.JsonTexts
import ConsoleBus.Proofs.HookListings
import ConsoleBus.Proofs.MessageAccounts
import ConsoleBus.Proofs.Drills
import ConsoleBus.Proofs.Recordings
import ConsoleBus.Proofs.RegistryContents
import ConsoleBus.Proofs.ProgramReads
