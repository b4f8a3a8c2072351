import SecureLink.Guarantees.AuditTruncation
import SecureLink.Guarantees.BeaconCodec
import SecureLink.Guarantees.BeaconLiveness
import SecureLink.Guarantees.BeaconNonces
import SecureLink.Guarantees.ChecksumExact
import SecureLink.Guarantees.ConnectionLifecycle
import SecureLink.Guarantees.DispatcherStats
import SecureLink.Guarantees.DosAccounting
import SecureLink.Guarantees.EventCorruption
import SecureLink.Guarantees.ExtensionBlocks
import SecureLink.Guarantees.ExtensionParsing
import SecureLink.Guarantees.FrameDecoding
import SecureLink.Guarantees.GhostProbes
import SecureLink.Guarantees.GrantedFilters
import SecureLink.Guarantees.HandshakeAuth
import SecureLink.Guarantees.HandshakeFailure
import SecureLink.Guarantees.HandshakeFlow
import SecureLink.Guarantees.HandshakeFragments
import SecureLink.Guarantees.HandshakeHonest
import SecureLink.Guarantees.IdentityKept
import SecureLink.Guarantees.KeyExpansion
import SecureLink.Guarantees.LockoutPolicy
import SecureLink.Guarantees.LogRedaction
import SecureLink.Guarantees.LoopTasks
import SecureLink.Guarantees.MessageCodecs
import SecureLink.Guarantees.NamespacedViews
import SecureLink.Guarantees.NegotiatedChoice
import SecureLink.Guarantees.NonceSequence
import SecureLink.Guarantees.OpenTermination
import SecureLink.Guarantees.RateBound
import SecureLink.Guarantees.ReconnectDelays
import SecureLink.Guarantees.RecordReassembly
import SecureLink.Guarantees.RekeyAdvice
import SecureLink.Guarantees.RekeyEpochs
import SecureLink.Guarantees.ReplayEquivalence
import SecureLink.Guarantees.ResumeBitmap
import SecureLink.Guarantees.RetainedDelivery
import SecureLink.Guarantees.RingFifo
import SecureLink.Guarantees.RpcAnswers
import SecureLink.Guarantees.RpcEndToEnd
import SecureLink.Guarantees.RpcNames
import SecureLink.Guarantees.SendQueueOrder
import SecureLink.Guarantees.SeriesIdentity
import SecureLink.Guarantees.ShutdownDrain
import SecureLink.Guarantees.SnapshotRecovery
import SecureLink.Guarantees.SpanLines
import SecureLink.Guarantees.StoreCorruption
import SecureLink.Guarantees.StoreReopen
import SecureLink.Guarantees.StreamCredit
import SecureLink.Guarantees.StreamFin
import SecureLink.Guarantees.StreamIdentity
import SecureLink.Guarantees.StreamScheduling
import SecureLink.Guarantees.StreamStats
import SecureLink.Guarantees.SweepPrecision
import SecureLink.Guarantees.ThrottleAdvice
import SecureLink.Guarantees.TicketResumption
import SecureLink.Guarantees.TopicAccess
import SecureLink.Guarantees.TopicGrammar
import SecureLink.Guarantees.TopicMatching
import SecureLink.Guarantees.TraceText
import SecureLink.Guarantees.TranscriptBinding
import SecureLink.Guarantees.TransferDelivery
import SecureLink.Guarantees.TransferMessages
import SecureLink.Guarantees.TransferVerified
import SecureLink.Guarantees.TrieRefinement
import SecureLink.Guarantees.UniformDraws
import SecureLink.Guarantees.Utf8Exact
import SecureLink.Guarantees.VarintCodec
