import SparkProtocol.ByteStrings
import SparkProtocol.LabelledRuns
import SparkProtocol.OrderedMaps
import SparkProtocol.RecencyLists
import SparkProtocol.Dispatching
import SparkProtocol.StreamPrograms
import SparkProtocol.StreamPortions
import SparkProtocol.LineWrapping
import SparkProtocol.BlockChaining
import SparkProtocol.HostValues
import SparkProtocol.Crypto
import SparkProtocol.FirmwarePadding
import SparkProtocol.FramedStreams
import SparkProtocol.Chunking
import SparkProtocol.FrameReaders
import SparkProtocol.ByteQueues
import SparkProtocol.QueueDeliveries
import SparkProtocol.Coap
import SparkProtocol.CoapGrammar
import SparkProtocol.CoapRoundTrip
import SparkProtocol.Messages
import SparkProtocol.CoreKeys
import SparkProtocol.QuarantinedKeys
import SparkProtocol.PemTexts
import SparkProtocol.Promotion
import SparkProtocol.CryptoWorker
import SparkProtocol.KeyCaches
import SparkProtocol.CryptoPool
import SparkProtocol.PoolScheduling
import SparkProtocol.PoolFailures
import SparkProtocol.PoolClosing
import SparkProtocol.StreamWeaving
import SparkProtocol.HandshakeTraces
import SparkProtocol.HandshakeFaults
import SparkProtocol.Sessions
import SparkProtocol.SessionEffects
import SparkProtocol.SessionLifecycle
import SparkProtocol.SessionChannels
import SparkProtocol.RollingVectors
import SparkProtocol.FailedSends
import SparkProtocol.SentMessages
import SparkProtocol.Settlements
import SparkProtocol.Correlation
import SparkProtocol.Dialogues
import SparkProtocol.SessionHistory
import SparkProtocol.RequestLifecycle
import SparkProtocol.Gateway
import SparkProtocol.ConnectionLifecycles
import SparkProtocol.SessionTurns
import SparkProtocol.TerminalCauses
import SparkProtocol.HonestDevice
import SparkProtocol.Meetings
import SparkProtocol.SessionReads
import SparkProtocol.FramePulls
import SparkProtocol.Inbound
import SparkProtocol.Quiescence
import SparkProtocol.WrappingCounters
import SparkProtocol.SendCounters
import SparkProtocol.DeviceRequests
import SparkProtocol.Transducers
import SparkProtocol.EarlyBytes
import SparkProtocol.Determinacy
import SparkProtocol.HandshakeReads
import SparkProtocol.PoolTruth
import SparkProtocol.GatewayServices
import SparkProtocol.HostServices
import SparkProtocol.Storms
import SparkProtocol.Isolation
import SparkProtocol.Admissions
import SparkProtocol.ApprovedKeys
import SparkProtocol.Vouching
import SparkProtocol.Stations
import SparkProtocol.Peers
import SparkProtocol.Conversations
import SparkProtocol.ConversationCourses
