import DockerPlugin.Library.Octets
import DockerPlugin.Library.Multimap
import DockerPlugin.Library.EntryLog
import DockerPlugin.Library.Channel
import DockerPlugin.Library.Lifecycle
import DockerPlugin.Library.HttpReader
import DockerPlugin.Library.HttpReaderLaws
import DockerPlugin.HttpHeaderSet
import DockerPlugin.UdsConnection
import DockerPlugin.HttpConnection
import DockerPlugin.ResponseWrites
import DockerPlugin.ChunkedStreaming
import DockerPlugin.HttpCallbacks
import DockerPlugin.SendFailures
import DockerPlugin.LengthResponses
import DockerPlugin.Replies
import DockerPlugin.HeaderEntries
import DockerPlugin.FramingAgreement
import DockerPlugin.UdsServer
import DockerPlugin.ConnectionTable
import DockerPlugin.ConnectionRuns
import DockerPlugin.DescriptorRange
import DockerPlugin.Picojson
import DockerPlugin.PicojsonParser
import DockerPlugin.Library.OrderedSet
import DockerPlugin.Api
import DockerPlugin.FromJson
import DockerPlugin.Library.Calendar
import DockerPlugin.ToJson
import DockerPlugin.Plugin
import DockerPlugin.Messages
import DockerPlugin.PluginSessions
import DockerPlugin.BodyDelivery
import DockerPlugin.Refusals
import DockerPlugin.HeaderCollection
import DockerPlugin.MapDecoding
import DockerPlugin.DriverRequests
import DockerPlugin.Dispatch
import DockerPlugin.PoolData
import DockerPlugin.DiscoveryTypes
import DockerPlugin.PicojsonSuffix
import DockerPlugin.TrailingBytes
import DockerPlugin.CreationTimes
import DockerPlugin.ResponseEncoding
import DockerPlugin.EncodingOrder
import DockerPlugin.WellFormedAnswers
import DockerPlugin.PicojsonStrings
import DockerPlugin.PicojsonGrammar
import DockerPlugin.PicojsonSoundness
import DockerPlugin.PicojsonUnicode
import DockerPlugin.ParsedValues
import DockerPlugin.Library.Reduction
import DockerPlugin.Interleavings
import DockerPlugin.ServerLifetime
import DockerPlugin.RequestEncoding
import DockerPlugin.RemoteCalls
import DockerPlugin.Library.FileTree
import DockerPlugin.Library.PosixFiles
import DockerPlugin.Library.PosixFilesLaws
import DockerPlugin.SampleVolume
import DockerPlugin.VolumeDirectories
import DockerPlugin.VolumeStore
import DockerPlugin.SampleSessions
import DockerPlugin.VolumeContainment
import DockerPlugin.HeaderIterators
import DockerPlugin.Library.Noninterference
import DockerPlugin.Isolation
import DockerPlugin.PicojsonErrors
import DockerPlugin.ReceivedData
import DockerPlugin.AnsweredClients
import DockerPlugin.PluginServer
