import Zodia.Lib.Run
import Zodia.Lib.Primitives
import Zodia.Lib.Symbolic
import Zodia.Lib.Table
import Zodia.Lib.Text
import Zodia.Lib.LastN
import Zodia.Crypto.Handshake
import Zodia.Crypto.Ratchet
import Zodia.Crypto.Session
import Zodia.Store.Interpretations
import Zodia.Store.Binding
import Zodia.Store.ArrivalOrder
import Zodia.Sync.LogStore
import Zodia.Sync.Node
import Zodia.Sync.LogSeparation
import Zodia.App.Stargazers
import Zodia.App.PeersFile
import Zodia.App.Consent
import Zodia.App.ConsentGating
import Zodia.App.ConsentFiles
import Zodia.Doc.InterpDoc
import Zodia.Doc.Ring
import Zodia.Store.Docs
import Zodia.App.DocEdits
import Zodia.App.DocState
import Zodia.App.RegisterDocs
import Zodia.App.StoreFailures
import Zodia.App.OperationIds
import Zodia.App.VetoAuthority
import Zodia.App.ReplicaAgreement
import Zodia.App.DocRuns
import Zodia.App.Redelivery
import Zodia.App.VetoStays
import Zodia.App.AuthorRights
import Zodia.App.AiDisclosure
import Zodia.Store.Feed
import Zodia.Store.Revocation
import Zodia.App.FeedItems
import Zodia.Lib.Civil
import Zodia.Core.Calendar
import Zodia.App.BirthMoment
import Zodia.Doc.TextMerge
import Zodia.Lib.Causal
import Zodia.Sync.CircleDelivery
import Zodia.Lib.Ledger
import Zodia.Ops.Operations
import Zodia.Pipeline.Stages
import Zodia.App.Delivery
import Zodia.App.DeliveryRuns
import Zodia.Lib.Transaction
import Zodia.Sync.CirclePersistence
import Zodia.App.CircleTopics
import Zodia.Sync.Network
import Zodia.Sync.OwnLogs
import Zodia.Pipeline.Panics
import Zodia.Lib.Cbor
import Zodia.Ops.Cbor
import Zodia.Pipeline.RoundTrip
import Zodia.Crypto.Ecies
import Zodia.App.PeerMessages
import Zodia.App.ChatAttribution
import Zodia.App.PeerData
import Zodia.App.InterpSync
import Zodia.App.Removal
import Zodia.App.ConnectedChannels
import Zodia.App.ChannelClosing
import Zodia.App.Calls
import Zodia.Sdk.Subscriptions
import Zodia.Sdk.SyncStatus
import Zodia.App.Announces
import Zodia.App.Migration
import Zodia.App.ExchangeSize
import Zodia.Core.Aspects
import Zodia.Sync.DegreeTopics
import Zodia.Core.TransitWindow
import Zodia.App.TransitTicker
import Zodia.Lib.Query
import Zodia.Lib.Heads
import Zodia.Crypto.InjectedFrames
import Zodia.Doc.Revisions
import Zodia.Store.WriteOnce
import Zodia.Store.RingRefinement
import Zodia.Store.BellCount
import Zodia.Store.RecentFeed
import Zodia.App.EditThenVeto
import Zodia.App.DocAffirms
import Zodia.App.DisplayNames
import Zodia.App.BellBadge
import Zodia.Lib.Circle
import Zodia.Lib.Decimal
import Zodia.Lib.Stack
import Zodia.Lib.Newest
import Zodia.Core.Houses
import Zodia.Core.HouseTransits
import Zodia.Core.InterpKeys
import Zodia.Pipeline.StageOrder
import Zodia.Sync.Pruning
import Zodia.Sdk.Touches
import Zodia.App.Presence
import Zodia.App.FeedOrder
import Zodia.Lib.Traverse
import Zodia.Lib.Triples
import Zodia.Lib.Sealing
import Zodia.Lib.Positions
import Zodia.Lib.Slot
import Zodia.Core.EvenHouses
import Zodia.Core.ChartAspects
import Zodia.Core.Patterns
import Zodia.Av.Transport
import Zodia.Crypto.RelayKey
import Zodia.App.PeerRows
import Zodia.App.EditorAudio
import Zodia.Lib.Search
import Zodia.Lib.Utf8
import Zodia.Lib.Wire
import Zodia.Core.Cities
import Zodia.Core.KeyTexts
import Zodia.App.SetupPage
import Zodia.App.RowTexts
import Zodia.Store.Baseline
import Zodia.Crypto.ConsentState
import Zodia.App.ChatNetwork
import Zodia.App.Discovery
import Zodia.App.Dwell
import Zodia.Net.Channel
import Zodia.Config.LocalConfig
import Zodia.App.VetoButton
import Zodia.Lib.Groups
import Zodia.Core.Transits
import Zodia.Core.ChartSummary
import Zodia.App.SkyTick
import Zodia.App.ChartRows
import Zodia.App.EditorPage
import Zodia.App.TypingIndicator
import Zodia.App.SeenCaption
