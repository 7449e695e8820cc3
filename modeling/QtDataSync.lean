import QtDataSync.Lib.Transition
import QtDataSync.Lib.Versioned
import QtDataSync.Store.LocalStore
import QtDataSync.Store.SyncController
import QtDataSync.Store.Growth
import QtDataSync.Exchange.Lane
import QtDataSync.Exchange.System
import QtDataSync.Exchange.Projection
import QtDataSync.Exchange.Convergence
import QtDataSync.Exchange.Ties
import QtDataSync.Exchange.Causality
import QtDataSync.Store.ChangeController
import QtDataSync.Store.Redelivery
import QtDataSync.Store.UploadAck
import QtDataSync.Server.DatabaseController
import QtDataSync.Server.Durability
import QtDataSync.Server.Removal
import QtDataSync.Server.Quota
import QtDataSync.Lib.Window
import QtDataSync.Server.Download
import QtDataSync.Server.DownloadWindow
import QtDataSync.Lib.Past
import QtDataSync.Account.Import
import QtDataSync.Account.Grants
import QtDataSync.Exchange.Ledger
import QtDataSync.Exchange.Discard
import QtDataSync.Exchange.Agreement
import QtDataSync.Exchange.Bootstrap
import QtDataSync.Lib.Cache
import QtDataSync.Store.Files
import QtDataSync.Lib.Runs
import QtDataSync.Store.Outcomes
import QtDataSync.Store.Representation
import QtDataSync.Store.Atomicity
import QtDataSync.Store.Isolation
import QtDataSync.Server.Accounts
import QtDataSync.Server.Client
import QtDataSync.Server.ClientConnector
import QtDataSync.Server.Authentication
import QtDataSync.Server.Sessions
import QtDataSync.Server.Tenancy
import QtDataSync.Server.TenantIsolation
import QtDataSync.Server.Effect
import QtDataSync.Server.Registry
import QtDataSync.Engine.ExchangeEngine
import QtDataSync.Engine.Uploads
import QtDataSync.Engine.UploadsOff
import QtDataSync.Engine.Synchronized
import QtDataSync.Engine.SyncManager
import QtDataSync.Connector.RemoteConnector
import QtDataSync.Connector.Messages
import QtDataSync.Connector.Sockets
import QtDataSync.Store.Threads
import QtDataSync.Store.CacheCoherence
import QtDataSync.Lib.Codec
import QtDataSync.Messages.DataStream
import QtDataSync.Messages.Utf8String
import QtDataSync.Messages.Message
import QtDataSync.Messages.RoundTrip
import QtDataSync.Store.SyncHelper
import QtDataSync.Messages.Authenticity
import QtDataSync.Exchange.UploadSlots
import QtDataSync.Store.JsonHash
import QtDataSync.Lib.Wildcard
import QtDataSync.Store.Search
import QtDataSync.Store.Views
import QtDataSync.Store.CachingDataTypeStore
import QtDataSync.Engine.Progress
import QtDataSync.Lib.Replay
import QtDataSync.Store.EventLog
import QtDataSync.Lib.Numbered
import QtDataSync.Store.EventCursor
import QtDataSync.Store.SkipObsolete
import QtDataSync.Keys.SignatureData
import QtDataSync.Keys.KeyUpdates
import QtDataSync.Keys.Binding
import QtDataSync.Keys.KeyMaterial
import QtDataSync.Keys.Device
import QtDataSync.Keys.Identity
import QtDataSync.Keys.Login
import QtDataSync.Keys.Proposals
import QtDataSync.Keys.Restart
import QtDataSync.Server.SingleTaskQueue
import QtDataSync.Threaded.ExchangeBuffer
import QtDataSync.Lib.QHash
import QtDataSync.Store.DataStoreModel
import QtDataSync.Lib.Base64
import QtDataSync.Lib.LeftJoin
import QtDataSync.Store.Migration
import QtDataSync.Lib.QSettings
import QtDataSync.Connector.RemoteConfig
import QtDataSync.Account.ExportData
import QtDataSync.Account.UserExchange
import QtDataSync.Account.UserNetwork
import QtDataSync.Server.Mailbox
import QtDataSync.Exchange.Deployed
