import WzGame.Util.Runs
import WzGame.Db.Cache.DbCache
import WzGame.Db.Cache.DbCacheLemmas.Hash
import WzGame.Db.Cache.DbCacheLemmas.Inv
import WzGame.Db.Cache.DbCacheLemmas.Ops
import WzGame.Db.Cache.DbCacheLemmas.Init
import WzGame.Db.Cache.DbCacheLemmas.Refine
import WzGame.Db.Cache.LruMapLemmas
import WzGame.Db.Cache.DbCacheRuns
import WzGame.Database.DBUtil
import WzGame.Database.WhereClause
import WzGame.Database.Batches
import WzGame.Database.BatchAtomic
import WzGame.Database.BatchRestricted
import WzGame.Db.Data.DbRecord
import WzGame.Db.Data.Module.CommonModule
import WzGame.Db.Data.DbRecordLemmas
import WzGame.Db.Data.Module.CommonModuleView
import WzGame.Database.DBUtilLemmas
import WzGame.Db.Data.DbRecordSynced
import WzGame.Db.Data.Module.CommonModuleSave
import WzGame.Db.Cache.KeyQueues
import WzGame.Db.Cache.MulSearch
import WzGame.Db.Cache.MulSearchLemmas
import WzGame.Db.Cache.MulSearchRuns
import WzGame.Db.CharData
import WzGame.Db.DataManager
import WzGame.Db.DataManagerSpec
import WzGame.Db.DataManagerRefine
import WzGame.Db.DataManagerLoads
import WzGame.Db.LoadsInv
import WzGame.Db.LoadsServed
import WzGame.Db.DataManagerLoadRuns
import WzGame.Db.DataManagerCallBacks
import WzGame.Db.Cache.DbCacheContents
import WzGame.Db.CharDataLemmas
import WzGame.Db.DataManagerData
import WzGame.Db.DataManagerSaves
import WzGame.Db.Cache.DbCacheOrder
import WzGame.Base.EntityIds
import WzGame.Chr.RyCharacter
import WzGame.Chr.PlayerRoundTrip
import WzGame.Chr.PlayerRestores
import WzGame.Service.LogicHandler
import WzGame.Service.PlayerLogins
import WzGame.Network.CenterModule
import WzGame.Service.GateHandlers
import WzGame.Service.GateRouting
import WzGame.Service.GateLogins
import WzGame.Chr.PlayerManager
import WzGame.Chr.PlayerRelogin
import WzGame.Service.LogicServer
import WzGame.Service.PlayerSaves
import WzGame.Db.DataManagerReads
import WzGame.Db.DataManagerLoadResults
import WzGame.Db.DataManagerUpdates
import WzGame.Db.DataManagerQueues
import WzGame.Db.DataManagerFailures
import WzGame.Db.Data.DbRecordCopies
import WzGame.Db.StoredRows
import WzGame.Db.DataManagerCopies
import WzGame.Db.DataManagerReloads
import WzGame.Packet.ByteBuf
import WzGame.Util.Netty
import WzGame.Packet.CocoPacket
import WzGame.Util.Framing
import WzGame.Network.Codec.LengthDecoder
import WzGame.Network.Codec.LengthDecoderStreams
import WzGame.Network.Codec.MessageDecoder
import WzGame.Net.MemoryStream
import WzGame.Net.Packet
import WzGame.Net.LogicSendHandler
import WzGame.Service.GateDecoder
import WzGame.Net.LogicRecvHandler
import WzGame.Net.LogicRecvStreams
import WzGame.Net.LogicRecvProgress
import WzGame.Net.LogicRecvBufQueue
import WzGame.Net.SocketSendBuf
import WzGame.Net.LogicRecvThreads
import WzGame.Net.LogicRecvFifo
import WzGame.Net.LogicRecvBufOrder
import WzGame.Net.NetManager
import WzGame.Net.NetManagerRuns
import WzGame.Network.ServerManager
import WzGame.Network.NetClient
import WzGame.Network.CenterSessions
import WzGame.Network.ServerRegistry
import WzGame.Network.CenterDispatch
import WzGame.Network.TaskNodes
import WzGame.Net.SendBufferQueue
import WzGame.Util.Utf
import WzGame.Util.Queue
import WzGame.ObjectPool.ObjectPool
import WzGame.EventBus.ClientEventManager
import WzGame.EventBus.ClientEventDispatch
import WzGame.Actor.Actor
import WzGame.Actor.ActorPlaces
import WzGame.Actor.ActorDelivery
import WzGame.Rmi.SyncCalls
import WzGame.Rmi.RemoteService
import WzGame.Rmi.DataUtil
import WzGame.Rmi.RmiValueRoundTrip
import WzGame.Service.LoginHandler
import WzGame.Util.CRC16CCITT
import WzGame.Chr.CharFormation
import WzGame.Chr.CharBag
import WzGame.Util.SortedArrayList
import WzGame.Util.Substrings
import WzGame.Util.SubstringMarks
import WzGame.Util.SubstringCounts
import WzGame.Database.NamedParameters
import WzGame.Util.FixedInts
import WzGame.Util.CodecUtil
import WzGame.Util.HexTool
import WzGame.Util.WeightedChoice
import WzGame.Util.MiscUtil.RandomKey
import WzGame.Util.Calendars
import WzGame.Util.MiscUtil.Weeks
import WzGame.Util.MiscUtil.SameDay
import WzGame.Util.MiscUtil.RandomString
import WzGame.Util.Substitutions
import WzGame.Util.SubstitutionRuns
import WzGame.Util.MiscUtil.ReplaceTemplate
import WzGame.Util.Splits
import WzGame.Mail.MailEntity
import WzGame.Util.Slots
import WzGame.Sql.WhereSql
import WzGame.Sql.WhereSqlRuns
import WzGame.Reader.ExcelReader
import WzGame.Db.Cache.BucketIndices
import WzGame.Db.Data.RowIdentity
import WzGame.Util.Returns
import WzGame.Util.Remainders
import WzGame.Actor.ActorDispatcher
import WzGame.Util.Cells
import WzGame.Util.QuickList
import WzGame.Util.NettyParses
import WzGame.Service.Codec.GateCodec
import WzGame.Util.LuaTables
import WzGame.Reader.WriteLua
import WzGame.Proto.RoundTrips
import WzGame.Proto.Parsers
import WzGame.Service.RequestEffects
import WzGame.Chr.LoginPbCreator
import WzGame.Util.Dictionaries
import WzGame.Client.LoginData
