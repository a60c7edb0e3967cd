import Yunogram.Machinery.FlatMap
import Yunogram.Machinery.GapCounter
import Yunogram.Machinery.Run
import Yunogram.Machinery.Framing
import Yunogram.Machinery.Span
import Yunogram.Data.PtsWaiter
import Yunogram.Data.PtsCurrent
import Yunogram.Data.PtsGap
import Yunogram.Api.Updates
import Yunogram.Api.SeqOrder
import Yunogram.Mtproto.TcpProtocol
import Yunogram.Mtproto.TcpConnection
import Yunogram.Mtproto.TcpReassembly
import Yunogram.Mtproto.TlsSocket
import Yunogram.Mtproto.TlsRecords
import Yunogram.Mtproto.TlsReassembly
import Yunogram.Machinery.LittleEndian
import Yunogram.Machinery.Parsing
import Yunogram.Core.UpdateEnvelope
import Yunogram.Core.EnvelopeGrammar
import Yunogram.Core.UpdateVerify
import Yunogram.Core.UpdateAuthorization
import Yunogram.Core.UpdateChecker
import Yunogram.Mtproto.WebProxyFrame
import Yunogram.Machinery.DataStream
import Yunogram.Mtproto.DcOptions
import Yunogram.Mtproto.DcOptionsUpdate
import Yunogram.Mtproto.DcOptionsStorage
import Yunogram.Mtproto.DcOptionsPersistence
import Yunogram.Machinery.Ranked
import Yunogram.Storage.SliceQueries
import Yunogram.Storage.SparseIdsList
import Yunogram.Data.MessagesList
import Yunogram.Data.SliceBuilder
import Yunogram.Data.SliceBuilderSteps
import Yunogram.Data.SparseIdsSlice
import Yunogram.Data.MessagesSlice
import Yunogram.Media.CacheEntry
import Yunogram.Media.StreamingSlices
import Yunogram.Media.SlicesHold
import Yunogram.Media.StreamingReader
import Yunogram.Webauthn.Cbor
import Yunogram.Webauthn.CborCodec
import Yunogram.Machinery.HashChain
import Yunogram.Webauthn.Crypter
import Yunogram.Webauthn.Noise
import Yunogram.Dialogs.MainList
import Yunogram.Storage.LocalFiles
import Yunogram.Media.StreamingFill
import Yunogram.Media.StreamingRuns
import Yunogram.Machinery.Holders
import Yunogram.Machinery.FlatMultiMap
import Yunogram.Mtproto.KeyCreation
import Yunogram.Data.GroupCallOrder
import Yunogram.Machinery.Intervals
import Yunogram.Data.WorkingHours
import Yunogram.Data.WorkingHoursNormal
import Yunogram.Data.WorkingHoursDays
import Yunogram.Data.WorkingHoursExtract
import Yunogram.Api.TextEntities
import Yunogram.Data.ChatFilters
import Yunogram.Dialogs.DialogsList
import Yunogram.Dialogs.DialogsOrder
import Yunogram.Dialogs.DialogsRuns
import Yunogram.Data.RepliesList
import Yunogram.Data.RepliesWindow
import Yunogram.Data.RepliesRuns
import Yunogram.Mtproto.ReceivedIds
import Yunogram.Data.MessagesTrim
import Yunogram.Data.SparseIdsMerged
import Yunogram.Storage.UserPhotos
import Yunogram.Machinery.Digits
import Yunogram.Mtproto.TcpFinalize
import Yunogram.Mtproto.ProxySecret
import Yunogram.Mtproto.WebSocket
import Yunogram.Mtproto.WebSocketMessages
import Yunogram.Machinery.Layout
import Yunogram.Mtproto.TlsHello
import Yunogram.Mtproto.TlsHelloLayout
import Yunogram.Mtproto.ReceivedMessage
import Yunogram.Mtproto.ReceivedMessageBounds
import Yunogram.Mtproto.ReceivedMessageBudget
import Yunogram.Machinery.Ascending
import Yunogram.Media.DownloaderQueue
import Yunogram.Machinery.MachineArith
import Yunogram.Media.SlicesArithmetic
import Yunogram.Machinery.Rotate
import Yunogram.Storage.DownloadQueue
import Yunogram.Data.RepliesUnread
import Yunogram.Storage.StreamedFileDownloader
import Yunogram.Media.FullInCache
import Yunogram.Media.FullInCacheSteps
import Yunogram.Media.FullInCacheRuns
import Yunogram.Data.GroupCallSsrcs
import Yunogram.Data.GroupCallSsrcMap
import Yunogram.Data.Histories
import Yunogram.Data.HistoriesReadRuns
import Yunogram.Dialogs.PinnedList
import Yunogram.Dialogs.IndexedRuns
import Yunogram.History.UnreadThings
import Yunogram.Iv.RichTextSpans
import Yunogram.Passport.PassportEncryption
import Yunogram.Machinery.Packing
import Yunogram.Iv.PageTableGrid
import Yunogram.Iv.PageTableSlots
import Yunogram.Iv.PageTablePlacing
import Yunogram.Iv.PageTableRuns
import Yunogram.Iv.PageTableFirstFit
import Yunogram.Iv.PageTableLimits
import Yunogram.Machinery.Lockstep
import Yunogram.Iv.NativeIvTable
import Yunogram.Machinery.Memo
import Yunogram.Yuno.FiltersCache
import Yunogram.Yuno.FiltersVerdicts
import Yunogram.Yuno.FilterBackup
import Yunogram.Yuno.FilterBackupImport
import Yunogram.Yuno.FilterBackupStable
import Yunogram.Storage.FolderArchive
import Yunogram.Machinery.PercentEncoding
import Yunogram.Iv.InlineTextObjects
import Yunogram.Machinery.Splice
import Yunogram.Iv.InlineTextObjectCodec
import Yunogram.Iv.InlineTextObjectExpansion
import Yunogram.Machinery.DotSegments
import Yunogram.Iv.Unicode
import Yunogram.Iv.LocalLinks
import Yunogram.Iv.LocalLinkContainment
import Yunogram.Machinery.Rho
import Yunogram.Mtproto.PqFactorization
import Yunogram.Mtproto.PqWalks
import Yunogram.Mtproto.PqFactors
import Yunogram.Iv.SimpleText
import Yunogram.Iv.SimpleTextLength
import Yunogram.Iv.SimpleTextSplit
import Yunogram.Iv.SimpleTextRejoin
import Yunogram.Iv.SimpleTextClip
import Yunogram.Iv.SimpleTextRoundTrip
import Yunogram.Machinery.TrimEdges
import Yunogram.Iv.FinalSubmit
import Yunogram.Iv.FinalSubmitSteps
import Yunogram.Iv.FinalSubmitContent
import Yunogram.Iv.FinalSubmitStable
import Yunogram.Machinery.KeptParts
import Yunogram.Iv.FinalSubmitTexts
import Yunogram.Iv.FinalSubmitNormal
import Yunogram.Machinery.Numerals
import Yunogram.Iv.ListNumbering
import Yunogram.Iv.ListNumberingAgreement
import Yunogram.Machinery.PaddedDigits
import Yunogram.Webauthn.QrDigits
import Yunogram.Machinery.Positions
import Yunogram.Iv.PageTableTiles
import Yunogram.Iv.PageTableWhole
import Yunogram.Iv.PageTableRemoval
import Yunogram.Iv.PageTableEdits
import Yunogram.Iv.PageTableRowRemoval
import Yunogram.Iv.PageTableColumnRemoval
import Yunogram.Iv.PageTableCells
import Yunogram.Iv.PageTableRemovalExact
import Yunogram.Iv.PageTableGrowth
import Yunogram.Iv.PageTableLaidOut
import Yunogram.Iv.PageTableRowGrowth
import Yunogram.Iv.PageTableInsertion
import Yunogram.Iv.PageTableColumnGrowth
import Yunogram.Iv.PageTableSplit
import Yunogram.Iv.PageTableUnite
import Yunogram.Iv.PageTableReshape
import Yunogram.Iv.RichMessageLimits
import Yunogram.Iv.RichMessageTables
import Yunogram.Iv.RichMessageValidation
import Yunogram.Machinery.FlatTotals
import Yunogram.Mtproto.WebProxyTransport
import Yunogram.Mtproto.WebProxyPending
import Yunogram.Mtproto.WebProxySteps
import Yunogram.Mtproto.WebProxyAccounting
import Yunogram.Mtproto.WebProxyFrames
