import Xperimentum.Lib.Int32
import Xperimentum.Lib.Runs
import Xperimentum.Terminal.Charmaps
import Xperimentum.Terminal.Parser
import Xperimentum.Terminal.ProcessByte
import Xperimentum.Terminal.ParserInvariant
import Xperimentum.Terminal.ByteInvariant
import Xperimentum.Terminal.ParserRuns
import Xperimentum.Terminal.Utf8Printing
import Xperimentum.Lib.Memory
import Xperimentum.Terminal.View
import Xperimentum.Terminal.ViewEvents
import Xperimentum.Terminal.ViewInvariant
import Xperimentum.Terminal.SelectionInvariant
import Xperimentum.Terminal.ViewRuns
import Xperimentum.Pantomime.IMAPStore
import Xperimentum.Pantomime.IMAPQueue
import Xperimentum.Pantomime.IMAPReconnect
import Xperimentum.Pantomime.IMAPReader
import Xperimentum.Pantomime.IMAPLiteral
import Xperimentum.Pantomime.IMAPFetch
import Xperimentum.Pantomime.SMTPData
import Xperimentum.Pantomime.SMTP
import Xperimentum.Pantomime.SMTPQueue
import Xperimentum.Pantomime.SMTPTransaction
import Xperimentum.Lib.Emission
import Xperimentum.Terminal.CallBlocks
import Xperimentum.Terminal.ScreenRows
import Xperimentum.Terminal.Scrollback
import Xperimentum.Terminal.LazyRedraw
import Xperimentum.Terminal.RowBounds
import Xperimentum.Lib.BigEndian
import Xperimentum.Pantomime.CacheRecords
import Xperimentum.WMcore.PropList
import Xperimentum.WMcore.PropListRoundTrip
import Xperimentum.WMcore.PropListEquality
import Xperimentum.WMcore.PropListDescription
import Xperimentum.WMcore.PropListDictionary
import Xperimentum.WMcore.UserDefaults
import Xperimentum.Pantomime.POP3Store
import Xperimentum.WMcore.Notifications
import Xperimentum.Pantomime.POP3Completion
import Xperimentum.Pantomime.POP3Replies
import Xperimentum.Lib.UTF7
import Xperimentum.Pantomime.MailboxNames
import Xperimentum.Pantomime.MailboxNamesRoundTrip
import Xperimentum.Pantomime.FormatFlowed
import Xperimentum.Pantomime.FormatFlowedRoundTrip
import Xperimentum.Pantomime.EncodedWords
import Xperimentum.Pantomime.HeaderLines
import Xperimentum.Pantomime.MessageHeaders
import Xperimentum.Pantomime.MessageHeadersRoundTrip
import Xperimentum.Pantomime.EncodedWordsDecoding
import Xperimentum.Pantomime.EncodedWordsFolding
import Xperimentum.Pantomime.EncodedWordsRoundTrip
import Xperimentum.Addresses.LocalAddressBook
import Xperimentum.Addresses.RecordRemoval
import Xperimentum.Addresses.RecordRemovalReturns
import Xperimentum.SystemKit.Paths
import Xperimentum.SystemKit.FileSystemMonitor
import Xperimentum.SystemKit.FileSystemWatches
import Xperimentum.SystemKit.Display
import Xperimentum.SystemKit.Screen
import Xperimentum.SystemKit.ScreenRequests
import Xperimentum.Lib.StableSort
import Xperimentum.SystemKit.DisplayArrangement
import Xperimentum.SystemKit.DisplayToggling
import Xperimentum.Lib.Lines
import Xperimentum.Lib.Utf8
import Xperimentum.Workspace.Communicator
import Xperimentum.Workspace.FileMover
import Xperimentum.Workspace.FileMoverFraming
import Xperimentum.Lib.LinkedLists
import Xperimentum.WMcore.Observers
import Xperimentum.WMcore.NotificationDelivery
import Xperimentum.WMcore.TimerChecks
import Xperimentum.WMcore.HashTable
import Xperimentum.WMcore.HashTableMap
import Xperimentum.WMcore.HashTableRuns
import Xperimentum.WMcore.PropListEquivalence
import Xperimentum.WMcore.PropListMerging
import Xperimentum.WMcore.PropListMergeLaws
import Xperimentum.Gorm.ClassHierarchy
import Xperimentum.Gorm.ClassForest
import Xperimentum.Gorm.MemberEdits
import Xperimentum.Gorm.MemberLists
import Xperimentum.Gorm.MemberCaches
import Xperimentum.Gorm.MemberReplacing
import Xperimentum.Gorm.MemberRemoving
import Xperimentum.Gorm.ClassChanges
import Xperimentum.Gorm.ClassRenaming
import Xperimentum.Gorm.InheritanceCaches
import Xperimentum.Lib.CountedHeap
import Xperimentum.WMcore.PropListHeap
import Xperimentum.Lib.ShellWords
import Xperimentum.WMcore.ShellQuoting
import Xperimentum.WMcore.TokenSplitting
import Xperimentum.WMcore.TokenJoining
import Xperimentum.WMcore.DynamicArray
import Xperimentum.WMcore.DynamicArrayRefinement
import Xperimentum.Terminal.ControlSequences
import Xperimentum.Terminal.CursorAddressing
import Xperimentum.Terminal.TabFrame
import Xperimentum.Terminal.TabStops
import Xperimentum.Terminal.PrintedCells
import Xperimentum.Lib.IncrementalDecoding
import Xperimentum.Terminal.ConverterInput
import Xperimentum.Lib.BlankEdits
import Xperimentum.Terminal.ShownCells
import Xperimentum.Terminal.CountedEdits
import Xperimentum.Terminal.Resizing
import Xperimentum.Pantomime.Base64
import Xperimentum.Pantomime.Base64Encoding
import Xperimentum.Pantomime.Base64Decoding
import Xperimentum.Pantomime.Base64RoundTrip
import Xperimentum.Lib.LinearSearch
import Xperimentum.Pantomime.ByteSearch
import Xperimentum.Pantomime.FolderCache
import Xperimentum.Terminal.OutputQueue
import Xperimentum.Terminal.CursorTracking
import Xperimentum.Terminal.SavedCursor
import Xperimentum.Terminal.SelectedRange
import Xperimentum.Terminal.SelectedText
import Xperimentum.Terminal.CursorAgreement
import Xperimentum.Lib.LinkedTrees
import Xperimentum.WMcore.BagTree
import Xperimentum.Lib.RedBlack
import Xperimentum.WMcore.BagTreeInsertion
import Xperimentum.WMcore.BagTreeDeletion
import Xperimentum.Pantomime.LineEndings
import Xperimentum.Pantomime.StripHTML
import Xperimentum.Pantomime.DateHeader
import Xperimentum.Pantomime.DateMeaning
import Xperimentum.Pantomime.EncodedWordsSegments
import Xperimentum.Pantomime.EncodedWordsLines
import Xperimentum.Pantomime.ContentHeaders
import Xperimentum.Pantomime.ContentHeaderRanges
import Xperimentum.Pantomime.ContentTypeRanges
import Xperimentum.Pantomime.InternetAddress
import Xperimentum.Pantomime.MessageState
import Xperimentum.Pantomime.HeaderSpaces
import Xperimentum.Pantomime.BlockReads
import Xperimentum.Pantomime.IMAPTags
import Xperimentum.Pantomime.MessageComparing
import Xperimentum.Pantomime.ServiceOutput
import Xperimentum.Pantomime.POP3Retrieval
import Xperimentum.Pantomime.UUFile
import Xperimentum.Lib.Buffers
import Xperimentum.Pantomime.IMAPCache
import Xperimentum.Pantomime.MailSpool
import Xperimentum.Pantomime.LocalCache
import Xperimentum.Lib.RegexSearch
import Xperimentum.Pantomime.BaseSubject
import Xperimentum.Pantomime.BaseSubjectWords
import Xperimentum.Pantomime.BaseSubjectReduction
import Xperimentum.Pantomime.BaseSubjectSpaces
import Xperimentum.Pantomime.BaseSubjectReplies
import Xperimentum.SystemKit.DisplayOrder
import Xperimentum.Addresses.MultiValue
import Xperimentum.Pantomime.NumberScanning
import Xperimentum.Pantomime.POP3Listing
import Xperimentum.Pantomime.SMTPTransparency
import Xperimentum.SystemKit.FileSystemEvents
import Xperimentum.Workspace.CopyProgress
import Xperimentum.Addresses.VCFConverter
import Xperimentum.WMcore.BagTreeItems
import Xperimentum.WMcore.BagTreeRuns
import Xperimentum.WMcore.IdleHandlers
import Xperimentum.Workspace.LinkOperation
import Xperimentum.Lib.Blocks
import Xperimentum.WMcore.Data
import Xperimentum.WMcore.DataCalls
import Xperimentum.WMcore.DataRuns
import Xperimentum.WMcore.FindFile
import Xperimentum.WMcore.PathExpansion
import Xperimentum.WMcore.FileSearch

