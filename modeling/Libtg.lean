import Libtg.Lib.LittleEndian
import Libtg.Lib.Cursor
import Libtg.Lib.Backpatch
import Libtg.Tl.Deserialize
import Libtg.TlGenerator.Layout
import Libtg.TlGenerator.Presence
import Libtg.TlGenerator.DeserializeTable
import Libtg.TlGenerator.Wire
import Libtg.TlGenerator.RoundTrip
import Libtg.Tg.PrepareQuery
import Libtg.Tg.Receive
import Libtg.Lib.Transition
import Libtg.Tg.List
import Libtg.Tg.QueueAnswers
import Libtg.Tg.QueueLife
import Libtg.Tg.QueueComplete
import Libtg.TlGenerator.Bounds
import Libtg.TlGenerator.Free
import Libtg.TlGenerator.Fields
import Libtg.Tg.Answer
import Libtg.Tg.OwnAnswer
import Libtg.Tg.Numbering
import Libtg.Tg.Pending
import Libtg.Tg.FailedSend
import Libtg.Tg.Resend
import Libtg.Tg.Framing
import Libtg.Tg.Container
import Libtg.Tg.GetFile
import Libtg.Tg.DownloadEnds
import Libtg.Tg.Retries
import Libtg.Tg.DocumentSend
import Libtg.Tg.Connect
import Libtg.Tg.QueryBlock
import Libtg.Tg.Wrapping
import Libtg.Tg.Compressed
import Libtg.Tg.Notices
import Libtg.Tg.Absent
import Libtg.Tg.SvgPath
import Libtg.Tg.ForEach
import Libtg.Tg.Sockets
import Libtg.Tg.RandomIds
import Libtg.Tg.Accounts
import Libtg.Tg.ShortUpdates
import Libtg.Tg.ParseMsgs
import Libtg.Tg.DialogPeers
import Libtg.Tg.DialogCache
import Libtg.Tg.DialogStack
import Libtg.Tg.DialogHash
import Libtg.Tg.Hashes
import Libtg.Tg.AuthKeys
import Libtg.Tg.AuthTokens
import Libtg.Tg.Rows
import Libtg.Tg.Restored
import Libtg.Tl.Base64
import Libtg.TlGenerator.SchemaFile
import Libtg.Tg.PeerColors
import Libtg.Tl.BufRuns
import Libtg.Tl.StrRuns
import Libtg.Tl.StringMemory
import Libtg.Mtx.Sha256
import Libtg.Mtx.Sha1
import Libtg.Mtx.FirstQuery
