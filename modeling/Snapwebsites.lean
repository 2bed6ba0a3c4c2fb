import Snapwebsites.Communicator.Relay
import Snapwebsites.Snaplock.Takeover
import Snapwebsites.Libdbproxy.OrderResult
import Snapwebsites.Snapdatabase.Primary
import Snapwebsites.Snapdatabase.SchemaBlocks
import Snapwebsites.Snapdatabase.ReleaseSpace
import Snapwebsites.SnapUri.SetPath
import Snapwebsites.SnapVersion.Canonical
import Snapwebsites.SnapVersion.FindVersion
import Snapwebsites.SnapParser.Strings
import Snapwebsites.QuotedPrintable.RoundTrip
import Snapwebsites.QuotedPrintable.Lines
import Snapwebsites.SnapUri.Refused
import Snapwebsites.Snaplistd.Journal
import Snapwebsites.Communicator.ClusterRun
import Snapwebsites.Communicator.LoadAverage
import Snapwebsites.Communicator.LocalCache
import Snapwebsites.SnapExpr.Truth
import Snapwebsites.SnapExpr.Storage
import Snapwebsites.SnapChild.Website
import Snapwebsites.HttpCookie.ComeBack
import Snapwebsites.SnapChild.FormRead
import Snapwebsites.CacheControl.Ages
import Snapwebsites.HttpCookie.Expire
import Snapwebsites.Loadavg.Sessions
import Snapwebsites.SnapConfig.Precedence
import Snapwebsites.SnapFlag.Counts
import Snapwebsites.SnapChild.Timezone
import Snapwebsites.FuzzyString.Search
import Snapwebsites.SnapChild.Locales
import Snapwebsites.SnapManager.StatusStorage
import Snapwebsites.Links.Stored
import Snapwebsites.Email.Queue
import Snapwebsites.Snapfirewall.Restart
import Snapwebsites.Snapfirewall.Saved
import Snapwebsites.Dbutils.Invertible
import Snapwebsites.Snaplock.Replies
import Snapwebsites.Snaplock.HandOver
import Snapwebsites.Snapdatabase.ArrayItem
import Snapwebsites.Snapdatabase.CellOrder
import Snapwebsites.Snapdatabase.ConvertRoundTrip
import Snapwebsites.Snapdatabase.VersionText
import Snapwebsites.Snapdatabase.RowDecode
import Snapwebsites.Snapdatabase.SetBuffer
import Snapwebsites.Snapdatabase.Flags
import Snapwebsites.Snapdatabase.ColumnIds
import Snapwebsites.Snapdatabase.Dbfile
import Snapwebsites.Snapdatabase.EntryIndex
import Snapwebsites.Snapdatabase.PageCache
import Snapwebsites.Snapdatabase.RowKey
import Snapwebsites.Snapdatabase.Script
import Snapwebsites.Snapdatabase.XmlDocument
import Snapwebsites.Snaplock.Queue
