import TinyRedis.SkipList.Rank
import TinyRedis.Resp.InlineLimit
import TinyRedis.Resp.RoundTrip
import TinyRedis.Rdb.Checksum
import TinyRedis.Rdb.RoundTrip
import TinyRedis.Rdb.SortedSets
import TinyRedis.Db.Reach
import TinyRedis.Commands.Replies
import TinyRedis.Commands.ErrorText
import TinyRedis.Commands.ExpiredKeys
import TinyRedis.EventLoop.Output
import TinyRedis.EventLoop.Quit
import TinyRedis.EventLoop.Segments
import TinyRedis.EventLoop.Storage
import TinyRedis.Rdb.Savers
import TinyRedis.EventLoop.Lifetimes
import TinyRedis.Commands.Patterns
import TinyRedis.Commands.ScoreBounds
import TinyRedis.Commands.ZAddErrors
import TinyRedis.Commands.Filled.Runs
import TinyRedis.Commands.Counters
import TinyRedis.Commands.Handles
import TinyRedis.Commands.Counts
import TinyRedis.Commands.Visibility
import TinyRedis.Commands.Scans
import TinyRedis.Commands.Renames
import TinyRedis.Commands.SetRange
