import ThirdPartDemo.Library.Loop
import ThirdPartDemo.Library.Transition
import ThirdPartDemo.Library.Stdio
import ThirdPartDemo.Library.Fstream
import ThirdPartDemo.Library.Codec
import ThirdPartDemo.Library.BatchCodec
import ThirdPartDemo.Library.ZlibStored
import ThirdPartDemo.Library.SnappyLiteral
import ThirdPartDemo.Library.LexicalPath
import ThirdPartDemo.Libuv.Flags
import ThirdPartDemo.Libuv.Reconnect
import ThirdPartDemo.Libuv.Write
import ThirdPartDemo.Library.JsonText
import ThirdPartDemo.Library.Outline
import ThirdPartDemo.Library.Decimal
import ThirdPartDemo.RapidJson.ParseMessages
import ThirdPartDemo.RapidJson.Parse
import ThirdPartDemo.RapidJson.Iterative
import ThirdPartDemo.RapidJson.RoundTrip
import ThirdPartDemo.Lz4.Model
import ThirdPartDemo.Lz4.Names
import ThirdPartDemo.Lz4.Verify
import ThirdPartDemo.Lz4.Compress
import ThirdPartDemo.Lz4.Decompress
import ThirdPartDemo.LibZip.Model
import ThirdPartDemo.LibZip.Archive
import ThirdPartDemo.LibZip.Containment
import ThirdPartDemo.LibZip.Extract
import ThirdPartDemo.Curl.Upload
import ThirdPartDemo.Curl.Header
import ThirdPartDemo.Curl.ReadFunc
import ThirdPartDemo.Curl.Resume
import ThirdPartDemo.Curl.Download
import ThirdPartDemo.Zlib.Model
import ThirdPartDemo.Zlib.Protocol
import ThirdPartDemo.Zlib.Faults
import ThirdPartDemo.Zlib.Deflate
import ThirdPartDemo.Zlib.Inflate
import ThirdPartDemo.Zlib.RoundTrip
import ThirdPartDemo.Miniz.Model
import ThirdPartDemo.Miniz.Calls
import ThirdPartDemo.Miniz.Resources
import ThirdPartDemo.Miniz.Deflate
import ThirdPartDemo.Miniz.Inflate
import ThirdPartDemo.Miniz.RoundTrip
import ThirdPartDemo.Snappy.Model
import ThirdPartDemo.Snappy.AllOrNothing
import ThirdPartDemo.Library.Script
import ThirdPartDemo.RapidJson.Reader
import ThirdPartDemo.RapidJson.NumberParts
import ThirdPartDemo.RapidJson.Numbers
import ThirdPartDemo.RapidJson.Insitu
import ThirdPartDemo.Library.Ring
import ThirdPartDemo.Library.Monitor
import ThirdPartDemo.Library.Inevitable
import ThirdPartDemo.Spdlog.CircularQ
import ThirdPartDemo.Spdlog.MpmcBlockingQueue
import ThirdPartDemo.Spdlog.ThreadPool
import ThirdPartDemo.Spdlog.Delivery
import ThirdPartDemo.Spdlog.Rest
