import Cse303.Lib.Lts
import Cse303.Lib.CInt
import Cse303.Lib.CallLoop
import Cse303.Lib.Fifo
import Cse303.Lib.Stdio
import Cse303.Lib.Proc
import Cse303.Lib.Ledger
import Cse303.Lib.Inet
import Cse303.Lib.Getopt
import Cse303.Lib.Writers
import Cse303.Common.Err
import Cse303.Common.KeyFiles
import Cse303.Common.KeyBootstrap
import Cse303.Common.KeyRace
import Cse303.Common.KeyAlone
import Cse303.Common.File
import Cse303.Common.FileRace
import Cse303.Common.Aes
import Cse303.Net.Socket
import Cse303.Net.Send
import Cse303.Net.GetToEof
import Cse303.Net.GetToEofOrN
import Cse303.Net.PeerClose
import Cse303.Net.Transfer
import Cse303.Net.Connect
import Cse303.Net.Sockets
import Cse303.Net.Handles
import Cse303.Client.Args
import Cse303.Client.Main
import Cse303.Client.Process
import Cse303.Server.Accept
import Cse303.Server.Shutdown
import Cse303.Server.Drain
import Cse303.Server.Unbound
import Cse303.Server.Args
import Cse303.Server.Main
import Cse303.Server.Starts
import Cse303.Scripts.Launch
import Cse303.Scripts.Dialogue
import Cse303.Scripts.Session
import Cse303.Server.Handles
