import Lich.RoundTrip
import Lich.ExitNotice
import Lich.StreamHole
import Lich.StreamLaw
import Lich.PrintedFirst
import Lich.OneShot
import Lich.StartupSockets
import Lich.Drained
import Lich.Serial
import Lich.CStream
import Lich.CEndToEnd
import Lich.CStartupEnd
import Lich.Attach
import Lich.Dump
import Lich.Overlong
import Lich.OutputFirst
import Lich.CreateAttach
import Lich.Keyboard
import Lich.Gate
import Lich.ExitStatus
import Lich.Closure
import Lich.Isolation
import Lich.StreamEnd
import Lich.OneSession
import Lich.OnlySockets
import Lich.Bounded
import Lich.DumpTail
import Lich.SendKeys
import Lich.RingHistory
import Lich.Stdin
import Lich.EveryClient
import Lich.LowPriority
import Lich.WireIntegrity
import Lich.WindowSize
import Lich.ResizeSent
import Lich.ListSessions
import Lich.CliParity
import Lich.C.Attach
