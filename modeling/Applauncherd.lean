import Applauncherd.Library.Word
import Applauncherd.Library.Transition
import Applauncherd.Library.Conversation
import Applauncherd.Library.DescriptorTable
import Applauncherd.Library.DescriptorCalls
import Applauncherd.Library.Environ
import Applauncherd.Library.Getopt
import Applauncherd.Library.Credentials
import Applauncherd.Library.RecordLock
import Applauncherd.Library.Path
import Applauncherd.Library.FileTree
import Applauncherd.Library.MakeDirectory
import Applauncherd.Protocol
import Applauncherd.Launcherlib.ReadSocket
import Applauncherd.Launcherlib.Receive
import Applauncherd.Launcherlib.Sections
import Applauncherd.Invoker.Send
import Applauncherd.Launcherlib.Magic
import Applauncherd.Launcherlib.Decode
import Applauncherd.Launcherlib.RoundTrip
import Applauncherd.Invoker.Signals
import Applauncherd.Invoker.Options
import Applauncherd.Launcherlib.Ending
import Applauncherd.Launcherlib.BoosterPipe
import Applauncherd.Launcherlib.Tables
import Applauncherd.Launcherlib.MainLoop
import Applauncherd.Launcherlib.Effects
import Applauncherd.Launcherlib.MessageQueue
import Applauncherd.Launcherlib.Consistency
import Applauncherd.Launcherlib.Attribution
import Applauncherd.Launcherlib.Respawn
import Applauncherd.Launcherlib.NormalMode
import Applauncherd.Invoker.InvokeRemote
import Applauncherd.Launcherlib.Identification
import Applauncherd.Launcherlib.Argv
import Applauncherd.Launcherlib.LaunchProcess
import Applauncherd.Launcherlib.StartUp
import Applauncherd.Launcherlib.MutualExclusion
import Applauncherd.Launcherlib.ReapZombies
import Applauncherd.Launcherlib.DaemonEvents
import Applauncherd.Launcherlib.HandOver
import Applauncherd.Launcherlib.Truncation
import Applauncherd.Launcherlib.RequestIds
import Applauncherd.Invoker.CutReply
import Applauncherd.Invoker.Search
import Applauncherd.SingleInstance.Lock
import Applauncherd.SingleInstance.Mkpath
import Applauncherd.Launcherlib.Lifetimes
import Applauncherd.Launcherlib.LeavingBootMode
import Applauncherd.Launcherlib.SignalWindow
import Applauncherd.Library.Memory
import Applauncherd.Launcherlib.ArgumentArea
import Applauncherd.Launcherlib.Received
import Applauncherd.SingleInstance.BinaryName
import Applauncherd.Invoker.ProgramLookup
import Applauncherd.Launcherlib.RespawnDelay
import Applauncherd.Launcherlib.SocketManager
import Applauncherd.Launcherlib.SocketDescriptors
import Applauncherd.Launcherlib.SocketAddresses
import Applauncherd.Launcherlib.OwnSocket
import Applauncherd.QDeclarativeBooster.MDeclarativeCache
import Applauncherd.Launcherlib.Exchange
import Applauncherd.Launcherlib.CatchingUp
import Applauncherd.Launcherlib.Tally
import Applauncherd.Launcherlib.Renewal
import Applauncherd.Launcherlib.Connections
import Applauncherd.Launcherlib.Crashes
import Applauncherd.Invoker.SharedFate
import Applauncherd.SingleInstance.Instances
import Applauncherd.Launcherlib.Inheritance
import Applauncherd.Launcherlib.Launched
import Applauncherd.Invoker.CommandLine
import Applauncherd.MBooster.EventHandler
import Applauncherd.MBooster.Orphans
