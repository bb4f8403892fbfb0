import Xv6.Log.GroupCommit
import Xv6.Pipes.Fifo
import Xv6.Process.RingMembers
import Xv6.Process.Statistics
import Xv6.Process.Inheritance
import Xv6.Cache.Lru
import Xv6.Locks.SleepLock
import Xv6.Fs.InodeCache
import Xv6.Console.Discipline
import Xv6.Ide.Refinement
import Xv6.Memory.Descriptors
import Xv6.Shell.Command
import Xv6.Process.RoundRobin
import Xv6.Image.Outcomes
import Xv6.Memory.Forks
import Xv6.Process.Requests
import Xv6.Process.Passes
import Xv6.Process.Counters
import Xv6.Process.Sleeping
import Xv6.Process.Parents
import Xv6.Fs.Paths
import Xv6.Fs.Failures
import Xv6.Blocks.FailedOpen
import Xv6.Grep
import Xv6.Process.Arguments
import Xv6.Memmove
import Xv6.Mp
import Xv6.Locks.SpinLock
