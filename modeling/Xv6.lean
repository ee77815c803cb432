import Xv6.Library.Slots
import Xv6.Library.Crash
import Xv6.Construction.Layout
import Xv6.Construction.Log
import Xv6.Library.RedoLog
import Xv6.Proof.Log.Crash
import Xv6.Construction.LogProtocol
import Xv6.Proof.Log.Steps
import Xv6.Proof.Log.Region
import Xv6.Proof.Log.History
import Xv6.Proof.Log.Operations
import Xv6.Proof.Log.Reservation
import Xv6.Construction.Syscall
import Xv6.Proof.Syscall.Arguments
import Xv6.Construction.Coroutine
import Xv6.Proof.Coroutine.Switch
import Xv6.Proof.Coroutine.RoundRobin
import Xv6.Proof.Coroutine.Exit
import Xv6.Proof.Coroutine.Drain
import Xv6.Proof.Coroutine.Create
import Xv6.Construction.Memory
import Xv6.Construction.Vm
import Xv6.Construction.Exec
import Xv6.Library.Radix
import Xv6.Proof.Vm.Table
import Xv6.Proof.Vm.Walk
import Xv6.Proof.Vm.Free
import Xv6.Proof.Vm.Shrink
import Xv6.Proof.Vm.Image
import Xv6.Proof.Vm.Access
import Xv6.Proof.Exec.Load
import Xv6.Proof.Exec.Stack
import Xv6.Proof.Exec.Segments
import Xv6.Proof.Exec.Safety
import Xv6.Construction.Pipe
import Xv6.Library.Ring
import Xv6.Proof.Pipe.Steps
import Xv6.Proof.Pipe.Fifo
import Xv6.Proof.Pipe.Wakeup
import Xv6.Construction.Proc
import Xv6.Proof.Proc.Steps
import Xv6.Proof.Proc.Family
import Xv6.Proof.Proc.Attention
import Xv6.Proof.Proc.Reaping
import Xv6.Library.Circular
import Xv6.Library.Extents
import Xv6.Construction.Umalloc
import Xv6.Proof.Umalloc.Free
import Xv6.Proof.Umalloc.Sound
import Xv6.Proof.Umalloc.Malloc
import Xv6.Proof.Umalloc.Runs
import Xv6.Library.Wp
import Xv6.Library.Ownership
import Xv6.Construction.Fs
import Xv6.Proof.Fs.Bitmap
import Xv6.Proof.Fs.Inodes
import Xv6.Proof.Fs.Image
import Xv6.Proof.Fs.Mapping
import Xv6.Proof.Fs.WellFormed
import Xv6.Proof.Fs.Files
import Xv6.Proof.Fs.ReadWrite
import Xv6.Proof.Fs.Truncate
import Xv6.Proof.Fs.Runs
import Xv6.Construction.Icache
import Xv6.Library.Recycle
import Xv6.Proof.Icache.Fresh
import Xv6.Proof.Proc.Kill
import Xv6.Construction.Console
import Xv6.Construction.Sleep
import Xv6.Proof.Sleep.Kill
import Xv6.Construction.Bcache
import Xv6.Proof.Bcache.Ring
import Xv6.Proof.Bcache.Recency
import Xv6.Construction.Buffered
import Xv6.Construction.Operations
import Xv6.Proof.Operations.Protocol
import Xv6.Proof.Operations.Steps
import Xv6.Proof.Operations.Buffers
import Xv6.Proof.Operations.Duties
import Xv6.Proof.Operations.Isolation
import Xv6.Proof.Operations.Coherence
import Xv6.Construction.File
import Xv6.Library.Occurrences
import Xv6.Proof.File.Pipes
import Xv6.Proof.File.References
import Xv6.Proof.File.Lifetime
import Xv6.Construction.Fork
import Xv6.Proof.Vm.Copy
import Xv6.Proof.Fork.Failure
import Xv6.Construction.Shell
import Xv6.Library.Fuel
import Xv6.Construction.Trap
import Xv6.Proof.Fork.Stack
import Xv6.Proof.Fork.Success
import Xv6.Proof.Fork.Resume
import Xv6.Construction.Spaces
import Xv6.Proof.Vm.Spaces
import Xv6.Construction.Wakeup
import Xv6.Proof.Proc.Wakeup
import Xv6.Construction.Cpu
import Xv6.Proof.Proc.Cpu
import Xv6.Proof.Proc.Processors
import Xv6.Construction.Dirent
import Xv6.Construction.Mkfs
import Xv6.Library.Agreement
import Xv6.Proof.Mkfs.Append
import Xv6.Proof.Mkfs.Contents
import Xv6.Proof.Mkfs.Calls
import Xv6.Proof.Shell.Complete
import Xv6.Proof.Shell.Parsed
import Xv6.Proof.Operations.Exhaustion
import Xv6.Proof.Fs.Filewrite
import Xv6.Proof.Syscall.Fetch
import Xv6.Proof.Vm.Duplicate
import Xv6.Proof.Shell.Words
import Xv6.Construction.Runcmd
import Xv6.Proof.Shell.Pipelines
import Xv6.Proof.Shell.Redirections
import Xv6.Construction.Grep
import Xv6.Proof.Grep.Matcher
import Xv6.Proof.Grep.Chunks
import Xv6.Construction.Memmove
import Xv6.Proof.Strings.Memmove
import Xv6.Construction.Context
import Xv6.Proof.Coroutine.Context
import Xv6.Proof.Proc.Ancestry
