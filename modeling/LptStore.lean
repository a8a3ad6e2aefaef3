import LptStore.Codec.RunLength
import LptStore.Msc.Coherence
import LptStore.Lib.Link
import LptStore.Protocol.Task
import LptStore.Protocol.Host
import LptStore.Protocol.Exchange
import LptStore.Protocol.EndToEnd
import LptStore.Handshake.Lines
import LptStore.Handshake.Pins
import LptStore.Handshake.Phases
import LptStore.Handshake.Progress
import LptStore.Handshake.Delivery
import LptStore.Handshake.Turnaround
import LptStore.Protocol.Pauses
import LptStore.Protocol.Abandoned
import LptStore.Fs.Fat32
import LptStore.Fs.Walk
import LptStore.Fs.Directory
import LptStore.Fs.Init
import LptStore.Fs.Judge
import LptStore.Fs.Serve
import LptStore.Fs.Forget
import LptStore.Fs.Advertise
import LptStore.Fs.Contiguous
import LptStore.Fs.Volume
import LptStore.Fs.Linear
import LptStore.Firmware.Events
import LptStore.Firmware.HotSwap
import LptStore.Firmware.Schedule
import LptStore.Codec.Bounds
import LptStore.Lib.Trace
import LptStore.Protocol.Requests
import LptStore.Handshake.Acknowledge
import LptStore.Fs.Bounds
import LptStore.Fs.Termination
import LptStore.Lib.Outline
import LptStore.Msc.Interleave
import LptStore.Msc.Outcome
import LptStore.Dos.Driver
import LptStore.Dos.Geometry
import LptStore.Fs.Consecutive
import LptStore.Fs.Stale
import LptStore.Fs.Length
import LptStore.Fs.Layout
import LptStore.Fs.Marks
import LptStore.Fs.Cache
import LptStore.Fs.Failed
import LptStore.Fs.Reserved
import LptStore.Msc.Prefetch
import LptStore.Firmware.Insertion
import LptStore.Protocol.PastEnd
import LptStore.Firmware.Refinement
import LptStore.Codec.Tokens
import LptStore.Codec.Optimal
import LptStore.Dos.Mount
import LptStore.Dos.Cylinders
import LptStore.Protocol.Blocks
import LptStore.Dos.Partition
import LptStore.Protocol.Complete
import LptStore.Dos.Remount
import LptStore.Dos.Options
import LptStore.Handshake.Snapshots
import LptStore.Dos.Ticks
import LptStore.Protocol.Direct
import LptStore.Handshake.Completion
import LptStore.Handshake.Recorded
import LptStore.Handshake.Commands
import LptStore.Dos.Attached
import LptStore.Dos.Restart
import LptStore.Dos.BlockDevice
import LptStore.Fs.Retain
import LptStore.Handshake.FreePort
import LptStore.Handshake.Held
import LptStore.Handshake.Recovery
import LptStore.Firmware.Stick
import LptStore.Firmware.Files
import LptStore.Firmware.Readahead
import LptStore.Firmware.Session
import LptStore.Firmware.Sticks
import LptStore.Dos.FakeLpt
import LptStore.Dos.PortInit
import LptStore.Codec.CopyFile
import LptStore.Codec.Canonical
import LptStore.Dos.Traffic
