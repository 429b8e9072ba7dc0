import AcharyaOS.Foundation.Run
import AcharyaOS.Foundation.CString
import AcharyaOS.Foundation.Slots
import AcharyaOS.Foundation.Extent
import AcharyaOS.Fs.Code
import AcharyaOS.Fs.Image
import AcharyaOS.Fs.Names
import AcharyaOS.Fs.Blocks
import AcharyaOS.Fs.Plan
import AcharyaOS.Fs.Alloc
import AcharyaOS.Fs.Mount
import AcharyaOS.Fs.Reach
import AcharyaOS.Fs.Synced
import AcharyaOS.Fs.Lookup
import AcharyaOS.Fs.Crash
import AcharyaOS.Fs.Isolation
import AcharyaOS.Fs.Failure
import AcharyaOS.Fs.Format
import AcharyaOS.Fs.Space
import AcharyaOS.Fs.RoundTrip
import AcharyaOS.Fs.Remount
import AcharyaOS.User.Code
import AcharyaOS.User.Session
import AcharyaOS.Fs.Store
import AcharyaOS.Foundation.Rotation
import AcharyaOS.Scheduler.Code
import AcharyaOS.Scheduler.Fairness
import AcharyaOS.Foundation.Ring
import AcharyaOS.Log.Code
import AcharyaOS.Log.Refinement
import AcharyaOS.Foundation.Words
import AcharyaOS.Heap.Code
import AcharyaOS.Heap.Safety
import AcharyaOS.Foundation.PageWalk
import AcharyaOS.Vmm.Code
import AcharyaOS.Vmm.Tables
import AcharyaOS.Vmm.Isolation
import AcharyaOS.Vmm.UserMap
import AcharyaOS.Calc.Code
import AcharyaOS.Calc.Grammar
import AcharyaOS.Calc.Reading
import AcharyaOS.Calc.Parsing
import AcharyaOS.Calc.Evaluate
import AcharyaOS.Config.Code
import AcharyaOS.Foundation.Assoc
import AcharyaOS.Config.RoundTrip
import AcharyaOS.Package.Code
import AcharyaOS.Package.Index
import AcharyaOS.Package.Install
import AcharyaOS.Foundation.Queue
import AcharyaOS.Keyboard.Code
import AcharyaOS.Keyboard.Fifo
import AcharyaOS.Mouse.Code
import AcharyaOS.Mouse.Poll
import AcharyaOS.Udp.Code
import AcharyaOS.Udp.Table
import AcharyaOS.Arp.Code
import AcharyaOS.Arp.Static
import AcharyaOS.User.Registry
import AcharyaOS.Config.Store
import AcharyaOS.Foundation.Scan
import AcharyaOS.Syscall.Code
import AcharyaOS.Syscall.Privilege
import AcharyaOS.Editor.Code
import AcharyaOS.Editor.Buffer
import AcharyaOS.Editor.Unsaved
import AcharyaOS.Foundation.Lines
import AcharyaOS.Editor.Loading
import AcharyaOS.Editor.RoundTrip
import AcharyaOS.Udp.Ephemeral
import AcharyaOS.Ipv4.Code
import AcharyaOS.Udp.Send
import AcharyaOS.Shell.Code
import AcharyaOS.Shell.History
import AcharyaOS.Process.Code
import AcharyaOS.Process.Tables
import AcharyaOS.Scheduler.Interrupts
import AcharyaOS.Vga.Code
import AcharyaOS.Vga.Terminal
import AcharyaOS.Foundation.Numeral
import AcharyaOS.Kio.Code
import AcharyaOS.Kio.Format
import AcharyaOS.Log.Format
import AcharyaOS.Config.Save
import AcharyaOS.Package.Manifest
import AcharyaOS.Package.Effect
import AcharyaOS.Package.Metadata
import AcharyaOS.Package.Failed
import AcharyaOS.Package.Slots
import AcharyaOS.Package.Grammar
import AcharyaOS.Fs.Accept
import AcharyaOS.Editor.Reload
import AcharyaOS.Package.Persisted
import AcharyaOS.Editor.Memory
import AcharyaOS.Fs.Interrupted
import AcharyaOS.Shell.Commands
import AcharyaOS.Shell.Calculator
import AcharyaOS.Shell.Recall
import AcharyaOS.Vga.Typing
import AcharyaOS.Shell.Readline
import AcharyaOS.Foundation.OnesSum
import AcharyaOS.Icmp.Code
import AcharyaOS.Ipv4.Checksum
import AcharyaOS.Udp.Checksum
import AcharyaOS.Ipv4.Address
import AcharyaOS.Ipv4.Routing
import AcharyaOS.Ipv4.Sending
import AcharyaOS.Ipv4.Requests
import AcharyaOS.Udp.Accounting
import AcharyaOS.Arp.Print
import AcharyaOS.Ipv4.Print
import AcharyaOS.Foundation.CountUp
import AcharyaOS.Foundation.Layer
import AcharyaOS.Framebuffer.Code
import AcharyaOS.Framebuffer.Fill
import AcharyaOS.Window.Code
import AcharyaOS.Window.Composition
import AcharyaOS.Foundation.Numbered
import AcharyaOS.Button.Code
import AcharyaOS.Button.Pressed
import AcharyaOS.Icons.Code
import AcharyaOS.Icons.Clicks
import AcharyaOS.Mouse.Movement
import AcharyaOS.Keyboard.Shift
import AcharyaOS.Foundation.Memory
import AcharyaOS.Arch.Code
import AcharyaOS.Arch.Descriptors
import AcharyaOS.Foundation.StackMachine
import AcharyaOS.Arch.Stubs
import AcharyaOS.Log.Console
import AcharyaOS.Arch.Interrupts
import AcharyaOS.Pic.Code
import AcharyaOS.Pic.Lines
import AcharyaOS.Disk.Ports
import AcharyaOS.Disk.Handshake
import AcharyaOS.Disk.SelfTest
import AcharyaOS.Console.Code
import AcharyaOS.Console.Calls
import AcharyaOS.Console.Interrupts
import AcharyaOS.Boot.Paging
import AcharyaOS.Kstring.Code
import AcharyaOS.Arch.Segments
import AcharyaOS.Userspace.Code
import AcharyaOS.Userspace.Demo
import AcharyaOS.Foundation.Keyed
import AcharyaOS.Foundation.FrontTable
import AcharyaOS.Service.Code
import AcharyaOS.Service.Runs
import AcharyaOS.Config.Settings
import AcharyaOS.User.Directory
import AcharyaOS.User.Credentials
import AcharyaOS.Shell.System
import AcharyaOS.Shell.Requests
import AcharyaOS.Shell.Answers
import AcharyaOS.Shell.Session
import AcharyaOS.Shell.Keeping
import AcharyaOS.Foundation.Priority
import AcharyaOS.Pic.Protocol
import AcharyaOS.Foundation.SharedBuffer
import AcharyaOS.Arch.Devices
import AcharyaOS.Foundation.Painting
import AcharyaOS.Menus.Code
import AcharyaOS.Desktop.Code
import AcharyaOS.Desktop.Painting
import AcharyaOS.Desktop.Picture
import AcharyaOS.Desktop.Explorer
import AcharyaOS.Desktop.SettingsApp
import AcharyaOS.Foundation.Acceptor
import AcharyaOS.Disk.Driver
import AcharyaOS.Disk.Medium
