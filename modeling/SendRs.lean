import SendRs.Library.Effect
import SendRs.Library.Ghost
import SendRs.Library.Pieces
import SendRs.Os.Text
import SendRs.Os.Path
import SendRs.Os.FileSystem
import SendRs.Os.System
import SendRs.Os.Frame
import SendRs.Os.Calm
import SendRs.Os.Persist
import SendRs.Transfer.Manifest
import SendRs.Transfer.Build
import SendRs.Transfer.Execute
import SendRs.Library.Machine
import SendRs.Cli.Session
import SendRs.Store.Json
import SendRs.Library.CreateOnce
import SendRs.Store.Identity
import SendRs.Library.Json
import SendRs.Library.Reader
import SendRs.Library.JsonFormat
import SendRs.Library.CivilTime
import SendRs.Store.Formats
import SendRs.Transfer.Soundness
import SendRs.Transfer.Completeness
import SendRs.Transfer.Naming
import SendRs.Transfer.Coverage
import SendRs.Transfer.Trace
import SendRs.Transfer.Frame
import SendRs.Transfer.Bitmap
import SendRs.Transfer.Resume
import SendRs.Transfer.Checkpoints
import SendRs.Transfer.Confinement
import SendRs.Transfer.SourceFrame
import SendRs.Library.Tally
import SendRs.Transfer.Reads
import SendRs.Transfer.Tally
import SendRs.Library.LastWrite
import SendRs.Transfer.Marks
import SendRs.Transfer.Verify
import SendRs.Transfer.Offsets
import SendRs.Transfer.Finished
import SendRs.Library.ReadModifyWrite
import SendRs.Store.History
import SendRs.Store.Pairing
import SendRs.Store.Crash
import SendRs.Transfer.Rerun
import SendRs.Cli.Claims
import SendRs.Cli.Completion
import SendRs.Cli.Consent
import SendRs.Cli.Handshake
import SendRs.Cli.Results
import SendRs.Cli.HalfWritten
import SendRs.Cli.Sharing
import SendRs.Signaling.History
import SendRs.Signaling.Network
import SendRs.Signaling.Registry
import SendRs.Signaling.Relay
import SendRs.Signaling.Authentic
import SendRs.Library.KeyedFold
import SendRs.Core.Models
import SendRs.Discovery.Snapshot
import SendRs.Discovery.Offers
import SendRs.Library.SqlTable
import SendRs.Chat.Messages
import SendRs.Cli.Records
import SendRs.Ffi.Operations
import SendRs.Ffi.Runtime
import SendRs.Os.Remove
import SendRs.Cli.Paths
import SendRs.Cli.Clean
import SendRs.Disk.Files
import SendRs.Disk.Calm
import SendRs.Disk.Ledger
import SendRs.Disk.Receive
import SendRs.Library.Lockstep
import SendRs.Disk.Session
import SendRs.Disk.Shared
import SendRs.Disk.Follows
import SendRs.Cli.Trust
import SendRs.Cli.Truth
import SendRs.Disk.Afterwards
import SendRs.Ffi.Chats
