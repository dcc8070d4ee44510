/-
An authenticated reader of SQLCipher databases: the page format, the core reader, the Turso codec and
snapshots over it, and the command line tool.
-/
import Veilite.Lib.Buffer
import Veilite.Lib.Cbc
import Veilite.Lib.Traverse
import Veilite.Lib.Paged
import Veilite.Lib.FileTree
import Veilite.Lib.Interact
import Veilite.Lib.Exclusive
import Veilite.Core.Config
import Veilite.Core.Decryptor
import Veilite.Core.PageFormat
import Veilite.Core.Authenticity
import Veilite.Core.Source
import Veilite.Core.Reader
import Veilite.Core.Image
import Veilite.Core.File
import Veilite.Core.SeekRead
import Veilite.Core.Pages
import Veilite.Core.Ranges
import Veilite.Core.Chunks
import Veilite.Core.Format
import Veilite.Core.Tampering
import Veilite.Core.Trace
import Veilite.Core.Simulation
import Veilite.Turso.Codec
import Veilite.Turso.Snapshot
import Veilite.Turso.Opening
import Veilite.Turso.FileSystem
import Veilite.Turso.Checkpoint
import Veilite.Turso.Unauthenticated
import Veilite.Turso.Sources
import Veilite.Turso.WalBound
import Veilite.Turso.Registry
import Veilite.Turso.Sharing
import Veilite.Cli.Export
import Veilite.Cli.AllOrNothing
import Veilite.Cli.Commands
import Veilite.Cli.Passphrase
import Veilite.Cli.Inspect
import Veilite.Cli.Preflight
import Veilite.Cli.Agreement
import Veilite.Cli.Refusal
import Veilite.Cli.Outcome
import Veilite.Cli.Standalone
import Veilite.Cli.LockByte
import Veilite.Cli.ExitStatus
import Veilite.Cli.Preservation
import Veilite.Cli.Stepwise
import Veilite.Cli.Policy
import Veilite.Cli.Compliance
import Veilite.Cli.History
import Veilite.Cli.Sessions
import Veilite.Cli.Survey
import Veilite.Cli.Serving
import Veilite.Cli.Refinement
import Veilite.Cli.Interleaving
import Veilite.Cli.Acceptance
