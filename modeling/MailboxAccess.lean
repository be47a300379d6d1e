import MailboxAccess.Document.Samples
import MailboxAccess.Json.Scalars
import MailboxAccess.Race
import MailboxAccess.Session.Script
import MailboxAccess.Proofs.Spelling
import MailboxAccess.Proofs.Cbor
import MailboxAccess.Proofs.Codec
import MailboxAccess.Task
import MailboxAccess.Proofs.Store.Database
import MailboxAccess.Proofs.Store.Memory
import MailboxAccess.Proofs.History
import MailboxAccess.Proofs.Plan
import MailboxAccess.Proofs.Store
import MailboxAccess.Proofs.Race
import MailboxAccess.Proofs.Editor.Moves
import MailboxAccess.Proofs.Task
import MailboxAccess.Proofs.Course
import MailboxAccess.Proofs.Versions
import MailboxAccess.Proofs.Contents
import MailboxAccess.Proofs.Serial
import MailboxAccess.Proofs.Editor.Knowledge
import MailboxAccess.Proofs.Finished
import MailboxAccess.Proofs.Consistency
import MailboxAccess.Proofs.Attempts
import MailboxAccess.Proofs.StaleRows
import MailboxAccess.Proofs.Store.Readable
import MailboxAccess.Proofs.Store.Agreement
import MailboxAccess.Proofs.Alone
import MailboxAccess.Proofs.Editor.Alone
import MailboxAccess.Proofs.InTurn
import MailboxAccess.Proofs.ByteOrder
import MailboxAccess.Proofs.Grants
import MailboxAccess.Proofs.Construction
import MailboxAccess.Proofs.Store.Elsewhere
import MailboxAccess.Proofs.Cut
import MailboxAccess.Proofs.Editor.Cut
import MailboxAccess.Proofs.CrashSafety
import MailboxAccess.Proofs.Healing
import MailboxAccess.Proofs.Editor.Rounds
import MailboxAccess.Proofs.Retries
import MailboxAccess.Proofs.Naming
import MailboxAccess.Proofs.Changes
import MailboxAccess.Proofs.Repair
import MailboxAccess.Proofs.Editor.Failures
import MailboxAccess.Proofs.Failures
import MailboxAccess.Proofs.Store.Limits
import MailboxAccess.Proofs.Editor.Strict
import MailboxAccess.Proofs.Editor.Run
import MailboxAccess.Proofs.VersionOrder
import MailboxAccess.Proofs.AnyRecord
import MailboxAccess.Proofs.Store.Cells
import MailboxAccess.Proofs.RowChanges
import MailboxAccess.Proofs.Announcements
import MailboxAccess.Proofs.Listeners
import MailboxAccess.Proofs.Edits
import MailboxAccess.Proofs.OrderFree
import MailboxAccess.Proofs.Editor.Footprint
import MailboxAccess.Proofs.Locality
import MailboxAccess.Proofs.Contested
import MailboxAccess.Proofs.Lattice
import MailboxAccess.Proofs.Truncation
import MailboxAccess.Proofs.Damage
import MailboxAccess.Proofs.Validation
import MailboxAccess.Proofs.Letters
import MailboxAccess.Proofs.Commands
import MailboxAccess.Proofs.Store.Local
import MailboxAccess.Proofs.Separation
import MailboxAccess.Proofs.Opening
