import Inworkspace.Mailbox.Acl
import Inworkspace.Auth.AliasLogin
import Inworkspace.Network.Limiter
import Inworkspace.Network.Security
import Inworkspace.Network.StartTls
import Inworkspace.Registry.Set
import Inworkspace.Sharing.ContainerAcl
import Inworkspace.Registry.AccountCredential
import Inworkspace.RegistryStore.Constraints
import Inworkspace.RegistryStore.Integrity
import Inworkspace.Search.Dispatch
import Inworkspace.Search.Range
import Inworkspace.Imap.SearchProgram
import Inworkspace.RegistryStore.Paging
import Inworkspace.ChangeLog.Containers
import Inworkspace.ChangeLog.Truncation
import Inworkspace.Blob.Purge
import Inworkspace.InMemory.Lock
import Inworkspace.InMemory.RateLimit
import Inworkspace.Write.Agreement
import Inworkspace.Write.Ephemeral
import Inworkspace.Indexing.Interruption
import Inworkspace.Storage.PathIndependence
import Inworkspace.Imap.SequenceNumbers
import Inworkspace.Imap.SequenceSet
import Inworkspace.Imap.StateInvariant
import Inworkspace.Email.Delivery
import Inworkspace.Dav.LockConcurrency
import Inworkspace.Dav.IfHeader
import Inworkspace.Calendar.Alarms
import Inworkspace.Queue.Manager
import Inworkspace.Queue.Quota
import Inworkspace.Queue.Dsn
import Inworkspace.Trace.Channel
import Inworkspace.Tasks.Retry
import Inworkspace.Tasks.MergeThreads
import Inworkspace.Jmap.CreationOrder
import Inworkspace.Storage.Archiver
import Inworkspace.Expr.StringLiteral
import Inworkspace.Types.Printed
