import BulkTransfer.Main
import BulkTransfer.Pool.Load
import BulkTransfer.Store.Site
import BulkTransfer.Proofs.Pool.Bookkeeping
import BulkTransfer.Proofs.Pool.Keeping
import BulkTransfer.Proofs.Dispatch.Basic
import BulkTransfer.Proofs.Dispatch.Behaviours
import BulkTransfer.Proofs.Dispatch.Waiting
import BulkTransfer.Proofs.Pool.Chronology
import BulkTransfer.Proofs.Pool.Trace
import BulkTransfer.Proofs.Path.Normal
import BulkTransfer.Proofs.Enumeration.Remote
import BulkTransfer.Proofs.Path.Containment
import BulkTransfer.Proofs.Path.Judging
import BulkTransfer.Proofs.Collisions
import BulkTransfer.Proofs.Pool.Lifting
import BulkTransfer.Proofs.Pool.Logging
import BulkTransfer.Proofs.Transfer.Download
import BulkTransfer.Proofs.Transfer.Noting
import BulkTransfer.Proofs.Transfer.Fetching
import BulkTransfer.Proofs.Text.Search
import BulkTransfer.Proofs.Transfer.Retrying
import BulkTransfer.Proofs.Files.Plain
import BulkTransfer.Proofs.Transfer.Writing
import BulkTransfer.Proofs.Files.Building
import BulkTransfer.Proofs.Files.Opening
import BulkTransfer.Proofs.Files.Straight
import BulkTransfer.Proofs.Transfer.Operations
import BulkTransfer.Proofs.Transfer.Containing
import BulkTransfer.Proofs.Transfer.Deciding
import BulkTransfer.Proofs.Enumeration.Local
import BulkTransfer.Proofs.Store
import BulkTransfer.Proofs.Transfer.Storing
import BulkTransfer.Proofs.Files.Receiving
import BulkTransfer.Proofs.Transfer.RoundTrip
import BulkTransfer.Proofs.Transfer.Repeating
import BulkTransfer.Proofs.Transfer.Rejecting
import BulkTransfer.Proofs.Dispatch.Telling
import BulkTransfer.Proofs.Dispatch.Resubmitting
import BulkTransfer.Proofs.Naming.Clean
import BulkTransfer.Proofs.Naming.KeyPrefix
import BulkTransfer.Proofs.Thrown.Passing
import BulkTransfer.Proofs.Bucket.Talk
import BulkTransfer.Proofs.Transfer.Sending
import BulkTransfer.Proofs.Worker.Verdict
import BulkTransfer.Proofs.Bucket.Putting
import BulkTransfer.Proofs.Naming.Normal
import BulkTransfer.Proofs.Dispatch.Serial
import BulkTransfer.Proofs.Thrown.Wrapping
import BulkTransfer.Proofs.Pool.Shares
import BulkTransfer.Proofs.Dispatch.Makespan
import BulkTransfer.Proofs.Naming.Container
import BulkTransfer.Proofs.Bucket.Listing
import BulkTransfer.Proofs.Number.Comparing
import BulkTransfer.Proofs.Concurrency.Leading
import BulkTransfer.Proofs.Concurrency.Default
import BulkTransfer.Proofs.Transfer.Defaulting
import BulkTransfer.Proofs.Thrown.Capturing
import BulkTransfer.Proofs.Naming.Cleaned
import BulkTransfer.Proofs.Naming.Stable
import BulkTransfer.Proofs.Store.Together
import BulkTransfer.Proofs.Collisions.Allotment
import BulkTransfer.Proofs.Worker.Tenths
import BulkTransfer.Proofs.Worker.Progress
