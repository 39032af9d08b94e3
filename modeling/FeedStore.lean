import FeedStore.Background.Queue
import FeedStore.Background.Script
import FeedStore.Clock
import FeedStore.Command
import FeedStore.CommandLine.Request
import FeedStore.CommandLine.Run
import FeedStore.Config
import FeedStore.Digest.Sha256
import FeedStore.Error
import FeedStore.Image
import FeedStore.Json.Literal
import FeedStore.Json.TextArray
import FeedStore.Main
import FeedStore.Operation.Enclosures
import FeedStore.Operation.Listing
import FeedStore.Operation.Opening
import FeedStore.Operation.Reading
import FeedStore.Operation.Refresh
import FeedStore.Operation.Removal
import FeedStore.Operation.Retention
import FeedStore.Operation.Subscription
import FeedStore.Outside
import FeedStore.Proofs.Statement
import FeedStore.Query.Basic
import FeedStore.Query.Condition
import FeedStore.Query.Neighbour
import FeedStore.Query.Order
import FeedStore.Record
import FeedStore.Session
import FeedStore.Shelf
import FeedStore.Status
import FeedStore.Store
import FeedStore.Store.Entries
import FeedStore.Store.Reading
import FeedStore.Store.Subscription
import FeedStore.Table
import FeedStore.Text.Blank
import FeedStore.Text.Fold
import FeedStore.Text.Hex
import FeedStore.Text.Infix
import FeedStore.Text.Lowercase
import FeedStore.Text.Lowercase.Table
import FeedStore.Text.Quoted
import FeedStore.Text.Quoted.Table
import FeedStore.Text.Range
import FeedStore.Text.Wildcard
import FeedStore.Toml.Document
import FeedStore.Toml.Scalar
import FeedStore.Toml.Text
import FeedStore.Toml.Value
import FeedStore.Proofs.Integrity
import FeedStore.Proofs.Views
import FeedStore.Proofs.Attachments
import FeedStore.Proofs.Refresh
import FeedStore.Proofs.Neighbours
import FeedStore.Proofs.Sweep
import FeedStore.Proofs.Pagination
import FeedStore.Proofs.Navigation
import FeedStore.Proofs.Identifiers
import FeedStore.Proofs.Parts
import FeedStore.Proofs.Removal
import FeedStore.Proofs.Ownership
import FeedStore.Proofs.Writes
import FeedStore.Proofs.StatusMoves
import FeedStore.Proofs.Loss
import FeedStore.Proofs.Sorting
import FeedStore.Proofs.Readable
import FeedStore.Proofs.Building
import FeedStore.Proofs.Denotation
import FeedStore.Proofs.Unnoticed
import FeedStore.Proofs.Commuting
import FeedStore.Proofs.Progress
import FeedStore.Proofs.Race
import FeedStore.Proofs.Tenants
import FeedStore.Proofs.Isolation
import FeedStore.Proofs.Marking
import FeedStore.Proofs.FeedRemoval
import FeedStore.Proofs.EnclosureReads
import FeedStore.Proofs.Answers
import FeedStore.Proofs.Homes
import FeedStore.Proofs.UserRemoval
import FeedStore.Proofs.Unsubscribing
import FeedStore.Proofs.GlobalList
import FeedStore.Proofs.EntryChanges
import FeedStore.Proofs.Sharing
import FeedStore.Proofs.ChangeTimes
import FeedStore.Proofs.FirstShare
import FeedStore.Proofs.Queueing
import FeedStore.Proofs.Refusals
import FeedStore.Proofs.EnclosureUpdates
import FeedStore.Proofs.Totals
import FeedStore.Proofs.StoredTags
import FeedStore.Proofs.TagFilter
import FeedStore.Proofs.TagWrites
import FeedStore.Proofs.OwnTags
import FeedStore.Proofs.TextSearch
import FeedStore.Proofs.ExactSearch
import FeedStore.Proofs.Archival
import FeedStore.Proofs.Draining
import FeedStore.Proofs.CategoryMarking
import FeedStore.Proofs.StatusCounts
import FeedStore.Proofs.Idempotence
import FeedStore.Proofs.Anchors
import FeedStore.Proofs.Adjacency
import FeedStore.Proofs.FeedChanges
import FeedStore.Proofs.FailedFetches
import FeedStore.Proofs.NormalForm
import FeedStore.Proofs.Paging
import FeedStore.Proofs.ByteOrder
import FeedStore.Proofs.Documents
import FeedStore.Proofs.Configuration
