import SnapStore.Digest.Basic
import SnapStore.Digest.Reader
import SnapStore.Digest.Sha256
import SnapStore.Encoding.Rules
import SnapStore.Encoding.Snapshot
import SnapStore.Encoding.Value
import SnapStore.Error
import SnapStore.Filter
import SnapStore.Lock.Section
import SnapStore.Lock.Table
import SnapStore.Path.Basic
import SnapStore.Path.Canonical
import SnapStore.Path.Relative
import SnapStore.Proofs.Crew.Basic
import SnapStore.Proofs.Crew.Deadlock
import SnapStore.Proofs.Crew.Nesting
import SnapStore.Proofs.Digest.Pieces
import SnapStore.Proofs.Digest.Portions
import SnapStore.Proofs.Encoding.Reading
import SnapStore.Proofs.Encoding.RoundTrip
import SnapStore.Proofs.Encoding.Rules
import SnapStore.Proofs.Encoding.Segments
import SnapStore.Proofs.Encoding.Snapshot
import SnapStore.Proofs.Filter.Extensions
import SnapStore.Proofs.Filter.Pruning
import SnapStore.Proofs.Filter.Reading
import SnapStore.Proofs.Filter.Roots
import SnapStore.Proofs.Lock.Alone
import SnapStore.Proofs.Lock.Crowd
import SnapStore.Proofs.Lock.Exclusion
import SnapStore.Proofs.Lock.Leftover
import SnapStore.Proofs.Lock.Program
import SnapStore.Proofs.Lock.Sections
import SnapStore.Proofs.Lock.Standing
import SnapStore.Proofs.Lock.Table
import SnapStore.Proofs.Path.Canonical
import SnapStore.Proofs.Path.Display
import SnapStore.Proofs.Path.Names
import SnapStore.Proofs.Path.Relative
import SnapStore.Proofs.Path.Text
import SnapStore.Proofs.Relator
import SnapStore.Proofs.Server.Attempts
import SnapStore.Proofs.Server.Basic
import SnapStore.Proofs.Server.Course
import SnapStore.Proofs.Server.Deeds
import SnapStore.Proofs.Server.Earned
import SnapStore.Proofs.Server.Keys
import SnapStore.Proofs.Server.Once
import SnapStore.Proofs.Server.Phase
import SnapStore.Proofs.Server.Renewal
import SnapStore.Proofs.Server.Rule
import SnapStore.Proofs.Server.Seats
import SnapStore.Proofs.Server.Steps
import SnapStore.Proofs.Server.Task
import SnapStore.Proofs.Session.Absorption
import SnapStore.Proofs.Session.Additions
import SnapStore.Proofs.Session.Agreement
import SnapStore.Proofs.Session.Collections
import SnapStore.Proofs.Session.Denied
import SnapStore.Proofs.Session.Directories
import SnapStore.Proofs.Session.Failures
import SnapStore.Proofs.Session.FileRoot
import SnapStore.Proofs.Session.Forgetful
import SnapStore.Proofs.Session.Nothing
import SnapStore.Proofs.Session.OnDisk
import SnapStore.Proofs.Session.Reconstruction
import SnapStore.Proofs.Session.Relocation
import SnapStore.Proofs.Session.Rules
import SnapStore.Proofs.Session.Special
import SnapStore.Proofs.Session.Still
import SnapStore.Proofs.Session.Undotted
import SnapStore.Proofs.Session.Visit
import SnapStore.Proofs.Session.WholeTree
import SnapStore.Proofs.Snapshot.Ignored
import SnapStore.Proofs.Snapshot.Stream
import SnapStore.Proofs.Snapshot.Unordered
import SnapStore.Proofs.Store.Alike
import SnapStore.Proofs.Store.AlikeStores
import SnapStore.Proofs.Store.Contents
import SnapStore.Proofs.Store.Frozen
import SnapStore.Proofs.Store.Handles
import SnapStore.Proofs.Store.Kept
import SnapStore.Proofs.Store.Makes
import SnapStore.Proofs.Store.Mirror
import SnapStore.Proofs.Store.Notes
import SnapStore.Proofs.Store.Protocol
import SnapStore.Proofs.Store.Reading
import SnapStore.Proofs.Store.Recency
import SnapStore.Proofs.Store.Spelling
import SnapStore.Proofs.Store.Still
import SnapStore.Proofs.Store.Transparency
import SnapStore.Proofs.Store.Walk
import SnapStore.Proofs.Text.Lowercase
import SnapStore.Proofs.Text.Order
import SnapStore.Proofs.Time.Calendar
import SnapStore.Proofs.Time.Order
import SnapStore.Proofs.Time.Reading
import SnapStore.Proofs.Timeline.Basic
import SnapStore.Proofs.Timeline.Collect
import SnapStore.Proofs.Timeline.Leftovers
import SnapStore.Proofs.Timeline.Observed
import SnapStore.Proofs.Timeline.Removals
import SnapStore.Proofs.Tree.Complete
import SnapStore.Proofs.Tree.Course
import SnapStore.Proofs.Tree.Cover
import SnapStore.Proofs.Tree.Denied
import SnapStore.Proofs.Tree.Depth
import SnapStore.Proofs.Tree.Filtered
import SnapStore.Proofs.Tree.Listing
import SnapStore.Proofs.Tree.Memory
import SnapStore.Proofs.Tree.Plain
import SnapStore.Proofs.Tree.Removal
import SnapStore.Proofs.Tree.Subwalk
import SnapStore.Proofs.Tree.Tells
import SnapStore.Proofs.Tree.Termination
import SnapStore.Proofs.Tree.Turns
import SnapStore.Proofs.World.Absence
import SnapStore.Proofs.World.Avoidance
import SnapStore.Proofs.World.Child
import SnapStore.Proofs.World.Lookup
import SnapStore.Proofs.World.Names
import SnapStore.Session.Basic
import SnapStore.Session.Host
import SnapStore.Session.Recorder
import SnapStore.Session.Requests
import SnapStore.Snapshot.Entry
import SnapStore.Snapshot.Strategy
import SnapStore.Store.Cache
import SnapStore.Store.Holders
import SnapStore.Store.Host
import SnapStore.Store.Interner
import SnapStore.Store.Shelf
import SnapStore.Store.Snapshotter
import SnapStore.Text.Bytes
import SnapStore.Text.LetterTables
import SnapStore.Text.Lowercase
import SnapStore.Text.NameSet
import SnapStore.Text.Pieces
import SnapStore.Text.Utf8
import SnapStore.Time.Calendar
import SnapStore.Time.Timestamp
import SnapStore.Tree.Basic
import SnapStore.Tree.Memory
import SnapStore.Tree.Scripted
import SnapStore.Tree.Source
import SnapStore.Tree.Walk
import SnapStore.World.Basic
import SnapStore.World.Calls
import SnapStore.World.Change
import SnapStore.World.Resolve
