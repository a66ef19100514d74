import Smrt.Authoring.AutoVersion
import Smrt.Authoring.Bootstrap
import Smrt.Authoring.ClassFacts
import Smrt.Authoring.ClassTorn
import Smrt.Authoring.CommitIds
import Smrt.Authoring.DiffOrder
import Smrt.Authoring.DiffSeen
import Smrt.Authoring.DocValues
import Smrt.Authoring.Fingerprint
import Smrt.Authoring.HarvestBuilds
import Smrt.Authoring.HarvestDecisions
import Smrt.Authoring.HarvestLands
import Smrt.Authoring.HarvestSched
import Smrt.Authoring.HarvestSpellings
import Smrt.Authoring.HeldLists
import Smrt.Authoring.JarDiff
import Smrt.Authoring.JarSides
import Smrt.Authoring.LoaderBuilds
import Smrt.Authoring.LoaderReqs
import Smrt.Authoring.Locks
import Smrt.Authoring.MixinExact
import Smrt.Authoring.MixinGaps
import Smrt.Authoring.PackConflicts
import Smrt.Authoring.PackStream
import Smrt.Authoring.Prepared
import Smrt.Authoring.Pruning
import Smrt.Authoring.Pulls
import Smrt.Authoring.RemoteZip
import Smrt.Authoring.Revert
import Smrt.Authoring.Search
import Smrt.Authoring.Seats
import Smrt.Authoring.Spoof
import Smrt.Authoring.Verdict
import Smrt.Events
import Smrt.Http.AtomFeed
import Smrt.Http.BuildCommit
import Smrt.Http.CommitStatus
import Smrt.Http.Credits
import Smrt.Http.Cursor
import Smrt.Http.Deletion
import Smrt.Http.ETag
import Smrt.Http.FillRev
import Smrt.Http.Guests
import Smrt.Http.JobAnswers
import Smrt.Http.Keepers
import Smrt.Http.Listings
import Smrt.Http.LiveEdits
import Smrt.Http.LiveWrites
import Smrt.Http.NextPage
import Smrt.Http.Ownership
import Smrt.Http.Proposal
import Smrt.Http.Publish
import Smrt.Http.Rate
import Smrt.Http.Readings
import Smrt.Http.SignIn
import Smrt.Http.ThreadIds
import Smrt.Http.Uploads
import Smrt.Jobs
import Smrt.Registry.Authored
import Smrt.Registry.Collide
import Smrt.Registry.Digest
import Smrt.Registry.Graph
import Smrt.Registry.Loaders
import Smrt.Registry.RangeSets
import Smrt.Registry.Upgrades
import Smrt.Storage.AtomicWrite
import Smrt.Storage.BuildIndex
import Smrt.Storage.Clone
import Smrt.Storage.Inventory
import Smrt.Storage.Layout
import Smrt.Storage.Paging
import Smrt.Storage.Publication
import Smrt.Storage.Takedown
import Smrt.Web.Markdown
import Smrt.Web.Preview
import Smrt.Web.Route
import Smrt.Web.SharedDoc
import Smrt.Web.Touched
import Smrt.Web.Validate
