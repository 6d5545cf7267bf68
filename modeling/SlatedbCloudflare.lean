import SlatedbCloudflare.Library.Programs
import SlatedbCloudflare.Library.Messages
import SlatedbCloudflare.Library.Traversals
import SlatedbCloudflare.Platform.ObjectStore
import SlatedbCloudflare.Platform.R2
import SlatedbCloudflare.Platform.Effects
import SlatedbCloudflare.Platform.Http
import SlatedbCloudflare.DurableObject.Perf
import SlatedbCloudflare.DurableObject.R2Store
import SlatedbCloudflare.DurableObject.ConditionalWrites
import SlatedbCloudflare.Container.Bridge
import SlatedbCloudflare.Container.Handled
import SlatedbCloudflare.Container.BindingStore
import SlatedbCloudflare.Container.Client
import SlatedbCloudflare.Container.Network
import SlatedbCloudflare.Container.ConditionalWrites
import SlatedbCloudflare.Multipart.Handle
import SlatedbCloudflare.Multipart.Finishing
import SlatedbCloudflare.DurableObject.Multipart
import SlatedbCloudflare.Container.Multipart
import SlatedbCloudflare.Multipart.Refusals
import SlatedbCloudflare.Multipart.Assembly
import SlatedbCloudflare.Multipart.Completion
import SlatedbCloudflare.Library.Framing
import SlatedbCloudflare.Library.KeyedStore
import SlatedbCloudflare.Platform.Storage
import SlatedbCloudflare.DurableObject.Cache
import SlatedbCloudflare.DurableObject.CacheKeys
import SlatedbCloudflare.DurableObject.CacheRuns
import SlatedbCloudflare.DurableObject.CacheRefinement
import SlatedbCloudflare.DurableObject.CacheDeletion
import SlatedbCloudflare.Library.Locks
import SlatedbCloudflare.Platform.Utf8
import SlatedbCloudflare.Instance.State
import SlatedbCloudflare.Instance.Handlers
import SlatedbCloudflare.DurableObject.Instance
import SlatedbCloudflare.Container.Instance
import SlatedbCloudflare.Instance.OneDatabase
import SlatedbCloudflare.Instance.OneWriter
import SlatedbCloudflare.Instance.OneName
import SlatedbCloudflare.Library.Paging
import SlatedbCloudflare.Library.Segments
import SlatedbCloudflare.Platform.Path
import SlatedbCloudflare.Platform.PathEncoding
import SlatedbCloudflare.Platform.Listing
import SlatedbCloudflare.DurableObject.Listing
import SlatedbCloudflare.Container.Listing
import SlatedbCloudflare.Listing.Recursive
import SlatedbCloudflare.Listing.Level
import SlatedbCloudflare.Listing.RoundTrip
import SlatedbCloudflare.Library.Streams
import SlatedbCloudflare.Listing.Pagination
import SlatedbCloudflare.Container.Addressing
import SlatedbCloudflare.Counters.Failures
import SlatedbCloudflare.DurableObject.Reads
import SlatedbCloudflare.Platform.Ranges
import SlatedbCloudflare.Container.Reads
import SlatedbCloudflare.Reads.Ranges
import SlatedbCloudflare.Platform.Reads
import SlatedbCloudflare.Reads.Conditions
import SlatedbCloudflare.Reads.Verdicts
import SlatedbCloudflare.Container.Routing
import SlatedbCloudflare.DurableObject.Routing
import SlatedbCloudflare.Instance.Routing
import SlatedbCloudflare.Instance.Shapes
import SlatedbCloudflare.Instance.Meters
import SlatedbCloudflare.Counters.Cumulative
import SlatedbCloudflare.Counters.Resets
import SlatedbCloudflare.Databases.Keys
import SlatedbCloudflare.Library.Isolation
import SlatedbCloudflare.Databases.Buckets
import SlatedbCloudflare.Platform.PrefixStore
import SlatedbCloudflare.Databases.RootListing
import SlatedbCloudflare.Databases.Isolation
import SlatedbCloudflare.Counters.CacheLaws
import SlatedbCloudflare.Driver.ResetDetection
import SlatedbCloudflare.Driver.Seeding
import SlatedbCloudflare.Instance.Batches
import SlatedbCloudflare.Driver.SeedingRuns
import SlatedbCloudflare.Container.CacheSize
import SlatedbCloudflare.Container.CacheWalks
import SlatedbCloudflare.Scans.Queries
import SlatedbCloudflare.Scans.Pages
import SlatedbCloudflare.Instance.World
import SlatedbCloudflare.Library.Joins
import SlatedbCloudflare.Instance.Commands
import SlatedbCloudflare.Instance.Ownership
import SlatedbCloudflare.Instance.Joined
import SlatedbCloudflare.Instance.Requests
import SlatedbCloudflare.Instance.Linearizable
import SlatedbCloudflare.Instance.OneStore
import SlatedbCloudflare.Instance.Durability
import SlatedbCloudflare.Instance.Measurements
import SlatedbCloudflare.Instance.StoredKeys
import SlatedbCloudflare.Driver.Balanced
import SlatedbCloudflare.Driver.Seeded
import SlatedbCloudflare.Library.Sharing
import SlatedbCloudflare.Driver.Counted
import SlatedbCloudflare.Adapters.Bridged
import SlatedbCloudflare.Adapters.Direct
import SlatedbCloudflare.Adapters.Stores
