import PluginRegistry.Cache.Access
import PluginRegistry.Cache.Error
import PluginRegistry.Cache.Generation
import PluginRegistry.Cache.Header
import PluginRegistry.Cache.Image
import PluginRegistry.Cache.Integrity
import PluginRegistry.Cache.Location
import PluginRegistry.Cache.Manifest
import PluginRegistry.Cache.Publish
import PluginRegistry.Cache.Record
import PluginRegistry.Cache.Section
import PluginRegistry.Cache.Step
import PluginRegistry.Contribution
import PluginRegistry.Declaration
import PluginRegistry.Delivery
import PluginRegistry.Delta
import PluginRegistry.Digest.Basic
import PluginRegistry.Digest.Blake3
import PluginRegistry.Dispatcher
import PluginRegistry.Error
import PluginRegistry.Event
import PluginRegistry.Files.FileSystem
import PluginRegistry.Files.Name
import PluginRegistry.Files.Operation
import PluginRegistry.Files.Path
import PluginRegistry.Fingerprint
import PluginRegistry.Handle
import PluginRegistry.Ingest
import PluginRegistry.Log
import PluginRegistry.Name
import PluginRegistry.Object
import PluginRegistry.Proofs.Balances
import PluginRegistry.Proofs.CachedLinks
import PluginRegistry.Proofs.Captures
import PluginRegistry.Proofs.Changes
import PluginRegistry.Proofs.Commit
import PluginRegistry.Proofs.Contents
import PluginRegistry.Proofs.Crashes
import PluginRegistry.Proofs.Credits
import PluginRegistry.Proofs.Declared
import PluginRegistry.Proofs.Decodings
import PluginRegistry.Proofs.Deliveries
import PluginRegistry.Proofs.DeltaMaps
import PluginRegistry.Proofs.Drafts
import PluginRegistry.Proofs.Events
import PluginRegistry.Proofs.Files
import PluginRegistry.Proofs.Filters
import PluginRegistry.Proofs.Fingerprints
import PluginRegistry.Proofs.Generations
import PluginRegistry.Proofs.Growth
import PluginRegistry.Proofs.Handles
import PluginRegistry.Proofs.Headers
import PluginRegistry.Proofs.Histories
import PluginRegistry.Proofs.Identities
import PluginRegistry.Proofs.Images
import PluginRegistry.Proofs.Index
import PluginRegistry.Proofs.Ingest
import PluginRegistry.Proofs.Integrity
import PluginRegistry.Proofs.Isolation
import PluginRegistry.Proofs.Links
import PluginRegistry.Proofs.Lives
import PluginRegistry.Proofs.LoadOrder
import PluginRegistry.Proofs.Lookups
import PluginRegistry.Proofs.Manifests
import PluginRegistry.Proofs.Marks
import PluginRegistry.Proofs.Merging
import PluginRegistry.Proofs.Namespaces
import PluginRegistry.Proofs.Navigation
import PluginRegistry.Proofs.Notices
import PluginRegistry.Proofs.Numbers
import PluginRegistry.Proofs.Operations
import PluginRegistry.Proofs.Outcomes
import PluginRegistry.Proofs.Ownership
import PluginRegistry.Proofs.Paths
import PluginRegistry.Proofs.Placement
import PluginRegistry.Proofs.Preparations
import PluginRegistry.Proofs.Presents
import PluginRegistry.Proofs.Publications
import PluginRegistry.Proofs.Purge
import PluginRegistry.Proofs.Quotes
import PluginRegistry.Proofs.Readings
import PluginRegistry.Proofs.Rebuilding
import PluginRegistry.Proofs.Records
import PluginRegistry.Proofs.Refusals
import PluginRegistry.Proofs.Relink
import PluginRegistry.Proofs.Reloads
import PluginRegistry.Proofs.Removals
import PluginRegistry.Proofs.Reopenings
import PluginRegistry.Proofs.Results
import PluginRegistry.Proofs.Settings
import PluginRegistry.Proofs.Spans
import PluginRegistry.Proofs.Staging
import PluginRegistry.Proofs.Steps
import PluginRegistry.Proofs.Stops
import PluginRegistry.Proofs.Store
import PluginRegistry.Proofs.Subtrees
import PluginRegistry.Proofs.Sweeps
import PluginRegistry.Proofs.Tampering
import PluginRegistry.Proofs.Tenures
import PluginRegistry.Proofs.Totals
import PluginRegistry.Proofs.Tours
import PluginRegistry.Proofs.Traces
import PluginRegistry.Proofs.Trees
import PluginRegistry.Proofs.Turns
import PluginRegistry.Proofs.Undoing
import PluginRegistry.Proofs.Writes
import PluginRegistry.Registry.Basic
import PluginRegistry.Registry.Lifecycle
import PluginRegistry.Registry.Lookup
import PluginRegistry.Registry.Write
import PluginRegistry.Settings
import PluginRegistry.Snapshot
import PluginRegistry.Store.Basic
import PluginRegistry.Store.Parts
import PluginRegistry.Store.Walk
import PluginRegistry.Strategy
import PluginRegistry.Text.Quoted
import PluginRegistry.Text.Shown
import PluginRegistry.Transaction
import PluginRegistry.Wire.Reader
import PluginRegistry.Wire.Value
