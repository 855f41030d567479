import Wiring.Command.Args
import Wiring.Command.Run
import Wiring.Command.Style
import Wiring.Config
import Wiring.Digest
import Wiring.Disk.AtomicWrite
import Wiring.Disk.Basic
import Wiring.Disk.Path
import Wiring.Disk.RawPath
import Wiring.Emit.Code
import Wiring.Emit.File
import Wiring.Emit.Injector
import Wiring.Emit.Naming
import Wiring.Extraction
import Wiring.Failure
import Wiring.Fingerprint
import Wiring.Loading.Catalog
import Wiring.Loading.Loader
import Wiring.Loading.Manifest
import Wiring.Loading.Module
import Wiring.Main
import Wiring.Measure
import Wiring.Options
import Wiring.Package
import Wiring.PackageCache
import Wiring.Plan
import Wiring.PlanJson
import Wiring.Problem
import Wiring.Proofs.Caches.Callers
import Wiring.Proofs.Caches.Flights
import Wiring.Proofs.Caches.Hits
import Wiring.Proofs.Caches.Loads
import Wiring.Proofs.Caches.Settled
import Wiring.Proofs.Caches.Traffic
import Wiring.Proofs.Caches.Validity
import Wiring.Proofs.Caches.Visits
import Wiring.Proofs.Caches.Waits
import Wiring.Proofs.Command.Generated
import Wiring.Proofs.Declarations.Extraction
import Wiring.Proofs.Declarations.Literals
import Wiring.Proofs.Declarations.References
import Wiring.Proofs.Disk.Attempts
import Wiring.Proofs.Disk.Batches
import Wiring.Proofs.Disk.Folders
import Wiring.Proofs.Disk.Goals
import Wiring.Proofs.Disk.Paths
import Wiring.Proofs.Disk.RawPaths
import Wiring.Proofs.Disk.Stages
import Wiring.Proofs.Disk.Writes
import Wiring.Proofs.Emit.Identifiers
import Wiring.Proofs.Emit.Keywords
import Wiring.Proofs.Emit.Names
import Wiring.Proofs.Emit.Ownership
import Wiring.Proofs.Emit.Scopes
import Wiring.Proofs.Emit.Statements
import Wiring.Proofs.Emit.Unwinding
import Wiring.Proofs.Fingerprints.Feeds
import Wiring.Proofs.Fingerprints.FromDisk
import Wiring.Proofs.Fingerprints.Order
import Wiring.Proofs.Fingerprints.Streams
import Wiring.Proofs.Loading.Addresses
import Wiring.Proofs.Loading.Catalogues
import Wiring.Proofs.Loading.Contents
import Wiring.Proofs.Loading.Footprints
import Wiring.Proofs.Loading.Shapes
import Wiring.Proofs.Loading.Spellings
import Wiring.Proofs.Loading.Verdicts
import Wiring.Proofs.Loading.Worklist
import Wiring.Proofs.Resolution.Binding
import Wiring.Proofs.Resolution.Circles
import Wiring.Proofs.Resolution.Completeness
import Wiring.Proofs.Resolution.Composition
import Wiring.Proofs.Resolution.Course
import Wiring.Proofs.Resolution.Demand
import Wiring.Proofs.Resolution.Descent
import Wiring.Proofs.Resolution.Diagnosis
import Wiring.Proofs.Resolution.Drawing
import Wiring.Proofs.Resolution.Plans
import Wiring.Proofs.Resolution.Suggestions
import Wiring.Proofs.Results
import Wiring.Proofs.Run.Accounts
import Wiring.Proofs.Run.Agreement
import Wiring.Proofs.Run.Calm
import Wiring.Proofs.Run.Collection
import Wiring.Proofs.Run.Crews
import Wiring.Proofs.Run.CutShort
import Wiring.Proofs.Run.Discovery
import Wiring.Proofs.Run.Endings
import Wiring.Proofs.Run.Errands
import Wiring.Proofs.Run.Explored
import Wiring.Proofs.Run.Foresight
import Wiring.Proofs.Run.FunctionNames
import Wiring.Proofs.Run.Gathering
import Wiring.Proofs.Run.History
import Wiring.Proofs.Run.Interleaving
import Wiring.Proofs.Run.KeptSets
import Wiring.Proofs.Run.Lockstep
import Wiring.Proofs.Run.Lone
import Wiring.Proofs.Run.Lookups
import Wiring.Proofs.Run.Need
import Wiring.Proofs.Run.Neighbours
import Wiring.Proofs.Run.Orders
import Wiring.Proofs.Run.Outset
import Wiring.Proofs.Run.Provenance
import Wiring.Proofs.Run.Reports
import Wiring.Proofs.Run.Requests
import Wiring.Proofs.Run.Schedules
import Wiring.Proofs.Run.Tallies
import Wiring.Proofs.Run.Tasks
import Wiring.Proofs.Run.Treads
import Wiring.Proofs.Run.Unbroken
import Wiring.Proofs.Run.Writing
import Wiring.Proofs.Search
import Wiring.Proofs.Sets.Circles
import Wiring.Proofs.Sets.Flattening
import Wiring.Proofs.Sets.Kept
import Wiring.Proofs.Sets.Precedence
import Wiring.Proofs.Sorting
import Wiring.Proofs.Text.Decoding
import Wiring.Proofs.Text.EditDistance
import Wiring.Proofs.Text.SnakeCase
import Wiring.Proofs.Toml.Keys
import Wiring.Provider
import Wiring.Resolution
import Wiring.Run.Generate
import Wiring.Run.Report
import Wiring.Run.Schedule
import Wiring.Run.Task
import Wiring.SetCache
import Wiring.SetGraph
import Wiring.Table
import Wiring.Text.Blank
import Wiring.Text.EditDistance
import Wiring.Text.Fields
import Wiring.Text.Json
import Wiring.Text.Quoted
import Wiring.Text.SnakeCase
import Wiring.Text.Unseen
import Wiring.Text.Utf8
import Wiring.Toml.Decode
import Wiring.Toml.Document
import Wiring.Toml.Refusal
import Wiring.Toml.Scalar
import Wiring.Toml.Text
import Wiring.Toml.Tree
import Wiring.Toml.Value
import Wiring.Toml.Written
