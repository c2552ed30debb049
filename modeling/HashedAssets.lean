import HashedAssets.Directive.Printer
import HashedAssets.Graph.Roster.Order
import HashedAssets.Graph.Roster.Search
import HashedAssets.Main
import HashedAssets.Proofs.Catalog.Expansion
import HashedAssets.Proofs.CommandLine.Confined
import HashedAssets.Proofs.Directive.Grammar
import HashedAssets.Proofs.Directive.Printed
import HashedAssets.Proofs.Graph.Agree
import HashedAssets.Proofs.Graph.Built
import HashedAssets.Proofs.Graph.Collected
import HashedAssets.Proofs.Graph.Cycles
import HashedAssets.Proofs.Preimage
import HashedAssets.Proofs.Resolution.Isolation
import HashedAssets.Proofs.Resolution.Lookups
import HashedAssets.Proofs.Resolution.Unique
import HashedAssets.Proofs.Resolver.Bracketed
import HashedAssets.Proofs.Resolver.Cleared
import HashedAssets.Proofs.Resolver.Invalidated
import HashedAssets.Proofs.Resolver.Once
import HashedAssets.Proofs.Resolver.Purged
import HashedAssets.Proofs.Resolver.Published
import HashedAssets.Proofs.Resolver.Session
import HashedAssets.Proofs.Resolver.Watched
import HashedAssets.Proofs.Settings.Complaints
import HashedAssets.Proofs.SingleFlight.Protocol
import HashedAssets.Service.Draft
import HashedAssets.SingleFlight.Callers
