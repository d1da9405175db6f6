import GraphTables.Json.QueryForm
import GraphTables.Workspace
import GraphTables.Proofs.Batch.Isolation
import GraphTables.Proofs.Batch.WholeElements
import GraphTables.Proofs.Cql.Conjunction
import GraphTables.Proofs.Cql.Rendering
import GraphTables.Proofs.Graph.Simulation
import GraphTables.Proofs.Json.Serialization
import GraphTables.Proofs.Layout.Assignments
import GraphTables.Proofs.Layout.Folding
import GraphTables.Proofs.Layout.Reordering
import GraphTables.Proofs.OneRow.Simulation
import GraphTables.Proofs.Query.Identifiers
import GraphTables.Proofs.Query.Limits
import GraphTables.Proofs.Query.Planning
import GraphTables.Proofs.Query.Translation
import GraphTables.Proofs.Schema.Keywords
import GraphTables.Proofs.Schema.Lifecycle
import GraphTables.Proofs.Schema.Spelling
import GraphTables.Proofs.Store.LastWrite
import GraphTables.Proofs.Store.Ordering
import GraphTables.Proofs.Store.Replay
import GraphTables.Proofs.Store.TypedCells
