import ChunkSelector.Json.Event
import ChunkSelector.Main
import ChunkSelector.Reading.Reader
import ChunkSelector.Proofs.Expectation
import ChunkSelector.Proofs.RoundTrip
import ChunkSelector.Proofs.Completion
import ChunkSelector.Proofs.Reach
import ChunkSelector.Proofs.Relocation
import ChunkSelector.Proofs.Clauses
import ChunkSelector.Proofs.Pieces
import ChunkSelector.Proofs.Retry
import ChunkSelector.Proofs.Blame
import ChunkSelector.Proofs.Layout
import ChunkSelector.Proofs.Agreement
import ChunkSelector.Proofs.Sections
import ChunkSelector.Proofs.Prompt
import ChunkSelector.Proofs.Filled
import ChunkSelector.Proofs.EmptySection
import ChunkSelector.Proofs.Regrouping
import ChunkSelector.Proofs.Quoted
import ChunkSelector.Proofs.Numeral
import ChunkSelector.Proofs.Boundary
import ChunkSelector.Proofs.Leading
import ChunkSelector.Proofs.History
import ChunkSelector.Proofs.Walk
import ChunkSelector.Proofs.Event
import ChunkSelector.Proofs.CommandLine
