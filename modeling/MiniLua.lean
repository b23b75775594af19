import MiniLua.Main
import MiniLua.Export
import MiniLua.Proofs.Table.Refinement
import MiniLua.Proofs.Reading.Agreement
import MiniLua.Proofs.Scoping.Static
import MiniLua.Proofs.Token.Containment
import MiniLua.Proofs.Rendering.Roundtrip
import MiniLua.Proofs.Twins.Respacing
import MiniLua.Proofs.Twins.Printing
import MiniLua.Proofs.Running.Endings
import MiniLua.Proofs.Limits.Extension
import MiniLua.Proofs.Limits.Programs
import MiniLua.Proofs.Limits.Depth
import MiniLua.Proofs.Table.Listing
import MiniLua.Proofs.Table.Iteration
import MiniLua.Proofs.Journal.Invariants
import MiniLua.Proofs.Journal.Recording
import MiniLua.Proofs.Journal.Programs
import MiniLua.Proofs.Journal.Accounting
import MiniLua.Proofs.Journal.Sessions
import MiniLua.Proofs.Table.Length
import MiniLua.Proofs.Table.Order
import MiniLua.Proofs.Number.Finite
import MiniLua.Proofs.Number.Written
import MiniLua.Proofs.Rendering.Words
import MiniLua.Proofs.Running.Faults
import MiniLua.Proofs.Locating.Following
import MiniLua.Proofs.Locating.Lines
import MiniLua.Proofs.Locating.Programs
import MiniLua.Proofs.Locating.Sessions
import MiniLua.Proofs.Scoping.Sharing
import MiniLua.Proofs.Assigning.Phases
import MiniLua.Proofs.Control.Enclosed
import MiniLua.Proofs.Regimes.Basic
import MiniLua.Proofs.Regimes.Steps
import MiniLua.Proofs.Regimes.Programs
import MiniLua.Proofs.Regimes.Sessions
import MiniLua.Proofs.Regimes.Intact
import MiniLua.Proofs.Assigning.Parallel
import MiniLua.Proofs.Control.Moments
import MiniLua.Proofs.Control.Halting
import MiniLua.Proofs.Control.Signals
import MiniLua.Proofs.Control.Breaks
import MiniLua.Proofs.Number.Whole
import MiniLua.Proofs.Table.Constructors
import MiniLua.Proofs.Control.Counting
import MiniLua.Proofs.Token.Tiles
import MiniLua.Proofs.Twins.Uncommenting
import MiniLua.Proofs.Token.Strings
import MiniLua.Proofs.Token.Brackets
import MiniLua.Proofs.Number.Coercion
import MiniLua.Proofs.Export.Sharing
import MiniLua.Proofs.Export.Keys
import MiniLua.Proofs.Number.Remainder
import MiniLua.Proofs.Number.Plain
import MiniLua.Proofs.Placing.Programs
import MiniLua.Proofs.Table.Migration
import MiniLua.Proofs.Diagnostic.Caret
import MiniLua.Proofs.Listing.Programs
