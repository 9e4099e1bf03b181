import DdlGraph.Check.Finding
import DdlGraph.Check.Survey
import DdlGraph.Cli.Arguments
import DdlGraph.Cli.Run
import DdlGraph.Ddl.KeySpec
import DdlGraph.Ddl.Literal
import DdlGraph.Ddl.Script
import DdlGraph.Ddl.TableText
import DdlGraph.Exchange
import DdlGraph.Graph.Basic
import DdlGraph.Graph.EdgeKey
import DdlGraph.Graph.Edit
import DdlGraph.Graph.Identity
import DdlGraph.Graph.Json
import DdlGraph.Graph.Layout
import DdlGraph.Graph.Lookup
import DdlGraph.Json.Basic
import DdlGraph.Json.Decode
import DdlGraph.Json.Reader
import DdlGraph.Main
import DdlGraph.Number.Binary64
import DdlGraph.Number.Decimal
import DdlGraph.Number.Shortest
import DdlGraph.Recovery.Draft
import DdlGraph.Recovery.Outcome
import DdlGraph.Repair.Column
import DdlGraph.Repair.Mask
import DdlGraph.Repair.Normalize
import DdlGraph.Repair.Table
import DdlGraph.Session
import DdlGraph.Settings
import DdlGraph.Sql.Dialect
import DdlGraph.Sql.Statement.Basic
import DdlGraph.Sql.Statement.Column
import DdlGraph.Sql.Statement.Production
import DdlGraph.Sql.Statement.Reader
import DdlGraph.Sql.Token.Basic
import DdlGraph.Sql.Token.Lexer
import DdlGraph.Sql.TypeName
import DdlGraph.Text.Case
import DdlGraph.Text.CodeTable
import DdlGraph.Text.Digest
import DdlGraph.Text.Find
import DdlGraph.Text.Letter
import DdlGraph.Text.Pattern
import DdlGraph.Text.Printable
import DdlGraph.Text.Trim
import DdlGraph.Text.Width
import DdlGraph.Proofs.ChunkedApply
import DdlGraph.Proofs.FreshName
import DdlGraph.Proofs.TableUpdate
import DdlGraph.Proofs.DraftPhases
import DdlGraph.Proofs.TablePhases
import DdlGraph.Proofs.WellFormed
import DdlGraph.Proofs.SilentLoss
import DdlGraph.Proofs.Reread
import DdlGraph.Proofs.Lexing
import DdlGraph.Proofs.DefaultText
import DdlGraph.Proofs.Canonical
import DdlGraph.Proofs.Rebuild
import DdlGraph.Proofs.RoundTrip
import DdlGraph.Proofs.DialectTypes
import DdlGraph.Proofs.InertDefaults
import DdlGraph.Proofs.ListedEnums
import DdlGraph.Proofs.ListedRoundTrip
import DdlGraph.Proofs.PatternText
import DdlGraph.Proofs.PatternWays
import DdlGraph.Proofs.NameWords
import DdlGraph.Proofs.MarkedText
import DdlGraph.Proofs.RepairSteps
import DdlGraph.Proofs.RepairTables
import DdlGraph.Proofs.RepeatedKeys
import DdlGraph.Proofs.SettledText
import DdlGraph.Proofs.StandingText
import DdlGraph.Proofs.QuotingModes
import DdlGraph.Proofs.KeyLayouts
import DdlGraph.Proofs.SettledScript
import DdlGraph.Proofs.LockedSession
import DdlGraph.Proofs.KeptIdentity
import DdlGraph.Proofs.NamedSheet
import DdlGraph.Proofs.NamedLinks
import DdlGraph.Proofs.DistinctIds
import DdlGraph.Proofs.SheetPhases
import DdlGraph.Proofs.NamedEdges
import DdlGraph.Proofs.StatementOrder
import DdlGraph.Proofs.StatedKeys
import DdlGraph.Proofs.KeptKeys
import DdlGraph.Proofs.SemicolonStops
import DdlGraph.Proofs.OpenLists
import DdlGraph.Proofs.StatementEnds
import DdlGraph.Proofs.Successors
import DdlGraph.Proofs.ReadApart
import DdlGraph.Proofs.ThinnedKeys
import DdlGraph.Proofs.ValidScript
import DdlGraph.Proofs.KeptComments
import DdlGraph.Proofs.HandTable
import DdlGraph.Proofs.DetectedDialect
import DdlGraph.Proofs.EncodedGraph
import DdlGraph.Proofs.HandReading
import DdlGraph.Proofs.PriorOrder
import DdlGraph.Proofs.WrittenTokens
import DdlGraph.Proofs.ReconciledEdges
import DdlGraph.Proofs.ShownBlocks
import DdlGraph.Proofs.AddedKeys
import DdlGraph.Proofs.PrimaryKey
import DdlGraph.Proofs.GivenNames
import DdlGraph.Proofs.IndexNames
import DdlGraph.Proofs.SoundWarnings
import DdlGraph.Proofs.SteppedTokens
import DdlGraph.Proofs.CheckedTables
