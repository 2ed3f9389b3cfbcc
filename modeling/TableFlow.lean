import TableFlow.Columnar.Exchange
import TableFlow.Database.Tables
import TableFlow.Eval.Run
import TableFlow.Formula.Parse
import TableFlow.Json.Cells
import TableFlow.Sql.Compile
import TableFlow.Sql.Config
import TableFlow.Sql.Statement
import TableFlow.Stored.Text
import TableFlow.Proofs.Eval.Agreement
import TableFlow.Proofs.Eval.Endings
import TableFlow.Proofs.Formula.RoundTrip
import TableFlow.Proofs.Logic
import TableFlow.Proofs.Nodes
import TableFlow.Proofs.Sql.Aliases
import TableFlow.Proofs.Sql.Faithful
import TableFlow.Proofs.Sql.Quoting
import TableFlow.Proofs.Sql.Requests
import TableFlow.Proofs.Stored.RoundTrip
import TableFlow.Proofs.Value.SortOrder
import TableFlow.Proofs.Formula.Standing
import TableFlow.Proofs.Identity
import TableFlow.Proofs.Table.Calls
import TableFlow.Proofs.Database.Loading
import TableFlow.Proofs.Table.Runs
import TableFlow.Proofs.Eval.NestedLoop
import TableFlow.Proofs.Eval.Ranks
import TableFlow.Proofs.Formula.Precedence
import TableFlow.Proofs.Eval.Ordering
import TableFlow.Proofs.Eval.Comparison
import TableFlow.Proofs.Table.Rearranged
import TableFlow.Proofs.Eval.Extremes
import TableFlow.Proofs.Eval.Sums
import TableFlow.Proofs.Formula.Names
import TableFlow.Proofs.Eval.Renaming
import TableFlow.Proofs.Eval.Splitting
import TableFlow.Proofs.Eval.Filters
import TableFlow.Proofs.Leaves
import TableFlow.Proofs.Additivity
import TableFlow.Proofs.ColumnTypes
import TableFlow.Proofs.Columnar.RoundTrip
import TableFlow.Proofs.Database.Creation
import TableFlow.Proofs.Sql.Configured
import TableFlow.Proofs.Formula.Offsets
