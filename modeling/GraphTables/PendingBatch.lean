import GraphTables.GraphError
import GraphTables.Store.Session

namespace GraphTables

/-- The statements waiting for a commit, and the table that they are for. -/
structure PendingBatch where
  table : String
  statements : List Statement := []

namespace PendingBatch

/-- Put statements at the end. -/
def append (b : PendingBatch) (statements : List Statement) : PendingBatch :=
  { b with statements := b.statements ++ statements }

/-- Forget the statements. -/
def discard (b : PendingBatch) : PendingBatch := { b with statements := [] }

/-- There are statements waiting. -/
def hasChanged (b : PendingBatch) : Bool := !b.statements.isEmpty

/-- Hand the statements to a session as one unit. If it accepts them the batch is empty afterwards, and if not
nothing changes. A batch without statements only needs the session to be open. -/
def commit (b : PendingBatch) (session : Session) : Except GraphError (PendingBatch × Session) :=
  if session.closed then .error (.commitWhenClosed b.statements.length b.table)
  else if b.statements.isEmpty then .ok (b, session)
  else
    match session.execute (.batch b.statements) with
    | .ok (session', _) => .ok (b.discard, session')
    | .error e => .error (.commitFailed (b.statements.map Statement.render) e)

end PendingBatch

end GraphTables
