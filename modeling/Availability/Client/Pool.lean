/-!
# Closing clients together

Clients are closed one by one, or all of them by a closer that holds them.

* `ClientPool` – which clients are closed, and which ones the closer holds **until it is closed**;
* `ClientPool.register` – a client that comes too late is closed at once;
* `ClientPool.closeAll` – closes the closer, and with it all clients that it holds.
-/

namespace Availability

/-- The number of a client, in the order in which clients are made. -/
abbrev ClientId := Nat

/-- Some clients and their closer. -/
structure ClientPool where
  /-- The clients that the closer holds, in the order in which they came. After it is closed, it
  holds none. -/
  held : Option (List ClientId)
  /-- The clients that are closed. -/
  closed : List ClientId
deriving DecidableEq

namespace ClientPool

/-- The closer holds no clients yet. -/
def empty : ClientPool :=
  { held := some [], closed := [] }

/-- Whether the closer is closed. -/
def isClosed (pool : ClientPool) : Bool :=
  pool.held.isNone

/-- Whether a client is closed. -/
def isClientClosed (pool : ClientPool) (client : ClientId) : Bool :=
  pool.closed.contains client

/-- Closes one client. -/
def close (pool : ClientPool) (client : ClientId) : ClientPool :=
  { pool with closed := pool.closed ++ [client] }

/-- Hands a client to the closer. -/
def register (pool : ClientPool) (client : ClientId) : ClientPool :=
  match pool.held with
  | some clients => { pool with held := some (clients ++ [client]) }
  | none => pool.close client

/-- Closes the closer. -/
def closeAll (pool : ClientPool) : ClientPool :=
  match pool.held with
  | some clients => { held := none, closed := pool.closed ++ clients }
  | none => pool

/-- What clients and their closer are asked to do. -/
inductive Action where
  /-- The closer takes a client. -/
  | register (client : ClientId)
  /-- The closer is closed. -/
  | closeAll
  /-- One client is closed. -/
  | close (client : ClientId)
deriving DecidableEq

/-- The pool after an action. -/
def act (pool : ClientPool) : Action → ClientPool
  | .register client => pool.register client
  | .closeAll => pool.closeAll
  | .close client => pool.close client

/-- The description of the closer. -/
def describe (pool : ClientPool) : String :=
  "MultiClientCloser \x7b closed: " ++ toString pool.isClosed ++ " \x7d"

end ClientPool

end Availability
