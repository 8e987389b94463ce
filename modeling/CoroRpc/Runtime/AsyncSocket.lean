import CoroRpc.Lib.BigEndian

/-!
# Waits and system calls of a socket

What a wait ends with (`rpc_src/runtime/io_manager.h`), what `::read` and `::write` return to an
`AsyncSocket` (`rpc_src/runtime/async_socket.cpp`), and how much a writer puts into one batch. The
connections of the client and of the server share them.
-/

namespace CoroRpc.Runtime

open Lib

def kNoTimeout : Nat := 2 ^ 64 - 1

inductive WaitResult where
  | ioReady
  | timeout
  | cancelled
  | error
  deriving DecidableEq

inductive ReadResult where
  | data (bytes : Bytes)
  | eof
  | error
  | wouldBlock
  | interrupted
  deriving DecidableEq

inductive WriteResult where
  | accepted (n : Nat)
  | zero
  | error
  | wouldBlock
  | interrupted
  deriving DecidableEq

/-- The same constant in `multiplexed_connection.cpp` and in `rpc_server.cpp`. -/
def kWriteBatchBytes : Nat := 64 * 1024

end CoroRpc.Runtime
