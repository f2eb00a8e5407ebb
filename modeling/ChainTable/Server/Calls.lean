-- SUMMARY: The calls through which a server thread acts on the shared state of the server.
import ChainTable.Base.Prog
import ChainTable.Store.Table
import ChainTable.Wire.Message

open Base

/-!
# Calls of a server thread

A thread works on local data by itself and reaches everything shared by calls: the
two locks, the statistics, the clock, the table, the place of the server in the
chain and the connection to its successor. A program over these calls leaves open
what else happens between two of them.
-/

namespace ChainTable

/-- The two readers-writer locks of `server_resources`. -/
inductive LockName where
  | table
  | stats
  deriving DecidableEq

/-- The fields of `struct statistics_t`. -/
inductive StatField where
  | nClientes
  | nOperacoes
  | totalTime
  deriving DecidableEq

/-- `struct timeval` -/
structure Timeval where
  tvSec : Int
  tvUsec : Int

/-- The calls. The last one stands for undefined behaviour in the thread itself,
    and never returns. -/
inductive ServerCall where
  | enterRead (lock : LockName)
  | exitRead (lock : LockName)
  | enterWrite (lock : LockName)
  | exitWrite (lock : LockName)
  | hasGlobalStats
  | loadStat (field : StatField)
  | storeStat (field : StatField) (value : Int)
  | gettimeofday
  | tablePut (key : CString) (value : Data)
  | tableGet (key : CString)
  | tableRemove (key : CString)
  | tableSize
  | tableGetKeys
  | tableGetEntries
  | nextServerNodePath
  | nextServerRtable
  | messageSendAll (rtable : Rtable) (msg : MessageT)
  | messageReceiveAll (rtable : Rtable)
  | networkClose (rtable : Rtable)
  | fault (f : Fault)

/-- The results of the calls. `messageReceiveAll` also says whether the peer is
    gone. -/
abbrev ServerCall.Res : ServerCall → Type
  | .hasGlobalStats => Bool
  | .loadStat _ => Int
  | .gettimeofday => Timeval
  | .tablePut _ _ => Int
  | .tableGet _ => Option Data
  | .tableRemove _ => Int
  | .tableSize => Int
  | .tableGetKeys => List (Option CString)
  | .tableGetEntries => List (Option Entry)
  | .nextServerNodePath => CString
  | .nextServerRtable => Option Rtable
  | .messageSendAll _ _ => Int
  | .messageReceiveAll _ => Option MessageT × Bool
  | .fault _ => Empty
  | _ => Unit

abbrev Calls : Sig := ⟨ServerCall, ServerCall.Res⟩

namespace Calls

/-- The program that makes one call. -/
def call (op : ServerCall) : Prog Calls op.Res := .perform (S := Calls) op

/-- A computation on local memory inside a program. -/
def memory {α : Type} : C α → Prog Calls α
  | .ok a => .ret a
  | .error f => .call (S := Calls) (.fault f) Empty.elim

@[simp] theorem memory_ok {α : Type} (a : α) : memory (.ok a) = .ret a := rfl

@[simp] theorem call_bind {α : Type} (op : ServerCall) (k : op.Res → Prog Calls α) :
    (call op >>= k) = .call (S := Calls) op k := rfl

end Calls

end ChainTable
