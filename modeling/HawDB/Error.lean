import Mathlib

/-!
# Errors

The errors the modelled functions return, with the data and the messages the source gives them.
-/

namespace HawDB

inductive TransactionRetryReason where
  | snapshotChanged (readEpoch committedEpoch : ℕ)
  | deadlock (waitCycle : List ℕ)
deriving DecidableEq, Repr

structure TransactionRetryError where
  transactionId : ℕ
  reason : TransactionRetryReason
  alreadyAborted : Bool
deriving DecidableEq, Repr

inductive HawDBError where
  | storage (message : String)
  | storageIntegrity (message : String)
  | execution (message : String)
  | transactionConflict (readEpoch committedEpoch : ℕ) (key : String)
  | transactionRetryRequired (error : TransactionRetryError)
  | transactionReadDependencyRefused (reason : String)
deriving DecidableEq, Repr

end HawDB
