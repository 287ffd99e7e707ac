import Mathlib.Algebra.Order.Ring.Nat
import Mathlib.Data.Nat.Basic

/-!
# TokenMaster.Store.Error — the errors of the usage store

`StoreError` is a code with an optional limit.  `i64Max` bounds every integer column.
-/

namespace TokenMaster.Store

/-- The error codes that the modelled store operations return. -/
inductive StoreErrorCode where
  | database
  | invalidValue
  | capacityExceeded
  | invalidStoredValue
  | staleCheckpoint
  | rebuildRequired
  | staleRevision
  | accountingVersionMismatch
  | incompleteManifest
  | unsealedRevision
  | pendingContinuation
  | archiveModeMismatch
  deriving DecidableEq

structure StoreError where
  code : StoreErrorCode
  limit : Option ℕ
  deriving DecidableEq

namespace StoreError

def new (code : StoreErrorCode) : StoreError := ⟨code, none⟩

def withLimit (code : StoreErrorCode) (limit : ℕ) : StoreError := ⟨code, some limit⟩

end StoreError

/-- `i64::MAX`. -/
def i64Max : ℕ := 2 ^ 63 - 1

/-- `i64::try_from(value)` with the given error code. -/
def checkI64 (code : StoreErrorCode) (value : ℕ) : Except StoreError Unit :=
  if value ≤ i64Max then .ok () else .error (.new code)

/-- A condition that a statement or a check needs. -/
def ensure (code : StoreErrorCode) (holds : Bool) : Except StoreError Unit :=
  if holds then .ok () else .error (.new code)

@[simp] theorem ensure_eq_ok {code : StoreErrorCode} {holds : Bool} {u : Unit} :
    ensure code holds = .ok u ↔ holds = true := by
  cases holds <;> simp [ensure]

/-- Every present value fits an `INTEGER` column. -/
def optionFitsI64 : Option ℕ → Bool
  | none => true
  | some value => value ≤ i64Max

end TokenMaster.Store
