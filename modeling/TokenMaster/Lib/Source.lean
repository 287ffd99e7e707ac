import Mathlib.Tactic.SplitIfs
import TokenMaster.Lib.Bytes
import TokenMaster.Lib.Except

/-!
# TokenMaster.Lib.Source — byte streams that are read in pieces

A read asks for a number of bytes and gets some of them: the source decides how many, and it may
fail.  A read of nothing means that the stream is at its end.
-/

namespace TokenMaster

/-- What is left of a stream; the `i`-th read fails or returns at most `outcome i + 1` bytes. -/
structure Source (ε : Type) where
  rest : Bytes
  outcome : ℕ → Except ε ℕ
  reads : ℕ

namespace Source

variable {ε : Type}

def read (source : Source ε) (request : ℕ) : Except ε (Bytes × Source ε) :=
  (source.outcome source.reads).map fun limit =>
    (source.rest.take (min (limit + 1) request),
      { source with
        rest := source.rest.drop (min (limit + 1) request)
        reads := source.reads + 1 })

/-- A source that does not fail. -/
def split (bytes : Bytes) (splits : ℕ → ℕ) : Source ε := ⟨bytes, fun i => .ok (splits i), 0⟩

/-- A source that returns whatever is asked for. -/
def whole (bytes : Bytes) : Source ε := split bytes fun _ => bytes.length

theorem read_of_outcome {src : Source ε} {limit : ℕ}
    (h : src.outcome src.reads = .ok limit) (request : ℕ) :
    src.read request = .ok (src.rest.take (min (limit + 1) request),
      ⟨src.rest.drop (min (limit + 1) request), src.outcome, src.reads + 1⟩) := by
  rw [read, h]
  rfl

/-- Where the reads of such a source end, when the `i`-th of them asks for `request` bytes at the
offset where it starts. -/
def readEnd (splits : ℕ → ℕ) (request : ℕ → ℕ) (total : ℕ) : ℕ → ℕ
  | 0 => 0
  | i + 1 =>
    readEnd splits request total i +
      min (min (splits i + 1) (request (readEnd splits request total i)))
        (total - readEnd splits request total i)

theorem readEnd_le {splits request : ℕ → ℕ} {total : ℕ} (i : ℕ) :
    readEnd splits request total i ≤ total := by
  induction i with
  | zero => exact Nat.zero_le _
  | succ i ih =>
    rw [readEnd]
    omega

theorem readEnd_mono {splits request : ℕ → ℕ} {total i j : ℕ} (h : i ≤ j) :
    readEnd splits request total i ≤ readEnd splits request total j := by
  induction j, h using Nat.le_induction with
  | base => exact le_refl _
  | succ j _ ih =>
    rw [readEnd]
    omega

end Source

end TokenMaster
