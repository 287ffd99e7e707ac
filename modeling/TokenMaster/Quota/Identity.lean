import TokenMaster.Domain.Quota

/-!
# TokenMaster.Quota.Identity — scope, epoch and transition identities

`crates/quota/src/identity.rs`.  An identity is the digest of a domain tag and length-prefixed
fields; `sha256` is a parameter.
-/

namespace TokenMaster.Quota

open Domain

def scopeDomain : Bytes := ascii "tokenmaster.quota.scope.v1"
def epochDomain : Bytes := ascii "tokenmaster.quota.epoch.v1"
def transitionDomain : Bytes := ascii "tokenmaster.quota.transition.v1"

abbrev QuotaScopeId := Bytes32
abbrev QuotaEpochId := Bytes32
abbrev QuotaTransitionId := Bytes32

variable (sha256 : Bytes → Bytes32)

def quotaScopeId (scope : QuotaScope) : QuotaScopeId :=
  sha256 (encodeFields ([scopeDomain, scope.providerId.bytes, scope.accountId.bytes] ++
    match scope.workspaceId with
    | none => [[0]]
    | some workspaceId => [[1], workspaceId.bytes]))

/-- The byte string that `quota_epoch_id` hashes. -/
def quotaEpochIdInput (key : QuotaWindowKey) (definitionRevision : ℕ)
    (firstObservationId : QuotaObservationId) : Bytes :=
  encodeFields [epochDomain, (quotaScopeId sha256 key.scope).asBytes, key.windowId.bytes,
    beBytes 8 definitionRevision, firstObservationId.asBytes]

def quotaEpochId (key : QuotaWindowKey) (definitionRevision : ℕ)
    (firstObservationId : QuotaObservationId) : QuotaEpochId :=
  sha256 (quotaEpochIdInput sha256 key definitionRevision firstObservationId)

structure TransitionIdentityInput where
  key : QuotaWindowKey
  definitionRevision : ℕ
  sequence : ℕ
  kindCode : UInt8
  previousEpochId : QuotaEpochId
  currentEpochId : QuotaEpochId
  preObservationId : QuotaObservationId
  postObservationId : QuotaObservationId

def quotaTransitionId (input : TransitionIdentityInput) : QuotaTransitionId :=
  sha256 (encodeFields [transitionDomain, (quotaScopeId sha256 input.key.scope).asBytes,
    input.key.windowId.bytes, beBytes 8 input.definitionRevision, beBytes 8 input.sequence,
    [input.kindCode], input.previousEpochId.asBytes, input.currentEpochId.asBytes,
    input.preObservationId.asBytes, input.postObservationId.asBytes])

variable {sha256}

/-- The hashed string of an epoch determines the epoch's first observation. -/
theorem quotaEpochIdInput_observation {key key' : QuotaWindowKey} {rev rev' : ℕ}
    {obs obs' : QuotaObservationId}
    (h : quotaEpochIdInput sha256 key rev obs = quotaEpochIdInput sha256 key' rev' obs') :
    obs = obs' := by
  have bound : ∀ (key : QuotaWindowKey) (rev : ℕ) (obs : QuotaObservationId),
      ∀ f ∈ [epochDomain, (quotaScopeId sha256 key.scope).asBytes, key.windowId.bytes,
        beBytes 8 rev, obs.asBytes], f.length < 2 ^ 64 := by
    intro key rev obs f hf
    have hw : key.windowId.bytes.length ≤ 128 := key.windowId.length_le
    simp only [List.mem_cons, List.not_mem_nil, or_false] at hf
    obtain rfl | rfl | rfl | rfl | rfl := hf
    · decide
    · rw [Bytes32.length_asBytes]; decide
    · omega
    · rw [length_beBytes]; decide
    · rw [Bytes32.length_asBytes]; decide
  have hfs := encodeFields_inj (bound key rev obs) (bound key' rev' obs') h
  simp only [List.cons.injEq, and_true, true_and] at hfs
  exact Bytes32.asBytes_injective hfs.2.2.2

end TokenMaster.Quota
