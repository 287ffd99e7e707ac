import TokenMaster.State.RetentionRun

/-!
# TokenMaster.State.Resolution — pre-migration backups that are resolved

A pre-migration backup is resolved while a later verified post-migration backup exists, and
`plan_facts` looks for one among the files that are left at each planning round.  Retention protects
no post-migration backup for its purpose, so it can delete the one that resolved an older backup and
then has to keep that backup again.  As long as each deletion finds a second post-migration backup, or
one that it may not delete, resolution lasts.
-/

namespace TokenMaster.State

open List

/-- `post` is a verified post-migration backup later than `pre`. -/
def BackupFile.Resolves (post pre : BackupFile) : Prop :=
  post.health = .verified ∧ post.purpose = some .postMigration ∧
    laterThan post.createdAtUtcMs pre.createdAtUtcMs = true

section Deletion

variable {cycle : RetentionCycle} {catalog : BackupCatalog} {dir next : List BackupFile}
  {candidateHash : Bytes32} {pre : BackupFile}

theorem mem_catalogFacts {fact : RetentionFact} :
    fact ∈ catalogFacts candidateHash catalog ↔ ∃ point ∈ catalog.points,
      retentionFact candidateHash (some point.selection) point.toBackupFile = fact :=
  mem_map

/-- The points of a catalog have different selections. -/
theorem BackupCatalog.nodup_selections (catalog : BackupCatalog) (candidateHash : Bytes32) :
    ((catalogFacts candidateHash catalog).filterMap (·.selection)).Nodup := by
  have hsele : (catalogFacts candidateHash catalog).filterMap (·.selection) =
      catalog.points.map (·.selection) := by
    rw [catalogFacts, filterMap_map, ← filterMap_eq_map]
    rfl
  rw [hsele, nodup_iff_injective_get]
  intro i j hij
  have hget : ∀ k : Fin (catalog.points.map (·.selection)).length,
      (catalog.points.map (·.selection)).get k = ⟨catalog.generation, k⟩ := by
    intro k
    rw [get_eq_getElem, getElem_map]
    exact catalog.ordinals k _ (List.getElem?_eq_getElem _)
  rw [hget, hget] at hij
  exact Fin.ext (congrArg CatalogSelection.ordinal hij)

/-- The backups that a cycle may not delete, whatever their purpose: the candidate, the pinned one and
the two newest. -/
def Held (cycle : RetentionCycle) (catalog : BackupCatalog) (hash : Bytes32) : Prop :=
  hash = cycle.candidateHash ∨ cycle.protectedHash = some hash ∨
    ∃ fact ∈ (verifiedFacts (catalogFacts cycle.candidateHash catalog)).take 2, fact.key = hash

/-- **What a deletion removes**: one file of the directory, which is not held. -/
theorem deleteNext_removes (h : cycle.deleteNext catalog dir = .ok (true, next)) :
    ∃ hash, next = dir.filter (·.observedFileSha256 != hash) ∧ ¬ Held cycle catalog hash := by
  rw [RetentionCycle.deleteNext] at h
  split_ifs at h with hgo
  rw [Bool.or_eq_true, not_or, Bool.not_eq_true', Bool.not_eq_false] at hgo
  rw [RetentionCycle.nextDeletion, if_pos hgo.1] at h
  cases hpl : cycle.plan catalog with
  | error error =>
    rw [hpl] at h
    cases h
  | ok out =>
    rw [hpl] at h
    cases hhd : out.deletions.head? with
    | none =>
      rw [Except.map, hhd] at h
      cases h
    | some sel =>
      rw [Except.map, hhd] at h
      replace h : cycle.deleteSelected catalog dir sel = .ok (true, next) := h
      rw [RetentionCycle.deleteSelected] at h
      split_ifs at h
      cases hpt : catalog.pointAt sel with
      | none =>
        rw [hpt] at h
        cases h
      | some point =>
        rw [hpt] at h
        dsimp only at h
        split_ifs at h
        cases h
        refine ⟨point.observedFileSha256, rfl, ?_⟩
        obtain ⟨hget, hsele⟩ := Option.filter_eq_some_iff.mp hpt
        have hmem : point ∈ catalog.points := mem_of_getElem? hget
        rw [beq_iff_eq] at hsele
        -- the plan gives up no fact that must be kept
        rw [RetentionCycle.plan, planRetention, Option.toList_none, append_nil, planFacts] at hpl
        obtain ⟨slots, hsls, rfl⟩ := Except.map_eq_ok.mp hpl
        have hsafe := planned_safe (planSlots_ok hsls)
        obtain ⟨hver, hkp⟩ := hsafe.never_deleted
          (catalog.nodup_selections cycle.candidateHash) _ (mem_catalogFacts.mpr ⟨point, hmem, rfl⟩)
          sel (congrArg some hsele) (mem_of_mem_head? hhd)
        rintro (hcand | hpinned | ⟨fact, hf, hkey⟩)
        · obtain ⟨i, hi⟩ := mem_iff_getElem?.mp
            (mem_verifiedFacts.mpr ⟨mem_catalogFacts.mpr ⟨point, hmem, rfl⟩, hver⟩)
          exact hkp i hi (.inl (beq_iff_eq.mpr hcand))
        · obtain ⟨i, hi⟩ := mem_iff_getElem?.mp
            (mem_verifiedFacts.mpr ⟨mem_catalogFacts.mpr ⟨point, hmem, rfl⟩, hver⟩)
          exact hkp i hi (.inr (.inl hpinned))
        · obtain ⟨other, hoth, rfl⟩ := mem_catalogFacts.mp
            (mem_verifiedFacts.mp (mem_of_mem_take hf)).1
          obtain rfl : other = point := catalog.hashes.eq_of_key hoth hmem hkey
          obtain ⟨i, hi, hget⟩ := mem_take_iff_getElem.mp hf
          exact hkp i (List.getElem?_eq_some_iff.mpr ⟨by omega, hget⟩)
            (.inr (.inr (.inl (by omega))))

/-- Every resolved pre-migration backup stays resolved when one file that is not held is deleted: it
has two resolving backups, or one that is held. -/
def Backed (cycle : RetentionCycle) (catalog : BackupCatalog) (directory : List BackupFile) : Prop :=
  ∀ pre ∈ directory, pre.health = .verified → pre.purpose = some .preMigration →
    ∀ post ∈ directory, post.Resolves pre →
      Held cycle catalog post.observedFileSha256 ∨ ∃ other ∈ directory, other.Resolves pre ∧
        other.observedFileSha256 ≠ post.observedFileSha256

/-- A deletion that finds the resolved backups backed keeps them resolved. -/
theorem Backed.deleteNext (h : Backed cycle catalog dir)
    (hdel : cycle.deleteNext catalog dir = .ok (true, next)) (hpre : pre ∈ next)
    (hhealth : pre.health = .verified) (hpu : pre.purpose = some .preMigration)
    (hres : ∃ post ∈ dir, post.Resolves pre) : ∃ post ∈ next, post.Resolves pre := by
  obtain ⟨hash, rfl, hhd⟩ := deleteNext_removes hdel
  obtain ⟨post, hpo, hreso⟩ := hres
  have hkp : ∀ file ∈ dir, file.observedFileSha256 ≠ hash →
      file ∈ dir.filter (·.observedFileSha256 != hash) := by
    intro file hf hne
    exact mem_filter.mpr ⟨hf, by simpa using hne⟩
  by_cases hgo : post.observedFileSha256 = hash
  · rcases h pre (mem_of_mem_filter hpre) hhealth hpu post hpo hreso with
      hpoH | ⟨other, hoth, hothR, hne⟩
    · exact absurd (hgo ▸ hpoH) hhd
    · exact ⟨other, hkp other hoth (hgo ▸ hne), hothR⟩
  · exact ⟨post, hkp post hpo hgo, hreso⟩

end Deletion

/-! ### Runs -/

end TokenMaster.State
