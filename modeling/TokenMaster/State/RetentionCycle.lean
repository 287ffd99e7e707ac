import TokenMaster.Lib.Keyed
import TokenMaster.State.Retention

/-!
# TokenMaster.State.RetentionCycle — deleting backups one at a time

`RetentionCycle` of `crates/state/src/retention.rs` over the catalogs of `catalog.rs`.  After each
deletion the catalog is rebuilt from the directory, and the plan is computed anew on what is left.
The generation and the ordinals of the new catalog differ from those of the old one; the plan does
not read them (`planSlots_map`).
-/

namespace TokenMaster.State

open RetentionSlot List

/-! ### Catalogs -/

inductive CatalogHealth where
  | corrupt
  | headerValid
  | verified
  deriving DecidableEq

/-- What the catalog records of a file in the backup directory. -/
structure BackupFile where
  observedFileSha256 : Bytes32
  createdAtUtcMs : Option ℤ
  purpose : Option BackupPurpose
  sizeBytes : ℕ
  health : CatalogHealth
  size_lt : sizeBytes < 2 ^ 64
  deriving DecidableEq

structure CatalogPoint extends BackupFile where
  selection : CatalogSelection

def maxBackupDirectoryFiles : ℕ := 256

/-- `rebuild` refuses a repeated hash and numbers the points. -/
structure BackupCatalog where
  generation : ℕ
  points : List CatalogPoint
  length_le : points.length ≤ maxBackupDirectoryFiles
  hashes : Keyed (fun point => point.observedFileSha256) points
  ordinals : ∀ (i : ℕ) (point : CatalogPoint), points[i]? = some point →
    point.selection = ⟨generation, i⟩

/-- Newest first; files of one time stay in the order of the directory. -/
def sortFiles (directory : List BackupFile) : List BackupFile :=
  directory.insertionSort fun left right =>
    right.createdAtUtcMs.getD (-2 ^ 63) ≤ left.createdAtUtcMs.getD (-2 ^ 63)

def numberPoints (generation : ℕ) (files : List BackupFile) : List CatalogPoint :=
  files.mapIdx fun ordinal file => ⟨file, generation, ordinal⟩

theorem numberPoints_files (gen : ℕ) (files : List BackupFile) :
    (numberPoints gen files).map (·.toBackupFile) = files := by
  refine ext_getElem? fun i => ?_
  rw [numberPoints, List.getElem?_map, List.getElem?_mapIdx]
  cases files[i]? <;> rfl

theorem numberPoints_ordinals {gen i : ℕ} {files : List BackupFile} {point : CatalogPoint}
    (h : (numberPoints gen files)[i]? = some point) : point.selection = ⟨gen, i⟩ := by
  rw [numberPoints, List.getElem?_mapIdx] at h
  obtain ⟨file, _, rfl⟩ := Option.map_eq_some_iff.mp h
  rfl

/-- `BackupCatalog::rebuild`; whether a file is verified is part of what the directory is here. -/
def BackupCatalog.rebuild (generation : ℕ) (directory : List BackupFile) :
    Except StateErrorCode BackupCatalog :=
  if h : (directory.map (·.observedFileSha256)).Nodup then
    if hlength : directory.length ≤ maxBackupDirectoryFiles then
      .ok
        { generation := generation
          points := numberPoints generation (sortFiles directory)
          length_le := by
            rw [numberPoints, List.length_mapIdx, sortFiles, List.length_insertionSort]
            exact hlength
          hashes := by
            have hsorted : ((sortFiles directory).map (·.observedFileSha256)).Nodup :=
              ((List.perm_insertionSort _ directory).map _).nodup_iff.mpr h
            rw [← numberPoints_files generation (sortFiles directory), List.map_map] at hsorted
            exact hsorted
          ordinals := fun _ _ => numberPoints_ordinals }
    else .error .capacityExceeded
  else .error .integrity

/-- The catalog was built from these files, in whatever order. -/
def BackupCatalog.Of (catalog : BackupCatalog) (directory : List BackupFile) : Prop :=
  (catalog.points.map (·.toBackupFile)).Perm directory

/-- `points.get(ordinal).filter(|point| point.selection == selection)`. -/
def BackupCatalog.pointAt (catalog : BackupCatalog) (selection : CatalogSelection) :
    Option CatalogPoint :=
  catalog.points[selection.ordinal]?.filter fun point => point.selection == selection

/-- `matches_directory`: the directory is the one that the catalog was built from. -/
def BackupCatalog.matchesDirectory (catalog : BackupCatalog) (directory : List BackupFile) : Bool :=
  (catalog.points.map (·.toBackupFile)).isPerm directory

/-- `revalidate_point`: the file is still there, with the same bytes and header. -/
def revalidatePoint (directory : List BackupFile) (point : CatalogPoint) : Bool :=
  directory.any fun file => file.observedFileSha256 == point.observedFileSha256 &&
    file.createdAtUtcMs == point.createdAtUtcMs && file.purpose == point.purpose

def BackupCatalog.revalidateAllVerified (catalog : BackupCatalog) (directory : List BackupFile) :
    Bool :=
  (catalog.points.filter fun point => point.health == .verified).all (revalidatePoint directory)

/-! ### The cycle -/

def retentionFact (candidateHash : Bytes32) (selection : Option CatalogSelection)
    (file : BackupFile) : RetentionFact where
  key := file.observedFileSha256
  createdAtUtcMs := file.createdAtUtcMs
  purpose := file.purpose
  sizeBytes := file.sizeBytes
  verified := file.health == .verified
  candidate := file.observedFileSha256 == candidateHash
  selection := selection
  size_lt := file.size_lt

def catalogFacts (candidateHash : Bytes32) (catalog : BackupCatalog) : List RetentionFact :=
  catalog.points.map fun point =>
    retentionFact candidateHash (some point.selection) point.toBackupFile

def planRetention (catalog : BackupCatalog) (candidate : Option RetentionFact)
    (candidateHash : Bytes32) (protectedHash : Option Bytes32) (policy : RetentionPolicy) :
    Except StateErrorCode RetentionOutcome :=
  planFacts (catalogFacts candidateHash catalog ++ candidate.toList) protectedHash policy

structure RetentionCycle where
  candidateHash : Bytes32
  protectedHash : Option Bytes32
  policy : RetentionPolicy

namespace RetentionCycle

variable (cycle : RetentionCycle)

/-- The published candidate is in the catalog and verified. -/
def candidateVerified (catalog : BackupCatalog) : Bool :=
  match catalog.points.find? fun point => point.observedFileSha256 == cycle.candidateHash with
  | some candidate => candidate.health == .verified
  | none => false

def plan (catalog : BackupCatalog) : Except StateErrorCode RetentionOutcome :=
  planRetention catalog none cycle.candidateHash cycle.protectedHash cycle.policy

def nextDeletion (catalog : BackupCatalog) : Except StateErrorCode (Option CatalogSelection) :=
  if cycle.candidateVerified catalog then (cycle.plan catalog).map (·.deletions.head?)
  else .error .recoveryRequired

/-- The deletion of one selected point. -/
def deleteSelected (catalog : BackupCatalog) (directory : List BackupFile)
    (selection : CatalogSelection) : Except StateErrorCode (Bool × List BackupFile) :=
  if !catalog.matchesDirectory directory then .error .recoveryRequired
  else match catalog.pointAt selection with
    | none => .error .recoveryRequired
    | some point =>
      if point.health != .verified || point.observedFileSha256 == cycle.candidateHash ||
          !revalidatePoint directory point then .error .recoveryRequired
      else .ok (true, directory.filter fun file =>
        file.observedFileSha256 != point.observedFileSha256)

/-- `delete_next`: deletes at most one file, and says whether it did. -/
def deleteNext (catalog : BackupCatalog) (directory : List BackupFile) :
    Except StateErrorCode (Bool × List BackupFile) :=
  if !cycle.candidateVerified catalog || !catalog.revalidateAllVerified directory then
    .error .recoveryRequired
  else match cycle.nextDeletion catalog with
    | .error error => .error error
    | .ok none => .ok (false, directory)
    | .ok (some selection) => cycle.deleteSelected catalog directory selection

end RetentionCycle

/-! ### Plans do not read selections -/

/-- A change of the selection only. -/
structure SelectionOnly (f : RetentionFact → RetentionFact) : Prop where
  key : ∀ fact, (f fact).key = fact.key
  createdAtUtcMs : ∀ fact, (f fact).createdAtUtcMs = fact.createdAtUtcMs
  purpose : ∀ fact, (f fact).purpose = fact.purpose
  sizeBytes : ∀ fact, (f fact).sizeBytes = fact.sizeBytes
  verified : ∀ fact, (f fact).verified = fact.verified
  candidate : ∀ fact, (f fact).candidate = fact.candidate

def RetentionSlot.mapFact (f : RetentionFact → RetentionFact) (slot : RetentionSlot) : RetentionSlot :=
  { slot with fact := f slot.fact }

section Blind

variable {f : RetentionFact → RetentionFact} (hf : SelectionOnly f)
include hf

theorem sortFacts_map (facts : List RetentionFact) :
    sortFacts (facts.map f) = (sortFacts facts).map f := by
  refine (map_insertionSort _ _ f facts ?_).symm
  intro a _ b _
  rw [RetentionFact.Before, RetentionFact.Before, RetentionFact.sortTime, RetentionFact.sortTime,
    RetentionFact.sortTime, RetentionFact.sortTime, hf.createdAtUtcMs, hf.createdAtUtcMs, hf.key,
    hf.key]

theorem filter_verified_map (p : Bool → Bool) (facts : List RetentionFact) :
    (facts.map f).filter (fun fact => p fact.verified) =
      (facts.filter fun fact => p fact.verified).map f := by
  rw [filter_map]
  congr 1
  refine filter_congr fun fact _ => ?_
  rw [Function.comp_apply, hf.verified]

theorem verifiedFacts_map (facts : List RetentionFact) :
    verifiedFacts (facts.map f) = (verifiedFacts facts).map f := by
  rw [verifiedFacts, sortFacts_map hf]
  exact filter_verified_map hf id _

theorem sizes_map (facts : List RetentionFact) : sizes (facts.map f) = sizes facts := by
  rw [sizes, sizes, map_map]
  exact map_congr_left fun fact _ => hf.sizeBytes fact

theorem otherBytes_map (facts : List RetentionFact) :
    otherBytes (facts.map f) = otherBytes facts := by
  rw [otherBytes, otherBytes, unverifiedFacts, unverifiedFacts, sortFacts_map hf,
    filter_verified_map hf (!·), sizes_map hf]

theorem isUnresolved_map (ver : List RetentionFact) (fact : RetentionFact) :
    isUnresolved (ver.map f) (f fact) = isUnresolved ver fact := by
  have hpo : (fun post : RetentionFact => post.purpose == some BackupPurpose.postMigration &&
      laterThan post.createdAtUtcMs (f fact).createdAtUtcMs) ∘ f =
        fun post => post.purpose == some .postMigration &&
          laterThan post.createdAtUtcMs fact.createdAtUtcMs := by
    funext post
    simp only [Function.comp_apply, hf.purpose, hf.createdAtUtcMs]
  rw [isUnresolved, isUnresolved, hf.purpose, any_map, hpo]

theorem protectMarked_map (ph : Option Bytes32) (ver : List RetentionFact) :
    protectMarked ph (ver.map f) = (protectMarked ph ver).map (mapFact f) := by
  rw [protectMarked, protectMarked, map_map, map_map]
  refine map_congr_left fun fact _ => ?_
  simp only [Function.comp_apply, mapFact, hf.candidate, hf.key]

omit hf in
theorem protectNewest_map (count : ℕ) (slots : List RetentionSlot) :
    protectNewest count (slots.map (mapFact f)) = (protectNewest count slots).map (mapFact f) := by
  induction slots generalizing count with
  | nil => cases count <;> rfl
  | cons slot slots ih =>
    cases count with
    | zero => rfl
    | succ count =>
      rw [map_cons, protectNewest, protectNewest, map_cons, ih]
      rfl

omit hf in
theorem protectFirst_map {condition condition' : RetentionFact → Bool}
    (h : ∀ fact, condition' (f fact) = condition fact) (slots : List RetentionSlot) :
    protectFirst condition' (slots.map (mapFact f)) =
      (protectFirst condition slots).map (mapFact f) := by
  induction slots with
  | nil => rfl
  | cons slot slots ih =>
    have hsl : condition' (slot.mapFact f).fact = condition slot.fact := h slot.fact
    rw [map_cons, protectFirst, protectFirst, hsl]
    split_ifs
    · rfl
    · rw [map_cons, ih]

theorem protectSlots_map (ph : Option Bytes32) (ver : List RetentionFact) :
    protectSlots ph (ver.map f) = (protectSlots ph ver).map (mapFact f) := by
  rw [protectSlots, protectSlots, protectMarked_map hf, protectNewest_map,
    protectFirst_map (isUnresolved_map hf ver)]

omit hf in
theorem keepProtected_map (slots : List RetentionSlot) :
    keepProtected (slots.map (mapFact f)) = (keepProtected slots).map (mapFact f) := by
  rw [keepProtected, keepProtected, map_map, map_map]
  rfl

omit hf in
theorem retainedVerifiedCount_map (slots : List RetentionSlot) :
    retainedVerifiedCount (slots.map (mapFact f)) = retainedVerifiedCount slots := by
  rw [retainedVerifiedCount, countP_map]
  rfl

omit hf in
theorem keepNewest_map (pts count : ℕ) (slots : List RetentionSlot) :
    keepNewest pts count (slots.map (mapFact f)) =
      (keepNewest pts count slots).map (mapFact f) := by
  induction slots generalizing pts count with
  | nil => cases pts <;> rfl
  | cons slot slots ih =>
    cases pts with
    | zero => rfl
    | succ pts =>
      rw [map_cons, keepNewest, keepNewest]
      by_cases hct : count < maxRetainedVerifiedPoints
      · rw [if_pos hct, if_pos hct, map_cons, ih]
        rfl
      · rw [if_neg hct, if_neg hct, map_cons, ih]

theorem representedBuckets_map (bucket : ℤ → ℤ) (slots : List RetentionSlot) :
    representedBuckets bucket (slots.map (mapFact f)) = representedBuckets bucket slots := by
  rw [representedBuckets, representedBuckets, filter_map, filterMap_map]
  refine filterMap_congr fun slot _ => ?_
  show (f slot.fact).createdAtUtcMs.map bucket = slot.fact.createdAtUtcMs.map bucket
  rw [hf.createdAtUtcMs]

theorem keepBuckets_map (bucket : ℤ → ℤ) (pts count : ℕ) (rep : List ℤ)
    (slots : List RetentionSlot) :
    keepBuckets bucket pts count rep (slots.map (mapFact f)) =
      (keepBuckets bucket pts count rep slots).map (mapFact f) := by
  induction slots generalizing pts count rep with
  | nil => rfl
  | cons slot slots ih =>
    have htime : (slot.mapFact f).fact.createdAtUtcMs = slot.fact.createdAtUtcMs :=
      hf.createdAtUtcMs slot.fact
    rw [map_cons, keepBuckets, keepBuckets, htime]
    by_cases hend : pts = 0 ∨ maxRetainedVerifiedPoints ≤ count
    · rw [if_pos hend, if_pos hend, map_cons]
    · rw [if_neg hend, if_neg hend]
      cases slot.fact.createdAtUtcMs with
      | none => simp only [map_cons, ih]
      | some time =>
        simp only [ih]
        show (if (!slot.keep && !rep.contains (bucket time)) = true then _ else _) = _
        split_ifs <;> rfl

theorem keepByAge_map (bucket : ℤ → ℤ) (pts : ℕ) (slots : List RetentionSlot) :
    keepByAge bucket pts (slots.map (mapFact f)) =
      (keepByAge bucket pts slots).map (mapFact f) := by
  rw [keepByAge, keepByAge, representedBuckets_map hf, retainedVerifiedCount_map,
    keepBuckets_map hf]

theorem keepPoints_map (slots : List RetentionSlot) :
    keepPoints (slots.map (mapFact f)) = (keepPoints slots).map (mapFact f) := by
  simp only [keepPoints, keepProtected_map, retainedVerifiedCount_map, keepNewest_map,
    keepByAge_map hf]

theorem keptBytes_map (slots : List RetentionSlot) :
    keptBytes (slots.map (mapFact f)) = keptBytes slots := by
  induction slots with
  | nil => rfl
  | cons slot slots ih =>
    rw [map_cons, keptBytes_cons, keptBytes_cons, ih]
    show (if slot.keep = true then (f slot.fact).sizeBytes else 0) + _ = _
    rw [hf.sizeBytes]

theorem trim_map (budget bytes : ℕ) (slots : List RetentionSlot) :
    trim budget bytes (slots.map (mapFact f)) =
      (trim budget bytes slots).map (List.map (mapFact f)) := by
  induction slots generalizing bytes with
  | nil =>
    rw [map_nil, trim]
    split_ifs <;> rfl
  | cons slot slots ih =>
    have hsize : (slot.mapFact f).fact.sizeBytes = slot.fact.sizeBytes := hf.sizeBytes slot.fact
    rw [map_cons, trim, trim, hsize]
    by_cases hfit : bytes ≤ budget
    · rw [if_pos hfit, if_pos hfit]
      rfl
    rw [if_neg hfit, if_neg hfit]
    simp only [ih]
    show (if (slot.keep && !slot.isProtected) = true then _ else _) = _
    split_ifs
    · cases trim budget (bytes - slot.fact.sizeBytes) slots <;> rfl
    · rfl
    · cases trim budget bytes slots <;> rfl

/-- **Plans do not read selections.** -/
theorem planSlots_map (facts : List RetentionFact) (ph : Option Bytes32)
    (policy : RetentionPolicy) :
    planSlots (facts.map f) ph policy = (planSlots facts ph policy).map (List.map (mapFact f)) := by
  have hct : ∀ slots : List RetentionSlot,
      (slots.map (mapFact f)).countP (·.isProtected) = slots.countP (·.isProtected) := by
    intro slots
    rw [countP_map]
    rfl
  rw [planSlots_eq, planSlots_eq, verifiedFacts_map hf, protectSlots_map hf, keepPoints_map hf,
    ← map_reverse, keptBytes_map hf, keptBytes_map hf, otherBytes_map hf, hct, trim_map hf]
  split_ifs
  · rfl
  · cases trim policy.budgetBytes _ _ with
    | error error => rfl
    | ok slots =>
      show Except.ok _ = Except.ok _
      rw [map_reverse]

end Blind

end TokenMaster.State
