import TokenMaster.State.Replan

/-!
# TokenMaster.State.RetentionRun — deleting one backup at a time carries out the first plan

`delete_next` is called again and again, each time with a catalog that was rebuilt from what is left
in the directory.  The catalogs may differ in everything but the files; nothing else is remembered,
so a restart between two deletions is no case of its own.

The argument is on the files (`Ready`): the oldest backup that the plan gives up is deleted, and the
plan on the remaining files is the plan that there was for them (`Ready.remove`).
-/

namespace TokenMaster.State

open List

/-! ### The order of the facts is determined by the facts -/

variable {ph : Option Bytes32} {policy : RetentionPolicy} {fd : RetentionSlot}

section Order

variable {facts facts' : List RetentionFact}

theorem RetentionFact.Before.key_eq {left right : RetentionFact} (h : left.Before right)
    (h' : right.Before left) : left.key = right.key := by
  rcases h with hlt | ⟨heq, hle⟩
  · rcases h' with hlt' | ⟨heq', _⟩ <;> omega
  · rcases h' with hlt' | ⟨_, hle'⟩
    · omega
    · exact Bytes32.asBytes_injective (List.le_antisymm hle hle')

theorem pairwise_sortFacts (facts : List RetentionFact) :
    (sortFacts facts).Pairwise RetentionFact.Before := by
  have htrans : IsTrans RetentionFact RetentionFact.Before := by
    refine ⟨fun a b c hab hbc => ?_⟩
    rcases hab with hab | ⟨hab, hkey⟩
    · rcases hbc with hbc | ⟨hbc, _⟩
      · exact .inl (hbc.trans hab)
      · exact .inl (hbc ▸ hab)
    · rcases hbc with hbc | ⟨hbc, hkey'⟩
      · exact .inl (hab ▸ hbc)
      · exact .inr ⟨hbc.trans hab, List.le_trans hkey hkey'⟩
  have htot : Std.Total RetentionFact.Before := by
    refine ⟨fun a b => ?_⟩
    rcases lt_trichotomy a.sortTime b.sortTime with hlt | heq | hgt
    · exact .inr (.inl hlt)
    · rcases List.le_total a.key.asBytes b.key.asBytes with hle | hle
      · exact .inl (.inr ⟨heq.symm, hle⟩)
      · exact .inr (.inr ⟨heq, hle⟩)
    · exact .inl (.inl hgt)
  exact pairwise_insertionSort _ facts

variable (hkeys : Keyed (fun fact : RetentionFact => fact.key) facts)

include hkeys

theorem sortFacts_unique (hp : facts'.Perm facts)
    (hso : facts'.Pairwise RetentionFact.Before) : sortFacts facts = facts' := by
  have hsm : (sortFacts facts).Perm facts' := (perm_sortFacts facts).trans hp.symm
  refine List.Perm.eq_of_pairwise ?_ (pairwise_sortFacts facts) hso hsm
  intro a b ha hb hab hba
  exact hkeys.eq_of_key ((perm_sortFacts facts).mem_iff.mp ha) (hp.mem_iff.mp hb)
    (hab.key_eq hba)

theorem sortFacts_filter (p : RetentionFact → Bool) :
    sortFacts (facts.filter p) = (sortFacts facts).filter p :=
  sortFacts_unique (hkeys.filter p) ((perm_sortFacts facts).filter p)
    ((pairwise_sortFacts facts).filter p)

theorem planSlots_perm (hp : facts'.Perm facts) (ph : Option Bytes32)
    (policy : RetentionPolicy) :
    planSlots facts ph policy = planSlots facts' ph policy := by
  rw [planSlots_verified, planSlots_verified, verifiedFacts, verifiedFacts, otherBytes, otherBytes,
    unverifiedFacts, unverifiedFacts, ← sortFacts_unique hkeys
      ((perm_sortFacts facts').trans hp) (pairwise_sortFacts facts')]

theorem verifiedFacts_keys : Keyed (fun fact : RetentionFact => fact.key) (verifiedFacts facts) :=
  Keyed.filter (((perm_sortFacts facts).map _).nodup_iff.mpr hkeys) _

omit hkeys in
/-- What is planned for is verified. -/
theorem planSlots_mem {slots : List RetentionSlot} {slot : RetentionSlot}
    (h : planSlots facts ph policy = .ok slots) (hsl : slot ∈ slots) :
    slot.fact ∈ facts ∧ slot.fact.verified = true := by
  rw [← mem_verifiedFacts, ← (planned_safe (planSlots_ok h)).facts_eq]
  exact mem_map_of_mem hsl

/-- Deleting the oldest backup that the plan gives up leaves the plan for the others. -/
theorem planSlots_delete {fa fb : List RetentionSlot}
    (h : planSlots facts ph policy = .ok (fa ++ fd :: fb)) (hfd : fd.keep = false)
    (hfb : AllKept fb) (hpo : fd.fact.purpose ≠ some .postMigration) :
    planSlots (facts.filter (·.key != fd.fact.key)) ph policy = .ok (fa ++ fb) := by
  have hver : fa.map (·.fact) ++ fd.fact :: fb.map (·.fact) = verifiedFacts facts := by
    rw [← (planned_safe (planSlots_ok h)).facts_eq, map_append, map_cons]
  have hverK := verifiedFacts_keys hkeys
  have hver' : verifiedFacts (facts.filter (·.key != fd.fact.key)) =
      fa.map (·.fact) ++ fb.map (·.fact) := by
    rw [verifiedFacts, sortFacts_filter hkeys, filter_comm]
    show (verifiedFacts facts).filter _ = _
    rw [← hver] at hverK ⊢
    unfold Keyed at hverK
    rw [map_append, map_cons, nodup_append, nodup_cons] at hverK
    obtain ⟨_, ⟨hbehind, _⟩, hbef⟩ := hverK
    rw [filter_append, filter_cons_of_neg (by simp)]
    congr 1
    · refine filter_eq_self.mpr fun fact hf => ?_
      have hne := hbef fact.key (mem_map_of_mem hf) fd.fact.key (mem_cons_self ..)
      simpa using hne
    · refine filter_eq_self.mpr fun fact hf => ?_
      have hne : fact.key ≠ fd.fact.key := by
        intro heq
        rw [← heq] at hbehind
        exact hbehind (mem_map_of_mem hf)
      simpa using hne
  have hmem := planSlots_mem h (mem_append_right fa (mem_cons_self ..))
  have hoth : otherBytes (facts.filter (·.key != fd.fact.key)) = otherBytes facts := by
    rw [otherBytes, otherBytes, unverifiedFacts, unverifiedFacts, sortFacts_filter hkeys,
      filter_comm]
    congr 2
    refine filter_eq_self.mpr fun fact hf => ?_
    obtain ⟨hf, hunve⟩ := mem_filter.mp hf
    have hne : fact.key ≠ fd.fact.key := by
      intro heq
      have hsm := hkeys.eq_of_key ((perm_sortFacts facts).mem_iff.mp hf) hmem.1 heq
      rw [hsm, hmem.2] at hunve
      cases hunve
    simpa using hne
  rw [planSlots_verified, ← hver] at h
  rw [planSlots_verified, hver', hoth]
  exact planVerified_remove h (length_map _).symm hfd hfb hpo

end Order

/-! ### Files and catalogs -/

def fileFacts (candidateHash : Bytes32) (directory : List BackupFile) : List RetentionFact :=
  directory.map (retentionFact candidateHash none)

def RetentionFact.unselected (fact : RetentionFact) : RetentionFact := { fact with selection := none }

theorem unselected_selectionOnly : SelectionOnly RetentionFact.unselected :=
  ⟨fun _ => rfl, fun _ => rfl, fun _ => rfl, fun _ => rfl, fun _ => rfl, fun _ => rfl⟩

/-- The points that selections of this catalog name. -/
def BackupCatalog.selected (catalog : BackupCatalog) (selections : List CatalogSelection) :
    List CatalogPoint :=
  selections.filterMap catalog.pointAt

/-- The hashes of the backups that a plan gives up, oldest first. -/
def givenUp (slots : List RetentionSlot) : List Bytes32 :=
  (slots.reverse.filter (!·.keep)).map (·.fact.key)

theorem givenUp_allKept {slots : List RetentionSlot} (h : AllKept slots) : givenUp slots = [] := by
  rw [givenUp, map_eq_nil_iff, filter_eq_nil_iff]
  intro slot hsl
  simp [h slot (mem_reverse.mp hsl)]

theorem givenUp_split {fa fb : List RetentionSlot} (hfd : fd.keep = false) (hfb : AllKept fb) :
    givenUp (fa ++ fd :: fb) = fd.fact.key :: givenUp (fa ++ fb) := by
  have hno : fb.reverse.filter (!·.keep) = [] := map_eq_nil_iff.mp (givenUp_allKept hfb)
  simp [givenUp, hno, hfd]

/-- Either a plan gives nothing up, or there is an oldest backup that it gives up. -/
theorem allKept_or_split (slots : List RetentionSlot) :
    AllKept slots ∨ ∃ fa fd fb, slots = fa ++ fd :: fb ∧ fd.keep = false ∧ AllKept fb := by
  induction slots with
  | nil => exact .inl (by simp [AllKept])
  | cons slot slots ih =>
    rcases ih with hall | ⟨fa, fd, fb, rfl, hfd, hfb⟩
    · cases hkp : slot.keep with
      | true => exact .inl (forall_mem_cons.mpr ⟨hkp, hall⟩)
      | false => exact .inr ⟨[], slot, slots, rfl, hkp, hall⟩
    · exact .inr ⟨slot :: fa, fd, fb, rfl, hfd, hfb⟩

variable {point : CatalogPoint} {points : List CatalogPoint}

section Catalogs

variable {catalog : BackupCatalog} {directory : List BackupFile} {candidateHash : Bytes32}

theorem BackupCatalog.Of.mem_iff (h : catalog.Of directory) {file : BackupFile} :
    file ∈ directory ↔ ∃ point ∈ catalog.points, point.toBackupFile = file := by
  rw [← List.Perm.mem_iff h, mem_map]

theorem BackupCatalog.Of.hashes (h : catalog.Of directory) :
    Keyed (fun file : BackupFile => file.observedFileSha256) directory := by
  have hpts := catalog.hashes
  unfold Keyed at hpts ⊢
  rw [← (List.Perm.map _ h).nodup_iff, map_map]
  exact hpts

theorem BackupCatalog.pointAt_selection (h : point ∈ catalog.points) :
    catalog.pointAt point.selection = some point := by
  obtain ⟨i, hi⟩ := mem_iff_getElem?.mp h
  rw [pointAt, catalog.ordinals i point hi, hi, Option.filter_some, catalog.ordinals i point hi]
  simp

theorem dedupAdjacent_nodup {selections : List CatalogSelection} (h : selections.Nodup) :
    dedupAdjacent selections = selections := by
  induction selections with
  | nil => rfl
  | cons first rest ih =>
    obtain ⟨hf, hrs⟩ := nodup_cons.mp h
    rw [dedupAdjacent, ih hrs]
    cases rest with
    | nil => rfl
    | cons second others =>
      refine if_neg ?_
      rintro rfl
      exact hf (mem_cons_self ..)

theorem fileFacts_keys (candidateHash : Bytes32)
    (h : Keyed (fun file : BackupFile => file.observedFileSha256) directory) :
    Keyed (fun fact : RetentionFact => fact.key) (fileFacts candidateHash directory) := by
  unfold Keyed at h ⊢
  rw [fileFacts, map_map]
  exact h

/-- A catalog plans for its points what is planned for the files. -/
theorem catalogFacts_plan (h : catalog.Of directory) :
    (planSlots (catalogFacts candidateHash catalog) ph policy).map
        (List.map (RetentionSlot.mapFact RetentionFact.unselected)) =
      planSlots (fileFacts candidateHash directory) ph policy := by
  rw [← planSlots_map unselected_selectionOnly]
  refine (planSlots_perm (fileFacts_keys candidateHash h.hashes) ?_ ph policy).symm
  have hfiles : (catalogFacts candidateHash catalog).map RetentionFact.unselected =
      fileFacts candidateHash (catalog.points.map (·.toBackupFile)) := by
    rw [catalogFacts, fileFacts, map_map, map_map]
    rfl
  rw [hfiles]
  exact List.Perm.map _ h

/-- The points behind slots that a catalog's plan gives up. -/
theorem exists_points {slots : List RetentionSlot}
    (h : ∀ slot ∈ slots, slot.fact ∈ catalogFacts candidateHash catalog) :
    ∃ points : List CatalogPoint, (∀ point ∈ points, point ∈ catalog.points) ∧
      slots.filterMap (fun slot => if slot.keep then none else slot.fact.selection) =
        points.map (·.selection) ∧
      points.map (fun point => retentionFact candidateHash none point.toBackupFile) =
        (slots.filter (!·.keep)).map (·.fact.unselected) := by
  induction slots with
  | nil => exact ⟨[], by simp, rfl, rfl⟩
  | cons slot slots ih =>
    obtain ⟨hsl, hsls⟩ := forall_mem_cons.mp h
    obtain ⟨points, hpts, hsele, hfs⟩ := ih hsls
    cases hkp : slot.keep with
    | true =>
      refine ⟨points, hpts, ?_, ?_⟩
      · rw [filterMap_cons_none (by simp [hkp]), hsele]
      · rw [filter_cons_of_neg (by simp [hkp]), hfs]
    | false =>
      obtain ⟨point, hpt, hf⟩ := mem_map.mp hsl
      refine ⟨point :: points, forall_mem_cons.mpr ⟨hpt, hpts⟩, ?_, ?_⟩
      · rw [filterMap_cons_some (by simp [hkp, ← hf, retentionFact]; rfl), hsele]
        rfl
      · rw [filter_cons_of_pos (by simp [hkp]), map_cons, map_cons, hfs,
          ← hf]
        rfl

end Catalogs

/-! ### One deletion -/

theorem RetentionCycle.candidateVerified_iff {cycle : RetentionCycle} {catalog : BackupCatalog}
    {directory : List BackupFile} (h : catalog.Of directory) :
    cycle.candidateVerified catalog = true ↔ ∃ file ∈ directory,
      file.observedFileSha256 = cycle.candidateHash ∧ file.health = .verified := by
  rw [candidateVerified]
  constructor
  · intro hfd
    cases hf : catalog.points.find? fun point =>
        point.observedFileSha256 == cycle.candidateHash with
    | none =>
      rw [hf] at hfd
      cases hfd
    | some point =>
      rw [hf] at hfd
      exact ⟨point.toBackupFile, h.mem_iff.mpr ⟨point, mem_of_find?_eq_some hf, rfl⟩,
        by simpa using List.find?_some hf, by simpa using hfd⟩
  · rintro ⟨file, hfile, hhs, hhealth⟩
    obtain ⟨point, hpt, rfl⟩ := h.mem_iff.mp hfile
    have hf : catalog.points.find? (fun point =>
        point.observedFileSha256 == cycle.candidateHash) = some point := by
      exact catalog.hashes.find?_eq hpt hhs
    rw [hf]
    simpa using hhealth

/-- What a cycle finds between two deletions: the candidate, and a plan for the files. -/
structure Ready (cycle : RetentionCycle) (directory : List BackupFile) (slots : List RetentionSlot) :
    Prop where
  hashes : Keyed (fun file : BackupFile => file.observedFileSha256) directory
  candidate : ∃ file ∈ directory,
    file.observedFileSha256 = cycle.candidateHash ∧ file.health = .verified
  plan : planSlots (fileFacts cycle.candidateHash directory) cycle.protectedHash cycle.policy =
    .ok slots

variable {out : RetentionOutcome}

section Deletion

variable {cycle : RetentionCycle} {directory : List BackupFile} {slots : List RetentionSlot}
  {catalog : BackupCatalog}

/-- What is given up is verified, and it is not the candidate. -/
theorem Ready.slot (h : Ready cycle directory slots) {slot : RetentionSlot} (hsl : slot ∈ slots)
    (hkp : slot.keep = false) :
    slot.fact ∈ fileFacts cycle.candidateHash directory ∧ slot.fact.verified = true ∧
      slot.fact.key ≠ cycle.candidateHash := by
  obtain ⟨hmem, hver⟩ := planSlots_mem h.plan hsl
  refine ⟨hmem, hver, ?_⟩
  intro hkey
  obtain ⟨i, hi⟩ := mem_iff_getElem?.mp hsl
  obtain ⟨file, _, hf⟩ := mem_map.mp hmem
  have hcand : slot.fact.candidate = true := by
    rw [← hf] at hkey ⊢
    simpa [retentionFact] using hkey
  rw [(planned_safe (planSlots_ok h.plan)).mustKeep i slot hi (.inl hcand)] at hkp
  cases hkp

theorem Ready.givenUp_nodup (h : Ready cycle directory slots) : (givenUp slots).Nodup := by
  have hver := verifiedFacts_keys (fileFacts_keys cycle.candidateHash h.hashes)
  rw [← (planned_safe (planSlots_ok h.plan)).facts_eq] at hver
  unfold Keyed at hver
  rw [map_map] at hver
  rw [givenUp, filter_reverse, map_reverse, nodup_reverse]
  exact hver.sublist (filter_sublist.map _)

/-- The plan of a catalog names the points that the plan for the files gives up. -/
theorem Ready.catalogPlan (h : Ready cycle directory slots) (hof : catalog.Of directory) :
    ∃ (out : RetentionOutcome) (points : List CatalogPoint),
      cycle.plan catalog = .ok out ∧
      (∀ point ∈ points, point ∈ catalog.points) ∧
      out.deletions = points.map (·.selection) ∧
      points.map (fun point => retentionFact cycle.candidateHash none point.toBackupFile) =
        (slots.reverse.filter (!·.keep)).map (·.fact) := by
  have hpl := h.plan
  rw [← catalogFacts_plan hof] at hpl
  obtain ⟨catalogSlots, hcatS, hsls⟩ := Except.map_eq_ok.mp hpl
  obtain ⟨points, hpts, hsele, hptF⟩ := exists_points fun slot hsl =>
    (planSlots_mem hcatS (mem_reverse.mp hsl)).1
  have hgiven : points.map (fun point =>
      retentionFact cycle.candidateHash none point.toBackupFile) =
        (slots.reverse.filter (!·.keep)).map (·.fact) := by
    rw [hptF, ← hsls, ← map_reverse, filter_map, map_map]
    rfl
  have hhs : Keyed (fun point : CatalogPoint => point.observedFileSha256) points := by
    have hkeys := congrArg (List.map RetentionFact.key) hgiven
    rw [map_map, map_map] at hkeys
    have hnd := h.givenUp_nodup
    rw [givenUp] at hnd
    exact (hkeys ▸ hnd : (points.map _).Nodup)
  have hnd : (points.map (·.selection)).Nodup := by
    refine hhs.of_imp fun a ha b hb hsm => ?_
    have ha := BackupCatalog.pointAt_selection (hpts a ha)
    have hb := BackupCatalog.pointAt_selection (hpts b hb)
    rw [hsm] at ha
    rw [Option.some.inj (ha.symm.trans hb)]
  refine ⟨⟨plannedDeletions catalogSlots, (keptFacts catalogSlots).map (·.key)⟩, points, ?_, hpts,
    ?_, hgiven⟩
  · rw [RetentionCycle.plan, planRetention, Option.toList_none, append_nil, planFacts,
      hcatS]
    rfl
  · rw [plannedDeletions, hsele]
    exact dedupAdjacent_nodup hnd

theorem BackupCatalog.Of.revalidatePoint (h : catalog.Of directory)
    (hpt : point ∈ catalog.points) : State.revalidatePoint directory point = true := by
  rw [State.revalidatePoint, any_eq_true]
  exact ⟨point.toBackupFile, h.mem_iff.mpr ⟨point, hpt, rfl⟩, by simp⟩

/-- Up to the deletion itself, nothing fails. -/
theorem Ready.deleteNext_eq (h : Ready cycle directory slots) (hof : catalog.Of directory)
    (hpl : cycle.plan catalog = .ok out) :
    cycle.deleteNext catalog directory = match out.deletions.head? with
      | none => .ok (false, directory)
      | some selection => cycle.deleteSelected catalog directory selection := by
  have hcand := (cycle.candidateVerified_iff hof).mpr h.candidate
  have hall : catalog.revalidateAllVerified directory = true := by
    rw [BackupCatalog.revalidateAllVerified, all_eq_true]
    intro point hpt
    exact hof.revalidatePoint (mem_filter.mp hpt).1
  have hnx : cycle.nextDeletion catalog = .ok out.deletions.head? := by
    rw [RetentionCycle.nextDeletion, if_pos hcand, hpl]
    rfl
  rw [RetentionCycle.deleteNext, hcand, hall, hnx]
  cases out.deletions.head? <;> rfl

theorem Ready.deleteNext_none (h : Ready cycle directory slots) (hof : catalog.Of directory)
    (hsls : AllKept slots) : cycle.deleteNext catalog directory = .ok (false, directory) := by
  obtain ⟨out, points, hpl, _, hdele, hpts⟩ := h.catalogPlan hof
  have hno : slots.reverse.filter (!·.keep) = [] := map_eq_nil_iff.mp (givenUp_allKept hsls)
  rw [hno, map_nil, map_eq_nil_iff] at hpts
  rw [h.deleteNext_eq hof hpl, hdele, hpts]
  rfl

theorem Ready.deleteNext_some {fa fb : List RetentionSlot}
    (h : Ready cycle directory (fa ++ fd :: fb)) (hof : catalog.Of directory)
    (hfd : fd.keep = false) (hfb : AllKept fb) :
    cycle.deleteNext catalog directory =
      .ok (true, directory.filter (·.observedFileSha256 != fd.fact.key)) := by
  obtain ⟨out, points, hpl, hpts, hdele, hfs⟩ := h.catalogPlan hof
  have holdest : (fa ++ fd :: fb).reverse.filter (!·.keep) = fd :: fa.reverse.filter (!·.keep) := by
    have hno : fb.reverse.filter (!·.keep) = [] := map_eq_nil_iff.mp (givenUp_allKept hfb)
    simp [hno, hfd]
  rw [holdest, map_cons] at hfs
  obtain ⟨point, rest, rfl, hpt, _⟩ := map_eq_cons_iff.mp hfs
  obtain ⟨hmem, _⟩ := forall_mem_cons.mp hpts
  obtain ⟨_, hver, hoth⟩ := h.slot (mem_append_right fa (mem_cons_self ..)) hfd
  have hkey : point.observedFileSha256 = fd.fact.key := congrArg RetentionFact.key hpt
  have hhealth : (point.health == .verified) = true :=
    (congrArg RetentionFact.verified hpt).trans hver
  have hmatc : catalog.matchesDirectory directory = true := isPerm_iff.mpr hof
  rw [h.deleteNext_eq hof hpl, hdele, map_cons, List.head?_cons]
  show cycle.deleteSelected catalog directory point.selection = _
  rw [RetentionCycle.deleteSelected, hmatc, BackupCatalog.pointAt_selection hmem]
  have hgo : (point.health != .verified || point.observedFileSha256 == cycle.candidateHash ||
      !revalidatePoint directory point) = false := by
    rw [hof.revalidatePoint hmem, bne, hhealth, hkey]
    simpa using hoth
  simp only [hgo, Bool.not_true, Bool.false_eq_true, if_false]
  rw [hkey]

/-- After the deletion the cycle is ready with the plan that is left. -/
theorem Ready.remove {fa fb : List RetentionSlot} (h : Ready cycle directory (fa ++ fd :: fb))
    (hfd : fd.keep = false) (hfb : AllKept fb) (hpo : fd.fact.purpose ≠ some .postMigration) :
    Ready cycle (directory.filter (·.observedFileSha256 != fd.fact.key)) (fa ++ fb) := by
  obtain ⟨_, _, hoth⟩ := h.slot (mem_append_right fa (mem_cons_self ..)) hfd
  refine ⟨h.hashes.filter _, ?_, ?_⟩
  · obtain ⟨file, hf, hhs, hhealth⟩ := h.candidate
    refine ⟨file, mem_filter.mpr ⟨hf, ?_⟩, hhs, hhealth⟩
    rw [hhs]
    simpa using hoth.symm
  · have hfs : fileFacts cycle.candidateHash
        (directory.filter (·.observedFileSha256 != fd.fact.key)) =
          (fileFacts cycle.candidateHash directory).filter (·.key != fd.fact.key) := by
      rw [fileFacts, fileFacts, filter_map]
      rfl
    rw [hfs]
    exact planSlots_delete (fileFacts_keys cycle.candidateHash h.hashes) h.plan hfd hfb hpo

end Deletion

/-! ### Whole runs -/

/-- The directory without the files of these hashes. -/
def withoutHashes (directory : List BackupFile) (hashes : List Bytes32) : List BackupFile :=
  directory.filter fun file => file.observedFileSha256 ∉ hashes

theorem withoutHashes_nil (directory : List BackupFile) : withoutHashes directory [] = directory :=
  filter_eq_self.mpr (by simp)

theorem withoutHashes_cons (directory : List BackupFile) (hash : Bytes32) (hashes : List Bytes32) :
    withoutHashes directory (hash :: hashes) =
      withoutHashes (directory.filter (·.observedFileSha256 != hash)) hashes := by
  rw [withoutHashes, withoutHashes, filter_filter]
  refine filter_congr fun file _ => ?_
  rw [Bool.eq_iff_iff]
  simp [and_comm]

/-- After `n` deletions the next call deletes the next backup of the first plan. -/
theorem Ready.deleteNext {cycle : RetentionCycle} {directory : List BackupFile}
    {slots : List RetentionSlot} (h : Ready cycle directory slots)
    (hpo : ∀ slot ∈ slots, slot.keep = false → slot.fact.purpose ≠ some .postMigration) (n : ℕ)
    {catalog : BackupCatalog} (hof : catalog.Of (withoutHashes directory ((givenUp slots).take n))) :
    cycle.deleteNext catalog (withoutHashes directory ((givenUp slots).take n)) =
      .ok (decide (n < (givenUp slots).length),
        withoutHashes directory ((givenUp slots).take (n + 1))) := by
  induction n generalizing directory slots with
  | zero =>
    rw [take_zero, withoutHashes_nil] at hof ⊢
    rcases allKept_or_split slots with hall | ⟨fa, fd, fb, rfl, hfd, hfb⟩
    · rw [h.deleteNext_none hof hall, givenUp_allKept hall, take_nil, withoutHashes_nil]
      rfl
    · rw [h.deleteNext_some hof hfd hfb, givenUp_split hfd hfb, take_succ_cons, take_zero,
        withoutHashes_cons, withoutHashes_nil]
      simp
  | succ n ih =>
    rcases allKept_or_split slots with hall | ⟨fa, fd, fb, rfl, hfd, hfb⟩
    · rw [givenUp_allKept hall, take_nil, withoutHashes_nil] at hof ⊢
      rw [h.deleteNext_none hof hall, take_nil, withoutHashes_nil]
      rfl
    · rw [givenUp_split hfd hfb, take_succ_cons, withoutHashes_cons] at hof ⊢
      have hrs := ih (h.remove hfd hfb (hpo fd (by simp) hfd)) (by
        intro slot hsl
        refine hpo slot ?_
        rcases mem_append.mp hsl with hsl | hsl
        · exact mem_append_left _ hsl
        · exact mem_append_right _ (mem_cons_of_mem _ hsl)) hof
      rw [hrs, take_succ_cons, withoutHashes_cons]
      simp

/-- `n` deletions, each under a catalog that was built from what is left at that time. -/
inductive DeletionRun (cycle : RetentionCycle) (directory : List BackupFile) :
    ℕ → List BackupFile → Prop
  | start : DeletionRun cycle directory 0 directory
  | delete {n : ℕ} {left next : List BackupFile} {catalog : BackupCatalog}
      (hrun : DeletionRun cycle directory n left) (hcatalog : catalog.Of left)
      (h : cycle.deleteNext catalog left = .ok (true, next)) :
      DeletionRun cycle directory (n + 1) next

section Runs

variable {cycle : RetentionCycle} {directory : List BackupFile} {slots : List RetentionSlot}

theorem Ready.run (h : Ready cycle directory slots)
    (hpo : ∀ slot ∈ slots, slot.keep = false → slot.fact.purpose ≠ some .postMigration) {n : ℕ}
    {left : List BackupFile} (hrun : DeletionRun cycle directory n left) :
    n ≤ (givenUp slots).length ∧ left = withoutHashes directory ((givenUp slots).take n) := by
  induction hrun with
  | start => exact ⟨Nat.zero_le _, (withoutHashes_nil directory).symm⟩
  | @delete n left next catalog _ hcat hdel ih =>
    obtain ⟨_, rfl⟩ := ih
    rw [h.deleteNext hpo n hcat] at hdel
    obtain ⟨hmo, hnx⟩ := Prod.mk.inj (Except.ok.inj hdel)
    exact ⟨of_decide_eq_true hmo, hnx.symm⟩

theorem BackupCatalog.Of.ready {catalog : BackupCatalog} (hof : catalog.Of directory)
    (hcand : cycle.candidateVerified catalog = true) (hpl : cycle.plan catalog = .ok out)
    : ∃ slots, Ready cycle directory slots := by
  rw [RetentionCycle.plan, planRetention, Option.toList_none, append_nil, planFacts] at hpl
  obtain ⟨catalogSlots, hcatS, _⟩ := Except.map_eq_ok.mp hpl
  refine ⟨catalogSlots.map (RetentionSlot.mapFact RetentionFact.unselected), hof.hashes,
    (cycle.candidateVerified_iff hof).mp hcand, ?_⟩
  rw [← catalogFacts_plan hof, hcatS]
  rfl

end Runs

end TokenMaster.State
