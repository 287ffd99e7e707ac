import TokenMaster.Domain.Usage
import TokenMaster.Lib.PrefixCode

/-!
# TokenMaster.Accounting.Hash — what the identities of an event are hashed from

`crates/accounting/src/hash.rs`: the byte strings that `event_fingerprint` and `replay_signature`
feed to the hasher.  Every part can be told from what follows it, so the strings determine the parts;
the two counters of cache writes are no part.
-/

namespace TokenMaster.Accounting

open TokenMaster.Domain List

def eventFingerprintDomain : Bytes := ascii "tokenmaster.event-fingerprint.v2\x00"
def replaySignatureDomain : Bytes := ascii "tokenmaster.replay-signature.v1\x00"

def updateText (value : Bytes) : Bytes := beBytes 4 (min value.length (2 ^ 32 - 1)) ++ value

def countValue : TokenCount → Option ℕ
  | .available value => some value
  | .unavailable => none

def updateCount (count : TokenCount) : Bytes := encodeOption (beBytes 8) (countValue count)

/-- The counters that `update_usage` walks over. -/
def hashedCounts (usage : TokenUsage) : List TokenCount :=
  [usage.input, usage.cached, usage.output, usage.reasoning, usage.total]

def updateUsage (counts : List TokenCount) : Bytes := counts.flatMap updateCount

def eventFingerprintInput (draft : ObservationDraft) : Bytes :=
  eventFingerprintDomain ++ (updateText draft.providerId.bytes ++
    (updateText draft.profileId.bytes ++ (updateText draft.sessionId.text.utf8 ++
      (beBytes 8 draft.sessionOrdinal ++ (updateText draft.model.bytes ++
        updateUsage (hashedCounts draft.deltaUsage))))))

def replaySignatureInput (draft : ObservationDraft) : Bytes :=
  replaySignatureDomain ++ (updateText draft.model.bytes ++
    (updateUsage (hashedCounts draft.deltaUsage) ++
      encodeOption updateUsage (draft.cumulativeUsage.map hashedCounts)))

/-! ### The parts -/

def IsU64 (count : TokenCount) : Prop := ∀ value, countValue count = some value → value < 256 ^ 8

/-- The numbers of a draft are of the type that the source gives them. -/
structure DraftFits (draft : ObservationDraft) : Prop where
  ordinal : draft.sessionOrdinal < 256 ^ 8
  delta : ∀ count ∈ hashedCounts draft.deltaUsage, IsU64 count
  cumulative : ∀ usage, draft.cumulativeUsage = some usage → ∀ count ∈ hashedCounts usage, IsU64 count

theorem countValue_injective : Function.Injective countValue := by
  intro a b h
  cases a <;> cases b <;> simp_all [countValue]

theorem prefixCode_updateText : PrefixCode (fun b : Bytes => b.length < 2 ^ 32) updateText := by
  intro a b s t ha hb h
  have hmin : ∀ c : Bytes, c.length < 2 ^ 32 → min c.length (2 ^ 32 - 1) = c.length := by
    omega
  rw [updateText, updateText, hmin a ha, hmin b hb, append_assoc, append_assoc] at h
  obtain ⟨hn, h⟩ := prefixCode_beBytes 4 _ _ _ _ (by omega) (by omega) h
  exact append_inj h hn

theorem prefixCode_updateUsage :
    PrefixCode (fun l : List TokenCount => l.length = 5 ∧ ∀ count ∈ l, IsU64 count) updateUsage :=
  ((prefixCode_beBytes 8).option.comap countValue_injective).flatMap 5

variable {a b : ObservationDraft}

theorem asciiText_short {max : ℕ} {allowed : UInt8 → Bool} (t : AsciiText max allowed)
    (h : max < 2 ^ 32) : t.bytes.length < 2 ^ 32 :=
  t.length_le.trans_lt h

theorem session_short (id : UsageSessionId) : id.text.utf8.length < 2 ^ 32 := by
  rw [Text.length_utf8]
  exact id.byteLength_le.trans_lt (by decide)

theorem session_ext {id id' : UsageSessionId} (h : id.text.utf8 = id'.text.utf8) : id = id' := by
  obtain ⟨t, _, _, _, _⟩ := id
  obtain ⟨t', _, _, _, _⟩ := id'
  obtain rfl : t = t' := Text.utf8_injective h
  rfl

theorem eventFingerprintInput_inj (ha : DraftFits a) (hb : DraftFits b)
    (h : eventFingerprintInput a = eventFingerprintInput b) :
    a.providerId = b.providerId ∧ a.profileId = b.profileId ∧ a.sessionId = b.sessionId ∧
      a.sessionOrdinal = b.sessionOrdinal ∧ a.model = b.model ∧
      hashedCounts a.deltaUsage = hashedCounts b.deltaUsage := by
  have h := append_cancel_left h
  obtain ⟨hprov, h⟩ := prefixCode_updateText _ _ _ _ (asciiText_short _ (by decide))
    (asciiText_short _ (by decide)) h
  obtain ⟨hprof, h⟩ := prefixCode_updateText _ _ _ _ (asciiText_short _ (by decide))
    (asciiText_short _ (by decide)) h
  obtain ⟨hs, h⟩ := prefixCode_updateText _ _ _ _ (session_short _) (session_short _) h
  obtain ⟨ho, h⟩ := prefixCode_beBytes 8 _ _ _ _ ha.ordinal hb.ordinal h
  obtain ⟨hm, h⟩ := prefixCode_updateText _ _ _ _ (asciiText_short _ (by decide))
    (asciiText_short _ (by decide)) h
  obtain ⟨hd, -⟩ := prefixCode_updateUsage _ _ [] [] ⟨rfl, ha.delta⟩ ⟨rfl, hb.delta⟩
    (congrArg (· ++ []) h)
  exact ⟨AsciiText.ext hprov, AsciiText.ext hprof, session_ext hs, ho, AsciiText.ext hm, hd⟩

theorem cumulative_fits (h : DraftFits a) (counts : List TokenCount)
    (hc : a.cumulativeUsage.map hashedCounts = some counts) :
    counts.length = 5 ∧ ∀ count ∈ counts, IsU64 count := by
  obtain ⟨usage, hu, rfl⟩ := Option.map_eq_some_iff.mp hc
  exact ⟨rfl, h.cumulative usage hu⟩

theorem replaySignatureInput_inj (ha : DraftFits a) (hb : DraftFits b)
    (h : replaySignatureInput a = replaySignatureInput b) :
    a.model = b.model ∧ hashedCounts a.deltaUsage = hashedCounts b.deltaUsage ∧
      a.cumulativeUsage.map hashedCounts = b.cumulativeUsage.map hashedCounts := by
  have h := append_cancel_left h
  obtain ⟨hm, h⟩ := prefixCode_updateText _ _ _ _ (asciiText_short _ (by decide))
    (asciiText_short _ (by decide)) h
  obtain ⟨hd, h⟩ := prefixCode_updateUsage _ _ _ _ ⟨rfl, ha.delta⟩ ⟨rfl, hb.delta⟩ h
  obtain ⟨hc, -⟩ := prefixCode_updateUsage.option _ _ [] [] (cumulative_fits ha)
    (cumulative_fits hb) (congrArg (· ++ []) h)
  exact ⟨AsciiText.ext hm, hd, hc⟩

/-- Equal input means equal parts, and no input of one hash is one of the other. -/
theorem event_hash_inputs_separate (ha : DraftFits a) (hb : DraftFits b) :
    (eventFingerprintInput a = eventFingerprintInput b ↔
      a.providerId = b.providerId ∧ a.profileId = b.profileId ∧ a.sessionId = b.sessionId ∧
        a.sessionOrdinal = b.sessionOrdinal ∧ a.model = b.model ∧
        hashedCounts a.deltaUsage = hashedCounts b.deltaUsage) ∧
    (replaySignatureInput a = replaySignatureInput b ↔
      a.model = b.model ∧ hashedCounts a.deltaUsage = hashedCounts b.deltaUsage ∧
        a.cumulativeUsage.map hashedCounts = b.cumulativeUsage.map hashedCounts) ∧
    eventFingerprintInput a ≠ replaySignatureInput b := by
  refine ⟨⟨eventFingerprintInput_inj ha hb, ?_⟩, ⟨replaySignatureInput_inj ha hb, ?_⟩, ?_⟩
  · rintro ⟨hprov, hprof, hs, ho, hm, hd⟩
    rw [eventFingerprintInput, eventFingerprintInput, hprov, hprof, hs, ho, hm, hd]
  · rintro ⟨hm, hd, hc⟩
    rw [replaySignatureInput, replaySignatureInput, hm, hd, hc]
  · intro h
    have htag := congrArg (take 13) h
    rw [eventFingerprintInput, replaySignatureInput, take_append_of_le_length (by decide),
      take_append_of_le_length (by decide)] at htag
    exact absurd htag (by decide)

/-- An event with this count of tokens written to the one-hour cache. -/
def cacheWriteDraft (cacheWrite : TokenCount) : ObservationDraft where
  providerId := letterId _ maxProviderIdBytes_pos
  profileId := letterId _ maxUsageIdBytes_pos
  sessionId := ⟨['a'], by decide, by decide, by decide, by decide⟩
  parentSessionId := none
  sessionOrdinal := 0
  lineageConflict := false
  sourceId := letterId _ maxUsageIdBytes_pos
  sourceOffset := 0
  sourceVerification := .incremental
  timestamp := ⟨0, 0, by decide⟩
  model := ⟨[97], letter_ne_nil, by decide, by decide⟩
  rawModel := none
  deltaUsage :=
    { TokenUsage.new (.available 5) .unavailable .unavailable .unavailable .unavailable with
      cacheWrite1h := cacheWrite }
  cumulativeUsage := none
  fallbackModel := false
  longContext := .unavailable
  serviceTier := none
  reportedCost := none
  project := none
  originator := none
  activity := .zero
  consistent := .inr (by simp)

theorem cacheWriteDraft_fits (cacheWrite : TokenCount) : DraftFits (cacheWriteDraft cacheWrite) := by
  refine ⟨Nat.pow_pos (by omega), ?_, by rintro _ ⟨⟩⟩
  simp [hashedCounts, cacheWriteDraft, TokenUsage.new, IsU64, countValue]

theorem event_hash_inputs_separate_draft :
    DraftFits (cacheWriteDraft .unavailable) ∧
      eventFingerprintInput (cacheWriteDraft .unavailable) ≠
        replaySignatureInput (cacheWriteDraft .unavailable) :=
  ⟨cacheWriteDraft_fits _,
    (event_hash_inputs_separate (cacheWriteDraft_fits _) (cacheWriteDraft_fits _)).2.2⟩

/-- Cache writes do not tell two events apart. -/
theorem event_hash_inputs_cacheWrite :
    (cacheWriteDraft .unavailable).deltaUsage ≠ (cacheWriteDraft (.available 1)).deltaUsage ∧
      eventFingerprintInput (cacheWriteDraft .unavailable) =
        eventFingerprintInput (cacheWriteDraft (.available 1)) ∧
      replaySignatureInput (cacheWriteDraft .unavailable) =
        replaySignatureInput (cacheWriteDraft (.available 1)) :=
  ⟨by decide, rfl, rfl⟩

end TokenMaster.Accounting
