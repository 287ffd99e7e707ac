import TokenMaster.Domain.Quota

/-!
# TokenMaster.Domain.Benefit — benefit lots, inventory observations and reminder profiles

The types of `crates/domain/src/benefit.rs`.  A value that the source only builds through a checked
constructor is a structure that carries the checks.
-/

namespace TokenMaster.Domain

def maxBenefitLotsPerObservation : ℕ := 64
def maxReminderThresholds : ℕ := 8
def minReminderLeadSeconds : ℕ := 60
def maxReminderLeadSeconds : ℕ := 365 * 24 * 60 * 60
def maxBenefitLabelKeyBytes : ℕ := 128
def maxBenefitTimeZoneIdBytes : ℕ := 128

abbrev BenefitLotId := Bytes32
abbrev BenefitObservationId := Bytes32

structure BenefitScope where
  providerId : UsageProviderId
  accountId : QuotaAccountId
  workspaceId : Option QuotaWorkspaceId
  deriving DecidableEq

inductive BenefitKind where
  | bankedRateLimitReset
  | usageCredit
  | temporaryUsage
  | unknown
  deriving DecidableEq

inductive BenefitState where
  | available
  | activationPending
  | activated
  | expired
  | revoked
  | ambiguous
  deriving DecidableEq

inductive BenefitEvidenceSource where
  | providerOfficial
  | providerLocal
  | manual
  | unknown
  deriving DecidableEq

inductive BenefitConfidence where
  | high
  | medium
  | low
  | unknown
  deriving DecidableEq

inductive BenefitDetailKind where
  | providerDetail
  | providerAggregate
  | manual
  deriving DecidableEq

inductive BenefitInventoryCompleteness where
  | complete
  | completeQuantityPartialDetails
  | partial_
  deriving DecidableEq

inductive BenefitTarget where
  | provider
  | quotaWindow (windowId : QuotaWindowId)
  deriving DecidableEq

/-- The alphabet of `valid_ascii_identifier` without the slash. -/
def isBenefitIdByte (b : UInt8) : Bool := isUsageIdByte b || b == 43

/-- The alphabet of `valid_ascii_identifier` with the slash. -/
def isTimeZoneByte (b : UInt8) : Bool := isBenefitIdByte b || b == 47

abbrev BenefitLabelKey := AsciiText maxBenefitLabelKeyBytes isBenefitIdByte

structure BenefitTimeZoneId where
  text : AsciiText maxBenefitTimeZoneIdBytes isTimeZoneByte
  no_outer_dot : text.bytes.head? ≠ some 46 ∧ text.bytes.getLast? ≠ some 46
  no_outer_slash : text.bytes.head? ≠ some 47 ∧ text.bytes.getLast? ≠ some 47
  no_double_dot : ¬ [46, 46] <:+: text.bytes
  deriving DecidableEq

def isLeapYear (year : ℕ) : Bool := year % 4 == 0 && (year % 100 != 0 || year % 400 == 0)

def daysInMonth (year month : ℕ) : ℕ :=
  match month with
  | 1 | 3 | 5 | 7 | 8 | 10 | 12 => 31
  | 4 | 6 | 9 | 11 => 30
  | 2 => if isLeapYear year then 29 else 28
  | _ => 0

structure BenefitLocalDate where
  year : ℕ
  month : ℕ
  day : ℕ
  year_range : 1 ≤ year ∧ year ≤ 9999
  month_range : 1 ≤ month ∧ month ≤ 12
  day_range : 1 ≤ day ∧ day ≤ daysInMonth year month
  deriving DecidableEq

structure BenefitLocalTime where
  hour : ℕ
  minute : ℕ
  second : ℕ
  millisecond : ℕ
  hour_le : hour ≤ 23
  minute_le : minute ≤ 59
  second_le : second ≤ 59
  millisecond_le : millisecond ≤ 999
  deriving DecidableEq

structure BenefitLocalDateTime where
  date : BenefitLocalDate
  time : BenefitLocalTime
  deriving DecidableEq

inductive BenefitExpiry where
  | exactUtc (atMs : ℤ) (pos : 0 < atMs)
  | providerLocal (localTime : BenefitLocalDateTime) (timeZone : BenefitTimeZoneId)
  | providerDate (date : BenefitLocalDate) (timeZone : Option BenefitTimeZoneId)
  | boundedUtc (earliestAtMs latestAtMs : ℤ) (pos : 0 < earliestAtMs)
      (ordered : earliestAtMs ≤ latestAtMs)
  | unknown
  deriving DecidableEq

def BenefitExpiry.conservativeUtcMs : BenefitExpiry → Option ℤ
  | .exactUtc atMs _ => some atMs
  | .boundedUtc earliestAtMs _ _ _ => some earliestAtMs
  | .providerLocal _ _ | .providerDate _ _ | .unknown => none

theorem BenefitExpiry.conservativeUtcMs_pos {expiry : BenefitExpiry} {t : ℤ}
    (h : expiry.conservativeUtcMs = some t) : 0 < t := by
  cases expiry with
  | exactUtc atMs pos | boundedUtc earliest latest pos ordered =>
    cases h
    exact pos
  | providerLocal _ _ | providerDate _ _ | unknown => cases h

theorem one_le_i64Max : 1 ≤ 2 ^ 63 - 1 := by decide

/-- A lot that passed the checks of `BenefitLotObservation::new`. -/
structure BenefitLotObservation where
  lotId : BenefitLotId
  kind : BenefitKind
  quantity : ℕ
  state : BenefitState
  target : BenefitTarget
  grantedAtMs : Option ℤ
  expiry : BenefitExpiry
  source : BenefitEvidenceSource
  confidence : BenefitConfidence
  detailKind : BenefitDetailKind
  labelKey : BenefitLabelKey
  quantity_pos : 0 < quantity
  quantity_le : quantity ≤ 2 ^ 63 - 1
  granted_pos : ∀ t ∈ grantedAtMs, 0 < t
  deriving DecidableEq

/-- The same lot in another state. -/
def BenefitLotObservation.withState (lot : BenefitLotObservation) (state : BenefitState) :
    BenefitLotObservation := { lot with state := state }

/-- An observation that passed the checks of `BenefitInventoryObservation::new`. -/
structure BenefitInventoryObservation where
  scope : BenefitScope
  observationId : BenefitObservationId
  observedAtMs : ℤ
  freshUntilMs : ℤ
  staleAfterMs : ℤ
  completeness : BenefitInventoryCompleteness
  lots : List BenefitLotObservation
  observed_pos : 0 < observedAtMs
  observed_le_fresh : observedAtMs ≤ freshUntilMs
  fresh_le_stale : freshUntilMs ≤ staleAfterMs
  lots_length_le : lots.length ≤ maxBenefitLotsPerObservation
  lots_nodup : (lots.map (·.lotId)).Nodup

/-- The observation has a lot with this identity. -/
def BenefitInventoryObservation.mentions (observation : BenefitInventoryObservation)
    (lotId : BenefitLotId) : Bool := observation.lots.any fun lot => lot.lotId == lotId

theorem BenefitInventoryObservation.mentions_iff {obs : BenefitInventoryObservation}
    {lotId : BenefitLotId} :
    obs.mentions lotId = true ↔ ∃ lot ∈ obs.lots, lot.lotId = lotId := by
  simp [mentions]

structure ReminderLeadTime where
  seconds : ℕ
  min_le : minReminderLeadSeconds ≤ seconds
  le_max : seconds ≤ maxReminderLeadSeconds
  deriving DecidableEq

inductive NotificationChannel where
  | inApp
  | osScheduled
  deriving DecidableEq

/-- `notification_channel_code`, and the order of the channels. -/
def NotificationChannel.code : NotificationChannel → ℕ
  | .inApp => 1
  | .osScheduled => 2

/-- A profile as `ReminderProfile::new` leaves it: lead times strictly descending, channels strictly
ascending. -/
structure ReminderProfile where
  revision : ℕ
  leadTimes : List ReminderLeadTime
  channels : List NotificationChannel
  revision_pos : 0 < revision
  revision_le : revision ≤ 2 ^ 63 - 1
  leadTimes_length_le : leadTimes.length ≤ maxReminderThresholds
  leadTimes_descending : leadTimes.Pairwise fun a b => b.seconds < a.seconds
  channels_ascending : channels.Pairwise fun a b => a.code < b.code
  deriving DecidableEq

end TokenMaster.Domain
