import ThreescaleCache.LimitCheckFacts

namespace ThreescaleCache

/-! The renewal of a window, counted in nanoseconds. -/

/-- The nominal length of a period. -/
def Period.nanos (period : Period) : Nat := period.asSecs.toNat * 10 ^ 9

theorem Period.nanos_pos (period : Period) : 0 < period.nanos := by
  cases period <;> decide

namespace UsageReport

/-- The window is over, and is one that is renewed. -/
def Expired (now : Duration) (report : UsageReport) : Prop :=
  report.periodWindow.window ≠ .eternity ∧ report.periodWindow.end < now

instance (now : Duration) (report : UsageReport) : Decidable (report.Expired now) :=
  inferInstanceAs (Decidable (_ ∧ _))

/-- The whole periods that have gone by since the window started. -/
def elapsed (now : Duration) (report : UsageReport) : Nat :=
  (now.nanos - report.periodWindow.start.nanos) / report.periodWindow.window.nanos

/-- `renewed` is `report` with its window `n` periods later and all hits left. -/
structure MovedBy (n : Nat) (report renewed : UsageReport) : Prop where
  window : renewed.periodWindow.window = report.periodWindow.window
  start : renewed.periodWindow.start.nanos =
    report.periodWindow.start.nanos + n * report.periodWindow.window.nanos
  «end» : renewed.periodWindow.end.nanos =
    report.periodWindow.end.nanos + n * report.periodWindow.window.nanos
  leftHits : renewed.leftHits = report.maxValue
  maxValue : renewed.maxValue = report.maxValue

end UsageReport

namespace Duration

theorem eq_of_nanos {a b : Duration} (same : a.nanos = b.nanos) : a = b := by
  cases a
  cases b
  cases same
  rfl

theorem checkedAdd_nanos {a b c : Duration} (sum : a.checkedAdd b = some c) : c.nanos = a.nanos + b.nanos := by
  unfold checkedAdd at sum
  split at sum
  · cases Option.some.inj sum
    rfl
  · cases sum

theorem checkedAdd_of_lt {a b : Duration} (small : a.nanos + b.nanos < 2 ^ 64 * 10 ^ 9) :
    ∃ c, a.checkedAdd b = some c :=
  ⟨_, dif_pos small⟩

theorem checkedSub_le {a b d : Duration} (difference : a.checkedSub b = some d) :
    b ≤ a ∧ d.nanos = a.nanos - b.nanos := by
  unfold checkedSub at difference
  split at difference
  · rename_i le
    cases Option.some.inj difference
    exact ⟨le, rfl⟩
  · cases difference

theorem asSecs_toNat (d : Duration) : d.asSecs.toNat = d.nanos / 10 ^ 9 := by
  have bound := d.bound
  exact UInt64.toNat_ofNat_of_lt' (by show d.nanos / 10 ^ 9 < 2 ^ 64; omega)

/-- What the loop adds to both ends of a window that is over for `d`: the product
does not overflow, being at most the whole seconds of `d`. -/
theorem wholePeriods_nanos (d : Duration) (period : Period) :
    (Duration.fromSecs (d.asSecs / period.asSecs * period.asSecs)).nanos =
      d.nanos / period.nanos * period.nanos := by
  have quotient : (d.asSecs / period.asSecs).toNat = d.nanos / period.nanos := by
    rw [UInt64.toNat_div, asSecs_toNat, Nat.div_div_eq_div_mul, Period.nanos, Nat.mul_comm]
  have small : d.nanos / period.nanos * period.asSecs.toNat < 2 ^ 64 := by
    have whole := Nat.div_mul_le_self d.asSecs.toNat period.asSecs.toNat
    have bound := d.asSecs.toNat_lt
    rw [← quotient, UInt64.toNat_div]
    omega
  have product : (d.asSecs / period.asSecs * period.asSecs).toNat =
      d.nanos / period.nanos * period.asSecs.toNat := by
    rw [UInt64.toNat_mul, quotient, Nat.mod_eq_of_lt small]
  simp only [fromSecs, product, Nat.mul_assoc]
  rfl

end Duration

namespace UsageReport
variable {report renewed : UsageReport} {now : Duration}

/-- All that a renewal can do. -/
theorem renew_inv (renews : report.renew now = some renewed) :
    (¬report.Expired now ∧ renewed = report) ∨
      (report.Expired now ∧ report.periodWindow.start ≤ now ∧
        MovedBy (report.elapsed now) report renewed) := by
  unfold renew at renews
  dsimp only at renews
  split at renews
  · rename_i expired
    obtain ⟨diff, subtracted, renews⟩ := Option.bind_eq_some_iff.mp renews
    obtain ⟨start, moved, renews⟩ := Option.bind_eq_some_iff.mp renews
    obtain ⟨stop, movedEnd, renews⟩ := Option.bind_eq_some_iff.mp renews
    obtain ⟨started, difference⟩ := Duration.checkedSub_le subtracted
    have added := Duration.wholePeriods_nanos diff report.periodWindow.window
    have elapsed : diff.nanos / report.periodWindow.window.nanos = report.elapsed now := by
      rw [difference]
      rfl
    rw [elapsed] at added
    have startAt := Duration.checkedAdd_nanos moved
    have endAt := Duration.checkedAdd_nanos movedEnd
    rw [added] at startAt endAt
    cases Option.some.inj renews
    exact Or.inr ⟨expired, started, rfl, startAt, endAt, rfl, rfl⟩
  · rename_i open_
    exact Or.inl ⟨open_, (Option.some.inj renews).symm⟩

theorem renew_of_not_expired (open_ : ¬report.Expired now) : report.renew now = some report := by
  unfold renew
  exact if_neg open_

/-- The whole periods since the start end by now. -/
theorem elapsed_mul_le (now : Duration) (report : UsageReport) :
    report.elapsed now * report.periodWindow.window.nanos ≤ now.nanos - report.periodWindow.start.nanos :=
  Nat.div_mul_le_self _ _

/-- The next one does not. -/
theorem lt_elapsed_succ_mul (now : Duration) (report : UsageReport) :
    now.nanos - report.periodWindow.start.nanos <
      report.elapsed now * report.periodWindow.window.nanos + report.periodWindow.window.nanos := by
  have quotient := Nat.lt_div_mul_add (a := now.nanos - report.periodWindow.start.nanos)
    report.periodWindow.window.nanos_pos
  exact quotient

/-- No duration overflows as long as the time is below `2^63` seconds. -/
theorem renew_some (started : report.periodWindow.start ≤ now) (early : now.nanos < 2 ^ 63 * 10 ^ 9) :
    ∃ renewed, report.renew now = some renewed := by
  by_cases expired : report.Expired now
  · obtain ⟨diff, subtracted, difference⟩ := Duration.checkedSub_of_le started
    have added := Duration.wholePeriods_nanos diff report.periodWindow.window
    have whole := Nat.div_mul_le_self diff.nanos report.periodWindow.window.nanos
    have past := expired.2
    rw [Duration.le_iff] at started
    rw [Duration.lt_iff] at past
    obtain ⟨start, moved⟩ := Duration.checkedAdd_of_lt (a := report.periodWindow.start)
      (b := .fromSecs (diff.asSecs / report.periodWindow.window.asSecs * report.periodWindow.window.asSecs))
      (by omega)
    obtain ⟨stop, movedEnd⟩ := Duration.checkedAdd_of_lt (a := report.periodWindow.end)
      (b := .fromSecs (diff.asSecs / report.periodWindow.window.asSecs * report.periodWindow.window.asSecs))
      (by omega)
    refine ⟨{ report with
      periodWindow := { report.periodWindow with start := start, «end» := stop }
      leftHits := report.maxValue }, (if_pos expired).trans ?_⟩
    refine Option.bind_eq_some_iff.mpr ⟨diff, subtracted, ?_⟩
    refine Option.bind_eq_some_iff.mpr ⟨start, moved, ?_⟩
    exact Option.bind_eq_some_iff.mpr ⟨stop, movedEnd, rfl⟩
  · exact ⟨report, renew_of_not_expired expired⟩

/-- `renewed` is `report`, with its window moved to the period of the time if it
was over. -/
def RenewedTo (now : Duration) (report renewed : UsageReport) : Prop :=
  (¬report.Expired now ∧ renewed = report) ∨
    (report.Expired now ∧ MovedBy (report.elapsed now) report renewed)

theorem MovedBy.unique {n : Nat} {other : UsageReport} (moved : MovedBy n report renewed)
    (moved' : MovedBy n report other) : renewed = other := by
  obtain ⟨⟨start, stop, window⟩, left, most⟩ := renewed
  obtain ⟨⟨start', stop', window'⟩, left', most'⟩ := other
  have begins : start = start' := Duration.eq_of_nanos (moved.start.trans moved'.start.symm)
  have ends : stop = stop' := Duration.eq_of_nanos (moved.end.trans moved'.end.symm)
  have period : window = window' := moved.window.trans moved'.window.symm
  have hits : left = left' := moved.leftHits.trans moved'.leftHits.symm
  have bound : most = most' := moved.maxValue.trans moved'.maxValue.symm
  rw [begins, ends, period, hits, bound]

/-- There is one renewal of a report at a time: the one that the loop makes. -/
theorem renewedTo_iff (renews : report.renew now = some renewed) {other : UsageReport} :
    report.RenewedTo now other ↔ other = renewed := by
  rcases renew_inv renews with ⟨current, rfl⟩ | ⟨expired, _, moved⟩
  · constructor
    · rintro (⟨_, same⟩ | ⟨expired, _⟩)
      · exact same
      · exact absurd expired current
    · intro same
      exact Or.inl ⟨current, same⟩
  · constructor
    · rintro (⟨current, _⟩ | ⟨_, moved'⟩)
      · exact absurd expired current
      · exact moved'.unique moved
    · rintro rfl
      exact Or.inr ⟨expired, moved⟩

/-- A window that is over contains the time again, once it is moved by the
whole periods that have gone by since its start. -/
def Reaches (now : Duration) (report : UsageReport) : Prop :=
  report.Expired now → now.nanos ≤
    report.periodWindow.end.nanos + report.elapsed now * report.periodWindow.window.nanos

/-- A window at least as long as its period always does. -/
theorem reaches_of_length (started : report.periodWindow.start ≤ now)
    (long : report.periodWindow.start.nanos + report.periodWindow.window.nanos ≤
      report.periodWindow.end.nanos) : report.Reaches now := by
  intro _
  have next := report.lt_elapsed_succ_mul now
  rw [Duration.le_iff] at started
  omega

/-- The renewed window of a report that has started contains the time exactly
when it reaches it. -/
theorem renew_started (started : report.periodWindow.start ≤ now)
    (always : report.periodWindow.window = .eternity → now ≤ report.periodWindow.end)
    (early : now.nanos < 2 ^ 63 * 10 ^ 9) :
    ∃ renewed, report.renew now = some renewed ∧ renewed.periodWindow.start ≤ now ∧
      (now ≤ renewed.periodWindow.end ↔ report.Reaches now) ∧ report.RenewedTo now renewed := by
  obtain ⟨renewed, renews⟩ := renew_some started early
  refine ⟨renewed, renews, ?_⟩
  rcases renew_inv renews with ⟨current, rfl⟩ | ⟨expired, _, moved⟩
  · have inside : now ≤ renewed.periodWindow.end := by
      by_cases eternal : renewed.periodWindow.window = .eternity
      · exact always eternal
      · exact Nat.not_lt.mp fun past => current ⟨eternal, past⟩
    exact ⟨started, ⟨fun _ expired => absurd expired current, fun _ => inside⟩, Or.inl ⟨current, rfl⟩⟩
  · have whole := report.elapsed_mul_le now
    have begun := moved.start
    have ended := moved.end
    simp only [Duration.le_iff] at started ⊢
    refine ⟨by omega, ⟨fun inside _ => by omega, fun reaches => ?_⟩, Or.inr ⟨expired, moved⟩⟩
    have reached := reaches expired
    omega

end UsageReport
end ThreescaleCache
