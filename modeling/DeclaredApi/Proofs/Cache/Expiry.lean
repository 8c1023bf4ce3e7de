import DeclaredApi.Cache.Entry

/-!
# `DeclaredApi.Proofs.Cache.Expiry`: when an entry is expired

`Cache.isExpiredAt` computes with times that stop at the ends of 64 bits. Three things may be
stopped: the milliseconds that an entry may be served, once as a product of two 64-bit numbers and
once as a time, and the time that has passed. `isExpiredAt_iff_lt_min` is what is left of that, for
all times: the test is a comparison of integers, in which the time that has passed counts for no
more than the greatest time. So an entry that may be served for the greatest time or longer never
expires, however long ago it was stored.

Where the time that has passed fits 64 bits, nothing is stopped that matters
(`isExpiredAt_iff_of_fits`): an entry is expired when more than `ttl * 1000` milliseconds have
passed. Two times that are not negative are never too far apart, so `isExpiredAt_iff` is the form
for a clock that starts at zero.

`isExpiredAt_of_le` says that an expired entry stays expired, and it is the reason why dropping an
expired entry when it is read can never be noticed later. `isExpiredAt_of_ttl_le` is the other
side: what expires later has a longer time to be served. Both hold for all times, stopped or not.
`Entry.isExpired_tells` puts these together.
-/

set_option autoImplicit false

namespace DeclaredApi.Cache

variable {timestamp now later : Int64} {ttl longer : UInt64}

/-- For all times, an entry is expired when the milliseconds it may be served are fewer than those
that have passed, of which no more count than the greatest time. -/
theorem isExpiredAt_iff_lt_min :
    isExpiredAt timestamp ttl now = true
      ↔ (ttl.toNat * 1000 : Int) < min (now.toInt - timestamp.toInt) greatestTime := by
  rw [isExpiredAt, decide_eq_true_iff]
  -- The product is stopped above the greatest time, where no time that has passed can get to.
  simp only [clampTime, leastTime, greatestTime]
  omega

/-- Between the ends of the range more time passes than this entry may be served, but no more of it
counts than the greatest time. -/
example : isExpiredAt Int64.minValue 18446744073709551 Int64.maxValue = false := by decide

/-- No entry is expired before more milliseconds have passed than it may be served. -/
theorem isExpiredAt_eq_false_of_le
    (hle : now.toInt - timestamp.toInt ≤ (ttl.toNat * 1000 : Int)) :
    isExpiredAt timestamp ttl now = false := by
  rw [← Bool.not_eq_true, isExpiredAt_iff_lt_min]
  have hmin := Int.min_le_left (now.toInt - timestamp.toInt) greatestTime
  omega

/-- Where the time that has passed fits 64 bits, an entry is expired when more milliseconds
have passed than it may be served. -/
theorem isExpiredAt_iff_of_fits (hfits : now.toInt - timestamp.toInt ≤ greatestTime) :
    isExpiredAt timestamp ttl now = true
      ↔ (ttl.toNat * 1000 : Int) < now.toInt - timestamp.toInt := by
  rw [isExpiredAt_iff_lt_min, Int.min_eq_left hfits]

/-- With a clock that is never negative, an entry is expired when more milliseconds have
passed than it may be served. -/
theorem isExpiredAt_iff (htime : 0 ≤ timestamp.toInt) (hnow : 0 ≤ now.toInt) :
    isExpiredAt timestamp ttl now = true
      ↔ (ttl.toNat * 1000 : Int) < now.toInt - timestamp.toInt := by
  have hlt := now.toInt_lt
  apply isExpiredAt_iff_of_fits
  simp only [greatestTime]
  omega

/-- An expired entry stays expired. -/
theorem isExpiredAt_of_le (hle : now.toInt ≤ later.toInt)
    (h : isExpiredAt timestamp ttl now = true) : isExpiredAt timestamp ttl later = true := by
  rw [isExpiredAt_iff_lt_min] at h ⊢
  omega

/-- What is expired would be so with less time to be served. -/
theorem isExpiredAt_of_ttl_le (hle : ttl.toNat ≤ longer.toNat)
    (h : isExpiredAt timestamp longer now = true) : isExpiredAt timestamp ttl now = true := by
  rw [isExpiredAt_iff_lt_min] at h ⊢
  omega

/-- What the test says of an entry, for all times. It never takes an entry for expired too early,
it is the comparison of integers where the time that has passed has 64 bits, and it only ever
changes once: towards expired as time goes on, and towards fresh as the entry may be served for
longer. -/
theorem Entry.isExpired_tells (entry : Entry) (now : Int64) :
    (now.toInt - entry.timestamp.toInt ≤ (entry.ttl.toNat * 1000 : Int) →
      entry.isExpired now = false) ∧
    (leastTime ≤ now.toInt - entry.timestamp.toInt →
      now.toInt - entry.timestamp.toInt ≤ greatestTime → entry.isExpired now
        = decide ((entry.ttl.toNat * 1000 : Int) < now.toInt - entry.timestamp.toInt)) ∧
    (∀ later, now ≤ later → entry.isExpired now = true → entry.isExpired later = true) ∧
    (∀ ttl, entry.ttl ≤ ttl → entry.isExpired now = false →
      Entry.isExpired { entry with ttl } now = false) := by
  refine ⟨isExpiredAt_eq_false_of_le, fun _ hfits => ?_, fun later hle => ?_,
    fun ttl hle hfresh => ?_⟩
  · rw [Bool.eq_iff_iff, decide_eq_true_iff]
    exact isExpiredAt_iff_of_fits hfits
  · exact isExpiredAt_of_le (Int64.le_iff_toInt_le.mp hle)
  · rw [← Bool.not_eq_true] at hfresh ⊢
    exact fun hexpired => hfresh (isExpiredAt_of_ttl_le (UInt64.le_iff_toNat_le.mp hle) hexpired)

/-- An entry stored at time zero. -/
def storedAtZero (ttl : UInt64) : Entry where
  data := .null
  timestamp := 0
  ttl

/-- At the greatest time, 9223372036854775 whole seconds have passed since time zero. An entry that
may be served for just so many is expired there. With a second more its time to be served is past
the greatest time, and it is not expired, nor is it with the longest time to be served. -/
theorem isExpired_tells_at_greatest_time :
    (storedAtZero 9223372036854775).isExpired Int64.maxValue = true ∧
      (storedAtZero 9223372036854776).isExpired Int64.maxValue = false ∧
      (storedAtZero 18446744073709551615).isExpired Int64.maxValue = false := by
  obtain ⟨-, hexact, -, -⟩ := (storedAtZero 9223372036854775).isExpired_tells Int64.maxValue
  obtain ⟨hearly, -, -, hlonger⟩ :=
    (storedAtZero 9223372036854776).isExpired_tells Int64.maxValue
  have hfresh := hearly (by decide)
  exact ⟨hexact (by decide) (by decide), hfresh, hlonger 18446744073709551615 (by decide) hfresh⟩

end DeclaredApi.Cache
