import Mathlib.Algebra.Ring.Int.Defs
import Mathlib.Algebra.Ring.Nat

/-!
# Dates

A date as the three numbers the functions of `db_date.c` pass around, compared with the Gregorian
calendar as one step from a day to the next, and the shift of a DATETIME by milliseconds.
-/

namespace Rye.Compat

open Function

structure YearDate where
  day : Int
  month : Int
  year : Int
deriving DecidableEq, Repr

def isLeapYear (year : Int) : Bool :=
  year.tmod 400 == 0 || (year.tmod 100 != 0 && year.tmod 4 == 0)

def daysInMonth (year month : Int) : Int :=
  if month = 2 then if 4 ∣ year ∧ (100 ∣ year -> 400 ∣ year) then 29 else 28
  else if month = 4 ∨ month = 6 ∨ month = 9 ∨ month = 11 then 30 else 31

structure YearDate.Valid (s : YearDate) : Prop where
  month : 1 <= s.month ∧ s.month <= 12
  day : 1 <= s.day ∧ s.day <= daysInMonth s.year s.month

instance (s : YearDate) : Decidable s.Valid :=
  decidable_of_iff ((1 <= s.month ∧ s.month <= 12) ∧
    1 <= s.day ∧ s.day <= daysInMonth s.year s.month) ⟨fun h => ⟨h.1, h.2⟩, fun h => ⟨h.1, h.2⟩⟩

def YearDate.nextDay (s : YearDate) : YearDate :=
  if s.day < daysInMonth s.year s.month then { s with day := s.day + 1 }
  else if s.month < 12 then ⟨1, s.month + 1, s.year⟩
  else ⟨1, 1, s.year + 1⟩

theorem isLeapYear_iff (year : Int) :
    isLeapYear year = true <-> 4 ∣ year ∧ (100 ∣ year -> 400 ∣ year) := by
  simp only [isLeapYear, Bool.or_eq_true, Bool.and_eq_true, beq_iff_eq, bne_iff_ne, ne_eq,
    ← Int.dvd_iff_tmod_eq_zero]
  omega

theorem month_cases {month : Int} (h : 1 <= month ∧ month <= 12) :
    month = 1 ∨ month = 2 ∨ month = 3 ∨ month = 4 ∨ month = 5 ∨ month = 6 ∨ month = 7 ∨
      month = 8 ∨ month = 9 ∨ month = 10 ∨ month = 11 ∨ month = 12 := by
  omega

theorem daysInMonth_range (year month : Int) :
    28 <= daysInMonth year month ∧ daysInMonth year month <= 31 := by
  unfold daysInMonth
  split_ifs <;> omega

/-!
## Adding weeks and days
-/

/-- The local table of the function, whose entry for February follows the year. -/
def daysMonths (feb : Int) (month : Int) : Int :=
  [0, 31, feb, 31, 30, 31, 30, 31, 31, 30, 31, 30, 31].getD month.toNat 0

def febDays (year : Int) : Int :=
  if isLeapYear year then 29 else 28

def addDays (feb : Int) (s : YearDate) (days : Int) : YearDate :=
  let d := s.day + days
  if d > daysMonths feb s.month then
    if s.month + 1 > 12 then ⟨d - daysMonths feb s.month, 1, s.year + 1⟩
    else ⟨d - daysMonths feb s.month, s.month + 1, s.year⟩
  else ⟨d, s.month, s.year⟩

/-- One round of the loop over the weeks: the table changes where the year does. -/
def addWeek (state : YearDate × Int) : YearDate × Int :=
  let s := addDays state.2 state.1 7
  (s, if s.year = state.1.year then state.2 else febDays s.year)

inductive DateError where
  | noError
  | failed
deriving DecidableEq, Repr

/-- The error code and the date the caller holds after the call. -/
def dbAddWeeksAndDaysToDate (date : YearDate) (weeks dayWeek : Int) : DateError × YearDate :=
  if date.year < 0 ∨ date.year > 9999 then (.failed, date)
  else if date.month < 1 ∨ date.month > 12 then (.failed, date)
  else if date.day < 0 ∨ date.day > daysMonths (febDays date.year) date.month then (.failed, date)
  else if weeks < 0 then (.failed, date)
  else if dayWeek < 0 ∨ dayWeek > 6 then (.failed, date)
  else
    let state := addWeek^[weeks.toNat] (date, febDays date.year)
    let s := addDays state.2 state.1 dayWeek
    if s.year < 0 ∨ s.year > 9999 then (.failed, date) else (.noError, s)

theorem daysMonths_febDays {year month : Int} (hmonth : 1 <= month ∧ month <= 12) :
    daysMonths (febDays year) month = daysInMonth year month := by
  unfold daysInMonth
  rw [if_congr (isLeapYear_iff year).symm rfl rfl]
  rcases month_cases hmonth with
    rfl | rfl | rfl | rfl | rfl | rfl | rfl | rfl | rfl | rfl | rfl | rfl <;> rfl

variable {s : YearDate}

theorem YearDate.Valid.nextDay (h : s.Valid) : s.nextDay.Valid := by
  obtain ⟨hmonth, hday⟩ := h
  have hnext := daysInMonth_range s.year (s.month + 1)
  have hyear := daysInMonth_range (s.year + 1) 1
  unfold YearDate.nextDay
  split_ifs <;> constructor <;> dsimp only <;> omega

theorem YearDate.Valid.iterate (h : s.Valid) (n : Nat) : (YearDate.nextDay^[n] s).Valid :=
  Iterate.rec YearDate.Valid h (fun _ hs => hs.nextDay) n

/-- At most one month ends within a week, so one carry is enough. -/
theorem addDays_eq_iterate (h : s.Valid) {k : Nat} (hk : k <= 7) :
    addDays (febDays s.year) s k = YearDate.nextDay^[k] s := by
  have hmonth := h.month
  have hday := h.day
  induction k with
  | zero =>
      rw [addDays, daysMonths_febDays hmonth, if_neg (by omega)]
      simp
  | succ k ih =>
      have hnext := daysInMonth_range s.year (s.month + 1)
      have hyear := daysInMonth_range (s.year + 1) 1
      rw [iterate_succ_apply', ← ih (by omega)]
      simp only [addDays, daysMonths_febDays hmonth, YearDate.nextDay]
      push_cast
      split_ifs <;> dsimp only at * <;> first | (exfalso; omega) | (congr 1; omega)

theorem addWeek_iterate (h : s.Valid) (n : Nat) :
    addWeek^[n] (s, febDays s.year) =
      (YearDate.nextDay^[7 * n] s, febDays (YearDate.nextDay^[7 * n] s).year) := by
  induction n with
  | zero => rfl
  | succ n ih =>
      have hweek := addDays_eq_iterate (h.iterate (7 * n)) (Nat.le_refl 7)
      rw [← iterate_add_apply, Nat.add_comm, Nat.cast_ofNat] at hweek
      rw [iterate_succ_apply', ih, addWeek]
      simp only [hweek, Nat.mul_succ]
      split
      · next heq => rw [heq]
      · rfl

theorem dbAddWeeksAndDaysToDate_exact (date : YearDate) (weeks dayWeek : Int) :
    (date.Valid -> 0 <= date.year ∧ date.year <= 9999 -> 0 <= weeks ->
      0 <= dayWeek ∧ dayWeek <= 6 ->
      let later := YearDate.nextDay^[(7 * weeks + dayWeek).toNat] date
      dbAddWeeksAndDaysToDate date weeks dayWeek =
        if 0 <= later.year ∧ later.year <= 9999 then (.noError, later) else (.failed, date)) ∧
    ((dbAddWeeksAndDaysToDate date weeks dayWeek).1 = .failed ->
      (dbAddWeeksAndDaysToDate date weeks dayWeek).2 = date) := by
  constructor
  · intro hvalid hyear hweeks hdays
    obtain ⟨hmonth, hday⟩ := id hvalid
    have hsum : (7 * weeks + dayWeek).toNat = dayWeek.toNat + 7 * weeks.toNat := by omega
    have hlast := addDays_eq_iterate (hvalid.iterate (7 * weeks.toNat)) (k := dayWeek.toNat)
      (by omega)
    rw [Int.toNat_of_nonneg hdays.1, ← iterate_add_apply, ← hsum] at hlast
    rw [dbAddWeeksAndDaysToDate, if_neg (by omega), if_neg (by omega),
      if_neg (by rw [daysMonths_febDays hmonth]; omega), if_neg (by omega), if_neg (by omega),
      addWeek_iterate hvalid]
    simp only [hlast]
    generalize YearDate.nextDay^[(7 * weeks + dayWeek).toNat] date = later
    by_cases hlater : 0 <= later.year ∧ later.year <= 9999
    · rw [if_pos hlater, if_neg (by omega)]
    · rw [if_neg hlater, if_pos (by omega)]
  · unfold dbAddWeeksAndDaysToDate
    dsimp only
    split_ifs <;> simp

theorem dbAddWeeksAndDaysToDate_exact_leap :
    dbAddWeeksAndDaysToDate ⟨25, 2, 2020⟩ 1 0 = (.noError, ⟨3, 3, 2020⟩) :=
  ((dbAddWeeksAndDaysToDate_exact ⟨25, 2, 2020⟩ 1 0).1 (by decide) (by decide) (by decide)
    (by decide)).trans (by decide)

/-!
## Shifting a DATETIME

The day number and the milliseconds of the day are joined into one signed 64-bit number.
-/

structure DbDatetime where
  date : Int
  time : Int
deriving DecidableEq, Repr

def millisecondsOfOneDay : Int := 86400000
def dbDateMin : Int := 1721424
def dbDateMax : Int := 5373484
def dbBigintMin : Int := -2 ^ 63

/-- What a signed 64-bit addition or subtraction leaves of its result. -/
def dbBigint (x : Int) : Int :=
  x.bmod (2 ^ 64)

def orCheckAddOverflow (a b c : Int) : Bool :=
  (a > 0 && b > 0 && c < 0) || (a < 0 && b < 0 && c >= 0)

def orCheckSubUnderflow (a b c : Int) : Bool :=
  (a < b && c > 0) || (a > b && c < 0)

def orCheckIntOverflow (i : Int) : Bool :=
  i > 2 ^ 31 - 1 || i < -2 ^ 31

def DbDatetime.milliseconds (dt : DbDatetime) : Int :=
  dt.date * millisecondsOfOneDay + dt.time

/-- The end of both functions; every error is `ER_QPROC_TIME_UNDERFLOW`. -/
def datetimeOfBigint (resultBi : Int) : Option DbDatetime :=
  let tmpBi := resultBi.tdiv millisecondsOfOneDay
  if orCheckIntOverflow tmpBi || tmpBi > dbDateMax || tmpBi < dbDateMin then none
  else some ⟨tmpBi, resultBi.tmod millisecondsOfOneDay⟩

/-- `db_add_int_to_datetime` for a number that is not negative. -/
def addMilliseconds (dt : DbDatetime) (bi2 : Int) : Option DbDatetime :=
  let resultBi := dbBigint (dt.milliseconds + bi2)
  if orCheckAddOverflow dt.milliseconds bi2 resultBi then none else datetimeOfBigint resultBi

/-- `db_subtract_int_from_datetime` for a number that is not negative. -/
def subtractMilliseconds (dt : DbDatetime) (bi2 : Int) : Option DbDatetime :=
  let resultBi := dbBigint (dt.milliseconds - bi2)
  if orCheckSubUnderflow dt.milliseconds bi2 resultBi then none else datetimeOfBigint resultBi

def dbSubtractIntFromDatetime (dt : DbDatetime) (bi2 : Int) : Option DbDatetime :=
  if bi2 < 0 then if bi2 = dbBigintMin then none else addMilliseconds dt (-bi2)
  else subtractMilliseconds dt bi2

def dbAddIntToDatetime (dt : DbDatetime) (bi2 : Int) : Option DbDatetime :=
  if bi2 < 0 then if bi2 = dbBigintMin then none else subtractMilliseconds dt (-bi2)
  else addMilliseconds dt bi2

structure DbDatetime.Valid (dt : DbDatetime) : Prop where
  date : dbDateMin <= dt.date ∧ dt.date <= dbDateMax
  time : 0 <= dt.time ∧ dt.time < millisecondsOfOneDay

def SupportedInstant (ms : Int) : Prop :=
  dbDateMin * millisecondsOfOneDay <= ms ∧ ms < (dbDateMax + 1) * millisecondsOfOneDay

variable {dt : DbDatetime} {n : Int}

theorem supportedInstant_iff :
    SupportedInstant n <-> 148731033600000 <= n ∧ n < 464269104000000 := by
  simp only [SupportedInstant, dbDateMin, dbDateMax, millisecondsOfOneDay]
  omega

theorem DbDatetime.valid_iff :
    dt.Valid <-> (1721424 <= dt.date ∧ dt.date <= 5373484) ∧ 0 <= dt.time ∧ dt.time < 86400000 :=
  ⟨fun h => ⟨h.date, h.time⟩, fun h => ⟨h.1, h.2⟩⟩

theorem DbDatetime.milliseconds_eq : dt.milliseconds = dt.date * 86400000 + dt.time :=
  rfl

open DbDatetime

theorem DbDatetime.Valid.bounds (h : dt.Valid) :
    148731033600000 <= dt.milliseconds ∧ dt.milliseconds < 464269104000000 := by
  rw [valid_iff] at h
  rw [milliseconds_eq]
  omega

theorem supportedInstant_iff_exists :
    SupportedInstant n <-> exists dt : DbDatetime, dt.Valid ∧ dt.milliseconds = n := by
  rw [supportedInstant_iff]
  refine ⟨fun h => ⟨⟨n / 86400000, n % 86400000⟩, ?_⟩, fun ⟨_, h, hn⟩ => hn ▸ h.bounds⟩
  rw [valid_iff, milliseconds_eq]
  dsimp only
  omega

theorem datetimeOfBigint_eq_some_iff :
    datetimeOfBigint n = some dt <-> dt.Valid ∧ dt.milliseconds = n := by
  have hsum := Int.mul_tdiv_add_tmod n 86400000
  have hlow := Int.lt_tmod_of_pos n (show (0 : Int) < 86400000 by decide)
  have hhigh := Int.tmod_lt_of_pos n (show (0 : Int) < 86400000 by decide)
  have hsign : 0 <= n -> 0 <= n.tmod 86400000 := Int.tmod_nonneg 86400000
  obtain ⟨date, time⟩ := dt
  rw [valid_iff, milliseconds_eq, datetimeOfBigint]
  split_ifs with h
  all_goals
    simp only [orCheckIntOverflow, Bool.or_eq_true, decide_eq_true_eq] at h
    simp only [millisecondsOfOneDay, dbDateMin, dbDateMax] at h
  · simp only [false_iff]
    omega
  · simp only [Option.some.injEq, mk.injEq, millisecondsOfOneDay]
    omega

theorem datetimeOfBigint_eq_none (h : n < 148731033600000 ∨ 464269104000000 <= n) :
    datetimeOfBigint n = none := by
  refine Option.eq_none_iff_forall_ne_some.mpr fun dt hdt => ?_
  obtain ⟨hvalid, hn⟩ := datetimeOfBigint_eq_some_iff.mp hdt
  have := hvalid.bounds
  omega

theorem dbBigint_eq (h : -2 ^ 63 <= n ∧ n < 2 ^ 64) :
    dbBigint n = if n < 2 ^ 63 then n else n - 2 ^ 64 := by
  rw [dbBigint, Int.bmod_def]
  split_ifs <;> omega

section

variable (h : dt.Valid) (hn : -2 ^ 63 <= n ∧ n < 2 ^ 63)
include h hn

theorem addMilliseconds_eq (h0 : 0 <= n) :
    addMilliseconds dt n = datetimeOfBigint (dt.milliseconds + n) := by
  have hms := h.bounds
  rw [addMilliseconds, orCheckAddOverflow, dbBigint_eq (by omega)]
  by_cases hover : dt.milliseconds + n < 2 ^ 63
  · rw [if_pos hover, if_neg (by simp; omega)]
  · rw [if_neg hover, if_pos (by simp; omega), datetimeOfBigint_eq_none (by omega)]

theorem subtractMilliseconds_eq (h0 : 0 <= n) :
    subtractMilliseconds dt n = datetimeOfBigint (dt.milliseconds - n) := by
  have hms := h.bounds
  rw [subtractMilliseconds, orCheckSubUnderflow, dbBigint_eq (by omega),
    if_pos (show dt.milliseconds - n < 2 ^ 63 by omega), if_neg (by simp; omega)]

theorem dbShiftDatetime_eq :
    dbAddIntToDatetime dt n = datetimeOfBigint (dt.milliseconds + n) ∧
      dbSubtractIntFromDatetime dt n = datetimeOfBigint (dt.milliseconds - n) := by
  have hms := h.bounds
  unfold dbAddIntToDatetime dbSubtractIntFromDatetime dbBigintMin
  split_ifs with hneg hmin
  · rw [datetimeOfBigint_eq_none (by omega), datetimeOfBigint_eq_none (by omega)]
    exact ⟨rfl, rfl⟩
  · have hneg : -2 ^ 63 <= -n ∧ -n < 2 ^ 63 := by omega
    rw [subtractMilliseconds_eq h hneg (by omega), Int.sub_neg]
    exact ⟨rfl, addMilliseconds_eq h hneg (by omega)⟩
  · exact ⟨addMilliseconds_eq h hn (by omega), subtractMilliseconds_eq h hn (by omega)⟩

end

/-- The sum leaves the 64 bits only at instants that are not supported, and is then refused. -/
theorem dbAddIntToDatetime_exact (dt : DbDatetime) (h : dt.Valid) (n : Int)
    (hn : -2 ^ 63 <= n ∧ n < 2 ^ 63) :
    ((dbAddIntToDatetime dt n).isSome = true <-> SupportedInstant (dt.milliseconds + n)) ∧
    (forall res, dbAddIntToDatetime dt n = some res ->
      (res.Valid ∧ res.milliseconds = dt.milliseconds + n) ∧
        dbSubtractIntFromDatetime res n = some dt) ∧
    (dbBigint (dt.milliseconds + n) ≠ dt.milliseconds + n <-> 2 ^ 63 <= dt.milliseconds + n) := by
  have hms := h.bounds
  rw [(dbShiftDatetime_eq h hn).1, Option.isSome_iff_exists, supportedInstant_iff_exists,
    dbBigint_eq (by omega)]
  refine ⟨exists_congr fun _ => datetimeOfBigint_eq_some_iff, fun res hres => ?_, ?_⟩
  · have hexact := datetimeOfBigint_eq_some_iff.mp hres
    refine ⟨hexact, ?_⟩
    rw [(dbShiftDatetime_eq hexact.1 hn).2, hexact.2, Int.add_sub_cancel]
    exact datetimeOfBigint_eq_some_iff.mpr ⟨h, rfl⟩
  · split_ifs <;> omega

theorem dbAddIntToDatetime_exact_midnight :
    (dbAddIntToDatetime ⟨dbDateMin, 0⟩ (-1)).isSome = true <->
      SupportedInstant (dbDateMin * millisecondsOfOneDay - 1) :=
  (dbAddIntToDatetime_exact ⟨dbDateMin, 0⟩ ⟨by decide, by decide⟩ (-1) (by decide)).1

theorem dbBigint_overflows :
    (⟨dbDateMin, 0⟩ : DbDatetime).Valid ∧
      dbBigint ((⟨dbDateMin, 0⟩ : DbDatetime).milliseconds + (2 ^ 63 - 1)) ≠
        (⟨dbDateMin, 0⟩ : DbDatetime).milliseconds + (2 ^ 63 - 1) :=
  ⟨⟨by decide, by decide⟩, by decide⟩

end Rye.Compat
