/-
**Times as texts.**

A number of seconds since 1970 as a date of the Gregorian calendar and a time of day, both in UTC,
such as `1970-01-01T00:00:01Z`. Years are counted from March, so that a leap day is the last day of its
year; a year that does not have four digits has a sign.

* `day_date`: the day of the date of a day is that day;
* `parse_print`: every time is read back.
-/

import SendRs.Library.Reader

namespace CivilTime

open Reading

/-! ### Dates -/

/-- A date of the calendar. -/
structure Date where
  year : Int
  month : Int
  day : Int

/-- The whole periods before a day, counted from 1 March of the year 0: of 400 years, of 100, of four, of
one, and the days that are left. -/
structure Periods where
  era : Int
  century : Int
  quad : Int
  year : Int
  rest : Int

/-- 400 years have 146097 days; the century at their end has a day more than the others, and so has the
year at the end of four. -/
def periods (days : Int) : Periods :=
  let inEra := days % 146097
  let century := min (inEra / 36524) 3
  let inCentury := inEra - 36524 * century
  let inQuad := inCentury % 1461
  let year := min (inQuad / 365) 3
  ⟨days / 146097, century, inCentury / 1461, year, inQuad - 365 * year⟩

/-- How long the periods are. -/
structure Periods.Counts (parts : Periods) (days : Int) : Prop where
  century : 0 ≤ parts.century ∧ parts.century ≤ 3
  quad : 0 ≤ parts.quad ∧ parts.quad ≤ 24
  year : 0 ≤ parts.year ∧ parts.year ≤ 3
  rest : 0 ≤ parts.rest ∧ parts.rest ≤ 365
  sum : days = 146097 * parts.era + 36524 * parts.century + 1461 * parts.quad + 365 * parts.year +
    parts.rest

theorem periods_counts (days : Int) : (periods days).Counts days := by
  have inEra : 0 ≤ days % 146097 ∧ days % 146097 < 146097 := by omega
  have inCentury (n : Int) (bound : 0 ≤ n ∧ n < 146097) :
      0 ≤ n - 36524 * min (n / 36524) 3 ∧ n - 36524 * min (n / 36524) 3 ≤ 36524 := by omega
  have inQuad (n : Int) (bound : 0 ≤ n ∧ n < 1461) :
      0 ≤ n - 365 * min (n / 365) 3 ∧ n - 365 * min (n / 365) 3 ≤ 365 := by omega
  have ofEra := inCentury _ inEra
  have ofQuad := inQuad ((days % 146097 - 36524 * min (days % 146097 / 36524) 3) % 1461) (by omega)
  refine ⟨?_, ?_, ?_, ofQuad, ?_⟩
  · show 0 ≤ min (days % 146097 / 36524) 3 ∧ min (days % 146097 / 36524) 3 ≤ 3
    omega
  · show 0 ≤ (days % 146097 - 36524 * min (days % 146097 / 36524) 3) / 1461 ∧ _ / 1461 ≤ 24
    omega
  · show 0 ≤ min (_ / 365) 3 ∧ min (_ / 365) 3 ≤ 3
    omega
  · unfold periods
    dsimp only
    omega

/-- The days from 1 March of the year 0 to 1 January 1970. -/
def shift : Int := 719468

/-- The date of a day since 1970. The months are counted from March; five of them have 153 days. -/
def date (days : Int) : Date :=
  let parts := periods (days + shift)
  let year := 400 * parts.era + 100 * parts.century + 4 * parts.quad + parts.year
  let month := (5 * parts.rest + 2) / 153
  let day := parts.rest - (153 * month + 2) / 5 + 1
  if month < 10 then ⟨year, month + 3, day⟩ else ⟨year + 1, month - 9, day⟩

/-- The day since 1970 of a date. -/
def day (date : Date) : Int :=
  let year := if date.month ≤ 2 then date.year - 1 else date.year
  let month := if date.month ≤ 2 then date.month + 9 else date.month - 3
  365 * year + year / 4 - year / 100 + year / 400 + (153 * month + 2) / 5 + date.day - 1 - shift

theorem day_date (days : Int) : day (date days) = days := by
  have counts := periods_counts (days + shift)
  generalize isParts : periods (days + shift) = parts at counts
  obtain ⟨era, century, quad, year, rest⟩ := parts
  obtain ⟨inEra, inCentury, inQuad, inYear, sum⟩ := counts
  dsimp only at inEra inCentury inQuad inYear sum
  have fours : (400 * era + 100 * century + 4 * quad + year) / 4 = 100 * era + 25 * century + quad := by
    omega
  have hundreds : (400 * era + 100 * century + 4 * quad + year) / 100 = 4 * era + century := by omega
  have eras : (400 * era + 100 * century + 4 * quad + year) / 400 = era := by omega
  have first : 0 ≤ (5 * rest + 2) / 153 ∧ (5 * rest + 2) / 153 ≤ 11 := by omega
  unfold date day
  rw [isParts]
  dsimp only
  split
  · next early =>
    have isMonth : ¬ (5 * rest + 2) / 153 + 3 ≤ 2 := by omega
    dsimp only
    rw [if_neg isMonth, if_neg isMonth, fours, hundreds, eras]
    omega
  · next late =>
    have isMonth : (5 * rest + 2) / 153 - 9 ≤ 2 := by omega
    dsimp only
    rw [if_pos isMonth, if_pos isMonth, Int.add_sub_cancel, fours, hundreds, eras]
    omega

theorem date_nonneg (days : Int) : 0 ≤ (date days).month ∧ 0 ≤ (date days).day := by
  obtain ⟨low, high⟩ := (periods_counts (days + shift)).rest
  unfold date
  dsimp only
  split
  · constructor
    all_goals dsimp only; omega
  · constructor
    all_goals dsimp only; omega

/-! ### Years -/

/-- The text of a year. -/
def printYear (year : Int) : List Char :=
  if 0 ≤ year ∧ year < 10000 then padded 4 year.toNat
  else if 0 ≤ year then '+' :: padded 4 year.toNat
  else '-' :: padded 4 (-year).toNat

/-- A number without a sign, as an integer. -/
def magnitude : Reader Int := do
  let n ← digits
  pure n

def readYear : Reader Int
  | '-' :: rest => (Neg.neg <$> magnitude) rest
  | '+' :: rest => magnitude rest
  | text => magnitude text

theorem magnitude_padded {year : Int} (nonneg : 0 ≤ year) {rest : List Char} (stops : Stops rest) :
    magnitude (padded 4 year.toNat ++ rest) = some (year, rest) := by
  rw [magnitude, bind_of_reads (digits_padded 4 _ stops), Int.toNat_of_nonneg nonneg]
  rfl

theorem readYear_printYear (year : Int) {rest : List Char} (stops : Stops rest) :
    readYear (printYear year ++ rest) = some (year, rest) := by
  unfold printYear
  split
  · next plain =>
    have back := magnitude_padded plain.1 stops
    obtain ⟨c, tail, split, isDigit⟩ := padded_cons 4 year.toNat
    have noSign {d : Char} (noDigit : d.isDigit = false) {text : List Char}
        (same : c :: (tail ++ rest) = d :: text) : False :=
      ne_of_isDigit isDigit noDigit (List.cons.inj same).1
    rw [split, List.cons_append] at back ⊢
    rw [readYear, back]
    · exact fun _ => noSign (by decide)
    · exact fun _ => noSign (by decide)
  · split
    · next positive => exact magnitude_padded positive stops
    · next negative =>
      rw [List.cons_append, readYear, map_eq_pure_bind,
        bind_of_reads (magnitude_padded (by omega) stops), Int.neg_neg]
      rfl

/-! ### Times -/

/-- What stands behind the seconds: a fraction of nine digits, if there is one, and the zone. -/
def printFraction (nanos : Nat) : List Char :=
  if nanos = 0 then ['Z'] else '.' :: (padded 9 nanos ++ ['Z'])

/-- A number and the character behind it. -/
def field (mark : Char) : Reader Nat := do
  let n ← digits
  exactly [mark]
  pure n

def readFraction : Reader Nat
  | '.' :: rest => field 'Z' rest
  | 'Z' :: rest => some (0, rest)
  | _ => none

theorem field_padded {mark : Char} (noDigit : mark.isDigit = false) (width n : Nat) (rest : List Char) :
    field mark (padded width n ++ mark :: rest) = some (n, rest) := by
  rw [field, bind_of_reads (digits_padded width n (stops_cons noDigit rest)),
    bind_of_reads (exactly_cons mark rest)]
  rfl

theorem readFraction_printFraction (nanos : Nat) :
    readFraction (printFraction nanos) = some (nanos, []) := by
  unfold printFraction
  split
  · next none => rw [readFraction, none]
  · rw [readFraction]
    exact field_padded (by decide) 9 nanos []

theorem stops_printFraction (nanos : Nat) : Stops (printFraction nanos) := by
  unfold printFraction
  split
  · exact stops_cons (by decide) _
  · exact stops_cons (by decide) _

/-- The text of a time, of seconds since 1970 and nanoseconds. -/
def print (seconds : Int) (nanos : Nat) : List Char :=
  let day := date (seconds / 86400)
  let time := (seconds % 86400).toNat
  printYear day.year ++ '-' :: (padded 2 day.month.toNat ++ '-' :: (padded 2 day.day.toNat ++
    'T' :: (padded 2 (time / 3600) ++ ':' :: (padded 2 (time / 60 % 60) ++
      ':' :: (padded 2 (time % 60) ++ printFraction nanos)))))

def parse : Reader (Int × Nat) := do
  let year ← readYear
  exactly ['-']
  let month ← field '-'
  let dayOfMonth ← field 'T'
  let hours ← field ':'
  let minutes ← field ':'
  let seconds ← digits
  let nanos ← readFraction
  pure (86400 * day ⟨year, month, dayOfMonth⟩ + (3600 * hours + 60 * minutes + seconds : Nat), nanos)

/-- **Every time is read back.** -/
theorem parse_print (seconds : Int) (nanos : Nat) :
    parse (print seconds nanos) = some ((seconds, nanos), []) := by
  have isDay := day_date (seconds / 86400)
  obtain ⟨month, dayOfMonth⟩ := date_nonneg (seconds / 86400)
  unfold print parse
  generalize date (seconds / 86400) = date at isDay month dayOfMonth
  generalize isTime : (seconds % 86400).toNat = time
  dsimp only
  rw [bind_of_reads (readYear_printYear _ (stops_cons (by decide) _)),
    bind_of_reads (exactly_cons _ _), bind_of_reads (field_padded (by decide) _ _ _),
    bind_of_reads (field_padded (by decide) _ _ _), bind_of_reads (field_padded (by decide) _ _ _),
    bind_of_reads (field_padded (by decide) _ _ _),
    bind_of_reads (digits_padded _ _ (stops_printFraction nanos)),
    bind_of_reads (readFraction_printFraction nanos), Int.toNat_of_nonneg month,
    Int.toNat_of_nonneg dayOfMonth, isDay]
  have sum : 86400 * (seconds / 86400) +
      ((3600 * (time / 3600) + 60 * (time / 60 % 60) + time % 60 : Nat) : Int) = seconds := by omega
  rw [sum]
  rfl

end CivilTime
