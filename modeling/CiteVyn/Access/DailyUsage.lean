import CiteVyn.Access.Quota
import CiteVyn.Text.Dates
import Mathlib.Data.List.Nodup

/-! # The usage page

`daily_usage` of `app/access/quota.py` counts the answers of this month day by day, and
`usage_for` counts them in the database. -/
namespace CiteVyn.Access.Quota
open CiteVyn.Text

/-! ## Times -/

inductive Raised where
  | keyError
  | overflowError
  | valueError
  deriving DecidableEq, Repr

/-- `datetime.min`, in UTC. -/
def firstInstant : Int := -62135596800000000

/-- `datetime.max`, in UTC. -/
def lastInstant : Int := 253402300799999999

/-- `date.max` -/
def lastDay : Int := 2932896

/-- A time that a `datetime` in UTC can hold. -/
def IsInstant (t : Int) : Prop := firstInstant ≤ t ∧ t ≤ lastInstant

instance (t : Int) : Decidable (IsInstant t) := inferInstanceAs (Decidable (_ ∧ _))

/-- `datetime`: what its clock shows, and how far that is ahead of UTC. -/
structure Datetime where
  clock : Int
  offset : Int
  deriving DecidableEq, Repr

/-- `astimezone(UTC)` -/
def Datetime.utc (t : Datetime) : Except Raised Int :=
  if IsInstant (t.clock - t.offset) then .ok (t.clock - t.offset) else .error .overflowError

/-- The time of a row as a driver gives it, with `tzinfo` or without. -/
inductive Stamp where
  | naive (clock : Int)
  | aware (t : Datetime)
  deriving DecidableEq, Repr

/-- `occurred_at if occurred_at.tzinfo else occurred_at.replace(tzinfo=UTC)` -/
def Stamp.dated : Stamp → Datetime
  | .naive clock => ⟨clock, 0⟩
  | .aware t => t

/-- The driver of a database gives back the time that a row was stored with. -/
structure Driver where
  read : Int → Stamp
  read_dated : ∀ t, (read t).dated.clock - (read t).dated.offset = t

/-- SQLite keeps no offset. -/
def sqlite : Driver := ⟨.naive, fun t => Int.sub_zero t⟩

/-! ## Days -/

/-- `DayUsage` -/
structure DayUsage where
  date : Str
  chat : Nat
  mcp : Nat
  deriving DecidableEq, Repr

/-- `day.isoformat()`, of a day since the epoch. -/
def isoDay (d : Int) : Str := isoformat (civil d).1.toNat (civil d).2.1.toNat (civil d).2.2.toNat

/-- `days[entry["date"]] = entry` -/
def put (days : List DayUsage) (entry : DayUsage) : List DayUsage :=
  if days.any fun e => e.date = entry.date then days.map fun e => if e.date = entry.date then entry else e
  else days ++ [entry]

/-- The loop that fills the days with zeros. -/
def zeroFill (today d : Int) (days : List DayUsage) : Except Raised (List DayUsage) :=
  if d ≤ today then
    -- `day += timedelta(days=1)`
    if d < lastDay then zeroFill today (d + 1) (put days ⟨isoDay d, 0, 0⟩) else .error .overflowError
  else .ok days
termination_by (today + 1 - d).toNat

/-- One more answer of a channel. -/
def DayUsage.add (entry : DayUsage) (channel : Str) : DayUsage :=
  if channel = Channel.mcp.value then { entry with mcp := entry.mcp + 1 } else { entry with chat := entry.chat + 1 }

/-- What the loop over the rows does with one of them. -/
def countRow (driver : Driver) (today : Int) (days : List DayUsage) (row : AnswerUsage) : Except Raised (List DayUsage) := do
  let stamp ← (driver.read row.occurredAt).dated.utc
  let key := isoDay (min (stamp / day) today)
  if days.any fun entry => entry.date = key then
    return days.map fun entry => if entry.date = key then entry.add row.channel else entry
  else .error .keyError

/-- `daily_usage` -/
def dailyUsage (driver : Driver) (rows : List AnswerUsage) (userId : Str) (now : Datetime) :
    Except Raised (Int × List DayUsage) := do
  let utc ← now.utc
  let start := monthStart utc
  let found := rows.filter (countedRows userId (some start))
  let today := utc / day
  let days ← zeroFill today (start / day) []
  let days ← found.foldlM (countRow driver today) days
  return (start, days)

/-- `usage_for` of the Pro tier. -/
def usageForPro (settings : Settings) (a : Addressing) (users : List User) (rows : List AnswerUsage)
    (stones : List DeletedAccount) (userId : Str) (now : Datetime) : Except Raised Usage := do
  let utc ← now.utc
  let start := civil (monthStart utc / day)
  -- `_next_month` has no year after the last one
  if start.1 = 9999 ∧ start.2.1 = 12 then .error .valueError
  else return usageFor settings .pro a users rows stones userId utc

/-- The days from one to another. -/
def daysFrom (first last : Int) : List Int := (List.range (last + 1 - first).toNat).map fun (i : Nat) => first + i

/-- The answers of the days. -/
def total (days : List DayUsage) : Nat := (days.map fun entry => entry.chat + entry.mcp).sum

/-! ## The calendar -/

/-- `yoe` of `civil`. -/
def yearOfEra (doe : Int) : Int := (doe - doe / 1460 + doe / 36524 - doe / 146096) / 365

/-- `doy` of `civil`. -/
def dayOfYear (doe : Int) : Int := doe - (365 * yearOfEra doe + yearOfEra doe / 4 - yearOfEra doe / 100)

-- by centuries, by four years, and then by years
theorem yearOfEra_eq {doe : Int} (h0 : 0 ≤ doe) (h1 : doe < 146096) :
    yearOfEra doe = 100 * (doe / 36524) + 4 * ((doe - 36500 * (doe / 36524)) / 1460) +
      ((doe - 36500 * (doe / 36524)) % 1460 - 24 * (doe / 36524) - (doe - 36500 * (doe / 36524)) / 1460) / 365 := by
  unfold yearOfEra
  have hk : doe / 36524 = 0 ∨ doe / 36524 = 1 ∨ doe / 36524 = 2 ∨ doe / 36524 = 3 := by omega
  rcases hk with hk | hk | hk | hk
  all_goals
    rw [hk]
    omega

theorem dayOfYear_range {doe : Int} (h0 : 0 ≤ doe) (h1 : doe < 146097) :
    (0 ≤ yearOfEra doe ∧ yearOfEra doe < 400) ∧ 0 ≤ dayOfYear doe ∧ dayOfYear doe ≤ 365 := by
  unfold dayOfYear
  rcases Int.lt_or_eq_of_le (show doe ≤ 146096 by omega) with h | rfl
  · have hy := yearOfEra_eq h0 h
    generalize yearOfEra doe = y at *
    obtain ⟨k, hk⟩ : ∃ k, k = doe / 36524 := ⟨_, rfl⟩
    rw [← hk] at hy
    obtain ⟨q, hq⟩ : ∃ q, q = (doe - 36500 * k) / 1460 := ⟨_, rfl⟩
    rw [← hq] at hy
    obtain ⟨z, hz⟩ : ∃ z, z = ((doe - 36500 * k) % 1460 - 24 * k - q) / 365 := ⟨_, rfl⟩
    rw [← hz] at hy
    have hcases : k = 0 ∨ k = 1 ∨ k = 2 ∨ k = 3 := by omega
    have hb : y / 4 = 25 * k + q + z / 4 := by omega
    have hc : y / 100 = k + (4 * q + z) / 100 := by omega
    rw [hb, hc]
    clear hb hc
    have hzr : z = -1 ∧ z / 4 = -1 ∨ 0 ≤ z ∧ z ≤ 3 ∧ z / 4 = 0 := by omega
    have hf : (4 * q + z) / 100 = -1 ∧ q = 0 ∧ z = -1 ∨ (4 * q + z) / 100 = 0 ∧ q ≤ 25 ∨
        (4 * q + z) / 100 = 1 ∧ q = 25 := by
      omega
    generalize (4 * q + z) / 100 = f at *
    rcases hcases with rfl | rfl | rfl | rfl
    all_goals omega
  · decide

/-- The day of a date. -/
def dayOf (date : Int × Int × Int) : Int := firstOf date.1 date.2.1 + date.2.2 - 1

/-- The date of a day of a year of an era. -/
def dateOf (era yoe doy : Int) : Int × Int × Int :=
  let mp := (5 * doy + 2) / 153
  let month := if mp < 10 then mp + 3 else mp - 9
  (yoe + era * 400 + (if month ≤ 2 then 1 else 0), month, doy - (153 * mp + 2) / 5 + 1)

theorem civil_eq_dateOf (days : Int) :
    civil days = dateOf ((days + 719468) / 146097) (yearOfEra ((days + 719468) % 146097))
      (dayOfYear ((days + 719468) % 146097)) :=
  rfl

theorem civil_ranges (days : Int) :
    (0 ≤ yearOfEra ((days + 719468) % 146097) ∧ yearOfEra ((days + 719468) % 146097) < 400) ∧
      0 ≤ dayOfYear ((days + 719468) % 146097) ∧ dayOfYear ((days + 719468) % 146097) ≤ 365 :=
  dayOfYear_range (Int.emod_nonneg _ (by decide)) (Int.emod_lt_of_pos _ (by decide))

theorem dayOf_dateOf (era : Int) {yoe doy : Int} (hyoe : 0 ≤ yoe ∧ yoe < 400) (hdoy : 0 ≤ doy ∧ doy ≤ 365) :
    dayOf (dateOf era yoe doy) = era * 146097 + yoe * 365 + yoe / 4 - yoe / 100 + doy - 719468 := by
  unfold dayOf dateOf firstOf
  dsimp only
  by_cases hlt : (5 * doy + 2) / 153 < 10
  · have hmonth : ¬(5 * doy + 2) / 153 + 3 ≤ 2 := by omega
    have hafter : (5 * doy + 2) / 153 + 3 > 2 := by omega
    have hera : (yoe + era * 400 + 0) / 400 = era := by omega
    have hyear : (yoe + era * 400 + 0) % 400 = yoe := by omega
    simp only [if_pos hlt, if_neg hmonth, if_pos hafter, hera, hyear]
    omega
  · have hmonth : (5 * doy + 2) / 153 - 9 ≤ 2 := by omega
    have hafter : ¬(5 * doy + 2) / 153 - 9 > 2 := by omega
    have hera : (yoe + era * 400 + 1 - 1) / 400 = era := by omega
    have hyear : (yoe + era * 400 + 1 - 1) % 400 = yoe := by omega
    simp only [if_neg hlt, if_pos hmonth, if_neg hafter, hera, hyear]
    omega

theorem dayOf_civil (days : Int) : dayOf (civil days) = days := by
  obtain ⟨hyoe, hdoy⟩ := civil_ranges days
  rw [civil_eq_dateOf, dayOf_dateOf _ hyoe hdoy]
  unfold dayOfYear
  omega

theorem civil_injective : Function.Injective civil := fun a b h => by rw [← dayOf_civil a, h, dayOf_civil]

theorem civil_day_le (days : Int) : (civil days).2.2 ≤ 31 := by
  have hdoy := (civil_ranges days).2
  rw [civil_eq_dateOf]
  unfold dateOf
  dsimp only
  omega

/-- From the first year on a date has no negative part. -/
theorem civil_nonneg {days : Int} (h : -719468 ≤ days) : 0 ≤ (civil days).1 ∧ 0 ≤ (civil days).2.1 ∧ 0 ≤ (civil days).2.2 := by
  obtain ⟨hyoe, hdoy⟩ := civil_ranges days
  rw [civil_eq_dateOf]
  unfold dateOf
  dsimp only
  split <;> omega

theorem isoDay_inj {d e : Int} (hd : -719468 ≤ d) (he : -719468 ≤ e) (h : isoDay d = isoDay e) : d = e := by
  obtain ⟨hyear, hmonth, hday⟩ := isoformat_inj h
  obtain ⟨hyear0, hmonth0, hday0⟩ := civil_nonneg hd
  obtain ⟨hyear1, hmonth1, hday1⟩ := civil_nonneg he
  apply civil_injective
  refine Prod.ext ?_ (Prod.ext ?_ ?_) <;> omega

/-- `month_start` is the first of the month. -/
theorem monthStart_day (now : Int) :
    monthStart now / day = firstOf (civil (now / day)).1 (civil (now / day)).2.1 := by
  have hday : dayOf (civil (now / day)) = now / day := dayOf_civil _
  rw [monthStart, Int.mul_ediv_cancel _ (by decide)]
  unfold dayOf at hday
  omega

/-! ## The days of the month -/

theorem daysFrom_cons {first last : Int} (h : first ≤ last) :
    daysFrom first last = first :: daysFrom (first + 1) last := by
  have hlength : (last + 1 - first).toNat = (last + 1 - (first + 1)).toNat + 1 := by omega
  rw [daysFrom, daysFrom, hlength, List.range_succ_eq_map, List.map_cons, List.map_map]
  congr 1
  · exact Int.add_zero first
  · refine List.map_congr_left fun i _ => ?_
    simp only [Function.comp_apply, Nat.cast_succ]
    omega

theorem daysFrom_nil {first last : Int} (h : last < first) : daysFrom first last = [] := by
  have hlength : (last + 1 - first).toNat = 0 := by omega
  rw [daysFrom, hlength, List.range_zero, List.map_nil]

theorem mem_daysFrom {first last d : Int} : d ∈ daysFrom first last ↔ first ≤ d ∧ d ≤ last := by
  constructor
  · intro h
    obtain ⟨i, hi, rfl⟩ := List.mem_map.mp h
    have := List.mem_range.mp hi
    omega
  · intro h
    exact List.mem_map.mpr ⟨(d - first).toNat, List.mem_range.mpr (by omega), by omega⟩

theorem nodup_daysFrom (first last : Int) : (daysFrom first last).Nodup :=
  List.nodup_range.map fun i j h => by
    have : first + (i : Int) = first + j := h
    omega

theorem put_new {days : List DayUsage} {entry : DayUsage} (h : ∀ e ∈ days, e.date ≠ entry.date) :
    put days entry = days ++ [entry] := by
  refine if_neg fun hany => ?_
  obtain ⟨e, he, hdate⟩ := List.any_eq_true.mp hany
  exact h e he (of_decide_eq_true hdate)

/-- The loop adds a day of zeros for each day to today. -/
theorem zeroFill_eq {today d : Int} {days : List DayUsage} (htoday : today < lastDay) (hd : -719468 ≤ d)
    (hnew : ∀ entry ∈ days, ∀ e, d ≤ e → entry.date ≠ isoDay e) :
    zeroFill today d days = .ok (days ++ (daysFrom d today).map fun e => ⟨isoDay e, 0, 0⟩) := by
  fun_induction zeroFill today d days with
  | case1 d days hle hlast ih =>
    have hput : put days ⟨isoDay d, 0, 0⟩ = days ++ [⟨isoDay d, 0, 0⟩] :=
      put_new fun entry hentry => hnew entry hentry d (Int.le_refl d)
    rw [hput] at ih ⊢
    rw [ih (by omega), daysFrom_cons hle, List.map_cons, List.append_assoc, List.singleton_append]
    intro entry hentry e he
    rcases List.mem_append.mp hentry with hold | hadded
    · exact hnew entry hold e (by omega)
    · obtain rfl := List.mem_singleton.mp hadded
      intro hsame
      have := isoDay_inj hd (by omega) hsame
      omega
  | case2 d days hle hlast => omega
  | case3 d days hgt => rw [daysFrom_nil (by omega), List.map_nil, List.append_nil]

/-- There is no day after the last. -/
theorem zeroFill_last {today d : Int} {days : List DayUsage} (htoday : lastDay ≤ today) (hd : d ≤ lastDay) :
    zeroFill today d days = .error .overflowError := by
  fun_induction zeroFill today d days with
  | case1 d days hle hlast ih => exact ih (by omega)
  | case2 d days hle hlast => rfl
  | case3 d days hgt => omega

/-! ## Counting -/

theorem add_date (entry : DayUsage) (channel : Str) : (entry.add channel).date = entry.date := by
  unfold DayUsage.add
  split <;> rfl

theorem add_answers (entry : DayUsage) (channel : Str) :
    (entry.add channel).chat + (entry.add channel).mcp = entry.chat + entry.mcp + 1 := by
  unfold DayUsage.add
  split
  · rfl
  · exact Nat.add_right_comm _ _ _

/-- One more answer on a day. -/
def bump (key channel : Str) (days : List DayUsage) : List DayUsage :=
  days.map fun entry => if entry.date = key then entry.add channel else entry

theorem bump_dates (key channel : Str) (days : List DayUsage) :
    (bump key channel days).map DayUsage.date = days.map DayUsage.date := by
  rw [bump, List.map_map]
  refine List.map_congr_left fun entry _ => ?_
  rw [Function.comp_apply]
  split
  · exact add_date entry channel
  · rfl

theorem bump_total (key channel : Str) (days : List DayUsage) :
    total (bump key channel days) = total days + (days.map DayUsage.date).count key := by
  induction days with
  | nil => rfl
  | cons entry days ih =>
    unfold total bump at *
    rw [List.map_cons, List.map_cons, List.sum_cons, ih, List.map_cons, List.sum_cons, List.map_cons, List.count_cons]
    by_cases h : entry.date = key
    · rw [if_pos h, add_answers, if_pos (beq_iff_eq.mpr h)]
      omega
    · rw [if_neg h, if_neg (mt beq_iff_eq.mp h)]
      omega

/-- A row of this month, on today at the latest, counts on one of the days. -/
theorem countRow_eq {driver : Driver} {today : Int} {days : List DayUsage} {row : AnswerUsage}
    (hrow : IsInstant row.occurredAt) (hday : isoDay (min (row.occurredAt / day) today) ∈ days.map DayUsage.date) :
    countRow driver today days row = .ok (bump (isoDay (min (row.occurredAt / day) today)) row.channel days) := by
  have hutc : (driver.read row.occurredAt).dated.utc = .ok row.occurredAt := by
    rw [Datetime.utc, driver.read_dated, if_pos hrow]
  obtain ⟨entry, hentry, hdate⟩ := List.mem_map.mp hday
  have hany : (days.any fun e => e.date = isoDay (min (row.occurredAt / day) today)) = true :=
    List.any_eq_true.mpr ⟨entry, hentry, decide_eq_true hdate⟩
  rw [countRow, hutc]
  exact if_pos hany

/-- All the rows count, each once. -/
theorem foldlM_countRow (driver : Driver) {first today : Int} {rows : List AnswerUsage} {days : List DayUsage}
    (hfirst : -719468 ≤ first) (hle : first ≤ today) (hdays : days.map DayUsage.date = (daysFrom first today).map isoDay)
    (hrows : ∀ row ∈ rows, IsInstant row.occurredAt ∧ first ≤ row.occurredAt / day) :
    ∃ days', rows.foldlM (countRow driver today) days = .ok days' ∧
      days'.map DayUsage.date = (daysFrom first today).map isoDay ∧ total days' = total days + rows.length := by
  induction rows generalizing days with
  | nil => exact ⟨days, rfl, hdays, rfl⟩
  | cons row rows ih =>
    obtain ⟨hinstant, hmonth⟩ := hrows row List.mem_cons_self
    have hmem : isoDay (min (row.occurredAt / day) today) ∈ days.map DayUsage.date := by
      rw [hdays]
      exact List.mem_map_of_mem (mem_daysFrom.mpr ⟨Int.le_min.mpr ⟨hmonth, hle⟩, Int.min_le_right _ _⟩)
    have hnodup : (days.map DayUsage.date).Nodup := by
      rw [hdays]
      refine (nodup_daysFrom first today).map_on fun d hd e he hsame => ?_
      exact isoDay_inj (Int.le_trans hfirst (mem_daysFrom.mp hd).1) (Int.le_trans hfirst (mem_daysFrom.mp he).1) hsame
    obtain ⟨days', hfold, hdates, htotal⟩ := ih
      ((bump_dates (isoDay (min (row.occurredAt / day) today)) row.channel days).trans hdays)
      fun r hr => hrows r (List.mem_cons_of_mem _ hr)
    refine ⟨days', ?_, hdates, ?_⟩
    · rw [List.foldlM_cons, countRow_eq hinstant hmem]
      exact hfold
    · rw [htotal, bump_total, List.count_eq_one_of_mem hnodup hmem, List.length_cons]
      omega

theorem total_zeros (days : List Int) : total (days.map fun d => ⟨isoDay d, 0, 0⟩) = 0 := by
  induction days with
  | nil => rfl
  | cons d days ih =>
    change 0 + total (days.map _) = 0
    rw [ih]

/-! ## The month -/

theorem usageForPro_ok {settings : Settings} {a : Addressing} {users : List User} {rows : List AnswerUsage}
    {stones : List DeletedAccount} {userId : Str} {now : Datetime} {utc : Int} (hutc : now.utc = .ok utc)
    (hbefore : utc / day < firstOf 9999 12) :
    usageForPro settings a users rows stones userId now = .ok (usageFor settings .pro a users rows stones userId utc) := by
  rw [usageForPro, hutc]
  refine if_neg fun hlast => ?_
  have hstart : dayOf (civil (monthStart utc / day)) = monthStart utc / day := dayOf_civil _
  rw [dayOf, hlast.1, hlast.2] at hstart
  have hday := civil_day_pos (monthStart utc / day)
  have hle : monthStart utc / day ≤ utc / day := Int.ediv_le_ediv (by decide) (monthStart_le utc)
  omega

/-- What Pro has used are the rows that count. -/
theorem used_of_usageForPro {settings : Settings} {a : Addressing} {users : List User} {rows : List AnswerUsage}
    {stones : List DeletedAccount} {userId : Str} {now : Datetime} {utc : Int} {usage : Usage}
    (hutc : now.utc = .ok utc) (h : usageForPro settings a users rows stones userId now = .ok usage) :
    usage.used = (rows.filter (countedRows userId (some (monthStart utc)))).length := by
  rw [usageForPro, hutc] at h
  change (if _ then _ else _) = _ at h
  split_ifs at h
  obtain rfl := Except.ok.inj h
  exact List.countP_eq_length_filter

/-- A day before the last, the page has a day for each from the first of the month to today,
and they add up to what the allowance has counted. -/
theorem dailyUsage_adds_up (settings : Settings) (a : Addressing) (driver : Driver) (users : List User)
    (rows : List AnswerUsage) (stones : List DeletedAccount) (userId : Str) {now : Datetime} {utc : Int}
    (hutc : now.utc = .ok utc) (hlast : utc / day < lastDay) (hrows : ∀ row ∈ rows, IsInstant row.occurredAt) :
    ∃ days, dailyUsage driver rows userId now = .ok (monthStart utc, days) ∧
      days.map DayUsage.date =
        (daysFrom (firstOf (civil (utc / day)).1 (civil (utc / day)).2.1) (utc / day)).map isoDay ∧
      (∀ usage, usageForPro settings a users rows stones userId now = .ok usage → total days = usage.used) ∧
      (utc / day < firstOf 9999 12 → ∃ usage, usageForPro settings a users rows stones userId now = .ok usage) := by
  have hinstant : IsInstant utc := by
    unfold Datetime.utc at hutc
    split_ifs at hutc with hin
    rwa [← Except.ok.inj hutc]
  have htoday : -719162 ≤ utc / day := by
    have := hinstant.1
    unfold firstInstant day at *
    omega
  have hfirst : -719468 ≤ monthStart utc / day ∧ monthStart utc / day ≤ utc / day := by
    have hpos := civil_day_pos (utc / day)
    have hle := civil_day_le (utc / day)
    rw [monthStart, Int.mul_ediv_cancel _ (by decide)]
    omega
  have hfill : zeroFill (utc / day) (monthStart utc / day) [] =
      .ok ((daysFrom (monthStart utc / day) (utc / day)).map fun e => ⟨isoDay e, 0, 0⟩) :=
    zeroFill_eq hlast hfirst.1 fun _ h => absurd h List.not_mem_nil
  have hdates : ((daysFrom (monthStart utc / day) (utc / day)).map fun e => (⟨isoDay e, 0, 0⟩ : DayUsage)).map
      DayUsage.date = (daysFrom (monthStart utc / day) (utc / day)).map isoDay := by
    rw [List.map_map]
    rfl
  have hfound : ∀ row ∈ rows.filter (countedRows userId (some (monthStart utc))),
      IsInstant row.occurredAt ∧ monthStart utc / day ≤ row.occurredAt / day := by
    intro row hrow
    obtain ⟨hmem, hcounted⟩ := List.mem_filter.mp hrow
    simp only [countedRows, Option.all_some, Bool.and_eq_true, decide_eq_true_eq] at hcounted
    exact ⟨hrows row hmem, Int.ediv_le_ediv (by decide) hcounted.2.1⟩
  obtain ⟨days, hcount, hdays, htotal⟩ := foldlM_countRow driver hfirst.1 hfirst.2 hdates hfound
  refine ⟨days, ?_, ?_, ?_, fun hbefore => ⟨_, usageForPro_ok hutc hbefore⟩⟩
  · rw [dailyUsage, hutc]
    change (zeroFill _ _ _ >>= _) = _
    rw [hfill]
    change ((rows.filter _).foldlM (countRow driver (utc / day)) _ >>= _) = _
    rw [hcount]
    rfl
  · rw [← monthStart_day]
    exact hdays
  · intro usage husage
    rw [htotal, total_zeros, Nat.zero_add, used_of_usageForPro hutc husage]

-- half an hour before March in UTC, and an answer of a machine whose clock is ahead
theorem dailyUsage_adds_up_february :
    ∃ days, dailyUsage sqlite [usageRow .pro [] 1709260200000000 .mcp] [] ⟨1709260200000000, 10800000000⟩ =
        .ok (monthStart 1709249400000000, days) ∧
      days.map DayUsage.date =
        (daysFrom (firstOf (civil (1709249400000000 / day)).1 (civil (1709249400000000 / day)).2.1)
          (1709249400000000 / day)).map isoDay ∧
      (∀ usage, usageForPro ⟨true, 25, 500⟩ exampleAddressing [] [usageRow .pro [] 1709260200000000 .mcp] [] []
        ⟨1709260200000000, 10800000000⟩ = .ok usage → total days = usage.used) ∧
      (1709249400000000 / day < firstOf 9999 12 →
        ∃ usage, usageForPro ⟨true, 25, 500⟩ exampleAddressing [] [usageRow .pro [] 1709260200000000 .mcp] [] []
          ⟨1709260200000000, 10800000000⟩ = .ok usage) :=
  dailyUsage_adds_up ⟨true, 25, 500⟩ exampleAddressing sqlite [] [usageRow .pro [] 1709260200000000 .mcp] [] []
    (by decide) (by decide) fun row hrow => by
      obtain rfl := List.mem_singleton.mp hrow
      decide

/-- On the last day there is no next one to go to. -/
theorem dailyUsage_lastDay : dailyUsage sqlite [] [] ⟨lastInstant, 0⟩ = .error .overflowError := by
  have hfill : zeroFill (lastInstant / day) (monthStart lastInstant / day) [] = .error .overflowError :=
    zeroFill_last (by decide) (by decide)
  change (zeroFill (lastInstant / day) (monthStart lastInstant / day) [] >>= _) = _
  rw [hfill]
  rfl

end CiteVyn.Access.Quota
