import FreshDocs.Time.Calendar
import Mathlib.Tactic.IntervalCases

/-! Every day has a date, and is the day of that date. -/

namespace FreshDocs.Calendar

/-- A day of an era lies in one of its four centuries, in one of the 25 spans of four years of that century and in one of
the four years of that span. The last year of a span is a leap year unless it ends one of the first three centuries. -/
theorem exists_year {day : Nat} (within : day < 146097) : ∃ century span year rest : Nat,
    century ≤ 3 ∧ span ≤ 24 ∧ year ≤ 3 ∧ day = 36524 * century + 1461 * span + 365 * year + rest ∧ rest ≤ 365 ∧
      (rest = 365 → year = 3 ∧ (span = 24 → century = 3)) := by
  obtain ⟨century, inCentury, first, low, high⟩ : ∃ century inCentury, day = 36524 * century + inCentury ∧ century ≤ 3 ∧
      inCentury ≤ 36524 ∧ (inCentury = 36524 → century = 3) :=
    ⟨min (day / 36524) 3, day - 36524 * min (day / 36524) 3, by omega, by omega, by omega, by omega⟩
  obtain ⟨span, inSpan, second, narrow, most⟩ : ∃ span inSpan, inCentury = 1461 * span + inSpan ∧ span ≤ 24 ∧ inSpan ≤ 1460 :=
    ⟨inCentury / 1461, inCentury % 1461, by omega, by omega, by omega⟩
  obtain ⟨year, rest, third, few, short, last⟩ : ∃ year rest, inSpan = 365 * year + rest ∧ year ≤ 3 ∧ rest ≤ 365 ∧
      (rest = 365 → year = 3) :=
    ⟨min (inSpan / 365) 3, inSpan - 365 * min (inSpan / 365) 3, by omega, by omega, by omega, by omega⟩
  exact ⟨century, span, year, rest, low, narrow, few, by omega, short, fun full => ⟨last full, by omega⟩⟩

/-- A century has 36524 days, and the last one of an era one more. -/
theorem div_century {century part : Nat} (low : century ≤ 3) (within : part ≤ 36524) (last : part = 36524 → century = 3) :
    (36524 * century + part) / 36524 = century + (36524 * century + part) / 146096 := by
  by_cases full : part = 36524
  · rw [last full, full]
  · omega

private theorem yearOfEra_eq {century span year rest : Nat} (low : century ≤ 3) (narrow : span ≤ 24) (few : year ≤ 3)
    (short : rest ≤ 365) (last : rest = 365 → year = 3 ∧ (span = 24 → century = 3)) :
    let day := 36524 * century + 1461 * span + 365 * year + rest
    (day - day / 1460 + day / 36524 - day / 146096) / 365 = 100 * century + 4 * span + year := by
  intro day
  have centuries : day / 36524 = century + day / 146096 := by
    have split : day = 36524 * century + (1461 * span + 365 * year + rest) := by omega
    rw [split]
    exact div_century low (by omega) (by omega)
  have spans : day / 1460 = 25 * century + span + (24 * century + span + 365 * year + rest) / 1460 := by omega
  have single : (24 * century + span + 365 * year + rest) / 1460 ≤ 1 := by omega
  have room : 365 = rest → 1 ≤ (24 * century + span + 365 * year + rest) / 1460 := by omega
  have needed : 1 ≤ (24 * century + span + 365 * year + rest) / 1460 → 1 ≤ rest := by omega
  rw [centuries, spans]
  generalize (24 * century + span + 365 * year + rest) / 1460 = more at *
  clear spans centuries
  omega

/-- A month after March that a day of a year lies in, where the year starts in March. -/
structure InMonth (rest shifted : Nat) : Prop where
  last : shifted ≤ 11
  begun : (153 * shifted + 2) / 5 ≤ rest
  running : rest < (153 * (shifted + 1) + 2) / 5

private theorem inMonth {rest : Nat} (short : rest ≤ 365) : InMonth rest ((5 * rest + 2) / 153) :=
  ⟨by omega, by omega, by omega⟩

def monthNumber (shifted : Nat) : Nat :=
  if shifted < 10 then shifted + 3 else shifted - 9

private theorem monthNumber_le_two {shifted : Nat} (last : shifted ≤ 11) : monthNumber shifted ≤ 2 ↔ 10 ≤ shifted := by
  unfold monthNumber
  split <;> omega

/-- Where a day lies: in a year that is counted from March, so many days after the first of it. -/
structure Located (days : Int) (year : Int) (rest : Nat) : Prop where
  short : rest ≤ 365
  leap : rest = 365 → isLeap (year + 1) = true
  count : days + 719468 = 365 * year + year / 4 - year / 100 + year / 400 + rest
  date : ofDays days =
    let shifted := (5 * rest + 2) / 153
    let month := monthNumber shifted
    { year := year + (if month ≤ 2 then 1 else 0), month, day := rest - (153 * shifted + 2) / 5 + 1 }

private theorem exists_located (days : Int) : ∃ year rest, Located days year rest := by
  obtain ⟨century, span, year, rest, low, narrow, few, split, short, last⟩ :=
    @exists_year ((days + 719468) % 146097).toNat (by omega)
  have count : days + 719468 = 146097 * ((days + 719468) / 146097) +
      (36524 * century + 1461 * span + 365 * year + rest : Nat) := by omega
  refine ⟨(100 * century + 4 * span + year : Nat) + (days + 719468) / 146097 * 400, rest, short, ?_, ?_, ?_⟩
  · intro full
    obtain ⟨rfl, ends⟩ := last full
    simp only [isLeap, Bool.and_eq_true, Bool.or_eq_true, decide_eq_true_eq]
    omega
  · generalize (days + 719468) / 146097 = era at count ⊢
    have quads : ((100 * century + 4 * span + year : Nat) + era * 400) / 4 = 25 * century + span + 100 * era := by omega
    have centuries : ((100 * century + 4 * span + year : Nat) + era * 400) / 100 = century + 4 * era := by omega
    have eras : ((100 * century + 4 * span + year : Nat) + era * 400) / 400 = era := by omega
    rw [count, quads, centuries, eras]
    clear count split last
    omega
  · have ofEra := yearOfEra_eq low narrow few short last
    have quads : (100 * century + 4 * span + year) / 4 = 25 * century + span := by omega
    have centuries : (100 * century + 4 * span + year) / 100 = century := by omega
    have ofYear : 36524 * century + 1461 * span + 365 * year + rest -
        (365 * (100 * century + 4 * span + year) + (25 * century + span) - century) = rest := by omega
    simp only [ofDays, split, ofEra, quads, centuries, ofYear, monthNumber]
    rfl

theorem toDays_ofDays (days : Int) : toDays (ofDays days) = days := by
  obtain ⟨year, rest, located⟩ := exists_located days
  obtain ⟨last, begun, -⟩ := inMonth located.short
  have count := located.count
  rw [located.date]
  generalize (5 * rest + 2) / 153 = shifted at *
  have early := monthNumber_le_two last
  have start : (if monthNumber shifted ≤ 2 then year + (if monthNumber shifted ≤ 2 then 1 else 0) - 1
      else year + (if monthNumber shifted ≤ 2 then 1 else 0)) = year := by
    split <;> omega
  have month : (if 2 < monthNumber shifted then monthNumber shifted - 3 else monthNumber shifted + 9) = shifted := by
    unfold monthNumber at early ⊢
    split <;> split <;> omega
  have day : (153 * shifted + 2) / 5 + (rest - (153 * shifted + 2) / 5 + 1) - 1 = rest := by omega
  simp only [toDays, start, month, day]
  omega

theorem valid_ofDays (days : Int) : (ofDays days).valid = true := by
  obtain ⟨year, rest, located⟩ := exists_located days
  obtain ⟨last, begun, running⟩ := inMonth located.short
  have leap := located.leap
  rw [located.date]
  generalize (5 * rest + 2) / 153 = shifted at *
  simp only [Date.valid, monthNumber]
  interval_cases shifted <;> simp [daysInMonth]
  case «11» =>
    have short := located.short
    by_cases full : rest = 365
    · simp [leap full, full]
    · split <;> omega
  all_goals omega

end FreshDocs.Calendar
