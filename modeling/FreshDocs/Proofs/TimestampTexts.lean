import FreshDocs.Time.Rfc3339
import FreshDocs.Proofs.CalendarDays
import FreshDocs.Proofs.DigitTexts

/-! A timestamp is read back from its text. -/

namespace FreshDocs.Timestamp

/-! ### Numbers -/

theorem isDigit_padded {width n : Nat} : ∀ c ∈ padded width n, c.isDigit = true := by
  intro c member
  rcases List.mem_append.mp member with zero | digit
  · rw [List.eq_of_mem_replicate zero]
    rfl
  · exact Text.isDigit_of_toDigits c digit

private theorem ofDigitChars_padded (width n : Nat) : Nat.ofDigitChars 10 (padded width n) 0 = n := by
  rw [padded, Nat.ofDigitChars_append, Nat.ofDigitChars_replicate_zero, Nat.mul_zero, Nat.ofDigitChars_ten_toDigits]

theorem length_padded {width n : Nat} (some : 0 < width) (fits : n < 10 ^ width) : (padded width n).length = width := by
  have short := (Nat.length_toDigits_le_iff (by decide) some).mpr fits
  rw [padded, List.length_append, List.length_replicate, Nat.sub_add_cancel short]

theorem padded_ne_nil (width n : Nat) : padded width n ≠ [] := by
  simp [padded]

private theorem isBlank_of_isDigit {c : Char} (digit : c.isDigit = true) : Text.isBlank c = false := by
  have least : 48 ≤ c.toNat ∧ c.toNat ≤ 57 := by
    simpa [Char.isDigit, UInt32.le_iff_toNat_le] using digit
  simp only [Text.isBlank, Bool.or_eq_false_iff, Bool.and_eq_false_iff, decide_eq_false_iff_not]
  omega

/-- A text that starts with a digit has no blanks to skip. -/
theorem trimStart_padded (width n : Nat) (rest : List Char) :
    Text.trimStart (padded width n ++ rest) = padded width n ++ rest := by
  obtain ⟨c, digits, shape⟩ := List.exists_cons_of_ne_nil (padded_ne_nil width n)
  have digit := @isDigit_padded width n c (by simp [shape])
  simp [shape, Text.trimStart, isBlank_of_isDigit digit]

private theorem number?_padded {most width n : Nat} {rest : List Char} (short : (padded width n).length ≤ most)
    (ends : rest.takeWhile Char.isDigit = []) : number? most (padded width n ++ rest) = some (n, rest) := by
  have cut (places : Nat) : (rest.take places).takeWhile Char.isDigit = [] := by
    cases places with
    | zero => rfl
    | succ places =>
      cases rest with
      | nil => rfl
      | cons c others =>
        have other : c.isDigit = false := by simpa [List.takeWhile_cons] using ends
        simp [other]
  have digits : ((padded width n ++ rest).take most).takeWhile Char.isDigit = padded width n := by
    rw [List.take_append, List.take_of_length_le short]
    exact Text.takeWhile_digits isDigit_padded (cut _)
  simp [number?, digits, padded_ne_nil, ofDigitChars_padded]

/-! ### Parts -/

private theorem fraction?_padded {width n : Nat} (some : 0 < width) (short : width ≤ 9) (fits : n < 10 ^ width)
    (rest : List Char) : fraction? ('.' :: padded width n ++ 'Z' :: rest) = .some (n * 10 ^ (9 - width), 'Z' :: rest) := by
  have digits : (padded width n ++ 'Z' :: rest).takeWhile Char.isDigit = padded width n :=
    Text.takeWhile_digits isDigit_padded (by simp)
  have places : (padded width n ++ List.replicate 9 '0').take 9 = padded width n ++ List.replicate (9 - width) '0' := by
    rw [List.take_append, List.take_of_length_le (by rw [length_padded some fits]; exact short), length_padded some fits,
      List.take_replicate]
    congr 2
    omega
  have value : Nat.ofDigitChars 10 (padded width n ++ List.replicate (9 - width) '0') 0 = n * 10 ^ (9 - width) := by
    rw [Nat.ofDigitChars_append, ofDigitChars_padded, Nat.ofDigitChars_replicate_zero, Nat.mul_comm]
  rw [List.cons_append, fraction?]
  simp only [digits, places, value]
  simp [padded_ne_nil]

private theorem fraction?_fractionText {nano : Nat} (bounded : nano < 1000000000) :
    fraction? (fractionText nano ++ ['Z']) = some (nano, ['Z']) := by
  unfold fractionText
  split
  next none => simp [fraction?, none]
  split
  next thousands =>
    rw [fraction?_padded (by decide) (by decide) (by omega)]
    simp
    omega
  split
  next =>
    rw [fraction?_padded (by decide) (by decide) (by omega)]
    simp
    omega
  next => rw [fraction?_padded (by decide) (by decide) (by omega)]; simp

private theorem year?_yearText {year : Int} {rest : List Char} (ends : rest.takeWhile Char.isDigit = []) :
    year? (yearText year ++ rest) = some (year, rest) := by
  have signed := @number?_padded (padded 4 year.natAbs ++ rest).length 4 year.natAbs rest (by simp) ends
  unfold yearText
  split
  next within =>
    have short : (padded 4 year.toNat).length ≤ 4 := Nat.le_of_eq (length_padded (by decide) (by omega))
    have value : (year.toNat : Int) = year := Int.toNat_of_nonneg within.1
    obtain ⟨c, digits, shape⟩ := List.exists_cons_of_ne_nil (padded_ne_nil 4 year.toNat)
    have digit := @isDigit_padded 4 year.toNat c (by simp [shape])
    have read := number?_padded short ends
    rw [shape, List.cons_append] at read ⊢
    rw [year?]
    · rw [read]
      exact congrArg (fun year => some (year, rest)) value
    · rintro _ ⟨⟩
      cases digit
    · rintro _ ⟨⟩
      cases digit
  next outside =>
    rw [List.cons_append]
    split
    next before =>
      have value : -(year.natAbs : Int) = year := by omega
      rw [year?, signed]
      exact congrArg (fun year => some (year, rest)) value
    next after =>
      have value : (year.natAbs : Int) = year := by omega
      rw [year?, signed]
      exact congrArg (fun year => some (year, rest)) value

/-! ### Whole timestamps -/

/-- A time in a year that is read, and in a leap second at most where a minute ends. -/
structure Readable (t : Timestamp) : Prop where
  least : -262143 ≤ (Calendar.ofDays (t.second / 86400)).year
  most : (Calendar.ofDays (t.second / 86400)).year ≤ 262142
  leap : 1000000000 ≤ t.nano → t.second % 60 = 59

theorem readable_of_year {t : Timestamp} (least : 0 ≤ (Calendar.ofDays (t.second / 86400)).year)
    (most : (Calendar.ofDays (t.second / 86400)).year ≤ 9999) (fraction : t.nano < 1000000000) : t.Readable :=
  ⟨by omega, by omega, fun leap => (Nat.not_lt.mpr leap fraction).elim⟩

private theorem trimStart_yearText (year : Int) (rest : List Char) :
    Text.trimStart (yearText year ++ rest) = yearText year ++ rest := by
  unfold yearText
  split
  · exact trimStart_padded _ _ _
  · split <;> rfl

private theorem ends_fractionText (nano : Nat) : (fractionText nano ++ ['Z']).takeWhile Char.isDigit = [] := by
  fun_cases fractionText nano <;> simp

private theorem valid_lt {date : Calendar.Date} (valid : date.valid = true) : date.month < 100 ∧ date.day < 100 := by
  have days : Calendar.daysInMonth date.year date.month ≤ 31 := by
    unfold Calendar.daysInMonth
    split
    · split <;> decide
    all_goals decide
  simp only [Calendar.Date.valid, Bool.and_eq_true, decide_eq_true_eq] at valid
  omega

/-- A number of two places before a character that is none of its digits. -/
theorem number?_two {n : Nat} (fits : n < 100) {rest : List Char} (ends : rest.takeWhile Char.isDigit = []) :
    number? 2 (Text.trimStart (padded 2 n ++ rest)) = some (n, rest) := by
  rw [trimStart_padded]
  exact number?_padded (Nat.le_of_eq (length_padded (by decide) fits)) ends

theorem literal?_cons {c : Char} (solid : Text.isBlank c = false) (rest : List Char) :
    literal? c (Text.trimStart (c :: rest)) = some rest := by
  simp [Text.trimStart, solid, literal?]

/-- Every readable time is read back, down to the nanosecond. -/
theorem parse?_toText {t : Timestamp} (readable : t.Readable) : parse? t.toText = some t := by
  obtain ⟨least, most, leap⟩ := readable
  have valid := Calendar.valid_ofDays (t.second / 86400)
  have days := Calendar.toDays_ofDays (t.second / 86400)
  have bounded := t.nano_lt
  have second_lt : (t.second % 86400).toNat % 60 + t.nano / 1000000000 < 100 := by omega
  have minute_lt : (t.second % 86400).toNat / 60 % 60 < 100 := by omega
  have hour_lt : (t.second % 86400).toNat / 3600 < 100 := by omega
  have nano_lt : t.nano % 1000000000 < 1000000000 := by omega
  rw [parse?, toText, String.toList_ofList, civilText]
  generalize Calendar.ofDays (t.second / 86400) = date at *
  obtain ⟨month_lt, day_lt⟩ := valid_lt valid
  have two {n : Nat} (fits : n < 100) (c : Char) (other : c.isDigit = false) (rest : List Char) :=
    @number?_two n fits (c :: rest) (by simp [other])
  simp only [List.append_assoc, List.cons_append, trimStart_yearText]
  refine Option.bind_eq_some_iff.mpr ⟨_, year?_yearText (by simp), ?_⟩
  refine Option.bind_eq_some_iff.mpr ⟨_, literal?_cons rfl _, ?_⟩
  refine Option.bind_eq_some_iff.mpr ⟨_, two month_lt '-' rfl _, ?_⟩
  refine Option.bind_eq_some_iff.mpr ⟨_, literal?_cons rfl _, ?_⟩
  refine Option.bind_eq_some_iff.mpr ⟨_, two day_lt 'T' rfl _, ?_⟩
  refine Option.bind_eq_some_iff.mpr ⟨_, two hour_lt ':' rfl _, ?_⟩
  refine Option.bind_eq_some_iff.mpr ⟨_, literal?_cons rfl _, ?_⟩
  refine Option.bind_eq_some_iff.mpr ⟨_, two minute_lt ':' rfl _, ?_⟩
  refine Option.bind_eq_some_iff.mpr ⟨_, literal?_cons rfl _, ?_⟩
  refine Option.bind_eq_some_iff.mpr ⟨_, number?_two second_lt (ends_fractionText _), ?_⟩
  refine Option.bind_eq_some_iff.mpr ⟨_, fraction?_fractionText nano_lt, ?_⟩
  refine Option.bind_eq_some_iff.mpr ⟨(0, []), rfl, ?_⟩
  dsimp only
  have hour : (t.second % 86400).toNat / 3600 < 24 := by omega
  have minute : (t.second % 86400).toNat / 60 % 60 < 60 := by omega
  have second : (t.second % 86400).toNat % 60 + t.nano / 1000000000 ≤ 60 := by omega
  have blank : (Text.trimStart []).isEmpty = true := rfl
  -- the second that a leap second repeats is the one that its text is cut down to
  have time : t.second / 86400 * 86400 + ((t.second % 86400).toNat / 3600 * 3600 +
      (t.second % 86400).toNat / 60 % 60 * 60 + min ((t.second % 86400).toNat % 60 + t.nano / 1000000000) 59 : Nat) - 0 =
      t.second := by
    omega
  have nanos : nanosOf ((t.second % 86400).toNat % 60 + t.nano / 1000000000) (t.nano % 1000000000) = t.nano := by
    unfold nanosOf
    omega
  rw [if_pos (by simp [valid, least, most, hour, minute, second, blank])]
  cases t
  simp only [Option.some.injEq, mk.injEq]
  exact ⟨days ▸ time, nanos⟩

/-! ### What was read -/

/-- Offsets are in whole minutes. -/
theorem offset?_mod {text rest : List Char} {offset : Int} (read : offset? text = some (offset, rest)) :
    offset % 60 = 0 := by
  have signed {sign : Int} {later : List Char} {digits : List Char → List Char}
      (read : ((twoDigits? later).bind fun hours => (twoDigits? (digits hours.2)).bind fun minutes =>
        if 60 ≤ minutes.1 ∨ 24 ≤ hours.1 then none
        else some (sign * (hours.1 * 3600 + minutes.1 * 60), minutes.2)) = some (offset, rest)) : offset % 60 = 0 := by
    obtain ⟨hours, -, read⟩ := Option.bind_eq_some_iff.mp read
    obtain ⟨minutes, -, read⟩ := Option.bind_eq_some_iff.mp read
    have value := (Option.ite_none_left_eq_some.mp read).2
    cases value
    exact Int.emod_eq_zero_of_dvd (dvd_mul_of_dvd_right (by omega) sign)
  unfold offset? at read
  split at read
  case h_2 => cases read
  case h_1 =>
    dsimp only at read
    split at read
    · cases read
      rfl
    split at read
    · cases read
      rfl
    split at read
    · exact signed read
    split at read
    · exact signed read
    · cases read

/-- What was read repeats a second at most where a minute ends. -/
theorem leap_of_parse? {text : String} {t : Timestamp} (read : parse? text = some t) (leap : 1000000000 ≤ t.nano) :
    t.second % 60 = 59 := by
  unfold parse? at read
  obtain ⟨_, -, read⟩ := Option.bind_eq_some_iff.mp read
  obtain ⟨_, -, read⟩ := Option.bind_eq_some_iff.mp read
  obtain ⟨_, -, read⟩ := Option.bind_eq_some_iff.mp read
  obtain ⟨_, -, read⟩ := Option.bind_eq_some_iff.mp read
  obtain ⟨⟨_, rest⟩, -, read⟩ := Option.bind_eq_some_iff.mp read
  dsimp only at read
  split at read
  case h_2 => cases read
  case h_1 =>
    obtain ⟨-, read⟩ := Option.ite_none_right_eq_some.mp read
    obtain ⟨_, -, read⟩ := Option.bind_eq_some_iff.mp read
    obtain ⟨⟨hour, _⟩, -, read⟩ := Option.bind_eq_some_iff.mp read
    obtain ⟨_, -, read⟩ := Option.bind_eq_some_iff.mp read
    obtain ⟨⟨minute, _⟩, -, read⟩ := Option.bind_eq_some_iff.mp read
    obtain ⟨_, -, read⟩ := Option.bind_eq_some_iff.mp read
    obtain ⟨⟨second, _⟩, -, read⟩ := Option.bind_eq_some_iff.mp read
    obtain ⟨⟨nano, _⟩, -, read⟩ := Option.bind_eq_some_iff.mp read
    obtain ⟨⟨offset, _⟩, shift, read⟩ := Option.bind_eq_some_iff.mp read
    obtain ⟨valid, made⟩ := Option.ite_none_right_eq_some.mp read
    have minutes := offset?_mod shift
    cases made
    simp only [Bool.and_eq_true, decide_eq_true_eq] at valid
    -- nanoseconds beyond a thousand million are those of a second number sixty
    have sixtieth : second = 60 := by
      have within := Nat.mod_lt nano (by decide : 0 < 1000000000)
      simp only [nanosOf] at leap
      omega
    simp only [sixtieth]
    omega
end FreshDocs.Timestamp
