-- SUMMARY: Reading back the default text of a parsed time: it is a prefix code, and no such text begins inside another.
import TrueHack.Base.Fields
import TrueHack.Go.Time

/-!
# The text of a time

Two facts about `Time.string` on parsed times. Whatever follows it, the text
gives the time back, zone included. And in a text followed by another one, no
third text begins anywhere but at the start: each begins with four digits and a
dash, and nothing inside looks like that.
-/

namespace Go

/-! ## Digits -/

theorem isDigit_digitChar {n : ℕ} (h : n < 10) : (Nat.digitChar n).isDigit = true := by
  interval_cases n <;> rfl

theorem digitChar_inj {m n : ℕ} (hm : m < 10) (hn : n < 10)
    (h : Nat.digitChar m = Nat.digitChar n) : m = n := by
  interval_cases m <;> interval_cases n <;> first | rfl | cases h

theorem digitChar_ne_of_not_isDigit {n : ℕ} {c : Char} (h : n < 10) (hc : c.isDigit = false) :
    Nat.digitChar n ≠ c := by
  rintro rfl
  rw [isDigit_digitChar h] at hc
  cases hc

def twoDigits (n : ℕ) : List Char := [n / 10, n % 10].map Nat.digitChar

def fourDigits (n : ℕ) : List Char :=
  [n / 1000, n / 100 % 10, n / 10 % 10, n % 10].map Nat.digitChar

theorem appendInt_two {n : ℕ} (h : n < 100) : appendInt n 2 = twoDigits n := by
  simp [appendInt, twoDigits, h]

theorem appendInt_four {n : ℕ} (h : n < 10000) : appendInt n 4 = fourDigits n := by
  simp [appendInt, fourDigits, h]

theorem twoDigits_append_inj {m n : ℕ} {v w : List Char} (hm : m < 100) (hn : n < 100)
    (h : twoDigits m ++ v = twoDigits n ++ w) : m = n ∧ v = w := by
  simp only [twoDigits, List.map_cons, List.map_nil, List.cons_append, List.nil_append,
    List.cons.injEq] at h
  obtain ⟨h₁, h₂, hvw⟩ := h
  have htens := digitChar_inj (by omega) (by omega) h₁
  have hones := digitChar_inj (by omega) (by omega) h₂
  exact ⟨by omega, hvw⟩

theorem fourDigits_append_inj {m n : ℕ} {v w : List Char} (hm : m < 10000) (hn : n < 10000)
    (h : fourDigits m ++ v = fourDigits n ++ w) : m = n ∧ v = w := by
  simp only [fourDigits, List.map_cons, List.map_nil, List.cons_append, List.nil_append,
    List.cons.injEq] at h
  obtain ⟨h₁, h₂, h₃, h₄, hvw⟩ := h
  have d₁ := digitChar_inj (by omega) (by omega) h₁
  have d₂ := digitChar_inj (by omega) (by omega) h₂
  have d₃ := digitChar_inj (by omega) (by omega) h₃
  have d₄ := digitChar_inj (by omega) (by omega) h₄
  exact ⟨by omega, hvw⟩

/-! ## Fractions -/

/-- One more digit, from the left. -/
theorem div_eq_of_digit {m n p : ℕ} (hdiv : m / (p * 10) = n / (p * 10))
    (hdigit : Nat.digitChar (m / p % 10) = Nat.digitChar (n / p % 10)) : m / p = n / p := by
  have hmod : m / p % 10 = n / p % 10 :=
    digitChar_inj (Nat.mod_lt _ (by decide)) (Nat.mod_lt _ (by decide)) hdigit
  rw [← Nat.div_div_eq_div_mul, ← Nat.div_div_eq_div_mul] at hdiv
  omega

theorem nineDigits_inj {m n : ℕ} (hm : m < 1000000000) (hn : n < 1000000000)
    (h : nineDigits m = nineDigits n) : m = n := by
  simp only [nineDigits, List.map_cons, List.map_nil, List.cons.injEq, and_true] at h
  obtain ⟨h₁, h₂, h₃, h₄, h₅, h₆, h₇, h₈, h₉⟩ := h
  have e₀ : m / 1000000000 = n / 1000000000 := by rw [Nat.div_eq_of_lt hm, Nat.div_eq_of_lt hn]
  have e₁ : m / 100000000 = n / 100000000 := div_eq_of_digit e₀ h₁
  have e₂ : m / 10000000 = n / 10000000 := div_eq_of_digit e₁ h₂
  have e₃ : m / 1000000 = n / 1000000 := div_eq_of_digit e₂ h₃
  have e₄ : m / 100000 = n / 100000 := div_eq_of_digit e₃ h₄
  have e₅ : m / 10000 = n / 10000 := div_eq_of_digit e₄ h₅
  have e₆ : m / 1000 = n / 1000 := div_eq_of_digit e₅ h₆
  have e₇ : m / 100 = n / 100 := div_eq_of_digit e₆ h₇
  have e₈ : m / 10 = n / 10 := div_eq_of_digit e₇ h₈
  have e₉ : m / 1 = n / 1 := div_eq_of_digit e₈ h₉
  rwa [Nat.div_one, Nat.div_one] at e₉

/-- Lists of one length that agree up to trailing elements `a` are equal. -/
theorem eq_of_rdropWhile_eq {α : Type} [DecidableEq α] {a : α} {l l' : List α}
    (hlen : l.length = l'.length)
    (h : l.rdropWhile (· = a) = l'.rdropWhile (· = a)) : l = l' := by
  have hsplit (l : List α) : l.rdropWhile (· = a) ++
      List.replicate (l.rtakeWhile (· = a)).length a = l := by
    have hall : l.rtakeWhile (· = a) = List.replicate (l.rtakeWhile (· = a)).length a :=
      List.eq_replicate_iff.mpr ⟨rfl, fun b hb => by simpa using List.mem_rtakeWhile_imp hb⟩
    rw [← hall, List.rdropWhile_append_rtakeWhile]
  have hl := hsplit l
  have hl' := hsplit l'
  have hcount : (l.rtakeWhile (· = a)).length = (l'.rtakeWhile (· = a)).length := by
    have h₁ := congrArg List.length hl
    have h₂ := congrArg List.length hl'
    simp only [List.length_append, List.length_replicate, h] at h₁ h₂
    omega
  rw [← hl, ← hl', h, hcount]

theorem formatFraction_inj {m n : ℕ} (hm : m < 1000000000) (hn : n < 1000000000)
    (h : formatFraction m = formatFraction n) : m = n := by
  refine nineDigits_inj hm hn (eq_of_rdropWhile_eq (a := '0') rfl ?_)
  unfold formatFraction at h
  split at h
  · rename_i hm'
    split at h
    · rename_i hn'
      rw [hm', hn']
    · cases h
  · split at h
    · cases h
    · exact (List.cons.inj h).2

theorem mem_formatFraction {n : ℕ} {c : Char} (h : c ∈ (formatFraction n).tail) :
    c.isDigit = true := by
  have hsub : ∀ c ∈ (nineDigits n).rdropWhile (· = '0'), c.isDigit = true := by
    intro c hc
    have hmem := (List.rdropWhile_prefix _ _).subset hc
    simp only [nineDigits, List.map_cons, List.map_nil, List.mem_cons, List.not_mem_nil,
      or_false] at hmem
    rcases hmem with rfl | rfl | rfl | rfl | rfl | rfl | rfl | rfl | rfl <;>
      exact isDigit_digitChar (Nat.mod_lt _ (by decide))
  unfold formatFraction at h
  split at h
  · cases h
  · exact hsub c h

theorem formatFraction_eq {n : ℕ} :
    formatFraction n = [] ∨ formatFraction n = '.' :: (formatFraction n).tail := by
  unfold formatFraction
  split
  · exact .inl rfl
  · exact .inr rfl

theorem space_notMem_formatFraction (n : ℕ) : ' ' ∉ formatFraction n := by
  intro hmem
  rcases formatFraction_eq (n := n) with hf | hf
  · rw [hf] at hmem
    cases hmem
  · rw [hf, List.mem_cons] at hmem
    rcases hmem with hdot | hmem
    · cases hdot
    · exact absurd (mem_formatFraction hmem) (by decide)

/-! ## Offsets -/

/-- The sign of an offset in minutes. -/
def signChar (minutes : ℤ) : Char := if minutes < 0 then '-' else '+'

theorem formatOffset_minutes {minutes : ℤ} (h : minutes.natAbs ≤ 1500) :
    formatOffset (minutes * 60) [] =
      signChar minutes :: (twoDigits (minutes.natAbs / 60) ++ twoDigits (minutes.natAbs % 60)) := by
  have hdiv : (minutes * 60).tdiv 60 = minutes := Int.mul_tdiv_cancel _ (by decide)
  simp only [formatOffset, hdiv, List.append_nil, signChar, List.cons_append]
  rw [appendInt_two (by omega), appendInt_two (by omega)]

theorem minutes_inj {m n : ℤ} (hsign : signChar m = signChar n)
    (hhours : m.natAbs / 60 = n.natAbs / 60) (hminutes : m.natAbs % 60 = n.natAbs % 60) :
    m = n := by
  unfold signChar at hsign
  split at hsign <;> split at hsign <;> first | omega | cases hsign

/-! ## The text of a stamp -/

namespace Stamp

variable {loc : Location} {s s' : Stamp}

theorem zone_offset : (s.zone loc).offset = s.offset.getD 0 * 60 := by
  unfold zone
  split
  · rename_i hz
    simp [hz, Zone.utc]
  · rename_i minutes hz
    split
    · rename_i hlookup
      simp [hz, hlookup]
    · simp [hz, Zone.fixed]

theorem time_wall : (s.time loc).wall = s.wall := by
  have hoffset : (s.zone loc).offset = s.offset.getD 0 * 60 := zone_offset
  simp only [Time.wall, time, hoffset, unix]
  omega

/-- The year as a natural number. -/
def yearNat (s : Stamp) : ℕ := s.date.year.toNat

/-- The clock's part of the text, and all that follows the date. -/
def clockChars (s : Stamp) (rest : List Char) : List Char :=
  twoDigits s.hour ++ ':' :: (twoDigits s.minute ++ ':' :: (twoDigits s.second ++ rest))

def dateChars (s : Stamp) (rest : List Char) : List Char :=
  fourDigits s.yearNat ++ '-' :: (twoDigits s.date.month ++ '-' :: (twoDigits s.date.day ++ rest))

/-- The text up to the zone's abbreviation. -/
def zoneChars (s : Stamp) (rest : List Char) : List Char :=
  signChar (s.offset.getD 0) :: (twoDigits ((s.offset.getD 0).natAbs / 60) ++
    (twoDigits ((s.offset.getD 0).natAbs % 60) ++ ' ' :: rest))

theorem day_lt : s.date.day < 100 := by
  have hle := s.date.day_le
  unfold Calendar.daysIn at hle
  grind

theorem formatDate_time : (s.time loc).formatDate = s.dateChars [] := by
  have hdays : (s.time loc).wall / 86400 = s.date.toDays := by
    have := s.hour_lt
    have := s.minute_lt
    have := s.second_lt
    rw [time_wall]
    unfold wall
    omega
  have hyear : s.date.year = (s.yearNat : ℤ) := by
    have := s.year_nonneg
    unfold yearNat
    omega
  have hlt : s.yearNat < 10000 := by
    have := s.year_lt
    omega
  have hmonth := s.date.month_le
  simp only [Time.formatDate, hdays, Calendar.Date.ofDays_toDays, hyear, dateChars,
    appendInt_four hlt, appendInt_two (show s.date.month < 100 by omega), appendInt_two day_lt,
    List.append_nil, List.append_assoc, List.cons_append]

theorem formatClock_time : (s.time loc).formatClock = s.clockChars [] := by
  have := s.hour_lt
  have := s.minute_lt
  have := s.second_lt
  have hsec : ((s.time loc).wall % 86400).toNat = s.hour * 3600 + s.minute * 60 + s.second := by
    rw [time_wall]
    unfold wall
    omega
  have hhour : (s.hour * 3600 + s.minute * 60 + s.second) / 3600 = s.hour := by omega
  have hminute : (s.hour * 3600 + s.minute * 60 + s.second) / 60 % 60 = s.minute := by omega
  have hsecond : (s.hour * 3600 + s.minute * 60 + s.second) % 60 = s.second := by omega
  simp only [Time.formatClock, hsec, hhour, hminute, hsecond, clockChars,
    appendInt_two (show s.hour < 100 by omega), appendInt_two (show s.minute < 100 by omega),
    appendInt_two (show s.second < 100 by omega), List.append_nil, List.append_assoc,
    List.cons_append]

/-- The whole text of a stamp's time, piece by piece. -/
theorem chars_time : (s.time loc).chars =
    s.dateChars (' ' :: s.clockChars (formatFraction s.nsec ++
      ' ' :: s.zoneChars (s.zone loc).format)) := by
  have hoffset : (s.time loc).zone.offset = s.offset.getD 0 * 60 := zone_offset
  simp only [Time.chars, formatDate_time, formatClock_time, hoffset,
    formatOffset_minutes s.offset_le]
  simp [time, dateChars, clockChars, zoneChars]

/-! ## The text gives the time back -/

theorem dateChars_inj {v w : List Char} (h : s.dateChars v = s'.dateChars w) :
    s.date.toDays = s'.date.toDays ∧ v = w := by
  have hyear := s.year_nonneg
  have hyear' := s'.year_nonneg
  have hlt := s.year_lt
  have hlt' := s'.year_lt
  have hmonth := s.date.month_le
  have hmonth' := s'.date.month_le
  unfold dateChars at h
  obtain ⟨hy, h⟩ := fourDigits_append_inj (by unfold yearNat; omega) (by unfold yearNat; omega) h
  obtain ⟨hm, h⟩ := twoDigits_append_inj (by omega) (by omega) (List.cons.inj h).2
  obtain ⟨hd, h⟩ := twoDigits_append_inj day_lt day_lt (List.cons.inj h).2
  refine ⟨?_, h⟩
  have hyears : s.date.year = s'.date.year := by
    unfold yearNat at hy
    omega
  have hdate : s.date = s'.date := by
    cases hs : s.date
    cases hs' : s'.date
    simp_all
  rw [hdate]

theorem clockChars_inj {v w : List Char} (h : s.clockChars v = s'.clockChars w) :
    s.hour = s'.hour ∧ s.minute = s'.minute ∧ s.second = s'.second ∧ v = w := by
  have := s.hour_lt
  have := s'.hour_lt
  have := s.minute_lt
  have := s'.minute_lt
  have := s.second_lt
  have := s'.second_lt
  unfold clockChars at h
  obtain ⟨hh, h⟩ := twoDigits_append_inj (by omega) (by omega) h
  obtain ⟨hm, h⟩ := twoDigits_append_inj (by omega) (by omega) (List.cons.inj h).2
  obtain ⟨hs, h⟩ := twoDigits_append_inj (by omega) (by omega) (List.cons.inj h).2
  exact ⟨hh, hm, hs, h⟩

theorem zoneChars_inj {v w : List Char} (h : s.zoneChars v = s'.zoneChars w) :
    s.offset.getD 0 = s'.offset.getD 0 ∧ v = w := by
  have := s.offset_le
  have := s'.offset_le
  unfold zoneChars at h
  obtain ⟨hsign, h⟩ := List.cons.inj h
  obtain ⟨hh, h⟩ := twoDigits_append_inj (by omega) (by omega) h
  obtain ⟨hm, h⟩ := twoDigits_append_inj (by omega) (by omega) h
  exact ⟨minutes_inj hsign hh hm, (List.cons.inj h).2⟩

/-- At offset zero, a zone whose abbreviation could be read as `UTC` is UTC. -/
theorem zone_eq_utc {v w : List Char} (hoffset : s.offset.getD 0 = 0)
    (h : Zone.utc.format ++ v = (s.zone loc).format ++ w) : s.zone loc = .utc := by
  have hzero : (s.zone loc).offset = 0 := by rw [zone_offset, hoffset, Int.zero_mul]
  by_cases hname : (s.zone loc).name = ""
  · have hformat : (s.zone loc).format = "+0000".toList := by
      rw [Zone.format, if_pos hname, hzero]
      decide
    rw [hformat] at h
    cases h
  · have hformat : (s.zone loc).format = (s.zone loc).name.toList := if_neg hname
    have hutc : Zone.utc.format = "UTC".toList := by decide
    rw [hformat, hutc] at h
    have hprefix := List.prefix_or_prefix_of_prefix (List.prefix_append _ v)
      (h ▸ List.prefix_append (s.zone loc).name.toList w)
    have hzone : s.zone loc = .utc ∨ s.zone loc = loc.lookup s.unix := by
      unfold zone at hname ⊢
      split
      · exact .inl rfl
      · split
        · exact .inr rfl
        · rename_i hz hlookup
          simp [hz, hlookup, Zone.fixed] at hname
    rcases hzone with hzone | hzone
    · exact hzone
    · rw [hzone] at hzero hname hprefix ⊢
      have hname' := loc.utc s.unix hzero hname hprefix
      cases hlookup : loc.lookup s.unix
      simp_all [Zone.utc]

/-- The zones of two stamps for one instant, at one offset, are told apart by what
    they show. -/
theorem zone_inj {v w : List Char} (hunix : s.unix = s'.unix)
    (hoffset : s.offset.getD 0 = s'.offset.getD 0)
    (h : (s.zone loc).format ++ v = (s'.zone loc).format ++ w) : s.zone loc = s'.zone loc := by
  cases hs : s.offset with
  | none =>
      have hz : s.zone loc = .utc := by simp [zone, hs]
      rw [hz] at h ⊢
      exact (zone_eq_utc (by simpa [hs] using hoffset.symm) h).symm
  | some minutes =>
      cases hs' : s'.offset with
      | none =>
          have hz : s'.zone loc = .utc := by simp [zone, hs']
          rw [hz] at h ⊢
          exact zone_eq_utc (by simpa [hs'] using hoffset) h.symm
      | some minutes' =>
          have hminutes : minutes = minutes' := by simpa [hs, hs'] using hoffset
          simp [zone, hs, hs', hunix, hminutes]

/-- The text of a parsed time is a prefix code. -/
theorem chars_append_inj {v w : List Char}
    (h : (s.time loc).chars ++ v = (s'.time loc).chars ++ w) : s.time loc = s'.time loc := by
  have hassoc (s : Stamp) (v : List Char) : (s.time loc).chars ++ v =
      s.dateChars (' ' :: s.clockChars (formatFraction s.nsec ++
        ' ' :: s.zoneChars ((s.zone loc).format ++ v))) := by
    rw [chars_time]
    simp [dateChars, clockChars, zoneChars]
  rw [hassoc, hassoc] at h
  obtain ⟨hdate, h⟩ := dateChars_inj h
  obtain ⟨hhour, hminute, hsecond, h⟩ := clockChars_inj (List.cons.inj h).2
  obtain ⟨hfraction, h⟩ := Fields.append_mark_inj (space_notMem_formatFraction _)
    (space_notMem_formatFraction _) h
  obtain ⟨hoffset, h⟩ := zoneChars_inj h
  have hnsec := formatFraction_inj s.nsec_lt s'.nsec_lt hfraction
  have hunix : s.unix = s'.unix := by
    simp only [unix, wall, hdate, hhour, hminute, hsecond, hoffset]
  simp only [time, Time.mk.injEq]
  exact ⟨hunix, hnsec, zone_inj hunix hoffset h⟩

/-! ## No text begins inside another -/

end Stamp

/-- `l` begins with `n` digits and a dash. -/
def dashAfter : ℕ → List Char → Bool
  | 0, c :: _ => c = '-'
  | n + 1, c :: l => c.isDigit && dashAfter n l
  | _, [] => false

/-- `l` begins like a date. -/
def yearAt (l : List Char) : Bool := dashAfter 4 l

/-- No part of `l` up to its end, continued by `e`, begins with a year. -/
def Clear (l e : List Char) : Prop := ∀ y, y ≠ [] → y <:+ l → yearAt (y ++ e) = false

variable {l l₁ l₂ e : List Char} {a : Char}

theorem clear_nil : Clear [] e := by
  intro y hne hsuffix
  exact absurd (List.suffix_nil.mp hsuffix) hne

theorem clear_cons : Clear (a :: l) e ↔ yearAt (a :: (l ++ e)) = false ∧ Clear l e := by
  constructor
  · intro h
    exact ⟨h (a :: l) (by simp) List.suffix_rfl,
      fun y hne hsuffix => h y hne (hsuffix.trans (List.suffix_cons a l))⟩
  · intro ⟨hhead, htail⟩ y hne hsuffix
    rcases List.suffix_cons_iff.mp hsuffix with rfl | hsuffix
    · exact hhead
    · exact htail y hne hsuffix

theorem Clear.append (h₁ : Clear l₁ (l₂ ++ e)) (h₂ : Clear l₂ e) : Clear (l₁ ++ l₂) e := by
  induction l₁ with
  | nil => exact h₂
  | cons a l₁ ih =>
      rw [clear_cons] at h₁
      rw [List.cons_append, clear_cons, List.append_assoc]
      exact ⟨h₁.1, ih h₁.2⟩

theorem ne_dash {c : Char} (h : c.isDigit = true) : c ≠ '-' := by
  rintro rfl
  exact absurd h (by decide)

theorem dashAfter_digits {n : ℕ} {c : Char} (h : ∀ c ∈ l, c.isDigit = true) (hc : c.isDigit = false)
    (hdash : c ≠ '-') : dashAfter n (l ++ c :: e) = false := by
  induction l generalizing n with
  | nil => cases n <;> simp [dashAfter, hc, hdash]
  | cons a l ih =>
      cases n with
      | zero =>
          simp [dashAfter, ne_dash (h a List.mem_cons_self)]
      | succ n => simp [dashAfter, ih fun c hc => h c (List.mem_cons_of_mem _ hc)]

/-- Digits before a space hide no year. -/
theorem clear_digits (h : ∀ c ∈ l, c.isDigit = true) : Clear l (' ' :: e) :=
  fun _ _ hsuffix => dashAfter_digits (fun c hc => h c (hsuffix.subset hc)) (by decide) (by decide)

/-- Only one number of digits can be followed by a dash. -/
theorem dashAfter_of_lt {m n : ℕ} (hn : n < m) (h : dashAfter m e = true) :
    dashAfter n e = false := by
  induction e generalizing m n with
  | nil => cases m <;> cases h
  | cons c e ih =>
      cases m with
      | zero => cases hn
      | succ m =>
          simp only [dashAfter, Bool.and_eq_true] at h
          cases n with
          | zero => simp [dashAfter, ne_dash h.1]
          | succ n =>
              have hrest : dashAfter n e = false := ih (Nat.lt_of_succ_lt_succ hn) h.2
              simp [dashAfter, hrest]

theorem dashAfter_name {n : ℕ} (hn : n < 4) (h : '-' ∉ l) (he : yearAt e = true) :
    dashAfter n (l ++ e) = false := by
  induction l generalizing n with
  | nil => exact dashAfter_of_lt hn he
  | cons a l ih =>
      simp only [List.mem_cons, not_or] at h
      cases n with
      | zero => simp [dashAfter, Ne.symm h.1]
      | succ n =>
          have hrest : dashAfter n (l ++ e) = false := ih (by omega) h.2
          simp [dashAfter, hrest]

/-- A name whose dashes are at its head hides no year before a year. -/
theorem clear_name (h : '-' ∉ l.tail) (he : yearAt e = true) : Clear l e := by
  induction l with
  | nil => exact clear_nil
  | cons a l ih =>
      rw [clear_cons]
      refine ⟨?_, ih fun hmem => h (List.mem_of_mem_tail hmem)⟩
      have hrest : dashAfter 3 (l ++ e) = false := dashAfter_name (by decide) h he
      simp [yearAt, dashAfter, hrest]

theorem clear_formatFraction {n : ℕ} : Clear (formatFraction n) (' ' :: e) := by
  rcases formatFraction_eq (n := n) with hf | hf
  · rw [hf]
    exact clear_nil
  · rw [hf, clear_cons]
    exact ⟨by simp [yearAt, dashAfter], clear_digits fun c hc => mem_formatFraction hc⟩

namespace Stamp

variable {loc : Location} {s s' : Stamp}

theorem dash_notMem_format : '-' ∉ (s.zone loc).format.tail := by
  have hfixed : '-' ∉ (formatOffset (s.offset.getD 0 * 60) []).tail := by
    rw [formatOffset_minutes s.offset_le, List.tail_cons, twoDigits, twoDigits]
    have := s.offset_le
    simp only [List.map_cons, List.map_nil, List.cons_append, List.nil_append, List.mem_cons,
      List.not_mem_nil, or_false, not_or]
    refine ⟨?_, ?_, ?_, ?_⟩ <;>
      exact (digitChar_ne_of_not_isDigit (by omega) (by decide)).symm
  unfold Zone.format
  split
  · rwa [zone_offset]
  · unfold zone
    split
    · decide
    · split
      · exact loc.dash _
      · simp [Zone.fixed]

theorem yearAt_chars {w : List Char} : yearAt ((s.time loc).chars ++ w) = true := by
  have hlt := s.year_lt
  have hdigit {n : ℕ} (h : n < 10) := isDigit_digitChar h
  rw [chars_time]
  simp only [dateChars, fourDigits, List.map_cons, List.map_nil, List.cons_append,
    List.nil_append, yearAt, dashAfter]
  rw [hdigit (show s.yearNat / 1000 < 10 by unfold yearNat; omega), hdigit (Nat.mod_lt _ (by decide)),
    hdigit (Nat.mod_lt _ (by decide)), hdigit (Nat.mod_lt _ (by decide))]
  rfl

/-- Before another year, the text of a time shows no year but the one it begins with. -/
theorem clear_chars (he : yearAt e = true) : Clear (s.time loc).chars.tail e := by
  have hsign : (signChar (s.offset.getD 0)).isDigit = false := by
    unfold signChar
    split <;> rfl
  have hzone : Clear (' ' :: s.zoneChars (s.zone loc).format) e := by
    simp only [zoneChars, twoDigits, List.map_cons, List.map_nil, List.cons_append,
      List.nil_append, clear_cons]
    refine ⟨?_, ?_, ?_, ?_, ?_, ?_, ?_, clear_name dash_notMem_format he⟩ <;>
      simp [yearAt, dashAfter, hsign]
  have hrest : Clear (formatFraction s.nsec ++ ' ' :: s.zoneChars (s.zone loc).format) e :=
    clear_formatFraction.append hzone
  obtain ⟨c, rest, hc, hdigit⟩ : ∃ c rest, formatFraction s.nsec ++
      ' ' :: s.zoneChars (s.zone loc).format = c :: rest ∧ c.isDigit = false := by
    rcases formatFraction_eq (n := s.nsec) with hf | hf <;> rw [hf]
    · exact ⟨_, _, rfl, rfl⟩
    · exact ⟨_, _, rfl, rfl⟩
  rw [hc] at hrest
  rw [chars_time, hc]
  simp only [dateChars, clockChars, fourDigits, twoDigits, List.map_cons, List.map_nil,
    List.cons_append, List.nil_append, List.tail_cons, clear_cons]
  simp [yearAt, dashAfter, hdigit, (clear_cons.mp hrest).2]

/-- Where a time's text is followed by another's, a third one can begin at the start
    or after the first. -/
theorem chars_aligned {s₁ s₂ s₃ : Stamp} {x v w : List Char}
    (h : x ++ ((s₃.time loc).chars ++ v) = (s₁.time loc).chars ++ ((s₂.time loc).chars ++ w)) :
    x = [] ∨ ∃ y, x = (s₁.time loc).chars ++ y ∧
      y ++ ((s₃.time loc).chars ++ v) = (s₂.time loc).chars ++ w := by
  rcases List.append_eq_append_iff.mp h with ⟨z, hz, hrest⟩ | ⟨y, hy, hrest⟩
  · cases x with
    | nil => exact .inl rfl
    | cons a x =>
        cases z with
        | nil => exact .inr ⟨[], by simpa using hz.symm, by simpa using hrest⟩
        | cons b z =>
            have htail : (s₁.time loc).chars.tail = x ++ b :: z := by rw [hz]; rfl
            have hclear : Clear (s₁.time loc).chars.tail ((s₂.time loc).chars ++ w) :=
              clear_chars yearAt_chars
            have hyear := hclear (b :: z) (by simp) (htail ▸ List.suffix_append _ _)
            rw [← hrest, yearAt_chars] at hyear
            cases hyear
  · exact .inr ⟨y, hy, hrest.symm⟩

end Stamp

end Go
