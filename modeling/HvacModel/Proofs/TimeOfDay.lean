import Mathlib.Data.List.Basic
import Mathlib.Data.List.TakeWhile
import Mathlib.Logic.Function.Basic
import HvacModel.TimeOfDay

/-! # Written times

`Spells` says which texts are times: one or two digits of an hour, a colon and two digits of a
minute.  Reading gives a time for exactly those whose minute is below 60 and which are not past
`24:00`, and it is the time that they spell (`read_eq_ok_iff`).

The written form of a time is one of its spellings, so it reads as the time (`read_render`) and no
two times are written alike.  The only other spelling of a time leaves out a zero in front of the
hour (`read_eq_ok_iff_render`). -/

namespace HvacModel.TimeOfDay

/-- A text spells an hour and a minute. -/
inductive Spells : String → Nat → Nat → Prop
  | short (h a b : Fin 10) :
    Spells (String.ofList [digitChar h, ':', digitChar a, digitChar b]) h (10 * a + b)
  | long (g h a b : Fin 10) :
    Spells (String.ofList [digitChar g, digitChar h, ':', digitChar a, digitChar b])
      (10 * g + h) (10 * a + b)

/-! ### Digits -/

theorem isDigit_digitChar {n : Nat} (h : n < 10) : isDigit (digitChar n) = true := by
  revert n
  decide

theorem toNat_digitChar {n : Nat} (h : n < 10) : (digitChar n).toNat - '0'.toNat = n := by
  revert n
  decide

theorem digitChar_eq_zero_iff {n : Nat} (h : n < 10) : digitChar n = '0' ↔ n = 0 := by
  revert n
  decide

/-- The digits are the characters of the numbers below ten. -/
theorem isDigit_iff (c : Char) : isDigit c = true ↔ ∃ d : Fin 10, c = digitChar d := by
  constructor
  · intro h
    have hbounds : '0'.toNat ≤ c.toNat ∧ c.toNat ≤ '9'.toNat := by
      simpa [isDigit, Char.le_def, UInt32.le_iff_toNat_le] using h
    have hlow : 48 ≤ c.toNat := hbounds.1
    have hhigh : c.toNat ≤ 57 := hbounds.2
    refine ⟨⟨c.toNat - 48, by omega⟩, ?_⟩
    have hsum : 48 + (c.toNat - 48) = c.toNat := by omega
    rw [digitChar, hsum, Char.ofNat_toNat]
  · rintro ⟨d, rfl⟩
    exact isDigit_digitChar d.isLt

theorem ne_colon_of_isDigit {c : Char} (h : isDigit c = true) : c ≠ ':' := by
  rintro rfl
  exact absurd h (by decide)

theorem utf8Size_of_isDigit {c : Char} (h : isDigit c = true) : c.utf8Size = 1 := by
  obtain ⟨d, rfl⟩ := (isDigit_iff c).mp h
  revert d
  decide

/-- A text of digits has as many bytes as characters. -/
theorem byteLength_of_digits {cs : List Char} (h : ∀ c ∈ cs, isDigit c = true) :
    byteLength cs = cs.length := by
  induction cs with
  | nil => rfl
  | cons c rest ih =>
      obtain ⟨hc, hrest⟩ := List.forall_mem_cons.mp h
      have hsize : byteLength (c :: rest) = c.utf8Size + byteLength rest := rfl
      rw [hsize, utf8Size_of_isDigit hc, ih hrest, List.length_cons, Nat.add_comm]

theorem natOfDigits_one (d : Fin 10) : Decimal.natOfDigits [digitChar d] = d := by
  have hd := toNat_digitChar d.isLt
  simp only [Decimal.natOfDigits, List.foldl_cons, List.foldl_nil, hd]
  omega

theorem natOfDigits_two (d e : Fin 10) :
    Decimal.natOfDigits [digitChar d, digitChar e] = 10 * d + e := by
  have hd := toNat_digitChar d.isLt
  have he := toNat_digitChar e.isLt
  simp only [Decimal.natOfDigits, List.foldl_cons, List.foldl_nil, hd, he]
  omega

/-! ### Reading -/

/-- Before the first colon stands the hour and after it the minute. -/
theorem ofChars_append {hour : List Char} (h : ∀ c ∈ hour, c ≠ ':') (minute : List Char) :
    ofChars (hour ++ ':' :: minute) =
      if hour = [] ∨ 2 < byteLength hour ∨ byteLength minute ≠ 2 then .error .shape
      else ofDigits hour minute := by
  have hfront : ∀ c ∈ hour, decide (c ≠ ':') = true := fun c hc => decide_eq_true (h c hc)
  rw [ofChars, List.dropWhile_append_of_pos hfront, List.takeWhile_append_of_pos hfront]
  simp

theorem ofHourMinute?_eq_some_iff (hour minute : Nat) (t : TimeOfDay) :
    ofHourMinute? hour minute = some t ↔ minute < 60 ∧ t.minutes = 60 * hour + minute := by
  unfold ofHourMinute? ofMinutes?
  constructor
  · intro h
    split at h
    · split at h
      · obtain rfl := Option.some.inj h
        exact ⟨‹minute < 60›, rfl⟩
      · cases h
    · cases h
  · rintro ⟨hminute, hsum⟩
    have hle := t.minutes_le
    rw [if_pos hminute, dif_pos (by omega)]
    exact congrArg some (ext_minutes hsum.symm)

theorem ofDigits_eq_ok_iff (hour minute : List Char) (t : TimeOfDay) :
    ofDigits hour minute = .ok t ↔ (∀ c ∈ hour ++ minute, isDigit c = true) ∧
      ofHourMinute? (Decimal.natOfDigits hour) (Decimal.natOfDigits minute) = some t := by
  rw [← List.all_eq_true]
  unfold ofDigits
  by_cases hall : (hour ++ minute).all isDigit = true
  · rw [if_pos hall, and_iff_right hall]
    by_cases hminute : 60 ≤ Decimal.natOfDigits minute
    · simp [hminute, ofHourMinute?_eq_some_iff, Nat.not_lt.mpr hminute]
    · rw [if_neg hminute]
      cases ofHourMinute? (Decimal.natOfDigits hour) (Decimal.natOfDigits minute) with
      | none => simp
      | some read => simp
  · simp [hall]

/-- The digits of a time: one or two of its hour and two of its minute. -/
structure Written (hour minute : List Char) : Prop where
  digits : ∀ c ∈ hour ++ minute, isDigit c = true
  hour : hour.length = 1 ∨ hour.length = 2
  minute : minute.length = 2

/-- Among digits the lengths in bytes are those in characters. -/
theorem ofChars_of_written {hour minute : List Char} (h : Written hour minute) :
    ofChars (hour ++ ':' :: minute) = ofDigits hour minute := by
  obtain ⟨hhour, hminute⟩ := List.forall_mem_append.mp h.digits
  have hshape : ¬(hour = [] ∨ 2 < byteLength hour ∨ byteLength minute ≠ 2) := by
    rw [byteLength_of_digits hhour, byteLength_of_digits hminute, h.minute,
      ← List.length_eq_zero_iff]
    have hlength := h.hour
    omega
  rw [ofChars_append fun c hc => ne_colon_of_isDigit (hhour c hc), if_neg hshape]

/-- A text without a colon is no time. -/
theorem ofChars_of_notMem {cs : List Char} (h : ':' ∉ cs) : ofChars cs = .error .shape := by
  have hall : ∀ c ∈ cs, decide (c ≠ ':') = true := fun c hc =>
    decide_eq_true (ne_of_mem_of_not_mem hc h)
  rw [ofChars, List.dropWhile_eq_nil_iff.mpr hall]

/-- What is read as a time splits at a colon into the digits of one. -/
theorem exists_written {cs : List Char} {t : TimeOfDay} (h : ofChars cs = .ok t) :
    ∃ hour minute, cs = hour ++ ':' :: minute ∧ Written hour minute := by
  have hmem : ':' ∈ cs := by
    by_contra hnone
    rw [ofChars_of_notMem hnone] at h
    cases h
  obtain ⟨hour, minute, rfl, hfirst⟩ := List.eq_append_cons_of_mem hmem
  refine ⟨hour, minute, rfl, ?_⟩
  rw [ofChars_append fun c hc => ne_of_mem_of_not_mem hc hfirst] at h
  split at h
  · cases h
  · rename_i hshape
    obtain ⟨hdigits, -⟩ := (ofDigits_eq_ok_iff hour minute t).mp h
    obtain ⟨hhour, hminute⟩ := List.forall_mem_append.mp hdigits
    rw [byteLength_of_digits hhour, byteLength_of_digits hminute,
      ← List.length_eq_zero_iff] at hshape
    exact ⟨hdigits, by omega, by omega⟩

/-- A text spells the numbers of its digits. -/
theorem spells_iff (text : String) (h m : Nat) : Spells text h m ↔
    ∃ hour minute, text.toList = hour ++ ':' :: minute ∧ Written hour minute ∧
      Decimal.natOfDigits hour = h ∧ Decimal.natOfDigits minute = m := by
  constructor
  · rintro (⟨h, a, b⟩ | ⟨g, h, a, b⟩)
    · refine ⟨[digitChar h], [digitChar a, digitChar b], String.toList_ofList, ?_,
        natOfDigits_one h, natOfDigits_two a b⟩
      exact ⟨by simp [isDigit_digitChar], .inl rfl, rfl⟩
    · refine ⟨[digitChar g, digitChar h], [digitChar a, digitChar b], String.toList_ofList, ?_,
        natOfDigits_two g h, natOfDigits_two a b⟩
      exact ⟨by simp [isDigit_digitChar], .inr rfl, rfl⟩
  · rintro ⟨hour, minute, htext, hw, rfl, rfl⟩
    obtain ⟨a, b, rfl⟩ := List.length_eq_two.mp hw.minute
    have htext : text = String.ofList (hour ++ ':' :: [a, b]) := by
      rw [← htext, String.ofList_toList]
    have hdigit : ∀ c ∈ hour ++ [a, b], ∃ d : Fin 10, c = digitChar d := fun c hc =>
      (isDigit_iff c).mp (hw.digits c hc)
    obtain ⟨a, rfl⟩ := hdigit a (by simp)
    obtain ⟨b, rfl⟩ := hdigit b (by simp)
    rw [natOfDigits_two, htext]
    rcases hw.hour with hone | htwo
    · obtain ⟨c, rfl⟩ := List.length_eq_one_iff.mp hone
      obtain ⟨h, rfl⟩ := hdigit c (by simp)
      rw [natOfDigits_one]
      exact .short h a b
    · obtain ⟨c, d, rfl⟩ := List.length_eq_two.mp htwo
      obtain ⟨g, rfl⟩ := hdigit c (by simp)
      obtain ⟨h, rfl⟩ := hdigit d (by simp)
      rw [natOfDigits_two]
      exact .long g h a b

/-- A text is read as a time exactly when it spells the time. -/
theorem read_eq_ok_iff (text : String) (t : TimeOfDay) : read text = .ok t ↔
    ∃ hour minute, Spells text hour minute ∧ minute < 60 ∧ t.minutes = 60 * hour + minute := by
  unfold read
  constructor
  · intro h
    obtain ⟨hour, minute, htext, hw⟩ := exists_written h
    rw [htext, ofChars_of_written hw, ofDigits_eq_ok_iff, ofHourMinute?_eq_some_iff] at h
    exact ⟨_, _, (spells_iff text _ _).mpr ⟨hour, minute, htext, hw, rfl, rfl⟩, h.2⟩
  · rintro ⟨h, m, hspells, htime⟩
    obtain ⟨hour, minute, htext, hw, rfl, rfl⟩ := (spells_iff text h m).mp hspells
    rw [htext, ofChars_of_written hw, ofDigits_eq_ok_iff, ofHourMinute?_eq_some_iff]
    exact ⟨hw.digits, htime⟩

/-- A character of two bytes passes for two digits of an hour by its length, and is none. -/
example : read "½:05" = .error .digits := by decide

/-! ### Writing -/

theorem hour_lt (t : TimeOfDay) : t.hour < 100 := by
  have hle := t.minutes_le
  rw [hour]
  omega

theorem minute_lt (t : TimeOfDay) : t.minute < 60 := Nat.mod_lt _ (by decide)

theorem minutes_eq (t : TimeOfDay) : t.minutes = 60 * t.hour + t.minute :=
  (Nat.div_add_mod t.minutes 60).symm

theorem hour_eq {t : TimeOfDay} {h m : Nat} (hm : m < 60) (ht : t.minutes = 60 * h + m) :
    t.hour = h := by
  rw [hour]
  omega

theorem minute_eq {t : TimeOfDay} {h m : Nat} (hm : m < 60) (ht : t.minutes = 60 * h + m) :
    t.minute = m := by
  rw [minute]
  omega

theorem toList_render (t : TimeOfDay) :
    t.render.toList = twoDigits t.hour ++ ':' :: twoDigits t.minute :=
  String.toList_ofList

theorem toList_zero_append (text : String) : ("0" ++ text).toList = '0' :: text.toList := by
  rw [String.toList_append]
  rfl

/-- The written form has two digits of the hour. -/
theorem spells_render (t : TimeOfDay) : Spells t.render t.hour t.minute := by
  have hhour := t.hour_lt
  have hminute := t.minute_lt
  have hspells := Spells.long ⟨t.hour / 10, by omega⟩ ⟨t.hour % 10, by omega⟩
    ⟨t.minute / 10, by omega⟩ ⟨t.minute % 10, by omega⟩
  simp only [Nat.div_add_mod] at hspells
  exact hspells

/-- The written form of a time reads as the time. -/
theorem read_render (t : TimeOfDay) : read t.render = .ok t :=
  (read_eq_ok_iff _ t).mpr ⟨t.hour, t.minute, t.spells_render, t.minute_lt, t.minutes_eq⟩

theorem render_injective : Function.Injective render := fun s t h =>
  Except.ok.inj ((read_render s).symm.trans ((congrArg read h).trans (read_render t)))

theorem twoDigits_eq (d e : Fin 10) : twoDigits (10 * d + e) = [digitChar d, digitChar e] := by
  have htens : (10 * d.val + e) / 10 = d := by omega
  have hones : (10 * d.val + e) % 10 = e := by omega
  rw [twoDigits, htens, hones]

/-- What spells a time is its written form, or lacks the zero in front of that. -/
theorem Spells.eq_render {text : String} {h m : Nat} {t : TimeOfDay} (hs : Spells text h m)
    (hhour : t.hour = h) (hminute : t.minute = m) :
    text = t.render ∨ "0" ++ text = t.render := by
  cases hs with
  | short h a b =>
      right
      have hdigits : twoDigits h = [digitChar 0, digitChar h] := by simpa using twoDigits_eq 0 h
      refine String.toList_inj.mp ?_
      rw [toList_zero_append, toList_render, hhour, hminute, hdigits, twoDigits_eq,
        String.toList_ofList]
      rfl
  | long g h a b =>
      left
      rw [render, hhour, hminute, twoDigits_eq, twoDigits_eq]
      rfl

/-- Without the zero in front the written form still spells the time. -/
theorem spells_of_zero {text : String} {t : TimeOfDay} (hz : "0" ++ text = t.render) :
    Spells text t.hour t.minute := by
  have hhour := t.hour_lt
  have hminute := t.minute_lt
  have hchars : '0' :: text.toList =
      digitChar (t.hour / 10) :: digitChar (t.hour % 10) :: ':' :: twoDigits t.minute := by
    rw [← toList_zero_append, hz, toList_render]
    rfl
  obtain ⟨hzero, hrest⟩ := List.cons.inj hchars
  have htens : t.hour / 10 = 0 := (digitChar_eq_zero_iff (by omega)).mp hzero.symm
  have hones : t.hour % 10 = t.hour := by omega
  have hspells := Spells.short ⟨t.hour, by omega⟩ ⟨t.minute / 10, by omega⟩
    ⟨t.minute % 10, by omega⟩
  simp only [Nat.div_add_mod] at hspells
  rw [hones] at hrest
  rwa [← String.ofList_toList (s := text), hrest]

/-- A text is read as a time exactly when it is the written form of the time, with or without a
zero in front. -/
theorem read_eq_ok_iff_render (text : String) (t : TimeOfDay) : read text = .ok t ↔
    text = t.render ∨ "0" ++ text = t.render := by
  constructor
  · intro h
    obtain ⟨hour, minute, hs, hminute, hsum⟩ := (read_eq_ok_iff text t).mp h
    exact hs.eq_render (hour_eq hminute hsum) (minute_eq hminute hsum)
  · rintro (rfl | hzero)
    · exact t.read_render
    · exact (read_eq_ok_iff text t).mpr
        ⟨t.hour, t.minute, spells_of_zero hzero, t.minute_lt, t.minutes_eq⟩

theorem Spells.length_eq {text : String} {h m : Nat} (hs : Spells text h m) :
    text.length = 4 ∨ text.length = 5 := by
  cases hs with
  | short h a b => exact .inl String.length_ofList
  | long g h a b => exact .inr String.length_ofList

/-- Where a text is read with and without a zero in front, it is the same time. -/
theorem eq_of_zero {text : String} {s t : TimeOfDay} (hs : read ("0" ++ text) = .ok s)
    (ht : read text = .ok t) : s = t := by
  rcases (read_eq_ok_iff_render _ s).mp hs with hrender | hrender
  · have hread : read text = .ok s := (read_eq_ok_iff_render text s).mpr (.inr hrender)
    exact Except.ok.inj (hread.symm.trans ht)
  · -- two zeros in front make the text too long for a written form
    obtain ⟨h, m, hspells, -⟩ := (read_eq_ok_iff text t).mp ht
    have hrendered := s.spells_render.length_eq
    rw [← hrender, String.length_append, String.length_append] at hrendered
    have htext := hspells.length_eq
    have hzero : "0".length = 1 := rfl
    omega

/-- Texts of one time are equal up to a zero in front of one of them. -/
theorem eq_iff_of_read {a b : String} {s t : TimeOfDay} (ha : read a = .ok s)
    (hb : read b = .ok t) : s = t ↔ a = b ∨ a = "0" ++ b ∨ b = "0" ++ a := by
  constructor
  · rintro rfl
    rcases (read_eq_ok_iff_render a s).mp ha with hra | hra
    · rcases (read_eq_ok_iff_render b s).mp hb with hrb | hrb
      · exact .inl (hra.trans hrb.symm)
      · exact .inr (.inl (hra.trans hrb.symm))
    · rcases (read_eq_ok_iff_render b s).mp hb with hrb | hrb
      · exact .inr (.inr (hrb.trans hra.symm))
      · exact .inl ((String.append_right_inj "0").mp (hra.trans hrb.symm))
  · rintro (rfl | rfl | rfl)
    · exact Except.ok.inj (ha.symm.trans hb)
    · exact eq_of_zero ha hb
    · exact (eq_of_zero hb ha).symm

/-- The texts that are read as times, and the times that they are read as: an hour of one or two
digits and a minute of two, below 60, up to `24:00` together.  The written form of a time is one of
its texts, and texts of one time differ by a zero in front of the hour at most. -/
theorem spellings_exact :
    (∀ text t, read text = .ok t ↔ ∃ hour minute, Spells text hour minute ∧ minute < 60 ∧
      60 * hour + minute ≤ 1440 ∧ t.minutes = 60 * hour + minute) ∧
    (∀ t, read t.render = .ok t) ∧
    ∀ a b s t, read a = .ok s → read b = .ok t →
      (s = t ↔ a = b ∨ a = "0" ++ b ∨ b = "0" ++ a) := by
  refine ⟨fun text t => ?_, read_render, fun a b s t => eq_iff_of_read⟩
  rw [read_eq_ok_iff]
  have hle := t.minutes_le
  constructor
  · rintro ⟨hour, minute, hspells, hminute, hsum⟩
    exact ⟨hour, minute, hspells, hminute, hsum ▸ hle, hsum⟩
  · rintro ⟨hour, minute, hspells, hminute, -, hsum⟩
    exact ⟨hour, minute, hspells, hminute, hsum⟩

/-- The two texts of five past seven. -/
theorem spellings_breakfast :
    read "7:05" = .ok ⟨425, by decide⟩ ∧ read "07:05" = .ok ⟨425, by decide⟩ ∧
      ("7:05" = "07:05" ∨ "7:05" = "0" ++ "07:05" ∨ "07:05" = "0" ++ "7:05") := by
  have hshort : read "7:05" = .ok ⟨425, by decide⟩ := by decide
  have hlong : read "07:05" = .ok ⟨425, by decide⟩ := by decide
  exact ⟨hshort, hlong, (spellings_exact.2.2 _ _ _ _ hshort hlong).mp rfl⟩

end HvacModel.TimeOfDay
