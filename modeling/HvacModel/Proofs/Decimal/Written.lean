import HvacModel.Decimal.Layout
import HvacModel.Decimal.Text
import HvacModel.Proofs.Decimal.Shortest

/-! # Written doubles

The JSON text of a decimal reads back as a numeral of the same number (`unsigned?_text`), so the
text of a finite double is a number that rounds to it, and two finite doubles with the same text are
the same (`render_injective`). -/

namespace HvacModel.Decimal

/-! ### Digits -/

theorem natOfDigits_append (front back : List Char) :
    natOfDigits (front ++ back) = 10 ^ back.length * natOfDigits front + natOfDigits back :=
  (Nat.ofDigitChars_append 0).trans Nat.ofDigitChars_eq_ofDigitChars_zero

theorem natOfDigits_zeros (n : ℕ) : natOfDigits (zeros n) = 0 :=
  Nat.ofDigitChars_replicate_zero

theorem natOfDigits_zeros_append (n : ℕ) (cs : List Char) :
    natOfDigits (zeros n ++ cs) = natOfDigits cs := by
  rw [natOfDigits_append, natOfDigits_zeros, Nat.mul_zero, Nat.zero_add]

theorem natOfDigits_append_zeros (cs : List Char) (n : ℕ) :
    natOfDigits (cs ++ zeros n) = natOfDigits cs * 10 ^ n := by
  rw [natOfDigits_append, natOfDigits_zeros, zeros, List.length_replicate, Nat.add_zero,
    Nat.mul_comm]

theorem natOfDigits_digitsOf (n : ℕ) : natOfDigits (digitsOf n) = n :=
  Nat.ofDigitChars_ten_toDigits

/-- A text of digits only. -/
def Digits (cs : List Char) : Prop := ∀ c ∈ cs, isDigit c = true

theorem Digits.append {cs ds : List Char} (hc : Digits cs) (hd : Digits ds) : Digits (cs ++ ds) :=
  List.forall_mem_append.2 ⟨hc, hd⟩

theorem digits_digitsOf (n : ℕ) : Digits (digitsOf n) := fun _ h =>
  Nat.isDigit_of_mem_toDigits (by decide) (by decide) h

theorem digits_zeros (n : ℕ) : Digits (zeros n) := fun c h => by
  rw [List.eq_of_mem_replicate h]
  rfl

/-! ### Numerals -/

/-- The number of a numeral without its sign. -/
def Numeral.toRat (n : Numeral) : ℚ :=
  natOfDigits (n.whole ++ n.fraction) * (10 : ℚ) ^ (n.exponent - n.fraction.length)

/-- A text in which a run of characters ends. -/
def Delimited (p : Char → Bool) (rest : List Char) : Prop := ∀ c ∈ rest.head?, p c = false

theorem delimited_nil (p : Char → Bool) : Delimited p [] := by simp [Delimited]

theorem takeWhile_run {p : Char → Bool} {cs rest : List Char} (hc : ∀ c ∈ cs, p c = true)
    (hr : Delimited p rest) : (cs ++ rest).takeWhile p = cs := by
  rw [List.takeWhile_append_of_pos hc]
  cases rest with
  | nil => simp
  | cons c rest => simp [hr c rfl]

theorem dropWhile_run {p : Char → Bool} {cs rest : List Char} (hc : ∀ c ∈ cs, p c = true)
    (hr : Delimited p rest) : (cs ++ rest).dropWhile p = rest := by
  rw [List.dropWhile_append_of_pos hc]
  cases rest with
  | nil => simp
  | cons c rest => simp [hr c rfl]

/-- A numeral with a point. -/
theorem unsigned?_point {negative : Bool} {whole fraction suffix : List Char} {exponent : ℤ}
    (hw : Digits whole) (hne : whole ≠ []) (hf : Digits fraction) (hs : Delimited isDigit suffix)
    (he : exponent? suffix = some exponent) :
    unsigned? negative (whole ++ '.' :: (fraction ++ suffix)) =
      some ⟨negative, whole, fraction, exponent⟩ := by
  have hpoint : Delimited isDigit ('.' :: (fraction ++ suffix)) := by simp [Delimited, isDigit]
  simp [unsigned?, takeWhile_run hw hpoint, dropWhile_run hw hpoint, fractionPart,
    takeWhile_run hf hs, dropWhile_run hf hs, hne, he]

/-- A numeral without a point. -/
theorem unsigned?_whole {negative : Bool} {whole suffix : List Char} {exponent : ℤ}
    (hw : Digits whole) (hne : whole ≠ []) (hs : Delimited isDigit suffix)
    (hp : suffix.head? ≠ some '.') (he : exponent? suffix = some exponent) :
    unsigned? negative (whole ++ suffix) = some ⟨negative, whole, [], exponent⟩ := by
  have hfraction : fractionPart suffix = ([], suffix) := by
    cases suffix with
    | nil => rfl
    | cons c rest => exact fractionPart.eq_2 _ (by simpa using hp)
  simp [unsigned?, takeWhile_run hw hs, dropWhile_run hw hs, hfraction, hne, he]

/-! ### The text of a decimal -/

theorem signed?_exponent (e : ℤ) :
    signed? ((if e < 0 then ['-'] else ['+']) ++ digitsOf e.natAbs) = some e := by
  have hdigits : digits? (digitsOf e.natAbs) = some e.natAbs := by
    have hall : (digitsOf e.natAbs).all isDigit = true := List.all_eq_true.2 (digits_digitsOf _)
    have hne : (digitsOf e.natAbs).isEmpty = false :=
      List.isEmpty_eq_false_iff.2 Nat.toDigits_ne_nil
    rw [digits?, hall, hne, natOfDigits_digitsOf]
    rfl
  split
  · simp only [List.cons_append, List.nil_append, signed?, hdigits, Option.map_some,
      Option.some.injEq, Int.ofNat_eq_natCast]
    omega
  · simp only [List.cons_append, List.nil_append, signed?, hdigits, Option.map_some,
      Option.some.injEq, Int.ofNat_eq_natCast]
    omega

/-- A text that reads as a numeral of a number. -/
def Reads (text : List Char) (r : ℚ) : Prop := ∃ n, unsigned? false text = some n ∧ n.toRat = r

theorem reads_point {whole fraction : List Char} (hw : Digits whole) (hne : whole ≠ [])
    (hf : Digits fraction) : Reads (whole ++ '.' :: fraction)
      (natOfDigits (whole ++ fraction) * (10 : ℚ) ^ (-(fraction.length : ℤ))) := by
  have hread : unsigned? false (whole ++ '.' :: (fraction ++ [])) = some ⟨false, whole, fraction, 0⟩ :=
    unsigned?_point hw hne hf (delimited_nil _) rfl
  rw [List.append_nil] at hread
  exact ⟨_, hread, by rw [Numeral.toRat, zero_sub]⟩

theorem Reads.congr {text : List Char} {r s : ℚ} (h : Reads text r) (hrs : r = s) :
    Reads text s := hrs ▸ h

variable {digits : List Char}

/-- Digits with a point after some of them denote the number of the digits moved by that place. -/
theorem reads_positionalText (hd : Digits digits) (hne : digits ≠ []) (point : ℤ) :
    Reads (positionalText .json digits point)
      (natOfDigits digits * (10 : ℚ) ^ (point - digits.length)) := by
  have hten : (10 : ℚ) ≠ 0 := by norm_num
  cases point with
  | ofNat p =>
      simp only [positionalText]
      split
      · next h0 =>
        refine (reads_point (digits_zeros 1) nofun hd).congr ?_
        rw [natOfDigits_zeros_append, h0]
        simp
      · split
        · next h0 hle =>
          refine (reads_point (hd.append (digits_zeros (p - digits.length))) (by simp [hne])
            (digits_zeros 1)).congr ?_
          rw [natOfDigits_append_zeros, natOfDigits_append_zeros]
          have hp : (Int.ofNat p - digits.length : ℤ) = ((p - digits.length : ℕ) : ℤ) := by
            simp only [Int.ofNat_eq_natCast]
            omega
          rw [hp, zpow_natCast]
          push_cast
          simp [zeros]
        · next h0 hlt =>
          refine (reads_point (fun c hc => hd c (List.mem_of_mem_take hc)) (by simp [hne, h0])
            (fun c hc => hd c (List.mem_of_mem_drop hc))).congr ?_
          rw [List.take_append_drop, List.length_drop]
          congr 2
          simp only [Int.ofNat_eq_natCast]
          omega
  | negSucc p =>
      refine (reads_point (digits_zeros 1) nofun ((digits_zeros (p + 1)).append hd)).congr ?_
      rw [natOfDigits_zeros_append, natOfDigits_zeros_append, List.length_append, zeros,
        List.length_replicate]
      congr 2
      omega

/-- A digit, the others after a point, and an exponent denote the digits with the point after the
first and moved by the exponent. -/
theorem reads_exponentText (hd : Digits digits) (hne : digits ≠ []) (point : ℤ) :
    Reads (exponentText .json digits point)
      (natOfDigits digits * (10 : ℚ) ^ (point - digits.length)) := by
  have hexp : exponent? ('e' :: ((if point - 1 < 0 then ['-'] else ['+']) ++
      digitsOf (point - 1).natAbs)) = some (point - 1) := signed?_exponent _
  match digits with
  | [] => exact absurd rfl hne
  | [d] =>
      refine ⟨⟨false, [d], [], point - 1⟩, unsigned?_whole hd hne ?_ ?_ hexp, ?_⟩
      · simp [Delimited, isDigit]
      · simp
      · simp [Numeral.toRat]
  | d :: d' :: rest =>
      obtain ⟨hfirst, hrest⟩ := List.forall_mem_cons.1 hd
      have hread : unsigned? false ([d] ++ '.' :: (d' :: rest ++ 'e' ::
          ((if point - 1 < 0 then ['-'] else ['+']) ++ digitsOf (point - 1).natAbs))) =
          some ⟨false, [d], d' :: rest, point - 1⟩ :=
        unsigned?_point (by simpa [Digits] using hfirst) (List.cons_ne_nil _ _) hrest
          (by simp [Delimited, isDigit]) hexp
      have htext : exponentText .json (d :: d' :: rest) point = [d] ++ '.' :: (d' :: rest ++ 'e' ::
          ((if point - 1 < 0 then ['-'] else ['+']) ++ digitsOf (point - 1).natAbs)) := by
        simp [exponentText, Layout.json]
      rw [← htext] at hread
      refine ⟨_, hread, ?_⟩
      simp only [Numeral.toRat, List.cons_append, List.nil_append, List.length_cons]
      congr 2
      push_cast
      ring

/-- The text of a decimal denotes the decimal. -/
theorem reads_text (s : Scientific) : Reads (Layout.json.text s) s.toRat := by
  have hd := digits_digitsOf s.digits
  have hne : digitsOf s.digits ≠ [] := Nat.toDigits_ne_nil
  have hval : (natOfDigits (digitsOf s.digits) : ℚ) * (10 : ℚ) ^
      (Int.ofNat (digitsOf s.digits).length + s.exponent - (digitsOf s.digits).length) = s.toRat := by
    rw [natOfDigits_digitsOf, Int.ofNat_eq_natCast, add_sub_cancel_left]
    rfl
  simp only [Layout.text]
  split
  · exact (reads_positionalText hd hne _).congr hval
  · exact (reads_exponentText hd hne _).congr hval

/-! ### The characters of a decimal -/

/-- The characters of numbers. -/
def isNumberChar (c : Char) : Bool := isDigit c || c ∈ ['.', 'e', '+', '-']

theorem Digits.isNumberChar {cs : List Char} (h : Digits cs) : ∀ c ∈ cs, isNumberChar c = true :=
  fun c hc => by simp [Decimal.isNumberChar, h c hc]

theorem isNumberChar_positionalText (hd : Digits digits) (point : ℤ) :
    ∀ c ∈ positionalText .json digits point, isNumberChar c = true := by
  have hdigits := hd.isNumberChar
  have hzeros := fun n => (digits_zeros n).isNumberChar
  have hpoint : isNumberChar '.' = true := by decide
  have hzero : isNumberChar '0' = true := by decide
  intro c hc
  cases point with
  | ofNat p =>
      simp only [positionalText] at hc
      split at hc
      · simp only [List.mem_cons] at hc
        grind
      · split at hc
        · have hsuffix : Layout.json.wholeSuffix.toList = ['.', '0'] := rfl
          simp only [List.mem_append, hsuffix, List.mem_cons] at hc
          grind
        · simp only [List.mem_append, List.mem_cons] at hc
          grind [List.mem_of_mem_take, List.mem_of_mem_drop]
  | negSucc p =>
      simp only [positionalText, List.cons_append, List.mem_cons, List.mem_append] at hc
      grind

theorem isNumberChar_exponentText (hd : Digits digits) (point : ℤ) :
    ∀ c ∈ exponentText .json digits point, isNumberChar c = true := by
  have hdigits := hd.isNumberChar
  have hexponent := fun n => (digits_digitsOf n).isNumberChar
  have hpoint : isNumberChar '.' = true := by decide
  have he : isNumberChar 'e' = true := by decide
  have hminus : isNumberChar '-' = true := by decide
  have hplus : isNumberChar '+' = true := by decide
  have hsign : Layout.json.exponentPlus.toList = ['+'] := rfl
  intro c hc
  simp only [exponentText, hsign, List.mem_append, List.mem_cons] at hc
  grind

theorem isNumberChar_text (s : Scientific) :
    ∀ c ∈ Layout.json.text s, isNumberChar c = true := by
  rw [Layout.text]
  split
  · exact isNumberChar_positionalText (digits_digitsOf _) _
  · exact isNumberChar_exponentText (digits_digitsOf _) _

/-- The text of a decimal is no integer. -/
theorem point_or_exponent_mem_text (s : Scientific) :
    '.' ∈ Layout.json.text s ∨ 'e' ∈ Layout.json.text s := by
  have hsuffix : Layout.json.wholeSuffix.toList = ['.', '0'] := rfl
  rw [Layout.text]
  split
  · left
    simp only [positionalText]
    split
    · split
      · simp
      · split <;> simp [hsuffix]
    · simp
  · right
    simp [exponentText]

/-! ### The text of a double -/

/-- The magnitude of a double without sign. -/
def magnitude (x : Float) : ℕ := x.toBits.toNat % signBit

/-- The sign of a double. -/
def negative (x : Float) : Bool := decide (signBit ≤ x.toBits.toNat)

theorem infinityBits_eq : infinityBits = 9218868437227405312 := by decide

theorem signBit_eq : signBit = 9223372036854775808 := by decide

open Float.Model in
/-- The exponent field of a double is full from the magnitude of infinity on. -/
theorem unpackExponent_eq_iff (bits : UInt64) :
    @UnpackedFloat.unpackExponent .binary64 bits.toBitVec = -1#11 ↔
      infinityBits ≤ bits.toNat % signBit := by
  have hneg : (-1#11).toNat = 2047 := by decide
  rw [UnpackedFloat.unpackExponent_def, ← BitVec.toNat_inj, BitVec.extractLsb'_toNat, hneg,
    Nat.shiftRight_eq_div_pow, UInt64.toNat_toBitVec, infinityBits_eq, signBit_eq]
  simp only [Nat.reducePow]
  omega

open Float.Model in
/-- A double is finite when its magnitude is below that of infinity. -/
theorem isFinite_iff {x : Float} : x.isFinite = true ↔ magnitude x < infinityBits := by
  have hexp := unpackExponent_eq_iff x.toModel.toBits
  rw [← not_iff_not, Nat.not_lt, magnitude, Float.toBits, ← hexp, Float.isFinite,
    Float.Model.isFinite, Float.Model.unpack, UnpackedFloat.unpack]
  by_cases hfull : @UnpackedFloat.unpackExponent .binary64 x.toModel.toBits.toBitVec = -1#11
  · simp only [hfull, if_true]
    split <;> simp [UnpackedFloat.isFinite]
  · simp only [hfull, if_false]
    split
    · split <;> simp [UnpackedFloat.isFinite]
    · simp [UnpackedFloat.isFinite]

/-- The text of a magnitude. -/
def magnitudeText (n : ℕ) : List Char :=
  if n = 0 then ['0', '.', '0'] else Layout.json.text ((Binary.ofMagnitude n).shortest .toEven)

theorem render_of_isFinite {x : Float} (h : x.isFinite = true) :
    Layout.json.render x =
      String.ofList (if negative x then '-' :: magnitudeText (magnitude x)
        else magnitudeText (magnitude x)) := by
  have hlt := isFinite_iff.mp h
  rw [magnitude] at hlt
  rw [Layout.render]
  simp only [Binary.ofBits_eq_ofMagnitude, magnitudeText]
  rw [if_neg (Nat.not_le.2 hlt)]
  rfl

theorem isNumberChar_magnitudeText (n : ℕ) : ∀ c ∈ magnitudeText n, isNumberChar c = true := by
  rw [magnitudeText]
  split
  · simp [isNumberChar, isDigit]
  · exact isNumberChar_text _

theorem point_or_exponent_mem_magnitudeText (n : ℕ) :
    '.' ∈ magnitudeText n ∨ 'e' ∈ magnitudeText n := by
  rw [magnitudeText]
  split
  · exact .inl (by decide)
  · exact point_or_exponent_mem_text _

/-- The text of a magnitude denotes a number that rounds to it. -/
theorem reads_magnitudeText {n : ℕ} (h : n < infinityBits) :
    ∃ r, Reads (magnitudeText n) r ∧ (Binary.ofMagnitude n).Absorbs r := by
  rw [magnitudeText]
  split
  · next h0 =>
    have hval : (natOfDigits (zeros 1 ++ zeros 1) : ℚ) * 10 ^ (-((zeros 1).length : ℤ)) = 0 := by
      rw [natOfDigits_zeros_append, natOfDigits_zeros, Nat.cast_zero, zero_mul]
    refine ⟨0, (reads_point (digits_zeros 1) nofun (digits_zeros 1)).congr hval, ?_⟩
    subst h0
    exact Binary.absorbs_zero
  · next h0 =>
    exact ⟨_, reads_text _, (Binary.finite_ofMagnitude (Nat.pos_of_ne_zero h0) h).absorbs_shortest _⟩

/-- Magnitudes with the same text are the same. -/
theorem magnitudeText_inj {m n : ℕ} (hm : m < infinityBits) (hn : n < infinityBits)
    (h : magnitudeText m = magnitudeText n) : m = n := by
  obtain ⟨r, ⟨v, hv, rfl⟩, hr⟩ := reads_magnitudeText hm
  obtain ⟨s, ⟨w, hw, rfl⟩, hs⟩ := reads_magnitudeText hn
  rw [h, hw] at hv
  cases hv
  exact Binary.eq_of_absorbs hr hs

theorem Reads.head_ne_minus {text : List Char} {r : ℚ} (h : Reads text r) :
    text.head? ≠ some '-' := by
  obtain ⟨n, hn, -⟩ := h
  intro hminus
  obtain ⟨rest, rfl⟩ : ∃ rest, text = '-' :: rest := List.head?_eq_some_iff.1 hminus
  have hnone : unsigned? false ('-' :: rest) = none := by simp [unsigned?, fractionPart, isDigit]
  rw [hnone] at hn
  cases hn

/-- A double is its sign and its magnitude. -/
theorem eq_of_negative_of_magnitude {x y : Float} (hs : negative x = negative y)
    (hm : magnitude x = magnitude y) : x = y := by
  have hx := x.toBits.toNat_lt
  have hy := y.toBits.toNat_lt
  rw [negative, negative, decide_eq_decide, signBit_eq] at hs
  rw [magnitude, magnitude, signBit_eq] at hm
  rw [← Float.toBits_inj, ← UInt64.toNat_inj]
  omega

theorem isNumberChar_render {x : Float} (h : x.isFinite = true) :
    ∀ c ∈ (Layout.json.render x).toList, isNumberChar c = true := by
  rw [render_of_isFinite h, String.toList_ofList]
  split
  · exact List.forall_mem_cons.2 ⟨by decide, isNumberChar_magnitudeText _⟩
  · exact isNumberChar_magnitudeText _

theorem point_or_exponent_mem_render {x : Float} (h : x.isFinite = true) :
    '.' ∈ (Layout.json.render x).toList ∨ 'e' ∈ (Layout.json.render x).toList := by
  have hmem := point_or_exponent_mem_magnitudeText (magnitude x)
  rw [render_of_isFinite h, String.toList_ofList]
  split
  · simpa using hmem
  · exact hmem

/-- Finite doubles with the same text are the same. -/
theorem render_injective {x y : Float} (hx : x.isFinite = true) (hy : y.isFinite = true)
    (h : Layout.json.render x = Layout.json.render y) : x = y := by
  have hmx := isFinite_iff.mp hx
  have hmy := isFinite_iff.mp hy
  obtain ⟨_, hrx, -⟩ := reads_magnitudeText hmx
  obtain ⟨_, hry, -⟩ := reads_magnitudeText hmy
  rw [render_of_isFinite hx, render_of_isFinite hy, String.ofList_inj] at h
  have hsign : negative x = negative y := by
    cases hnx : negative x <;> cases hny : negative y <;> simp only [hnx, hny] at h
    · rfl
    · exact absurd (by simpa using congrArg List.head? h) hrx.head_ne_minus
    · exact absurd (by simpa using congrArg List.head? h.symm) hry.head_ne_minus
    · rfl
  refine eq_of_negative_of_magnitude hsign (magnitudeText_inj hmx hmy ?_)
  rw [hsign] at h
  split at h
  · exact (List.cons_eq_cons.1 h).2
  · exact h

end HvacModel.Decimal
