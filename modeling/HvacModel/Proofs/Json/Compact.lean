import HvacModel.Json.Printer
import HvacModel.Json.Token
import HvacModel.Proofs.Decimal.Written

/-! # Compact text is unambiguous

Values whose numbers are finite have a compact text from which they can be told: in front of any
text that does not go on with a number, the texts of two values are the same only if the values and
what follows are (`Unambiguous`).  It holds of every such value (`unambiguous_of_finite`), so
`Json.compact` is injective on them (`compact_injective`). -/

namespace HvacModel

/-! ### Finite values -/

/-- A number that has a text of its own. -/
def Number.Finite : Number → Prop
  | int _ => True
  | float x => x.isFinite = true

/-- A value whose numbers are finite. -/
inductive Value.Finite : Value → Prop
  | null : Value.Finite .null
  | bool (b : Bool) : Value.Finite (.bool b)
  | number {n : Number} (h : n.Finite) : Value.Finite (.number n)
  | string (s : String) : Value.Finite (.string s)
  | array {items : List Value} (h : ∀ v ∈ items, Value.Finite v) : Value.Finite (.array items)
  | object {fields : List (String × Value)} (h : ∀ f ∈ fields, Value.Finite f.2) :
      Value.Finite (.object fields)

namespace Json

open Decimal (isNumberChar Delimited)

/-! ### Numbers -/

theorem numberText_int (i : ℤ) : (numberText (.int i)).toList =
    if i < 0 then '-' :: Decimal.digitsOf i.natAbs else Decimal.digitsOf i.natAbs := by
  cases i with
  | ofNat n => simp [numberText, toString, Int.repr, Nat.repr_eq_ofList_toDigits, Decimal.digitsOf]
  | negSucc n =>
      simp [numberText, toString, Int.repr, Nat.repr_eq_ofList_toDigits, Decimal.digitsOf,
        Int.negSucc_lt_zero]

theorem isNumberChar_numberText {n : Number} (h : n.Finite) :
    ∀ c ∈ (numberText n).toList, isNumberChar c = true := by
  cases n with
  | float x => exact Decimal.isNumberChar_render h
  | int i =>
      have hdigits := (Decimal.digits_digitsOf i.natAbs).isNumberChar
      rw [numberText_int]
      split
      · exact List.forall_mem_cons.2 ⟨by decide, hdigits⟩
      · exact hdigits

theorem numberText_ne_nil {n : Number} (h : n.Finite) : (numberText n).toList ≠ [] := by
  cases n with
  | float x =>
      intro hnil
      have hmem := Decimal.point_or_exponent_mem_render h
      rw [numberText] at hnil
      simp [hnil] at hmem
  | int i =>
      rw [numberText_int]
      split
      · exact List.cons_ne_nil _ _
      · exact Nat.toDigits_ne_nil

/-- The text of an integer has neither point nor exponent. -/
theorem numberText_int_ne_float (i : ℤ) {x : Float} (h : x.isFinite = true) :
    numberText (.int i) ≠ numberText (.float x) := by
  intro heq
  have hmem : '.' ∈ (numberText (.float x)).toList ∨ 'e' ∈ (numberText (.float x)).toList :=
    Decimal.point_or_exponent_mem_render h
  rw [← heq, numberText_int] at hmem
  have hdigits := Decimal.digits_digitsOf i.natAbs
  have hpoint : '.' ∉ Decimal.digitsOf i.natAbs := fun hc => by simpa [Decimal.isDigit] using hdigits _ hc
  have hexp : 'e' ∉ Decimal.digitsOf i.natAbs := fun hc => by simpa [Decimal.isDigit] using hdigits _ hc
  split at hmem <;> simp [hpoint, hexp] at hmem

theorem numberText_injective {m n : Number} (hm : m.Finite) (hn : n.Finite)
    (h : numberText m = numberText n) : m = n := by
  cases m with
  | int i =>
      cases n with
      | int j => exact congrArg Number.int (Int.repr_inj.1 h)
      | float y => exact absurd h (numberText_int_ne_float i hn)
  | float x =>
      cases n with
      | int j => exact absurd h.symm (numberText_int_ne_float j hm)
      | float y => exact congrArg Number.float (Decimal.render_injective hm hn h)

/-! ### Strings -/

/-- The first character of the text inside a string, and what follows. -/
def unescape : List Char → Option (Char × List Char)
  | '"' :: _ => none
  | '\\' :: 'u' :: _ :: _ :: a :: b :: rest =>
    (hexDigit? a).bind fun m => (hexDigit? b).map fun n => (Char.ofNat (16 * m + n), rest)
  | '\\' :: e :: rest => (escaped? e).map fun c => (c, rest)
  | c :: rest => some (c, rest)
  | [] => none

theorem hexDigit?_hexChar {n : ℕ} (h : n < 16) : hexDigit? (hexChar n) = some n := by
  revert n
  decide

theorem unescape_escape (c : Char) (rest : List Char) :
    unescape (escape c ++ rest) = some (c, rest) := by
  rw [escape]
  split
  · next h => subst h; rfl
  split
  · next h => subst h; rfl
  split
  · next h => subst h; rfl
  split
  · next h => subst h; rfl
  split
  · next h => subst h; rfl
  split
  · next h => subst h; rfl
  split
  · next h => subst h; rfl
  split
  · next h =>
    have hchar : Char.ofNat (16 * (c.toNat / 16) + c.toNat % 16) = c := by
      rw [Nat.div_add_mod]
      exact Char.ofNat_toNat c
    simp only [List.cons_append, List.nil_append, unescape]
    rw [hexDigit?_hexChar (by omega), hexDigit?_hexChar (by omega)]
    simp [hchar]
  · next hq hb _ _ _ _ _ _ =>
    exact unescape.eq_4 _ _ hq (fun _ _ _ _ _ h _ => hb h) (fun _ _ h _ => hb h)

/-- Characters inside a string, in front of its closing quote. -/
def escapeAll (cs : List Char) (rest : List Char) : List Char :=
  cs.foldr (fun c tail => escape c ++ tail) ('"' :: rest)

theorem escapeAll_inj {cs ds rest rest' : List Char} (h : escapeAll cs rest = escapeAll ds rest') :
    cs = ds ∧ rest = rest' := by
  induction cs generalizing ds with
  | nil =>
      cases ds with
      | nil => exact ⟨rfl, (List.cons_eq_cons.1 h).2⟩
      | cons d ds =>
          have hfirst := congrArg unescape h
          simp only [escapeAll, List.foldr_cons, List.foldr_nil, unescape_escape] at hfirst
          cases hfirst
  | cons c cs ih =>
      have hfirst := congrArg unescape h
      cases ds with
      | nil =>
          simp only [escapeAll, List.foldr_cons, List.foldr_nil, unescape_escape] at hfirst
          cases hfirst
      | cons d ds =>
          simp only [escapeAll, List.foldr_cons, unescape_escape, Option.some.injEq,
            Prod.mk.injEq] at hfirst
          obtain ⟨rfl, htail⟩ := hfirst
          obtain ⟨rfl, hrest⟩ := ih htail
          exact ⟨rfl, hrest⟩

theorem quoted_inj {s t : String} {rest rest' : List Char} (h : quoted s rest = quoted t rest') :
    s = t ∧ rest = rest' := by
  obtain ⟨hlist, hrest⟩ := escapeAll_inj (List.cons_eq_cons.1 h).2
  exact ⟨String.toList_injective hlist, hrest⟩

/-! ### Values -/

/-- The kind of the value whose text starts with a character. -/
def kindOf? (c : Char) : Option Value.Kind :=
  if c = 'n' then some .null
  else if c = 't' ∨ c = 'f' then some .boolean
  else if c = '"' then some .string
  else if c = '[' then some .array
  else if c = '\x7b' then some .object
  else if isNumberChar c then some .number
  else none

theorem kindOf?_eq_number {c : Char} (h : isNumberChar c = true) : kindOf? c = some .number := by
  have hne : ∀ d, isNumberChar d = false → c ≠ d := fun d hd heq => by simp [← heq, h] at hd
  simp [kindOf?, hne 'n' (by decide), hne 't' (by decide), hne 'f' (by decide), hne '"' (by decide),
    hne '[' (by decide), hne '\x7b' (by decide), h]

theorem bind_kindOf?_compactValue {v : Value} (hv : v.Finite) (rest : List Char) :
    (compactValue v rest).head?.bind kindOf? = some v.kind := by
  cases hv with
  | null => rfl
  | bool b => cases b <;> rfl
  | string s => rfl
  | @number n hn =>
      have hchars := isNumberChar_numberText hn
      rw [compactValue]
      cases htext : (numberText n).toList with
      | nil => exact absurd htext (numberText_ne_nil hn)
      | cons c cs =>
          rw [htext] at hchars
          simp [kindOf?_eq_number (hchars c (by simp)), Value.kind]
  | @array items h => cases items <;> rfl
  | @object fields h => rcases fields with _ | ⟨⟨key, v⟩, fields⟩ <;> rfl

theorem kind_eq_of_compactValue_eq {v w : Value} {rest rest' : List Char} (hv : v.Finite)
    (hw : w.Finite) (h : compactValue v rest = compactValue w rest') : v.kind = w.kind := by
  have hkind := bind_kindOf?_compactValue hv rest
  rw [h, bind_kindOf?_compactValue hw] at hkind
  exact (Option.some.inj hkind).symm

theorem head?_compactValue_ne {v : Value} (hv : v.Finite) (rest : List Char) :
    (compactValue v rest).head? ≠ some ']' := by
  intro h
  have hkind := bind_kindOf?_compactValue hv rest
  rw [h] at hkind
  have hnone : kindOf? ']' = none := by decide
  simp [hnone] at hkind

/-- A value that can be told from the front of a text, if what follows does not go on with a
number. -/
def Unambiguous (v : Value) : Prop :=
  ∀ {w : Value} {rest rest' : List Char}, w.Finite → Delimited isNumberChar rest →
    Delimited isNumberChar rest' → compactValue v rest = compactValue w rest' →
      v = w ∧ rest = rest'

theorem delimited_compactItems (items : List Value) (rest : List Char) :
    Delimited isNumberChar (compactItems items rest) := by
  cases items <;> simp [compactItems, Delimited, isNumberChar, Decimal.isDigit]

theorem delimited_compactFields (fields : List (String × Value)) (rest : List Char) :
    Delimited isNumberChar (compactFields fields rest) := by
  rcases fields with _ | ⟨⟨key, v⟩, fields⟩ <;>
    simp [compactFields, Delimited, isNumberChar, Decimal.isDigit]

theorem compactItems_inj {items items' : List Value} {rest rest' : List Char}
    (hv : ∀ v ∈ items, Unambiguous v) (hw : ∀ w ∈ items', w.Finite)
    (h : compactItems items rest = compactItems items' rest') : items = items' ∧ rest = rest' := by
  induction items generalizing items' with
  | nil =>
      cases items' with
      | nil => simpa [compactItems] using h
      | cons w items' => simp [compactItems] at h
  | cons v items ih =>
      cases items' with
      | nil => simp [compactItems] at h
      | cons w items' =>
          simp only [compactItems, List.cons.injEq, true_and] at h
          obtain ⟨rfl, htail⟩ := hv v (by simp) (hw w (by simp)) (delimited_compactItems _ _)
            (delimited_compactItems _ _) h
          obtain ⟨rfl, hrest⟩ := ih (fun u hu => hv u (by simp [hu])) (fun u hu => hw u (by simp [hu]))
            htail
          exact ⟨rfl, hrest⟩

theorem compactFields_inj {fields fields' : List (String × Value)} {rest rest' : List Char}
    (hv : ∀ f ∈ fields, Unambiguous f.2) (hw : ∀ f ∈ fields', f.2.Finite)
    (h : compactFields fields rest = compactFields fields' rest') :
    fields = fields' ∧ rest = rest' := by
  induction fields generalizing fields' with
  | nil =>
      rcases fields' with _ | ⟨⟨key', w⟩, fields'⟩
      · simpa [compactFields] using h
      · simp [compactFields] at h
  | cons f fields ih =>
      obtain ⟨key, v⟩ := f
      rcases fields' with _ | ⟨⟨key', w⟩, fields'⟩
      · simp [compactFields] at h
      · simp only [compactFields, List.cons.injEq, true_and] at h
        obtain ⟨rfl, hentry⟩ := quoted_inj h
        obtain ⟨rfl, htail⟩ := hv (key, v) (by simp) (hw (key, w) (by simp))
          (delimited_compactFields _ _) (delimited_compactFields _ _) (List.cons_eq_cons.1 hentry).2
        obtain ⟨rfl, hrest⟩ := ih (fun f hf => hv f (by simp [hf])) (fun f hf => hw f (by simp [hf]))
          htail
        exact ⟨rfl, hrest⟩

theorem compactArray_inj {items items' : List Value} {rest rest' : List Char}
    (hv : ∀ v ∈ items, v.Finite ∧ Unambiguous v) (hw : ∀ w ∈ items', w.Finite)
    (h : compactValue (.array items) rest = compactValue (.array items') rest') :
    items = items' ∧ rest = rest' := by
  cases items with
  | nil =>
      cases items' with
      | nil => simpa [compactValue] using h
      | cons w items' =>
          have hhead := congrArg List.head? (List.cons_eq_cons.1 h).2
          exact absurd hhead.symm (head?_compactValue_ne (hw w (by simp)) _)
  | cons v items =>
      cases items' with
      | nil =>
          have hhead := congrArg List.head? (List.cons_eq_cons.1 h).2
          exact absurd hhead (head?_compactValue_ne (hv v (by simp)).1 _)
      | cons w items' =>
          apply compactItems_inj (fun v hmem => (hv v hmem).2) hw
          simpa [compactValue, compactItems] using h

theorem compactObject_inj {fields fields' : List (String × Value)} {rest rest' : List Char}
    (hv : ∀ f ∈ fields, Unambiguous f.2) (hw : ∀ f ∈ fields', f.2.Finite)
    (h : compactValue (.object fields) rest = compactValue (.object fields') rest') :
    fields = fields' ∧ rest = rest' := by
  rcases fields with _ | ⟨⟨key, v⟩, fields⟩ <;> rcases fields' with _ | ⟨⟨key', w⟩, fields'⟩
  · simpa [compactValue] using h
  · simp [compactValue, quoted] at h
  · simp [compactValue, quoted] at h
  · apply compactFields_inj hv hw
    simpa [compactValue, compactFields] using h

/-- A number ends where the text does not go on with one. -/
theorem numberText_append_inj {m n : Number} {rest rest' : List Char} (hm : m.Finite)
    (hn : n.Finite) (hr : Delimited isNumberChar rest) (hr' : Delimited isNumberChar rest')
    (h : (numberText m).toList ++ rest = (numberText n).toList ++ rest') :
    m = n ∧ rest = rest' := by
  have htake := congrArg (List.takeWhile isNumberChar) h
  have hdrop := congrArg (List.dropWhile isNumberChar) h
  rw [Decimal.takeWhile_run (isNumberChar_numberText hm) hr,
    Decimal.takeWhile_run (isNumberChar_numberText hn) hr'] at htake
  rw [Decimal.dropWhile_run (isNumberChar_numberText hm) hr,
    Decimal.dropWhile_run (isNumberChar_numberText hn) hr'] at hdrop
  exact ⟨numberText_injective hm hn (String.toList_injective htake), hdrop⟩

/-- Finite values can be told from their texts. -/
theorem unambiguous_of_finite {v : Value} (hv : v.Finite) : Unambiguous v := by
  induction hv with
  | null =>
      intro w rest rest' hw hr hr' h
      have hkind := kind_eq_of_compactValue_eq .null hw h
      cases hw with
      | null => simpa [compactValue] using h
      | _ => cases hkind
  | bool b =>
      intro w rest rest' hw hr hr' h
      have hkind := kind_eq_of_compactValue_eq (.bool b) hw h
      cases hw with
      | bool b' => cases b <;> cases b' <;> simp_all [compactValue]
      | _ => cases hkind
  | string s =>
      intro w rest rest' hw hr hr' h
      have hkind := kind_eq_of_compactValue_eq (.string s) hw h
      cases hw with
      | string t =>
          obtain ⟨rfl, hrest⟩ := quoted_inj h
          exact ⟨rfl, hrest⟩
      | _ => cases hkind
  | number hm =>
      intro w rest rest' hw hr hr' h
      have hkind := kind_eq_of_compactValue_eq (.number hm) hw h
      cases hw with
      | number hn =>
          obtain ⟨rfl, hrest⟩ := numberText_append_inj hm hn hr hr' h
          exact ⟨rfl, hrest⟩
      | _ => cases hkind
  | @array items hitems ih =>
      intro w rest rest' hw hr hr' h
      have hkind := kind_eq_of_compactValue_eq (.array hitems) hw h
      cases hw with
      | @array items' hitems' =>
          obtain ⟨rfl, hrest⟩ := compactArray_inj (fun v hmem => ⟨hitems v hmem, ih v hmem⟩) hitems' h
          exact ⟨rfl, hrest⟩
      | _ => cases hkind
  | @object fields hfields ih =>
      intro w rest rest' hw hr hr' h
      have hkind := kind_eq_of_compactValue_eq (.object hfields) hw h
      cases hw with
      | @object fields' hfields' =>
          obtain ⟨rfl, hrest⟩ := compactObject_inj ih hfields' h
          exact ⟨rfl, hrest⟩
      | _ => cases hkind

/-- Finite values with the same compact text are the same. -/
theorem compact_injective {v w : Value} (hv : v.Finite) (hw : w.Finite)
    (h : compact v = compact w) : v = w :=
  (unambiguous_of_finite hv hw (Decimal.delimited_nil _) (Decimal.delimited_nil _)
    (String.ofList_inj.1 h)).1

end Json

end HvacModel
