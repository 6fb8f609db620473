import HvacModel.Proofs.Reading.ScheduleDays
import HvacModel.Proofs.Transcript.Fields

/-! # Reading keeps everything: schedules

The days of a schedule are collected in two steps.  What is read first has no positions: the days
under names, and rules that still hold their day (`LooseRuleFields`).  Then the rules are placed, and
each inline day goes to the end of the list of days so far.  `forall₂_placeRules` follows this with
the list of day entries that stand before the rules still to be placed; its length is the position
which the next inline day gets. -/

namespace HvacModel.Transcript

open Report Grammar Document Document.Read Declared

variable (path : Path)

/-! ### Days -/

theorem yields_day (key : String) {value : Value} (h : IsDay value) :
    Yields (day path key value) (DayOf key value) := by
  obtain ⟨fields, entries, points, rfl, hname, hf, hrun, hvalue⟩ := value_day path key h
  have hpoints : List.Forall₂ (fun e p => BreakpointOf e.1 e.2 p) entries points :=
    hrun.1.forall₂.imp fun _ _ h => ⟨h.1, h.2⟩
  exact ⟨_, hvalue, fields, rfl, rfl, nameOf_nameOr path key hname, .object entries, hf, entries,
    rfl, hpoints⟩

/-! ### Rules -/

/-- The day of a rule that has no position yet. -/
def LooseDayOf (key : String) (value : Value) : RuleDay → Prop
  | .named name => value = .string name
  | .inline p => ∃ body, value = .object body ∧
      DayOf (Path.join key "day_schedule") (.object body) p

structure LooseRuleFields (under : String) (fields : Fields) (r : LooseRule) : Prop where
  key : r.key = under
  name : NameOf under fields r.name
  appliesTo : ∀ d, r.appliesTo.contains d = applies d (.object fields)
  day : FieldOf (LooseDayOf under) fields "day_schedule" r.day

theorem yields_ruleDay (key : String) {value : Value} (h : IsString value ∨ IsDay value) :
    Yields (ruleDay path key value) (LooseDayOf key value) := by
  rcases h with ⟨name, rfl⟩ | h
  · exact ⟨.named name, rfl, rfl⟩
  · obtain ⟨p, hp, hof⟩ := yields_day path (Path.join key "day_schedule") h
    obtain ⟨body, rfl, -⟩ := h
    refine ⟨.inline p, ?_, body, rfl, hof⟩
    rw [ruleDay, value_bind, hp]
    rfl

theorem yields_rule {e : String × Value} (h : IsRule e.2) :
    Yields (rule path e) (ObjectOf (LooseRuleFields e.1) e.2) := by
  refine yields_object _ h ?_
  rintro fields ⟨-, hname, -, value, hf, hday⟩
  obtain ⟨found, hvalue, hof⟩ :=
    yields_ruleDay ((path.child e.1).child "day_schedule") e.1 hday
  refine ⟨⟨e.1, _, _, found⟩, ?_, rfl, nameOf_nameOr (path.child e.1) e.1 hname,
    fun d => (applies_eq (path.child e.1) fields d).symm, value, hf, hof⟩
  simp only [value_bind, value_required, hf, whenSome_some, hvalue, value_pure, Option.map_some]

/-! ### Placing the rules -/

theorem inlineDay?_of_named {key name : String} {fields : Fields} (position : Nat)
    (h : Value.field? fields "day_schedule" = some (.string name)) :
    inlineDay? ((key, .object fields), position) = none := by
  rw [inlineDay?, at?_key, h]

theorem inlineDay?_of_inline {key : String} {fields body : Fields} (position : Nat)
    (h : Value.field? fields "day_schedule" = some (.object body)) :
    inlineDay? ((key, .object fields), position) =
      some ⟨.rule position, Path.join key "day_schedule", .object body⟩ := by
  rw [inlineDay?, at?_key, h]

/-- What entries are related to does not depend on their positions. -/
theorem forall₂_zipIdx {α β : Type} {R : α → β → Prop} {as : List α} {bs : List β}
    (h : List.Forall₂ R as bs) (k : Nat) : List.Forall₂ (fun e b => R e.1 b) (as.zipIdx k) bs := by
  rw [← List.zipIdx_map_fst k as, List.forall₂_map_left_iff] at h
  exact h

/-- The days written inside rules are those that the rules hold. -/
theorem forall₂_inlineDays {rules : Fields} {loose : List LooseRule}
    (h : List.Forall₂ (fun e r => ObjectOf (LooseRuleFields e.1) e.2 r) rules loose) (k : Nat) :
    List.Forall₂ (fun e p => DayOf e.key e.value p)
      ((rules.zipIdx k).filterMap inlineDay?) (inlineDays loose) := by
  refine List.rel_filterMap ?_ (forall₂_zipIdx h k)
  rintro ⟨⟨key, value⟩, i⟩ ⟨rkey, name, days, held⟩ ⟨fields, rfl, -, -, -, found, hf, hday⟩
  cases held with
  | named text =>
      cases hday
      rw [inlineDay?_of_named i hf]
      exact .none
  | inline p =>
      obtain ⟨body, rfl, hp⟩ := hday
      rw [inlineDay?_of_inline i hf]
      exact .some hp

/-- Rules that are placed after some days refer to those days and the inline ones which follow. -/
theorem forall₂_placeRules {rules : Fields} {loose : List LooseRule}
    (h : List.Forall₂ (fun e r => ObjectOf (LooseRuleFields e.1) e.2 r) rules loose)
    (front : List DayEntry) (k : Nat) :
    List.Forall₂ (fun e r => ObjectOf
        (RuleFields (front ++ (rules.zipIdx k).filterMap inlineDay?) e.1.1 e.2) e.1.2 r)
      (rules.zipIdx k) (placeRules front.length loose) := by
  induction h generalizing front k with
  | nil => exact .nil
  | @cons e r rules loose hof hrest ih =>
      obtain ⟨key, value⟩ := e
      obtain ⟨rkey, name, days, held⟩ := r
      obtain ⟨fields, rfl, hkey, hname, happlies, found, hf, hday⟩ := hof
      rw [List.zipIdx_cons]
      cases held with
      | named text =>
          cases hday
          rw [List.filterMap_cons_none (inlineDay?_of_named k hf)]
          exact .cons ⟨fields, rfl, hkey, hname, happlies, hf⟩ (ih front (k + 1))
      | inline p =>
          -- the day goes after those of the front, and the rest is placed after both
          obtain ⟨body, rfl, -⟩ := hday
          have hrest := ih (front ++ [⟨.rule k, Path.join key "day_schedule", .object body⟩])
            (k + 1)
          rw [List.length_append, List.length_singleton, List.append_assoc,
            List.singleton_append] at hrest
          rw [List.filterMap_cons_some (inlineDay?_of_inline k hf)]
          refine .cons ⟨fields, rfl, hkey, hname, happlies, ?_⟩ hrest
          simp only [RuleDayOf, List.getElem?_append_right (Nat.le_refl _), Nat.sub_self,
            List.getElem?_cons_zero, Option.map_some]

/-! ### Positions -/

theorem findIdx?_builtinDay (fields : Fields) (key other : String) :
    ((builtinDay? fields key).toList.findIdx? fun e => e.place = .builtin other) =
      if key = other then (builtinDay? fields key).map fun _ => 0 else none := by
  unfold builtinDay?
  cases Value.field? fields key with
  | none => simp
  | some day => simp [List.findIdx?_cons]

theorem findIdx?_customDay (entries : List ((String × Value) × Nat)) (key : String) :
    ((entries.map customDay).findIdx? fun e => e.place = .builtin key) = none := by
  rw [List.findIdx?_eq_none_iff]
  intro e he
  obtain ⟨_, -, rfl⟩ := List.mem_map.mp he
  rfl

theorem findIdx?_inlineDay (rules : List ((String × Value) × Nat)) (key : String) :
    ((rules.filterMap inlineDay?).findIdx? fun e => e.place = .builtin key) = none := by
  rw [List.findIdx?_eq_none_iff]
  intro e he
  obtain ⟨rule, -, hentry⟩ := List.mem_filterMap.mp he
  unfold inlineDay? at hentry
  split at hentry
  · cases hentry
    rfl
  · cases hentry

/-- The days under names, one by one. -/
theorem dayEntries_eq (fields : Fields) :
    dayEntries fields =
      (builtinDay? fields "default_day").toList ++
        (builtinDay? fields "summer_design_day").toList ++
        (builtinDay? fields "winter_design_day").toList ++
        (table (.object fields) "day_schedules").zipIdx.map customDay ++
        (table (.object fields) "schedule_rules").zipIdx.filterMap inlineDay? := by
  rw [dayEntries, builtinDays, List.filterMap_eq_flatMap_toList]
  simp only [List.flatMap_cons, List.flatMap_nil, List.append_nil, List.append_assoc]

/-- The position of a day with a field of its own is the number of those before it. -/
theorem findIdx?_dayEntries (fields : Fields) :
    ((dayEntries fields).findIdx? fun e => e.place = .builtin "default_day") =
        ((builtinDay? fields "default_day").map fun _ => 0) ∧
      ((dayEntries fields).findIdx? fun e => e.place = .builtin "summer_design_day") =
        ((builtinDay? fields "summer_design_day").map fun _ =>
          (builtinDay? fields "default_day").toList.length) ∧
      ((dayEntries fields).findIdx? fun e => e.place = .builtin "winter_design_day") =
        ((builtinDay? fields "winter_design_day").map fun _ =>
          ((builtinDay? fields "default_day").toList ++
            (builtinDay? fields "summer_design_day").toList).length) := by
  simp only [dayEntries_eq, List.findIdx?_append, findIdx?_builtinDay, findIdx?_customDay,
    findIdx?_inlineDay]
  simp [Function.comp_def]

theorem position?_of_forall₂ {R : DayEntry → DayProfile → Prop} {entry : Option DayEntry}
    {found : Option DayProfile} (h : List.Forall₂ R entry.toList found.toList) (n : Nat) :
    position? n found = entry.map fun _ => n := by
  cases entry with
  | none =>
      cases found with
      | none => rfl
      | some p => cases h
  | some e =>
      cases found with
      | none => cases h
      | some p => rfl

/-! ### Schedules -/

theorem forall₂_namedDay {fields : Fields} {key : String} (h : MayHave fields key IsDay) :
    List.Forall₂ (fun e p => DayOf e.key e.value p) (builtinDay? fields key).toList
      (namedDay path fields key).value.toList := by
  unfold namedDay builtinDay?
  cases hf : Value.field? fields key with
  | none => exact .nil
  | some value =>
      obtain ⟨p, hp, hof⟩ := yields_day (path.child key) key (h value hf)
      rw [whenSome_some, hp]
      exact .cons hof .nil

theorem forall₂_customDay {entries : Fields} {days : List DayProfile}
    (h : List.Forall₂ (fun e p => DayOf e.1 e.2 p) entries days) :
    List.Forall₂ (fun e p => DayOf e.key e.value p) (entries.zipIdx.map customDay) days :=
  List.forall₂_map_left_iff.mpr (forall₂_zipIdx h 0)

theorem yields_schedule {e : String × Value} (h : IsSchedule e.2) :
    Yields (schedule path e) (ScheduleOf e.1 e.2) := by
  refine yields_object _ h ?_
  rintro fields ⟨-, hname, hbuiltin, hcustom, hrules⟩
  have hd := forall₂_namedDay (path.child e.1) (hbuiltin "default_day" (by decide))
  have hs := forall₂_namedDay (path.child e.1) (hbuiltin "summer_design_day" (by decide))
  have hw := forall₂_namedDay (path.child e.1) (hbuiltin "winter_design_day" (by decide))
  have hc := forall₂_customDay (optionalTable_of_mayHave (path.child e.1)
    (fun path f => day (path.child f.1) f.1 f.2) hcustom fun f hf => yields_day _ f.1 hf)
  have hr := optionalTable_of_mayHave (path.child e.1) rule hrules fun f hf => yields_rule _ hf
  obtain ⟨hdefault, hsummer, hwinter⟩ := findIdx?_dayEntries fields
  have hdeclared := List.rel_append (List.rel_append (List.rel_append hd hs) hw) hc
  refine ⟨_, rfl, rfl, nameOf_nameOr (path.child e.1) e.1 hname, ?_, ?_, ?_, ?_, ?_⟩
  · rw [dayEntries_eq]
    exact List.rel_append hdeclared (forall₂_inlineDays hr 0)
  · rw [hdefault, position?_of_forall₂ hd]
  · rw [hsummer, position?_of_forall₂ hs, ← hd.length_eq]
  · rw [hwinter, position?_of_forall₂ hw, ← (List.rel_append hd hs).length_eq]
  · rw [dayEntries_eq, ← hdeclared.length_eq]
    exact forall₂_placeRules hr _ 0

end HvacModel.Transcript
