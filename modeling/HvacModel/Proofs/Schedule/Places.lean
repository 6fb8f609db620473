import HvacModel.Proofs.Related
import HvacModel.Proofs.Transcript.Schedules

/-! # Places of days

The days of a schedule that is read stand in the order of the places where they are written: the
fields of the schedule that hold a day, its table of days, and its rules.  A name leads to the first
day of the name, which is the one whose field has the name if there is one
(`findIdx?_key_of_place`).  Each rule that holds a day has one position among the last ones
(`isInline_iff`), so behind a day of a rule there are only days of rules (`isInline_of_le`). -/

namespace HvacModel

open Declared Transcript

/-! ### Entries -/

section Places

variable {fields : Grammar.Fields} {key : String} {i : Nat} {e : DayEntry}

theorem place_of_mem_builtinDays
    (h : e ∈ Grammar.builtinDays.filterMap (builtinDay? fields)) : e.place = .builtin e.key := by
  obtain ⟨name, -, he⟩ := List.mem_filterMap.mp h
  obtain ⟨day, -, rfl⟩ := Option.map_eq_some_iff.mp he
  rfl

/-- The first day of a name is the one whose field has that name, if there is one. -/
theorem findIdx?_key_of_place
    (h : ((dayEntries fields).findIdx? fun e => e.place = .builtin key) = some i) :
    ((dayEntries fields).findIdx? fun e => e.key = key) = some i := by
  have hplaces : (Grammar.builtinDays.filterMap (builtinDay? fields)).map DayEntry.place =
      (Grammar.builtinDays.filterMap (builtinDay? fields)).map fun e => .builtin e.key :=
    List.map_congr_left fun e he => place_of_mem_builtinDays he
  -- among the days with a field of their own the name decides, and they come first
  have hsame := congrArg (List.findIdx? fun place => place = DayPlace.builtin key) hplaces
  rw [List.findIdx?_map, List.findIdx?_map] at hsame
  simp only [Function.comp_def, DayPlace.builtin.injEq] at hsame
  rw [dayEntries, List.findIdx?_append, List.findIdx?_append, findIdx?_customDay,
    findIdx?_inlineDay, hsame] at h
  rw [dayEntries, List.append_assoc, List.findIdx?_append]
  simp only [Option.map_none, Option.or_none] at h
  rw [h, Option.some_or]

/-- The days that stand under names. -/
def Transcript.declaredDays (fields : Grammar.Fields) : List DayEntry :=
  Grammar.builtinDays.filterMap (builtinDay? fields) ++
    (table (.object fields) "day_schedules").zipIdx.map customDay

/-- The days that stand in rules. -/
def Transcript.ruleDays (fields : Grammar.Fields) : List DayEntry :=
  (table (.object fields) "schedule_rules").zipIdx.filterMap inlineDay?

theorem dayEntries_eq_append (fields : Grammar.Fields) :
    dayEntries fields = declaredDays fields ++ ruleDays fields := rfl

theorem place_ne_rule_of_mem (h : e ∈ declaredDays fields) (position : Nat) :
    e.place ≠ .rule position := by
  intro hplace
  rcases List.mem_append.mp h with hbuiltin | hcustom
  · rw [place_of_mem_builtinDays hbuiltin] at hplace
    cases hplace
  · obtain ⟨_, -, rfl⟩ := List.mem_map.mp hcustom
    cases hplace

/-- A day that stands in a rule stands in the one of its place. -/
theorem place_of_inlineDay? {rule : String × Value} {position : Nat}
    (h : inlineDay? (rule, position) = some e) : e.place = .rule position ∧
      ∃ body, rule.2.at? [.key "day_schedule"] = some (.object body) := by
  unfold inlineDay? at h
  split at h
  · rename_i body hday
    cases h
    exact ⟨rfl, body, hday⟩
  · cases h

theorem exists_place_of_mem (h : e ∈ ruleDays fields) : ∃ position, e.place = .rule position := by
  obtain ⟨⟨rule, position⟩, -, he⟩ := List.mem_filterMap.mp h
  exact ⟨position, (place_of_inlineDay? he).1⟩

theorem exists_of_place_rule (h : e ∈ dayEntries fields) {position : Nat}
    (hplace : e.place = .rule position) :
    ∃ rule body, (table (.object fields) "schedule_rules")[position]? = some rule ∧
      rule.2.at? [.key "day_schedule"] = some (.object body) := by
  rw [dayEntries_eq_append, List.mem_append] at h
  rcases h with hdeclared | hinline
  · exact absurd hplace (place_ne_rule_of_mem hdeclared position)
  · obtain ⟨⟨rule, i⟩, hmem, hentry⟩ := List.mem_filterMap.mp hinline
    rw [List.mk_mem_zipIdx_iff_getElem?] at hmem
    obtain ⟨hi, body, hday⟩ := place_of_inlineDay? hentry
    rw [hi, DayPlace.rule.injEq] at hplace
    exact ⟨rule, body, hplace ▸ hmem, hday⟩

/-- The days of rules come last. -/
theorem exists_place_iff (h : (dayEntries fields)[i]? = some e) :
    (∃ position, e.place = .rule position) ↔ (declaredDays fields).length ≤ i := by
  rw [dayEntries_eq_append] at h
  rcases Nat.lt_or_ge i (declaredDays fields).length with hlt | hge
  · rw [List.getElem?_append_left hlt] at h
    have hmem := List.mem_of_getElem? h
    exact iff_of_false (fun ⟨position, hplace⟩ => place_ne_rule_of_mem hmem position hplace)
      (Nat.not_le.mpr hlt)
  · rw [List.getElem?_append_right hge] at h
    exact iff_of_true (exists_place_of_mem (List.mem_of_getElem? h)) hge

theorem nodup_places_ruleDays (fields : Grammar.Fields) :
    ((ruleDays fields).map DayEntry.place).Nodup := by
  have hpositions :
      (List.range' 0 (table (.object fields) "schedule_rules").length).Nodup := List.nodup_range'
  rw [← List.zipIdx_map_snd, List.Nodup, List.pairwise_map] at hpositions
  rw [ruleDays, List.Nodup, List.pairwise_map, List.pairwise_filterMap]
  refine hpositions.imp fun {a b} hne e he e' he' hplace => hne ?_
  rw [(place_of_inlineDay? he).1, (place_of_inlineDay? he').1, DayPlace.rule.injEq] at hplace
  exact hplace

/-- A rule holds one day at most. -/
theorem eq_of_place_rule {j : Nat} {e' : DayEntry} {position : Nat}
    (hi : (dayEntries fields)[i]? = some e) (hj : (dayEntries fields)[j]? = some e')
    (he : e.place = .rule position) (he' : e'.place = .rule position) : i = j := by
  have hilast := (exists_place_iff hi).mp ⟨position, he⟩
  have hjlast := (exists_place_iff hj).mp ⟨position, he'⟩
  rw [dayEntries_eq_append, List.getElem?_append_right hilast] at hi
  rw [dayEntries_eq_append, List.getElem?_append_right hjlast] at hj
  have hsame : ((ruleDays fields).map DayEntry.place)[i - (declaredDays fields).length]? =
      ((ruleDays fields).map DayEntry.place)[j - (declaredDays fields).length]? := by
    rw [List.getElem?_map, List.getElem?_map, hi, hj, Option.map_some, Option.map_some, he, he']
  have hlt : i - (declaredDays fields).length < ((ruleDays fields).map DayEntry.place).length := by
    rw [List.length_map]
    exact (List.getElem?_eq_some_iff.mp hi).1
  have := (List.getElem?_inj hlt (nodup_places_ruleDays fields)).mp hsame
  omega

end Places

/-! ### Positions -/

section Positions

variable {under : String} {fields : Grammar.Fields} {s : Document.Schedule} {i : Nat}

theorem findIdx?_days (h : ScheduleFields under fields s) (key : String) :
    (s.days.findIdx? fun p => p.key = key) = (dayEntries fields).findIdx? fun e => e.key = key := by
  have hkeys : (dayEntries fields).map DayEntry.key = s.days.map DayProfile.key :=
    h.days.map_eq fun e p hp => by
      obtain ⟨_, -, hday⟩ := hp
      exact hday.key.symm
  have hfound := congrArg (List.findIdx? fun name => name = key) hkeys
  rw [List.findIdx?_map, List.findIdx?_map] at hfound
  exact hfound.symm

/-- What a rule holds stands at the position of its place. -/
theorem exists_entry_of_inline (h : ScheduleFields under fields s) {r : Document.Rule}
    (hr : r ∈ s.rules) (hday : r.day = .inline i) :
    ∃ e position, (dayEntries fields)[i]? = some e ∧ e.place = .rule position := by
  obtain ⟨⟨_, position⟩, -, body, -, hrule⟩ := h.rules.exists_left hr
  have hposition := hrule.day
  rw [hday, RuleDayOf, Option.map_eq_some_iff] at hposition
  obtain ⟨e, hentry, hplace⟩ := hposition
  exact ⟨e, position, hentry, hplace⟩

/-- A day is that of a rule when it is written inside one. -/
theorem isInline_iff (h : ScheduleFields under fields s) : s.isInline i = true ↔
    ∃ e position, (dayEntries fields)[i]? = some e ∧ e.place = .rule position := by
  rw [Document.Schedule.isInline, List.any_eq_true]
  constructor
  · rintro ⟨r, hr, hday⟩
    exact exists_entry_of_inline h hr (by simpa using hday)
  · rintro ⟨e, position, hentry, hplace⟩
    obtain ⟨rule, body, hraw, hobject⟩ :=
      exists_of_place_rule (List.mem_of_getElem? hentry) hplace
    obtain ⟨r, hr, fields', hvalue, hrule⟩ :=
      h.rules.exists_right (List.mk_mem_zipIdx_iff_getElem?.mpr hraw)
    refine ⟨r, hr, ?_⟩
    rw [hvalue, Document.Read.at?_key] at hobject
    have hday := hrule.day
    cases hr : r.day with
    | named name =>
        rw [hr, RuleDayOf, hobject] at hday
        cases hday
    | inline index =>
        rw [hr, RuleDayOf, Option.map_eq_some_iff] at hday
        obtain ⟨e', hentry', hplace'⟩ := hday
        simpa using eq_of_place_rule hentry' hentry hplace' hplace

/-- Behind the day of a rule there are only days of rules. -/
theorem isInline_of_le (h : ScheduleFields under fields s) {j : Nat}
    (hj : s.isInline j = true) (hle : j ≤ i) (hi : i < s.days.length) : s.isInline i = true := by
  obtain ⟨e, position, hentry, hplace⟩ := (isInline_iff h).mp hj
  have hfirst := (exists_place_iff hentry).mp ⟨position, hplace⟩
  have hlt : i < (dayEntries fields).length := h.days.length_eq ▸ hi
  have hat := List.getElem?_eq_getElem hlt
  obtain ⟨position', hplace'⟩ := (exists_place_iff hat).mpr (Nat.le_trans hfirst hle)
  exact (isInline_iff h).mpr ⟨_, position', hat, hplace'⟩

end Positions

end HvacModel
