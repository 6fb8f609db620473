import Mathlib.Data.List.MinMax
import HvacModel.Proofs.Reading.Schedules
import HvacModel.Proofs.Skeleton.Errors

/-! # Issues about the time keys of a day

The keys of a day are times that increase from midnight.  A key that is no time is reported whatever
stands under it.  The order of the others is that of the keys with a number: an entry without one is
reported for its value, and is passed over by the checks of the order and of the start of the day.

`entryIssue?` and `midnightIssue?` say from the entries alone which issue there is, with
`numbered` for the times of the entries that have a number.  Reading remembers one time only, that
of the breakpoint accepted last; it is the latest of all numbered times so far (`last_accept`), so
the issues of a day are exactly those (`timeKeys_exact`). -/

namespace HvacModel.Document.Read

open Report (whenSome)
open Grammar (Fields)

variable (path : Path)

/-! ### What there is to report -/

/-- The time of a key: any but the end of the day. -/
def keyTime (text : String) : Except TimeKeyFault TimeOfDay :=
  match TimeOfDay.read text with
  | .ok time => if time.isEndOfDay then .error .endOfDay else .ok time
  | .error fault => .error (.unreadable fault)

/-- The time of an entry with a number. -/
def numberedTime? (e : String × Value) : Option TimeOfDay :=
  if e.2.kind = .number then (keyTime e.1).toOption else none

/-- The times of the entries that have a number. -/
def numbered (entries : Fields) : List TimeOfDay := entries.filterMap numberedTime?

/-- The latest of some times. -/
def latest? (times : List TimeOfDay) : Option TimeOfDay := times.argmax TimeOfDay.minutes

/-- The issue of the key of an entry after others: it is no time, or not later than the latest time
before it. -/
def entryIssue? (s : Fields × (String × Value)) : Option Issue :=
  match keyTime s.2.1 with
  | .error fault => some ⟨path.child s.2.1, .invalidTimeKey s.2.1 fault⟩
  | .ok time =>
    if s.2.2.kind = .number then
      ((latest? (numbered s.1)).filter fun latest => time ≤ latest).map fun latest =>
        ⟨path.child s.2.1, .timeKeysNotIncreasing latest time⟩
    else none

/-- The issue of a key that is no time. -/
def invalidIssue? (text : String) : Option Issue :=
  match keyTime text with
  | .error fault => some ⟨path.child text, .invalidTimeKey text fault⟩
  | .ok _ => none

/-- The issue of a day whose first time is not midnight. -/
def midnightIssue? (times : List TimeOfDay) : Option Issue :=
  (times.head?.filter fun first => first ≠ .midnight).map fun first =>
    ⟨path, .dayMustStartAtMidnight first⟩

/-- Whether an issue is about time keys. -/
def isTimeIssue (issue : Issue) : Bool :=
  match issue.kind with
  | .invalidTimeKey _ _ | .timeKeysNotIncreasing _ _ | .dayMustStartAtMidnight _ => true
  | _ => false

/-- Whether an issue is about a key that is no time. -/
def isInvalidKey (issue : Issue) : Bool :=
  match issue.kind with
  | .invalidTimeKey _ _ => true
  | _ => false

/-! ### The latest time -/

theorem latest?_concat (times : List TimeOfDay) (time : TimeOfDay) :
    latest? (times ++ [time]) =
      (match (latest? times).filter fun latest => time ≤ latest with
        | some latest => some latest
        | none => some time) := by
  rw [latest?, List.argmax_concat, ← latest?]
  cases latest? times with
  | none => rfl
  | some latest =>
      by_cases h : time ≤ latest
      · have hlt : ¬latest.minutes < time.minutes := Nat.not_lt.mpr h
        simp [Option.filter, h, hlt]
      · have hlt : latest.minutes < time.minutes := Nat.not_le.mp h
        simp [Option.filter, h, hlt]

theorem latest?_of_mem {times : List TimeOfDay} {time : TimeOfDay} (h : time ∈ times) :
    ∃ latest ∈ times, latest? times = some latest ∧ ∀ t ∈ times, t ≤ latest := by
  cases hl : latest? times with
  | none =>
      rw [List.argmax_eq_none.mp hl] at h
      cases h
  | some latest =>
      exact ⟨latest, List.argmax_mem hl, rfl, fun t ht => List.le_of_mem_argmax ht hl⟩

/-! ### One entry -/

/-- The breakpoint of an entry, if it is accepted after a last time. -/
def accept (last : Option TimeOfDay) (e : String × Value) :
    Reading (Option (TimeOfDay × Float)) := do
  whenSome (← timeKey (path.child e.1) e.1) fun time => do
    whenSome (← number (path.child e.1) e.2) fun x =>
      match last.filter fun previous => time ≤ previous with
      | some previous => do
        issue (path.child e.1) (.timeKeysNotIncreasing previous time)
        pure none
      | none => pure (some (time, x))

theorem breakpoints_cons (last : Option TimeOfDay) (e : String × Value) (rest : Fields) :
    breakpoints path last (e :: rest) = (do
      let accepted ← accept path last e
      let more ← breakpoints path ((accepted.map Prod.fst).or last) rest
      pure (accepted.toList ++ more)) := by
  obtain ⟨text, value⟩ := e
  unfold accept
  refine Eq.trans ?_ (bind_assoc _ _ _).symm
  rfl

theorem timeKey_of_error {text : String} {fault : TimeKeyFault}
    (h : keyTime text = .error fault) :
    timeKey path text = ⟨none, [⟨path, .invalidTimeKey text fault⟩]⟩ := by
  unfold keyTime at h
  unfold timeKey
  cases hr : TimeOfDay.read text with
  | error unreadable =>
      simp only [hr, Except.error.injEq] at h
      subst h
      rfl
  | ok time =>
      simp only [hr] at h ⊢
      by_cases he : time.isEndOfDay = true
      · rw [if_pos he, Except.error.injEq] at h
        rw [if_pos he, ← h]
        rfl
      · rw [if_neg he] at h
        cases h

theorem timeKey_of_ok {text : String} {time : TimeOfDay} (h : keyTime text = .ok time) :
    timeKey path text = pure (some time) := by
  unfold keyTime at h
  unfold timeKey
  cases hr : TimeOfDay.read text with
  | error unreadable => simp [hr] at h
  | ok read =>
      simp only [hr] at h ⊢
      by_cases he : read.isEndOfDay = true
      · rw [if_pos he] at h
        cases h
      · rw [if_neg he, Except.ok.injEq] at h
        rw [if_neg he, h]

theorem number_of_kind {value : Value} (h : value.kind = .number) :
    ∃ x, number path value = pure (some x) := by
  cases value with
  | number n => exact ⟨n.toFloat, rfl⟩
  | _ => cases h

theorem number_of_kind_ne {value : Value} (h : value.kind ≠ .number) :
    number path value = ⟨none, [⟨path, .typeMismatch .number value.kind⟩]⟩ := by
  cases value with
  | number n => exact absurd rfl h
  | _ => rfl

section accept

variable (last : Option TimeOfDay) {e : String × Value}

theorem accept_of_error {fault : TimeKeyFault} (h : keyTime e.1 = .error fault) :
    accept path last e = ⟨none, [⟨path.child e.1, .invalidTimeKey e.1 fault⟩]⟩ := by
  rw [accept, timeKey_of_error _ h]
  rfl

theorem accept_of_kind_ne {time : TimeOfDay} (h : keyTime e.1 = .ok time)
    (hk : e.2.kind ≠ .number) :
    accept path last e = ⟨none, [⟨path.child e.1, .typeMismatch .number e.2.kind⟩]⟩ := by
  rw [accept, timeKey_of_ok _ h, pure_bind, Report.whenSome_some, number_of_kind_ne _ hk]
  rfl

/-- An entry with a time and a number is accepted unless its time is not later than the last. -/
theorem accept_of_kind {time : TimeOfDay} (h : keyTime e.1 = .ok time)
    (hk : e.2.kind = .number) : ∃ x : Float, accept path last e =
      match last.filter fun previous => time ≤ previous with
      | some previous => ⟨none, [⟨path.child e.1, .timeKeysNotIncreasing previous time⟩]⟩
      | none => ⟨some (time, x), []⟩ := by
  obtain ⟨x, hx⟩ := number_of_kind (path.child e.1) hk
  refine ⟨x, ?_⟩
  rw [accept, timeKey_of_ok _ h, pure_bind, Report.whenSome_some, hx, pure_bind,
    Report.whenSome_some]
  cases last.filter fun previous => time ≤ previous <;> rfl

end accept

theorem numberedTime?_of_kind {e : String × Value} {time : TimeOfDay} (h : keyTime e.1 = .ok time)
    (hk : e.2.kind = .number) : numberedTime? e = some time := by
  rw [numberedTime?, if_pos hk, h]
  rfl

theorem numberedTime?_of_kind_ne {e : String × Value} (hk : e.2.kind ≠ .number) :
    numberedTime? e = none := if_neg hk

theorem numberedTime?_of_error {e : String × Value} {fault : TimeKeyFault}
    (h : keyTime e.1 = .error fault) : numberedTime? e = none := by
  rw [numberedTime?, h]
  exact ite_self none

theorem numbered_concat (before : Fields) (e : String × Value) :
    numbered (before ++ [e]) = numbered before ++ (numberedTime? e).toList := by
  rw [numbered, numbered, List.filterMap_append, List.filterMap_cons]
  cases numberedTime? e <;> rfl

/-- What is remembered of an entry and those before it is the latest of their numbered times. -/
theorem last_accept (before : Fields) (e : String × Value) :
    ((accept path (latest? (numbered before)) e).value.map Prod.fst).or
      (latest? (numbered before)) = latest? (numbered (before ++ [e])) := by
  rw [numbered_concat]
  cases hkey : keyTime e.1 with
  | error fault =>
      rw [accept_of_error _ _ hkey, numberedTime?_of_error hkey, Option.toList_none,
        List.append_nil]
      rfl
  | ok time =>
      by_cases hk : e.2.kind = .number
      · obtain ⟨x, hx⟩ := accept_of_kind path (latest? (numbered before)) hkey hk
        rw [hx, numberedTime?_of_kind hkey hk, Option.toList_some, latest?_concat]
        cases hf : (latest? (numbered before)).filter fun latest => time ≤ latest with
        | none => rfl
        | some latest => exact (Option.filter_eq_some_iff.mp hf).1
      · rw [accept_of_kind_ne _ _ hkey hk, numberedTime?_of_kind_ne hk, Option.toList_none,
          List.append_nil]
        rfl

/-- An entry has at most one issue about time keys. -/
theorem timeIssue_accept (before : Fields) (e : String × Value) :
    (accept path (latest? (numbered before)) e).findings.filter isTimeIssue =
      (entryIssue? path (before, e)).toList := by
  unfold entryIssue?
  cases hkey : keyTime e.1 with
  | error fault =>
      rw [accept_of_error _ _ hkey]
      rfl
  | ok time =>
      dsimp only
      by_cases hk : e.2.kind = .number
      · obtain ⟨x, hx⟩ := accept_of_kind path (latest? (numbered before)) hkey hk
        rw [hx, if_pos hk]
        cases (latest? (numbered before)).filter fun latest => time ≤ latest <;> rfl
      · rw [accept_of_kind_ne _ _ hkey hk, if_neg hk]
        rfl

/-! ### All entries -/

theorem timeIssues_breakpoints (before entries : Fields) :
    (breakpoints path (latest? (numbered before)) entries).findings.filter isTimeIssue =
      (splitsFrom before entries).filterMap (entryIssue? path) := by
  induction entries generalizing before with
  | nil => rfl
  | cons e rest ih =>
      have hstep := timeIssue_accept path before e
      have hrest := ih (before ++ [e])
      rw [breakpoints_cons, Report.findings_bind, Report.findings_bind, Report.findings_pure,
        List.append_nil, List.filter_append, hstep, last_accept, hrest, splitsFrom,
        List.filterMap_cons]
      cases entryIssue? path (before, e) <;> rfl

/-- The first breakpoint is the first entry with a time and a number. -/
theorem head?_breakpoints (entries : Fields) :
    (breakpoints path none entries).value.head?.map Prod.fst = (numbered entries).head? := by
  induction entries with
  | nil => rfl
  | cons e rest ih =>
      rw [breakpoints_cons, Report.value_bind, Report.value_bind, Report.value_pure, numbered,
        List.filterMap_cons]
      cases hkey : keyTime e.1 with
      | error fault =>
          rw [accept_of_error _ _ hkey, numberedTime?_of_error hkey]
          exact ih
      | ok time =>
          by_cases hk : e.2.kind = .number
          · obtain ⟨x, hx⟩ := accept_of_kind path none hkey hk
            rw [hx, numberedTime?_of_kind hkey hk]
            rfl
          · rw [accept_of_kind_ne _ _ hkey hk, numberedTime?_of_kind_ne hk]
            exact ih

theorem mismatch_mem_breakpoints {entries : Fields} {e : String × Value} (he : e ∈ entries)
    {time : TimeOfDay} (hkey : keyTime e.1 = .ok time) (hk : e.2.kind ≠ .number)
    (last : Option TimeOfDay) :
    ⟨path.child e.1, .typeMismatch .number e.2.kind⟩ ∈
      (breakpoints path last entries).findings := by
  induction entries generalizing last with
  | nil => cases he
  | cons e' rest ih =>
      rw [breakpoints_cons, Report.findings_bind, Report.findings_bind]
      rcases List.mem_cons.mp he with rfl | he
      · rw [accept_of_kind_ne _ _ hkey hk]
        exact List.mem_append_left _ List.mem_cons_self
      · exact List.mem_append_right _ (List.mem_append_left _ (ih he _))

theorem findings_startsAtMidnight (points : List (TimeOfDay × Float)) :
    (startsAtMidnight path points).findings =
      (midnightIssue? path (points.head?.map Prod.fst).toList).toList := by
  cases points with
  | nil => rfl
  | cons p rest =>
      by_cases h : p.1 = .midnight
      · simp [startsAtMidnight, midnightIssue?, h]
      · simp [startsAtMidnight, midnightIssue?, h, Option.filter, issue, Report.tell]

/-! ### Days -/

theorem timeIssues_checkFields (allowed : List String) (fields : Fields) :
    (checkFields path allowed fields).findings.filter isTimeIssue = [] := by
  induction fields with
  | nil => rfl
  | cons e rest ih =>
      obtain ⟨key, value⟩ := e
      by_cases h : key ∈ allowed
      · simpa [checkFields, h] using ih
      · simpa [checkFields, h, issue, Report.tell, isTimeIssue] using ih

theorem timeIssues_nameOr (fields : Fields) (key : String) :
    (nameOr path fields key).findings.filter isTimeIssue = [] := by
  unfold nameOr
  cases Value.field? fields "name" with
  | none => rfl
  | some value => cases value <;> rfl

variable {path}

/-- A day whose table has entries reports what is wrong with them after its other fields. -/
theorem findings_day {key : String} {fields entries : Fields}
    (hvalues : Value.field? fields "values" = some (.object entries)) (hne : entries ≠ []) :
    (day path key (.object fields)).findings =
      (checkFields path ["name", "values"] fields).findings ++ (nameOr path fields key).findings ++
        ((breakpoints (path.child "values") none entries).findings ++
          (midnightIssue? (path.child "values") (numbered entries)).toList) := by
  obtain ⟨e, rest, rfl⟩ := List.exists_cons_of_ne_nil hne
  have hmidnight : (midnightIssue? (path.child "values")
      ((numbered (e :: rest)).head?).toList) = midnightIssue? (path.child "values")
        (numbered (e :: rest)) := by
    cases numbered (e :: rest) <;> rfl
  rw [← hmidnight, ← head?_breakpoints (path.child "values"), ← findings_startsAtMidnight]
  simp [day, object, required, hvalues, dayValues]

theorem timeIssues_day {key : String} {fields entries : Fields}
    (hvalues : Value.field? fields "values" = some (.object entries)) (hne : entries ≠ []) :
    (day path key (.object fields)).findings.filter isTimeIssue =
      (splitsFrom [] entries).filterMap (entryIssue? (path.child "values")) ++
        (midnightIssue? (path.child "values") (numbered entries)).toList := by
  have hentries := timeIssues_breakpoints (path.child "values") [] entries
  have hmidnight : (midnightIssue? (path.child "values") (numbered entries)).toList.filter
      isTimeIssue = (midnightIssue? (path.child "values") (numbered entries)).toList := by
    rw [List.filter_eq_self]
    intro i hi
    obtain ⟨first, -, rfl⟩ := Option.map_eq_some_iff.mp (Option.mem_toList.mp hi)
    rfl
  rw [findings_day hvalues hne, List.filter_append, List.filter_append, List.filter_append,
    timeIssues_checkFields, timeIssues_nameOr, hmidnight]
  exact congrArg (· ++ _) hentries

/-! ### What the issues depend on -/

/-- Entries of the same keys in the same order, where under a key that is a time there stand two
numbers or none. -/
def SameNumbered (entries entries' : Fields) : Prop :=
  List.Forall₂ (fun e e' => e'.1 = e.1 ∧
    ((keyTime e.1).isOk → (e'.2.kind = .number ↔ e.2.kind = .number))) entries entries'

theorem numberedTime?_congr {e e' : String × Value} (hkey : e'.1 = e.1)
    (hkind : (keyTime e.1).isOk → (e'.2.kind = .number ↔ e.2.kind = .number)) :
    numberedTime? e' = numberedTime? e := by
  unfold numberedTime?
  rw [hkey]
  cases ht : keyTime e.1 with
  | error fault => simp [Except.toOption]
  | ok time =>
      have hiff := hkind (by rw [ht]; rfl)
      simp only [hiff]

theorem numbered_congr {entries entries' : Fields} (h : SameNumbered entries entries') :
    numbered entries' = numbered entries := by
  induction h with
  | nil => rfl
  | cons he _ ih =>
      unfold numbered at ih ⊢
      rw [List.filterMap_cons, List.filterMap_cons, ih, numberedTime?_congr he.1 he.2]

theorem entryIssue?_congr {before before' : Fields} {e e' : String × Value}
    (hbefore : numbered before' = numbered before) (hkey : e'.1 = e.1)
    (hkind : (keyTime e.1).isOk → (e'.2.kind = .number ↔ e.2.kind = .number)) :
    entryIssue? path (before', e') = entryIssue? path (before, e) := by
  unfold entryIssue?
  dsimp only
  rw [hkey, hbefore]
  cases ht : keyTime e.1 with
  | error fault => rfl
  | ok time =>
      have hiff := hkind (by rw [ht]; rfl)
      simp only [hiff]

theorem entryIssues_congr {entries entries' : Fields} (h : SameNumbered entries entries')
    {before before' : Fields} (hbefore : numbered before' = numbered before) :
    (splitsFrom before' entries').filterMap (entryIssue? path) =
      (splitsFrom before entries).filterMap (entryIssue? path) := by
  induction h generalizing before before' with
  | nil => rfl
  | @cons e e' rest rest' he _ ih =>
      have hnext : numbered (before' ++ [e']) = numbered (before ++ [e]) := by
        rw [numbered_concat, numbered_concat, hbefore, numberedTime?_congr he.1 he.2]
      rw [splitsFrom, splitsFrom, List.filterMap_cons, List.filterMap_cons, ih hnext,
        entryIssue?_congr hbefore he.1 he.2]

/-- The keys that are no times do not depend on what stands under the keys. -/
theorem invalidIssues_eq (before entries : Fields) :
    ((splitsFrom before entries).filterMap (entryIssue? path)).filter isInvalidKey =
      (entries.map Prod.fst).filterMap (invalidIssue? path) := by
  induction entries generalizing before with
  | nil => rfl
  | cons e rest ih =>
      rw [splitsFrom, List.filterMap_cons, List.map_cons, List.filterMap_cons, ← ih (before ++ [e])]
      unfold entryIssue? invalidIssue?
      dsimp only
      cases ht : keyTime e.1 with
      | error fault => rfl
      | ok time =>
          dsimp only
          split
          · rfl
          · rename_i issue hissue
            split at hissue
            · obtain ⟨latest, -, rfl⟩ := Option.map_eq_some_iff.mp hissue
              rfl
            · cases hissue

/-- Issues about keys that are no times are issues about time keys. -/
theorem filter_isInvalidKey (issues : List Issue) :
    issues.filter isInvalidKey = (issues.filter isTimeIssue).filter isInvalidKey := by
  rw [List.filter_filter]
  refine List.filter_congr fun issue _ => ?_
  obtain ⟨place, kind⟩ := issue
  cases kind <;> rfl

theorem invalidKeys_day {key : String} {fields entries : Fields}
    (hvalues : Value.field? fields "values" = some (.object entries)) (hne : entries ≠ []) :
    (day path key (.object fields)).findings.filter isInvalidKey =
      (entries.map Prod.fst).filterMap (invalidIssue? (path.child "values")) := by
  have hmidnight : (midnightIssue? (path.child "values") (numbered entries)).toList.filter
      isInvalidKey = [] := by
    rw [List.filter_eq_nil_iff]
    intro i hi
    obtain ⟨first, -, rfl⟩ := Option.map_eq_some_iff.mp (Option.mem_toList.mp hi)
    exact Bool.false_ne_true
  rw [filter_isInvalidKey, timeIssues_day hvalues hne, List.filter_append, invalidIssues_eq,
    hmidnight, List.append_nil]

/-- A time under which a number stands is reported when it is not later than a numbered time before
it, and with it the latest of those. -/
theorem not_increasing_mem_day {key text : String} {fields before rest : Fields} {n : Number}
    {time t : TimeOfDay}
    (hvalues : Value.field? fields "values" = some (.object (before ++ (text, .number n) :: rest)))
    (hkey : keyTime text = .ok time) (ht : t ∈ numbered before) (hle : time ≤ t) :
    ∃ latest ∈ numbered before, (∀ u ∈ numbered before, u ≤ latest) ∧
      ⟨(path.child "values").child text, .timeKeysNotIncreasing latest time⟩ ∈
        (day path key (.object fields)).findings := by
  obtain ⟨latest, hmem, hlatest, hall⟩ := latest?_of_mem ht
  refine ⟨latest, hmem, hall, ?_⟩
  have hbefore : time ≤ latest := Nat.le_trans hle (hall t ht)
  have hissue : entryIssue? (path.child "values") (before, (text, .number n)) =
      some ⟨(path.child "values").child text, .timeKeysNotIncreasing latest time⟩ := by
    have hkind : (Value.number n).kind = .number := rfl
    simp [entryIssue?, hkey, hkind, hlatest, Option.filter, hbefore]
  apply List.mem_of_mem_filter (p := isTimeIssue)
  rw [timeIssues_day hvalues (by simp)]
  apply List.mem_append_left
  refine List.mem_filterMap.mpr ⟨_, mem_splitsFrom_iff.mpr ⟨before, rest, rfl, rfl⟩, hissue⟩

/-- The issues about the time keys of a day, for any entries.  Those about keys that are no times
are determined by the keys.  All of them are determined by the keys together with which of them have
a number: the order is checked among those, and the first of those must be midnight.  A time without
a number is reported for its value in the same reading. -/
theorem timeKeys_exact (path : Path) (key : String) {fields entries : Fields}
    (hvalues : Value.field? fields "values" = some (.object entries)) (hne : entries ≠ []) :
    (day path key (.object fields)).findings.filter isInvalidKey =
        (entries.map Prod.fst).filterMap (invalidIssue? (path.child "values")) ∧
      (day path key (.object fields)).findings.filter isTimeIssue =
        (splitsFrom [] entries).filterMap (entryIssue? (path.child "values")) ++
          (midnightIssue? (path.child "values") (numbered entries)).toList ∧
      (∀ before rest text n time, entries = before ++ (text, .number n) :: rest →
        keyTime text = .ok time → ∀ t ∈ numbered before, time ≤ t →
          ∃ latest ∈ numbered before, (∀ u ∈ numbered before, u ≤ latest) ∧
            ⟨(path.child "values").child text, .timeKeysNotIncreasing latest time⟩ ∈
              (day path key (.object fields)).findings) ∧
      (∀ e ∈ entries, (keyTime e.1).isOk → e.2.kind ≠ .number →
        ⟨(path.child "values").child e.1, .typeMismatch .number e.2.kind⟩ ∈
          (day path key (.object fields)).findings) ∧
      ∀ fields' entries', Value.field? fields' "values" = some (.object entries') →
        SameNumbered entries entries' →
          (day path key (.object fields')).findings.filter isTimeIssue =
            (day path key (.object fields)).findings.filter isTimeIssue := by
  refine ⟨invalidKeys_day hvalues hne, timeIssues_day hvalues hne, ?_, ?_, ?_⟩
  · rintro before rest text n time rfl hkey t ht hle
    exact not_increasing_mem_day hvalues hkey ht hle
  · intro e he hok hkind
    cases hkey : keyTime e.1 with
    | error fault => simp [hkey, Except.isOk, Except.toBool] at hok
    | ok time =>
        rw [findings_day hvalues hne]
        apply List.mem_append_right
        exact List.mem_append_left _ (mismatch_mem_breakpoints _ he hkey hkind none)
  · intro fields' entries' hvalues' hsame
    have hne' : entries' ≠ [] := by
      rintro rfl
      cases hsame
      exact hne rfl
    rw [timeIssues_day hvalues' hne', timeIssues_day hvalues hne, numbered_congr hsame,
      entryIssues_congr hsame rfl]

/-- A day whose two earlier values are no numbers. -/
def shiftDay : Fields :=
  [("values", .object [("00:00", .string "off"), ("08:00", .string "on"),
    ("06:00", .number (.float 0.5))])]

/-- The same keys over numbers. -/
def numberedShiftDay : Fields :=
  [("values", .object [("00:00", .number (.int 0)), ("08:00", .number (.int 1)),
    ("06:00", .number (.float 0.5))])]

/-- Without numbers under the first keys the day seems to start at six, and nothing is said of the
order; with numbers there it starts at midnight, and six is not later than eight. -/
theorem timeKeys_shiftDay :
    (day [] "default_day" (.object shiftDay)).findings.filter isTimeIssue =
        [⟨[.key "values"], .dayMustStartAtMidnight ⟨360, by decide⟩⟩] ∧
      (day [] "default_day" (.object numberedShiftDay)).findings.filter isTimeIssue =
        [⟨[.key "values", .key "06:00"],
          .timeKeysNotIncreasing ⟨480, by decide⟩ ⟨360, by decide⟩⟩] := by
  have hvalues : Value.field? shiftDay "values" = some (.object _) := rfl
  have hvalues' : Value.field? numberedShiftDay "values" = some (.object _) := rfl
  obtain ⟨-, hshift, -⟩ := timeKeys_exact [] "default_day" hvalues (by simp)
  obtain ⟨-, hnumbered, -⟩ := timeKeys_exact [] "default_day" hvalues' (by simp)
  rw [hshift, hnumbered]
  decide

end HvacModel.Document.Read
