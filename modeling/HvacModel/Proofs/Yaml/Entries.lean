import HvacModel.Proofs.Json.Compact
import HvacModel.Proofs.Keys
import HvacModel.Proofs.Reading.Issues
import HvacModel.Proofs.Related
import HvacModel.Proofs.Schedule.StepFunction
import HvacModel.Proofs.Yaml.Expansion

/-! # What becomes of the entries of a YAML mapping

A mapping becomes an object by writing its entries one after the other under the texts of their
keys.  Two keys of one mapping are never the same, but a string may be the text of a number or of a
boolean; then the two entries meet (`Collides`).  `entries_of_read` says of every mapping of a text
that an object is made of it which has the entries of the mapping in their order just if no two of
them meet, and else lacks some of them: a text then stands at its first position with its last
value. -/

namespace HvacModel

namespace Value

/-! ### Objects from entries -/

variable {entries : List (String × Value)}

/-- The entries of the object of a sequence of entries. -/
def merge (entries : List (String × Value)) : List (String × Value) :=
  entries.foldl (fun fields entry => insertField fields entry.1 entry.2) []

theorem ofEntries_eq (entries : List (String × Value)) :
    ofEntries entries = object (merge entries) := rfl

theorem merge_concat (entries : List (String × Value)) (e : String × Value) :
    merge (entries ++ [e]) = insertField (merge entries) e.1 e.2 := by
  rw [merge, List.foldl_concat, merge]

/-- Every key stands where it is written first. -/
theorem keys_merge (entries : List (String × Value)) :
    (merge entries).map Prod.fst = (entries.map Prod.fst).eraseDups := by
  induction entries using List.reverseRecOn with
  | nil => rfl
  | append_singleton entries e ih =>
      rw [merge_concat, keys_insertField, ih, List.map_append, List.map_singleton,
        List.eraseDups_append]
      by_cases h : e.1 ∈ entries.map Prod.fst
      · simp [List.removeAll, h]
      · simp [List.removeAll, h, List.eraseDups_cons]

/-- Every key has the value that is written last. -/
theorem field?_merge (entries : List (String × Value)) (key : String) :
    field? (merge entries) key = entries.reverse.lookup key := by
  induction entries using List.reverseRecOn with
  | nil => rfl
  | append_singleton entries e ih =>
      rw [merge_concat, List.reverse_concat, NameMap.lookup_cons_ite]
      by_cases h : key = e.1
      · rw [if_pos h, h, field?_insertField]
      · rw [if_neg h, Document.field?_insertField_of_ne _ _ h, ih]

theorem insertField_of_notMem {fields : List (String × Value)} {key : String} {value : Value}
    (h : key ∉ fields.map Prod.fst) : insertField fields key value = fields ++ [(key, value)] := by
  induction fields with
  | nil => rfl
  | cons e rest ih =>
      rw [List.map_cons, List.mem_cons, not_or] at h
      obtain ⟨hne, hrest⟩ := h
      rw [insertField, if_neg (Ne.symm hne), ih hrest, List.cons_append]

theorem nodup_keys_merge (entries : List (String × Value)) :
    ((merge entries).map Prod.fst).Nodup := by
  induction entries using List.reverseRecOn with
  | nil => exact List.nodup_nil
  | append_singleton entries e ih =>
      rw [merge_concat, keys_insertField]
      by_cases h : e.1 ∈ (merge entries).map Prod.fst
      · rwa [if_pos h]
      · rw [if_neg h]
        rw [← List.concat_eq_append]
        exact ih.concat h

theorem mem_keys_merge {key : String} :
    key ∈ (merge entries).map Prod.fst ↔ key ∈ entries.map Prod.fst := by
  rw [keys_merge, List.mem_eraseDups]

/-- Distinct keys leave the entries as they are. -/
theorem merge_eq_self_iff : merge entries = entries ↔ (entries.map Prod.fst).Nodup := by
  constructor
  · intro h
    rw [← h]
    exact nodup_keys_merge entries
  · intro h
    induction entries using List.reverseRecOn with
    | nil => rfl
    | append_singleton entries e ih =>
        rw [List.map_append, List.map_singleton, List.nodup_append] at h
        have hfresh : e.1 ∉ entries.map Prod.fst :=
          fun he => h.2.2 _ he _ (List.mem_singleton_self _) rfl
        rw [merge_concat, ih h.1, insertField_of_notMem hfresh]

/-- Every repeated key costs an entry. -/
theorem length_merge_eq_iff :
    (merge entries).length = entries.length ↔ (entries.map Prod.fst).Nodup := by
  have hcard : (merge entries).length = (entries.map Prod.fst).toFinset.card := by
    rw [← List.length_map Prod.fst, ← List.toFinset_card_of_nodup (nodup_keys_merge entries)]
    congr 1
    ext key
    rw [List.mem_toFinset, List.mem_toFinset, mem_keys_merge]
  have hlength : entries.length = (entries.map Prod.fst).length := (List.length_map _).symm
  rw [hcard, hlength]
  exact Multiset.toFinset_card_eq_card_iff_nodup (m := (entries.map Prod.fst : Multiset String))

end Value

namespace Yaml

namespace Node

/-! ### Keys that meet -/

/-- Two entries of a mapping meet: the key of one is a string, and the text of the other one's. -/
def Collides (entries : List (Node × Node)) : Prop :=
  ∃ s k v w, (string s, v) ∈ entries ∧ (k, w) ∈ entries ∧ (∀ t, k ≠ string t) ∧ keyText? k = some s

theorem keyText?_number {n : Number} {s : String} (h : keyText? (number n) = some s) :
    n.Finite ∧ Json.numberText n = s := by
  cases n with
  | int i =>
      cases h
      exact ⟨trivial, rfl⟩
  | float x =>
      rw [keyText?] at h
      obtain ⟨hx, hs⟩ := Option.ite_none_right_eq_some.mp h
      cases hs
      exact ⟨hx, rfl⟩

theorem isNaN_of_isFinite {x : Float} (h : x.isFinite = true) : x.isNaN = false := by
  change x.toModel.unpack.isFinite = true at h
  change x.toModel.unpack.isNaN = false
  cases hx : x.toModel.unpack with
  | notANumber =>
      rw [hx] at h
      cases h
  | zero | infinity | finite => rfl

theorem sameNumber_self {n : Number} (h : n.Finite) : sameNumber n n = true := by
  cases n with
  | int i => exact decide_eq_true rfl
  | float x =>
      rw [sameNumber, DayProfile.beq_self_of_not_isNaN (isNaN_of_isFinite h), Bool.or_true]

/-- No number is written as a boolean is. -/
theorem numberText_ne_bool {n : Number} (h : n.Finite) (b : Bool) :
    Json.numberText n ≠ if b then "true" else "false" := by
  intro heq
  have hchars := Json.isNumberChar_numberText h
  rw [heq] at hchars
  cases b with
  | true => exact absurd (hchars 't' (by decide)) (by decide)
  | false => exact absurd (hchars 'f' (by decide)) (by decide)

/-- Keys of one text that are not the same: one of them is a string, and the other one is none. -/
theorem string_of_keyText?_eq {k l : Node} {s : String} (hsame : k.same l = false)
    (hk : keyText? k = some s) (hl : keyText? l = some s) :
    (k = string s ∧ ∀ t, l ≠ string t) ∨ (l = string s ∧ ∀ t, k ≠ string t) := by
  cases k with
  | null | sequence _ | mapping _ | tagged _ _ => cases hk
  | string t =>
      cases hk
      refine .inl ⟨rfl, ?_⟩
      rintro t rfl
      cases hl
      rw [same, beq_self_eq_true] at hsame
      cases hsame
  | bool b =>
      cases l with
      | null | sequence _ | mapping _ | tagged _ _ => cases hl
      | string t =>
          cases hl
          exact .inr ⟨rfl, nofun⟩
      | number n =>
          obtain ⟨hn, hs⟩ := keyText?_number hl
          exact absurd (hs.trans (Option.some.inj hk).symm) (numberText_ne_bool hn b)
      | bool c =>
          have hbool : b = c := by
            have htext := hk.trans hl.symm
            revert htext
            cases b <;> cases c <;> simp [keyText?]
          rw [same, hbool, beq_self_eq_true] at hsame
          cases hsame
  | number m =>
      obtain ⟨hm, hs⟩ := keyText?_number hk
      cases l with
      | null | sequence _ | mapping _ | tagged _ _ => cases hl
      | string t =>
          cases hl
          exact .inr ⟨rfl, nofun⟩
      | bool b => exact absurd (hs.trans (Option.some.inj hl).symm) (numberText_ne_bool hm b)
      | number n =>
          obtain ⟨hn, hs'⟩ := keyText?_number hl
          have heq := Json.numberText_injective hm hn (hs.trans hs'.symm)
          rw [same, heq, sameNumber_self hn] at hsame
          cases hsame

/-! ### Entries -/

/-- An entry of a mapping and what is made of it. -/
def Becomes (e : Node × Node) (f : String × Value) : Prop :=
  keyText? e.1 = some f.1 ∧ toValue? e.2 = some f.2

theorem fieldsOf?_eq_some_iff {entries : List (Node × Node)} {fields : List (String × Value)} :
    fieldsOf? entries = some fields ↔ List.Forall₂ Becomes entries fields := by
  induction entries generalizing fields with
  | nil => simp [fieldsOf?, eq_comm]
  | cons e rest ih =>
      obtain ⟨k, v⟩ := e
      rw [List.forall₂_cons_left_iff, fieldsOf?]
      constructor
      · intro h
        obtain ⟨key, hkey, h⟩ := Option.bind_eq_some_iff.mp h
        obtain ⟨value, hvalue, h⟩ := Option.bind_eq_some_iff.mp h
        obtain ⟨more, hmore, h⟩ := Option.bind_eq_some_iff.mp h
        cases h
        exact ⟨_, _, ⟨hkey, hvalue⟩, ih.mp hmore, rfl⟩
      · rintro ⟨⟨key, value⟩, more, ⟨hkey, hvalue⟩, hmore, rfl⟩
        change keyText? k = some key at hkey
        change toValue? v = some value at hvalue
        rw [hkey, hvalue, ih.mpr hmore]
        rfl

theorem nodup_keys_iff {entries : List (Node × Node)} {fields : List (String × Value)}
    (hkeys : DistinctKeys entries) (h : List.Forall₂ Becomes entries fields) :
    (fields.map Prod.fst).Nodup ↔ ¬Collides entries := by
  have htexts : entries.map (fun e => keyText? e.1) = (fields.map Prod.fst).map some := by
    induction h with
    | nil => rfl
    | cons he _ ih =>
        rw [List.map_cons, he.1, ih hkeys.tail]
        rfl
  rw [← List.nodup_map_iff (Option.some_injective String), ← htexts, List.Nodup, List.pairwise_map]
  constructor
  · rintro hpairwise ⟨s, k, v, w, hv, hw, hk, hs⟩
    have hsymm : Std.Symm fun e f : Node × Node => keyText? e.1 ≠ keyText? f.1 :=
      ⟨fun _ _ hne => hne.symm⟩
    have hne : (string s, v) ≠ (k, w) := fun heq => hk s (Prod.mk.inj heq).1.symm
    exact hpairwise.forall hv hw hne hs.symm
  · intro hcollides
    -- Two keys of one text are not the same, so one of them is a string and they meet.
    refine hkeys.imp_of_mem fun {e f} he hf hsame htext => hcollides ?_
    obtain ⟨g, -, hg, -⟩ := h.exists_right he
    rcases string_of_keyText?_eq hsame hg (htext ▸ hg) with ⟨hstring, hother⟩ | ⟨hstring, hother⟩
    · exact ⟨g.1, f.1, e.2, f.2, hstring ▸ he, hf, hother, htext ▸ hg⟩
    · exact ⟨g.1, e.1, f.2, e.2, hstring ▸ hf, he, hother, hg⟩

/-! ### Places -/

/-- A node has a value. -/
def Yields (n : Node) (value : Value) : Prop := toValue? n = some value

theorem forall₂_of_valuesOf? {items : List Node} {values : List Value}
    (h : valuesOf? items = some values) : List.Forall₂ Yields items values := by
  induction items generalizing values with
  | nil =>
      cases h
      exact .nil
  | cons n rest ih =>
      rw [valuesOf?] at h
      obtain ⟨value, hvalue, h⟩ := Option.bind_eq_some_iff.mp h
      obtain ⟨more, hmore, h⟩ := Option.bind_eq_some_iff.mp h
      cases h
      exact .cons hvalue (ih hmore)

/-- The part of a node that is at a place of its value: where several entries have the text of a
key, it is the last one of them. -/
def at? (n : Node) : Path → Option Node
  | [] => some n
  | .key name :: rest =>
    match n with
    | mapping entries =>
      (entries.reverse.find? fun e => keyText? e.1 == some name).bind fun e => e.2.at? rest
    | tagged tag m => if name = "!" ++ bareTag tag then m.at? rest else none
    | _ => none
  | .index i :: rest =>
    match n with
    | sequence items => items[i]?.bind fun m => m.at? rest
    | _ => none

theorem rel_find?_lookup {entries : List (Node × Node)} {fields : List (String × Value)}
    (h : List.Forall₂ Becomes entries fields) (name : String) :
    Option.Rel (fun e value => toValue? e.2 = some value)
      (entries.find? fun e => keyText? e.1 == some name) (fields.lookup name) := by
  induction h with
  | nil => exact .none
  | @cons e f entries fields hef _ ih =>
      rw [NameMap.lookup_cons_ite]
      by_cases hname : name = f.1
      · rw [if_pos hname, List.find?_cons_of_pos (by rw [hef.1, hname, beq_self_eq_true])]
        exact .some hef.2
      · rw [if_neg hname, List.find?_cons_of_neg (by simpa [hef.1] using Ne.symm hname)]
        exact ih

/-- A value has at every place the value of what its node has there. -/
theorem rel_at? {n : Node} {value : Value} (h : Yields n value) (path : Path) :
    Option.Rel Yields (n.at? path) (value.at? path) := by
  induction path generalizing n value with
  | nil => exact .some h
  | cons step rest ih =>
      cases n with
      | null | bool b | string s =>
          cases h
          cases step <;> exact .none
      | number m =>
          have hnone : ∀ x : Float, (Value.ofFloat x).at? (step :: rest) = none := by
            intro x
            rw [Value.ofFloat]
            cases step <;> split <;> rfl
          cases m with
          | int i =>
              cases h
              cases step <;> exact .none
          | float x =>
              cases h
              rw [hnone]
              cases step <;> exact .none
      | sequence items =>
          obtain ⟨values, hvalues, rfl⟩ := Option.map_eq_some_iff.mp h
          cases step with
          | key name => exact .none
          | index i =>
              exact ((forall₂_of_valuesOf? hvalues).rel_getElem? i).bind fun m v hmv => ih hmv
      | mapping entries =>
          obtain ⟨fields, hfields, rfl⟩ := Option.map_eq_some_iff.mp h
          cases step with
          | index i => exact .none
          | key name =>
              have hreverse := List.rel_reverse (fieldsOf?_eq_some_iff.mp hfields)
              rw [Value.ofEntries_eq, Value.at?, Value.field?_merge]
              exact (rel_find?_lookup hreverse name).bind fun e v hev => ih hev
      | tagged tag m =>
          obtain ⟨inner, hinner, hvalue⟩ := Option.bind_eq_some_iff.mp h
          cases hvalue
          cases step with
          | index i => exact .none
          | key name =>
              rw [at?, Value.at?, Value.field?, NameMap.lookup_cons_ite]
              by_cases hname : name = "!" ++ bareTag tag
              · rw [if_pos hname, if_pos hname]
                exact ih hinner
              · rw [if_neg hname, if_neg hname]
                exact .none

theorem exists_yields_of_keyText? {k : Node} {s : String} (h : keyText? k = some s) :
    ∃ value, Yields k value := by
  cases k with
  | null | sequence _ | mapping _ | tagged _ _ => cases h
  | bool _ | string _ => exact ⟨_, rfl⟩
  | number n => cases n <;> exact ⟨_, rfl⟩

/-- Every part of a node that has a value has one, too. -/
theorem Contains.exists_yields {n p : Node} (h : n.Contains p) {value : Value}
    (hn : Yields n value) : ∃ part, Yields p part := by
  induction h generalizing value with
  | self => exact ⟨value, hn⟩
  | item hm _ ih =>
      obtain ⟨values, hvalues, -⟩ := Option.map_eq_some_iff.mp hn
      obtain ⟨v, -, hv⟩ := (forall₂_of_valuesOf? hvalues).exists_right hm
      exact ih hv
  | key he _ ih =>
      obtain ⟨fields, hfields, -⟩ := Option.map_eq_some_iff.mp hn
      obtain ⟨f, -, hf⟩ := (fieldsOf?_eq_some_iff.mp hfields).exists_right he
      obtain ⟨v, hv⟩ := exists_yields_of_keyText? hf.1
      exact ih hv
  | value he _ ih =>
      obtain ⟨fields, hfields, -⟩ := Option.map_eq_some_iff.mp hn
      obtain ⟨f, -, hf⟩ := (fieldsOf?_eq_some_iff.mp hfields).exists_right he
      exact ih hf.2
  | tagged _ ih =>
      obtain ⟨inner, hinner, -⟩ := Option.bind_eq_some_iff.mp hn
      exact ih hinner

/-! ### Mappings -/

/-- What the entries of a mapping, each of them written as an entry of an object, come to. -/
structure Gathers (entries : List (Node × Node)) (written fields : List (String × Value)) :
    Prop where
  becomes : List.Forall₂ Becomes entries written
  /-- A text stands where it is written first. -/
  keys : fields.map Prod.fst = (written.map Prod.fst).eraseDups
  /-- It has the value that is written last. -/
  values : ∀ key, Value.field? fields key = written.reverse.lookup key
  eq_iff : fields = written ↔ ¬Collides entries
  length_iff : fields.length = entries.length ↔ ¬Collides entries

theorem gathers_merge {entries : List (Node × Node)} {written : List (String × Value)}
    (hkeys : DistinctKeys entries) (h : List.Forall₂ Becomes entries written) :
    Gathers entries written (Value.merge written) where
  becomes := h
  keys := Value.keys_merge written
  values := Value.field?_merge written
  eq_iff := Value.merge_eq_self_iff.trans (nodup_keys_iff hkeys h)
  length_iff := by
    rw [h.length_eq, Value.length_merge_eq_iff]
    exact nodup_keys_iff hkeys h

end Node

theorem read_eq_ok_iff {text : String} {value : Value} :
    read text = .ok value ↔ ∃ node, node? text = some node ∧ node.Yields value := by
  rw [read]
  cases hnode : node? text with
  | none => simp
  | some node => cases hvalue : node.toValue? <;> simp [Node.Yields, hvalue]

/-- What is read from a text is the value of its node, place by place, and an object stands for
every mapping in the node.  The object has the entries of the mapping, in their order, just if no
string among the keys is the text of a number or boolean among them. -/
theorem entries_of_read {text : String} {value : Value} (h : read text = .ok value) :
    ∃ node, node? text = some node ∧
      (∀ path, Option.Rel Node.Yields (node.at? path) (value.at? path)) ∧
      ∀ entries, node.Contains (.mapping entries) →
        ∃ written fields, (Node.mapping entries).Yields (.object fields) ∧
          Node.Gathers entries written fields := by
  obtain ⟨node, hnode, hvalue⟩ := read_eq_ok_iff.mp h
  refine ⟨node, hnode, Node.rel_at? hvalue, fun entries hentries => ?_⟩
  obtain ⟨part, hpart⟩ := hentries.exists_yields hvalue
  obtain ⟨written, hwritten, rfl⟩ := Option.map_eq_some_iff.mp hpart
  have hkeys := Node.distinct_of_node? hnode entries hentries
  have hbecomes := Node.fieldsOf?_eq_some_iff.mp hwritten
  exact ⟨written, Value.merge written, hpart, Node.gathers_merge hkeys hbecomes⟩

/-- A table of two components, one of them called `true` and the other one `"true"`. -/
def plantRoom : String := "true: fan\n\"true\": coil"

def plantRoomEntries : List (Node × Node) :=
  [(.bool true, .string "fan"), (.string "true", .string "coil")]

theorem node?_plantRoom : node? plantRoom = some (.mapping plantRoomEntries) := by
  cbv

/-- The fan is not there when the table is read. -/
theorem entries_plantRoom :
    read plantRoom = .ok (.object [("true", .string "coil")]) ∧
      ∃ written fields, Node.Gathers plantRoomEntries written fields ∧
        Node.Collides plantRoomEntries ∧ fields.length ≠ plantRoomEntries.length := by
  have hread : read plantRoom = .ok (.object [("true", .string "coil")]) :=
    read_eq_ok_iff.mpr ⟨_, node?_plantRoom, rfl⟩
  obtain ⟨node, hnode, -, hall⟩ := entries_of_read hread
  cases node?_plantRoom.symm.trans hnode
  obtain ⟨written, fields, -, hgathers⟩ := hall plantRoomEntries (.self _)
  have hcollides : Node.Collides plantRoomEntries := by
    refine ⟨"true", .bool true, .string "coil", .string "fan", ?_, ?_, nofun, rfl⟩
    · exact List.mem_cons_of_mem _ List.mem_cons_self
    · exact List.mem_cons_self
  exact ⟨hread, written, fields, hgathers, hcollides,
    fun hlength => hgathers.length_iff.mp hlength hcollides⟩

end Yaml

end HvacModel
