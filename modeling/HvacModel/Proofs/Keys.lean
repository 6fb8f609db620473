import Mathlib.Data.List.Nodup
import HvacModel.ConfigFile

/-! # Keys of raw values

A text may write a key of one object twice; the object that is read from it holds the key once.
`Value.distinctKeys` says of a value that none of its objects repeats a key, at any depth, and every
value of a configuration file has this property (`ConfigFile.distinctKeys_of_readValue`).

Both readers make their objects with `Value.insertField`, which repeats no key
(`distinctKeys_insertField`).  A JSON text is read token by token: what has been gathered so far has
distinct keys, in the frames of the stack and in the entries that wait for a key (`Reading.Keyed`),
and every token keeps it so (`Reading.Keyed.step`). -/

namespace HvacModel

namespace Value

mutual

/-- Whether no object in a value repeats a key. -/
def distinctKeys : Value → Bool
  | .array items => distinctKeysItems items
  | .object fields => decide (fields.map Prod.fst).Nodup && distinctKeysFields fields
  | _ => true

def distinctKeysItems : List Value → Bool
  | [] => true
  | v :: rest => v.distinctKeys && distinctKeysItems rest

def distinctKeysFields : List (String × Value) → Bool
  | [] => true
  | (_, v) :: rest => v.distinctKeys && distinctKeysFields rest

end

theorem distinctKeysItems_iff (items : List Value) :
    distinctKeysItems items = true ↔ ∀ v ∈ items, v.distinctKeys = true := by
  induction items with
  | nil => simp [distinctKeysItems]
  | cons v rest ih => rw [distinctKeysItems, Bool.and_eq_true, ih, List.forall_mem_cons]

theorem distinctKeysFields_iff (fields : List (String × Value)) :
    distinctKeysFields fields = true ↔ ∀ e ∈ fields, e.2.distinctKeys = true := by
  induction fields with
  | nil => simp [distinctKeysFields]
  | cons e rest ih =>
      obtain ⟨k, v⟩ := e
      rw [distinctKeysFields, Bool.and_eq_true, ih, List.forall_mem_cons]

theorem distinctKeys_array (items : List Value) :
    (array items).distinctKeys = true ↔ ∀ v ∈ items, v.distinctKeys = true := by
  rw [distinctKeys, distinctKeysItems_iff]

theorem distinctKeys_object (fields : List (String × Value)) :
    (object fields).distinctKeys = true ↔
      (fields.map Prod.fst).Nodup ∧ ∀ e ∈ fields, e.2.distinctKeys = true := by
  rw [distinctKeys, Bool.and_eq_true, decide_eq_true_eq, distinctKeysFields_iff]

theorem mem_of_field? {fields : List (String × Value)} {key : String} {value : Value}
    (h : field? fields key = some value) : (key, value) ∈ fields := by
  unfold field? at h
  induction fields with
  | nil => cases h
  | cons e rest ih =>
      obtain ⟨k, v⟩ := e
      rw [NameMap.lookup_cons_ite] at h
      by_cases hk : key = k
      · rw [if_pos hk, Option.some.injEq] at h
        rw [hk, h]
        exact List.mem_cons_self
      · rw [if_neg hk] at h
        exact List.mem_cons_of_mem _ (ih h)

theorem distinctKeys_of_field? {fields : List (String × Value)} {key : String} {value : Value}
    (h : (object fields).distinctKeys = true) (hf : field? fields key = some value) :
    value.distinctKeys = true :=
  ((distinctKeys_object fields).mp h).2 _ (mem_of_field? hf)

/-! ### Objects in the making -/

theorem mem_insertField {fields : List (String × Value)} {key : String} {value : Value}
    {e : String × Value} (h : e ∈ insertField fields key value) :
    e = (key, value) ∨ e ∈ fields := by
  induction fields with
  | nil => exact .inl (List.mem_singleton.mp h)
  | cons entry rest ih =>
      obtain ⟨k, v⟩ := entry
      rw [insertField] at h
      by_cases hk : k = key
      · rw [if_pos hk, List.mem_cons, hk] at h
        exact h.imp_right (List.mem_cons_of_mem _)
      · rw [if_neg hk] at h
        rcases List.mem_cons.mp h with rfl | h
        · exact .inr List.mem_cons_self
        · exact (ih h).imp_right (List.mem_cons_of_mem _)

theorem distinctKeys_insertField {fields : List (String × Value)} {value : Value} (key : String)
    (h : (object fields).distinctKeys = true) (hv : value.distinctKeys = true) :
    (object (insertField fields key value)).distinctKeys = true := by
  rw [distinctKeys_object] at h ⊢
  obtain ⟨hkeys, hall⟩ := h
  constructor
  · rw [keys_insertField]
    by_cases hmem : key ∈ fields.map Prod.fst
    · rwa [if_pos hmem]
    · rw [if_neg hmem]
      exact List.nodup_append.mpr
        ⟨hkeys, List.nodup_singleton key, fun _ ha _ hb => by
          rw [List.mem_singleton.mp hb]
          exact fun heq => hmem (heq ▸ ha)⟩
  · intro e he
    rcases mem_insertField he with rfl | he
    · exact hv
    · exact hall e he

theorem distinctKeys_ofEntries {entries : List (String × Value)}
    (h : ∀ e ∈ entries, e.2.distinctKeys = true) : (ofEntries entries).distinctKeys = true := by
  have hfold : ∀ fields, (object fields).distinctKeys = true →
      (object (entries.foldl (fun fields e => insertField fields e.1 e.2) fields)).distinctKeys =
        true := by
    induction entries with
    | nil => exact fun _ hfields => hfields
    | cons e rest ih =>
        intro fields hfields
        obtain ⟨he, hrest⟩ := List.forall_mem_cons.mp h
        exact ih hrest _ (distinctKeys_insertField e.1 hfields he)
  exact hfold [] rfl

end Value

/-- What every step of a pass keeps holds at its end. -/
theorem of_foldlM {σ α : Type} {P : σ → Prop} {Q : α → Prop} {step : σ → α → Option σ}
    (hstep : ∀ {s a s'}, P s → Q a → step s a = some s' → P s') {list : List α} {s s' : σ}
    (hs : P s) (hall : ∀ a ∈ list, Q a) (h : list.foldlM step s = some s') : P s' := by
  induction list generalizing s with
  | nil =>
      cases h
      exact hs
  | cons a rest ih =>
      rw [List.foldlM_cons] at h
      obtain ⟨t, ht, hrest⟩ := Option.bind_eq_some_iff.mp h
      obtain ⟨ha, hall⟩ := List.forall_mem_cons.mp hall
      exact ih (hstep hs ha ht) hall hrest

/-! ### JSON -/

namespace Json

/-- A token whose value repeats no key. -/
def Token.Keyed : Token → Prop
  | .scalar value => value.distinctKeys = true
  | _ => True

theorem keyed_of_runValue? {cs : List Char} {value : Value} (h : runValue? cs = some value) :
    (Token.scalar value).Keyed := by
  unfold runValue? at h
  split at h
  · cases h
    rfl
  split at h
  · cases h
    rfl
  split at h
  · cases h
    rfl
  · obtain ⟨n, -, rfl⟩ := Option.map_eq_some_iff.mp h
    rfl

theorem keyed_of_punctuation? {c : Char} {token : Token} (h : punctuation? c = some token) :
    token.Keyed := by
  unfold punctuation? at h
  split at h
  case h_7 => cases h
  all_goals
    cases h
    trivial

theorem keyed_outside {tokens : List Token} (h : ∀ t ∈ tokens, t.Keyed) (c : Char) :
    ∀ t ∈ (outside tokens c).tokens, t.Keyed := by
  unfold outside
  cases hp : punctuation? c with
  | some token => exact List.forall_mem_cons.mpr ⟨keyed_of_punctuation? hp, h⟩
  | none =>
      dsimp only
      split
      · exact h
      · split <;> exact h

theorem keyed_step {s s' : Scan} {c : Char} (h : ∀ t ∈ s.tokens, t.Keyed)
    (hs : s.step c = some s') : ∀ t ∈ s'.tokens, t.Keyed := by
  unfold Scan.step at hs
  cases hm : s.mode with
  | between =>
      simp only [hm, Option.some.injEq] at hs
      exact hs ▸ keyed_outside h c
  | run collected =>
      simp only [hm] at hs
      split at hs
      · obtain ⟨value, hvalue, hs⟩ := Option.bind_eq_some_iff.mp hs
        cases hs
        exact keyed_outside (List.forall_mem_cons.mpr ⟨keyed_of_runValue? hvalue, h⟩) c
      · cases hs
        exact h
  | text collected =>
      simp only [hm] at hs
      split at hs
      · cases hs
        exact List.forall_mem_cons.mpr ⟨rfl, h⟩
      split at hs
      · cases hs
        exact h
      split at hs
      · cases hs
      · cases hs
        exact h
  | escape collected =>
      simp only [hm] at hs
      split at hs
      · cases hs
        exact h
      · obtain ⟨e, -, rfl⟩ := Option.map_eq_some_iff.mp hs
        exact h
  | unicode collected missing value high =>
      simp only [hm] at hs
      obtain ⟨digit, -, hs⟩ := Option.bind_eq_some_iff.mp hs
      split at hs
      · obtain ⟨mode, -, hs⟩ := Option.bind_eq_some_iff.mp hs
        cases hs
        exact h
      · cases hs
        exact h
  | awaitLow collected high backslash =>
      simp only [hm] at hs
      split at hs
      · split at hs
        · cases hs
          exact h
        · cases hs
      split at hs
      · cases hs
        exact h
      · cases hs

theorem keyed_of_finish {s : Scan} {tokens : List Token} (h : ∀ t ∈ s.tokens, t.Keyed)
    (hs : s.finish = some tokens) : ∀ t ∈ tokens, t.Keyed := by
  unfold Scan.finish at hs
  split at hs
  · cases hs
    exact fun t ht => h t (List.mem_reverse.mp ht)
  · obtain ⟨value, hvalue, rfl⟩ := Option.map_eq_some_iff.mp hs
    have hall := List.forall_mem_cons.mpr ⟨keyed_of_runValue? hvalue, h⟩
    exact fun t ht => hall t (List.mem_reverse.mp ht)
  · cases hs

theorem keyed_of_tokens? {text : String} {tokens : List Token} (h : tokens? text = some tokens) :
    ∀ t ∈ tokens, t.Keyed := by
  obtain ⟨scan, hscan, hfinish⟩ := Option.bind_eq_some_iff.mp h
  refine keyed_of_finish ?_ hfinish
  exact of_foldlM (P := fun s : Scan => ∀ t ∈ s.tokens, t.Keyed) (Q := fun _ => True)
    (fun hs _ => keyed_step hs) (by simp) (fun _ _ => trivial) hscan

/-- A frame that has gathered no repeated key. -/
def Frame.Keyed : Frame → Prop
  | .array items => ∀ v ∈ items, v.distinctKeys = true
  | .object fields _ => (Value.object fields).distinctKeys = true

/-- What is expected after entries, or a value, without a repeated key. -/
def Expected.Keyed : Expected → Prop
  | .firstKey fields | .key fields | .colon fields _ => (Value.object fields).distinctKeys = true
  | .done v => v.distinctKeys = true
  | .value | .firstItem | .separator => True

/-- A reader that has gathered no repeated key. -/
structure Reading.Keyed (r : Reading) : Prop where
  stack : ∀ frame ∈ r.stack, frame.Keyed
  expected : r.expected.Keyed

namespace Reading

variable {depth : Nat} {stack : List Frame} {token : Token} {r r' : Reading}

theorem keyed_place (h : ∀ frame ∈ stack, frame.Keyed) {value : Value}
    (hv : value.distinctKeys = true) : (place stack value).Keyed := by
  match stack with
  | [] => exact ⟨h, hv⟩
  | .array items :: outer =>
      obtain ⟨hitems, houter⟩ := List.forall_mem_cons.mp h
      have hframe : (Frame.array (value :: items)).Keyed := List.forall_mem_cons.mpr ⟨hv, hitems⟩
      exact ⟨List.forall_mem_cons.mpr ⟨hframe, houter⟩, trivial⟩
  | .object fields key :: outer =>
      obtain ⟨hfields, houter⟩ := List.forall_mem_cons.mp h
      have hframe : (Frame.object (Value.insertField fields key value) key).Keyed :=
        Value.distinctKeys_insertField key hfields hv
      exact ⟨List.forall_mem_cons.mpr ⟨hframe, houter⟩, trivial⟩

theorem keyed_begin (h : ∀ frame ∈ stack, frame.Keyed) (ht : token.Keyed)
    (hr : begin depth stack token = some r) : r.Keyed := by
  unfold begin at hr
  split at hr
  · cases hr
    exact keyed_place h ht
  · split at hr
    · cases hr
      have hframe : (Frame.array []).Keyed := List.forall_mem_nil _
      exact ⟨List.forall_mem_cons.mpr ⟨hframe, h⟩, trivial⟩
    · cases hr
  · split at hr
    · cases hr
      exact ⟨h, rfl⟩
    · cases hr
  · cases hr

theorem keyed_takeKey (h : ∀ frame ∈ stack, frame.Keyed) {fields : List (String × Value)}
    (hf : (Value.object fields).distinctKeys = true)
    (hr : takeKey stack fields token = some r) : r.Keyed := by
  unfold takeKey at hr
  split at hr
  · cases hr
    exact ⟨h, hf⟩
  · cases hr

/-- The values of a frame that is closed. -/
theorem distinctKeys_array_reverse {items : List Value} (h : (Frame.array items).Keyed) :
    (Value.array items.reverse).distinctKeys = true :=
  (Value.distinctKeys_array _).mpr fun v hv => h v (List.mem_reverse.mp hv)

/-- A token adds no repeated key. -/
theorem Keyed.step (h : r.Keyed) (ht : token.Keyed) (hr : r.step depth token = some r') :
    r'.Keyed := by
  obtain ⟨hstack, hexpected⟩ := h
  unfold Reading.step at hr
  cases hm : r.expected with
  | value =>
      simp only [hm] at hr
      exact keyed_begin hstack ht hr
  | firstItem =>
      simp only [hm] at hr
      split at hr
      · rename_i items outer hs
        rw [hs] at hstack
        obtain ⟨hitems, houter⟩ := List.forall_mem_cons.mp hstack
        cases hr
        exact keyed_place houter (distinctKeys_array_reverse hitems)
      · exact keyed_begin hstack ht hr
  | firstKey fields =>
      simp only [hm] at hr hexpected
      split at hr
      · cases hr
        exact keyed_place hstack hexpected
      · exact keyed_takeKey hstack hexpected hr
  | key fields =>
      simp only [hm] at hr hexpected
      exact keyed_takeKey hstack hexpected hr
  | colon fields key =>
      simp only [hm] at hr hexpected
      split at hr
      · cases hr
        have hframe : (Frame.object fields key).Keyed := hexpected
        exact ⟨List.forall_mem_cons.mpr ⟨hframe, hstack⟩, trivial⟩
      · cases hr
  | separator =>
      simp only [hm] at hr
      split at hr
      · cases hr
        exact ⟨hstack, trivial⟩
      · rename_i fields key outer hs
        rw [hs] at hstack
        obtain ⟨hfields, houter⟩ := List.forall_mem_cons.mp hstack
        cases hr
        exact ⟨houter, hfields⟩
      · rename_i items outer hs
        rw [hs] at hstack
        obtain ⟨hitems, houter⟩ := List.forall_mem_cons.mp hstack
        cases hr
        exact keyed_place houter (distinctKeys_array_reverse hitems)
      · rename_i fields key outer hs
        rw [hs] at hstack
        obtain ⟨hfields, houter⟩ := List.forall_mem_cons.mp hstack
        cases hr
        exact keyed_place houter hfields
      · cases hr
  | done value =>
      simp only [hm] at hr
      cases hr

end Reading

theorem distinctKeys_of_read? {depth : Nat} {text : String} {value : Value}
    (h : read? depth text = some value) : value.distinctKeys = true := by
  obtain ⟨tokens, htokens, h⟩ := Option.bind_eq_some_iff.mp h
  obtain ⟨r, hr, hdone⟩ := Option.bind_eq_some_iff.mp h
  have hstart : (Reading.mk [] .value).Keyed := ⟨List.forall_mem_nil _, trivial⟩
  have hend : r.Keyed := of_foldlM (fun hs ht => hs.step ht) hstart (keyed_of_tokens? htokens) hr
  split at hdone
  · rename_i v hm
    cases hdone
    have hexpected := hend.expected
    rwa [hm] at hexpected
  · cases hdone

end Json

/-! ### YAML -/

namespace Yaml.Node

mutual

theorem distinctKeys_of_toValue? (n : Node) {value : Value} (h : n.toValue? = some value) :
    value.distinctKeys = true := by
  match n with
  | null | bool _ | number (.int _) | string _ =>
      rw [toValue?] at h
      cases h
      rfl
  | number (.float x) =>
      rw [toValue?, Value.ofFloat, Option.some.injEq] at h
      split at h
      all_goals
        cases h
        rfl
  | sequence items =>
      rw [toValue?] at h
      obtain ⟨values, hvalues, rfl⟩ := Option.map_eq_some_iff.mp h
      exact (Value.distinctKeys_array values).mpr (distinctKeys_of_valuesOf? items hvalues)
  | mapping entries =>
      rw [toValue?] at h
      obtain ⟨fields, hfields, rfl⟩ := Option.map_eq_some_iff.mp h
      exact Value.distinctKeys_ofEntries (distinctKeys_of_fieldsOf? entries hfields)
  | tagged tag node =>
      rw [toValue?] at h
      obtain ⟨inner, hinner, hvalue⟩ := Option.bind_eq_some_iff.mp h
      cases hvalue
      rw [Value.distinctKeys_object]
      exact ⟨List.nodup_singleton _,
        List.forall_mem_singleton.mpr (distinctKeys_of_toValue? node hinner)⟩

theorem distinctKeys_of_valuesOf? (items : List Node) {values : List Value}
    (h : valuesOf? items = some values) : ∀ v ∈ values, v.distinctKeys = true := by
  match items with
  | [] =>
      cases h
      exact List.forall_mem_nil _
  | n :: rest =>
      rw [valuesOf?] at h
      obtain ⟨value, hvalue, h⟩ := Option.bind_eq_some_iff.mp h
      obtain ⟨more, hmore, hvalues⟩ := Option.bind_eq_some_iff.mp h
      cases hvalues
      exact List.forall_mem_cons.mpr
        ⟨distinctKeys_of_toValue? n hvalue, distinctKeys_of_valuesOf? rest hmore⟩

theorem distinctKeys_of_fieldsOf? (entries : List (Node × Node)) {fields : List (String × Value)}
    (h : fieldsOf? entries = some fields) : ∀ e ∈ fields, e.2.distinctKeys = true := by
  match entries with
  | [] =>
      cases h
      exact List.forall_mem_nil _
  | (k, v) :: rest =>
      rw [fieldsOf?] at h
      obtain ⟨key, -, h⟩ := Option.bind_eq_some_iff.mp h
      obtain ⟨value, hvalue, h⟩ := Option.bind_eq_some_iff.mp h
      obtain ⟨more, hmore, hfields⟩ := Option.bind_eq_some_iff.mp h
      cases hfields
      exact List.forall_mem_cons.mpr
        ⟨distinctKeys_of_toValue? v hvalue, distinctKeys_of_fieldsOf? rest hmore⟩

end

end Yaml.Node

/-! ### Configuration files -/

/-- No value of a configuration file repeats a key. -/
theorem ConfigFile.distinctKeys_of_readValue {path : String} {contents : Option ByteArray}
    {value : Value} (h : readValue path contents = .ok value) : value.distinctKeys = true := by
  unfold readValue at h
  cases hformat : format? path with
  | none => simp [hformat] at h
  | some format =>
      simp only [hformat] at h
      cases htext : contents.bind String.fromUTF8? with
      | none => simp [htext] at h
      | some text =>
          simp only [htext] at h
          cases format with
          | yaml =>
              rw [valueOf, Yaml.read] at h
              cases hnode : Yaml.node? text with
              | none => simp [hnode] at h
              | some node =>
                  cases hvalue : node.toValue? with
                  | none => simp [hnode, hvalue] at h
                  | some v =>
                      simp only [hnode, hvalue, Except.ok.injEq] at h
                      exact h ▸ node.distinctKeys_of_toValue? hvalue
          | json =>
              rw [valueOf] at h
              cases hvalue : Json.read? Json.configDepth text with
              | none => simp [hvalue] at h
              | some v =>
                  simp only [hvalue, Except.ok.injEq] at h
                  exact h ▸ Json.distinctKeys_of_read? hvalue

end HvacModel
