import HvacModel.Yaml.Reader

/-! # The keys of an expanded node

A node of a YAML text repeats no key in any of its mappings (`Node.distinct_of_node?`): an entry is
added to a mapping only when no entry before it has the same key.  The expansion may replace aliases
and fail on the way, so what holds of its results is followed through its steps (`Ensures`). -/

namespace HvacModel.Yaml

namespace Node

/-- A node is a part of another one, at any depth. -/
inductive Contains : Node → Node → Prop
  | self (n : Node) : Contains n n
  | item {items : List Node} {m p : Node} (hm : m ∈ items) (hp : Contains m p) :
    Contains (sequence items) p
  | key {entries : List (Node × Node)} {e : Node × Node} {p : Node} (he : e ∈ entries)
    (hp : Contains e.1 p) : Contains (mapping entries) p
  | value {entries : List (Node × Node)} {e : Node × Node} {p : Node} (he : e ∈ entries)
    (hp : Contains e.2 p) : Contains (mapping entries) p
  | tagged {tag : String} {n p : Node} (hp : Contains n p) : Contains (tagged tag n) p

/-- No two keys are the same. -/
def DistinctKeys (entries : List (Node × Node)) : Prop :=
  entries.Pairwise fun e f => e.1.same f.1 = false

/-- No mapping in a node repeats a key. -/
def Distinct (n : Node) : Prop := ∀ entries, n.Contains (mapping entries) → DistinctKeys entries

/-- A node without parts. -/
def IsLeaf : Node → Prop
  | null | bool _ | number _ | string _ => True
  | sequence _ | mapping _ | tagged _ _ => False

theorem IsLeaf.eq_of_contains {n p : Node} (h : n.IsLeaf) (hp : n.Contains p) : p = n := by
  cases hp with
  | self => rfl
  | item => exact h.elim
  | key => exact h.elim
  | value => exact h.elim
  | tagged => exact h.elim

theorem IsLeaf.distinct {n : Node} (h : n.IsLeaf) : n.Distinct := by
  intro entries hp
  rw [← h.eq_of_contains hp] at h
  exact h.elim

theorem distinct_sequence {items : List Node} (h : ∀ m ∈ items, m.Distinct) :
    (sequence items).Distinct := by
  intro entries hp
  cases hp with
  | item hm hp => exact h _ hm entries hp

theorem distinct_mapping {entries : List (Node × Node)} (hkeys : DistinctKeys entries)
    (h : ∀ e ∈ entries, e.1.Distinct ∧ e.2.Distinct) : (mapping entries).Distinct := by
  intro inner hp
  cases hp with
  | self => exact hkeys
  | key he hp => exact (h _ he).1 inner hp
  | value he hp => exact (h _ he).2 inner hp

theorem distinct_tagged {tag : String} {n : Node} (h : n.Distinct) : (tagged tag n).Distinct := by
  intro entries hp
  cases hp with
  | tagged hp => exact h entries hp

end Node

/-! ### What an expansion ensures -/

variable {α β σ : Type}

/-- Whatever an expansion comes to has a property. -/
def Ensures (m : Expanding α) (P : α → Prop) : Prop :=
  ∀ left a left', m.run left = some (a, left') → P a

variable {P : α → Prop} {Q : β → Prop}

theorem ensures_pure {a : α} (h : P a) : Ensures (pure a) P := by
  intro left b left' hb
  cases hb
  exact h

theorem ensures_failure : Ensures (failure : Expanding α) P := by
  intro left a left' ha
  cases ha

theorem ensures_any (m : Expanding α) : Ensures m fun _ => True := fun _ _ _ _ => trivial

theorem ensures_bind {m : Expanding α} {f : α → Expanding β} (hm : Ensures m P)
    (hf : ∀ a, P a → Ensures (f a) Q) : Ensures (m >>= f) Q := by
  intro left b left' hb
  rw [StateT.run_bind] at hb
  obtain ⟨⟨a, between⟩, ha, hb⟩ := Option.bind_eq_some_iff.mp hb
  exact hf a (hm _ _ _ ha) _ _ _ hb

theorem ensures_mapM {f : α → Expanding β} {list : List α} (h : ∀ a ∈ list, Ensures (f a) Q) :
    Ensures (list.mapM f) fun bs => ∀ b ∈ bs, Q b := by
  induction list with
  | nil => exact ensures_pure (List.forall_mem_nil Q)
  | cons a rest ih =>
      obtain ⟨ha, hrest⟩ := List.forall_mem_cons.mp h
      rw [List.mapM_cons]
      refine ensures_bind ha fun b hb => ?_
      refine ensures_bind (ih hrest) fun bs hbs => ?_
      exact ensures_pure (List.forall_mem_cons.mpr ⟨hb, hbs⟩)

/-- What every step keeps holds of the result. -/
theorem ensures_foldlM {R : σ → Prop} {step : σ → α → Expanding σ}
    (hstep : ∀ s a, R s → Ensures (step s a) R) (list : List α) {s : σ} (hs : R s) :
    Ensures (list.foldlM step s) R := by
  induction list generalizing s with
  | nil => exact ensures_pure hs
  | cons a rest ih =>
      rw [List.foldlM_cons]
      exact ensures_bind (hstep s a hs) fun s' hs' => ih hs'

/-! ### Scalars -/

open Node

theorem isLeaf_floatOrString (text : String) : (Scalar.floatOrString text).IsLeaf := by
  unfold Scalar.floatOrString
  split
  · trivial
  · split <;> trivial

theorem isLeaf_of_plain? {text : String} {n : Node} (h : Scalar.plain? text = some n) :
    n.IsLeaf := by
  unfold Scalar.plain? at h
  cases hp : Scalar.plain text with
  | wideInteger => simp [hp] at h
  | node m =>
      simp only [hp, Option.some.injEq] at h
      subst h
      unfold Scalar.plain at hp
      split at hp
      · cases hp
        trivial
      · split at hp
        · cases hp
          trivial
        · split at hp
          · cases hp
            trivial
          · split at hp
            · cases hp
            · cases hp
              exact isLeaf_floatOrString text
        · cases hp
          exact isLeaf_floatOrString text

/-- A scalar has no parts. -/
theorem isLeaf_of_scalar {tag : Option Tag} {text : String} {plain : Bool} {n : Node}
    (h : Scalar.node? tag text plain = some n) : n.IsLeaf := by
  unfold Scalar.node? at h
  cases tag with
  | none =>
      dsimp only at h
      split at h
      · exact isLeaf_of_plain? h
      · cases h
        trivial
  | some tag =>
      dsimp only at h
      split at h
      · obtain ⟨b, -, rfl⟩ := Option.map_eq_some_iff.mp h
        trivial
      split at h
      · obtain ⟨i, -, hi⟩ := Option.bind_eq_some_iff.mp h
        split at hi
        · cases hi
          trivial
        · cases hi
      split at h
      · obtain ⟨x, -, rfl⟩ := Option.map_eq_some_iff.mp h
        trivial
      split at h
      · split at h
        · cases h
          trivial
        · cases h
      · cases h
        trivial

/-! ### Expansion -/

namespace Tree

theorem distinct_underTag (p : Properties) {n : Node} (h : n.Distinct) :
    (underTag p n).Distinct := by
  unfold underTag
  split
  · exact distinct_tagged h
  · exact h

/-- Entries of distinct keys whose nodes repeat no key. -/
def Gathered (entries : List (Node × Node)) : Prop :=
  DistinctKeys entries ∧ ∀ e ∈ entries, e.1.Distinct ∧ e.2.Distinct

theorem ensures_addEntry {entries : List (Node × Node)} {key value : Node}
    (h : Gathered entries) (hkey : key.Distinct) (hvalue : value.Distinct) :
    Ensures (addEntry entries key value) Gathered := by
  obtain ⟨hkeys, hall⟩ := h
  unfold addEntry
  by_cases hany : (entries.any fun e => e.1.same key) = true
  · rw [if_pos hany]
    exact ensures_failure
  · rw [if_neg hany]
    have hfresh : ∀ e ∈ entries, e.1.same key = false := by simpa using hany
    refine ensures_pure ⟨?_, ?_⟩
    · refine List.pairwise_append.mpr ⟨hkeys, List.pairwise_singleton _ _, ?_⟩
      intro e he f hf
      rw [List.mem_singleton.mp hf]
      exact hfresh e he
    · rw [List.forall_mem_append, List.forall_mem_singleton]
      exact ⟨hall, hkey, hvalue⟩

theorem ensures_contents {member : Option (Tree → Expanding Node)}
    (hmember : ∀ f, member = some f → ∀ t, Ensures (f t) Distinct) (t : Tree) :
    Ensures (contents member t) Distinct := by
  cases t with
  | reference anchor => exact ensures_failure
  | scalar p text plain =>
      rw [contents]
      split
      · rename_i n hn
        exact ensures_pure (distinct_underTag p (isLeaf_of_scalar hn).distinct)
      · exact ensures_failure
  | sequence p items =>
      cases member with
      | none => exact ensures_failure
      | some f =>
          have hf := hmember f rfl
          refine ensures_bind (ensures_mapM fun t _ => hf t) fun nodes hnodes => ?_
          exact ensures_pure (distinct_underTag p (distinct_sequence hnodes))
  | mapping p entries =>
      cases member with
      | none => exact ensures_failure
      | some f =>
          have hf := hmember f rfl
          refine ensures_bind (ensures_foldlM (R := Gathered) ?_ entries ?_) fun nodes hnodes => ?_
          · intro done e hdone
            refine ensures_bind (hf e.1) fun key hkey => ?_
            exact ensures_bind (hf e.2) fun value hvalue => ensures_addEntry hdone hkey hvalue
          · exact ⟨List.Pairwise.nil, List.forall_mem_nil _⟩
          · exact ensures_pure (distinct_underTag p (distinct_mapping hnodes.1 hnodes.2))

theorem ensures_expand (table : List (Nat × Tree)) (depth : Nat) (t : Tree) :
    Ensures (expand table depth t) Distinct := by
  induction depth generalizing t with
  | zero =>
      refine ensures_bind (ensures_any _) fun u _ => ensures_contents ?_ u
      exact nofun
  | succ depth ih =>
      refine ensures_bind (ensures_any _) fun u _ => ensures_contents ?_ u
      rintro f ⟨⟩ t
      exact ih t

end Tree

/-- No mapping in the node of a text repeats a key. -/
theorem Node.distinct_of_node? {text : String} {n : Node} (h : node? text = some n) :
    n.Distinct := by
  obtain ⟨characters, -, h⟩ := Option.bind_eq_some_iff.mp h
  obtain ⟨tokens, -, h⟩ := Option.bind_eq_some_iff.mp h
  obtain ⟨tree, -, h⟩ := Option.bind_eq_some_iff.mp h
  obtain ⟨⟨m, left⟩, hrun, rfl⟩ := Option.map_eq_some_iff.mp h
  exact Tree.ensures_expand _ _ _ _ _ _ hrun

end HvacModel.Yaml
