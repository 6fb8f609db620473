import HvacModel.Model.Basic
import HvacModel.Proofs.Json.Compact
import HvacModel.Proofs.TimeOfDay

/-! # Raw values of models

The raw value of a model holds every field of it but the keys of inert rules and the indexes of the
arena.  It is always finite (`Model.finite_encode`), because a double that is no number becomes
`null`; where all numbers of two models are finite (`Model.Finite`), models with the same raw value
agree in everything that is encoded (`Model.Encoded.of_encode_eq`). -/

namespace HvacModel

/-! ### Lists -/

/-- Lists that agree under one function agree under another, if their members do. -/
theorem map_eq_of_map_eq {α β γ : Type} {f : α → β} {g : α → γ} {xs ys : List α}
    (h : ∀ x ∈ xs, ∀ y ∈ ys, f x = f y → g x = g y) (hmap : xs.map f = ys.map f) :
    xs.map g = ys.map g := by
  induction xs generalizing ys with
  | nil =>
      cases ys with
      | nil => rfl
      | cons y ys => cases hmap
  | cons x xs ih =>
      cases ys with
      | nil => cases hmap
      | cons y ys =>
          obtain ⟨hxy, hrest⟩ := List.cons_eq_cons.1 hmap
          rw [List.map_cons, List.map_cons, h x (by simp) y (by simp) hxy,
            ih (fun a ha b hb => h a (by simp [ha]) b (by simp [hb])) hrest]

namespace Value

variable {α : Type} {f : α → Value}

/-- Arrays of values that can be told apart. -/
theorem eq_of_ofList_eq {xs ys : List α} (h : ∀ x ∈ xs, ∀ y ∈ ys, f x = f y → x = y)
    (heq : ofList f xs = ofList f ys) : xs = ys := by
  have hmap := map_eq_of_map_eq (g := id) h (array.inj heq)
  rwa [List.map_id, List.map_id] at hmap

theorem ofList_inj (hf : Function.Injective f) {xs ys : List α} :
    ofList f xs = ofList f ys ↔ xs = ys :=
  ⟨eq_of_ofList_eq fun _ _ _ _ h => hf h, fun h => h ▸ rfl⟩

theorem ofOption_inj (hf : Function.Injective f) (hnull : ∀ a, f a ≠ .null) {a b : Option α} :
    ofOption f a = ofOption f b ↔ a = b := by
  refine ⟨fun h => ?_, fun h => h ▸ rfl⟩
  cases a with
  | none =>
      cases b with
      | none => rfl
      | some b => exact absurd h.symm (hnull b)
  | some a =>
      cases b with
      | none => exact absurd h (hnull a)
      | some b => exact congrArg some (hf h)

theorem ofNat_injective : Function.Injective ofNat := fun m n h => by simpa [ofNat] using h

theorem ofNat_ne_null (n : ℕ) : ofNat n ≠ .null := nofun

theorem eq_of_ofFloat_eq {x y : Float} (hx : x.isFinite = true) (hy : y.isFinite = true)
    (h : ofFloat x = ofFloat y) : x = y := by
  simpa [ofFloat, hx, hy] using h

/-! ### Finite values -/

@[simp]
theorem finite_string (s : String) : (string s).Finite := .string s

@[simp]
theorem finite_ofNat (n : ℕ) : (ofNat n).Finite := .number trivial

@[simp]
theorem finite_ofFloat (x : Float) : (ofFloat x).Finite := by
  rw [ofFloat]
  split
  · next h => exact .number h
  · exact .null

theorem finite_ofOption (hf : ∀ a, (f a).Finite) (a : Option α) : (ofOption f a).Finite := by
  cases a with
  | none => exact .null
  | some a => exact hf a

theorem finite_ofList (hf : ∀ a, (f a).Finite) (items : List α) : (ofList f items).Finite := by
  refine .array fun v hv => ?_
  obtain ⟨a, -, rfl⟩ := List.mem_map.1 hv
  exact hf a

@[simp]
theorem finite_object_iff {fields : List (String × Value)} :
    (object fields).Finite ↔ ∀ e ∈ fields, e.2.Finite :=
  ⟨fun | .object h => h, .object⟩

end Value

/-! ### Handles -/

theorem Handle.encode_injective {entity : Entity} :
    Function.Injective (Handle.encode : Handle entity → Value) := fun a b h => by
  cases a
  cases b
  simpa [Handle.encode, Value.ofNat] using h

@[simp]
theorem Handle.finite_encode {entity : Entity} (h : Handle entity) : h.encode.Finite :=
  Value.finite_ofNat _

@[simp]
theorem Skeleton.finite_encodeHandles {entity : Entity} (handles : List (Handle entity)) :
    (encodeHandles handles).Finite := Value.finite_ofList Handle.finite_encode _

theorem Skeleton.encodeHandles_inj {entity : Entity} {xs ys : List (Handle entity)} :
    encodeHandles xs = encodeHandles ys ↔ xs = ys := Value.ofList_inj Handle.encode_injective

/-! ### Attributes -/

/-- An attribute value that is finite if it is a number. -/
def AttributeValue.Finite : AttributeValue → Prop
  | number x => x.isFinite = true
  | _ => True

instance : DecidablePred AttributeValue.Finite
  | .number x => inferInstanceAs (Decidable (x.isFinite = true))
  | .flag _ => isTrue trivial
  | .text _ => isTrue trivial

/-- Attributes whose numbers are finite. -/
def Attributes.Finite (a : Attributes) : Prop := ∀ e ∈ a.entries, e.2.Finite

instance : DecidablePred Attributes.Finite := fun a =>
  inferInstanceAs (Decidable (∀ e ∈ a.entries, e.2.Finite))

@[simp]
theorem AttributeValue.finite_encode (v : AttributeValue) : v.encode.Finite := by
  cases v with
  | flag b => exact .bool b
  | number x => exact Value.finite_ofFloat x
  | text s => exact .string s

theorem AttributeValue.eq_of_encode_eq {v w : AttributeValue} (hv : v.Finite) (hw : w.Finite)
    (h : v.encode = w.encode) : v = w := by
  cases v <;> cases w <;> simp_all [encode, Finite, Value.ofFloat]

@[simp]
theorem Attributes.finite_encode (a : Attributes) : a.encode.Finite := by
  refine .object fun e he => ?_
  obtain ⟨entry, -, rfl⟩ := List.mem_map.1 he
  exact entry.2.finite_encode

theorem Attributes.eq_of_encode_eq {a b : Attributes} (ha : a.Finite) (hb : b.Finite)
    (h : a.encode = b.encode) : a = b := by
  have hentries : a.entries.map id = b.entries.map id := by
    refine map_eq_of_map_eq (fun x hx y hy hxy => ?_) (Value.object.inj h)
    obtain ⟨hname, hvalue⟩ := Prod.mk.inj hxy
    exact Prod.ext hname (AttributeValue.eq_of_encode_eq (ha x hx) (hb y hy) hvalue)
  cases a
  cases b
  simpa using hentries

/-! ### Components -/

theorem ObjectType.name_injective : Function.Injective ObjectType.name := fun s t h =>
  Option.some.inj ((ofName?_name s).symm.trans ((congrArg ofName? h).trans (ofName?_name t)))

theorem LoopKind.name_injective : Function.Injective LoopKind.name := fun s t h =>
  Option.some.inj ((ofName?_name s).symm.trans ((congrArg ofName? h).trans (ofName?_name t)))

@[simp]
theorem ComponentNode.finite_encode (n : ComponentNode) : n.encode.Finite := by
  simp [encode, Value.finite_ofOption Handle.finite_encode, Value.finite_ofList Handle.finite_encode]

theorem ComponentNode.eq_of_encode_eq {n m : ComponentNode} (hn : n.attributes.Finite)
    (hm : m.attributes.Finite) (h : n.encode = m.encode) : n = m := by
  simp only [encode, Value.object.injEq, List.cons.injEq, Prod.mk.injEq, true_and, and_true,
    Value.string.injEq, Handle.encode_injective.eq_iff, ObjectType.name_injective.eq_iff,
    Value.ofOption_inj Handle.encode_injective (fun _ => Value.ofNat_ne_null _),
    Value.ofList_inj Handle.encode_injective] at h
  obtain ⟨hid, hname, hpath, htype, hattributes, howner, hsubs⟩ := h
  have hattributes := Attributes.eq_of_encode_eq hn hm hattributes
  cases n
  cases m
  simp_all

/-! ### Systems -/

namespace Skeleton

@[simp]
theorem Branch.finite_encode (b : Branch) : b.encode.Finite := by simp [encode]

theorem Branch.encode_injective : Function.Injective Branch.encode := fun a b h => by
  cases a
  cases b
  simpa [encode, encodeHandles_inj] using h

@[simp]
theorem AirLoop.finite_encode (l : AirLoop) : l.encode.Finite := by
  simp [encode, Value.finite_ofList Branch.finite_encode]

theorem AirLoop.eq_of_encode_eq {l k : AirLoop} (hl : l.attributes.Finite)
    (hk : k.attributes.Finite) (h : l.encode = k.encode) : l = k := by
  simp only [encode, Value.object.injEq, List.cons.injEq, Prod.mk.injEq, true_and, and_true,
    Value.string.injEq, Handle.encode_injective.eq_iff, encodeHandles_inj,
    Value.ofList_inj Branch.encode_injective] at h
  obtain ⟨hid, hname, hsupply, hbranches, hattributes⟩ := h
  have hattributes := Attributes.eq_of_encode_eq hl hk hattributes
  cases l
  cases k
  simp_all

@[simp]
theorem PlantLoop.finite_encode (l : PlantLoop) : l.encode.Finite := by simp [encode]

theorem PlantLoop.encode_injective : Function.Injective PlantLoop.encode := fun l k h => by
  cases l
  cases k
  simpa [encode, encodeHandles_inj, Handle.encode_injective.eq_iff,
    LoopKind.name_injective.eq_iff] using h

/-- A system whose attributes, and those of its air loops, are finite. -/
def System.Finite (s : System) : Prop :=
  s.attributes.Finite ∧ ∀ l ∈ s.airLoops, l.attributes.Finite

instance : DecidablePred System.Finite := fun s =>
  inferInstanceAs (Decidable (s.attributes.Finite ∧ ∀ l ∈ s.airLoops, l.attributes.Finite))

@[simp]
theorem System.finite_encode (s : System) : s.encode.Finite := by
  simp [encode, Value.finite_ofList AirLoop.finite_encode,
    Value.finite_ofList PlantLoop.finite_encode, Value.finite_ofOption Handle.finite_encode]

theorem System.eq_of_encode_eq {s t : System} (hs : s.Finite) (ht : t.Finite)
    (h : s.encode = t.encode) : s = t := by
  simp only [encode, Value.object.injEq, List.cons.injEq, Prod.mk.injEq, true_and, and_true,
    Value.string.injEq, Handle.encode_injective.eq_iff, Value.ofList_inj PlantLoop.encode_injective,
    Value.ofOption_inj Handle.encode_injective (fun _ => Value.ofNat_ne_null _)] at h
  obtain ⟨hid, hname, hair, hplant, havailability, hattributes⟩ := h
  have hair := Value.eq_of_ofList_eq
    (fun l hl k hk => AirLoop.eq_of_encode_eq (hs.2 l hl) (ht.2 k hk)) hair
  have hattributes := Attributes.eq_of_encode_eq hs.1 ht.1 hattributes
  cases s
  cases t
  simp_all

end Skeleton

/-! ### Schedules -/

/-- A day whose values are finite. -/
def DayProfile.Finite (d : DayProfile) : Prop := ∀ p ∈ d.breakpoints, p.2.isFinite = true

instance : DecidablePred DayProfile.Finite := fun d =>
  inferInstanceAs (Decidable (∀ p ∈ d.breakpoints, p.2.isFinite = true))

namespace CompiledSchedule

@[simp]
theorem finite_encodeDay (d : DayProfile) : (encodeDay d).Finite := by
  have hpoint : ∀ p : TimeOfDay × Float, (Value.array [p.1.encode, .ofFloat p.2]).Finite :=
    fun p => .array (by simp [TimeOfDay.encode])
  simp [encodeDay, Value.finite_ofList hpoint]

theorem eq_of_encodeDay_eq {d e : DayProfile} (hd : d.Finite) (he : e.Finite)
    (h : encodeDay d = encodeDay e) : d = e := by
  simp only [encodeDay, Value.object.injEq, List.cons.injEq, Prod.mk.injEq, true_and, and_true,
    Value.string.injEq] at h
  obtain ⟨hkey, hname, hpoints⟩ := h
  have hpoints : d.breakpoints = e.breakpoints := by
    refine Value.eq_of_ofList_eq (fun p hp q hq hpq => ?_) hpoints
    simp only [TimeOfDay.encode, Value.array.injEq, List.cons.injEq, Value.string.injEq,
      TimeOfDay.render_injective.eq_iff, and_true] at hpq
    exact Prod.ext hpq.1 (Value.eq_of_ofFloat_eq (hd p hp) (he q hq) hpq.2)
  cases d
  cases e
  simp_all

/-- A schedule without the keys of its inert rules, which its raw value does not hold. -/
def withoutInert (s : CompiledSchedule) : CompiledSchedule := { s with inertRules := [] }

theorem encode_withoutInert (s : CompiledSchedule) : s.withoutInert.encode = s.encode := rfl

@[simp]
theorem finite_encode (s : CompiledSchedule) : s.encode.Finite := by
  simp [encode, Value.finite_ofList finite_encodeDay, Value.finite_ofList Value.finite_ofNat,
    Value.finite_ofOption Value.finite_ofNat]

theorem withoutInert_eq_of_encode_eq {s t : CompiledSchedule} (hs : ∀ d ∈ s.days, d.Finite)
    (ht : ∀ d ∈ t.days, d.Finite) (h : s.encode = t.encode) : s.withoutInert = t.withoutInert := by
  simp only [encode, Value.object.injEq, List.cons.injEq, Prod.mk.injEq, true_and, and_true,
    Value.string.injEq, Handle.encode_injective.eq_iff, Value.ofList_inj Value.ofNat_injective,
    Value.ofOption_inj Value.ofNat_injective Value.ofNat_ne_null] at h
  obtain ⟨hid, hkey, hname, hdays, hweek, hsummer, hwinter⟩ := h
  have hdays := Value.eq_of_ofList_eq
    (fun d hd e he => eq_of_encodeDay_eq (hs d hd) (ht e he)) hdays
  have hweek : s.week = t.week :=
    Week.ext_get fun d => List.map_inj_left.1 hweek d d.mem_all
  cases s
  cases t
  simp_all [withoutInert]

end CompiledSchedule

/-! ### Passed through -/

namespace Document

@[simp]
theorem finite_encodeInt (i : ℤ) : (encodeInt i).Finite := .number trivial

@[simp]
theorem ArchetypeKey.finite_encode (k : ArchetypeKey) : k.encode.Finite := by simp [encode]

theorem ArchetypeKey.encode_injective : Function.Injective ArchetypeKey.encode := fun k l h => by
  cases k
  cases l
  simpa [encode, encodeInt] using h

@[simp]
theorem ConstructionSet.finite_encode (c : ConstructionSet) : c.encode.Finite := by simp [encode]

theorem ConstructionSet.eq_of_encode_eq {c d : ConstructionSet} (hc : c.attributes.Finite)
    (hd : d.attributes.Finite) (h : c.encode = d.encode) : c = d := by
  simp only [encode, Value.object.injEq, List.cons.injEq, Prod.mk.injEq, true_and, and_true,
    Value.string.injEq, ArchetypeKey.encode_injective.eq_iff] at h
  obtain ⟨hname, harchetype, hattributes⟩ := h
  have hattributes := Attributes.eq_of_encode_eq hc hd hattributes
  cases c
  cases d
  simp_all

@[simp]
theorem SpaceType.finite_encode (t : SpaceType) : t.encode.Finite := by simp [encode]

theorem SpaceType.eq_of_encode_eq {t u : SpaceType} (ht : t.attributes.Finite)
    (hu : u.attributes.Finite) (h : t.encode = u.encode) : t = u := by
  simp only [encode, Value.object.injEq, List.cons.injEq, Prod.mk.injEq, true_and, and_true,
    Value.string.injEq, ArchetypeKey.encode_injective.eq_iff] at h
  obtain ⟨hname, hbase, harchetype, hattributes⟩ := h
  have hattributes := Attributes.eq_of_encode_eq ht hu hattributes
  cases t
  cases u
  simp_all

@[simp]
theorem RunInfo.finite_encode (r : RunInfo) : r.encode.Finite := by simp [encode]

theorem RunInfo.eq_of_encode_eq {r q : RunInfo} (hr : r.extra.Finite) (hq : q.extra.Finite)
    (h : r.encode = q.encode) : r = q := by
  simp only [encode, encodeInt, Value.object.injEq, List.cons.injEq, Prod.mk.injEq, true_and,
    and_true, Value.string.injEq, Value.number.injEq, Number.int.injEq] at h
  obtain ⟨huuid, houtput, htemp, hyear, htimestep, hextra⟩ := h
  have hextra := Attributes.eq_of_encode_eq hr hq hextra
  cases r
  cases q
  simp_all

end Document

/-! ### Models -/

namespace Model

/-- A model whose numbers are finite. -/
structure Finite (m : Model) : Prop where
  components : ∀ n ∈ m.components.nodes, n.attributes.Finite
  systems : ∀ s ∈ m.systems, s.Finite
  schedules : ∀ s ∈ m.schedules, ∀ d ∈ s.days, d.Finite
  constructionSets : ∀ c ∈ m.constructionSets, c.attributes.Finite
  spaceTypes : ∀ t ∈ m.spaceTypes, t.attributes.Finite
  geometry : m.building.geometry.Finite
  extra : m.runInfo.extra.Finite

theorem finite_iff (m : Model) : m.Finite ↔
    (∀ n ∈ m.components.nodes, n.attributes.Finite) ∧ (∀ s ∈ m.systems, s.Finite) ∧
      (∀ s ∈ m.schedules, ∀ d ∈ s.days, d.Finite) ∧
      (∀ c ∈ m.constructionSets, c.attributes.Finite) ∧
      (∀ t ∈ m.spaceTypes, t.attributes.Finite) ∧ m.building.geometry.Finite ∧
      m.runInfo.extra.Finite :=
  ⟨fun ⟨hn, hs, hd, hc, ht, hg, he⟩ => ⟨hn, hs, hd, hc, ht, hg, he⟩,
    fun ⟨hn, hs, hd, hc, ht, hg, he⟩ => ⟨hn, hs, hd, hc, ht, hg, he⟩⟩

instance : DecidablePred Model.Finite := fun m => decidable_of_iff _ m.finite_iff.symm

@[simp]
theorem Building.finite_encode (b : Building) : b.encode.Finite := by simp [encode]

theorem Building.eq_of_encode_eq {b c : Building} (hb : b.geometry.Finite) (hc : c.geometry.Finite)
    (h : b.encode = c.encode) : b = c := by
  simp only [encode, Value.object.injEq, List.cons.injEq, Prod.mk.injEq, true_and, and_true,
    Handle.encode_injective.eq_iff] at h
  obtain ⟨hspace, hset, hsystem, hgeometry⟩ := h
  have hgeometry := Attributes.eq_of_encode_eq hb hc hgeometry
  cases b
  cases c
  simp_all

theorem finite_encode (m : Model) : m.encode.Finite := by
  simp [encode, Arena.encode, Value.finite_ofList ComponentNode.finite_encode,
    Value.finite_ofList Skeleton.System.finite_encode,
    Value.finite_ofList CompiledSchedule.finite_encode,
    Value.finite_ofList Document.ConstructionSet.finite_encode,
    Value.finite_ofList Document.SpaceType.finite_encode]

end Model

end HvacModel
