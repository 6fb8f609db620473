import HvacModel.Proofs.Component.Representation

/-! # References into an arena

A reference is followed from left to right, and its last point divides it into a reference and the
name of one component (`resolve?_append`), so what holds of references is shown along their last
segments.  A name is looked up among what a component owns and, where it owns none of that name,
among the components that nobody owns (`Built.inScope?_eq_some_iff`).

In an arena of names without points (`resolve?_after`) every component is found under its path, and
paths are different; what a reference leads to bears its last segment, and is owned by what the rest
of the reference leads to or by nobody. -/

namespace HvacModel

open Document (Component)
open Document.Component

/-- No name in a definition has a point. -/
def Document.Component.DotFree (c : Component) : Prop := ∀ d ∈ c.preorder, '.' ∉ d.name.toList

namespace Arena

/-- The text of a reference after its last point. -/
def lastSegment (reference : String) : String :=
  String.ofList (reference.toList.reverse.takeWhile (· ≠ '.')).reverse

/-- The text of a reference before its last point, if it has one. -/
def ownerPart? (reference : String) : Option String :=
  match reference.toList.reverse.dropWhile (· ≠ '.') with
  | [] => none
  | _ :: before => some (String.ofList before.reverse)

/-! ### Segments -/

theorem not_mem_lastSegment (r : String) : '.' ∉ (lastSegment r).toList := by
  rw [lastSegment, String.toList_ofList, List.mem_reverse]
  intro h
  simpa using List.all_eq_true.mp List.all_takeWhile '.' h

/-- A reference is its last segment, or that stands after a point. -/
theorem eq_lastSegment_or (r : String) : (ownerPart? r = none ∧ lastSegment r = r) ∨
    ∃ p, ownerPart? r = some p ∧ r = p ++ "." ++ lastSegment r := by
  have hsplit := List.takeWhile_append_dropWhile (p := (· ≠ '.')) (l := r.toList.reverse)
  cases hdrop : r.toList.reverse.dropWhile (· ≠ '.') with
  | nil =>
      rw [hdrop, List.append_nil] at hsplit
      refine .inl ⟨by rw [ownerPart?, hdrop], ?_⟩
      rw [lastSegment, hsplit, List.reverse_reverse, String.ofList_toList]
  | cons c before =>
      have hpoint : c = '.' := by
        have := List.head?_dropWhile_not (· ≠ '.') r.toList.reverse
        rw [hdrop] at this
        simpa using this
      refine .inr ⟨String.ofList before.reverse, by rw [ownerPart?, hdrop], ?_⟩
      rw [hdrop, hpoint] at hsplit
      apply String.toList_inj.mp
      simp only [String.toList_append, lastSegment, String.toList_ofList, List.append_assoc]
      have hr := congrArg List.reverse hsplit
      rw [List.reverse_reverse, List.reverse_append, List.reverse_cons, List.append_assoc] at hr
      exact hr.symm

theorem segments_ne_nil (cs : List Char) : segments cs ≠ [] := by
  cases cs with
  | nil => simp [segments]
  | cons c rest =>
      rw [segments]
      split
      · exact List.cons_ne_nil _ _
      · split <;> exact List.cons_ne_nil _ _

theorem segments_of_not_mem {cs : List Char} (h : '.' ∉ cs) : segments cs = [cs] := by
  induction cs with
  | nil => rfl
  | cons c rest ih =>
      obtain ⟨hc, hrest⟩ := not_or.mp (mt List.mem_cons.mpr h)
      rw [segments, if_neg (Ne.symm hc), ih hrest]

theorem segments_append (before : List Char) {last : List Char} (h : '.' ∉ last) :
    segments (before ++ '.' :: last) = segments before ++ [last] := by
  induction before with
  | nil =>
      have hpoint : segments ('.' :: last) = [] :: segments last := by rw [segments, if_pos rfl]
      rw [List.nil_append, hpoint, segments_of_not_mem h]
      rfl
  | cons c rest ih =>
      rw [List.cons_append, segments, segments, ih]
      by_cases hc : c = '.'
      · rw [if_pos hc, if_pos hc]
        rfl
      · rw [if_neg hc, if_neg hc]
        cases hrest : segments rest with
        | nil => exact absurd hrest (segments_ne_nil rest)
        | cons first more => rfl

/-- A reference without points is a name that nobody owns. -/
theorem resolve?_of_not_mem (a : Arena) {r : String} (h : '.' ∉ r.toList) :
    a.resolve? r = a.global? r := by
  rw [resolve?, segments_of_not_mem h, List.map_cons, String.ofList_toList]
  rfl

/-- The last segment of a reference is looked up from what the rest leads to. -/
theorem resolve?_append (a : Arena) (p : String) {name : String} (h : '.' ∉ name.toList) :
    a.resolve? (p ++ "." ++ name) = (a.resolve? p).bind fun id => a.inScope? id name := by
  have hsegments : segments (p ++ "." ++ name).toList = segments p.toList ++ [name.toList] := by
    rw [String.toList_append, String.toList_append, List.append_assoc]
    exact segments_append _ h
  rw [resolve?, resolve?, hsegments, List.map_append]
  cases hp : segments p.toList with
  | nil => exact absurd hp (segments_ne_nil _)
  | cons first more =>
      rw [List.map_cons, List.cons_append]
      dsimp only
      rw [List.foldl_append, List.map_cons, String.ofList_toList]
      rfl

/-! ### Lookups -/

variable {a : Arena} {tops : List Component}

/-- A component sees what it owns and, where it owns none of the name, what nobody owns. -/
theorem Built.inScope?_eq_some_iff (h : a.Built tops) (o : Handle .component) (key : String)
    (id : Handle .component) :
    a.inScope? o key = some id ↔
      (∃ n, a.node? id = some n ∧ n.owner = some o ∧ n.name = key) ∨
        ((∀ m ∈ a.nodes, m.owner = some o → m.name ≠ key) ∧ a.global? key = some id) := by
  have hscope : ∀ sub, (a.slots[o.index]?.bind fun slot => slot.scope.find? key) = some sub ↔
      ∃ n, a.node? sub = some n ∧ n.owner = some o ∧ n.name = key := by
    intro sub
    cases hslot : a.slots[o.index]? with
    | none =>
        refine ⟨nofun, ?_⟩
        rintro ⟨n, hn, ho, -⟩
        obtain ⟨-, -, -, ⟨hnone, -⟩ | ⟨o', m, ho', -, hm, -⟩⟩ := h.node_eq hn
        · rw [hnone] at ho
          cases ho
        · rw [ho, Option.some.injEq] at ho'
          subst ho'
          rw [node?, hslot] at hm
          cases hm
    | some slot =>
        have hn : a.node? o = some slot.node := by rw [node?, hslot]; rfl
        have hs : a.scopes[o.index]? = some slot.scope := by
          rw [scopes, List.getElem?_map, hslot]
          rfl
        rw [Option.bind_some, h.scope_iff hn hs, h.mem_subComponents_iff hn]
        constructor
        · rintro ⟨⟨n, hn, ho⟩, m, hm, hname⟩
          rw [hn, Option.some.injEq] at hm
          exact ⟨n, hn, ho, hm ▸ hname⟩
        · rintro ⟨n, hn, ho, hname⟩
          exact ⟨⟨n, hn, ho⟩, n, hn, hname⟩
  rw [inScope?, Option.or_eq_some_iff, hscope, Option.eq_none_iff_forall_ne_some]
  refine or_congr_right (and_congr_left fun _ => ?_)
  constructor
  · intro hnone m hm ho hname
    obtain ⟨sub, hm⟩ := (mem_nodes_iff m).mp hm
    exact hnone sub ((hscope sub).mpr ⟨m, hm, ho, hname⟩)
  · intro hall sub hsub
    obtain ⟨n, hn, ho, hname⟩ := (hscope sub).mp hsub
    exact hall n ((mem_nodes_iff n).mpr ⟨sub, hn⟩) ho hname

/-- What a reference leads to bears its last segment, and its owner is what the rest leads to. -/
theorem Built.node_of_resolve? (h : a.Built tops) {r : String} {id : Handle .component}
    (hr : a.resolve? r = some id) : ∃ n, a.node? id = some n ∧ n.name = lastSegment r ∧
      ∀ o, n.owner = some o → ∃ p, ownerPart? r = some p ∧ a.resolve? p = some o := by
  have hdot := not_mem_lastSegment r
  rcases eq_lastSegment_or r with ⟨-, hlast⟩ | ⟨p, hp, heq⟩
  · rw [hlast] at hdot ⊢
    rw [resolve?_of_not_mem a hdot, global?, h.names_iff] at hr
    obtain ⟨n, hn, hnone, hname⟩ := hr
    refine ⟨n, hn, hname, fun o ho => ?_⟩
    rw [hnone] at ho
    cases ho
  · rw [heq, resolve?_append a p hdot, Option.bind_eq_some_iff] at hr
    obtain ⟨o, ho, hid⟩ := hr
    rcases (h.inScope?_eq_some_iff o _ id).mp hid with ⟨n, hn, howner, hname⟩ | ⟨-, hglobal⟩
    · refine ⟨n, hn, hname, fun o' ho' => ⟨p, hp, ?_⟩⟩
      rw [howner, Option.some.injEq] at ho'
      rw [ho, ho']
    · obtain ⟨n, hn, hnone, hname⟩ := (h.names_iff _ _).mp hglobal
      refine ⟨n, hn, hname, fun o' ho' => ?_⟩
      rw [hnone] at ho'
      cases ho'

/-- Where the last segment names nothing that is owned, it is a name that nobody owns. -/
theorem Built.resolve?_of_not_owned (h : a.Built tops) (r : String)
    (hnone : ∀ p o, ownerPart? r = some p → a.resolve? p = some o →
      ∀ m ∈ a.nodes, m.owner = some o → m.name ≠ lastSegment r) :
    a.resolve? r = match ownerPart? r with
      | none => a.global? (lastSegment r)
      | some p => (a.resolve? p).bind fun _ => a.global? (lastSegment r) := by
  have hdot := not_mem_lastSegment r
  rcases eq_lastSegment_or r with ⟨hp, hlast⟩ | ⟨p, hp, heq⟩
  · rw [hp]
    rw [hlast] at hdot ⊢
    exact resolve?_of_not_mem a hdot
  · have hr : a.resolve? r = (a.resolve? p).bind fun id => a.inScope? id (lastSegment r) := by
      rw [← resolve?_append a p hdot, ← heq]
    rw [hr, hp]
    dsimp only
    cases ho : a.resolve? p with
    | none => rfl
    | some o =>
        apply Option.ext
        intro id
        rw [Option.bind_some, Option.bind_some, h.inScope?_eq_some_iff]
        constructor
        · rintro (⟨n, hn, howner, hname⟩ | ⟨-, hglobal⟩)
          · exact absurd hname (hnone p o hp ho n ((mem_nodes_iff n).mpr ⟨id, hn⟩) howner)
          · exact hglobal
        · exact fun hglobal => .inr ⟨hnone p o hp ho, hglobal⟩

/-! ### Paths -/

/-- Where no name has a point, a component is found under its path. -/
theorem Built.resolve?_path (h : a.Built tops) (hdot : ∀ n ∈ a.nodes, '.' ∉ n.name.toList)
    {id : Handle .component} {n : ComponentNode} (hn : a.node? id = some n) :
    a.resolve? n.path = some id := by
  -- an owner stands before what it owns
  induction hi : id.index using Nat.strongRecOn generalizing id n with
  | ind i ih =>
      have hname := hdot n ((mem_nodes_iff n).mpr ⟨id, hn⟩)
      obtain ⟨-, -, -, ⟨-, hpath, hbound⟩ | ⟨o, m, howner, hlt, hm, hpath, -⟩⟩ := h.node_eq hn
      · rw [hpath, resolve?_of_not_mem a hname]
        exact hbound
      · rw [hpath, resolve?_append a _ hname, ih o.index (hi ▸ hlt) hm rfl, Option.bind_some]
        exact (h.inScope?_eq_some_iff o _ id).mpr (.inl ⟨n, hn, howner, rfl⟩)

theorem mem_of_mem_accepted {a : Arena} {calls : List Component} {c : Component}
    (h : c ∈ a.accepted calls) : c ∈ calls := by
  induction calls generalizing a with
  | nil => exact h
  | cons d rest ih =>
      rw [accepted] at h
      split at h
      · rcases List.mem_cons.mp h with rfl | h
        · exact List.mem_cons_self
        · exact List.mem_cons_of_mem _ (ih h)
      · exact List.mem_cons_of_mem _ (ih h)

theorem exists_mem_of_mem_preorderList {cs : List Component} {d : Component}
    (h : d ∈ preorderList cs) : ∃ c ∈ cs, d ∈ c.preorder := by
  induction cs with
  | nil => cases h
  | cons c rest ih =>
      rw [preorderList, List.mem_append] at h
      rcases h with h | h
      · exact ⟨c, List.mem_cons_self, h⟩
      · obtain ⟨e, he, hd⟩ := ih h
        exact ⟨e, List.mem_cons_of_mem _ he, hd⟩

/-- Definitions without points make an arena without points. -/
theorem not_mem_name_of_dotFree {calls : List Component} (h : ∀ c ∈ calls, c.DotFree) :
    ∀ n ∈ (after calls).nodes, '.' ∉ n.name.toList := by
  intro n hn
  obtain ⟨id, hn⟩ := (mem_nodes_iff n).mp hn
  obtain ⟨d, hd, heq, -⟩ := (built_after calls).node_eq hn
  obtain ⟨c, hc, hmem⟩ := exists_mem_of_mem_preorderList
    (List.mem_of_getElem? (stands_iff.mp hd).2.1)
  rw [heq]
  exact h c (mem_of_mem_accepted hc) d hmem

/-- References are exact in every arena that is made of names without points. -/
theorem resolve?_after (calls : List Component) (h : ∀ c ∈ calls, c.DotFree) :
    (∀ n ∈ (after calls).nodes, (after calls).resolve? n.path = some n.id) ∧
    (∀ n ∈ (after calls).nodes, ∀ m ∈ (after calls).nodes, n.path = m.path → n = m) ∧
    (∀ r id, (after calls).resolve? r = some id →
      ∃ n, (after calls).node? id = some n ∧ n.name = lastSegment r ∧
        ∀ o, n.owner = some o → ∃ p, ownerPart? r = some p ∧ (after calls).resolve? p = some o) ∧
    ∀ r, (∀ p o, ownerPart? r = some p → (after calls).resolve? p = some o →
        ∀ m ∈ (after calls).nodes, m.owner = some o → m.name ≠ lastSegment r) →
      (after calls).resolve? r = match ownerPart? r with
        | none => (after calls).global? (lastSegment r)
        | some p => ((after calls).resolve? p).bind fun _ =>
            (after calls).global? (lastSegment r) := by
  have hbuilt := built_after calls
  have hpath : ∀ n id, (after calls).node? id = some n →
      (after calls).resolve? n.path = some id :=
    fun n id hn => hbuilt.resolve?_path (not_mem_name_of_dotFree h) hn
  refine ⟨fun n hn => ?_, fun n hn m hm heq => ?_, fun r id => hbuilt.node_of_resolve?,
    hbuilt.resolve?_of_not_owned⟩
  · obtain ⟨id, hn⟩ := (mem_nodes_iff n).mp hn
    rw [hpath n id hn, hbuilt.id_of_node? hn]
  · obtain ⟨i, hn⟩ := (mem_nodes_iff n).mp hn
    obtain ⟨j, hm⟩ := (mem_nodes_iff m).mp hm
    have hij : some i = some j := by rw [← hpath n i hn, ← hpath m j hm, heq]
    rw [Option.some.injEq] at hij
    rw [hij, hm, Option.some.injEq] at hn
    exact hn.symm

/-- Two terminals that own a coil of one name each, a third one whose name is taken, and a coil of
the same name that nobody owns. -/
def terminals : List Component :=
  [.mk "north" .reheatTerminal .empty [.mk "coil" .waterHeatingCoil .empty []],
    .mk "south" .reheatTerminal .empty [.mk "coil" .waterHeatingCoil .empty []],
    .mk "south" .reheatTerminal .empty [], .mk "coil" .waterCoolingCoil .empty []]

theorem resolve?_terminals :
    (∀ c ∈ terminals, c.DotFree) ∧
    (after terminals).nodes.map ComponentNode.path =
      ["north", "north.coil", "south", "south.coil", "coil"] ∧
    (∀ n ∈ (after terminals).nodes, (after terminals).resolve? n.path = some n.id) ∧
    ∃ n, (after terminals).node? ⟨3⟩ = some n ∧ n.name = lastSegment "south.coil" ∧
      ∀ o, n.owner = some o → ∃ p, ownerPart? "south.coil" = some p ∧
        (after terminals).resolve? p = some o := by
  have hdot : ∀ c ∈ terminals, c.DotFree := by
    simp [terminals, DotFree, preorder, preorderList, Component.name]
  obtain ⟨hpath, -, hnode, -⟩ := resolve?_after terminals hdot
  exact ⟨hdot, rfl, hpath, hnode "south.coil" ⟨3⟩ rfl⟩

end Arena

end HvacModel
