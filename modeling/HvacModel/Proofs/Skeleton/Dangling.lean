import HvacModel.Proofs.Component.Extension
import HvacModel.Proofs.Component.Reference
import HvacModel.Proofs.Model.Gating
import HvacModel.Proofs.Schedule.Places
import HvacModel.Proofs.Transcript.Names

/-! # Names that nothing declares

A reference that leads nowhere is reported with its name.  The tables of a document are searched as
they are, so a name that is not found in one is not in it.  Components and days are found in another
way: components in the arena, which refuses a definition as a whole, and days by the first one of a
key, which does not count when it is the day of a rule.  So a definition of the missing name may
stand in the document, but then it is refused with an error of its own (`Arena.exists_refusal`); and
where the days of rules come last among those of the missing key, no other day has that key
(`Document.isInline_of_leads`).

A document that is read from a value whose objects repeat no key refuses no definition, and its
rules hold the last of its days.  There a name that is reported is not declared at all
(`Document.undeclared_of_dangling`). -/

namespace HvacModel

open Document (Component Schedule)

/-! ### Refused definitions -/

/-- A definition that is refused for what it owns, with an error among those given. -/
structure Document.Component.RefusedWith (errors : List ResolveError) (c : Component) : Prop where
  repeats : ∃ owner ∈ c.preorder, ¬(owner.subComponents.map name).Nodup
  reported : ∃ repeated, c.repeatedName? c.name = some repeated ∧ .duplicate repeated ∈ errors

namespace Arena

theorem after_append_cons (front : List Component) (c : Component) (rest : List Component) :
    after (front ++ c :: rest) = (Skeleton.addComponents (after front) (c :: rest)).value :=
  value_addComponents_append .empty front (c :: rest)

/-- A definition whose name is not bound in the end repeats a name, which is reported. -/
theorem exists_refusal {calls : List Component} {c : Component} (hc : c ∈ calls)
    (hfree : (after calls).global? c.name = none) :
    ∃ repeated, c.repeatedName? c.name = some repeated ∧ repeated ∈ refusals calls := by
  obtain ⟨front, rest, rfl⟩ := List.append_of_mem hc
  rw [after_append_cons] at hfree
  -- names stay bound, so the name was free when the definition came
  have hbefore : (after front).names.find? c.name = none := by
    cases hbound : (after front).names.find? c.name with
    | none => rfl
    | some h =>
        rw [global?, (extends_addComponents _ _).names c.name h hbound] at hfree
        cases hfree
  have hcontains : (after front).names.contains c.name = false := by
    rw [NameMap.contains, hbefore]
    rfl
  cases hrepeated : c.repeatedName? c.name with
  | none =>
      have hadd : (after front).add c = .ok ((after front).extend c, ⟨(after front).size⟩) :=
        (add_eq_ok_iff _ _ c _).mpr ⟨hcontains, hrepeated, rfl, rfl⟩
      have hbound : ((after front).extend c).names.find? c.name = some ⟨(after front).size⟩ := by
        rw [extend, NameMap.find?_insert, if_pos rfl]
      rw [Skeleton.addComponents, hadd, global?,
        (extends_addComponents _ rest).names _ _ hbound] at hfree
      cases hfree
  | some repeated =>
      refine ⟨repeated, rfl, List.mem_filterMap.mpr ⟨(front, c), ?_, ?_⟩⟩
      · exact mem_splitsFrom_iff.mpr ⟨front, rest, rfl, rfl⟩
      · rw [refusal?, add, hcontains, hrepeated]
        rfl

end Arena

/-! ### Missing names -/

/-- Among the days of a key, those of rules come last. -/
def Document.Schedule.InlineLast (s : Schedule) (key : String) : Prop :=
  ∀ i j p q, i < j → s.days[i]? = some p → s.days[j]? = some q → p.key = key → q.key = key →
    s.isInline i = true → s.isInline j = true

namespace Document

/-- Nothing is declared under the name at a site: no entry of a table, no component but those that
are refused, and in an ordered schedule no day but those of its rules.  A name with points is a path
through components, which no table declares. -/
def Undeclared (d : Document) (refused : Component → Prop) (ordered : Schedule → Prop)
    (name : String) : ReferenceSite → Prop
  | .availabilitySchedule _ => name ∉ d.schedules.map Schedule.key
  | .airSupply _ | .airBranch _ _ | .plantInlet _ | .plantSupply _ | .plantDemand _ =>
    '.' ∉ name.toList → ∀ c ∈ d.components, c.name = name → refused c
  | .ruleDay schedule rule => ∃ s ∈ d.schedules, s.key = schedule ∧
    (∃ r ∈ s.rules, r.key = rule ∧ r.day = .named name) ∧
    (ordered s → ∀ i p, s.days[i]? = some p → p.key = name → s.isInline i = true)
  | .spaceType => name ∉ d.spaceTypes.map SpaceType.name
  | .constructionSet => name ∉ d.constructionSets.map ConstructionSet.name
  | .hvacSystem => name ∉ d.systems.map System.name

section

variable {d : Document} {refused refused' : Component → Prop} {ordered ordered' : Schedule → Prop}
  {name : String} {site : ReferenceSite}

theorem Undeclared.imp (h : d.Undeclared refused ordered name site)
    (hrefused : ∀ c ∈ d.components, refused c → refused' c)
    (hordered : ∀ s ∈ d.schedules, ordered' s → ordered s) :
    d.Undeclared refused' ordered' name site := by
  cases site with
  | availabilitySchedule | spaceType | constructionSet | hvacSystem => exact h
  | airSupply | airBranch | plantInlet | plantSupply | plantDemand =>
      exact fun hdot c hc hname => hrefused c hc (h hdot c hc hname)
  | ruleDay schedule rule =>
      obtain ⟨s, hs, hkey, hrule, hdays⟩ := h
      exact ⟨s, hs, hkey, hrule, fun hs' => hdays (hordered s hs hs')⟩

/-! ### Sites and scopes -/

/-- The scopes that names are looked up in at a site. -/
def LooksIn (d : Document) (name : String) : ReferenceSite → Scope → Prop
  | .availabilitySchedule _, scope => scope = .schedules
  | .airSupply _, scope | .airBranch _ _, scope | .plantInlet _, scope | .plantSupply _, scope
  | .plantDemand _, scope => scope = .components
  | .ruleDay schedule rule, scope => ∃ s ∈ d.schedules, scope = .days s ∧ s.key = schedule ∧
    ∃ r ∈ s.rules, r.key = rule ∧ r.day = .named name
  | .spaceType, scope => scope = .spaceTypes
  | .constructionSet, scope => scope = .constructionSets
  | .hvacSystem, scope => scope = .systems

theorem looksIn_componentReferences (site : ReferenceSite) (names : List String)
    (h : ∀ name, d.LooksIn name site .components) :
    ∀ r ∈ componentReferences site names, d.LooksIn r.name r.site r.scope := by
  intro r hr
  obtain ⟨name, -, rfl⟩ := List.mem_map.mp hr
  exact h name

theorem looksIn_airLoop (l : AirLoop) : ∀ r ∈ l.references, d.LooksIn r.name r.site r.scope := by
  refine List.forall_mem_append.mpr ⟨?_, fun r hr => ?_⟩
  · exact looksIn_componentReferences (.airSupply l.name) l.supply fun _ => rfl
  · obtain ⟨b, -, hr⟩ := List.mem_flatMap.mp hr
    exact looksIn_componentReferences (.airBranch l.name b.name) b.components (fun _ => rfl) r hr

theorem looksIn_plantLoop (l : PlantLoop) :
    ∀ r ∈ l.references, d.LooksIn r.name r.site r.scope := by
  refine List.forall_mem_append.mpr ⟨List.forall_mem_append.mpr ⟨?_, ?_⟩, ?_⟩
  · exact looksIn_componentReferences (.plantInlet l.name) l.inletNode fun _ => rfl
  · exact looksIn_componentReferences (.plantSupply l.name) l.supplyBranches fun _ => rfl
  · exact looksIn_componentReferences (.plantDemand l.name) l.demandBranches fun _ => rfl

theorem looksIn_system (s : System) : ∀ r ∈ s.references, d.LooksIn r.name r.site r.scope := by
  refine List.forall_mem_append.mpr ⟨List.forall_mem_append.mpr ⟨fun r hr => ?_, fun r hr => ?_⟩,
    fun r hr => ?_⟩
  · obtain ⟨name, -, rfl⟩ := List.mem_map.mp hr
    exact rfl
  · obtain ⟨l, -, hr⟩ := List.mem_flatMap.mp hr
    exact looksIn_airLoop l r hr
  · obtain ⟨l, -, hr⟩ := List.mem_flatMap.mp hr
    exact looksIn_plantLoop l r hr

theorem looksIn_schedule {s : Schedule} (hs : s ∈ d.schedules) :
    ∀ r ∈ s.references, d.LooksIn r.name r.site r.scope := by
  intro r hr
  obtain ⟨rule, hrule, hr⟩ := List.mem_flatMap.mp hr
  unfold Rule.references at hr
  cases hday : rule.day with
  | inline index =>
      rw [hday] at hr
      cases hr
  | named key =>
      rw [hday] at hr
      obtain rfl := List.mem_singleton.mp hr
      exact ⟨s, hs, rfl, rfl, rule, hrule, rfl, hday⟩

theorem looksIn_of_mem (d : Document) :
    ∀ r ∈ d.references, d.LooksIn r.name r.site r.scope := by
  refine List.forall_mem_append.mpr ⟨List.forall_mem_append.mpr ⟨fun r hr => ?_, fun r hr => ?_⟩,
    ?_⟩
  · obtain ⟨s, -, hr⟩ := List.mem_flatMap.mp hr
    exact looksIn_system s r hr
  · obtain ⟨s, hs, hr⟩ := List.mem_flatMap.mp hr
    exact looksIn_schedule hs r hr
  · simp [BuildingInfo.references, LooksIn]

/-! ### Reports -/

/-- A name that is reported as dangling is that of a reference that leads nowhere. -/
theorem exists_reference {errors : List ResolveError} (h : d.resolve = .error errors)
    (hmem : .dangling site name ∈ errors) :
    ∃ scope, d.LooksIn name site scope ∧ d.leads ⟨site, scope, name⟩ = false := by
  obtain ⟨rfl, -⟩ := (d.failsWith_resolve.eq_error_iff errors).mp h
  have hdangling : .dangling site name ∈ d.dangling d.references := by
    simpa [failures, repeatedIn] using hmem
  obtain ⟨r, hr, heq⟩ := List.mem_map.mp hdangling
  obtain ⟨rfl, rfl⟩ := ResolveError.dangling.inj heq
  obtain ⟨hr, hleads⟩ := List.mem_filter.mp hr
  exact ⟨r.scope, d.looksIn_of_mem r hr, by simpa using hleads⟩

theorem refusedWith_of_leads {errors : List ResolveError} (h : d.resolve = .error errors)
    (hleads : d.leads ⟨site, .components, name⟩ = false) (hdot : '.' ∉ name.toList)
    {c : Component} (hc : c ∈ d.components) (hname : c.name = name) : c.RefusedWith errors := by
  obtain ⟨rfl, -⟩ := (d.failsWith_resolve.eq_error_iff errors).mp h
  have hfree : (Arena.after d.components).global? c.name = none := by
    rw [hname, ← Arena.resolve?_of_not_mem _ hdot]
    simpa [leads] using hleads
  obtain ⟨repeated, hrepeated, hrefusal⟩ := Arena.exists_refusal hc hfree
  constructor
  · by_contra hnone
    push Not at hnone
    rw [(Component.repeatedName?_eq_none_iff c.name c).mpr hnone] at hrepeated
    cases hrepeated
  · refine ⟨repeated, hrepeated, ?_⟩
    exact List.mem_append_left _ (List.mem_map.mpr ⟨repeated, hrefusal, rfl⟩)

/-- Where the days of rules come last, a day of a key that leads nowhere is the day of a rule. -/
theorem isInline_of_leads {s : Schedule} (hleads : d.leads ⟨site, .days s, name⟩ = false)
    (hlast : s.InlineLast name) {i : Nat} {p : DayProfile} (hp : s.days[i]? = some p)
    (hkey : p.key = name) : s.isInline i = true := by
  have hnone : s.dayByKey? name = none := by simpa [leads] using hleads
  obtain ⟨j, q, hle, hinline, hq, hsame⟩ := Schedule.exists_inline_of_dayByKey? hnone hp hkey
  obtain rfl | hlt := Nat.eq_or_lt_of_le hle
  · exact hinline
  · exact hlast j i q p hlt hq hp hsame hkey hinline

/-- In a schedule that is read, the days of rules come last among all days. -/
theorem inlineLast_of_read {v : Value} (h : Document.read v = .ok d) {s : Schedule}
    (hs : s ∈ d.schedules) (key : String) : s.InlineLast key := by
  obtain ⟨root, rfl, -⟩ := isReadFrom_of_read h
  obtain ⟨_, -, fields, rfl, hall⟩ := Transcript.schedules_of_read h
  obtain ⟨e, -, fields', -, hfields⟩ := hall.exists_left hs
  intro i j p q hlt _ hq _ _ hinline
  exact isInline_of_le hfields hinline hlt.le (List.getElem?_eq_some_iff.mp hq).1

/-- What a reference that leads nowhere says about the declarations. -/
theorem undeclared_of_looksIn {errors : List ResolveError} (h : d.resolve = .error errors)
    {scope : Scope} (hscope : d.LooksIn name site scope)
    (hleads : d.leads ⟨site, scope, name⟩ = false) :
    d.Undeclared (Component.RefusedWith errors) (Schedule.InlineLast · name) name site := by
  cases site with
  | availabilitySchedule | spaceType | constructionSet | hvacSystem =>
      obtain rfl := hscope
      exact of_decide_eq_false hleads
  | airSupply | airBranch | plantInlet | plantSupply | plantDemand =>
      obtain rfl := hscope
      exact fun hdot c hc hname => refusedWith_of_leads h hleads hdot hc hname
  | ruleDay schedule rule =>
      obtain ⟨s, hs, rfl, hkey, hrule⟩ := hscope
      exact ⟨s, hs, hkey, hrule, fun hlast i p hp hname => isInline_of_leads hleads hlast hp hname⟩

end

/-- A name that is reported as dangling is not declared, or all that declares it is refused with an
error; in the days of a schedule it is not declared where those of rules come last.  In a document
that is read it is not declared. -/
theorem undeclared_of_dangling (d : Document) (errors : List ResolveError)
    (h : d.resolve = .error errors) (site : ReferenceSite) (name : String)
    (hmem : .dangling site name ∈ errors) :
    d.Undeclared (Component.RefusedWith errors) (Schedule.InlineLast · name) name site ∧
      ∀ v : Value, v.distinctKeys = true → Document.read v = .ok d →
        d.Undeclared (fun _ => False) (fun _ => True) name site := by
  obtain ⟨scope, hscope, hleads⟩ := exists_reference h hmem
  have hmissing := undeclared_of_looksIn h hscope hleads
  refine ⟨hmissing, fun v hv hread => hmissing.imp (fun c hc hrefused => ?_) fun s hs _ => ?_⟩
  · obtain ⟨owner, howner, hrepeats⟩ := hrefused.repeats
    exact hrepeats (nodup_subComponents_of_read hv hread c hc owner howner)
  · exact inlineLast_of_read hread hs name

end Document

/-! ### A refused definition -/

/-- A clinic in typed form, whose box owns two coils of one name. -/
def crowdedClinic : Document :=
  { Document.passiveOffice "vav" with
    systems := [⟨"vav", [⟨"air", ["fan"], [⟨"ward", ["box"]⟩]⟩], [], none, .empty⟩]
    components :=
      [.mk "fan" .variableVolumeFan .empty [],
        .mk "box" .reheatTerminal .empty
          [.mk "coil" .waterHeatingCoil .empty [], .mk "coil" .waterHeatingCoil .empty []]] }

/-- The box is declared, but it is refused: its name is reported as dangling. -/
theorem dangling_crowdedClinic :
    crowdedClinic.resolve = .error
      [.duplicate ⟨"sub_components of 'box'", "coil"⟩, .dangling (.airBranch "air" "ward") "box"] ∧
    ¬crowdedClinic.Undeclared (fun _ => False) (fun _ => True) "box" (.airBranch "air" "ward") := by
  refine ⟨rfl, fun h => ?_⟩
  exact h (by decide) _ (List.mem_cons_of_mem _ List.mem_cons_self) rfl

/-! ### A name that only the day of a rule has -/

def closedHours : Value :=
  .object
    [("default_day", Grammar.constantDay 0),
      ("schedule_rules", .object
        [("hot", .object
            [("apply_monday", .bool true), ("day_schedule", Grammar.constantDay 1)]),
          ("late", .object
            [("apply_tuesday", .bool true), ("day_schedule", .string "hot.day_schedule")])])]

/-- A clinic without loops; a rule of its schedule names the day that another rule holds. -/
def closedClinic : Value := Grammar.passiveBuilding "Clinic" [("hours", closedHours)] [] []

theorem undeclared_closedClinic :
    ∃ d, Document.read closedClinic = .ok d ∧
      d.resolve = .error [.dangling (.ruleDay "hours" "late") "hot.day_schedule"] ∧
      d.Undeclared (fun _ => False) (fun _ => True) "hot.day_schedule"
        (.ruleDay "hours" "late") := by
  obtain ⟨d, hd⟩ : ∃ d, Document.read closedClinic = .ok d := ⟨_, rfl⟩
  have hr : d.resolve = .error [.dangling (.ruleDay "hours" "late") "hot.day_schedule"] := by
    cases hd
    rfl
  obtain ⟨-, hread⟩ := Document.undeclared_of_dangling d _ hr (.ruleDay "hours" "late")
    "hot.day_schedule" List.mem_cons_self
  exact ⟨d, hd, hr, hread closedClinic (by decide) hd⟩

end HvacModel
