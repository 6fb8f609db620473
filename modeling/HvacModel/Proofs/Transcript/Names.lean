import HvacModel.Proofs.Component.Subtree
import HvacModel.Proofs.Keys
import HvacModel.Proofs.Related
import HvacModel.Proofs.Transcript.Document

/-! # Names in a document that is read

What is read from a table goes by the keys of the table, so no name is repeated where no key is: the
measures of a document are of different categories (`Document.nodup_categories_of_read`), and the
components of each owner have different names, at every depth
(`Document.nodup_subComponents_of_read`). -/

namespace HvacModel

open Transcript Grammar
open Document (Component)
open Document.Component

namespace Transcript

variable {α : Type}

/-- The members of a table have different names when each has the key of its entry. -/
theorem TableOf.nodup_map {R : String → Value → α → Prop} {value : Value} {list : List α}
    (h : TableOf R value list) (hv : value.distinctKeys = true) {name : α → String}
    (hname : ∀ key v a, R key v a → name a = key) : (list.map name).Nodup := by
  obtain ⟨fields, rfl, hfields⟩ := h
  obtain ⟨hkeys, -⟩ := (Value.distinctKeys_object fields).mp hv
  have hsame : fields.map Prod.fst = list.map name :=
    hfields.map_eq fun e a hr => (hname e.1 e.2 a hr).symm
  rwa [← hsame]

theorem ComponentOf.name_eq {key : String} {value : Value} {c : Component}
    (h : ComponentOf key value c) : c.name = key := by
  cases h <;> rfl

mutual

/-- No owner in a component that is read has two components of one name. -/
theorem ComponentOf.nodup_subComponents {key : String} {value : Value} (c : Component)
    (h : ComponentOf key value c) (hv : value.distinctKeys = true) :
    ∀ d ∈ c.preorder, (d.subComponents.map Component.name).Nodup := by
  match c with
  | .mk name type attributes subs =>
      rw [preorder, List.forall_mem_cons]
      cases h with
      | leaf =>
          refine ⟨List.nodup_nil, ?_⟩
          rw [preorderList]
          exact List.forall_mem_nil _
      | owner _ howned hsubs =>
          have hdistinct := Value.distinctKeys_of_field? hv howned
          obtain ⟨-, hall⟩ := (Value.distinctKeys_object _).mp hdistinct
          exact ⟨TableOf.nodup_map ⟨_, rfl, hsubs⟩ hdistinct fun _ _ _ => ComponentOf.name_eq,
            forall₂_nodup_subComponents subs hsubs hall⟩

theorem forall₂_nodup_subComponents {owned : Fields} (subs : List Component)
    (h : List.Forall₂ (fun e c => ComponentOf e.1 e.2 c) owned subs)
    (hv : ∀ e ∈ owned, e.2.distinctKeys = true) :
    ∀ d ∈ preorderList subs, (d.subComponents.map Component.name).Nodup := by
  match subs with
  | [] =>
      rw [preorderList]
      exact List.forall_mem_nil _
  | c :: rest =>
      cases h with
      | cons hc hrest =>
          obtain ⟨hfirst, hmore⟩ := List.forall_mem_cons.mp hv
          rw [preorderList, List.forall_mem_append]
          exact ⟨hc.nodup_subComponents c hfirst, forall₂_nodup_subComponents rest hrest hmore⟩

end

end Transcript

namespace Document

variable {v : Value} {d : Document}

theorem nodup_categories_of_read (hv : v.distinctKeys = true) (h : Document.read v = .ok d) :
    (d.measures.map Measure.category).Nodup := by
  obtain ⟨root, rfl, -⟩ := isReadFrom_of_read h
  have hmeasures := measures_of_read h
  unfold FieldOr at hmeasures
  cases hf : Value.field? root "measures" with
  | none =>
      rw [hf] at hmeasures
      rw [hmeasures]
      exact List.nodup_nil
  | some value =>
      rw [hf] at hmeasures
      have hnames : (d.measures.map fun m => m.category.name).Nodup :=
        TableOf.nodup_map hmeasures (Value.distinctKeys_of_field? hv hf)
          fun key v m ⟨_, _, hm⟩ => hm.category
      exact List.Nodup.of_map MeasureCategory.name (by rwa [List.map_map])

theorem nodup_subComponents_of_read (hv : v.distinctKeys = true) (h : Document.read v = .ok d) :
    ∀ c ∈ d.components, ∀ e ∈ c.preorder, (e.subComponents.map Component.name).Nodup := by
  obtain ⟨root, rfl, -⟩ := isReadFrom_of_read h
  obtain ⟨value, hf, fields, rfl, hentries⟩ := components_of_read h
  obtain ⟨-, hall⟩ := (Value.distinctKeys_object fields).mp (Value.distinctKeys_of_field? hv hf)
  intro c hc
  obtain ⟨e, he, hof⟩ := hentries.exists_left hc
  exact hof.nodup_subComponents c (hall e he)

end Document

end HvacModel
