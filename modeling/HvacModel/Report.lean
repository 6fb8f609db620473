/-! # Values with findings

A `Report` is a value together with the findings met on the way to it.  A pass over a document
that must report everything is a report: it never stops at a finding, and a sequence of steps
concatenates the findings of its steps (`findings_bind`).  What a step could not make is an absent
value. -/

namespace HvacModel

/-- A value and the findings met on the way to it. -/
structure Report (ι α : Type) where
  value : α
  findings : List ι

namespace Report

variable {ι α β : Type}

instance : Monad (Report ι) where
  pure a := ⟨a, []⟩
  bind r f := ⟨(f r.value).value, r.findings ++ (f r.value).findings⟩

@[simp]
theorem value_pure (a : α) : (pure a : Report ι α).value = a := rfl

@[simp]
theorem findings_pure (a : α) : (pure a : Report ι α).findings = [] := rfl

@[simp]
theorem value_bind (r : Report ι α) (f : α → Report ι β) :
    (r >>= f).value = (f r.value).value := rfl

@[simp]
theorem findings_bind (r : Report ι α) (f : α → Report ι β) :
    (r >>= f).findings = r.findings ++ (f r.value).findings := rfl

@[ext]
theorem ext {r s : Report ι α} (hv : r.value = s.value) (hf : r.findings = s.findings) : r = s := by
  cases r; cases s; simp_all

instance : LawfulMonad (Report ι) :=
  LawfulMonad.mk' (Report ι)
    (fun r => by ext <;> simp [Functor.map])
    (fun a f => by ext <;> simp)
    (fun r f g => by ext <;> simp [List.append_assoc])

/-- One finding. -/
def tell (finding : ι) : Report ι Unit := ⟨(), [finding]⟩

/-- The values that a step makes of the members of a list, in order, the absent ones left out. -/
def collect (step : α → Report ι (Option β)) : List α → Report ι (List β)
  | [] => pure []
  | a :: rest => do
    let b ← step a
    let bs ← collect step rest
    pure (b.toList ++ bs)

/-- The values that a step makes of the members of a list, in order. -/
def each (step : α → Report ι β) : List α → Report ι (List β)
  | [] => pure []
  | a :: rest => do
    let b ← step a
    let bs ← each step rest
    pure (b :: bs)

/-- A step on a value, if there is one. -/
def whenSome (value : Option α) (step : α → Report ι (Option β)) : Report ι (Option β) :=
  match value with
  | some a => step a
  | none => pure none

end Report

end HvacModel
