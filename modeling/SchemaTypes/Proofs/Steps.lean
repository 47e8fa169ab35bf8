import Mathlib.Data.List.Forall2
import SchemaTypes.Generator
import SchemaTypes.Proofs.Rebuild

/-! How steps that keep a state, may fail and give notices can end. -/
namespace SchemaTypes

variable {ε σ α β γ : Type}

/-- Steps that may fail, over a state and with notices. -/
abbrev Steps (ε σ : Type) := ExceptT ε (StateT σ Noted)

namespace Steps

/-- The result of the steps from a state, the state they leave, and the notices on the way. -/
def outcome (steps : Steps ε σ α) (state : σ) : Noted (Except ε α × σ) := steps.run.run state

@[simp] theorem outcome_pure (a : α) (state : σ) :
    outcome (pure a : Steps ε σ α) state = ⟨(.ok a, state), []⟩ := rfl

@[simp] theorem outcome_throw (e : ε) (state : σ) :
    outcome (throw e : Steps ε σ α) state = ⟨(.error e, state), []⟩ := rfl

theorem outcome_bind (steps : Steps ε σ α) (next : α → Steps ε σ β) (state : σ) :
    outcome (steps >>= next) state = outcome steps state >>= fun run => match run with
      | (.ok a, after) => outcome (next a) after
      | (.error e, after) => pure (.error e, after) := by
  simp only [outcome, ExceptT.run_bind, StateT.run_bind]
  refine bind_congr fun run => ?_
  obtain ⟨_ | _, _⟩ := run <;> rfl

theorem value_outcome_bind (steps : Steps ε σ α) (next : α → Steps ε σ β) (state : σ) :
    (outcome (steps >>= next) state).value = match (outcome steps state).value with
      | (.ok a, state) => (outcome (next a) state).value
      | (.error e, state) => (.error e, state) := by
  simp only [outcome, ExceptT.run_bind, StateT.run_bind, Noted.value_bind]
  rcases (steps.run.run state).value with ⟨_ | _, _⟩ <;> rfl

theorem notices_outcome_bind (steps : Steps ε σ α) (next : α → Steps ε σ β) (state : σ) :
    (outcome (steps >>= next) state).notices
      = (outcome steps state).notices ++ match (outcome steps state).value with
        | (.ok a, state) => (outcome (next a) state).notices
        | (.error _, _) => [] := by
  simp only [outcome, ExceptT.run_bind, StateT.run_bind, Noted.notices_bind]
  rcases (steps.run.run state).value with ⟨_ | _, _⟩ <;> rfl

@[simp] theorem value_outcome_lift (x : Noted α) (state : σ) :
    (outcome (liftM x : Steps ε σ α) state).value = (.ok x.value, state) := rfl

@[simp] theorem notices_outcome_lift (x : Noted α) (state : σ) :
    (outcome (liftM x : Steps ε σ α) state).notices = x.notices := by
  show (x.notices ++ []) ++ [] = x.notices
  simp

theorem outcome_lift (x : Noted α) (state : σ) :
    outcome (liftM x : Steps ε σ α) state = (fun a => (.ok a, state)) <$> x :=
  congrArg₂ Noted.mk (value_outcome_lift x state)
    ((notices_outcome_lift x state).trans (Noted.notices_map _ x).symm)

/-- The steps without their notices. -/
def quiet (steps : Steps ε σ α) : ExceptT ε (StateM σ) α :=
  ExceptT.mk fun state => (outcome steps state).value

theorem outcome_eq_of_quiet_eq {steps other : Steps ε σ α} (h : quiet steps = quiet other)
    (state : σ) : (outcome steps state).value = (outcome other state).value := congrFun h state

@[simp] theorem quiet_pure (a : α) : quiet (pure a : Steps ε σ α) = pure a := rfl

@[simp] theorem quiet_lift (x : Noted α) : quiet (liftM x : Steps ε σ α) = pure x.value := rfl

@[simp] theorem quiet_bind (steps : Steps ε σ α) (next : α → Steps ε σ β) :
    quiet (steps >>= next) = quiet steps >>= fun a => quiet (next a) := by
  funext state
  refine (value_outcome_bind steps next state).trans ?_
  show _ = match (outcome steps state).value with
    | (result, state) =>
      (ExceptT.bindCont (fun a => quiet (next a)) result : StateM σ (Except ε β)) state
  rcases (outcome steps state).value with ⟨_ | _, _⟩ <;> rfl

@[simp] theorem quiet_map (f : α → β) (steps : Steps ε σ α) :
    quiet (f <$> steps) = f <$> quiet steps := by
  rw [← bind_pure_comp, ← bind_pure_comp, quiet_bind]
  rfl

@[simp] theorem quiet_mapM (f : α → Steps ε σ β) (as : List α) :
    quiet (as.mapM f) = as.mapM fun a => quiet (f a) := by
  induction as with
  | nil => rfl
  | cons a rest ih => simp [ih]

@[simp] theorem quiet_mapChildrenM (f : α → Steps ε σ β) (schema : Keywords α) :
    quiet (schema.mapChildrenM f) = schema.mapChildrenM fun child => quiet (f child) := by
  rw [Keywords.mapChildrenM_eq, Keywords.mapChildrenM_eq, quiet_map, quiet_mapM]

end Steps

/-- However the steps end, a value is good, a failure is bad, and every notice is one of those that
may be said. -/
def Ensures (steps : Steps ε σ α) (good : α → Prop) (bad : ε → Prop) (said : Notice → Prop) : Prop :=
  ∀ state, (∀ notice ∈ (steps.outcome state).notices, said notice) ∧
    match (steps.outcome state).value.1 with
    | .ok a => good a
    | .error e => bad e

theorem forall_mem_of_forall₂ {R : α → β → Prop} {p : β → Prop} {as : List α} {bs : List β}
    (h : List.Forall₂ R as bs) (hp : ∀ a b, R a b → p b) : ∀ b ∈ bs, p b := by
  induction h with
  | nil => simp
  | cons head _ ih => simpa using ⟨hp _ _ head, ih⟩

theorem map_eq_map_of_forall₂ {R : α → β → Prop} {f : α → γ} {g : β → γ} {as : List α}
    {bs : List β} (h : List.Forall₂ R as bs) (hR : ∀ a b, R a b → g b = f a) :
    bs.map g = as.map f := by
  induction h with
  | nil => rfl
  | cons head _ ih => rw [List.map_cons, List.map_cons, hR _ _ head, ih]

namespace Ensures

variable {good : α → Prop} {bad : ε → Prop} {said : Notice → Prop}

theorem of_ok {steps : Steps ε σ α} (h : Ensures steps good bad said) {state : σ} {a : α}
    (ha : (steps.outcome state).value.1 = .ok a) : good a := by
  have value := (h state).2
  rwa [ha] at value

theorem of_error {steps : Steps ε σ α} (h : Ensures steps good bad said) {state : σ} {e : ε}
    (he : (steps.outcome state).value.1 = .error e) : bad e := by
  have value := (h state).2
  rwa [he] at value

theorem trivial (steps : Steps ε σ α) :
    Ensures steps (fun _ => True) (fun _ => True) (fun _ => True) := by
  intro state
  refine ⟨fun _ _ => True.intro, ?_⟩
  rcases (steps.outcome state).value.1 with _ | _ <;> exact True.intro

theorem pure {a : α} (h : good a) : Ensures (Pure.pure a : Steps ε σ α) good bad said :=
  fun _ => ⟨by simp, h⟩

theorem lift {x : Noted α} (h : good x.value) (hn : ∀ notice ∈ x.notices, said notice) :
    Ensures (liftM x : Steps ε σ α) good bad said :=
  fun _ => ⟨by simpa using hn, by simpa using h⟩

theorem bind {steps : Steps ε σ α} {next : α → Steps ε σ β} {better : β → Prop}
    (h : Ensures steps good bad said) (hn : ∀ a, good a → Ensures (next a) better bad said) :
    Ensures (steps >>= next) better bad said := by
  intro state
  obtain ⟨notices, value⟩ := h state
  rw [Steps.value_outcome_bind, Steps.notices_outcome_bind]
  rcases hv : (steps.outcome state).value with ⟨e | a, state'⟩ <;> rw [hv] at value
  · exact ⟨by simpa using notices, value⟩
  · obtain ⟨notices', value'⟩ := hn a value state'
    refine ⟨fun notice hm => ?_, value'⟩
    rcases List.mem_append.1 hm with hm | hm
    · exact notices notice hm
    · exact notices' notice hm

/-- What follows the steps only counts for the values that they can end with. -/
theorem quiet_bind_congr {steps : Steps ε σ α} {next other : α → Steps ε σ β}
    (h : Ensures steps good bad said) (hn : ∀ a, good a → (next a).quiet = (other a).quiet) :
    (steps >>= next).quiet = (steps >>= other).quiet := by
  funext state
  have hs := (h state).2
  show ((steps >>= next).outcome state).value = ((steps >>= other).outcome state).value
  rw [Steps.value_outcome_bind, Steps.value_outcome_bind]
  rcases hv : (steps.outcome state).value with ⟨e | a, after⟩
  · rfl
  · rw [hv] at hs
    exact Steps.outcome_eq_of_quiet_eq (hn a hs) after

theorem map {steps : Steps ε σ α} {f : α → β} {better : β → Prop}
    (h : Ensures steps good bad said) (hf : ∀ a, good a → better (f a)) :
    Ensures (f <$> steps) better bad said := by
  rw [← bind_pure_comp]
  exact h.bind fun a ha => .pure (hf a ha)

theorem weaken {steps : Steps ε σ α} {fine : α → Prop} {poor : ε → Prop}
    (h : Ensures steps good bad said) (hg : ∀ a, good a → fine a) (hb : ∀ e, bad e → poor e) :
    Ensures steps fine poor said := by
  intro state
  obtain ⟨notices, value⟩ := h state
  refine ⟨notices, ?_⟩
  rcases hv : (steps.outcome state).value with ⟨e | a, _⟩ <;> rw [hv] at value
  · exact hb e value
  · exact hg a value

theorem mapM {f : α → Steps ε σ β} {better : α → β → Prop} {as : List α}
    (h : ∀ a ∈ as, Ensures (f a) (better a) bad said) :
    Ensures (as.mapM f) (List.Forall₂ better as) bad said := by
  induction as with
  | nil =>
    rw [List.mapM_nil]
    exact .pure .nil
  | cons a rest ih =>
    rw [List.mapM_cons]
    refine (h a (by simp)).bind fun b hb => ?_
    refine (ih fun a ha => h a (by simp [ha])).bind fun bs hbs => ?_
    exact .pure (.cons hb hbs)

/-- Rebuilding a schema gives it new children, each good for the old one in its place. -/
theorem mapChildrenM {f : α → Steps ε σ β} {better : α → β → Prop} {schema : Keywords α}
    (h : ∀ child ∈ schema.children, Ensures (f child) (better child) bad said) :
    Ensures (schema.mapChildrenM f) (fun rebuilt => ∃ children,
      rebuilt = schema.withChildren children ∧ List.Forall₂ better schema.children children)
      bad said := by
  rw [Keywords.mapChildrenM_eq]
  exact (mapM h).map fun children hc => ⟨children, rfl, hc⟩

/-- A rebuilt schema looks like the old one, if each new child looks like the child it is for. -/
theorem mapChildrenM_view {f : α → Steps ε σ β} {view : β → γ} {old : α → γ} {better : β → Prop}
    {schema : Keywords α}
    (h : ∀ child ∈ schema.children,
      Ensures (f child) (fun b => view b = old child ∧ better b) bad said) :
    Ensures (schema.mapChildrenM f)
      (fun rebuilt => rebuilt.map view = schema.map old ∧ ∀ child ∈ rebuilt.children, better child)
      bad said := by
  refine (mapChildrenM h).weaken (fun rebuilt hr => ?_) fun _ he => he
  obtain ⟨children, rfl, hchildren⟩ := hr
  constructor
  · rw [Keywords.map_withChildren, Keywords.map_eq_withChildren old,
      map_eq_map_of_forall₂ hchildren fun _ _ hc => hc.1]
  · rw [Keywords.children_withChildren hchildren.length_eq.symm]
    exact forall_mem_of_forall₂ hchildren fun _ _ hc => hc.2

theorem forall_mapChildrenM {f : α → Steps ε σ β} {better : β → Prop} {schema : Keywords α}
    (h : ∀ child ∈ schema.children, Ensures (f child) better bad said) :
    Ensures (schema.mapChildrenM f) (fun rebuilt =>
      (rebuilt.map fun _ => ()) = (schema.map fun _ => ())
        ∧ ∀ child ∈ rebuilt.children, better child) bad said :=
  mapChildrenM_view fun child hc => (h child hc).weaken (fun _ hb => ⟨rfl, hb⟩) fun _ he => he

end Ensures
end SchemaTypes
