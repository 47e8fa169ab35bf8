import SchemaTypes.Proofs.Rebuild

/-! Visiting the children of a schema with steps that keep a state and may fail. Each child is
visited once, in order, up to the first failure, and the results stand in the places of the
children. -/
namespace SchemaTypes

variable {ε σ α β γ : Type}

/-- The steps with a list of what they were called on, beside their state. -/
def logged (f : α → ExceptT ε (StateM σ) β) : α → ExceptT ε (StateM (σ × List α)) β :=
  fun a (state, calls) =>
    let (result, after) := (f a state : Except ε β × σ)
    (result, after, calls ++ [a])

/-- Calls that all succeed, each from the state that the one before it left. -/
inductive Succeeds (f : α → ExceptT ε (StateM σ) β) : List α → σ → List β → σ → Prop
  | nil (state : σ) : Succeeds f [] state [] state
  | cons {a : α} {rest : List α} {state mid after : σ} {b : β} {results : List β}
    (head : (f a state : Except ε β × σ) = (.ok b, mid))
    (tail : Succeeds f rest mid results after) : Succeeds f (a :: rest) state (b :: results) after

section Traversal

variable {f : α → ExceptT ε (StateM σ) β} {as rest : List α} {a : α} {state mid after : σ} {b : β}
  {results : List β} {error : ε}

theorem bind_of_ok {x : ExceptT ε (StateM σ) α} (next : α → ExceptT ε (StateM σ) γ)
    (h : (x state : Except ε α × σ) = (.ok a, mid)) :
    ((x >>= next) state : Except ε γ × σ) = next a mid := by
  show (ExceptT.bindCont next (x state : Except ε α × σ).1 : StateM σ (Except ε γ))
    (x state : Except ε α × σ).2 = _
  rw [h]
  rfl

theorem bind_of_error {x : ExceptT ε (StateM σ) α} (next : α → ExceptT ε (StateM σ) γ)
    (h : (x state : Except ε α × σ) = (.error error, after)) :
    ((x >>= next) state : Except ε γ × σ) = (.error error, after) := by
  show (ExceptT.bindCont next (x state : Except ε α × σ).1 : StateM σ (Except ε γ))
    (x state : Except ε α × σ).2 = _
  rw [h]
  rfl

/-- The results of the children are put in their places. -/
theorem mapChildrenM_of_ok {schema : Keywords α}
    (h : (schema.children.mapM f state : Except ε (List β) × σ) = (.ok results, after)) :
    (schema.mapChildrenM f state : Except ε (Keywords β) × σ)
      = (.ok (schema.withChildren results), after) := by
  rw [Keywords.mapChildrenM_eq, map_eq_pure_bind, bind_of_ok _ h]
  rfl

theorem mapChildrenM_of_error {schema : Keywords α}
    (h : (schema.children.mapM f state : Except ε (List β) × σ) = (.error error, after)) :
    (schema.mapChildrenM f state : Except ε (Keywords β) × σ) = (.error error, after) := by
  rw [Keywords.mapChildrenM_eq, map_eq_pure_bind, bind_of_error _ h]

/-- Either all calls succeed, or there is a first one that fails. -/
theorem exists_succeeds_or_failure (f : α → ExceptT ε (StateM σ) β) (as : List α) (state : σ) :
    (∃ results after, Succeeds f as state results after)
      ∨ ∃ front a back results mid error after, as = front ++ a :: back
        ∧ Succeeds f front state results mid
        ∧ (f a mid : Except ε β × σ) = (.error error, after) := by
  induction as generalizing state with
  | nil => exact .inl ⟨[], state, .nil state⟩
  | cons a rest ih =>
    rcases hcall : (f a state : Except ε β × σ) with ⟨error | b, mid⟩
    · exact .inr ⟨[], a, rest, [], state, error, mid, rfl, .nil state, hcall⟩
    · rcases ih mid with ⟨results, after, hrest⟩
        | ⟨front, failing, back, results, last, error, after, rfl, hfront, hfails⟩
      · exact .inl ⟨_, after, .cons hcall hrest⟩
      · exact .inr
          ⟨a :: front, failing, back, _, last, error, after, rfl, .cons hcall hfront, hfails⟩

namespace Succeeds

theorem length_eq (h : Succeeds f as state results after) : results.length = as.length := by
  induction h with
  | nil => rfl
  | cons _ _ ih => rw [List.length_cons, List.length_cons, ih]

theorem mapM_eq (h : Succeeds f as state results after) :
    (as.mapM f state : Except ε (List β) × σ) = (.ok results, after) := by
  induction h with
  | nil => rfl
  | cons head _ ih =>
    rw [List.mapM_cons, bind_of_ok _ head, bind_of_ok _ ih]
    rfl

/-- Nothing is called behind a failure. -/
theorem mapM_eq_of_failure {front back : List α} (h : Succeeds f front state results mid)
    (hfails : (f a mid : Except ε β × σ) = (.error error, after)) :
    ((front ++ a :: back).mapM f state : Except ε (List β) × σ) = (.error error, after) := by
  induction h with
  | nil => rw [List.nil_append, List.mapM_cons, bind_of_error _ hfails]
  | cons head _ ih =>
    rw [List.cons_append, List.mapM_cons, bind_of_ok _ head, bind_of_error _ (ih hfails)]

/-- The log has every call, in order. -/
theorem logged (h : Succeeds f as state results after) (calls : List α) :
    Succeeds (logged f) as (state, calls) results (after, calls ++ as) := by
  induction h generalizing calls with
  | nil state =>
    rw [List.append_nil]
    exact .nil _
  | @cons a rest state mid after b results head _ ih =>
    have hcall : (SchemaTypes.logged f a (state, calls) : Except ε β × σ × List α)
        = (.ok b, mid, calls ++ [a]) := by
      simp only [SchemaTypes.logged, head]
    rw [List.append_cons]
    exact .cons hcall (ih _)

end Succeeds
end Traversal

namespace Keywords

/-- A schema is decided by its children and by what is left of it without them. -/
theorem eq_of_children_eq {schema other : Keywords α} (hchildren : schema.children = other.children)
    (hrest : (schema.map fun _ => ()) = other.map fun _ => ()) : schema = other := by
  have hplaces := congrArg (fun places => places.withChildren schema.children) hrest
  simp only [withChildren_map] at hplaces
  rw [← map_id schema, map_eq_withChildren, List.map_id', hplaces, hchildren]
  rw [← List.map_id' other.children, ← map_eq_withChildren, map_id]

theorem isEmptyShape_withChildren {schema : Keywords α} {children : List β}
    (h : children.length = schema.children.length) :
    (schema.withChildren children).isEmptyShape = schema.isEmptyShape := by
  rw [← isEmptyShape_map fun _ => (), map_const_withChildren h, isEmptyShape_map]

/-- Children are rebuilt in place. Every child is visited once, in the order properties, members,
items, values of further properties, until a visit fails; that failure is the result, and nothing is
visited behind it. If no visit fails, the result is the one schema that has the results for
children, in order, and that is without them what the old schema is without its own: the names of
the properties, absent and empty lists, rules that hold no schema, and every keyword beside them. In
particular it has the same shape, and the empty shape if the old one has it. Visits that change
nothing leave the schema as it is, and two rounds of visits without effects are one. -/
theorem children_are_rebuilt_in_place (f : α → ExceptT ε (StateM σ) β) (schema : Keywords α)
    (state : σ) (g : α → β) (h : β → γ) :
    let run := (schema.mapChildrenM (logged f) (state, []) : Except ε (Keywords β) × σ × List α)
    (schema.mapChildrenM f state : Except ε (Keywords β) × σ) = (run.1, run.2.1)
    ∧ ((∃ results after rebuilt, Succeeds f schema.children state results after
        ∧ run = (.ok rebuilt, after, schema.children)
        ∧ (∀ other : Keywords β, other = rebuilt ↔
          other.children = results ∧ (other.map fun _ => ()) = schema.map fun _ => ())
        ∧ rebuilt.shape = schema.shape ∧ rebuilt.isEmptyShape = schema.isEmptyShape)
      ∨ ∃ front child back results mid error after, schema.children = front ++ child :: back
        ∧ Succeeds f front state results mid
        ∧ (f child mid : Except ε β × σ) = (.error error, after)
        ∧ run = (.error error, after, front ++ [child]))
    ∧ Id.run (schema.mapChildrenM fun child => pure child) = schema
    ∧ Id.run ((Id.run (schema.mapChildrenM fun child => pure (g child))).mapChildrenM
        fun child => pure (h child))
      = Id.run (schema.mapChildrenM fun child => pure (h (g child))) := by
  intro run
  have hidentity : Id.run (schema.mapChildrenM fun child => pure child) = schema := by
    rw [mapChildrenM_pure fun child : α => child, map_id, Id.run_pure]
  have htwice : Id.run ((Id.run (schema.mapChildrenM fun child => pure (g child))).mapChildrenM
      fun child => pure (h child))
      = Id.run (schema.mapChildrenM fun child => pure (h (g child))) := by
    rw [mapChildrenM_pure g, Id.run_pure, mapChildrenM_map]
  rcases exists_succeeds_or_failure f schema.children state with ⟨results, after, hall⟩
    | ⟨front, child, back, results, mid, error, after, hchildren, hfront, hfails⟩
  · have hlength := hall.length_eq
    have hrun : run = (.ok (schema.withChildren results), after, schema.children) :=
      mapChildrenM_of_ok (hall.logged []).mapM_eq
    have honly (other : Keywords β) : other = schema.withChildren results ↔
        other.children = results ∧ (other.map fun _ => ()) = schema.map fun _ => () := by
      constructor
      · rintro rfl
        exact ⟨children_withChildren hlength, map_const_withChildren hlength ()⟩
      · rintro ⟨hresults, hrest⟩
        exact eq_of_children_eq (hresults.trans (children_withChildren hlength).symm)
          (hrest.trans (map_const_withChildren hlength ()).symm)
    refine ⟨?_, .inl ⟨results, after, _, hall, hrun, honly, shape_withChildren hlength,
      isEmptyShape_withChildren hlength⟩, hidentity, htwice⟩
    rw [hrun, mapChildrenM_of_ok hall.mapM_eq]
  · have hlast : (logged f child (mid, front) : Except ε β × σ × List α)
        = (.error error, after, front ++ [child]) := by
      simp only [logged, hfails]
    have hrun : run = (.error error, after, front ++ [child]) := by
      refine mapChildrenM_of_error ?_
      rw [hchildren]
      exact (hfront.logged []).mapM_eq_of_failure hlast
    refine ⟨?_, .inr ⟨front, child, back, results, mid, error, after, hchildren, hfront, hfails,
      hrun⟩, hidentity, htwice⟩
    rw [hrun]
    refine mapChildrenM_of_error ?_
    rw [hchildren, hfront.mapM_eq_of_failure hfails]

/-- A budget that runs out at the second member: the items and the values are not visited. -/
example : (mapChildrenM (logged fun child budget =>
      if budget = 0 then (.error child, 0) else (.ok child, budget - 1))
    { properties := some [("p", 'p')], allOf := some ['a', 'b'], items := some 'i',
      additional := some (.values 'v') } (2, []) : Except Char (Keywords Char) × Nat × List Char)
    = (.error 'b', 0, ['p', 'a', 'b']) := rfl

end Keywords
end SchemaTypes
