import SchemaTypes.Node.References
import SchemaTypes.Node.Types
import SchemaTypes.Proofs.Tree

/-! Rebuilding trees in a monad, and the passes as equations about one level. -/
namespace SchemaTypes

section Traversal

variable {m : Type → Type} [Monad m] [LawfulMonad m] {α β γ : Type}

/-- What follows a traversal sees a list of the same length. -/
theorem mapM_bind_congr (f : α → m β) (as : List α) {next other : List β → m γ}
    (h : ∀ bs, bs.length = as.length → next bs = other bs) :
    as.mapM f >>= next = as.mapM f >>= other := by
  induction as generalizing next other with
  | nil => simpa using h [] rfl
  | cons a rest ih =>
    simp only [List.mapM_cons, bind_assoc, pure_bind]
    refine bind_congr fun b => ih fun bs hb => h (b :: bs) (by simp [hb])

theorem mapM_entries (f : α → m β) (entries : List (String × α)) :
    (entries.mapM fun entry => (entry.1, ·) <$> f entry.2)
      = (Assoc.keys entries).zip <$> (entries.map Prod.snd).mapM f := by
  induction entries with
  | nil => simp
  | cons entry rest ih => simp [ih, Assoc.keys]

/-- Rebuilding visits the children once each, in order, and puts the results in their places. -/
theorem Keywords.mapChildrenM_eq (f : α → m β) (schema : Keywords α) :
    schema.mapChildrenM f = schema.withChildren <$> schema.children.mapM f := by
  rcases schema with ⟨ref, type, format, enum, description, properties, required, additional, allOf,
    items, docs⟩
  have hsteps : mapChildrenM f ⟨ref, type, format, enum, description, properties, required,
      additional, allOf, items, docs⟩ = (do
        let ps ← ((properties.getD []).map Prod.snd).mapM f
        let ms ← (allOf.getD []).mapM f
        let is ← items.toList.mapM f
        let as ← ((additional.map Additional.children).getD []).mapM f
        pure { ref, type, format, enum, description, required, docs
               properties := properties.map fun _ => (Assoc.keys (properties.getD [])).zip ps
               allOf := allOf.map fun _ => ms
               items := items.bind fun _ => is.head?
               additional := additional.bind (Additional.withChild? as.head?) }) := by
    rcases additional with _ | _ | _ <;> cases properties <;> cases allOf <;> cases items <;>
      simp [mapChildrenM, mapM_entries, Additional.children, Additional.withChild?]
  rw [hsteps]
  simp only [children, List.mapM_append, map_eq_pure_bind, bind_assoc, pure_bind]
  refine mapM_bind_congr f _ fun ps hps => mapM_bind_congr f _ fun ms hms =>
    mapM_bind_congr f _ fun is his => bind_congr fun as => ?_
  have hn : ps.length = (Assoc.keys (properties.getD [])).length := by simp [hps, Assoc.keys]
  have hz (back : List β) : (Assoc.keys (properties.getD [])).zip (ps ++ back)
      = (Assoc.keys (properties.getD [])).zip ps := by
    rw [← List.append_nil (Assoc.keys _), List.zip_append hn.symm]
    simp
  have hm (back : List β) : allOf.map (fun old => (ms ++ back).take old.length)
      = allOf.map fun _ => ms := by
    cases allOf with
    | none => rfl
    | some members => exact congrArg some (List.take_left' hms)
  have hi : (items.bind fun _ => (is ++ as).head?) = items.bind fun _ => is.head? := by
    cases items with
    | none => rfl
    | some item =>
      obtain ⟨new, rfl⟩ := List.length_eq_one_iff.1 his
      rfl
  simp only [withChildren, List.append_assoc, List.drop_left' hn, List.drop_left' hms,
    List.drop_left' his, hz, hm, hi]

theorem Keywords.mapChildrenM_pure (f : α → β) (schema : Keywords α) :
    schema.mapChildrenM (fun child => (pure (f child) : m β)) = pure (schema.map f) := by
  rw [mapChildrenM_eq, List.mapM_pure, map_pure, ← map_eq_withChildren]

theorem mapM_map_right (g : β → γ) (f : α → m β) (as : List α) :
    (as.mapM fun a => g <$> f a) = List.map g <$> as.mapM f := by
  induction as with
  | nil => simp
  | cons a rest ih => simp [ih]

theorem mapM_congr_left {f g : α → m β} {as : List α} (h : ∀ a ∈ as, f a = g a) :
    as.mapM f = as.mapM g := by
  induction as with
  | nil => simp
  | cons a rest ih =>
    rw [List.mapM_cons, List.mapM_cons, h a (by simp), ih fun a ha => h a (by simp [ha])]

theorem Keywords.mapChildrenM_map (g : α → β) (f : β → m γ) (schema : Keywords α) :
    (schema.map g).mapChildrenM f = schema.mapChildrenM fun child => f (g child) := by
  rw [mapChildrenM_eq, mapChildrenM_eq, children_map, List.mapM_map]
  exact congrArg (· <$> _) (funext fun children => withChildren_map g schema children)

theorem Keywords.mapChildrenM_map_right (g : β → γ) (f : α → m β) (schema : Keywords α) :
    (schema.mapChildrenM fun child => g <$> f child)
      = (fun rebuilt => rebuilt.map g) <$> schema.mapChildrenM f := by
  rw [mapChildrenM_eq, mapChildrenM_eq, mapM_map_right, Functor.map_map, Functor.map_map]
  exact congrArg (· <$> _) (funext fun children => (map_withChildren g schema children).symm)

theorem Keywords.mapChildrenM_congr {f g : α → m β} {schema : Keywords α}
    (h : ∀ child ∈ schema.children, f child = g child) :
    schema.mapChildrenM f = schema.mapChildrenM g := by
  rw [mapChildrenM_eq, mapChildrenM_eq, mapM_congr_left h]

end Traversal

namespace Noted

variable {α β : Type}

@[simp] theorem value_mapM (f : α → Noted β) (as : List α) :
    (as.mapM f).value = as.map fun a => (f a).value := by
  induction as with
  | nil => simp
  | cons a rest ih => simp [ih]

@[simp] theorem notices_mapM (f : α → Noted β) (as : List α) :
    (as.mapM f).notices = as.flatMap fun a => (f a).notices := by
  induction as with
  | nil => simp
  | cons a rest ih => simp [ih]

@[simp] theorem value_mapChildrenM (f : α → Noted β) (schema : Keywords α) :
    (schema.mapChildrenM f).value = schema.map fun child => (f child).value := by
  rw [Keywords.mapChildrenM_eq, value_map, value_mapM, ← Keywords.map_eq_withChildren]

@[simp] theorem notices_mapChildrenM (f : α → Noted β) (schema : Keywords α) :
    (schema.mapChildrenM f).notices = schema.children.flatMap fun child => (f child).notices := by
  rw [Keywords.mapChildrenM_eq, notices_map, notices_mapM]

end Noted

namespace Node

@[simp] theorem resolveReferences_resolved (container : String) (type : TypeExpr) :
    resolveReferences container (.resolved type) = pure (.resolved type) := by
  simp [resolveReferences, rebuildM]

theorem resolveReferences_pending (container : String) (schema : SchemaNode) :
    (resolveReferences container (.pending schema)).value =
      match schema.ref with
      | some pointer => .resolved (.reference container (Pointer.name pointer).value)
      | none => .pending (schema.map fun child => (resolveReferences container child).value) := by
  rw [resolveReferences, rebuildM_pending]
  cases h : schema.ref <;> simp [lookup, h, resolveReferences]

theorem notices_resolveReferences_pending (container : String) (schema : SchemaNode) :
    (resolveReferences container (.pending schema)).notices =
      match schema.ref with
      | some pointer => (Pointer.name pointer).notices
      | none => schema.children.flatMap fun child => (resolveReferences container child).notices := by
  rw [resolveReferences, rebuildM_pending]
  cases h : schema.ref <;> simp [lookup, h, resolveReferences]

/-- The tree of a schema with its references looked up. -/
def loaded (container : String) (schema : Schema) : Node :=
  (resolveReferences container (.ofSchema schema)).value

theorem loaded_of_ref (container : String) {schema : Schema} {pointer : String}
    (h : schema.ref = some pointer) :
    loaded container schema = .resolved (.reference container (Pointer.name pointer).value) := by
  rw [loaded, ofSchema_eq, resolveReferences_pending]
  simp [Schema.keywords, h]

theorem loaded_of_ref_eq_none (container : String) {schema : Schema} (h : schema.ref = none) :
    loaded container schema = .pending (schema.keywords.map (loaded container)) := by
  rw [loaded, ofSchema_eq, resolveReferences_pending, Keywords.map_ref,
    show schema.keywords.ref = none from h, Keywords.map_map]
  rfl

/-- At its root only a reference is looked up. -/
theorem isResolved_loaded_iff (container : String) (schema : Schema) :
    (loaded container schema).isResolved ↔ schema.ref.isSome := by
  cases h : schema.ref with
  | some pointer => simp [loaded_of_ref container h, isResolved]
  | none => simp [loaded_of_ref_eq_none container h, isResolved]

theorem eq_of_loaded_eq_pending {container : String} {schema : Schema} {new : SchemaNode}
    (h : loaded container schema = .pending new) :
    new = schema.keywords.map (loaded container) := by
  cases href : schema.ref with
  | some pointer =>
    rw [loaded_of_ref container href] at h
    cases h
  | none =>
    rw [loaded_of_ref_eq_none container href] at h
    exact (Node.pending.inj h).symm

@[simp] theorem resolvePrimitives_resolved (type : TypeExpr) :
    resolvePrimitives (.resolved type) = .resolved type := by
  simp [resolvePrimitives, rebuildM]

theorem resolvePrimitives_pending (schema : SchemaNode) :
    resolvePrimitives (.pending schema) = resolvePrimitive (schema.map resolvePrimitives) := by
  have h := Keywords.mapChildrenM_pure (m := Id) resolvePrimitives schema
  rw [resolvePrimitives, rebuildM_pending]
  show resolvePrimitive (Id.run (schema.mapChildrenM fun child => pure (resolvePrimitives child))) = _
  rw [h, Id.run_pure]

@[simp] theorem resolveComposites_resolved (type : TypeExpr) :
    resolveComposites (.resolved type) = pure (.resolved type) := by
  simp [resolveComposites, rebuildM]

theorem resolveComposites_pending (schema : SchemaNode) :
    (resolveComposites (.pending schema)).value
      = (resolveComposite (schema.map fun child => (resolveComposites child).value)).value := by
  rw [resolveComposites, rebuildM_pending]
  simp [resolveComposites]

theorem notices_resolveComposites_pending (schema : SchemaNode) :
    (resolveComposites (.pending schema)).notices
      = (schema.children.flatMap fun child => (resolveComposites child).notices)
        ++ (resolveComposite (schema.map fun child => (resolveComposites child).value)).notices := by
  rw [resolveComposites, rebuildM_pending]
  simp [resolveComposites]

end Node
end SchemaTypes
