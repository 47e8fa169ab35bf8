/-! Remarks that a run leaves beside its result. -/
namespace SchemaTypes

inductive Notice where
  /-- A run starts on so many definitions. -/
  | started (definitions : Nat)
  /-- A pointer leads to no definition and serves as the name itself. -/
  | foreignPointer (pointer : String)
  /-- A declared type is not known, and any value is allowed in its place. -/
  | unknownType (type : String)
  /-- An object that was ready has a child that is still a schema. -/
  | pendingChild
deriving DecidableEq, Repr

namespace Notice

inductive Level where
  | info
  | warn
deriving DecidableEq, Repr

def level : Notice → Level
  | .started _ => .info
  | _ => .warn

def text : Notice → String
  | .started n => s!"generating types for {n} definitions"
  | .foreignPointer pointer =>
    "reference '" ++ pointer ++ "' does not point into #/definitions, using it as the name"
  | .unknownType type => "unknown type '" ++ type ++ "', emitting any"
  | .pendingChild => "structural child in an object marked ready, deferring"

end Notice

/-- A value with the notices given on the way to it, in order. -/
structure Noted (α : Type) where
  value : α
  notices : List Notice := []
deriving DecidableEq, Repr

namespace Noted

instance : Monad Noted where
  pure value := ⟨value, []⟩
  bind x f := let y := f x.value; ⟨y.value, x.notices ++ y.notices⟩

def give (notice : Notice) : Noted Unit := ⟨(), [notice]⟩

variable {α β : Type}

@[simp] theorem value_pure (a : α) : (pure a : Noted α).value = a := rfl

@[simp] theorem notices_pure (a : α) : (pure a : Noted α).notices = [] := rfl

@[simp] theorem value_bind (x : Noted α) (f : α → Noted β) : (x >>= f).value = (f x.value).value :=
  rfl

@[simp] theorem notices_bind (x : Noted α) (f : α → Noted β) :
    (x >>= f).notices = x.notices ++ (f x.value).notices := rfl

@[simp] theorem value_map (f : α → β) (x : Noted α) : (f <$> x).value = f x.value := rfl

@[simp] theorem notices_map (f : α → β) (x : Noted α) : (f <$> x).notices = x.notices := by
  show x.notices ++ [] = x.notices
  simp

instance : LawfulMonad Noted := LawfulMonad.mk' Noted
  (fun x => by cases x; simp [Functor.map])
  (fun _ _ => by simp [bind, pure])
  (fun _ _ _ => by simp [bind])

end Noted
end SchemaTypes
