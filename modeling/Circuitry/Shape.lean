/-
  Shapes.

  A shape is a tree of named fields with a value at every leaf.  Ground values and aggregates of
  signals are shapes, and so are the types that belong to them.

  The leaves are visited depth first, in the order of the fields; a leaf's path joins the field names
  on the way to it with underscores.
-/
import Circuitry.Ty

namespace Circuitry

/-- A leaf, or named fields in order. -/
inductive Shape (α : Type) where
  | leaf (a : α)
  | group (fields : List (String × Shape α))
  deriving Inhabited, Repr

/-- The fields of a group. -/
abbrev Shape.Fields (α : Type) := List (String × Shape α)

namespace Shape

variable {α β σ : Type}

/-! ## Leaves -/

mutual
/-- The leaves, depth first. -/
def leaves : Shape α → List α
  | .leaf a => [a]
  | .group fs => fieldLeaves fs

/-- The leaves of fields. -/
def fieldLeaves : List (String × Shape α) → List α
  | [] => []
  | (_, s) :: fs => s.leaves ++ fieldLeaves fs
end

/-- The path of a field: nothing is put before a field whose outer path is empty. -/
def joinPath (outer name : String) : String := if outer.isEmpty then name else outer ++ "_" ++ name

mutual
/-- The leaves with their paths, below a path. -/
def paths (path : String) : Shape α → List (String × α)
  | .leaf a => [(path, a)]
  | .group fs => fieldPaths path fs

/-- The leaves of fields with their paths. -/
def fieldPaths (outer : String) : List (String × Shape α) → List (String × α)
  | [] => []
  | (n, s) :: fs => s.paths (joinPath outer n) ++ fieldPaths outer fs
end

/-! ## Traversal -/

mutual
/-- Replaces every leaf, depth first, with a state handed from leaf to leaf. -/
def mapAccum (f : σ → α → β × σ) (state : σ) : Shape α → Shape β × σ
  | .leaf a => let (b, state) := f state a; (.leaf b, state)
  | .group fs => let (gs, state) := mapAccumFields f state fs; (.group gs, state)

/-- `mapAccum` over fields. -/
def mapAccumFields (f : σ → α → β × σ) (state : σ) :
    List (String × Shape α) → List (String × Shape β) × σ
  | [] => ([], state)
  | (n, s) :: fs =>
    let (t, state) := s.mapAccum f state
    let (gs, state) := mapAccumFields f state fs
    ((n, t) :: gs, state)
end

/-- Replaces every leaf. -/
def map (f : α → β) (s : Shape α) : Shape β := (s.mapAccum (fun _ a => (f a, ())) ()).1

mutual
/-- Replaces every leaf by a shape, if all of them can be. -/
def bind? (f : α → Option (Shape β)) : Shape α → Option (Shape β)
  | .leaf a => f a
  | .group fs => (bindFields? f fs).map .group

/-- `bind?` over fields. -/
def bindFields? (f : α → Option (Shape β)) :
    List (String × Shape α) → Option (List (String × Shape β))
  | [] => some []
  | (n, s) :: fs =>
    match s.bind? f, bindFields? f fs with
    | some t, some gs => some ((n, t) :: gs)
    | _, _ => none
end

/-! ## Types -/

mutual
/-- The type with the given ground types. -/
def toTy : Shape (Kind × Width) → Ty
  | .leaf (k, w) => .element k w
  | .group fs => .aggregate (fieldsToTy fs)

/-- `toTy` over fields. -/
def fieldsToTy : List (String × Shape (Kind × Width)) → List (String × Ty)
  | [] => []
  | (n, s) :: fs => (n, s.toTy) :: fieldsToTy fs
end

/-! ## Laws -/

mutual
/-- Paths are only added to the leaves. -/
theorem map_snd_paths (path : String) : ∀ s : Shape α, (s.paths path).map (·.2) = s.leaves
  | .leaf _ => rfl
  | .group fs => map_snd_fieldPaths path fs

theorem map_snd_fieldPaths (outer : String) :
    ∀ fs : List (String × Shape α), (fieldPaths outer fs).map (·.2) = fieldLeaves fs
  | [] => rfl
  | (n, s) :: fs => by
    simp [fieldPaths, fieldLeaves, map_snd_paths (joinPath outer n) s, map_snd_fieldPaths outer fs]
end

mutual
/-- The leaves of a type are those of its shape. -/
theorem leaves_toTy : ∀ s : Shape (Kind × Width), s.toTy.leaves = s.leaves
  | .leaf _ => rfl
  | .group fs => fieldLeaves_fieldsToTy fs

theorem fieldLeaves_fieldsToTy :
    ∀ fs : List (String × Shape (Kind × Width)), Ty.fieldLeaves (fieldsToTy fs) = fieldLeaves fs
  | [] => rfl
  | (_, s) :: fs => by
    simp [fieldsToTy, Ty.fieldLeaves, fieldLeaves, leaves_toTy s, fieldLeaves_fieldsToTy fs]
end

example : paths "" (.group [("a", .leaf 1), ("b", .group [("c", .leaf 2)])])
    = [("a", 1), ("b_c", 2)] := by decide +kernel

end Shape

end Circuitry
