/-
  Shapes with other leaves.

  `Shape.map` is a traversal that needs no state.  What later proofs use of it is here: what it does to
  the leaves and their paths, that two changes in a row are one (`mapAccum_map`), and that a change that
  leaves every leaf as it is leaves the shape as it is (`map_eq_self`).
-/
import Circuitry.Shape

namespace Circuitry.Shape

variable {α β γ σ : Type}

/-- Replaces every leaf of some fields. -/
def mapFields (f : α → β) (fs : Shape.Fields α) : Shape.Fields β :=
  (mapAccumFields (fun _ a => (f a, ())) () fs).1

@[simp] theorem map_leaf (f : α → β) (a : α) : (leaf a).map f = leaf (f a) := rfl

@[simp] theorem map_group (f : α → β) (fs : Shape.Fields α) :
    (group fs).map f = group (mapFields f fs) := rfl

@[simp] theorem mapFields_nil (f : α → β) : mapFields f [] = [] := rfl

@[simp] theorem mapFields_cons (f : α → β) (n : String) (s : Shape α) (fs : Shape.Fields α) :
    mapFields f ((n, s) :: fs) = (n, s.map f) :: mapFields f fs := rfl

/-- The fields of a change are the changed fields. -/
theorem mapFields_eq_map (f : α → β) : ∀ fs : Shape.Fields α,
    mapFields f fs = fs.map fun e => (e.1, e.2.map f)
  | [] => rfl
  | (n, s) :: fs => by rw [mapFields_cons, mapFields_eq_map f fs, List.map_cons]

mutual

theorem leaves_map (f : α → β) : ∀ s : Shape α, (s.map f).leaves = s.leaves.map f
  | .leaf _ => rfl
  | .group fs => fieldLeaves_mapFields f fs

theorem fieldLeaves_mapFields (f : α → β) : ∀ fs : Shape.Fields α,
    fieldLeaves (mapFields f fs) = (fieldLeaves fs).map f
  | [] => rfl
  | (n, s) :: fs => by
    rw [mapFields_cons, fieldLeaves, fieldLeaves, leaves_map f s, fieldLeaves_mapFields f fs,
      List.map_append]

end

mutual

theorem paths_map (f : α → β) (path : String) : ∀ s : Shape α,
    (s.map f).paths path = (s.paths path).map fun e => (e.1, f e.2)
  | .leaf _ => rfl
  | .group fs => fieldPaths_mapFields f path fs

theorem fieldPaths_mapFields (f : α → β) (outer : String) : ∀ fs : Shape.Fields α,
    fieldPaths outer (mapFields f fs) = (fieldPaths outer fs).map fun e => (e.1, f e.2)
  | [] => rfl
  | (n, s) :: fs => by
    rw [mapFields_cons, fieldPaths, fieldPaths, paths_map f _ s, fieldPaths_mapFields f outer fs,
      List.map_append]

end

mutual

/-- A traversal of changed leaves is one traversal. -/
theorem mapAccum_map (f : σ → β → γ × σ) (g : α → β) : ∀ (s : Shape α) (state : σ),
    (s.map g).mapAccum f state = s.mapAccum (fun state a => f state (g a)) state
  | .leaf _, _ => rfl
  | .group fs, state => by
    rw [map_group, mapAccum, mapAccum, mapAccumFields_mapFields f g fs]

theorem mapAccumFields_mapFields (f : σ → β → γ × σ) (g : α → β) :
    ∀ (fs : Shape.Fields α) (state : σ), mapAccumFields f state (mapFields g fs) =
      mapAccumFields (fun state a => f state (g a)) state fs
  | [], _ => rfl
  | (n, s) :: fs, state => by
    rw [mapFields_cons, mapAccumFields, mapAccumFields, mapAccum_map f g s]
    simp only [mapAccumFields_mapFields f g fs]

end

theorem map_map (f : β → γ) (g : α → β) (s : Shape α) : (s.map g).map f = s.map fun a => f (g a) := by
  rw [map, mapAccum_map]
  rfl

mutual

theorem map_congr {f g : α → β} : ∀ {s : Shape α}, (∀ a ∈ s.leaves, f a = g a) → s.map f = s.map g
  | .leaf a, h => congrArg leaf (h a (List.mem_singleton_self a))
  | .group _, h => congrArg group (mapFields_congr h)

theorem mapFields_congr {f g : α → β} : ∀ {fs : Shape.Fields α},
    (∀ a ∈ fieldLeaves fs, f a = g a) → mapFields f fs = mapFields g fs
  | [], _ => rfl
  | (n, s) :: fs, h => by
    have hs : s.map f = s.map g := map_congr fun a ha => h a (List.mem_append_left _ ha)
    have hfs : mapFields f fs = mapFields g fs :=
      mapFields_congr fun a ha => h a (List.mem_append_right _ ha)
    rw [mapFields_cons, mapFields_cons, hs, hfs]

end

mutual

theorem map_id : ∀ s : Shape α, (s.map fun a => a) = s
  | .leaf _ => rfl
  | .group fs => congrArg group (mapFields_id fs)

theorem mapFields_id : ∀ fs : Shape.Fields α, (mapFields (fun a => a) fs) = fs
  | [] => rfl
  | (n, s) :: fs => by rw [mapFields_cons, map_id s, mapFields_id fs]

end

/-- Leaves that stay as they are. -/
theorem map_eq_self {f : α → α} {s : Shape α} (h : ∀ a ∈ s.leaves, f a = a) : s.map f = s :=
  (map_congr h).trans (map_id s)

theorem mapFields_eq_self {f : α → α} {fs : Shape.Fields α} (h : ∀ a ∈ fieldLeaves fs, f a = a) :
    mapFields f fs = fs :=
  (mapFields_congr h).trans (mapFields_id fs)

end Circuitry.Shape
