/-
  The node table of a circuit at work.

  The table is read by position, and ids are positions of 32 bits, so everything here is for tables of
  at most `2 ^ 32` entries.  What a run makes of the table is said node by node: the values before the
  first pass (`nodeValue?_initial`), the values after a pass (`nodeValue?_drive`), and what registers
  hold next (`lookup_nextState`).
-/
import Mathlib.Data.List.Nodup
import Circuitry.Proofs.Bench.Equations

namespace Circuitry

namespace Circuit

variable {c : Circuit}

/-- The table with ids, by position. -/
theorem getElem?_numbered (c : Circuit) (i : Nat) :
    c.numbered[i]? = c.nodes[i]?.map fun n => (Draft.idAt i, n) := by
  rw [numbered, List.getElem?_mapIdx]

theorem length_numbered (c : Circuit) : c.numbered.length = c.nodes.length := List.length_mapIdx

/-- An entry of the table with ids. -/
theorem exists_of_mem_numbered {e : NodeId × Node} (h : e ∈ c.numbered) :
    ∃ i n, c.nodes[i]? = some n ∧ e = (Draft.idAt i, n) := by
  obtain ⟨i, hi⟩ := List.mem_iff_getElem?.1 h
  rw [getElem?_numbered] at hi
  obtain ⟨n, hn, rfl⟩ := Option.map_eq_some_iff.1 hi
  exact ⟨i, n, hn, rfl⟩

/-- The entry at the position of an id has that id. -/
theorem fst_of_numbered {id : NodeId} {e : NodeId × Node}
    (h : c.numbered[id.index.toNat]? = some e) : e.1 = id := by
  rw [getElem?_numbered, Draft.idAt_toNat] at h
  obtain ⟨n, -, rfl⟩ := Option.map_eq_some_iff.1 h
  rfl

/-- A node stands in the table with its id, whatever the size of the table. -/
theorem mem_numbered_of_node? {id : NodeId} {n : Node} (h : c.node? id = some n) :
    (id, n) ∈ c.numbered := by
  rw [node?] at h
  refine List.mem_iff_getElem?.2 ⟨id.index.toNat, ?_⟩
  rw [getElem?_numbered, Draft.idAt_toNat, h]
  rfl

/-- The entries of the table with ids are the nodes by their ids. -/
theorem mem_numbered (hsize : c.nodes.length ≤ 2 ^ 32) {id : NodeId} {n : Node} :
    (id, n) ∈ c.numbered ↔ c.node? id = some n := by
  refine ⟨fun h => ?_, mem_numbered_of_node?⟩
  obtain ⟨i, m, hm, he⟩ := exists_of_mem_numbered h
  obtain ⟨rfl, rfl⟩ := Prod.mk.inj he
  have hlt := (List.getElem?_eq_some_iff.1 hm).1
  rw [node?, Draft.toNat_idAt (by omega)]
  exact hm

/-- No id stands in the table twice. -/
theorem nodup_numbered (hsize : c.nodes.length ≤ 2 ^ 32) : (c.numbered.map (·.1)).Nodup := by
  rw [List.nodup_iff_getElem?_ne_getElem?]
  intro i j hij hj
  rw [List.length_map, length_numbered] at hj
  have hi : i < c.nodes.length := by omega
  simp only [List.getElem?_map, getElem?_numbered, List.getElem?_eq_getElem hi,
    List.getElem?_eq_getElem hj, Option.map_some, ne_eq, Option.some.injEq]
  intro he
  have hnat := congrArg (·.index.toNat) he
  simp only [Draft.toNat_idAt (show i < 2 ^ 32 by omega),
    Draft.toNat_idAt (show j < 2 ^ 32 by omega)] at hnat
  omega

/-- A field node names its parent, and it is among the parent's field nodes. -/
theorem mem_fieldNodes (hsize : c.nodes.length ≤ 2 ^ 32) {parent id : NodeId} :
    id ∈ c.fieldNodes parent ↔ ∃ n k, c.node? id = some n ∧ n.origin = .field parent k := by
  rw [fieldNodes, sortEntries_eq_mergeSort]
  rw [List.mem_map]
  constructor
  · rintro ⟨⟨k, id'⟩, hmem, rfl⟩
    rw [List.mem_mergeSort] at hmem
    obtain ⟨⟨id, n⟩, hn, he⟩ := List.mem_filterMap.1 hmem
    dsimp only at he
    split at he
    · next p k' horigin =>
      split at he
      · next hp =>
        obtain ⟨rfl, rfl⟩ := Prod.mk.inj (Option.some.inj he)
        exact ⟨n, k', (mem_numbered hsize).1 hn, by rw [horigin, hp]⟩
      · cases he
    · cases he
  · rintro ⟨n, k, hn, horigin⟩
    refine ⟨(k, id), ?_, rfl⟩
    rw [List.mem_mergeSort]
    refine List.mem_filterMap.2 ⟨(id, n), (mem_numbered hsize).2 hn, ?_⟩
    simp [horigin]

/-- The field nodes of a parent are all different. -/
theorem nodup_fieldNodes (hsize : c.nodes.length ≤ 2 ^ 32) (parent : NodeId) :
    (c.fieldNodes parent).Nodup := by
  rw [fieldNodes, sortEntries_eq_mergeSort]
  have hsub : ((c.fieldEntries parent).map (·.2)).Sublist (c.numbered.map (·.1)) := by
    unfold fieldEntries
    generalize c.numbered = l
    induction l with
    | nil => exact .refl _
    | cons e l ih =>
      obtain ⟨id, n⟩ := e
      rw [List.filterMap_cons, List.map_cons]
      dsimp only
      cases ho : n.origin with
      | defined => exact ih.cons _
      | field p k =>
        by_cases hp : p = parent
        · simp only [hp, if_true, List.map_cons]
          exact ih.cons_cons _
        · simp only [hp, if_false]
          exact ih.cons _
  refine List.Perm.nodup ?_ (hsub.nodup (nodup_numbered hsize))
  exact ((List.mergeSort_perm _ _).map _).symm

end Circuit

namespace Bench

variable {b : Bench}

/-- The values before the first pass. -/
theorem nodeValue?_initial {id : NodeId} {n : Node} (hn : b.circuit.node? id = some n) :
    nodeValue? b.initial id =
      some (((b.state.lookup id).orElse fun _ => b.inputs.lookup id).getD 0) := by
  rw [Circuit.node?] at hn
  rw [nodeValue?, initial, List.getElem?_map, Circuit.getElem?_numbered, hn, Draft.idAt_toNat]
  rfl

theorem length_initial : b.initial.length = b.circuit.nodes.length := by
  rw [initial, List.length_map, Circuit.length_numbered]

/-- The values after a pass: driven nodes take their drivers. -/
theorem nodeValue?_drive {p : Pass} {id : NodeId} {n : Node} (hn : b.circuit.node? id = some n)
    (hlen : p.values.length = b.circuit.nodes.length) :
    nodeValue? (b.drive p) id =
      if isDriven n.role then some ((p.drivers.lookup id).getD 0) else nodeValue? p.values id := by
  rw [Circuit.node?] at hn
  have hlt : id.index.toNat < p.values.length := by
    rw [hlen]
    exact (List.getElem?_eq_some_iff.1 hn).1
  have hzip : (b.circuit.numbered.zip p.values)[id.index.toNat]? =
      some ((id, n), p.values[id.index.toNat]) := by
    refine List.getElem?_zip_eq_some.2 ⟨?_, List.getElem?_eq_getElem hlt⟩
    rw [Circuit.getElem?_numbered, hn, Draft.idAt_toNat]
    rfl
  rw [nodeValue?, drive, List.getElem?_map, hzip, nodeValue?, List.getElem?_eq_getElem hlt]
  cases h : isDriven n.role <;> simp [h]

theorem length_drive {p : Pass} (hlen : p.values.length = b.circuit.nodes.length) :
    (b.drive p).length = b.circuit.nodes.length := by
  rw [drive, List.length_map, List.length_zip, Circuit.length_numbered, hlen, Nat.min_self]

/-- Values are the same if they are so for every node. -/
theorem values_ext {U U' : List Nat} (hsize : b.circuit.nodes.length ≤ 2 ^ 32)
    (hU : U.length = b.circuit.nodes.length) (hU' : U'.length = b.circuit.nodes.length)
    (h : ∀ id n, b.circuit.node? id = some n → nodeValue? U id = nodeValue? U' id) : U = U' := by
  refine List.ext_getElem? fun i => ?_
  by_cases hi : i < b.circuit.nodes.length
  · have hid := Draft.toNat_idAt (show i < 2 ^ 32 by omega)
    have hn : b.circuit.node? (Draft.idAt i) = some b.circuit.nodes[i] := by
      rw [Circuit.node?, hid]
      exact List.getElem?_eq_getElem hi
    have hval := h _ _ hn
    rwa [nodeValue?, nodeValue?, hid] at hval
  · rw [List.getElem?_eq_none (by omega), List.getElem?_eq_none (by omega)]

/-- What a register holds next. -/
theorem lookup_nextState (hsize : b.circuit.nodes.length ≤ 2 ^ 32) {p : Pass} {id : NodeId}
    {n : Node} (hn : b.circuit.node? id = some n) (hrole : n.role = .register) :
    (b.nextState p).lookup id = some ((p.drivers.lookup id).getD (b.stateOf id)) := by
  have hmem := (Circuit.mem_numbered hsize).2 hn
  have hnodup := Circuit.nodup_numbered hsize
  unfold nextState
  generalize b.circuit.numbered = l at hmem hnodup ⊢
  induction l with
  | nil => cases hmem
  | cons e l ih =>
    rw [List.map_cons, List.nodup_cons] at hnodup
    rw [List.filterMap_cons]
    rcases List.mem_cons.1 hmem with rfl | hmem
    · simp [hrole, stateOf]
    · have hne : id ≠ e.1 := by
        rintro rfl
        exact hnodup.1 (List.mem_map.2 ⟨_, hmem, rfl⟩)
      by_cases hr : e.2.role = .register
      · simp only [hr, if_true, List.lookup_cons, beq_false_of_ne hne]
        exact ih hmem hnodup.2
      · simp only [hr, if_false]
        exact ih hmem hnodup.2

end Bench

end Circuitry
