/-
  What stands in the places of nodes.

  The same description can be made into a circuit in two ways: with an operator for every range of bits
  that it takes, or with the bits of literals taken at once.  The second circuit is an image of the
  first: some results are gone, and literals stand in their places.  `im` lists for every node of the
  first circuit what stands in its place, a node of the second circuit or a literal.

  Images only look at nodes, so places that are added later do not change them (`image_append` and its
  companions).
-/
import Circuitry.Proofs.Bench.Nodes

namespace Circuitry

/-! ## Images -/

mutual

/-- What stands in the place of an operand. -/
def Operand.image (im : List Operand) : Operand → Operand
  | .node id => im.getD id.index.toNat (.node id)
  | .constant c => .constant c
  | .aggregate xs => .aggregate (operandsImage im xs)

/-- What stands in the places of operands. -/
def operandsImage (im : List Operand) : List Operand → List Operand
  | [] => []
  | a :: as => a.image im :: operandsImage im as

end

theorem operandsImage_eq_map (im : List Operand) (as : List Operand) :
    operandsImage im as = as.map (Operand.image im) := by
  induction as with
  | nil => rfl
  | cons a as ih => rw [operandsImage, ih, List.map_cons]

/-- The node that stands in the place of a node. -/
def NodeId.image (im : List Operand) (id : NodeId) : NodeId :=
  match (Operand.node id).image im with
  | .node id' => id'
  | _ => id

/-- What is left of a command. -/
def Command.image (im : List Operand) : Command → Option Command
  | .defPort node direction name => some (.defPort (node.image im) direction name)
  | .defWire node => some (.defWire (node.image im))
  | .defReg node => some (.defReg (node.image im))
  | .defPrim result op args =>
    match (Operand.node result).image im with
    | .node result => some (.defPrim result op (operandsImage im args))
    | _ => none
  | .connect target source =>
    match (Operand.node target).image im with
    | .node target => some (.connect target (source.image im))
    | _ => none
  | .whenBegin pred depth => some (.whenBegin (pred.image im) depth)
  | .whenEnd depth => some (.whenEnd depth)
  | .altBegin depth => some (.altBegin depth)
  | .otherwiseEnd depth => some (.otherwiseEnd depth)

def Origin.image (im : List Operand) : Origin → Origin
  | .defined => .defined
  | .field parent index => .field (parent.image im) index

def Node.image (im : List Operand) (n : Node) : Node := { n with origin := n.origin.image im }

def Port.image (im : List Operand) (p : Port) : Port := { p with node := p.node.image im }

/-- What is left of an entry of the node table. -/
def entryImage (im : List Operand) : NodeId × Node → Option (NodeId × Node)
  | (id, n) =>
    match (Operand.node id).image im with
    | .node id' => some (id', n.image im)
    | _ => none

/-! ## Places that are there stay as they are -/

/-- The nodes of a command. -/
def Command.ids : Command → List NodeId
  | .defPort node _ _ | .defWire node | .defReg node => [node]
  | .defPrim result _ args => result :: operandsNodes args
  | .connect target source => target :: source.nodes
  | .whenBegin pred _ => pred.nodes
  | _ => []

/-- The node that an entry names as its parent, if it is a field. -/
def Node.parents (n : Node) : List NodeId :=
  match n.origin with
  | .defined => []
  | .field parent _ => [parent]

section Append

variable {im : List Operand} (more : List Operand)

theorem getD_append_of_lt {i : Nat} (h : i < im.length) (d : Operand) :
    (im ++ more).getD i d = im.getD i d := by
  rw [List.getD_eq_getElem?_getD, List.getElem?_append_left h, ← List.getD_eq_getElem?_getD]

mutual

theorem image_append : ∀ {a : Operand}, (∀ id ∈ a.nodes, id.index.toNat < im.length) →
    a.image (im ++ more) = a.image im
  | .node id, h => getD_append_of_lt more (h id (List.mem_singleton_self _)) _
  | .constant _, _ => rfl
  | .aggregate xs, h => by
    rw [Operand.image, Operand.image, operandsImage_append h]

theorem operandsImage_append : ∀ {as : List Operand},
    (∀ id ∈ operandsNodes as, id.index.toNat < im.length) →
      operandsImage (im ++ more) as = operandsImage im as
  | [], _ => rfl
  | a :: as, h => by
    rw [operandsImage, operandsImage, image_append fun id hid => h id (List.mem_append_left _ hid),
      operandsImage_append fun id hid => h id (List.mem_append_right _ hid)]

end

theorem idImage_append {id : NodeId} (h : id.index.toNat < im.length) :
    id.image (im ++ more) = id.image im := by
  rw [NodeId.image, NodeId.image, Operand.image, Operand.image, getD_append_of_lt more h]

theorem commandImage_append {cmd : Command} (h : ∀ id ∈ cmd.ids, id.index.toNat < im.length) :
    cmd.image (im ++ more) = cmd.image im := by
  cases cmd with
  | defPort node _ _ | defWire node | defReg node =>
    rw [Command.image, Command.image, idImage_append more (h node (List.mem_singleton_self _))]
  | defPrim result op args =>
    rw [Command.image, Command.image, Operand.image, Operand.image,
      getD_append_of_lt more (h result (List.mem_cons_self ..)),
      operandsImage_append more fun id hid => h id (List.mem_cons_of_mem _ hid)]
  | connect target source =>
    rw [Command.image, Command.image, Operand.image, Operand.image,
      getD_append_of_lt more (h target (List.mem_cons_self ..)),
      image_append more fun id hid => h id (List.mem_cons_of_mem _ hid)]
  | whenBegin pred depth => rw [Command.image, Command.image, image_append more h]
  | _ => rfl

theorem nodeImage_append {n : Node} (h : ∀ id ∈ n.parents, id.index.toNat < im.length) :
    n.image (im ++ more) = n.image im := by
  obtain ⟨ty, role, name, origin, loc⟩ := n
  cases origin with
  | defined => rfl
  | field parent k =>
    have hparent := idImage_append more (h parent (List.mem_singleton_self _))
    simp only [Node.image, Origin.image, hparent]

end Append

end Circuitry
