/-
  Elaborated circuits.

  A circuit is a table of nodes, a list of ports, and the command stream.  A node is named by its
  position in the table, so a circuit read from a file may name nodes that are not there; every
  look-up allows for that.

  Names are not unique: each look-up by name takes the first match in its own table.
-/
import Circuitry.Command

namespace Circuitry

/-- Where a piece of hardware data was described: a file with a line and a column.  An empty file
    name marks an unknown place. -/
structure Location where
  file : String
  line : UInt32
  column : UInt32
  deriving DecidableEq, Inhabited, Repr

namespace Location

/-- No known place. -/
def unknown : Location := ⟨"", 0, 0⟩

def isUnknown (loc : Location) : Bool := loc.file == ""

def text (loc : Location) : String :=
  if loc.isUnknown then "<unknown>"
  else loc.file ++ ":" ++ toString loc.line ++ ":" ++ toString loc.column

end Location

/-- What a hardware value has been made into. -/
inductive Role where
  | unbound
  | port (direction : Direction)
  | wire
  | register
  | literal
  /-- The result of an operator. -/
  | result
  deriving DecidableEq, Inhabited, Repr

namespace Role

def isBound : Role → Bool
  | .unbound => false
  | _ => true

/-- Whether a value in this role can be driven. -/
def isAssignable : Role → Bool
  | .port _ | .wire | .register => true
  | _ => false

def text : Role → String
  | .unbound => "unbound"
  | .port d => d.text ++ " port"
  | .wire => "wire"
  | .register => "register"
  | .literal => "literal"
  | .result => "operation result"

end Role

/-- Where a node comes from. -/
inductive Origin where
  /-- Defined by a command. -/
  | defined
  /-- Leaf `index` of the aggregate node `parent`. -/
  | field (parent : NodeId) (index : UInt32)
  deriving DecidableEq, Inhabited, Repr

/-- An entry of the node table. -/
structure Node where
  ty : Ty
  role : Role
  name : Option String
  origin : Origin
  loc : Location
  deriving DecidableEq, Inhabited, Repr

/-- A declared port. -/
structure Port where
  name : String
  direction : Direction
  node : NodeId
  deriving DecidableEq, Inhabited, Repr

/-- A node table, ports and commands.  Command order is the order of the description. -/
structure Circuit where
  name : String
  nodes : List Node
  ports : List Port
  commands : List Command
  deriving DecidableEq, Inhabited, Repr

namespace Circuit

/-- The entry of a node, if the table has one. -/
def node? (c : Circuit) (id : NodeId) : Option Node := c.nodes[id.index.toNat]?

/-- The node table with the id of each entry. -/
def numbered (c : Circuit) : List (NodeId × Node) :=
  c.nodes.mapIdx fun i n => (⟨UInt32.ofNat i⟩, n)

/-- The first port of a name. -/
def port? (c : Circuit) (name : String) : Option Port := c.ports.find? (·.name = name)

def inputs (c : Circuit) : List Port := c.ports.filter (·.direction = .input)

def outputs (c : Circuit) : List Port := c.ports.filter (·.direction = .output)

/-- The first node of a name, whatever its role. -/
def named? (c : Circuit) (name : String) : Option NodeId :=
  (c.numbered.find? (·.2.name = some name)).map (·.1)

/-- The leaves of an aggregate node, each with its leaf index, as the table lists them. -/
def fieldEntries (c : Circuit) (parent : NodeId) : List (UInt32 × NodeId) :=
  c.numbered.filterMap fun (id, n) =>
    match n.origin with
    | .field p index => if p = parent then some (index, id) else none
    | .defined => none

/-- Puts an entry before the first one of its own index or a higher one. -/
def insertEntry (e : UInt32 × NodeId) : List (UInt32 × NodeId) → List (UInt32 × NodeId)
  | [] => [e]
  | x :: xs => if e.1 ≤ x.1 then e :: x :: xs else x :: insertEntry e xs

/-- Entries by index; entries of one index stay in their order. -/
def sortEntries (es : List (UInt32 × NodeId)) : List (UInt32 × NodeId) := es.foldr insertEntry []

/-- The leaves of an aggregate node by leaf index; leaves of one index stay in table order. -/
def fieldNodes (c : Circuit) (parent : NodeId) : List NodeId :=
  (sortEntries (c.fieldEntries parent)).map (·.2)

/-- An entry goes between those of a lower index and the others. -/
theorem insertEntry_append {e : UInt32 × NodeId} {upper : List (UInt32 × NodeId)}
    (hupper : ∀ x ∈ upper, e.1 ≤ x.1) : ∀ {lower : List (UInt32 × NodeId)},
    (∀ x ∈ lower, ¬ e.1 ≤ x.1) → insertEntry e (lower ++ upper) = lower ++ e :: upper
  | [], _ => by
    cases upper with
    | nil => rfl
    | cons x upper => exact if_pos (hupper x (.head _))
  | x :: lower, hlower => by
    rw [List.cons_append, insertEntry, if_neg (hlower x (.head _)),
      insertEntry_append hupper fun y hy => hlower y (.tail _ hy), List.cons_append]

/-- This is the stable sort of the library, in a form that computes. -/
theorem sortEntries_eq_mergeSort (es : List (UInt32 × NodeId)) :
    sortEntries es = es.mergeSort fun a b => decide (a.1 ≤ b.1) := by
  have htrans : ∀ a b c : UInt32 × NodeId, decide (a.1 ≤ b.1) = true → decide (b.1 ≤ c.1) = true →
      decide (a.1 ≤ c.1) = true := by
    simp only [decide_eq_true_eq]
    exact fun _ _ _ => UInt32.le_trans
  have htotal : ∀ a b : UInt32 × NodeId, (decide (a.1 ≤ b.1) || decide (b.1 ≤ a.1)) = true := by
    simp only [Bool.or_eq_true, decide_eq_true_eq]
    exact fun a b => UInt32.le_total a.1 b.1
  induction es with
  | nil => exact List.mergeSort_nil.symm
  | cons e es ih =>
    obtain ⟨lower, upper, hsorted, hrest, hlower⟩ := List.mergeSort_cons htrans htotal e es
    have hpairwise := List.pairwise_mergeSort htrans htotal (e :: es)
    rw [hsorted] at hpairwise ⊢
    rw [sortEntries, List.foldr_cons, ← sortEntries, ih, hrest]
    refine insertEntry_append (fun x hx => ?_) fun x hx => by simpa using hlower x hx
    exact of_decide_eq_true ((List.pairwise_cons.1 (List.pairwise_append.1 hpairwise).2.1).1 x hx)

end Circuit

end Circuitry
