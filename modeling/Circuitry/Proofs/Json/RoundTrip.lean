/-
  The forms of data in JSON, read back.

  Every kind of data in a circuit is read back from its form, whether the form comes as a text or as a
  tree (`ofJson?_toJson`), and has a text of its own (`isData_toJson`).

  1. A record is read name by name: `field?_cons_self` and `field?_cons_of_ne` find each member behind
     the others, since no name occurs twice;
  2. a variant is one case for each of its tags.  The operators without parameters are found in their
     table, in which no tag stands twice;
  3. types and operands nest.  Their readers are bounded by the height of the data, and each level of
     the data is at least one level of its form.

  Together with the reader of texts this gives `Circuit.text_round_trip`.  It takes any circuit whose form
  nests no deeper than texts may: ids may name nothing, words need not suit a width, names may repeat.
-/
import Circuitry.Json.CircuitForm
import Circuitry.Proofs.Json.Text

namespace Circuitry

namespace Json

/-! ## Records -/

/-- A member is found by its name, if no later one has it. -/
@[simp] theorem field?_cons_self {n : String} {x : Json} {ms : List (String × Json)}
    (h : n ∉ ms.map (·.1)) : field? ((n, x) :: ms) n = some (some x) := by
  have hnone : ms.filter (·.1 = n) = [] := by
    refine List.filter_eq_nil_iff.2 fun m hm hn => h ?_
    exact List.mem_map.2 ⟨m, hm, of_decide_eq_true hn⟩
  rw [field?, List.filter_cons_of_pos (by simp), hnone]

/-- Members of other names are passed over. -/
@[simp] theorem field?_cons_of_ne {m n : String} {x : Json} {ms : List (String × Json)}
    (h : m ≠ n) : field? ((m, x) :: ms) n = field? ms n := by
  rw [field?, List.filter_cons_of_neg (by simpa using h), field?]

/-- Fields that are named may come from anywhere. -/
@[simp] theorem fields?_object {src : Source} {names : List String} {ms : List (String × Json)} :
    fields? src names (.object ms) = (Json.object ms).record? names := by
  cases src <;> rfl

@[simp] theorem variant?_tagged (tag : String) (payload : Json) :
    (tagged tag payload).variant? = some (tag, some payload) := rfl

/-! ## Numbers and lists -/

@[simp] theorem natural?_nat (n : Nat) : (nat n).natural? = some n := by
  simp [natural?, nat, Int.toNat?]

@[simp] theorem uint32?_nat (n : UInt32) : (nat n.toNat).uint32? = some n := by
  rw [uint32?, naturalBelow?, natural?_nat, Option.filter_some_pos (by simpa using n.toNat_lt)]
  simp

@[simp] theorem uint64?_nat (n : UInt64) : (nat n.toNat).uint64? = some n := by
  rw [uint64?, naturalBelow?, natural?_nat, Option.filter_some_pos (by simpa using n.toNat_lt)]
  simp

/-- A list is read item by item. -/
theorem list?_list {α : Type} {f : Json → Option α} {g : α → Json} : ∀ {xs : List α},
    (∀ x ∈ xs, f (g x) = some x) → (list g xs).list? f = some xs
  | [], _ => rfl
  | x :: xs, h => by
    rw [List.forall_mem_cons] at h
    have hrest : (xs.map g).mapM f = some xs := list?_list h.2
    simp [list, list?, h.1, hrest]

/-! ## Data with a text of its own -/

@[simp] theorem isData_nat (n : Nat) : (nat n).IsData := trivial

@[simp] theorem isData_string (s : String) : (string s).IsData := trivial

theorem isData_list {α : Type} {g : α → Json} : ∀ {xs : List α}, (∀ x ∈ xs, (g x).IsData) →
    (list g xs).IsData
  | [], _ => trivial
  | x :: xs, h => by
    rw [List.forall_mem_cons] at h
    exact ⟨h.1, isData_list h.2⟩

@[simp] theorem isData_object (ms : List (String × Json)) :
    (object ms).IsData ↔ MembersAreData ms := Iff.rfl

@[simp] theorem isData_tagged (tag : String) (payload : Json) :
    (tagged tag payload).IsData ↔ payload.IsData := and_iff_left trivial

@[simp] theorem membersAreData_nil : MembersAreData [] := trivial

@[simp] theorem membersAreData_cons (n : String) (x : Json) (ms : List (String × Json)) :
    MembersAreData ((n, x) :: ms) ↔ x.IsData ∧ MembersAreData ms := Iff.rfl

end Json

open Json (record? list? list?_list isData_list)

/-! ## Numbers and bits -/

@[simp] theorem Bits.ofJson?_toJson (a : Bits) : Bits.ofJson? a.toJson = some a := by
  simp [Bits.ofJson?, Bits.toJson, record?, list?_list]

@[simp] theorem Bits.isData_toJson (a : Bits) : a.toJson.IsData := by
  simp [Bits.toJson, isData_list]

@[simp] theorem Width.ofJson?_toJson (w : Width) : Width.ofJson? w.toJson = some w := by
  cases w with
  | unknown => rfl
  | known n => simp [Width.ofJson?, Width.toJson]

@[simp] theorem Width.isData_toJson (w : Width) : w.toJson.IsData := by
  cases w <;> simp [Width.toJson]

@[simp] theorem NodeId.ofJson?_toJson (id : NodeId) : NodeId.ofJson? id.toJson = some id := by
  simp [NodeId.ofJson?, NodeId.toJson]

@[simp] theorem NodeId.isData_toJson (id : NodeId) : id.toJson.IsData := trivial

/-! ## Kinds and directions -/

@[simp] theorem Kind.ofJson?_toJson (k : Kind) : Kind.ofJson? k.toJson = some k := by
  cases k <;> rfl

@[simp] theorem Kind.isData_toJson (k : Kind) : k.toJson.IsData := trivial

@[simp] theorem Direction.ofJson?_toJson (d : Direction) : Direction.ofJson? d.toJson = some d := by
  cases d <;> rfl

@[simp] theorem Direction.isData_toJson (d : Direction) : d.toJson.IsData := by
  cases d <;> trivial

/-! ## Types -/

namespace Ty

mutual

/-- A type is read from its form with more levels than the form has. -/
theorem ofJsonWithin?_toJson (src : Json.Source) : ∀ (t : Ty) {fuel : Nat},
    t.toJson.height < fuel → ofJsonWithin? src fuel t.toJson = some t
  | .element k w, fuel + 1, _ => by
    simp [ofJsonWithin?, toJson, record?]
  | .aggregate fs, fuel + 1, h => by
    have hfs : Json.itemsHeight (fieldsToJson fs) < fuel := by
      simp only [toJson, Json.tagged, Json.height, Json.membersHeight] at h
      omega
    simp [ofJsonWithin?, toJson, list?, fieldsOfJson?_toJson src fs hfs]

theorem fieldsOfJson?_toJson (src : Json.Source) : ∀ (fs : List (String × Ty)) {fuel : Nat},
    Json.itemsHeight (fieldsToJson fs) < fuel →
      (fieldsToJson fs).mapM (fieldOfJson? (ofJsonWithin? src fuel)) = some fs
  | [], _, _ => rfl
  | (n, t) :: fs, fuel, h => by
    have hboth : t.toJson.height < fuel ∧ Json.itemsHeight (fieldsToJson fs) < fuel := by
      simp only [fieldsToJson, Json.itemsHeight, Json.height, Json.membersHeight] at h
      omega
    simp [fieldsToJson, fieldOfJson?, record?, Json.string?, ofJsonWithin?_toJson src t hboth.1,
      fieldsOfJson?_toJson src fs hboth.2]

end

@[simp] theorem ofJson?_toJson (src : Json.Source) (t : Ty) : ofJson? src t.toJson = some t :=
  ofJsonWithin?_toJson src t (Nat.lt_succ_self _)

mutual

@[simp] theorem isData_toJson : ∀ t : Ty, t.toJson.IsData
  | .element k w => by simp [toJson]
  | .aggregate fs => (Json.isData_tagged _ _).2 (itemsAreData_fieldsToJson fs)

theorem itemsAreData_fieldsToJson : ∀ fs : List (String × Ty),
    Json.ItemsAreData (fieldsToJson fs)
  | [] => trivial
  | (n, t) :: fs => ⟨by simp [isData_toJson t], itemsAreData_fieldsToJson fs⟩

end

end Ty

/-! ## Operators -/

/-- An operator without parameters is the only one with its tag. -/
theorem Operator.ofJson?_plain (src : Json.Source) :
    ∀ op ∈ plain, ofJson? src op.toJson = some op := by
  cases src <;> decide

@[simp] theorem Operator.ofJson?_toJson (src : Json.Source) (op : Operator) :
    ofJson? src op.toJson = some op := by
  cases op with
  | tail n | shl n | shr n | pad n => simp [ofJson?, toJson, tag]
  | bits hi lo => simp [ofJson?, toJson, tag, record?]
  | _ => exact ofJson?_plain src _ (by decide)

@[simp] theorem Operator.isData_toJson (op : Operator) : op.toJson.IsData := by
  cases op <;> simp [toJson]

/-! ## Operands -/

@[simp] theorem Constant.ofJson?_toJson (c : Constant) : Constant.ofJson? c.toJson = some c := by
  simp [Constant.ofJson?, Constant.toJson, record?]

@[simp] theorem Constant.isData_toJson (c : Constant) : c.toJson.IsData := by
  simp [Constant.toJson]

namespace Operand

mutual

/-- An operand is read from its form with more levels than the form has. -/
theorem ofJsonWithin?_toJson : ∀ (a : Operand) {fuel : Nat}, a.toJson.height < fuel →
    ofJsonWithin? fuel a.toJson = some a
  | .node id, fuel + 1, _ => by simp [ofJsonWithin?, toJson]
  | .constant c, fuel + 1, _ => by simp [ofJsonWithin?, toJson]
  | .aggregate as, fuel + 1, h => by
    have has : Json.itemsHeight (listToJson as) < fuel := by
      simp only [toJson, Json.tagged, Json.height, Json.membersHeight] at h
      omega
    simp [ofJsonWithin?, toJson, list?, listOfJson?_toJson as has]

theorem listOfJson?_toJson : ∀ (as : List Operand) {fuel : Nat},
    Json.itemsHeight (listToJson as) < fuel → (listToJson as).mapM (ofJsonWithin? fuel) = some as
  | [], _, _ => rfl
  | a :: as, fuel, h => by
    have hboth : a.toJson.height < fuel ∧ Json.itemsHeight (listToJson as) < fuel := by
      simp only [listToJson, Json.itemsHeight] at h
      omega
    simp [listToJson, ofJsonWithin?_toJson a hboth.1, listOfJson?_toJson as hboth.2]

end

@[simp] theorem ofJson?_toJson (a : Operand) : ofJson? a.toJson = some a :=
  ofJsonWithin?_toJson a (Nat.lt_succ_self _)

mutual

@[simp] theorem isData_toJson : ∀ a : Operand, a.toJson.IsData
  | .node id => by simp [toJson]
  | .constant c => by simp [toJson]
  | .aggregate as => (Json.isData_tagged _ _).2 (itemsAreData_listToJson as)

theorem itemsAreData_listToJson : ∀ as : List Operand, Json.ItemsAreData (listToJson as)
  | [] => trivial
  | a :: as => ⟨isData_toJson a, itemsAreData_listToJson as⟩

end

end Operand

/-! ## Commands -/

namespace Command

@[simp] theorem ofJson?_toJson (src : Json.Source) (cmd : Command) :
    ofJson? src cmd.toJson = some cmd := by
  cases cmd <;> simp [ofJson?, toJson, nodeOfJson?, depthOfJson?, record?, Json.string?, list?_list]

@[simp] theorem isData_toJson (cmd : Command) : cmd.toJson.IsData := by
  cases cmd <;> simp [toJson, isData_list]

end Command

/-! ## Circuits -/

@[simp] theorem Location.ofJson?_toJson (l : Location) : Location.ofJson? l.toJson = some l := by
  simp [Location.ofJson?, Location.toJson, record?, Json.string?]

@[simp] theorem Location.isData_toJson (l : Location) : l.toJson.IsData := by
  simp [Location.toJson]

@[simp] theorem Role.ofJson?_toJson (r : Role) : Role.ofJson? r.toJson = some r := by
  cases r with
  | port d => simp [Role.ofJson?, Role.toJson]
  | _ => rfl

@[simp] theorem Role.isData_toJson (r : Role) : r.toJson.IsData := by
  cases r <;> simp [Role.toJson]

@[simp] theorem Origin.ofJson?_toJson (src : Json.Source) (o : Origin) :
    Origin.ofJson? src o.toJson = some o := by
  cases o with
  | defined => rfl
  | field parent index => simp [Origin.ofJson?, Origin.toJson, record?]

@[simp] theorem Origin.isData_toJson (o : Origin) : o.toJson.IsData := by
  cases o <;> simp [Origin.toJson]

@[simp] theorem Node.ofJson?_toJson (src : Json.Source) (n : Node) :
    Node.ofJson? src n.toJson = some n := by
  obtain ⟨ty, role, name, origin, loc⟩ := n
  cases name <;> simp [Node.ofJson?, Node.toJson, record?, Json.opt, Json.opt?, Json.string?]

@[simp] theorem Node.isData_toJson (n : Node) : n.toJson.IsData := by
  have hname : (Json.opt Json.string n.name).IsData := by
    cases n.name <;> trivial
  simp [Node.toJson, hname]

@[simp] theorem Port.ofJson?_toJson (p : Port) : Port.ofJson? p.toJson = some p := by
  simp [Port.ofJson?, Port.toJson, record?, Json.string?]

@[simp] theorem Port.isData_toJson (p : Port) : p.toJson.IsData := by
  simp [Port.toJson]

namespace Circuit

theorem ofJson?_toJson (src : Json.Source) (c : Circuit) : ofJson? src c.toJson = some c := by
  simp [ofJson?, toJson, nodesOfJson?, record?, Json.string?, list?_list]

theorem isData_toJson (c : Circuit) : c.toJson.IsData := by
  simp [toJson, isData_list]

/-- **Circuits come back from their texts.**  Unless its form nests too deep, a circuit is read from its
    JSON text exactly as it was, and has the same text again. -/
theorem text_round_trip {c : Circuit} (h : c.toJson.height ≤ Json.maxDepth) :
    ofText? c.jsonText = some c ∧ (ofText? c.jsonText).map jsonText = some c.jsonText := by
  have hback : ofText? c.jsonText = some c := by
    rw [ofText?, jsonText, Json.parse?_compact c.isData_toJson h, Option.bind_some, ofJson?_toJson]
  exact ⟨hback, by rw [hback, Option.map_some]⟩

/-- A circuit with a bit of everything: awkward names and no names, nested types and operands, a full
    word, an id that names nothing. -/
def motley : Circuit where
  name := "a \"b\" \\ c\n\x01 ß 𝄞"
  nodes :=
    [⟨.aggregate [("x", .aggregate [("", .element .sint (.known 0xffffffff))]),
        ("x", .element .bool .unknown)], .result, some "\t", .defined, ⟨"src/\"a\".rs", 3, 0⟩⟩,
      ⟨.element .uint .unknown, .port .output, none, .field ⟨7⟩ 0xffffffff, .unknown⟩]
  ports := [⟨"\x7f", .input, ⟨4⟩⟩]
  commands :=
    [.defPort ⟨1⟩ .output "q\r", .defReg ⟨0⟩,
      .defPrim ⟨2⟩ (.bits 5 0) [.constant ⟨.sint, .unknown, ⟨64, [0xffffffffffffffff]⟩⟩],
      .defPrim ⟨3⟩ .mux [.node ⟨9⟩, .aggregate [.aggregate [], .node ⟨1⟩], .aggregate []],
      .connect ⟨1⟩ (.node ⟨2⟩), .whenBegin (.node ⟨5⟩) 0, .otherwiseEnd 1]

theorem motley_round_trip : motley.toJson.height = 13 ∧ ofText? motley.jsonText = some motley := by
  have hheight : motley.toJson.height = 13 := by
    decide +kernel
  exact ⟨hheight, (text_round_trip (by rw [hheight]; decide)).1⟩

end Circuit

end Circuitry
