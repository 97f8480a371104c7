/-
  Equal listings are listings of equal commands.

  Nothing in a listing is quoted, and names may have any characters.  A line break in a name can hide a
  command (`lineBreak_ambiguous`).  As long as no name has one, the listing says which commands it
  shows, in which order.

  1. No line has a line break in it (`Names.oneLine_lines`), so equal listings have equal lines
     (`join_inj`).
  2. The blanks in front of a line are the indentation, for no command begins with one; so equal lines
     show equal commands with equal text behind them (`line_inj`).
  3. Commands are known from their lines but for the names of ports (`Command.legible`).  What stands
     behind the name of a port has been shown above, or is a ground type, and then the name ends at the
     last colon (`port_name_eq`).
  4. So by induction on the lines, with equal commands in front and equal text behind each of them that
     is no port, the commands are equal (`commands_eq_of_lines`).

  Different command streams therefore have different listings, and one fingerprint for both is a
  collision of the digest at the bytes of the two listings.
-/
import Circuitry.Proofs.Listing.Entries
import Circuitry.Proofs.Listing.Readable
import Circuitry.Proofs.Stored.Reading

namespace Circuitry

/-! ## Texts without line breaks -/

/-- The text has no line break. -/
def OneLine (s : String) : Prop := '\n' ∉ s.toList

instance (s : String) : Decidable (OneLine s) := inferInstanceAs (Decidable (¬ '\n' ∈ s.toList))

theorem oneLine_append {a b : String} : OneLine (a ++ b) ↔ OneLine a ∧ OneLine b := by
  simp [OneLine]

theorem OneLine.append {a b : String} (ha : OneLine a) (hb : OneLine b) : OneLine (a ++ b) :=
  oneLine_append.2 ⟨ha, hb⟩

theorem oneLine_number (n : UInt32) : OneLine (toString n) := fun h =>
  absurd (isDigit_of_mem_number h) (by decide)

theorem NodeId.oneLine (id : NodeId) : OneLine id.text :=
  .append (by decide) (oneLine_number id.index)

theorem Width.oneLine (w : Width) : OneLine w.text := by
  cases w with
  | unknown => decide
  | known n => exact .append (.append (by decide) (oneLine_number n)) (by decide)

theorem oneLine_groundText (kind : Kind) (width : Width) : OneLine (groundText kind width) := by
  cases kind with
  | bool => exact (by decide : OneLine "Bool")
  | uint | sint => exact .append (by decide) width.oneLine

theorem Constant.oneLine (k : Constant) : OneLine k.text := by
  obtain ⟨kind, width, value⟩ := k
  cases kind with
  | bool =>
    show OneLine ("Bool(" ++ (if value.isZero then "false" else "true") ++ ")")
    split <;> decide
  | uint | sint =>
    have hvalue : OneLine value.text := Bits.not_mem_text (by decide) (by decide)
    exact .append (.append (.append (oneLine_groundText _ width) (by decide)) hvalue) (by decide)

/-- Items between commas have no line break if none of them has one. -/
theorem not_mem_listed {α : Type} {f : α → List Char} {xs : List α} (h : ∀ x ∈ xs, '\n' ∉ f x) :
    '\n' ∉ listed f xs := by
  cases xs with
  | nil => exact List.not_mem_nil
  | cons x xs =>
    rw [List.forall_mem_cons] at h
    rw [listed_cons, List.mem_append, List.mem_flatMap]
    rintro (hx | ⟨y, hy, hmem⟩)
    · exact h.1 hx
    · rcases List.mem_append.1 hmem with hsep | hmem
      · exact absurd hsep (by decide)
      · exact h.2 y hy hmem

mutual

theorem Operand.oneLine (a : Operand) : OneLine a.text := by
  cases a with
  | node id => exact id.oneLine
  | constant k => exact k.oneLine
  | aggregate xs =>
    have hitems : OneLine (Operand.texts xs) := by
      rw [OneLine, Operand.toList_texts]
      exact not_mem_listed (Operand.oneLine_of_mem xs)
    exact .append (.append (by decide) hitems) (by decide)

theorem Operand.oneLine_of_mem (xs : List Operand) : ∀ a ∈ xs, OneLine a.text := by
  cases xs with
  | nil => exact List.forall_mem_nil _
  | cons x xs => exact List.forall_mem_cons.2 ⟨x.oneLine, Operand.oneLine_of_mem xs⟩

end

theorem Operator.oneLine (op : Operator) : OneLine op.mnemonic := by
  cases op <;> simp [OneLine, mnemonic]

theorem Command.oneLine_argumentsText (op : Operator) (args : List Operand) :
    OneLine (argumentsText op args) := by
  rw [OneLine, toList_argumentsText]
  refine not_mem_listed fun x _ => ?_
  cases x with
  | inl a => exact a.oneLine
  | inr n => exact oneLine_number n

/-- The text of a command has no line break, unless it is a port with one in its name. -/
theorem Command.oneLine (cmd : Command) (h : ∀ p ∈ cmd.port?, OneLine p.name) :
    OneLine cmd.text := by
  cases cmd with
  | defPort node direction name =>
    have hdirection : OneLine direction.text := by cases direction <;> decide
    exact .append (.append (.append (.append hdirection (by decide)) node.oneLine) (by decide))
      (h _ rfl)
  | defWire node | defReg node => exact .append (by decide) node.oneLine
  | defPrim result op args =>
    exact .append (.append (.append (.append (.append result.oneLine (by decide)) op.oneLine)
      (by decide)) (oneLine_argumentsText op args)) (by decide)
  | connect target source =>
    exact .append (.append target.oneLine (by decide)) source.oneLine
  | whenBegin pred depth =>
    exact .append (.append (.append (.append (by decide) pred.oneLine) (by decide))
      (oneLine_number depth)) (by decide)
  | whenEnd depth | altBegin depth | otherwiseEnd depth =>
    exact .append (.append (by decide) (oneLine_number depth)) (by decide)

namespace Ty

mutual

/-- The names of fields in a type, at any depth. -/
def fieldNames : Ty → List String
  | .element _ _ => []
  | .aggregate fields => namesOf fields

/-- The names of fields, and of the fields in their types. -/
def namesOf : List (String × Ty) → List String
  | [] => []
  | (name, ty) :: fields => name :: (ty.fieldNames ++ namesOf fields)

end

mutual

/-- The text of a type has no line break, unless a field has one in its name. -/
theorem oneLine (ty : Ty) (h : ∀ name ∈ ty.fieldNames, OneLine name) : OneLine ty.text := by
  cases ty with
  | element kind width => exact oneLine_groundText kind width
  | aggregate fields => exact .append (.append (by decide) (oneLine_fields fields h)) (by decide)

theorem oneLine_fields (fields : List (String × Ty)) (h : ∀ name ∈ namesOf fields, OneLine name) :
    OneLine (fieldsText fields) := by
  cases fields with
  | nil => decide
  | cons field rest =>
    obtain ⟨name, ty⟩ := field
    rw [namesOf, List.forall_mem_cons, List.forall_mem_append] at h
    have hfield : OneLine (name ++ ": " ++ ty.text) :=
      .append (.append h.1 (by decide)) (oneLine ty h.2.1)
    cases rest with
    | nil => exact hfield
    | cons next rest =>
      exact .append (.append hfield (by decide)) (oneLine_fields (next :: rest) h.2.2)

end

end Ty

/-! ## Lines -/

theorem toList_join (x : String) (xs : List String) :
    (String.join ((x :: xs).map (· ++ "\n"))).toList =
      x.toList ++ '\n' :: (String.join (xs.map (· ++ "\n"))).toList := by
  simp [String.toList_join]

/-- Lines without line breaks are known from their listing. -/
theorem join_inj {xs ys : List String} (hxs : ∀ x ∈ xs, OneLine x) (hys : ∀ y ∈ ys, OneLine y)
    (h : (String.join (xs.map (· ++ "\n"))).toList = (String.join (ys.map (· ++ "\n"))).toList) :
    xs = ys := by
  induction xs generalizing ys with
  | nil =>
    cases ys with
    | nil => rfl
    | cons y ys =>
      rw [toList_join] at h
      exact absurd h.symm (List.append_ne_nil_of_right_ne_nil _ (List.cons_ne_nil _ _))
  | cons x xs ih =>
    rw [toList_join] at h
    cases ys with
    | nil => exact absurd h (List.append_ne_nil_of_right_ne_nil _ (List.cons_ne_nil _ _))
    | cons y ys =>
      rw [List.forall_mem_cons] at hxs hys
      rw [toList_join] at h
      obtain ⟨hline, hrest⟩ := until_inj hxs.1 hys.1 h
      rw [String.toList_inj.1 hline, ih hxs.2 hys.2 hrest]

namespace Command

/-- No command begins with a blank. -/
theorem stops_text (cmd : Command) (s : List Char) : Stops (· == ' ') (cmd.text.toList ++ s) := by
  have hne : cmd.word.toList ≠ [] := by
    rcases cmd with ⟨_, _ | _, _⟩ | _ | _ | _ | _ | _ | _ | _ | _ <;>
      simp [word, Direction.text, NodeId.text]
  have hblank : ∀ c ∈ cmd.word.toList, (c == ' ') = false := by
    intro c hc
    rw [beq_eq_false_iff_ne]
    rintro rfl
    exact cmd.not_mem_word hc
  rw [toList_text]
  exact .of_head? (head?_append_of_some (List.head?_eq_some_head hne) _) (hblank _ (List.head_mem hne))

end Command

namespace Circuit

variable {c d : Circuit} {x y : Command}

/-- No name in the circuit has a line break: its own, those of ports, those of ports, wires and
    registers in the table, and those of fields. -/
structure Names (c : Circuit) : Prop where
  circuit : OneLine c.name
  ports : ∀ p ∈ c.ports, OneLine p.name
  nodes : ∀ n ∈ c.nodes, ∀ name ∈ n.name, OneLine name
  fields : ∀ n ∈ c.nodes, ∀ name ∈ n.ty.fieldNames, OneLine name

theorem oneLine_indentation (level : Nat) : OneLine (indentation level) := by
  simp [OneLine, indentation]

/-- What a listing shows of an entry. -/
def entryText (n : Node) : String :=
  " : " ++ n.ty.text ++ match n.role, n.name with
    | .port _, _ => ""
    | _, none => ""
    | _, some name => " (" ++ name ++ ")"

theorem definitionText_eq (c : Circuit) (cmd : Command) :
    c.definitionText cmd = ((cmd.defines?.bind c.node?).map entryText).getD "" := by
  unfold definitionText
  cases cmd.defines?.bind c.node? <;> rfl

/-- Behind a command stands nothing, or a blank. -/
theorem noDigit_definitionText (c : Circuit) (cmd : Command) :
    NoDigit (c.definitionText cmd).toList := by
  rw [definitionText_eq]
  cases cmd.defines?.bind c.node? with
  | none => exact nofun
  | some n =>
    have hblank : (entryText n).toList.head? = some ' ' := by simp [entryText]
    exact .of_head? hblank (by decide)

theorem Names.oneLine_definitionText (h : c.Names) (cmd : Command) :
    OneLine (c.definitionText cmd) := by
  rw [definitionText_eq]
  cases hnode : cmd.defines?.bind c.node? with
  | none => decide
  | some n =>
    obtain ⟨id, -, hid⟩ := Option.bind_eq_some_iff.1 hnode
    have hn : n ∈ c.nodes := List.mem_of_getElem? hid
    refine .append (.append (by decide) (n.ty.oneLine (h.fields n hn))) ?_
    split
    · decide
    · decide
    · next name hname _ =>
      exact .append (.append (by decide) (h.nodes n hn name hname)) (by decide)

theorem Names.oneLine_lines (h : c.Names) {cs : List Command}
    (hcs : ∀ cmd ∈ cs, ∀ p ∈ cmd.port?, OneLine p.name) (level : Nat) :
    ∀ line ∈ c.lines level cs, OneLine line := by
  induction cs generalizing level with
  | nil => exact List.forall_mem_nil _
  | cons cmd cs ih =>
    rw [List.forall_mem_cons] at hcs
    refine List.forall_mem_cons.2 ⟨?_, ih hcs.2 _⟩
    exact .append (.append (oneLine_indentation _) (cmd.oneLine hcs.1)) (h.oneLine_definitionText cmd)

/-- Equal lines show equal commands with equal text behind them, whatever their indentation. -/
theorem line_inj {i j : Nat} (h : indentation i ++ x.text ++ c.definitionText x =
    indentation j ++ y.text ++ d.definitionText y) :
    x.text.toList ++ (c.definitionText x).toList = y.text.toList ++ (d.definitionText y).toList := by
  have hlist := congrArg String.toList h
  simp only [String.toList_append, List.append_assoc, indentation, String.toList_ofList] at hlist
  have hblanks : ∀ {n : Nat}, ∀ ch ∈ List.replicate n ' ', (ch == ' ') = true := by
    intro n ch hch
    rw [List.eq_of_mem_replicate hch]
    rfl
  exact (span_inj hblanks hblanks (x.stops_text _) (y.stops_text _) hlist).2

/-! ## Names of ports -/

/-- What does not have a character begins behind its last place. -/
theorem last_inj {ch : Char} {a b s t : List Char} (hs : ch ∉ s) (ht : ch ∉ t)
    (h : a ++ ch :: s = b ++ ch :: t) : a = b := by
  have hreverse : s.reverse ++ ch :: a.reverse = t.reverse ++ ch :: b.reverse := by
    simpa using congrArg List.reverse h
  exact List.reverse_injective
    (until_inj (by rwa [List.mem_reverse]) (by rwa [List.mem_reverse]) hreverse).2

theorem not_mem_groundText (kind : Kind) (width : Width) :
    ':' ∉ (groundText kind width).toList := by
  have hwidth : ':' ∉ width.text.toList := by
    cases width with
    | unknown => decide
    | known n =>
      intro h
      have hdigit : ':' ∈ (toString n).toList := by simpa [Width.text] using h
      exact absurd (isDigit_of_mem_number hdigit) (by decide)
  cases kind <;> simp [groundText, Kind.text, hwidth]

/-- A plain entry shows a ground type and nothing else. -/
theorem entryText_of_plain {n : Node} (h : n.Plain) :
    ∃ s, (entryText n).toList = ' ' :: ':' :: s ∧ ':' ∉ s := by
  obtain ⟨⟨kind, width, hty⟩, hname⟩ := h
  have htext : entryText n = " : " ++ groundText kind width := by
    rw [entryText, hty]
    rcases hname with hname | ⟨d, hrole⟩
    · rw [hname]
      cases n.role <;> exact String.append_empty
    · rw [hrole]
      exact String.append_empty
  refine ⟨' ' :: (groundText kind width).toList, by simp [htext], ?_⟩
  simpa using not_mem_groundText kind width

/-- Lines of commands that define one node show the same entry. -/
theorem definitionText_of_defines {x' : Command} {id : NodeId} (hx : x.defines? = some id)
    (hx' : x'.defines? = some id) : c.definitionText x = c.definitionText x' := by
  rw [definitionText_eq, definitionText_eq, hx, hx']

theorem definitionText_of_entry {id : NodeId} {n : Node} (hx : x.defines? = some id)
    (hn : c.nodes[id.index.toNat]? = some n) : c.definitionText x = entryText n := by
  have hnode : c.node? id = some n := hn
  rw [definitionText_eq, hx, Option.bind_some, hnode]
  rfl

/-- Both circuits show the same behind each of the commands that is no port. -/
def ShownAlike (c d : Circuit) (past : List Command) : Prop :=
  ∀ cmd ∈ past, cmd.port? = none → c.definitionText cmd = d.definitionText cmd

/-- The name of a port ends where the entry begins, which is the same as in a line above or has no
    colon behind its first one. -/
theorem port_name_eq (hc : Draft.Tabled c.nodes c.ports c.commands)
    (hd : Draft.Tabled d.nodes d.ports d.commands) {past xs ys : List Command} {id : NodeId}
    {direction : Direction} {m n : String}
    (hxs : c.commands = past ++ .defPort id direction m :: xs)
    (hys : d.commands = past ++ .defPort id direction n :: ys) (hpast : c.ShownAlike d past)
    (h : m.toList ++ (c.definitionText (.defPort id direction m)).toList =
      n.toList ++ (d.definitionText (.defPort id direction n)).toList) : m = n := by
  by_cases hbeside : Draft.DefinedBeside past id
  · obtain ⟨cmd, hcmd, hport, hdefines⟩ := hbeside
    have hshown : c.definitionText (.defPort id direction m) =
        d.definitionText (.defPort id direction n) := by
      rw [definitionText_of_defines rfl hdefines, hpast cmd hcmd hport]
      exact definitionText_of_defines hdefines rfl
    rw [hshown] at h
    exact String.toList_inj.1 (List.append_cancel_right h)
  · obtain ⟨p, hp, hplain⟩ := hc.declared past id direction m xs hxs
    obtain ⟨q, hq, hplain'⟩ := hd.declared past id direction n ys hys
    obtain ⟨s, hs, hcolon⟩ := entryText_of_plain (hplain.resolve_right hbeside)
    obtain ⟨t, ht, hcolon'⟩ := entryText_of_plain (hplain'.resolve_right hbeside)
    rw [definitionText_of_entry rfl hp, definitionText_of_entry rfl hq, hs, ht] at h
    have hname : (m.toList ++ [' ']) ++ ':' :: s = (n.toList ++ [' ']) ++ ':' :: t := by simpa using h
    exact String.toList_inj.1 (List.append_cancel_right (last_inj hcolon hcolon' hname))

/-! ## Command streams -/

theorem commands_eq_of_lines (hc : Draft.Tabled c.nodes c.ports c.commands)
    (hd : Draft.Tabled d.nodes d.ports d.commands) (hsuits : ∀ k ∈ c.constants, k.Suits)
    (hsuits' : ∀ k ∈ d.constants, k.Suits) {xs ys : List Command} : ∀ {past : List Command}
      {i j : Nat}, c.commands = past ++ xs → d.commands = past ++ ys → c.ShownAlike d past →
        c.lines i xs = d.lines j ys → xs = ys := by
  induction xs generalizing ys with
  | nil =>
    intro past i j _ _ _ h
    cases ys with
    | nil => rfl
    | cons y ys => cases h
  | cons x xs ih =>
    intro past i j hxs hys hpast h
    cases ys with
    | nil => cases h
    | cons y ys =>
      obtain ⟨hline, hrest⟩ := List.cons_eq_cons.1 h
      have hmem : x ∈ c.commands := by simp [hxs]
      have hmem' : y ∈ d.commands := by simp [hys]
      have hx : ∀ k ∈ x.constants, k.Suits := fun k hk =>
        hsuits k (List.mem_flatMap.2 ⟨x, hmem, hk⟩)
      have hy : ∀ k ∈ y.constants, k.Suits := fun k hk =>
        hsuits' k (List.mem_flatMap.2 ⟨y, hmem', hk⟩)
      -- the first commands are equal, and show the same if they are no ports
      have hfirst : x = y ∧ (x.port? = none → c.definitionText x = d.definitionText x) := by
        rcases Command.legible hx hy (c.noDigit_definitionText x) (d.noDigit_definitionText y)
          (line_inj hline) with ⟨rfl, hshown⟩ | ⟨id, direction, m, n, rfl, rfl, hname⟩
        · exact ⟨rfl, fun _ => String.toList_inj.1 hshown⟩
        · obtain rfl := port_name_eq hc hd hxs hys hpast hname
          exact ⟨rfl, nofun⟩
      obtain ⟨rfl, hshown⟩ := hfirst
      have hpast' : c.ShownAlike d (past ++ [x]) := by
        intro cmd hcmd
        rcases List.mem_append.1 hcmd with hcmd | hcmd
        · exact hpast cmd hcmd
        · exact List.mem_singleton.1 hcmd ▸ hshown
      rw [ih (by simpa using hxs) (by simpa using hys) hpast' hrest]

/-- Some description returns the circuit. -/
def Described (c : Circuit) : Prop :=
  ∃ (s : Script) (m m' : Script.Memory) (name : String) (settings : Settings.Elaboration)
    (o : Script.Outcome), m.Reached ∧ s.describe? m name settings = some (o, m') ∧ o.result = .ok c

theorem commands_eq_of_listing (hc : c.Described) (hd : d.Described) (hcnames : c.Names)
    (hdnames : d.Names) (h : c.listing = d.listing) : c.commands = d.commands := by
  obtain ⟨s, m, m', name, settings, o, hm, hdescribe, hresult⟩ := hc
  obtain ⟨s', k, k', name', settings', o', hk, hdescribe', hresult'⟩ := hd
  have htabled := Script.tabled_of_describe? hdescribe hresult
  have htabled' := Script.tabled_of_describe? hdescribe' hresult'
  have hall : ∀ {c : Circuit}, c.Names → Draft.Tabled c.nodes c.ports c.commands →
      ∀ line ∈ ("circuit " ++ c.name ++ " :") :: c.lines 1 c.commands, OneLine line := by
    intro c hnames htabled
    have hports : ∀ cmd ∈ c.commands, ∀ p ∈ cmd.port?, OneLine p.name := fun cmd hcmd p hp =>
      hnames.ports p (htabled.ports ▸ List.mem_filterMap.2 ⟨cmd, hcmd, hp⟩)
    refine List.forall_mem_cons.2 ⟨?_, hnames.oneLine_lines hports 1⟩
    exact .append (.append (by decide) hnames.circuit) (by decide)
  have hlines := join_inj (hall hcnames htabled) (hall hdnames htabled') (congrArg String.toList h)
  have hstart : c.ShownAlike d [] := nofun
  exact commands_eq_of_lines htabled htabled' (Script.suits_of_describe? hm hdescribe hresult)
    (Script.suits_of_describe? hk hdescribe' hresult') rfl rfl hstart (List.cons_eq_cons.1 hlines).2

end Circuit

/-- The digest does not tell the two byte strings apart. -/
def Digest.Collides (xs ys : List UInt8) : Prop := xs ≠ ys ∧ ofBytes xs = ofBytes ys

namespace Circuit

/-- **Listings are unambiguous.**  Circuits that descriptions return and that have no line break in a
    name have equal command streams if their listings are equal.  So if two command streams share a
    fingerprint, then the digest collides at the bytes of their listings. -/
theorem listing_unambiguous {c d : Circuit} (hc : c.Described) (hd : d.Described) (hcnames : c.Names)
    (hdnames : d.Names) : (c.listing = d.listing → c.commands = d.commands) ∧
      (c.commands ≠ d.commands → c.fingerprint = d.fingerprint →
        Digest.Collides c.listing.toUTF8.toList d.listing.toUTF8.toList) := by
  have hequal := commands_eq_of_listing hc hd hcnames hdnames
  refine ⟨hequal, fun hne hdigest => ⟨fun hbytes => hne (hequal ?_), hdigest⟩⟩
  have harray := congrArg List.toByteArray hbytes
  rw [toByteArray_toList, toByteArray_toList] at harray
  exact String.toByteArray_inj.1 harray

/-- A circuit of inputs only. -/
def ofInputs (names : List String) : Circuit where
  name := "t"
  nodes := names.map fun name =>
    ⟨.element .uint (.known 4), .port .input, some name, .defined, .unknown⟩
  ports := names.mapIdx fun i name => ⟨name, .input, ⟨.ofNat i⟩⟩
  commands := names.mapIdx fun i name => .defPort ⟨.ofNat i⟩ .input name

/-- A description that returns it. -/
def declaresInputs : List String → Script
  | [] => .done
  | name :: names =>
    .call ⟨"", false, some name⟩ (.declare (.port .input) name (.leaf (.template .uint (.known 4))))
      (declaresInputs names)

theorem names_input {name : String} (h : OneLine name) : (ofInputs [name]).Names where
  circuit := (by decide : OneLine "t")
  ports := by simpa [ofInputs] using h
  nodes := by simpa [ofInputs] using h
  fields := by simp [ofInputs, Ty.fieldNames]

/-- A name may look like a name with a type behind it. -/
theorem typedName_unambiguous : (ofInputs ["x"]).Described ∧ (ofInputs ["x : UInt<4>"]).Described ∧
    (ofInputs ["x"]).Names ∧ (ofInputs ["x : UInt<4>"]).Names ∧
    (ofInputs ["x"]).listing ≠ (ofInputs ["x : UInt<4>"]).listing := by
  have hplain : (ofInputs ["x"]).Described :=
    ⟨declaresInputs ["x"], .empty, _, "t", .default, _, .empty, rfl, rfl⟩
  have htyped : (ofInputs ["x : UInt<4>"]).Described :=
    ⟨declaresInputs ["x : UInt<4>"], .empty, _, "t", .default, _, .empty, rfl, rfl⟩
  have hnames : (ofInputs ["x"]).Names := names_input (by decide)
  have hnames' : (ofInputs ["x : UInt<4>"]).Names := names_input (by decide)
  refine ⟨hplain, htyped, hnames, hnames', fun h => ?_⟩
  exact absurd ((listing_unambiguous hplain htyped hnames hnames').1 h) (by decide)

/-- **A line break in a name can hide a command.**  One input with a line break in its name is listed
    like two. -/
theorem lineBreak_ambiguous : (ofInputs ["x", "y"]).Described ∧
    (ofInputs ["x : UInt<4>\n  input n1 y"]).Described ∧
    (ofInputs ["x", "y"]).listing = (ofInputs ["x : UInt<4>\n  input n1 y"]).listing ∧
    (ofInputs ["x", "y"]).commands ≠ (ofInputs ["x : UInt<4>\n  input n1 y"]).commands := by
  refine ⟨⟨declaresInputs ["x", "y"], .empty, _, "t", .default, _, .empty, rfl, rfl⟩,
    ⟨declaresInputs ["x : UInt<4>\n  input n1 y"], .empty, _, "t", .default, _, .empty, rfl, rfl⟩,
    ?_, ?_⟩
  · decide +kernel
  · decide

end Circuit

end Circuitry
