import Snapwebsites.SnapExpr.Node

/-! # Compiled list programs and their storage

`compile()` builds a tree with the actions of its grammar, `serialize()` writes the tree as nested tags, and
`unserialize()` reads it back. The tags and their fields are those of QtSerialization, which is a library of its own
(`QtSerialization`). What comes back is the tree but for the byte order marks in front of its texts
(`unserialize_serialize`), so a program survives exactly when it has none (`survives_iff`). -/

namespace Snapwebsites
open QString

namespace SnapExpr

/-! ### Trees -/

mutual

/-- A node and the nodes below it. -/
def Node.nodes : Node → List Node
  | .node t n v cs => .node t n v cs :: Node.nodesAll cs

def Node.nodesAll : List Node → List Node
  | [] => []
  | c :: cs => c.nodes ++ Node.nodesAll cs

end

theorem Node.nodesAll_eq : ∀ cs : List Node, Node.nodesAll cs = cs.flatMap Node.nodes
  | [] => rfl
  | c :: cs => by rw [Node.nodesAll, Node.nodesAll_eq cs, List.flatMap_cons]

theorem Node.nodes_node (t : NodeType) (n : QString) (v : Variable) (cs : List Node) :
    (Node.node t n v cs).nodes = .node t n v cs :: cs.flatMap Node.nodes := by
  rw [Node.nodes, Node.nodesAll_eq]

mutual

/-- A property that passes from the children of a node to the node holds of every node. -/
theorem Node.induction {P : Node → Prop} (h : ∀ t n v cs, (∀ c ∈ cs, P c) → P (.node t n v cs)) : ∀ n, P n
  | .node t n v cs => h t n v cs (Node.inductionAll h cs)

theorem Node.inductionAll {P : Node → Prop} (h : ∀ t n v cs, (∀ c ∈ cs, P c) → P (.node t n v cs)) :
    ∀ cs : List Node, ∀ c ∈ cs, P c
  | [], _, hc => absurd hc List.not_mem_nil
  | d :: cs, c, hc =>
    (List.mem_cons.mp hc).elim (fun heq => heq ▸ Node.induction h d) fun hc => Node.inductionAll h cs c hc

end

/-! ### The actions of the grammar -/

section Actions
variable (L : ValueLibrary)

/-- `list_expr_binary_operation()`. -/
def listExprBinaryOperation (operation : NodeType) (l r : Node) : Node := .node operation [] {} [l, r]

/-- `list_expr_unary_operation()`. -/
def listExprUnaryOperation (operation : NodeType) (i : Node) : Node := .node operation [] {} [i]

def listExprConditional (c whenTrue whenFalse : Node) : Node := .node .operationConditional [] {} [c, whenTrue, whenFalse]

def listExprList (l i : Node) : Node := .node .operationList [] {} [l, i]

mutual

/-- `list_expr_level_child()`: a child that is a list is replaced by its children, once these are levelled. -/
def listExprLevelChild : Node → Node
  | .node t n v cs => .node t n v (levelChildren cs)

def levelChildren : List Node → List Node
  | [] => []
  | .node t n v cs :: rest =>
    (if t = .operationList then levelChildren cs else [.node t n v cs]) ++ levelChildren rest

end

/-- `list_expr_level_list()`, the action of parentheses: the children are levelled whatever the type of the node. -/
def listExprLevelList (n : Node) : Node := listExprLevelChild n

def listExprFunction (name : QString) (l : Node) : Node :=
  .node .operationFunction name {} (if l.type = .operationList then (listExprLevelChild l).children else [l])

def listExprFunctionNoParam (name : QString) : Node := .node .operationFunction name {} []

/-- `list_expr_true()` and `list_expr_false()`. -/
def listExprBoolean (b : Bool) : Node := .node .literalBoolean [] { type := .bool, value := L.setBoolValue b } []

def listExprString (str : QString) : Node := .node .literalString [] (textVariable L str) []

def listExprInteger (integer : Int64) : Node :=
  .node .literalInteger [] { type := .int64, value := L.setIntegerValue 8 integer.toInt } []

def listExprFloat (floatingPoint : UInt64) : Node :=
  .node .literalFloatingPoint [] { type := .double, value := L.setDoubleValue floatingPoint } []

def listExprVariable (name : QString) : Node := .node .operationVariable name {} []

def listExprAssignment (name : QString) (i : Node) : Node := .node .operationAssignment name {} [i]

/-- The trees that the actions build; `list_expr_identity()` and `list_expr_copy_result()` pass a tree on. -/
inductive Compiled : Node → Prop
  | binaryOperation {operation : NodeType} {l r : Node} (h : operation.binary.isSome = true) :
      Compiled l → Compiled r → Compiled (listExprBinaryOperation operation l r)
  | unaryOperation {operation : NodeType} {i : Node}
      (h : operation = .operationLogicalNot ∨ operation = .operationBitwiseNot ∨ operation = .operationNegate) :
      Compiled i → Compiled (listExprUnaryOperation operation i)
  | conditional {c whenTrue whenFalse : Node} :
      Compiled c → Compiled whenTrue → Compiled whenFalse → Compiled (listExprConditional c whenTrue whenFalse)
  | list {l i : Node} : Compiled l → Compiled i → Compiled (listExprList l i)
  | levelList {n : Node} : Compiled n → Compiled (listExprLevelList n)
  | function {name : QString} {l : Node} : Compiled l → Compiled (listExprFunction name l)
  | functionNoParam {name : QString} : Compiled (listExprFunctionNoParam name)
  | boolean {b : Bool} : Compiled (listExprBoolean L b)
  | string {str : QString} : Compiled (listExprString L str)
  | integer {integer : Int64} : Compiled (listExprInteger L integer)
  | float {floatingPoint : UInt64} : Compiled (listExprFloat L floatingPoint)
  | loadVariable {name : QString} : Compiled (listExprVariable name)
  | assignment {name : QString} {i : Node} : Compiled i → Compiled (listExprAssignment name i)

end Actions

/-! ### The archive -/

/-- A field or a tag of an archive. -/
inductive Item
  | int32 (tag : String) (value : Int)
  | int64 (tag : String) (value : Int)
  | double (tag : String) (value : UInt64)
  | string (tag : String) (value : QString)
  | tag (name : String) (content : List Item)

/-- QtSerialization: an archive with a root tag and a version gives the tags and fields back in their order. -/
structure QtSerialization where
  Archive : Type
  write : String → Nat → Nat → List Item → Archive
  read : Archive → Option (List Item)
  read_write : ∀ root major minor items, read (write root major minor items) = some items

/-- `node_type_t`, in its order. -/
def NodeType.all : List NodeType :=
  [unknown, loading, operationList, operationLogicalNot, operationBitwiseNot, operationNegate, operationFunction,
    operationMultiply, operationDivide, operationModulo, operationAdd, operationSubtract, operationShiftLeft,
    operationShiftRight, operationLess, operationLessOrEqual, operationGreater, operationGreaterOrEqual, operationMinimum,
    operationMaximum, operationEqual, operationNotEqual, operationBitwiseAnd, operationBitwiseXor, operationBitwiseOr,
    operationLogicalAnd, operationLogicalXor, operationLogicalOr, operationConditional, operationAssignment,
    operationVariable, literalBoolean, literalInteger, literalFloatingPoint, literalString, nodeVariable]

def NodeType.toInt (t : NodeType) : Int := NodeType.all.idxOf t

/-- `static_cast<node_type_t>`; nothing for a number without an enumerator. -/
def NodeType.ofInt (n : Int) : Option NodeType := if 0 ≤ n then NodeType.all[n.toNat]? else none

theorem NodeType.ofInt_toInt (t : NodeType) : NodeType.ofInt t.toInt = some t := by cases t <;> rfl

section Write
variable (L : ValueLibrary)

/-- The value of a literal. -/
def writeLiteral (type : NodeType) (literal : Variable) : List Item :=
  match type with
  | .literalBoolean => [.int64 "int" (L.safeBoolValue literal.value).toInt]
  | .literalInteger => [.int64 "int" (L.safeInt64Value literal.value)]
  | .literalFloatingPoint => [.double "flt" (L.safeDoubleValue literal.value)]
  | .literalString => [.string "str" (L.stringValue literal.value)]
  | _ => []

mutual

/-- `expr_node::write()`. -/
def Node.write : Node → Item
  | .node type name literal children =>
    .tag "node" ([.int32 "type" type.toInt] ++ (if name.isEmpty then [] else [.string "name" name]) ++
      writeLiteral L type literal ++ Node.writeAll children)

def Node.writeAll : List Node → List Item
  | [] => []
  | c :: children => c.write :: Node.writeAll children

end

/-- The local variables of `expr_node::read()`, with their defaults, and the children so far. -/
structure Fields where
  type : Int := NodeType.loading.toInt
  name : QString := []
  valueInt : Int := 0
  valueDbl : UInt64 := 0
  valueStr : QString := []
  children : List Node := []

/-- The end of `expr_node::read()`, once the fields are read. -/
def Fields.node (f : Fields) : Except Failure Node :=
  match NodeType.ofInt f.type with
  | none => throw .undefined
  | some .unknown => throw (.logic "expr_node::read() loaded a node of type: node_type_t::NODE_TYPE_UNKNOWN")
  | some .literalBoolean =>
    pure (.node .literalBoolean f.name { type := .bool, value := L.setBoolValue (f.valueInt ≠ 0) } f.children)
  | some .literalInteger =>
    pure (.node .literalInteger f.name { type := .int64, value := L.setIntegerValue 8 f.valueInt } f.children)
  | some .literalFloatingPoint =>
    pure (.node .literalFloatingPoint f.name { type := .double, value := L.setDoubleValue f.valueDbl } f.children)
  | some .literalString =>
    pure (.node .literalString f.name { type := .string, value := L.setStringValue f.valueStr } f.children)
  | some type => pure (.node type f.name {} f.children)

mutual

/-- The fields that `expr_node::read()` declares, and `readTag()` for the tags of the children. An archive that was not
    written by `write()` is not looked into. -/
def readItem : Item → Fields → Except Failure Fields
  | .int32 "type" n, f => pure { f with type := n }
  | .string "name" s, f => pure { f with name := s }
  | .int64 "int" n, f => pure { f with valueInt := n }
  | .double "flt" d, f => pure { f with valueDbl := d }
  | .string "str" s, f => pure { f with valueStr := s }
  | .tag "node" content, f => do
    let fields ← readItems content {}
    let child ← fields.node L
    pure { f with children := f.children ++ [child] }
  | _, _ => throw .undefined

def readItems : List Item → Fields → Except Failure Fields
  | [], f => pure f
  | item :: items, f => do
    let f ← readItem item f
    readItems items f

end

/-- `expr_node::read()`. -/
def Node.read (content : List Item) : Except Failure Node := do
  let fields ← readItems L content {}
  fields.node L

/-- `expr_node::load()`: the first child of a node that is used only to load the data. -/
def Node.load (items : List Item) : Except Failure Node := do
  let root ← Node.read L items
  match root.children with
  | child :: _ => pure child
  | [] => throw (.logic "expr_node::get_child(0) called with an out of bounds index (max: 0)")

variable (Q : QtSerialization)

/-- `expr::serialize()`. -/
def serialize (program : Node) : Q.Archive := Q.write "expr" 1 0 [program.write L]

/-- `expr::unserialize()`. -/
def unserialize (serializedCode : Q.Archive) : Except Failure Node :=
  match Q.read serializedCode with
  | some items => Node.load L items
  | none => throw .undefined

end Write

/-- The internal variable of `expr::execute()`. -/
def piVariable (L : ValueLibrary) : Variable :=
  { name := "pi".toList, type := .double, value := L.setDoubleValue 0x400921FB54442D18 }

/-- `expr::execute()` of a program. -/
def execute (S : Server) (program : Node) (result : Variable) (e : Environment) : Except Failure (Variable × Environment) :=
  program.execute S result { e with variableMap := e.variableMap.insert "pi".toList (piVariable S.values) }

/-! ### Literals -/

section Literals
variable (L : ValueLibrary)

/-- A literal holds a value of its type, and the other nodes none. -/
def IsLiteral (type : NodeType) (literal : Variable) : Prop :=
  match type with
  | .unknown => False
  | .literalBoolean => ∃ b, literal = { type := .bool, value := L.setBoolValue b }
  | .literalInteger => ∃ n : Int64, literal = { type := .int64, value := L.setIntegerValue 8 n.toInt }
  | .literalFloatingPoint => ∃ d, literal = { type := .double, value := L.setDoubleValue d }
  | .literalString => ∃ s, literal = textVariable L s
  | _ => literal = {}

/-- The literals of a tree are literals. -/
def WellFormed (n : Node) : Prop := ∀ m ∈ n.nodes, IsLiteral L m.type m.literal

/-- A literal that was written as a text and read back. -/
def rereadLiteral (type : NodeType) (literal : Variable) : Variable :=
  if type = .literalString then textVariable L (L.stringValue literal.value) else literal

mutual

/-- A tree that was written and read back. -/
def Node.reread : Node → Node
  | .node t n v cs => .node t n (rereadLiteral L t v) (Node.rereadAll cs)

def Node.rereadAll : List Node → List Node
  | [] => []
  | c :: cs => c.reread :: Node.rereadAll cs

end

end Literals

variable {L : ValueLibrary} {t : NodeType} {name s : QString} {v : Variable} {n m : Node} {cs : List Node}

theorem Node.rereadAll_eq : ∀ cs : List Node, Node.rereadAll L cs = cs.map (Node.reread L)
  | [] => rfl
  | c :: cs => by rw [Node.rereadAll, Node.rereadAll_eq cs, List.map_cons]

theorem Node.writeAll_eq : ∀ cs : List Node, Node.writeAll L cs = cs.map (Node.write L)
  | [] => rfl
  | c :: cs => by rw [Node.writeAll, Node.writeAll_eq cs, List.map_cons]

theorem wellFormed_node : WellFormed L (.node t name v cs) ↔ IsLiteral L t v ∧ ∀ c ∈ cs, WellFormed L c := by
  simp only [WellFormed, Node.nodes_node, List.forall_mem_cons, List.mem_flatMap]
  constructor
  · rintro ⟨hv, hcs⟩
    exact ⟨hv, fun c hc m hm => hcs m ⟨c, hc, hm⟩⟩
  · rintro ⟨hv, hcs⟩
    exact ⟨hv, fun m ⟨c, hc, hm⟩ => hcs c hc m hm⟩

/-- Levelling keeps or drops nodes. -/
theorem wellFormed_levelChildren : ∀ cs : List Node, (∀ c ∈ cs, WellFormed L c) → ∀ c ∈ levelChildren cs, WellFormed L c
  | [], _, c, hc => by simp [levelChildren] at hc
  | .node t n v ds :: rest, h, c, hc => by
    have hfirst := wellFormed_node.mp (h _ List.mem_cons_self)
    rw [levelChildren, List.mem_append] at hc
    rcases hc with hc | hc
    · split at hc
      · exact wellFormed_levelChildren ds hfirst.2 c hc
      · rw [List.mem_singleton.mp hc]
        exact h _ List.mem_cons_self
    · exact wellFormed_levelChildren rest (fun d hd => h d (List.mem_cons_of_mem _ hd)) c hc

theorem wellFormed_levelChild (h : WellFormed L n) : WellFormed L (listExprLevelChild n) := by
  obtain ⟨t, name, v, cs⟩ := n
  have hn := wellFormed_node.mp h
  exact wellFormed_node.mpr ⟨hn.1, wellFormed_levelChildren cs hn.2⟩

/-- The types of the operators have no literal. -/
theorem isLiteral_binary (h : t.binary.isSome = true) : IsLiteral L t {} := by
  cases t <;> first | rfl | cases h

theorem Compiled.wellFormed (h : Compiled L n) : WellFormed L n := by
  induction h with
  | binaryOperation hoperation _ _ hl hr =>
    exact wellFormed_node.mpr ⟨isLiteral_binary hoperation, by simp [hl, hr]⟩
  | unaryOperation hoperation _ hi =>
    refine wellFormed_node.mpr ⟨?_, by simp [hi]⟩
    obtain rfl | rfl | rfl := hoperation <;> rfl
  | conditional _ _ _ hc ht hf => exact wellFormed_node.mpr ⟨rfl, by simp [hc, ht, hf]⟩
  | list _ _ hl hi => exact wellFormed_node.mpr ⟨rfl, by simp [hl, hi]⟩
  | levelList _ hn => exact wellFormed_levelChild hn
  | function _ hl =>
    refine wellFormed_node.mpr ⟨rfl, ?_⟩
    split
    · rename_i l hlist _
      obtain ⟨t, n, v, cs⟩ := l
      exact (wellFormed_node.mp (wellFormed_levelChild hl)).2
    · simp [hl]
  | functionNoParam => exact wellFormed_node.mpr ⟨rfl, by simp⟩
  | boolean => exact wellFormed_node.mpr ⟨⟨_, rfl⟩, by simp⟩
  | string => exact wellFormed_node.mpr ⟨⟨_, rfl⟩, by simp⟩
  | integer => exact wellFormed_node.mpr ⟨⟨_, rfl⟩, by simp⟩
  | float => exact wellFormed_node.mpr ⟨⟨_, rfl⟩, by simp⟩
  | loadVariable => exact wellFormed_node.mpr ⟨rfl, by simp⟩
  | assignment _ hi => exact wellFormed_node.mpr ⟨rfl, by simp [hi]⟩

/-! ### Reading what was written -/

theorem readItems_append (a b : List Item) (f : Fields) :
    readItems L (a ++ b) f = (readItems L a f >>= fun f => readItems L b f) := by
  induction a generalizing f with
  | nil => rfl
  | cons x a ih =>
    rw [List.cons_append, readItems, readItems]
    cases readItem L x f with
    | error e => rfl
    | ok g => exact ih g

/-- The fields in front of the children make the node again. -/
theorem readItems_header (h : IsLiteral L t v) (name : QString) :
    ∃ f, readItems L ([.int32 "type" t.toInt] ++ (if name.isEmpty then [] else [.string "name" name]) ++ writeLiteral L t v) {} =
        .ok f ∧ f.children = [] ∧
      ∀ cs, ({ f with children := cs } : Fields).node L = .ok (.node t name (rereadLiteral L t v) cs) := by
  have hname : readItems L ([.int32 "type" t.toInt] ++ (if name.isEmpty then [] else [.string "name" name])) {} =
      .ok { type := t.toInt, name := name } := by
    cases name <;> rfl
  rw [readItems_append, hname]
  cases t with
  | literalBoolean =>
    obtain ⟨b, rfl⟩ := h
    refine ⟨_, rfl, rfl, fun cs => ?_⟩
    have hread : decide (b.toInt ≠ 0) = b := by cases b <;> rfl
    simp only [L.safeBoolValue_set, Fields.node, NodeType.ofInt_toInt, hread]
    rfl
  | literalInteger =>
    obtain ⟨n, rfl⟩ := h
    refine ⟨_, rfl, rfl, fun cs => ?_⟩
    have hread : L.safeInt64Value (L.setIntegerValue 8 n.toInt) = n.toInt :=
      (ValueLibrary.safeIntegerValue_set 8 true n.toInt).trans (toInt64_of_lt ⟨n.le_toInt, n.toInt_lt⟩)
    simp only [Fields.node, NodeType.ofInt_toInt, hread]
    rfl
  | literalFloatingPoint =>
    obtain ⟨d, rfl⟩ := h
    refine ⟨_, rfl, rfl, fun cs => ?_⟩
    simp only [L.safeDoubleValue_set, Fields.node, NodeType.ofInt_toInt]
    rfl
  | literalString => exact ⟨_, rfl, rfl, fun cs => rfl⟩
  | unknown => exact h.elim
  | _ =>
    obtain rfl : v = {} := h
    exact ⟨_, rfl, rfl, fun cs => rfl⟩

theorem readItems_children (h : ∀ c ∈ cs, ∀ f, readItem L (c.write L) f = .ok { f with children := f.children ++ [c.reread L] }) :
    ∀ f, readItems L (cs.map (Node.write L)) f = .ok { f with children := f.children ++ cs.map (Node.reread L) } := by
  induction cs with
  | nil => intro f; simp [readItems]; rfl
  | cons c cs ih =>
    intro f
    rw [List.map_cons, readItems, h c List.mem_cons_self]
    have hcs := ih (fun d hd => h d (List.mem_cons_of_mem _ hd)) { f with children := f.children ++ [c.reread L] }
    rw [List.append_assoc, List.singleton_append, ← List.map_cons] at hcs
    exact hcs

/-- A node is read behind the children that are there already. -/
theorem readItem_write : ∀ n : Node, WellFormed L n →
    ∀ f, readItem L (n.write L) f = .ok { f with children := f.children ++ [n.reread L] } := by
  refine Node.induction fun t name v cs ih h f => ?_
  obtain ⟨hv, hcs⟩ := wellFormed_node.mp h
  obtain ⟨g, hg, hempty, hnode⟩ := readItems_header hv name
  have hchildren := readItems_children (fun c hc => ih c hc (hcs c hc)) g
  rw [hempty, List.nil_append] at hchildren
  have hfields : readItems L ([.int32 "type" t.toInt] ++ (if name.isEmpty then [] else [.string "name" name]) ++
      writeLiteral L t v ++ Node.writeAll L cs) {} = .ok { g with children := cs.map (Node.reread L) } := by
    rw [readItems_append, hg, Node.writeAll_eq]
    exact hchildren
  rw [Node.write, readItem, hfields, Node.reread, Node.rereadAll_eq]
  change ((Fields.node L { g with children := cs.map (Node.reread L) }) >>= fun child =>
    pure { f with children := f.children ++ [child] }) = _
  rw [hnode]
  rfl

/-- What is unserialized is the tree with its texts read back. -/
theorem unserialize_serialize (Q : QtSerialization) (h : WellFormed L n) :
    unserialize L Q (serialize L Q n) = .ok (n.reread L) := by
  have hitems : readItems L [n.write L] {} = .ok { children := [n.reread L] } := by
    rw [readItems, readItem_write n h]
    rfl
  simp only [unserialize, serialize, Q.read_write, Node.load, Node.read, hitems]
  rfl

/-! ### Byte order marks -/

/-- No text of the tree starts with a byte order mark. -/
def Unmarked (n : Node) : Prop := ∀ m ∈ n.nodes, m.type = .literalString → (decodeUtf8 0 m.literal.value).head? ≠ some bom

theorem unmarked_node : Unmarked (.node t name v cs) ↔
    (t = .literalString → (decodeUtf8 0 v.value).head? ≠ some bom) ∧ ∀ c ∈ cs, Unmarked c := by
  simp only [Unmarked, Node.nodes_node, List.forall_mem_cons, List.mem_flatMap]
  constructor
  · rintro ⟨hv, hcs⟩
    exact ⟨hv, fun c hc m hm => hcs m ⟨c, hc, hm⟩⟩
  · rintro ⟨hv, hcs⟩
    exact ⟨hv, fun m ⟨c, hc, hm⟩ => hcs c hc m hm⟩

theorem fromUtf8_eq_self_iff : fromUtf8 s = s ↔ s.head? ≠ some bom := by
  refine ⟨fun h hbom => ?_, fromUtf8_eq_self⟩
  have hlength := (fromUtf8_length s).2 hbom
  rw [h] at hlength
  omega

theorem rereadLiteral_eq_self (h : IsLiteral L t v) :
    rereadLiteral L t v = v ↔ (t = .literalString → (decodeUtf8 0 v.value).head? ≠ some bom) := by
  by_cases ht : t = .literalString
  · subst ht
    obtain ⟨s, rfl⟩ := h
    have htext : decodeUtf8 0 (textVariable L s).value = s := by
      rw [textVariable, L.setStringValue_eq, decodeUtf8_utf8]
    have hreread : rereadLiteral L .literalString (textVariable L s) = textVariable L (fromUtf8 s) := by
      have hvalue : L.stringValue (textVariable L s).value = fromUtf8 s := stringValue_set s
      rw [rereadLiteral, if_pos rfl, hvalue]
    rw [hreread, htext, ← fromUtf8_eq_self_iff]
    simp only [true_imp_iff]
    exact ⟨fun heq => setStringValue_inj (congrArg Variable.value heq), fun heq => by rw [heq]⟩
  · exact iff_of_true (if_neg ht) fun h => absurd h ht

/-- A tree is read back as it was exactly when no text of it is marked. -/
theorem reread_eq_self : ∀ n : Node, WellFormed L n → (n.reread L = n ↔ Unmarked n) := by
  refine Node.induction fun t name v cs ih h => ?_
  obtain ⟨hv, hcs⟩ := wellFormed_node.mp h
  rw [unmarked_node, ← rereadLiteral_eq_self hv, Node.reread, Node.rereadAll_eq, Node.node.injEq]
  have hmap : cs.map (Node.reread L) = cs ↔ ∀ c ∈ cs, c.reread L = c := by
    have hinj := List.map_inj_left (l := cs) (f := Node.reread L) (g := id)
    rwa [List.map_id] at hinj
  simp only [true_and, hmap]
  exact and_congr_right fun _ => forall₂_congr fun c hc => ih c hc (hcs c hc)

/-- A program that is stored comes back as it was, and runs as it did. -/
structure Survives (S : Server) (Q : QtSerialization) (n : Node) : Prop where
  tree : unserialize S.values Q (serialize S.values Q n) = .ok n
  execute : ∀ result e, (unserialize S.values Q (serialize S.values Q n) >>= fun n => execute S n result e) =
    execute S n result e

/-- Every compiled program without a byte order mark in front of a text survives, and no other one. -/
theorem survives_iff (S : Server) (Q : QtSerialization) {n : Node} (h : Compiled S.values n) :
    Survives S Q n ↔ Unmarked n := by
  have hread := unserialize_serialize Q h.wellFormed
  rw [← reread_eq_self n h.wellFormed]
  constructor
  · intro hs
    rw [hs.tree] at hread
    exact (Except.ok.inj hread).symm
  · intro heq
    rw [heq] at hread
    refine ⟨hread, fun result e => ?_⟩
    rw [hread]
    rfl

/-- The program `f(1, "a")`. -/
theorem survives_iff_call : Survives ⟨.network, [], id⟩
      ⟨List Item, fun _ _ _ items => items, some, fun _ _ _ _ => rfl⟩
      (listExprFunction ['f'] (listExprList (listExprInteger .network 1) (listExprString .network ['a']))) ↔
    Unmarked (listExprFunction ['f'] (listExprList (listExprInteger .network 1) (listExprString .network ['a']))) :=
  survives_iff _ _ (.function (.list .integer .string))

/-- A text that starts with a byte order mark. -/
theorem not_survives : ¬ (∀ (S : Server) (Q : QtSerialization) (n : Node), Compiled S.values n → Survives S Q n) := by
  intro hall
  have hmarked : Compiled .network (listExprString .network [bom, 'a']) := .string
  have hs := (hall ⟨.network, [], id⟩ ⟨List Item, fun _ _ _ items => items, some, fun _ _ _ _ => rfl⟩ _ hmarked).tree
  rw [unserialize_serialize _ hmarked.wellFormed] at hs
  exact (reread_eq_self _ hmarked.wellFormed).mp (Except.ok.inj hs) _ List.mem_cons_self rfl rfl

end SnapExpr
end Snapwebsites
