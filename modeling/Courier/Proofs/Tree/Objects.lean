import Courier.Proofs.Json.Fields
import Courier.Proofs.Tree.Levels

/-!
# What an object tells of its node

The object of a node holds the fields of the payload between others that every kind has. No key comes twice, so each field is read back
as it was put in (`Tree.HasLevels.shows`), and a payload is told by its kind, its fields and its return value (`Payload.ext_fields`).
The objects inside it are its own, then those inside the objects of its children, then those of its return value
(`Tree.objects_jsonFrom`).
-/

namespace Courier

/-! ## Kinds and payloads -/

theorem Kind.ofName?_name (k : Kind) : Kind.ofName? k.name = some k := by
  cases k <;> rfl

theorem Kind.name_injective : Function.Injective Kind.name := by
  intro k k' h
  have hsome : some k = some k' := by rw [← k.ofName?_name, ← k'.ofName?_name, h]
  exact Option.some.inj hsome

namespace Json

/-- The text that a value is, if it is one. -/
def text? : Json → Option String
  | text s => some s
  | _ => none

/-- The items of an array. -/
def items : Json → List Json
  | array items => items
  | _ => []

/-- The texts among the items of an array. -/
def texts (value : Json) : List String :=
  value.items.filterMap text?

/-- The pairs of texts among the items of an array. -/
def pairs (value : Json) : List (String × String) :=
  value.items.filterMap (fun item =>
    match item.texts with
    | [first, second] => some (first, second)
    | _ => none)

theorem texts_ofTexts (ss : List String) : (ofTexts ss).texts = ss := by
  show (ss.map text).filterMap text? = ss
  rw [List.filterMap_map]
  exact List.filterMap_some

theorem text?_ofText? (s : Option String) : (ofText? s).text? = s := by
  cases s <;> rfl

theorem pairs_array (fields : List (String × String)) : (array (fields.map (fun (n, t) => ofTexts [n, t]))).pairs = fields := by
  show (fields.map (fun (n, t) => ofTexts [n, t])).filterMap _ = fields
  rw [List.filterMap_map]
  refine Eq.trans (List.filterMap_congr (fun field _ => ?_)) List.filterMap_some
  show (match (ofTexts [field.1, field.2]).texts with
    | [first, second] => some (first, second)
    | _ => none) = some field
  rw [texts_ofTexts]

end Json

namespace Payload

/-- The payload of a kind whose fields are given, as far as the kind has them. -/
def ofFields (kind : Kind) (field : String → Json) (returnValue : Option NodeId) : Payload :=
  let text (key : String) : String := (field key).text?.getD ""
  match kind with
  | .comment => comment (text "text")
  | .integerLiteral => literal .integer (text "value")
  | .decimalLiteral => literal .decimal (text "value")
  | .hexLiteral => literal .hex (text "value")
  | .binaryLiteral => literal .binary (text "value")
  | .booleanLiteral => literal .boolean (text "value")
  | .stringLiteral => literal .string (text "value")
  | .arrayLiteral => arrayLiteral
  | .nil => nil
  | .variable => «variable» (text "name") (field "type_name").text?
  | .inst => inst (text "name") (field "type_name").text?
  | .tuple => tuple (field "fields").texts
  | .namedTuple => namedTuple (field "fields").pairs
  | .groupedExpression => groupedExpression
  | .message => message (text "name") returnValue
  | .sendMessage => sendMessage
  | .assignment => assignment
  | .returnExpression => returnExpression
  | .param => param (text "name") (text "type_name")
  | .messageDeclaration => messageDeclaration (field "name").text?
  | .messageBlock => messageBlock
  | .scope => scope (if text "visibility" = Visibility.publicly.word then .publicly else .privately)
  | .classBlock => classBlock (text "name") (field "superclass").text?
  | .recordBlock => recordBlock (text "name") (field "superclass").text?
  | .statementsBlock => statementsBlock
  | .namespaceBlock => namespaceBlock (text "name")
  | .codeFragmentBlock => codeFragmentBlock
  | .moduleBlock => moduleBlock (text "name") (field "version").text?

/-- Its fields, its kind and its return value tell a payload. -/
theorem ofFields_fields (p : Payload) : ofFields p.kind (fun key => (p.fields.lookup key).getD .null) p.returnValue = p := by
  cases p with
  | literal k value => cases k <;> rfl
  | «variable» name typeName => exact congrArg («variable» name) (Json.text?_ofText? typeName)
  | inst name typeName => exact congrArg (inst name) (Json.text?_ofText? typeName)
  | tuple types => exact congrArg tuple (Json.texts_ofTexts types)
  | namedTuple fields => exact congrArg namedTuple (Json.pairs_array fields)
  | messageDeclaration name => exact congrArg messageDeclaration (Json.text?_ofText? name)
  | scope visibility => cases visibility <;> rfl
  | classBlock name superclass => exact congrArg (classBlock name) (Json.text?_ofText? superclass)
  | recordBlock name superclass => exact congrArg (recordBlock name) (Json.text?_ofText? superclass)
  | moduleBlock name version => exact congrArg (moduleBlock name) (Json.text?_ofText? version)
  | comment | arrayLiteral | nil | groupedExpression | message | sendMessage | assignment | returnExpression | param | messageBlock
  | statementsBlock | namespaceBlock | codeFragmentBlock => rfl

theorem ext_fields {p p' : Payload} (hkind : p.kind = p'.kind) (hfields : ∀ key, p.fields.lookup key = p'.fields.lookup key)
    (hvalue : p.returnValue = p'.returnValue) : p = p' := by
  rw [← ofFields_fields p, ← ofFields_fields p']
  simp only [hkind, hvalue, hfields]

/-- The keys that every object may have. -/
def commonKeys : List String :=
  ["kind", "line", "column", "flags", "comments", "return_value", "children"]

theorem nodup_keys (p : Payload) : (p.fields.map Prod.fst).Nodup := by
  cases p <;> simp [fields]

theorem not_common (p : Payload) : ∀ key ∈ p.fields.map Prod.fst, key ∉ commonKeys := by
  cases p <;> simp [fields, commonKeys]

theorem lookup_common (p : Payload) {key : String} (h : key ∈ commonKeys) : p.fields.lookup key = none := by
  refine List.lookup_eq_none_iff.2 (fun field hfield => bne_iff_ne.2 (fun heq => ?_))
  exact p.not_common _ (List.mem_map_of_mem hfield) (heq ▸ h)

/-- The fields of a payload are texts and arrays. -/
theorem objects_of_mem (p : Payload) : ∀ field ∈ p.fields, field.2.objects = [] := by
  cases p <;> simp [fields, Json.objects, Json.objects_ofTexts, Json.objects_ofText?, Json.objectsOfItems_eq, List.flatMap_map]

end Payload

/-! ## Objects of nodes -/

/-- The fields of a node's object, with the texts of its comments and the values of its return value and its children. -/
def Node.fields (n : Node) (texts : List String) (value : Option Json) (children : List Json) : List (String × Json) :=
  [("kind", .text n.kind.name), ("line", .number n.location.line), ("column", .number n.location.column)]
    ++ n.payload.fields
    ++ ((n.flags.map Json.ofTexts).map (fun flags => ("flags", flags))).toList
    ++ Json.fieldOfItems "comments" (texts.map .text)
    ++ (value.map (fun value => ("return_value", value))).toList
    ++ Json.fieldOfItems "children" children

namespace Json

theorem lookup_toList_map (key : String) (value : Option Json) (key' : String) :
    (value.map (fun value => (key, value))).toList.lookup key' = if key' = key then value else none := by
  cases value with
  | none => exact (ite_self _).symm
  | some value =>
    by_cases h : key' = key
    · simp [h]
    · simp [List.lookup_cons, h, beq_false_of_ne]

theorem lookup_fieldOfItems (key : String) (items : List Json) (key' : String) :
    (fieldOfItems key items).lookup key' = if key' = key ∧ items ≠ [] then some (.array items) else none := by
  cases items with
  | nil => simp [fieldOfItems]
  | cons item items =>
    by_cases h : key' = key
    · simp [fieldOfItems, h]
    · simp [fieldOfItems, List.lookup_cons, h, beq_false_of_ne]

theorem sublist_keys_toList_map (key : String) (value : Option Json) :
    ((value.map (fun value => (key, value))).toList.map Prod.fst).Sublist [key] := by
  cases value with
  | none => exact List.nil_sublist _
  | some value => exact List.Sublist.refl _

theorem sublist_keys_fieldOfItems (key : String) (items : List Json) : ((fieldOfItems key items).map Prod.fst).Sublist [key] := by
  cases items with
  | nil => exact List.nil_sublist _
  | cons item items => exact List.Sublist.refl _

end Json

namespace Node

variable (n : Node) (texts : List String) (value : Option Json) (children : List Json)

/-- No key comes twice. -/
theorem nodup_keys : ((n.fields texts value children).map Prod.fst).Nodup := by
  let first := ["kind", "line", "column"]
  let last := ["flags", "comments", "return_value", "children"]
  have hcommon : (n.payload.fields.map Prod.fst ++ (first ++ last)).Nodup := by
    refine List.nodup_append.2 ⟨n.payload.nodup_keys, by decide, fun key hkey key' hkey' heq => ?_⟩
    exact n.payload.not_common key hkey (heq ▸ hkey')
  have hperm : (n.payload.fields.map Prod.fst ++ (first ++ last)).Perm (first ++ n.payload.fields.map Prod.fst ++ last) := by
    rw [← List.append_assoc]
    exact List.perm_append_comm.append_right last
  have hall : (first ++ n.payload.fields.map Prod.fst ++ last).Nodup := hperm.nodup_iff.1 hcommon
  refine List.Nodup.sublist ?_ hall
  simp only [fields, List.map_append, List.append_assoc]
  refine (List.Sublist.refl _).append ((List.Sublist.refl _).append ?_)
  exact (Json.sublist_keys_toList_map _ _).append ((Json.sublist_keys_fieldOfItems _ _).append
    ((Json.sublist_keys_toList_map _ _).append (Json.sublist_keys_fieldOfItems _ _)))

theorem lookup_fields (key : String) : (n.fields texts value children).lookup key =
    if key = "kind" then some (.text n.kind.name)
    else if key = "line" then some (.number n.location.line)
    else if key = "column" then some (.number n.location.column)
    else if key = "flags" then n.flags.map Json.ofTexts
    else if key = "comments" then if texts = [] then none else some (.ofTexts texts)
    else if key = "return_value" then value
    else if key = "children" then if children = [] then none else some (.array children)
    else n.payload.fields.lookup key := by
  rw [fields]
  simp only [List.lookup_append, Json.lookup_toList_map, Json.lookup_fieldOfItems]
  by_cases hkey : key ∈ Payload.commonKeys
  · have hpayload : n.payload.fields.lookup key = none := n.payload.lookup_common hkey
    rw [hpayload]
    simp only [Payload.commonKeys, List.mem_cons, List.not_mem_nil, or_false] at hkey
    rcases hkey with rfl | rfl | rfl | rfl | rfl | rfl | rfl <;> simp [List.lookup_cons, Json.ofTexts]
  · simp only [Payload.commonKeys, List.mem_cons, List.not_mem_nil, or_false, not_or] at hkey
    simp [hkey, List.lookup_cons, beq_false_of_ne]

/-- Only children and return values have objects inside them, and the keys put the children first. -/
theorem objects_fields : (Json.ofFields (n.fields texts value children)).objects =
    .ofFields (n.fields texts value children) :: (children ++ value.toList).flatMap Json.objects := by
  have hbarren : ∀ f ∈ [("kind", .text n.kind.name), ("line", .number n.location.line), ("column", .number n.location.column)]
      ++ n.payload.fields ++ ((n.flags.map Json.ofTexts).map (fun flags => ("flags", flags))).toList
      ++ Json.fieldOfItems "comments" (texts.map .text), f.2.objects = [] := by
    intro f hf
    simp only [List.mem_append] at hf
    rcases hf with ((hbase | hpayload) | hflags) | hcomments
    · simp only [List.mem_cons, List.not_mem_nil, or_false] at hbase
      rcases hbase with rfl | rfl | rfl <;> rfl
    · exact n.payload.objects_of_mem f hpayload
    · cases hnone : n.flags with
      | none => simp [hnone] at hflags
      | some flags =>
        obtain rfl : f = ("flags", Json.ofTexts flags) := by simpa [hnone] using hflags
        exact Json.objects_ofTexts flags
    · cases texts with
      | nil => nomatch hcomments
      | cons text texts =>
        obtain rfl := List.mem_singleton.1 hcomments
        exact Json.objects_ofTexts (text :: texts)
  rw [fields, List.append_assoc, Json.objects_ofFields_append hbarren]
  refine congrArg (_ :: ·) ?_
  have harray : ∀ items : List Json, (Json.array items).objects = items.flatMap Json.objects :=
    fun items => by rw [Json.objects, Json.objectsOfItems_eq]
  cases value with
  | none => cases children <;> simp [Json.fieldOfItems, Json.insertField, harray]
  | some value =>
    have hless : ¬ "return_value" < "children" := by decide
    cases children <;> simp [Json.fieldOfItems, Json.insertField, harray, hless]

end Node

namespace Tree

/-- The object of a node. -/
def object (t : Tree) (id : NodeId) : Json :=
  t.jsonFrom t.size id

/-- What an object shows of a node: its kind, its place, the fields of its payload and, where there are any, its flags, the texts of its
comments, its return value and its children. -/
structure Shows (t : Tree) (n : Node) (json : Json) : Prop where
  kind : json.field? "kind" = some (.text n.kind.name)
  line : json.field? "line" = some (.number n.location.line)
  column : json.field? "column" = some (.number n.location.column)
  payload {key : String} (h : key ∉ Payload.commonKeys) : json.field? key = n.payload.fields.lookup key
  flags : json.field? "flags" = n.flags.map Json.ofTexts
  comments : json.field? "comments" =
    if n.comments.filterMap t.commentText? = [] then none else some (.ofTexts (n.comments.filterMap t.commentText?))
  returnValue : json.field? "return_value" = n.payload.returnValue.map t.object
  children : json.field? "children" = if n.children = [] then none else some (.array (n.children.map t.object))

section

variable {t : Tree} {levels : Nat} {id : NodeId} {n : Node} {texts : List String} {value : Option Json} {children : List Json}

theorem toJson_eq {root : NodeId} (hroot : t.root = some root) : t.toJson = t.object root := by
  rw [toJson, hroot]
  rfl

theorem jsonFrom_succ (hn : t.node? id = some n) (levels : Nat) : t.jsonFrom (levels + 1) id =
    .ofFields (n.fields (n.comments.filterMap t.commentText?) (n.payload.returnValue.map (t.jsonFrom levels))
      (n.children.map (t.jsonFrom levels))) := by
  rw [jsonFrom, hn, Node.fields, Option.map_map, Option.map_map]
  rfl

theorem HasLevels.jsonFrom_eq_object (h : t.HasLevels levels id) (h' : t.HasLevels t.size id) : t.jsonFrom levels id = t.object id := by
  rw [← h.jsonFrom_eq t.size, Nat.add_comm, h'.jsonFrom_eq, object]

/-- The object of a node is made of those of its return value and its children. -/
theorem HasLevels.object_eq (h : t.HasLevels t.size id) (hn : t.node? id = some n) : t.object id =
    .ofFields (n.fields (n.comments.filterMap t.commentText?) (n.payload.returnValue.map t.object) (n.children.map t.object)) := by
  rw [object, ← h.jsonFrom_eq 1, jsonFrom_succ hn]
  rfl

/-- Every field is read back from the object. -/
theorem HasLevels.shows (h : t.HasLevels t.size id) (hn : t.node? id = some n) : t.Shows n (t.object id) := by
  have hfield : ∀ key, (t.object id).field? key = (n.fields (n.comments.filterMap t.commentText?) (n.payload.returnValue.map t.object)
      (n.children.map t.object)).lookup key := by
    intro key
    rw [h.object_eq hn]
    exact Json.field?_ofFields _ (n.nodup_keys _ _ _) key
  simp only [n.lookup_fields] at hfield
  refine ⟨hfield _, hfield _, hfield _, fun {key} hkey => ?_, hfield _, hfield _, hfield _, ?_⟩
  · simp only [Payload.commonKeys, List.mem_cons, List.not_mem_nil, or_false, not_or] at hkey
    rw [hfield]
    simp only [hkey, if_false]
  · have hchildren := hfield "children"
    simpa using hchildren

/-- The objects inside that of a node are its own and those of its offspring. -/
theorem objects_jsonFrom (hn : t.node? id = some n) (levels : Nat) : (t.jsonFrom (levels + 1) id).objects =
    t.jsonFrom (levels + 1) id :: n.offspring.flatMap (fun c => (t.jsonFrom levels c).objects) := by
  rw [jsonFrom_succ hn, n.objects_fields, Node.offspring, List.flatMap_append, List.flatMap_append, List.flatMap_map]
  cases n.payload.returnValue <;> rfl

end

end Tree

end Courier
