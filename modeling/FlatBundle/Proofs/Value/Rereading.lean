/-
  FlatBundle.Proofs.Value.Rereading
  ─────────────────────────────────
  **WHAT IS READ CAN BE WRITTEN AND READ AGAIN.**

  A tree in which no object repeats a name is decoded to a value from whose tree the same
  value is decoded, nodes as nodes and plain objects as plain objects at every depth; the
  same is so of documents (`reread_decoded`).

  Decoding forgets a lot: fields that a node does not have, a `null` in place of an absent
  field, the ways of writing a tag.  What an object becomes depends on whether all of its
  fields fit, and the fields change when they are written again.  So the induction is about
  readings that `Last`: what they offer is stable, and they fade into what is read back.
  The second half is what keeps an object that is no node from becoming one.
-/
import FlatBundle.Proofs.Value.Fading
import FlatBundle.Proofs.Value.Written

namespace FlatBundle

open Reading (ofJson ofItems ofPairs)

/-! ## §1. Trees without repeated names -/

namespace Json

mutual

/-- No object in the tree has two fields of one name. -/
def noRepeats : Json → Bool
  | .null | .bool _ | .num _ | .str _ => true
  | .arr items => noRepeatsItems items
  | .obj fields => decide (Pairs.keys fields).Nodup && noRepeatsFields fields

/-- No object in the items has two fields of one name. -/
def noRepeatsItems : List Json → Bool
  | [] => true
  | item :: rest => item.noRepeats && noRepeatsItems rest

/-- No object in the fields has two fields of one name. -/
def noRepeatsFields : List (String × Json) → Bool
  | [] => true
  | (_, value) :: rest => value.noRepeats && noRepeatsFields rest

end

end Json

/-! ## §2. Readings that last -/

namespace Reading

/-- What the reading offers is stable, and it fades into what is read back. -/
structure Lasts (r : Reading) : Prop where
  offers : ∀ v, r.Offers v → v.Everywhere Value.Stable
  fades : ∀ again, r.value.encode? = some again → r.Fades (ofJson again)

variable {fields : List (String × Reading)}

/-- Nothing but `null` is read as `null`. -/
theorem Lasts.eq_of_value_eq_null {r : Reading} (h : r.Lasts) (null : r.value = .null) :
    r = .scalar .null := by
  have fades := h.fades .null (by rw [null]; rfl)
  cases fades
  rfl

/-- What has no parts is read as what it is. -/
theorem lasts_scalar {json : Json} (leaf : ofJson json = .scalar json)
    (plain : (ofJson json).value.Everywhere Value.Stable)
    (written : (ofJson json).value.encode? = some json) : (ofJson json).Lasts where
  offers := by
    intro v offers
    rw [leaf] at offers plain
    cases offers
    exact plain
  fades := by
    intro again h
    obtain rfl := Option.some.inj (written.symm.trans h)
    rw [leaf]
    exact .scalar json

theorem fades_ofItems {items : List Reading} (h : ∀ item ∈ items, item.Lasts)
    {trees : List Json} (written : Encode.list? (values items) = some trees) :
    Fades (.list items) (.list (ofItems trees)) := by
  induction items generalizing trees with
  | nil =>
      obtain rfl := Option.some.inj written
      exact .nil
  | cons item rest ih =>
      obtain ⟨tree, here, written⟩ := Option.bind_eq_some_iff.1 written
      obtain ⟨others, there, same⟩ := Option.bind_eq_some_iff.1 written
      rw [← Option.some.inj same]
      exact .cons ((h item List.mem_cons_self).fades tree here)
        (ih (fun other hother => h other (List.mem_cons_of_mem _ hother)) there)

theorem lasts_list {items : List Reading} (h : ∀ item ∈ items, item.Lasts) :
    (Reading.list items).Lasts where
  offers := by
    intro v offers
    cases offers with
    | self =>
        refine .intro trivial fun child mem => ?_
        replace mem : child ∈ values items := mem
        rw [values_eq_map] at mem
        obtain ⟨item, hitem, rfl⟩ := List.mem_map.1 mem
        exact (h item hitem).offers _ (.self item)
    | item mem offers => exact (h _ mem).offers v offers
  fades := by
    intro again written
    obtain ⟨trees, there, same⟩ := Option.bind_eq_some_iff.1 written
    rw [← Option.some.inj same]
    exact fades_ofItems h there

/-! ## §3. Objects -/

/-- The values of fields in which no name repeats. -/
theorem merge_values (nodup : (Pairs.keys fields).Nodup) :
    Pairs.merge (fields.map fun field => (field.1, field.2.value))
      = fields.map fun field => (field.1, field.2.value) := by
  apply Pairs.merge_of_nodup
  rw [Pairs.keys, List.map_map]
  exact nodup

section

variable (h : ∀ field ∈ fields, field.2.Lasts)

include h

theorem everywhere_of_fieldsOffer {v : Value} (offer : FieldsOffer fields v) :
    v.Everywhere Value.Stable := by
  obtain ⟨field, hfield, offers⟩ := offer
  exact (h field hfield).offers v offers

/-- A value that may be absent is not `null` where it is there. -/
theorem optional?_ne_null {name : String} {value : Option Value}
    (made : optional? fields name (fun r => some r.value) = some value) : value ≠ some .null := by
  rintro rfl
  obtain ⟨r, mem, ne, read⟩ := exists_of_optional? made
  exact ne ((h _ mem).eq_of_value_eq_null (Option.some.inj read))

theorem stable_of_nodeOf? {tag : NodeTag} {node : Node} (made : nodeOf? tag fields = some node) :
    node.Stable := by
  have map? : ∀ {name entries}, optional? fields name Reading.map? = some entries →
      (Pairs.keys (entries.getD [])).Nodup := by
    intro name entries made
    cases entries with
    | none => exact List.nodup_nil
    | some entries =>
        obtain ⟨r, -, -, read⟩ := exists_of_optional? made
        cases r with
        | scalar | list => cases read
        | object =>
            rw [← Option.some.inj read]
            exact Pairs.nodup_keys_merge _
  cases tag <;>
    simp only [Reading.nodeOf?, Option.bind_eq_bind, Option.bind_eq_some_iff, Option.pure_def,
      Option.some.injEq, Option.map_eq_some_iff] at made
  case cls =>
    obtain ⟨base, hbase, arity, -, decorators, -, members, hmembers, statics, hstatics, rfl⟩ := made
    refine ⟨optional?_ne_null h hbase, ?_, map? hstatics⟩
    cases members with
    | none => exact List.nodup_nil
    | some members =>
        obtain ⟨r, -, -, read⟩ := exists_of_optional? hmembers
        cases r with
        | scalar | list => cases read
        | object =>
            rw [members?_object] at read
            obtain ⟨made, -, rfl⟩ := Option.map_eq_some_iff.1 read
            exact Pairs.nodup_keys_merge made
  case func =>
    obtain ⟨parameters, -, defaults, -, body, hbody, rfl⟩ := made
    exact optional?_ne_null h hbody
  case err =>
    obtain ⟨message, -, line, -, character, -, context, hcontext, module, -, rfl⟩ := made
    exact map? hcontext
  case ref =>
    obtain ⟨reference, hreference, rfl⟩ := made
    simp only [reference?, Option.orElse_eq_orElse, Option.orElse_eq_or, Option.or_eq_some_iff,
      Option.bind_eq_bind, Option.bind_eq_some_iff, Option.pure_def, Option.some.injEq]
      at hreference
    rcases hreference with ⟨_, -, _, -, _, -, rfl⟩ | ⟨-, hreference⟩
    · trivial
    · rcases hreference with ⟨_, -, _, -, _, -, rfl⟩ | ⟨-, hreference⟩
      · trivial
      · rcases hreference with ⟨_, -, rfl⟩ | ⟨-, _, -, _, -, rfl⟩ <;> trivial
  case iface =>
    rw [← made]
    trivial
  case binary | index | pre | cond | call | construct | select | spread =>
    -- nothing that is told apart depends on the fields of these
    cases node <;> simp_all [Node.Stable]

theorem fieldsFade_of_entries {fields' : List (String × Json)}
    (written : Encode.entries? (fields.map fun field => (field.1, field.2.value)) = some fields') :
    FieldsFade fields (ofPairs fields') := by
  induction fields generalizing fields' with
  | nil =>
      obtain rfl := Option.some.inj written
      exact .nil
  | cons field rest ih =>
      obtain ⟨tree, here, written⟩ := Option.bind_eq_some_iff.1 written
      obtain ⟨others, there, same⟩ := Option.bind_eq_some_iff.1 written
      rw [← Option.some.inj same]
      exact .cons ⟨rfl, (h field List.mem_cons_self).fades tree here⟩
        (ih (fun other hother => h other (List.mem_cons_of_mem _ hother)) there)

/-- What an object is as a value is stable. -/
theorem everywhere_ofFields (nodup : (Pairs.keys fields).Nodup) :
    (Reading.ofFields fields).value.Everywhere Value.Stable := by
  rw [Reading.ofFields, Reading.value]
  cases made : node? fields with
  | some node =>
      obtain ⟨tag, -, made⟩ := Option.bind_eq_some_iff.1 made
      exact .intro (stable_of_nodeOf? h made) fun child mem =>
        everywhere_of_fieldsOffer h (fieldsOffer_nodeOf? made child mem)
  | none =>
      refine .intro ⟨Pairs.nodup_keys_merge _, fun fields' written => ?_⟩ fun child mem =>
        everywhere_of_fieldsOffer h (fieldsOffer_merge mem)
      rw [merge_values nodup] at written
      exact (fieldsFade_of_entries h written).node?_eq_none made

/-- **An object lasts if its fields do.** -/
theorem lasts_ofFields (nodup : (Pairs.keys fields).Nodup) : (Reading.ofFields fields).Lasts where
  offers := by
    intro v offers
    have whole := everywhere_ofFields h nodup
    cases made : memberOfFields? fields with
    | none =>
        rw [Reading.ofFields, made] at offers whole
        cases offers with
        | self => exact whole
        | field mem offers => exact (h _ mem).offers v offers
    | some member =>
        rw [Reading.ofFields, made] at offers whole
        cases offers with
        | self => exact whole
        | field mem offers => exact (h _ mem).offers v offers
        | member mem =>
            obtain ⟨tag, -, made⟩ := Option.bind_eq_some_iff.1 made
            exact everywhere_of_fieldsOffer h (fieldsOffer_memberOf? made v mem)
  fades := by
    intro again written
    rw [Reading.ofFields, Reading.value] at written
    cases made : node? fields with
    | some node =>
        -- whatever the object was, it fades into what is written for a node
        rw [made] at written
        obtain ⟨tag, -, made⟩ := Option.bind_eq_some_iff.1 made
        have rereads : ∀ child ∈ node.children, child.Rereads := fun child mem =>
          (everywhere_of_fieldsOffer h (fieldsOffer_nodeOf? made child mem)).rereads
        obtain ⟨fields', writtenAs⟩ := Node.exists_writtenAs (stable_of_nodeOf? h made) rereads
        obtain rfl := Option.some.inj (writtenAs.encode.symm.trans written)
        exact Fades.tagged writtenAs.tag
    | none =>
        rw [made] at written
        obtain ⟨fields', there, same⟩ := Option.bind_eq_some_iff.1 written
        rw [merge_values nodup] at there
        rw [← Option.some.inj same]
        exact (fieldsFade_of_entries h there).ofFields

end

/-! ## §4. Trees -/

theorem keys_ofPairs (fields : List (String × Json)) :
    Pairs.keys (ofPairs fields) = Pairs.keys fields := by
  induction fields with
  | nil => rfl
  | cons field rest ih => exact congrArg (field.1 :: ·) ih

mutual

/-- **The reading of a tree without repeated names lasts.** -/
theorem lasts_ofJson : ∀ json : Json, json.noRepeats = true → (ofJson json).Lasts
  | .null, _ | .bool _, _ | .num _, _ | .str _, _ =>
      lasts_scalar rfl (.intro trivial (List.forall_mem_nil _)) rfl
  | .arr items, distinct => lasts_list (lasts_ofItems items distinct)
  | .obj fields, distinct => by
      rw [Json.noRepeats, Bool.and_eq_true, decide_eq_true_eq] at distinct
      refine lasts_ofFields (lasts_ofPairs fields distinct.2) ?_
      rw [keys_ofPairs]
      exact distinct.1

theorem lasts_ofItems : ∀ items : List Json, Json.noRepeatsItems items = true →
    ∀ r ∈ ofItems items, r.Lasts
  | [], _, r, mem => absurd mem List.not_mem_nil
  | item :: rest, distinct, r, mem => by
      rw [Json.noRepeatsItems, Bool.and_eq_true] at distinct
      rcases List.mem_cons.1 mem with rfl | mem
      · exact lasts_ofJson item distinct.1
      · exact lasts_ofItems rest distinct.2 r mem

theorem lasts_ofPairs : ∀ fields : List (String × Json), Json.noRepeatsFields fields = true →
    ∀ field ∈ ofPairs fields, field.2.Lasts
  | [], _, field, mem => absurd mem List.not_mem_nil
  | (name, value) :: rest, distinct, field, mem => by
      rw [Json.noRepeatsFields, Bool.and_eq_true] at distinct
      rcases List.mem_cons.1 mem with rfl | mem
      · exact lasts_ofJson value distinct.1
      · exact lasts_ofPairs rest distinct.2 field mem

end

end Reading

/-! ## §5. Documents -/

/-- The document has a written form, and it is read back from that. -/
def Document.Rereads (document : Document) : Prop :=
  ∃ json, document.encode? = some json ∧ Document.ofJson? json = some document

namespace Reading

theorem exportItem?_encode (item : ExportItem) : exportItem? (ofJson item.encode) = some item := by
  cases item <;> rfl

theorem exportDeclaration?_encode (declaration : ExportDeclaration) :
    exportDeclaration? (ofJson declaration.encode) = some declaration := by
  have found := Encode.forall_field?_ofPairs
    [("from", some (.str declaration.source)),
      ("export", declaration.items.map fun items => .arr (items.map ExportItem.encode))] (by simp)
  simp only [List.forall_mem_cons] at found
  have written : declaration.encode = .obj (Encode.fieldsOf
      [("from", some (.str declaration.source)),
        ("export", declaration.items.map fun items => .arr (items.map ExportItem.encode))]) := by
    simp [ExportDeclaration.encode, Encode.fieldsOf, Encode.optional]
  rw [written]
  show (do
    let source ← required? (ofPairs _) "from" string?
    let items ← optional? (ofPairs _) "export" fun r => r.list?.bind (·.mapM exportItem?)
    return (⟨source, items⟩ : ExportDeclaration)) = _
  rw [required?_of_field? found.1 (string?_str declaration.source),
    (restores_items exportItem?_encode declaration.items).optional? found.2.1]
  rfl

end Reading

/-- **A document is read back if its entries are.** -/
theorem Document.rereads {document : Document}
    (h : ∀ entry ∈ document.entries.toList, entry.2.Rereads) : document.Rereads := by
  have values : ∀ value ∈ document.entries.toList.map Prod.snd, value.Rereads := by
    intro value mem
    obtain ⟨entry, hentry, rfl⟩ := List.mem_map.1 mem
    exact h entry hentry
  obtain ⟨fields, written, same⟩ := Encode.rereads_entries values
  let template : List (String × Option Json) :=
    [(tagKey, some (.str "module")), ("version", some (Encode.word document.version)),
      ("metadata", some (.obj fields)),
      ("exports", document.exports.map fun exports => .arr (exports.map ExportDeclaration.encode)),
      ("importAs", document.importAs.map Json.str)]
  have found := Encode.forall_field?_ofPairs template (by simp [template, tagKey])
  simp only [template, List.forall_mem_cons] at found
  obtain ⟨htag, hversion, hmetadata, hexports, himportAs, -⟩ := found
  refine ⟨.obj (Encode.fieldsOf template), ?_, ?_⟩
  · simp [Document.encode?, written, Encode.tagged, template, Encode.fieldsOf, Encode.optional]
  · have entries : Reading.map? (ofJson (.obj fields)) = some document.entries.toList := by
      show some (Pairs.merge _) = _
      rw [same, Pairs.merge_of_nodup document.entries.nodup]
    have tag : Reading.documentTag? (ofJson (.str "module")) = some () := rfl
    have record : (ofJson (.obj (Encode.fieldsOf template))).record? Reading.documentFields
        = some (ofPairs (Encode.fieldsOf template)) := rfl
    simp only [Document.ofJson?, Reading.document?, record, template, Option.bind_eq_bind,
      Option.bind_some, Reading.defaulted?_of_field? htag tag,
      Reading.defaulted?_of_field? hversion (Reading.word?_word document.version),
      Reading.defaulted?_of_field? hmetadata entries,
      (Reading.restores_items Reading.exportDeclaration?_encode document.exports).optional?
        hexports,
      (Reading.restores_string? document.importAs).optional? himportAs]
    have same : Entries.ofList document.entries.toList = document.entries :=
      Entries.eq_of_toList (Pairs.merge_of_nodup document.entries.nodup)
    rw [same]
    rfl

/-- The values of a document that is decoded from a tree without repeated names. -/
theorem Document.everywhere_of_ofJson? {json : Json} (distinct : json.noRepeats = true)
    {document : Document} (decoded : Document.ofJson? json = some document) :
    ∀ entry ∈ document.entries.toList, entry.2.Everywhere Value.Stable := by
  intro entry mem
  exact (Reading.lasts_ofJson json distinct).offers entry.2
    (Reading.takes_document? _ document decoded entry.2 (List.mem_map_of_mem mem))

/-- **What is decoded can be written and decoded again**: a tree without repeated names is
a value that has a tree of its own, which is decoded to the same value; and if it is a
document, the same is so of the document. -/
theorem reread_decoded (json : Json) (distinct : json.noRepeats = true) :
    (∃ again, (Value.ofJson json).encode? = some again ∧ Value.ofJson again = Value.ofJson json)
      ∧ ∀ document, Document.ofJson? json = some document →
        ∃ again, document.encode? = some again ∧ Document.ofJson? again = some document := by
  refine ⟨?_, fun document decoded => Document.rereads fun entry mem => ?_⟩
  · exact ((Reading.lasts_ofJson json distinct).offers _ (.self _)).rereads
  · exact (Document.everywhere_of_ofJson? distinct decoded entry mem).rereads

/-- The tree of a document with two entries: an object with the tag of a class that is no
class, as its members are a reference, and a reference with the number of its tag and a
field too many. -/
def oddTree : Json :=
  .obj [("__symbolic", .str "module"), ("version", .num (.int 3)), ("metadata", .obj
    [("Plain", .obj [("__symbolic", .str "class"),
        ("members", .obj [("__symbolic", .str "reference"), ("name", .str "Same")])]),
      ("Same", .obj [("__symbolic", .num (.int 4)), ("name", .str "Plain"),
        ("arguments", .null), ("extra", .bool true)])])]

theorem reread_decoded_oddTree :
    oddTree.noRepeats = true
      ∧ (∃ again, (Value.ofJson oddTree).encode? = some again
        ∧ Value.ofJson again = Value.ofJson oddTree)
      ∧ ∃ document, Document.ofJson? oddTree = some document
        ∧ ∃ again, document.encode? = some again ∧ Document.ofJson? again = some document := by
  have distinct : oddTree.noRepeats = true := by decide
  obtain ⟨value, documents⟩ := reread_decoded oddTree distinct
  have decodes : (Document.ofJson? oddTree).isSome = true := by decide
  obtain ⟨document, decoded⟩ := Option.isSome_iff_exists.1 decodes
  exact ⟨distinct, value, document, decoded, documents document decoded⟩

end FlatBundle
