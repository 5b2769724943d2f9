import FieldSchema.Proofs.Expansion
import FieldSchema.Proofs.Keywords
import FieldSchema.Proofs.Resolution
import FieldSchema.Proofs.UnknownTags
import FieldSchema.Proofs.WrittenForm

/-!
# Keywords and examples of single values

A single value declares validation keywords and an example. The keywords are those of the last
constraint of each kind (`Validation.ofLast`). Where the value is described inline they stand in its
description, with the example. Where it is named they do not: a definition of a single value has a
type, a format and a description only.

* `Property.reach?`: what is found at a path in a description when pointers on the way are followed
  to the definitions they lead to.
* `Mapping.exists_reach?`: without a conflict among the definitions, what is found at the path of a
  node is the description of that node, or compares the same.
* `Mapping.paths`: the paths of all nodes. Without repeated field names each node is found at its
  own path (`Mapping.map_at?_paths`, `Mapping.paths_nodup`).
* `Mapping.metadata_described`: so the metadata of every unnamed single value is found at its path,
  however many names stand above it. That of a named one is not (`Mapping.shipment_code_bare`).
-/

namespace FieldSchema

/-! ## Alike keywords -/

/-- The same keywords, except perhaps for the sign of a bound that is zero. -/
structure Validation.Alike (v w : Validation) : Prop where
  pattern : v.pattern = w.pattern
  minLength : v.minLength = w.minLength
  maxLength : v.maxLength = w.maxLength
  minimum : Binary64.BoundAlike v.minimum w.minimum
  maximum : Binary64.BoundAlike v.maximum w.maximum
  oneOf : v.oneOf = w.oneOf

theorem Validation.Alike.of_eq {v w : Validation} (h : v = w) : v.Alike w := by
  subst h
  exact ⟨rfl, rfl, rfl, .inl rfl, .inl rfl, rfl⟩

theorem Validation.alike_of_same {v w : Validation} (h : v.same w) : v.Alike w := by
  obtain ⟨hpattern, hminLength, hmaxLength, hminimum, hmaximum, honeOf⟩ := same_iff.mp h
  exact ⟨hpattern, hminLength, hmaxLength, Binary64.boundAlike_of_optionSame hminimum,
    Binary64.boundAlike_of_optionSame hmaximum, honeOf⟩

/-! ## Following pointers -/

namespace Property

/-- The property one step down. -/
def child? : Property → Step → Option Property
  | .array items _ _, .element => some items
  | .object _ properties _ _, .field name => Entries.find? properties name
  | _, _ => none

/-- A pointer is replaced by the definition it leads to. -/
def follow (d : Definitions) : Property → Property
  | .ref pointer required => expand d (.ref pointer required)
  | p => p

/-- What is found at a path when pointers on the way are followed. -/
def reach? (d : Definitions) : Property → Path → Option Property
  | p, [] => some p
  | p, step :: path => ((p.follow d).child? step).bind fun q => q.reach? d path

/-- The first property is the second one or compares the same, and it has no two properties of one
name in an object. -/
structure StandsFor (p q : Property) : Prop where
  distinct : p.DistinctNames
  same : p = q ∨ p.same q

variable {p q items : Property} {properties : Entries Property} {names : List String}
  {description : Option String} {required : Bool} {pointer : String} {s : ScalarProperty}

namespace StandsFor

theorem eq_ref (h : p.StandsFor (.ref pointer required)) : p = .ref pointer required := by
  rcases h.same with heq | hsame
  · exact heq
  · cases p with
    | ref pointer' required' => exact (same_ref_iff.mp hsame).symm
    | _ => simp [Property.same] at hsame

theorem exists_scalar (h : p.StandsFor (.scalar s)) :
    ∃ own, p = .scalar own ∧ own.sample = s.sample ∧ own.validation.Alike s.validation := by
  rcases h.same with rfl | hsame
  · exact ⟨s, rfl, rfl, .of_eq rfl⟩
  · cases p with
    | scalar own =>
      obtain ⟨_, heq, hown⟩ := same_scalar_iff.mp hsame
      cases heq
      obtain ⟨-, -, -, hsample, hvalidation, -⟩ := ScalarProperty.same_iff.mp hown
      exact ⟨own, rfl, hsample, Validation.alike_of_same hvalidation⟩
    | _ => simp [Property.same] at hsame

theorem exists_items (h : p.StandsFor (.array items description required)) :
    ∃ own, p.child? .element = some own ∧ own.StandsFor items := by
  rcases h.same with rfl | hsame
  · exact ⟨items, rfl, h.distinct.of_array, .inl rfl⟩
  · cases p with
    | array own description' required' =>
      obtain ⟨_, heq, hown⟩ := same_array_iff.mp hsame
      cases heq
      exact ⟨own, rfl, h.distinct.of_array, .inr hown⟩
    | _ => simp [Property.same] at hsame

/-- An object has a counterpart of each property of the object it stands for. -/
theorem exists_property {name : String}
    (h : p.StandsFor (.object names properties description required))
    (hq : Entries.find? properties name = some q) :
    ∃ own, p.child? (.field name) = some own ∧ own.StandsFor q := by
  rcases h.same with rfl | hsame
  · exact ⟨q, hq, h.distinct.of_object (Entries.mem_of_find? hq), .inl rfl⟩
  · cases p with
    | object names' ps description' required' =>
      obtain ⟨_, heq, hfound⟩ := same_object_iff.mp hsame
      cases heq
      have hrel := hfound.found.find?_rel h.distinct.keys_nodup name
      rw [hq] at hrel
      cases hown : Entries.find? ps name with
      | none => rw [hown] at hrel; cases hrel
      | some own =>
        rw [hown] at hrel
        cases hrel with
        | some hsame =>
          exact ⟨own, hown, h.distinct.of_object (Entries.mem_of_find? hown), .inr hsame⟩
    | _ => simp [Property.same] at hsame

end StandsFor

/-- What a description shows of a single value at a path. -/
structure ShowsAt (d : Definitions) (p : Property) (path : Path) (t : Traits) : Prop where
  /-- A value that is described inline is found with its example and its keywords. -/
  found : path = [] ∨ t.refName = none →
    ∃ s, p.reach? d path = some (.scalar s) ∧ s.sample = t.extras.sample ∧
      s.validation.Alike (.ofLast t.constraints)
  /-- If no pointer is followed on the way, a bound that is zero has its sign, too. -/
  exact : ∀ s, p.HasAt path (.scalar s) →
    s.sample = t.extras.sample ∧ s.validation = .ofLast t.constraints
  /-- Below the root, a pointer is found for a named value. -/
  pointer : path ≠ [] → ∀ name, t.refName = some name →
    p.reach? d path = some (.ref (definitionRef name) t.isRequired)

end Property

namespace Mapping

variable {m n c k : Mapping} {p q own below : Property} {ds : List (String × Model)} {model : Model}
  {step : Step} {path : Path} {name : String} {type : ScalarType} {t : Traits}

theorem toProperty_ne_ref {pointer : String} {required : Bool} :
    n.toProperty ≠ .ok (.ref pointer required) := by
  intro h
  cases n with
  | scalar type t =>
    obtain ⟨_, _, -, -, heq⟩ := toProperty_scalar_eq_ok.mp h
    cases heq
  | list element t =>
    obtain ⟨_, -, heq⟩ := toProperty_list_eq_ok.mp h
    cases heq
  | object fields t =>
    obtain ⟨_, -, heq⟩ := toProperty_object_eq_ok.mp h
    cases heq

/-- There is nothing to follow in what stands for the description of a node. -/
theorem follow_eq_of_toProperty (d : Definitions) (h : n.toProperty = .ok q)
    (hpq : p.StandsFor q) : p.follow d = p := by
  cases p with
  | ref pointer required =>
    have hq : q = .ref pointer required := hpq.same.elim Eq.symm Property.same_ref_iff.mp
    exact absurd (hq ▸ h) toProperty_ne_ref
  | _ => rfl

/-- What stands for the description of a node has, one step down, what stands for the description
of the node there. -/
theorem exists_below (h : n.toProperty = .ok q) (hpq : p.StandsFor q)
    (hc : n.child? step = some c) :
    ∃ own below, p.child? step = some own ∧ c.nestedProperty = .ok below ∧
      own.StandsFor below := by
  cases n with
  | scalar type t => cases hc
  | list element t =>
    obtain ⟨items, hitems, rfl⟩ := toProperty_list_eq_ok.mp h
    cases step with
    | element =>
      cases hc
      obtain ⟨own, hown, hstands⟩ := hpq.exists_items
      exact ⟨own, items, hown, hitems, hstands⟩
    | field name => cases hc
  | object fields t =>
    obtain ⟨ps, hps, rfl⟩ := toProperty_object_eq_ok.mp h
    cases step with
    | element => cases hc
    | field name =>
      obtain ⟨below, hfind, hbelow⟩ := hps.reverse.flip.exists_find? hc
      rw [← Entries.find?_ofList] at hfind
      obtain ⟨own, hown, hstands⟩ := hpq.exists_property hfind
      exact ⟨own, below, hown, hbelow, hstands⟩

/-- A node with nodes below is no single value, so it is described inline as its definition is. -/
theorem toProperty_of_child (hmodel : n.toModel = .ok model) (hc : n.child? step = some c) :
    n.toProperty = .ok (model.inline n.isRequired none {}) := by
  rw [exists_toProperty hmodel]
  cases n with
  | scalar type t => cases hc
  | list element t =>
    obtain ⟨items, -, hmodel⟩ := bind_eq_ok.mp hmodel
    cases hmodel
    rfl
  | object fields t =>
    obtain ⟨properties, -, hmodel⟩ := bind_eq_ok.mp hmodel
    cases hmodel
    rfl

/-- The definition kept under the name of a node stands for the model of the node. -/
theorem exists_kept_standsFor (h : m.definitions = .ok ds)
    (hc : (Definitions.assemble ds).conflicts = 0) (hn : n ∈ m.nodes)
    (hname : n.refName = some name) (required : Bool) :
    ∃ model kept, n.toModel = .ok model ∧
      (Definitions.assemble ds).entries.find? name = some kept ∧
      (kept.inline required none {}).StandsFor (model.inline required none {}) := by
  obtain ⟨model, kept, hmodel, hkept, hsame⟩ := exists_kept_of_named h hc hn hname
  have hmem := Definitions.mem_of_mem_assemble (Entries.mem_of_find? hkept)
  have hnames := Model.distinctNames_inline (distinctNames_of_definitions h hmem) required none {}
  refine ⟨model, kept, hmodel, hkept, hnames, ?_⟩
  rcases hsame with rfl | hsame
  · exact .inl rfl
  · exact .inr (by rwa [Model.same_inline required none Validation.same_empty])

/-- Where the way goes on below a node, the pointer to a named one is followed. The definition may
have been made from another node of the name. -/
theorem follow_standsFor (h : m.definitions = .ok ds)
    (hc : (Definitions.assemble ds).conflicts = 0) (hn : n ∈ m.nodes)
    (hchild : n.child? step = some c) (hbelow : n.nestedProperty = .ok below)
    (hown : own.StandsFor below) :
    ∃ q, n.toProperty = .ok q ∧ (own.follow (Definitions.assemble ds)).StandsFor q := by
  rcases nestedProperty_eq_ok.mp hbelow with ⟨name, hname, rfl⟩ | ⟨-, hbelow⟩
  · obtain ⟨model, kept, hmodel, hkept, hstands⟩ :=
      exists_kept_standsFor h hc hn hname n.isRequired
    rw [← simpleRef_definitionRef name] at hkept
    rw [hown.eq_ref, Property.follow, Property.expand_ref_of_find? hkept]
    exact ⟨_, toProperty_of_child hmodel hchild, hstands⟩
  · rw [follow_eq_of_toProperty _ hbelow hown]
    exact ⟨below, hbelow, hown⟩

/-- Without a conflict, what is found at the path of a node stands for the description of that
node. -/
theorem exists_reach? (h : m.definitions = .ok ds) (hc : (Definitions.assemble ds).conflicts = 0)
    (hn : n ∈ m.nodes) (hq : n.toProperty = .ok q)
    (hpq : (p.follow (Definitions.assemble ds)).StandsFor q)
    (hk : n.at? (step :: path) = some k) :
    ∃ own below, p.reach? (Definitions.assemble ds) (step :: path) = some own ∧
      k.nestedProperty = .ok below ∧ own.StandsFor below := by
  induction path generalizing n p q step with
  | nil =>
    obtain ⟨c, hchild, hck⟩ := Option.bind_eq_some_iff.mp hk
    cases hck
    obtain ⟨own, below, hown, hbelow, hstands⟩ := exists_below hq hpq hchild
    exact ⟨own, below, by rw [Property.reach?, hown]; rfl, hbelow, hstands⟩
  | cons next path ih =>
    obtain ⟨c, hchild, hck⟩ := Option.bind_eq_some_iff.mp hk
    have hcm : c ∈ m.nodes :=
      mem_nodes_trans (mem_nodes_of_nodesBelow (mem_nodesBelow_of_child? hchild)) hn
    obtain ⟨own, below, hown, hbelow, hstands⟩ := exists_below hq hpq hchild
    obtain ⟨d, hnext, -⟩ := Option.bind_eq_some_iff.mp hck
    obtain ⟨r, hr, hstands'⟩ := follow_standsFor h hc hcm hnext hbelow hstands
    obtain ⟨last, below', hlast, hbelow', hstands''⟩ := ih hcm hr hstands' hck
    exact ⟨last, below', by rw [Property.reach?, hown]; exact hlast, hbelow', hstands''⟩

/-! ## The paths of a tree -/

mutual

/-- The path of each node of a tree, in the order of `nodes`. -/
def paths : Mapping → List Path
  | .scalar .. => [[]]
  | .list element _ => [] :: (paths element).map (.element :: ·)
  | .object fields _ => [] :: fieldPaths fields

/-- The path of each node of the fields of an object. -/
def fieldPaths : List (String × Mapping) → List Path
  | [] => []
  | (name, m) :: rest => (paths m).map (.field name :: ·) ++ fieldPaths rest

end

theorem fieldPaths_eq (fields : List (String × Mapping)) :
    fieldPaths fields = fields.flatMap fun f => f.2.paths.map (.field f.1 :: ·) := by
  induction fields with
  | nil => rfl
  | cons f fields ih => rw [fieldPaths, ih, List.flatMap_cons]

/-- No field is hidden by another one of its name. -/
theorem child?_field {fields : List (String × Mapping)} {f : String × Mapping}
    (hd : (object fields t).DistinctFields) (hf : f ∈ fields) :
    (object fields t).child? (.field f.1) = some f.2 := by
  have hnames : (Entries.keys fields.reverse).Nodup := by
    rw [Entries.keys, List.map_reverse, List.nodup_reverse]
    exact hd _ (self_mem_nodes _) fields rfl
  exact Entries.find?_of_mem hnames (List.mem_reverse.mpr hf)

/-- In a tree without repeated field names each node is found at its path. -/
theorem map_at?_paths (hd : m.DistinctFields) : m.paths.map m.at? = m.nodes.map some := by
  induction m with
  | scalar type t => rfl
  | list element t ih =>
    have helement := ih (hd.of_mem (element_mem_nodes element t))
    rw [paths, nodes, List.map_cons, List.map_cons, List.map_map, ← helement]
    rfl
  | object fields t ih =>
    have hfields : ∀ f ∈ fields,
        (f.2.paths.map (.field f.1 :: ·)).map (object fields t).at? = f.2.nodes.map some := by
      intro f hf
      rw [← ih f hf (hd.of_mem (field_mem_nodes hf t)), List.map_map]
      refine List.map_congr_left fun path _ => ?_
      rw [Function.comp_apply, at?, child?_field hd hf]
      rfl
    rw [paths, nodes, fieldPaths_eq, fieldNodes_eq, List.map_cons, List.map_cons,
      List.map_flatMap, List.map_flatMap, List.flatMap_congr hfields]
    rfl

/-- No two nodes of a tree have the same path. -/
theorem paths_nodup (hd : m.DistinctFields) : m.paths.Nodup := by
  induction m with
  | scalar type t => exact List.nodup_singleton _
  | list element t ih =>
    have helement := ih (hd.of_mem (element_mem_nodes element t))
    rw [paths, List.nodup_cons]
    exact ⟨by simp, helement.map List.cons_injective⟩
  | object fields t ih =>
    rw [paths, fieldPaths_eq, List.nodup_cons, List.nodup_flatMap]
    refine ⟨by simp, fun f hf => ?_, ?_⟩
    · exact (ih f hf (hd.of_mem (field_mem_nodes hf t))).map List.cons_injective
    · have hnames : fields.Pairwise fun f g => f.1 ≠ g.1 :=
        List.pairwise_map.mp (hd _ (self_mem_nodes _) fields rfl)
      refine hnames.imp fun hne path hf hg => ?_
      obtain ⟨_, -, rfl⟩ := List.mem_map.mp hf
      obtain ⟨_, -, heq⟩ := List.mem_map.mp hg
      exact hne (Step.field.inj (List.cons.inj heq).1).symm

/-! ## Metadata of single values -/

/-- The inline description of a single value has its metadata. -/
theorem metadata_of_toProperty (h : (scalar type t).toProperty = .ok p) :
    ∃ s, p = .scalar s ∧ s.sample = t.extras.sample ∧ s.validation = .ofLast t.constraints := by
  obtain ⟨_, _, -, -, rfl⟩ := toProperty_scalar_eq_ok.mp h
  exact ⟨_, rfl, rfl, Validation.ofConstraints_eq_ofLast t.constraints⟩

/-- Without a conflict, the description of a node shows each single value at its path. -/
theorem showsAt (h : m.definitions = .ok ds) (hc : (Definitions.assemble ds).conflicts = 0)
    (hk : k ∈ m.nodes) (hp : k.toProperty = .ok p) (hat : k.at? path = some (.scalar type t)) :
    p.ShowsAt (Definitions.assemble ds) path t := by
  cases path with
  | nil =>
    cases hat
    obtain ⟨s, rfl, hsample, hvalidation⟩ := metadata_of_toProperty hp
    exact {
      found := fun _ => ⟨s, rfl, hsample, .of_eq hvalidation⟩
      exact := fun s hs => by
        cases hs
        exact ⟨hsample, hvalidation⟩
      pointer := fun hne => absurd rfl hne }
  | cons step path =>
    have hself : p.StandsFor p := ⟨distinctNames_of_toProperty hp, .inl rfl⟩
    have hfollow : (p.follow (Definitions.assemble ds)).StandsFor p := by
      rwa [follow_eq_of_toProperty _ hp hself]
    obtain ⟨own, below, hown, hbelow, hstands⟩ := exists_reach? h hc hk hp hfollow hat
    refine ⟨fun hinline => ?_, fun s hs => ?_, fun _ name hname => ?_⟩
    · have hunnamed : (scalar type t).refName = none := hinline.resolve_left (List.cons_ne_nil _ _)
      rw [nestedProperty_of_unnamed hunnamed] at hbelow
      obtain ⟨s, rfl, hsample, hvalidation⟩ := metadata_of_toProperty hbelow
      obtain ⟨kept, rfl, hkept, halike⟩ := hstands.exists_scalar
      rw [hsample] at hkept
      rw [hvalidation] at halike
      exact ⟨kept, hown, hkept, halike⟩
    · obtain ⟨n, hn, hns⟩ := exists_node_of_hasAt hp hs
      cases hat.symm.trans hn
      rcases nestedProperty_eq_ok.mp hns with ⟨_, -, heq⟩ | ⟨-, hns⟩
      · cases heq
      · obtain ⟨_, heq, hmetadata⟩ := metadata_of_toProperty hns
        cases heq
        exact hmetadata
    · have hname : (scalar type t).refName = some name := hname
      rw [nestedProperty_of_refName hname] at hbelow
      cases hbelow
      rw [hown, hstands.eq_ref]
      rfl

/-- The definition of a named single value is its type, its format and its description. -/
theorem find?_of_named_scalar (h : m.definitions = .ok ds)
    (hc : (Definitions.assemble ds).conflicts = 0) (hn : scalar type t ∈ m.nodes)
    (hname : t.refName = some name) :
    ∃ typeName format, type.typeName = .ok typeName ∧ (scalar type t).format = .ok format ∧
      (Definitions.assemble ds).entries.find? name =
        some (.primitive typeName format t.extras.description) := by
  obtain ⟨own, kept, hown, hkept, hsame⟩ := exists_kept_of_named h hc hn hname
  obtain ⟨typeName, format, htype, hformat, rfl⟩ := toModel_scalar_eq_ok.mp hown
  refine ⟨typeName, format, htype, hformat, ?_⟩
  rw [hkept, hsame.elim id Model.same_primitive_iff.mp]

/-- **Metadata is kept where a value is described inline.** Let the names of the fields of each
object be distinct, and let the definitions of a tree be made without a conflict. Then every node
is found at a path of its own, and

* in the description of a node, each single value below it is found at its path with its example
  and its keywords, which are those of the last constraint of each kind, or a pointer is found there
  if it is named. The node may be the tree itself, the element of a list that is a parameter, or a
  field that is the body of a request;
* what is kept under the name of a single value is its type, its format and its description, and
  nothing else;
* a parameter outside the body has the keywords of the single value it was made from. -/
theorem metadata_described (hd : m.DistinctFields) (hmodel : m.toModel = .ok model)
    (h : m.definitions = .ok ds) (hc : (Definitions.assemble ds).conflicts = 0) :
    m.paths.Nodup ∧ m.paths.map m.at? = m.nodes.map some ∧
    (∀ k ∈ m.nodes, ∃ p, k.toProperty = .ok p ∧
      ∀ path type t, k.at? path = some (.scalar type t) →
        p.ShowsAt (Definitions.assemble ds) path t) ∧
    ∀ type t, .scalar type t ∈ m.nodes →
      (∀ name, t.refName = some name → ∃ typeName format, type.typeName = .ok typeName ∧
        (scalar type t).format = .ok format ∧
        (Definitions.assemble ds).entries.find? name =
          some (.primitive typeName format t.extras.description)) ∧
      ∀ settings name location hbody q,
        (scalar type t).toParameter settings name = .ok (.plain location hbody q) →
          q.validation = .ofLast t.constraints := by
  refine ⟨paths_nodup hd, map_at?_paths hd, fun k hk => ?_, fun type t hn => ⟨fun name hname =>
    find?_of_named_scalar h hc hn hname, fun settings name location hbody q hq => ?_⟩⟩
  · obtain ⟨own, hown⟩ := exists_toModel_of_mem hmodel h hk
    have hp := exists_toProperty hown
    exact ⟨_, hp, fun path type t hat => showsAt h hc hk hp hat⟩
  · rcases toParameter_eq_ok.mp hq with ⟨-, _, -, heq⟩ | ⟨_, _, -, plain, hplain, heq⟩
    · cases heq
    · cases heq
      obtain ⟨-, _, _, _, -, -, -, rfl⟩ := toPlainParameter_eq_ok.mp hplain
      exact Validation.ofConstraints_eq_ofLast t.constraints

/-- Two boxes with a weight, which differ in the sign of the least weight, a code, and a note whose
greatest length is declared twice. -/
def shipment : Mapping :=
  let weight (negative : Bool) := (ofType .double).constrained (.minimum (.zero negative))
  let box (negative : Bool) :=
    (objectOf [("weight", (weight negative).withExtras { sample := some "1.5" })]).withName "Box"
  let code := text.constrained (.pattern "[A-Z]+")
  let note := (text.constrained (.maxLength 40)).constrained (.maxLength 80)
  objectOf [("first", box true), ("second", box false),
    ("code", code.withExtras { refName := some "Code", sample := some "AB" }),
    ("note", note.withExtras { location := some .query })]

theorem metadata_described_shipment :
    ∃ model ds p s note hquery q, shipment.DistinctFields ∧ shipment.toModel = .ok model ∧
      shipment.definitions = .ok ds ∧ (Definitions.assemble ds).conflicts = 0 ∧
      shipment.toProperty = .ok p ∧
      p.reach? (Definitions.assemble ds) [.field "second", .field "weight"] = some (.scalar s) ∧
      s.sample = some "1.5" ∧ s.validation.Alike { minimum := some (.zero false) } ∧
      (Definitions.assemble ds).entries.find? "Code" = some (.primitive .string none none) ∧
      shipment.at? [.field "note"] = some note ∧
      note.toParameter {} "note" = .ok (.plain .query hquery q) ∧
      q.validation = { maxLength := some 80 } := by
  have hd : shipment.DistinctFields := by decide
  obtain ⟨-, -, hdescribed, hsingle⟩ := metadata_described hd rfl rfl rfl
  obtain ⟨p, hp, hshows⟩ := hdescribed shipment (self_mem_nodes shipment)
  obtain ⟨s, hs, hsample, hvalidation⟩ :=
    (hshows [.field "second", .field "weight"] .double _ rfl).found (.inr rfl)
  have hcode : shipment.at? [.field "code"] = some (.scalar .text _) := rfl
  obtain ⟨hkept, -⟩ := hsingle .text _ (mem_nodes_of_at? hcode)
  obtain ⟨_, _, htype, hformat, hfind⟩ := hkept "Code" rfl
  cases htype
  cases hformat
  have hnote : shipment.at? [.field "note"] = some (.scalar .text _) := rfl
  obtain ⟨-, hparameter⟩ := hsingle .text _ (mem_nodes_of_at? hnote)
  have hkeywords := hparameter {} "note" .query (by decide) _ rfl
  exact ⟨_, _, p, s, _, _, _, hd, rfl, rfl, rfl, hp, hs, hsample, hvalidation, hfind, hnote, rfl,
    hkeywords⟩

/-- The code is described by a pointer. What is kept under its name has neither the expression it
must match nor its example. -/
theorem shipment_code_bare :
    ∃ model ds t kept, shipment.DistinctFields ∧ shipment.toModel = .ok model ∧
      shipment.definitions = .ok ds ∧ (Definitions.assemble ds).conflicts = 0 ∧
      shipment.at? [.field "code"] = some (.scalar .text t) ∧
      t.extras.sample = some "AB" ∧ t.constraints = [.pattern "[A-Z]+"] ∧
      model.HasAt [.field "code"] (.ref (definitionRef "Code") false) ∧
      (Definitions.assemble ds).entries.find? "Code" = some kept ∧
      kept.toJson = .object [("type", .string "string")] := by
  refine ⟨_, _, _, _, by decide, rfl, rfl, rfl, rfl, rfl, rfl, ?_, rfl, rfl⟩
  exact .field (.tail _ (.tail _ (.head _))) (.here _)

end Mapping

end FieldSchema
