import FieldSchema.Proofs.UnknownTags

/-!
# Places and the first unknown tag

A place leads down by positions, the element of a list being its only child and the fields of an
object its children in order. Unlike a `Path` it also leads to a field whose name is used again
later. Places are compared as lists of numbers, by `List.Lex`: a node comes before those below it,
and a child with all that is below before the next one.

* `Mapping.atPlace?`: the node at a place. `Mapping.places`: the places of all nodes.
  `Mapping.map_atPlace?_places` and `Mapping.places_pairwise` say that `Mapping.nodes` lists the
  nodes in the order of their places.
* `Mapping.ReachesTag`: an unknown tag at a place that no name hides from the root.
  `Mapping.IsFirstTag` is the first place with such a tag.
* `Mapping.exists_isFirstTag`: the search through `Mapping.inlined` finds the tag of that place.
* `Mapping.toProperty_error_iff`: when a description fails, and with which error. The order of places
  is that of the nodes.
-/

namespace FieldSchema

/-- Positions of children, the first step down first. -/
abbrev Place := List Nat

namespace Mapping

variable {m n c : Mapping} {place : Place} {tag : String}

/-! ## Nodes at places -/

/-- The nodes one step down, in order. -/
def children : Mapping → List Mapping
  | .scalar .. => []
  | .list element _ => [element]
  | .object fields _ => fields.map Prod.snd

/-- The node at a place. -/
def atPlace? : Mapping → Place → Option Mapping
  | m, [] => some m
  | m, i :: place => m.children[i]?.bind fun c => c.atPlace? place

theorem atPlace?_cons {i : Nat} (h : m.children[i]? = some c) (place : Place) :
    m.atPlace? (i :: place) = c.atPlace? place := by
  rw [atPlace?, h, Option.bind_some]

/-- Induction on trees, by the children of a node. -/
theorem children_ind {motive : Mapping → Prop}
    (h : ∀ m, (∀ c ∈ m.children, motive c) → motive m) (m : Mapping) : motive m := by
  induction m with
  | scalar type t => exact h _ nofun
  | list element t ih =>
    apply h
    intro c hc
    rw [List.mem_singleton.mp hc]
    exact ih
  | object fields t ih =>
    apply h
    intro c hc
    obtain ⟨f, hf, rfl⟩ := List.mem_map.mp hc
    exact ih f hf

theorem nodes_eq_children (m : Mapping) : m.nodes = m :: m.children.flatMap nodes := by
  rw [nodes_eq]
  cases m with
  | scalar type t => rfl
  | list element t => rw [nodesBelow, children, List.flatMap_singleton]
  | object fields t => rw [nodesBelow, children, List.flatMap_map]

theorem inlined_eq (m : Mapping) : m.inlined = m :: m.children.flatMap nestedInlined := by
  cases m with
  | scalar type t => rfl
  | list element t => rw [inlined_list, children, List.flatMap_singleton]
  | object fields t => rw [inlined_object, children, List.flatMap_map]

mutual

/-- The place of each node of a tree, in the order of `nodes`. -/
def places : Mapping → List Place
  | .scalar .. => [[]]
  | .list element _ => [] :: (places element).map (0 :: ·)
  | .object fields _ => [] :: fieldPlaces 0 fields

/-- The place of each node of fields that stand from a position on. -/
def fieldPlaces (i : Nat) : List (String × Mapping) → List Place
  | [] => []
  | (_, m) :: rest => (places m).map (i :: ·) ++ fieldPlaces (i + 1) rest

end

theorem fieldPlaces_eq (i : Nat) (fields : List (String × Mapping)) :
    fieldPlaces i fields =
      ((fields.map Prod.snd).zipIdx i).flatMap fun e => e.1.places.map (e.2 :: ·) := by
  induction fields generalizing i with
  | nil => rfl
  | cons f fields ih =>
    rw [fieldPlaces, ih, List.map_cons, List.zipIdx_cons, List.flatMap_cons]

theorem places_eq (m : Mapping) :
    m.places = [] :: m.children.zipIdx.flatMap fun e => e.1.places.map (e.2 :: ·) := by
  cases m with
  | scalar type t => rfl
  | list element t => rw [places, children, List.zipIdx_singleton, List.flatMap_singleton]
  | object fields t => rw [places, children, fieldPlaces_eq]

/-- Each node is found at its place. -/
theorem map_atPlace?_places (m : Mapping) : m.places.map m.atPlace? = m.nodes.map some := by
  induction m using children_ind with
  | h m ih =>
    have hchild : ∀ e ∈ m.children.zipIdx,
        (e.1.places.map (e.2 :: ·)).map m.atPlace? = e.1.nodes.map some := by
      intro e he
      have hat := List.mem_zipIdx_iff_getElem?.mp he
      rw [← ih e.1 (List.mem_of_getElem? hat), List.map_map]
      exact List.map_congr_left fun place _ => atPlace?_cons hat place
    have hchildren : m.children.zipIdx.flatMap (fun e => e.1.nodes.map some) =
        m.children.flatMap fun c => c.nodes.map some := by
      conv_rhs => rw [← List.zipIdx_map_fst 0 m.children]
      rw [List.flatMap_map]
    rw [places_eq, nodes_eq_children, List.map_cons, List.map_cons, List.map_flatMap,
      List.map_flatMap, List.flatMap_congr hchild, hchildren]
    rfl

/-- The places of a tree are listed in their order. -/
theorem places_pairwise (m : Mapping) : m.places.Pairwise (List.Lex (· < ·)) := by
  induction m using children_ind with
  | h m ih =>
    have hpositions : m.children.zipIdx.Pairwise fun d e => d.2 < e.2 := by
      apply List.pairwise_map.mp
      rw [List.zipIdx_map_snd]
      exact List.pairwise_lt_range'
    rw [places_eq, List.pairwise_cons, List.pairwise_flatMap]
    refine ⟨fun below hbelow => ?_, fun e he => ?_, hpositions.imp fun hlt below hd other he => ?_⟩
    · obtain ⟨e, -, hbelow⟩ := List.mem_flatMap.mp hbelow
      obtain ⟨place, -, rfl⟩ := List.mem_map.mp hbelow
      exact .nil
    · have hmem := List.mem_of_getElem? (List.mem_zipIdx_iff_getElem?.mp he)
      exact List.pairwise_map.mpr ((ih e.1 hmem).imp .cons)
    · obtain ⟨place, -, rfl⟩ := List.mem_map.mp hd
      obtain ⟨place', -, rfl⟩ := List.mem_map.mp he
      exact .rel hlt

/-! ## Tags within reach -/

/-- At this place stands a node of an unknown tag, and no node on the way is named, itself included.
A name of the root does not count. -/
structure ReachesTag (m : Mapping) (place : Place) (tag : String) : Prop where
  tag_eq : (m.atPlace? place).bind unknownTag? = some tag
  unnamed : ∀ above, above ≠ [] → above <+: place → (m.atPlace? above).bind refName = none

/-- This place is the first with an unknown tag within reach. The order of places is that in which
`nodes` lists the nodes, by `map_atPlace?_places` and `places_pairwise`. -/
structure IsFirstTag (m : Mapping) (place : Place) (tag : String) : Prop where
  reaches : m.ReachesTag place tag
  first : ∀ other otherTag, m.ReachesTag other otherTag →
    other = place ∨ List.Lex (· < ·) place other

theorem reachesTag_nil : m.ReachesTag [] tag ↔ m.unknownTag? = some tag := by
  constructor
  · intro h
    exact h.tag_eq
  · intro h
    refine ⟨h, fun above hne habove => ?_⟩
    exact absurd (List.prefix_nil.mp habove) hne

theorem reachesTag_cons {i : Nat} :
    m.ReachesTag (i :: place) tag ↔
      ∃ c, m.children[i]? = some c ∧ c.refName = none ∧ c.ReachesTag place tag := by
  constructor
  · rintro ⟨htag, hunnamed⟩
    cases hc : m.children[i]? with
    | none =>
      rw [atPlace?, hc] at htag
      cases htag
    | some c =>
      have hbelow (below : Place) (hbegins : below <+: place) :
          (c.atPlace? below).bind refName = none := by
        rw [← atPlace?_cons hc]
        exact hunnamed (i :: below) (List.cons_ne_nil i below) (by simpa using hbegins)
      rw [atPlace?_cons hc] at htag
      exact ⟨c, rfl, hbelow [] (List.nil_prefix), htag, fun below _ => hbelow below⟩
  · rintro ⟨c, hc, hname, htag, hunnamed⟩
    refine ⟨by rw [atPlace?_cons hc, htag], fun above hne habove => ?_⟩
    cases above with
    | nil => exact absurd rfl hne
    | cons j below =>
      obtain ⟨rfl, hbelow⟩ := List.cons_prefix_cons.mp habove
      rw [atPlace?_cons hc]
      by_cases hnil : below = []
      · rw [hnil]
        exact hname
      · exact hunnamed below hnil hbelow

/-- There is one first place. -/
theorem IsFirstTag.unique {other : Place} {otherTag : String} (h : m.IsFirstTag place tag)
    (hother : m.IsFirstTag other otherTag) : place = other := by
  rcases h.first other otherTag hother.reaches with rfl | hlt
  · rfl
  · rcases hother.first place tag h.reaches with rfl | hgt
    · rfl
    · exact absurd hgt (List.lex_asymm Nat.lt_asymm hlt)

/-! ## The first tag -/

/-- The first unknown tag that the description of a node takes in. -/
def firstTag? (m : Mapping) : Option String := m.inlined.findSome? unknownTag?

/-- The same for a node in a nested place. -/
def nestedFirstTag? (m : Mapping) : Option String := m.nestedInlined.findSome? unknownTag?

theorem nestedFirstTag?_eq_some :
    c.nestedFirstTag? = some tag ↔ c.refName = none ∧ c.firstTag? = some tag := by
  rw [nestedFirstTag?, nestedInlined]
  cases c.refName <;> simp [firstTag?]

/-- A node that has children has no tag. -/
theorem unknownTag?_of_children {i : Nat} (h : m.children[i]? = some c) :
    m.unknownTag? = none := by
  cases m with
  | scalar type t => cases h
  | list element t => rfl
  | object fields t => rfl

theorem findSome?_flatMap {α β γ : Type} (f : α → List β) (g : β → Option γ) (xs : List α) :
    (xs.flatMap f).findSome? g = xs.findSome? fun x => (f x).findSome? g := by
  induction xs with
  | nil => rfl
  | cons x xs ih =>
    rw [List.flatMap_cons, List.findSome?_append, ih, List.findSome?_cons]
    cases (f x).findSome? g <;> rfl

theorem firstTag?_eq (m : Mapping) :
    m.firstTag? = m.unknownTag?.or (m.children.findSome? nestedFirstTag?) := by
  rw [firstTag?, inlined_eq, List.findSome?_cons, findSome?_flatMap]
  cases m.unknownTag? <;> rfl

/-- A tag within reach is met. -/
theorem firstTag?_ne_none (h : m.ReachesTag place tag) : m.firstTag? ≠ none := by
  induction place generalizing m with
  | nil =>
    rw [firstTag?_eq, reachesTag_nil.mp h]
    exact Option.some_ne_none _
  | cons i place ih =>
    obtain ⟨c, hc, hname, hreaches⟩ := reachesTag_cons.mp h
    obtain ⟨tag', htag'⟩ := Option.ne_none_iff_exists'.mp (ih hreaches)
    rw [firstTag?_eq, unknownTag?_of_children hc, Option.none_or, ne_eq,
      List.findSome?_eq_none_iff]
    intro hnone
    have hmet := nestedFirstTag?_eq_some.mpr ⟨hname, htag'⟩
    rw [hnone c (List.mem_of_getElem? hc)] at hmet
    cases hmet

/-- What is met first stands at the first place within reach. -/
theorem exists_isFirstTag (h : m.firstTag? = some tag) : ∃ place, m.IsFirstTag place tag := by
  induction m using children_ind with
  | h m ih =>
    rw [firstTag?_eq] at h
    cases hm : m.unknownTag? with
    | some own =>
      rw [hm, Option.some_or] at h
      refine ⟨[], reachesTag_nil.mpr (hm.trans h), fun other _ _ => ?_⟩
      cases other with
      | nil => exact .inl rfl
      | cons j below => exact .inr .nil
    | none =>
      rw [hm, Option.none_or] at h
      obtain ⟨before, c, after, hsplit, hc, hbefore⟩ := List.findSome?_eq_some_iff.mp h
      obtain ⟨hname, htag⟩ := nestedFirstTag?_eq_some.mp hc
      have hmem : c ∈ m.children := by
        rw [hsplit]
        exact List.mem_append_right _ List.mem_cons_self
      have hat : m.children[before.length]? = some c := by
        rw [hsplit, List.getElem?_append_right (Nat.le_refl _), Nat.sub_self]
        rfl
      obtain ⟨place, hplace⟩ := ih c hmem htag
      refine ⟨before.length :: place, reachesTag_cons.mpr ⟨c, hat, hname, hplace.reaches⟩, ?_⟩
      intro other otherTag hother
      cases other with
      | nil =>
        rw [reachesTag_nil.mp hother] at hm
        cases hm
      | cons j below =>
        obtain ⟨d, hd, hdname, hbelow⟩ := reachesTag_cons.mp hother
        rcases Nat.lt_trichotomy before.length j with hlt | rfl | hlt
        · exact .inr (.rel hlt)
        · cases hat.symm.trans hd
          rcases hplace.first below otherTag hbelow with rfl | hlex
          · exact .inl rfl
          · exact .inr (.cons hlex)
        · -- a child before the one that is found has no tag within reach
          have hdbefore : d ∈ before := by
            rw [hsplit, List.getElem?_append_left hlt] at hd
            exact List.mem_of_getElem? hd
          obtain ⟨tag', htag'⟩ := Option.ne_none_iff_exists'.mp (firstTag?_ne_none hbelow)
          have hmet := nestedFirstTag?_eq_some.mpr ⟨hdname, htag'⟩
          rw [hbefore d hdbefore] at hmet
          cases hmet

theorem firstTag?_eq_some : m.firstTag? = some tag ↔ ∃ place, m.IsFirstTag place tag := by
  constructor
  · exact exists_isFirstTag
  · rintro ⟨place, hplace⟩
    obtain ⟨tag', htag'⟩ := Option.ne_none_iff_exists'.mp (firstTag?_ne_none hplace.reaches)
    obtain ⟨place', hplace'⟩ := exists_isFirstTag htag'
    rw [htag', ← hplace'.reaches.tag_eq, ← hplace.reaches.tag_eq, hplace.unique hplace']

theorem firstTag?_ne_none_iff : m.firstTag? ≠ none ↔ ∃ place tag, m.ReachesTag place tag := by
  constructor
  · intro h
    obtain ⟨tag, htag⟩ := Option.ne_none_iff_exists'.mp h
    obtain ⟨place, hplace⟩ := exists_isFirstTag htag
    exact ⟨place, tag, hplace.reaches⟩
  · rintro ⟨place, tag, h⟩
    exact firstTag?_ne_none h

/-- **When descriptions fail.** The description of a node fails if and only if an unknown tag stands
at or below it such that no node on the way is named, the one with the tag included and the root
left out. The error is the tag of the first such place. Each node is at its place, and the nodes are
listed in the order of their places. -/
theorem toProperty_error_iff (m : Mapping) :
    ((∃ e, m.toProperty = .error e) ↔ ∃ place tag, m.ReachesTag place tag) ∧
    (∀ e, m.toProperty = .error e ↔
      ∃ place tag, m.IsFirstTag place tag ∧ e = .unsupportedType tag) ∧
    m.places.map m.atPlace? = m.nodes.map some ∧ m.places.Pairwise (List.Lex (· < ·)) := by
  have hfailure : failure? m.toProperty = m.firstTag?.map .unsupportedType := failure?_toProperty m
  refine ⟨?_, ?_, map_atPlace?_places m, places_pairwise m⟩
  · rw [← failure?_ne_none, hfailure, ne_eq, Option.map_eq_none_iff]
    exact firstTag?_ne_none_iff
  · intro e
    rw [← failure?_eq_some, hfailure, Option.map_eq_some_iff]
    constructor
    · rintro ⟨tag, htag, rfl⟩
      obtain ⟨place, hplace⟩ := exists_isFirstTag htag
      exact ⟨place, tag, hplace, rfl⟩
    · rintro ⟨place, tag, hplace, rfl⟩
      exact ⟨tag, firstTag?_eq_some.mpr ⟨place, hplace⟩, rfl⟩

/-- The field with the tag counts, although its description would not stay; the one with a name does
not. -/
example :
    let size := objectOf [("unit", (ofType (.custom "gram")).withName "Unit"),
      ("value", ofType (.custom "money"))]
    (objectOf [("size", size), ("size", text)]).toProperty = .error (.unsupportedType "money") :=
  rfl

end Mapping

end FieldSchema
