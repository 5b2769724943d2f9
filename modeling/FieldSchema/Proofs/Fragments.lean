import FieldSchema.Proofs.Comparison
import FieldSchema.Proofs.JsonEquality

/-!
# Fragments and descriptions

A description is written as its fragment, and is known from it, because no two types have one
keyword. The fragment is written as an object. Its type may be any text, so only the names of the
entries tell what shape it has.

* `Property.fragment_injective`, `Model.fragment_injective`, `Parameter.fragment_injective`:
  descriptions are known from their fragments.
* `PropertyFragment.ind`: induction on inline fragments.
* `PropertyFragment.written`: the entries of a written fragment. No entry is written twice
  (`PropertyFragment.keys_written_nodup`).
* `PropertyFragment.mark`: the entry that tells the shape. Fragments with marks in the same places
  have one shape (`PropertyFragment.mark_eq_of_isSome`).
* `ModelFragment.inline`: the inline fragment that is written as one that stands alone.
-/

namespace FieldSchema

open Json (Value optionalEntry stringsEntry)

section Lists

variable {α β γ : Type} {f : α → β} {write : α → γ}

/-- What is known from the written form of a value is known from an entry for it. -/
theorem map_eq_of_written {a b : Option α} (hwrite : ∀ x y, write x = write y → f x = f y)
    (h : a.map write = b.map write) : a.map f = b.map f := by
  cases a with
  | none =>
    cases b with
    | none => rfl
    | some y => cases h
  | some x =>
    cases b with
    | none => cases h
    | some y => exact congrArg some (hwrite x y (Option.some.inj h))

/-- The same for each of a list. -/
theorem list_map_eq_of_written {xs ys : List α}
    (hwrite : ∀ x ∈ xs, ∀ y, write x = write y → f x = f y) (h : xs.map write = ys.map write) :
    xs.map f = ys.map f := by
  induction xs generalizing ys with
  | nil =>
    cases ys with
    | nil => rfl
    | cons y ys => cases h
  | cons x xs ih =>
    cases ys with
    | nil => cases h
    | cons y ys =>
      rw [List.map_cons, List.map_cons, List.cons.injEq] at h
      rw [List.map_cons, List.map_cons, hwrite x List.mem_cons_self y h.1,
        ih (fun x hx => hwrite x (List.mem_cons_of_mem _ hx)) h.2]

end Lists

/-! ## Fragments of descriptions -/

theorem TypeName.name_injective : Function.Injective TypeName.name := by
  intro a b
  cases a <;> cases b <;> decide

theorem ScalarProperty.fragment_injective : Function.Injective ScalarProperty.fragment := by
  intro p q h
  cases p
  cases q
  simpa [fragment, TypeName.name_injective.eq_iff] using h

theorem Property.fragment_injective : Function.Injective Property.fragment := by
  intro p q h
  induction p generalizing q with
  | ref pointer required =>
    cases q with
    | ref pointer' required' =>
      obtain ⟨rfl, rfl⟩ := PropertyFragment.ref.inj h
      rfl
    | _ => cases h
  | array items description required ih =>
    cases q with
    | array items' description' required' =>
      obtain ⟨-, hitems, rfl, rfl⟩ := PropertyFragment.array.inj h
      rw [ih hitems]
    | _ => cases h
  | object names ps description required ih =>
    cases q with
    | object names' qs description' required' =>
      obtain ⟨-, rfl, hentries, rfl, rfl⟩ := PropertyFragment.object.inj h
      rw [entryFragments_eq, entryFragments_eq] at hentries
      have heq : ps.map id = qs.map id := by
        refine list_map_eq_of_written (fun e he f hef => ?_) hentries
        obtain ⟨hname, hfragment⟩ := Prod.mk.inj hef
        exact Prod.ext hname (ih e he hfragment)
      rw [List.map_id, List.map_id] at heq
      rw [heq]
    | _ => cases h
  | scalar s =>
    cases q with
    | scalar t => rw [ScalarProperty.fragment_injective (PropertyFragment.scalar.inj h)]
    | _ => cases h

/-- Named properties are known from their fragments. -/
theorem Property.entryFragments_injective : Function.Injective Property.entryFragments := by
  intro ps qs h
  rw [entryFragments_eq, entryFragments_eq] at h
  refine List.map_injective_iff.mpr (fun e f hef => ?_) h
  obtain ⟨hname, hfragment⟩ := Prod.mk.inj hef
  exact Prod.ext hname (fragment_injective hfragment)

theorem Model.fragment_injective : Function.Injective Model.fragment := by
  intro a b h
  cases a with
  | object names ps description =>
    cases b with
    | object names' qs description' =>
      obtain ⟨-, rfl, hentries, rfl⟩ := ModelFragment.object.inj h
      rw [Property.entryFragments_injective hentries]
    | _ => cases h
  | array items description =>
    cases b with
    | array items' description' =>
      obtain ⟨-, hitems, rfl⟩ := ModelFragment.array.inj h
      rw [Property.fragment_injective hitems]
    | _ => cases h
  | primitive type format description =>
    cases b with
    | primitive type' format' description' =>
      obtain ⟨htype, rfl, rfl⟩ := ModelFragment.primitive.inj h
      rw [TypeName.name_injective htype]
    | _ => cases h

theorem PlainParameter.fragment_injective : Function.Injective PlainParameter.fragment := by
  intro p q h
  cases p
  cases q
  simpa [fragment, TypeName.name_injective.eq_iff,
    (Option.map_injective Property.fragment_injective).eq_iff] using h

theorem BodyParameter.fragment_injective : Function.Injective BodyParameter.fragment := by
  intro p q h
  cases p
  cases q
  simpa [fragment, Model.fragment_injective.eq_iff] using h

theorem Parameter.fragment_injective : Function.Injective Parameter.fragment := by
  intro p q h
  cases p with
  | plain location outside p =>
    cases q with
    | plain location' outside' q =>
      obtain ⟨rfl, hfragment⟩ := ParameterFragment.plain.inj h
      rw [PlainParameter.fragment_injective hfragment]
    | body q => cases h
  | body p =>
    cases q with
    | plain location outside q => cases h
    | body q => rw [BodyParameter.fragment_injective (ParameterFragment.body.inj h)]

/-! ## Keywords -/

namespace Validation

/-- The names of the entries of keywords. -/
def keywords : List String := ["pattern", "minLength", "maxLength", "minimum", "maximum", "enum"]

/-- Keywords are written under these names, each at most once. -/
theorem keys_toEntries_sublist (v : Validation) :
    (Entries.keys v.toEntries).Sublist keywords := by
  -- each entry is there or left out
  show (Entries.keys v.toEntries).Sublist
    (["pattern"] ++ ["minLength"] ++ ["maxLength"] ++ ["minimum"] ++ ["maximum"] ++ ["enum"])
  rw [toEntries, Entries.keys]
  simp only [List.map_append]
  refine ((((List.Sublist.append ?_ ?_).append ?_).append ?_).append ?_).append ?_
  · exact Json.keys_optionalEntry_sublist
  · exact Json.keys_optionalEntry_sublist
  · exact Json.keys_optionalEntry_sublist
  · exact Json.keys_optionalEntry_sublist
  · exact Json.keys_optionalEntry_sublist
  · exact Json.keys_stringsEntry_sublist

end Validation

/-! ## Inline fragments -/

namespace PropertyFragment

/-- Induction on inline fragments. -/
@[elab_as_elim, induction_eliminator]
theorem ind {motive : PropertyFragment → Prop}
    (ref : ∀ pointer required, motive (.ref pointer required))
    (array : ∀ type items description required, motive items →
      motive (.array type items description required))
    (object : ∀ type names properties description required, (∀ e ∈ properties, motive e.2) →
      motive (.object type names properties description required))
    (scalar : ∀ s, motive (.scalar s)) : ∀ p, motive p
  | .ref pointer required => ref pointer required
  | .array type items description required =>
    array type items description required (ind ref array object scalar items)
  | .object type names properties description required =>
    object type names properties description required fun e _ => ind ref array object scalar e.2
  | .scalar s => scalar s
termination_by p => p
decreasing_by
  · simp only [PropertyFragment.array.sizeOf_spec]
    omega
  · rename_i he
    have hlt := List.sizeOf_lt_of_mem he
    obtain ⟨name, p⟩ := e
    simp only [Prod.mk.sizeOf_spec, PropertyFragment.object.sizeOf_spec] at hlt ⊢
    omega

variable {p q items : PropertyFragment} {ps : List (String × PropertyFragment)}
  {names : List String} {description : Option String} {required : Bool}
  {type pointer key : String} {s : ScalarFragment}

/-! ### The entries of a written fragment -/

/-- The entries of a written fragment. -/
def written (p : PropertyFragment) : Entries Value := p.toJson.object?.getD []

theorem toJson_eq (p : PropertyFragment) : p.toJson = .object p.written := by
  cases p <;> rfl

@[simp] theorem written_ref : (ref pointer required).written = [("$ref", .string pointer)] := rfl

@[simp] theorem written_array : (array type items description required).written =
    ("type", .string type) :: ("items", items.toJson) ::
      optionalEntry "description" .string description := rfl

@[simp] theorem written_object : (object type names ps description required).written =
    ("type", .string type) :: stringsEntry "required" names ++
      ("properties", .object (entriesToJson ps)) ::
      optionalEntry "description" .string description := rfl

@[simp] theorem written_scalar : (scalar s).written =
    ("type", .string s.type) ::
      optionalEntry "format" .string s.format ++
      optionalEntry "description" .string s.description ++
      optionalEntry "example" .string s.sample ++
      (optionalEntry "pattern" .string s.validation.pattern ++
        optionalEntry "minLength" (fun n => .nat n.toNat) s.validation.minLength ++
        optionalEntry "maxLength" (fun n => .nat n.toNat) s.validation.maxLength ++
        optionalEntry "minimum" .float s.validation.minimum ++
        optionalEntry "maximum" .float s.validation.maximum ++
        stringsEntry "enum" s.validation.oneOf) := rfl

/-- No entry is written twice. -/
theorem keys_written_nodup (p : PropertyFragment) : (Entries.keys p.written).Nodup := by
  -- an entry may be left out, so the names are a sublist of all that can be written
  have hoption {α : Type} (name : String) (write : α → Value) (a : Option α) :
      (Entries.keys (optionalEntry name write a)).Sublist [name] := Json.keys_optionalEntry_sublist
  have hstrings (name : String) (values : List String) :
      (Entries.keys (stringsEntry name values)).Sublist [name] := Json.keys_stringsEntry_sublist
  cases p with
  | ref pointer required => exact List.nodup_singleton _
  | array type items description required =>
    have hnames : ["type", "items", "description"].Nodup := by decide
    exact hnames.sublist (((hoption _ _ _).cons_cons _).cons_cons _)
  | object type names ps description required =>
    have hnames : (["type", "required"] ++ ["properties", "description"]).Nodup := by decide
    rw [written_object, Entries.keys, List.map_append]
    exact hnames.sublist (((hstrings _ _).cons_cons _).append ((hoption _ _ _).cons_cons _))
  | scalar s =>
    have hnames : (["type", "format"] ++ ["description"] ++ ["example"] ++
      Validation.keywords).Nodup := by decide
    have hwritten : (scalar s).written =
        ("type", .string s.type) ::
          optionalEntry "format" .string s.format ++
          optionalEntry "description" .string s.description ++
          optionalEntry "example" .string s.sample ++
          s.validation.toEntries := rfl
    refine hnames.sublist ?_
    rw [hwritten, Entries.keys]
    simp only [List.map_append]
    exact ((((hoption _ _ _).cons_cons _).append (hoption _ _ _)).append (hoption _ _ _)).append
      s.validation.keys_toEntries_sublist

/-- The entry that tells what shape is described. -/
def mark : PropertyFragment → Option String
  | .ref .. => some "$ref"
  | .array .. => some "items"
  | .object .. => some "properties"
  | .scalar _ => none

theorem isSome_find?_written (p : PropertyFragment) (hkey : key ∈ ["$ref", "items", "properties"]) :
    (p.written.find? key).isSome ↔ p.mark = some key := by
  simp only [List.mem_cons, List.not_mem_nil, or_false] at hkey
  rcases hkey with rfl | rfl | rfl <;> cases p <;> simp [mark]

/-- Fragments with marks in the same places have one shape. -/
theorem mark_eq_of_isSome (h : ∀ key ∈ ["$ref", "items", "properties"],
    (p.written.find? key).isSome ↔ (q.written.find? key).isSome) : p.mark = q.mark := by
  have hiff : ∀ key ∈ ["$ref", "items", "properties"], p.mark = some key ↔ q.mark = some key := by
    intro key hkey
    rw [← isSome_find?_written p hkey, ← isSome_find?_written q hkey]
    exact h key hkey
  cases p <;> cases q <;> simp [mark] at hiff ⊢

/-- The description; a pointer has none. -/
def description? : PropertyFragment → Option String
  | .ref .. => none
  | .array _ _ d _ | .object _ _ _ d _ => d
  | .scalar s => s.description

theorem find?_description (p : PropertyFragment) :
    p.written.find? "description" = p.description?.map .string := by
  cases p <;> simp [description?]

end PropertyFragment

/-! ## Fragments that stand alone -/

namespace ModelFragment

/-- The inline fragment that is written in the same way. -/
def inline (required : Bool) : ModelFragment → PropertyFragment
  | .object type names properties description => .object type names properties description required
  | .array type items description => .array type items description required
  | .primitive type format description =>
    .scalar { type, format, description, sample := none, validation := {}, required }

theorem inline_injective (required : Bool) : Function.Injective (inline required) := by
  intro a b h
  cases a <;> cases b <;> cases h <;> rfl

theorem toJson_inline (a : ModelFragment) (required : Bool) :
    (a.inline required).toJson = a.toJson := by
  cases a with
  | object type names properties description => rfl
  | array type items description => rfl
  | primitive type format description =>
    have hnone : optionalEntry "example" Value.string none = [] := rfl
    have hempty : Validation.toEntries {} = [] := rfl
    rw [inline, PropertyFragment.toJson, ScalarFragment.toJson, toJson, hnone, hempty,
      List.append_nil, List.append_nil]

end ModelFragment

/-- The plain inline description of a model has the inline fragment. -/
theorem Model.fragment_inline (model : Model) (required : Bool) :
    (model.inline required none {}).fragment = model.fragment.inline required := by
  cases model <;> rfl

end FieldSchema
