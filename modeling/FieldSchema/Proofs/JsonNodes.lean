import FieldSchema.Json.Node
import Mathlib.Data.List.Basic

/-!
# The tokens of JSON nodes

A node from which nothing is missing has one spelling in tokens, and reading goes back and forth
between the two.

* `Node.isWhole`: nothing is missing from a node. `Node.tokens`: its tokens, in order.
* `Node.readValue_tokens`: the tokens of a whole node are read as the node.
* `Node.tokens_of_readValue`: if a whole node is read, its tokens were taken, and no others. The
  invariant of the run is that the tokens of the open containers (`Node.opened`) and the tokens
  ahead are together always the same.
* `Spells`: a text spells a node. `spells_iff` says that this is what reading the text finds out.
-/

namespace FieldSchema.Json

namespace Node

/-- Induction on nodes. -/
@[elab_as_elim, induction_eliminator]
theorem ind {motive : Node → Prop} (null : motive .null) (bool : ∀ b, motive (.bool b))
    (number : ∀ n, motive (.number n)) (string : ∀ s, motive (.string s))
    (array : ∀ items closed, (∀ n ∈ items, motive n) → motive (.array items closed))
    (object : ∀ entries closed, (∀ e ∈ entries, motive e.2) → motive (.object entries closed))
    (broken : motive .broken) : ∀ n, motive n
  | .null => null
  | .bool b => bool b
  | .number n => number n
  | .string s => string s
  | .array items closed =>
    array items closed fun n _ => ind null bool number string array object broken n
  | .object entries closed =>
    object entries closed fun e _ => ind null bool number string array object broken e.2
  | .broken => broken
termination_by n => n
decreasing_by
  · rename_i hn
    have hlt := List.sizeOf_lt_of_mem hn
    simp only [Node.array.sizeOf_spec]
    omega
  · rename_i he
    have hlt := List.sizeOf_lt_of_mem he
    obtain ⟨name, n⟩ := e
    simp only [Prod.mk.sizeOf_spec, Node.object.sizeOf_spec] at hlt ⊢
    omega

/-! ## Whole nodes and their tokens -/

mutual

/-- Whether nothing is missing from a node. -/
def isWhole : Node → Bool
  | .array items closed => closed && allWhole items
  | .object entries closed => closed && entriesWhole entries
  | .broken => false
  | .null | .bool _ | .number _ | .string _ => true

/-- Whether nothing is missing from the items of an array. -/
def allWhole : List Node → Bool
  | [] => true
  | n :: rest => isWhole n && allWhole rest

/-- Whether nothing is missing from the entries of an object. -/
def entriesWhole : List (String × Node) → Bool
  | [] => true
  | (_, n) :: rest => isWhole n && entriesWhole rest

end

theorem allWhole_iff {items : List Node} : allWhole items ↔ ∀ n ∈ items, n.isWhole := by
  induction items with
  | nil => simp [allWhole]
  | cons n items ih => simp [allWhole, ih]

theorem entriesWhole_iff {entries : List (String × Node)} :
    entriesWhole entries ↔ ∀ e ∈ entries, e.2.isWhole := by
  induction entries with
  | nil => simp [entriesWhole]
  | cons e entries ih => simp [entriesWhole, ih]

theorem isWhole_array {items : List Node} {closed : Bool} :
    (array items closed).isWhole ↔ closed ∧ ∀ n ∈ items, n.isWhole := by
  rw [isWhole, Bool.and_eq_true, allWhole_iff]

theorem isWhole_object {entries : List (String × Node)} {closed : Bool} :
    (object entries closed).isWhole ↔ closed ∧ ∀ e ∈ entries, e.2.isWhole := by
  rw [isWhole, Bool.and_eq_true, entriesWhole_iff]

mutual

/-- The tokens of a node; a missing part has none. -/
def tokens : Node → List Token
  | .null => [.null]
  | .bool b => [.bool b]
  | .number n => [.number n]
  | .string s => [.string s]
  | .array items _ => .beginArray :: [.comma].intercalate (itemTokens items) ++ [.endArray]
  | .object entries _ => .beginObject :: [.comma].intercalate (entryTokens entries) ++ [.endObject]
  | .broken => []

/-- The tokens of the items of an array, one list for each. -/
def itemTokens : List Node → List (List Token)
  | [] => []
  | n :: rest => tokens n :: itemTokens rest

/-- The tokens of the entries of an object, one list for each. -/
def entryTokens : List (String × Node) → List (List Token)
  | [] => []
  | (name, n) :: rest => (.string name :: .colon :: tokens n) :: entryTokens rest

end

/-- The tokens of an entry. -/
def tokensOfEntry (e : String × Node) : List Token := .string e.1 :: .colon :: e.2.tokens

theorem itemTokens_eq (items : List Node) : itemTokens items = items.map tokens := by
  induction items with
  | nil => rfl
  | cons n items ih => rw [itemTokens, ih, List.map_cons]

theorem entryTokens_eq (entries : List (String × Node)) :
    entryTokens entries = entries.map tokensOfEntry := by
  induction entries with
  | nil => rfl
  | cons e entries ih => rw [entryTokens, ih, List.map_cons]; rfl

theorem tokens_array (items : List Node) (closed : Bool) :
    (array items closed).tokens =
      .beginArray :: [.comma].intercalate (items.map tokens) ++ [.endArray] := by
  rw [tokens, itemTokens_eq]

theorem tokens_object (entries : List (String × Node)) (closed : Bool) :
    (object entries closed).tokens =
      .beginObject :: [.comma].intercalate (entries.map tokensOfEntry) ++ [.endObject] := by
  rw [tokens, entryTokens_eq]

/-! ## Reading the tokens of a node -/

section Reading

variable {n : Node} {items : List Node} {entries : List (String × Node)} {stack : List Frame}
  {ts rest : List Token}

/-- The tokens of a whole node begin with one that closes no array. -/
theorem exists_first_token (h : n.isWhole) : ∃ t ts, n.tokens = t :: ts ∧ t ≠ .endArray := by
  cases n with
  | broken => cases h
  | _ => exact ⟨_, _, rfl, by simp⟩

/-- The rest of an array is read when its items are. -/
theorem readValue_items (hitems : ∀ n ∈ items, ∀ stack ts,
      readValue stack (n.tokens ++ ts) = readNext n stack ts) (hne : items ≠ []) (done : List Node)
    (stack : List Frame) (ts : List Token) :
    readValue (.array done :: stack) ([.comma].intercalate (items.map tokens) ++ .endArray :: ts) =
      readNext (.array (done.reverse ++ items) true) stack ts := by
  induction items generalizing done with
  | nil => exact absurd rfl hne
  | cons n rest ih =>
    have hn := hitems n List.mem_cons_self
    cases rest with
    | nil =>
      rw [List.map_cons, List.map_nil, List.intercalate_singleton, hn, readNext, List.reverse_cons]
    | cons k rest =>
      have hrest := ih (fun n hn => hitems n (List.mem_cons_of_mem _ hn)) (List.cons_ne_nil k rest)
        (n :: done)
      rw [List.map_cons, List.map_cons, List.intercalate_cons_cons, List.append_assoc,
        List.append_assoc, hn, List.singleton_append, readNext, ← List.map_cons, hrest,
        List.reverse_cons, List.append_assoc, List.singleton_append]

/-- The rest of an object is read when the values of its entries are. -/
theorem readName_entries (hentries : ∀ e ∈ entries, ∀ stack ts,
      readValue stack (e.2.tokens ++ ts) = readNext e.2 stack ts) (hne : entries ≠ [])
    (done : List (String × Node)) (stack : List Frame) (ts : List Token) :
    readName done stack
        ([.comma].intercalate (entries.map tokensOfEntry) ++ .endObject :: ts) =
      readNext (.object (done.reverse ++ entries) true) stack ts := by
  induction entries generalizing done with
  | nil => exact absurd rfl hne
  | cons e rest ih =>
    obtain ⟨name, n⟩ := e
    have hn := hentries (name, n) List.mem_cons_self
    cases rest with
    | nil =>
      rw [List.map_cons, List.map_nil, List.intercalate_singleton, tokensOfEntry, List.cons_append,
        List.cons_append, readName, hn, readNext, List.reverse_cons]
    | cons f rest =>
      have hrest := ih (fun e he => hentries e (List.mem_cons_of_mem _ he))
        (List.cons_ne_nil f rest) ((name, n) :: done)
      rw [List.map_cons, List.map_cons, List.intercalate_cons_cons, tokensOfEntry,
        List.append_assoc, List.append_assoc, List.cons_append, List.cons_append, readName, hn,
        List.singleton_append, readNext, ← List.map_cons, hrest, List.reverse_cons,
        List.append_assoc, List.singleton_append]

/-- The tokens of a whole node are read as the node. -/
theorem readValue_tokens (h : n.isWhole) (stack : List Frame) (ts : List Token) :
    readValue stack (n.tokens ++ ts) = readNext n stack ts := by
  induction n generalizing stack ts with
  | null => rfl
  | bool b => rfl
  | number n => rfl
  | string s => rfl
  | array items closed ih =>
    obtain ⟨rfl, hitems⟩ := isWhole_array.mp h
    rw [tokens_array, List.cons_append, List.cons_append, List.append_assoc, List.singleton_append]
    cases items with
    | nil => rfl
    | cons n rest =>
      have hread := readValue_items (fun n hn => ih n hn (hitems n hn)) (List.cons_ne_nil n rest) []
        stack ts
      rw [readValue]
      · exact hread
      · obtain ⟨t, us, ht, hne⟩ := exists_first_token (hitems n List.mem_cons_self)
        intro us heq
        cases rest <;> simp_all [List.intercalate_cons_cons]
  | object entries closed ih =>
    obtain ⟨rfl, hentries⟩ := isWhole_object.mp h
    rw [tokens_object, List.cons_append, List.cons_append, List.append_assoc, List.singleton_append]
    cases entries with
    | nil => rfl
    | cons e rest =>
      have hread := readName_entries (fun e he => ih e he (hentries e he))
        (List.cons_ne_nil e rest) [] stack ts
      rw [readValue]
      · exact hread
      · intro us heq
        cases rest <;> simp_all [List.intercalate_cons_cons, tokensOfEntry]
  | broken => cases h

/-! ## Nothing else is read as a node -/

/-- The tokens of an array of which these items are read, and of the comma after them. -/
def openedArray (items : List Node) : List Token :=
  .beginArray :: items.reverse.flatMap fun n => n.tokens ++ [.comma]

/-- The tokens of an object of which these entries are read, and of the comma after them. -/
def openedObject (entries : List (String × Node)) : List Token :=
  .beginObject :: entries.reverse.flatMap fun e => tokensOfEntry e ++ [.comma]

/-- The tokens that were taken for an open container. -/
def Frame.opened : Frame → List Token
  | .array items => openedArray items
  | .object entries name => openedObject entries ++ [.string name, .colon]

/-- The tokens that were taken for the open containers, of which the innermost one stands first. -/
def opened (stack : List Frame) : List Token := stack.reverse.flatMap Frame.opened

theorem opened_cons (frame : Frame) (stack : List Frame) :
    opened (frame :: stack) = opened stack ++ frame.opened := by
  simp [opened]

theorem intercalate_reverse_cons {α : Type} (f : α → List Token) (x : α) (xs : List α) :
    [Token.comma].intercalate ((x :: xs).reverse.map f) =
      (xs.reverse.flatMap fun y => f y ++ [.comma]) ++ f x := by
  rw [List.reverse_cons]
  induction xs.reverse with
  | nil => simp
  | cons y ys ih =>
    cases ys with
    | nil => simp [List.intercalate_cons_cons]
    | cons z zs =>
      rw [List.cons_append, List.map_cons, List.cons_append, List.map_cons,
        List.intercalate_cons_cons, ← List.map_cons, ← List.cons_append, ih]
      simp

/-- The tokens of an array that is closed after an item. -/
theorem tokens_array_reverse (n : Node) (items : List Node) :
    (array (n :: items).reverse true).tokens = openedArray items ++ n.tokens ++ [.endArray] := by
  rw [tokens_array, intercalate_reverse_cons, openedArray, List.cons_append, List.cons_append,
    List.cons_append]

/-- The tokens of an object that is closed after the value of an entry. -/
theorem tokens_object_reverse (name : String) (n : Node) (entries : List (String × Node)) :
    (object ((name, n) :: entries).reverse true).tokens =
      openedObject entries ++ [.string name, .colon] ++ n.tokens ++ [.endObject] := by
  rw [tokens_object, intercalate_reverse_cons, openedObject, tokensOfEntry]
  simp

/-- What is broken off inside an open container is not whole. -/
theorem isWhole_breakOff (stack : List Frame) (n : Node) :
    (breakOff stack n).isWhole ↔ stack = [] ∧ n.isWhole := by
  have hopen (stack : List Frame) (n : Node) (hn : n.isWhole = false) :
      (breakOff stack n).isWhole = false := by
    induction stack generalizing n with
    | nil => exact hn
    | cons frame stack ih => cases frame <;> exact ih _ rfl
  cases stack with
  | nil => simp [breakOff]
  | cons frame stack => cases frame <;> simp [breakOff, hopen, isWhole]

/-- What was taken before a run and what lay ahead of it are, if the run gives a whole node, the
tokens of the node and what lies ahead after it. -/
def Takes (before ahead : List Token) (result : Node × List Token) : Prop :=
  result.1.isWhole → before ++ ahead = result.1.tokens ++ result.2

theorem Takes.of_append {before tokens ahead : List Token} {result : Node × List Token}
    (h : Takes (before ++ tokens) ahead result) : Takes before (tokens ++ ahead) result := by
  intro hwhole
  rw [← List.append_assoc]
  exact h hwhole

theorem takes_breakOff {before ahead : List Token} {frame : Frame} {stack : List Frame} {n : Node} :
    Takes before ahead (breakOff (frame :: stack) n, []) :=
  fun h => absurd ((isWhole_breakOff _ _).mp h).1 (List.cons_ne_nil _ _)

theorem takes_broken {before ahead : List Token} {stack : List Frame} {n : Node}
    (hn : n.isWhole = false) : Takes before ahead (breakOff stack n, []) := by
  intro h
  rw [((isWhole_breakOff _ _).mp h).2] at hn
  cases hn

/-- The run takes exactly the tokens of what it reads. -/
theorem readValue_takes :
    (∀ stack ts, Takes (opened stack) ts (readValue stack ts)) ∧
    (∀ entries stack ts,
      Takes (opened stack ++ openedObject entries) ts (readName entries stack ts)) ∧
    ∀ n stack ts, Takes (opened stack ++ n.tokens) ts (readNext n stack ts) := by
  refine readValue.mutual_induct
    (fun stack ts => Takes (opened stack) ts (readValue stack ts))
    (fun entries stack ts =>
      Takes (opened stack ++ openedObject entries) ts (readName entries stack ts))
    (fun n stack ts => Takes (opened stack ++ n.tokens) ts (readNext n stack ts))
    ?null ?bool ?number ?string ?emptyArray ?array ?emptyObject ?object ?noValue ?name ?noColon
    ?noName ?whole ?nextItem ?endArray ?nextEntry ?endObject ?noNext
  case null => exact fun stack ts ih => ih.of_append
  case bool => exact fun stack b ts ih => ih.of_append
  case number => exact fun stack n ts ih => ih.of_append
  case string => exact fun stack s ts ih => ih.of_append
  case emptyArray => exact fun stack ts ih => ih.of_append
  case array =>
    intro stack ts hne ih
    rw [readValue]
    · rw [opened_cons] at ih
      exact ih.of_append
    · exact hne
  case emptyObject => exact fun stack ts ih => ih.of_append
  case object =>
    intro stack ts hne ih
    rw [readValue]
    · exact ih.of_append
    · exact hne
  case noValue =>
    intro ts stack hnull hbool hnumber hstring hemptyArray harray hemptyObject hobject
    rw [readValue]
    · exact takes_broken rfl
    all_goals assumption
  case name =>
    intro entries stack name ts ih
    rw [readName]
    rw [opened_cons] at ih
    rw [Frame.opened, ← List.append_assoc] at ih
    exact ih.of_append
  case noColon =>
    intro entries stack name ts hne
    rw [readName]
    · exact takes_broken rfl
    · exact hne
  case noName =>
    intro ts entries stack hname hstring
    rw [readName]
    · exact takes_broken rfl
    · exact hname
    · exact hstring
  case whole =>
    intro n ts
    rw [readNext]
    exact fun _ => rfl
  case nextItem =>
    intro n items stack ts ih
    rw [readNext]
    rw [opened_cons] at ih ⊢
    have hopened : Frame.opened (.array (n :: items)) =
        Frame.opened (.array items) ++ n.tokens ++ [.comma] := by
      simp [Frame.opened, openedArray]
    rw [hopened, ← List.append_assoc, ← List.append_assoc] at ih
    exact ih.of_append
  case endArray =>
    intro n items stack ts ih
    rw [readNext]
    rw [tokens_array_reverse, ← List.append_assoc, ← List.append_assoc] at ih
    rw [opened_cons]
    exact ih.of_append
  case nextEntry =>
    intro n entries name stack ts ih
    rw [readNext]
    rw [opened_cons]
    have hopened : openedObject ((name, n) :: entries) =
        Frame.opened (.object entries name) ++ n.tokens ++ [.comma] := by
      simp [Frame.opened, openedObject, tokensOfEntry]
    rw [hopened, ← List.append_assoc, ← List.append_assoc] at ih
    exact ih.of_append
  case endObject =>
    intro n entries name stack ts ih
    rw [readNext]
    rw [tokens_object_reverse, ← List.append_assoc, ← List.append_assoc] at ih
    rw [opened_cons]
    exact ih.of_append
  case noNext =>
    intro ts n stack hstack hnextItem hendArray hnextEntry hendObject
    cases stack with
    | nil => exact absurd rfl hstack
    | cons frame stack =>
      rw [readNext]
      · exact takes_breakOff
      all_goals assumption

/-- If a whole node is read, exactly its tokens were taken. -/
theorem tokens_of_readValue (h : readValue [] ts = (n, rest)) (hn : n.isWhole) :
    ts = n.tokens ++ rest := by
  have htakes := readValue_takes.1 [] ts
  rw [h] at htakes
  exact htakes hn

end Reading

end Node

/-! ## Texts -/

/-- A text spells a node from which nothing is missing: its tokens are those of the node. -/
structure Spells (text : String) (n : Node) : Prop where
  isWhole : n.isWhole
  scan_eq : Token.scan text.toList = n.tokens

/-- A text spells a node exactly if the node is read from it, whole, and nothing comes after. -/
theorem spells_iff {text : String} {n : Node} :
    Spells text n ↔ Node.ofText text = (n, true) ∧ n.isWhole := by
  rw [Node.ofText, Node.ofTokens]
  constructor
  · intro h
    have hread := Node.readValue_tokens h.isWhole [] []
    rw [List.append_nil] at hread
    rw [h.scan_eq, hread]
    exact ⟨rfl, h.isWhole⟩
  · rintro ⟨h, hwhole⟩
    cases hread : Node.readValue [] (Token.scan text.toList) with
    | mk k rest =>
      rw [hread] at h
      obtain ⟨rfl, hrest⟩ := Prod.mk.inj h
      rw [List.isEmpty_iff] at hrest
      have htokens := Node.tokens_of_readValue hread hwhole
      rw [hrest, List.append_nil] at htokens
      exact ⟨hwhole, htokens⟩

/-- A text spells one node only. -/
theorem Spells.unique {text : String} {n k : Node} (hn : Spells text n) (hk : Spells text k) :
    n = k := by
  have heq := (spells_iff.mp hn).1.symm.trans (spells_iff.mp hk).1
  exact (Prod.mk.inj heq).1

end FieldSchema.Json
