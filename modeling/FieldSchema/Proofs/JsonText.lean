import FieldSchema.Proofs.JsonNodes
import FieldSchema.Proofs.Numerals

/-!
# Reading JSON text that was written

* `Token.readString_quote`: a written string is read back, whatever characters it has.
* `Token.scan_number`: the text of a number is one token, if the number reader takes it.
* `Value.node`: the node of a value. `Value.depth`: how many containers are open at a time in its
  text. `Value.scan_chars` and `Value.scan_prettyChars` say that the text of a value, on one line or
  indented, has the tokens of its node, if its numbers are read back.
* `Value.compact_spells`, `Value.pretty_spells`: so either text spells the node.
-/

namespace FieldSchema.Json

/-! ## Strings -/

namespace Token

theorem hexValue?_hexDigit {n : Nat} (hn : n < 16) : hexValue? (hexDigit n) = some n := by
  have hall : ∀ n < 16, hexValue? (hexDigit n) = some n := by decide
  exact hall n hn

/-- A written character is read as the character. -/
theorem readString_escape (c : Char) (r : List Char) :
    readString (escape c ++ r) = (readString r).map fun s => (c :: s.1, s.2) := by
  unfold escape
  split
  · subst_vars; simp [readString, simpleEscape?]
  split
  · subst_vars; simp [readString, simpleEscape?]
  split
  · subst_vars; simp [readString, simpleEscape?]
  split
  · subst_vars; simp [readString, simpleEscape?]
  split
  · subst_vars; simp [readString, simpleEscape?]
  split
  · subst_vars; simp [readString, simpleEscape?]
  split
  · subst_vars; simp [readString, simpleEscape?]
  split
  · rename_i hcontrol
    -- the two first digits are zeros, and the two last ones are those of the character
    have hunit : unit? '0' '0' (hexDigit (c.toNat / 16)) (hexDigit (c.toNat % 16)) =
        some c.toNat := by
      have hzero : hexValue? '0' = some 0 := rfl
      rw [unit?, hzero, hexValue?_hexDigit (by omega), hexValue?_hexDigit (by omega)]
      simp only [Option.bind_eq_bind, Option.bind_some, Option.pure_def, Option.some.injEq]
      omega
    simp only [List.cons_append, List.nil_append]
    rw [readString, hunit]
    dsimp only
    rw [if_pos (by omega), Char.ofNat_toNat]
  · simp only [List.cons_append, List.nil_append]
    rw [readString.eq_def]
    split <;> simp_all

/-- A written string is read back, and reading ends after its closing quote. -/
theorem readString_quote (s : String) (r : List Char) :
    readString (s.toList.flatMap escape ++ '\"' :: r) = some (s.toList, r) := by
  induction s.toList with
  | nil => rw [List.flatMap_nil, List.nil_append, readString]
  | cons c cs ih =>
    rw [List.flatMap_cons, List.append_assoc, readString_escape, ih, Option.map_some]

/-! ## Tokens -/

theorem scan_quote (s : String) (r : List Char) :
    scan (quote s ++ r) = .string s :: scan r := by
  have hread := readString_quote s r
  rw [quote, List.cons_append, List.cons_append, List.append_assoc, List.singleton_append, scan]
  split
  · rename_i h
    rw [hread] at h
    cases h
    rw [String.ofList_toList]
  · rename_i h
    rw [hread] at h
    cases h

/-- A number begins with a minus sign or with a digit. -/
theorem head_of_readNumber {c : Char} {r rest : List Char} {n : Number}
    (h : Number.read? (c :: r) = some (n, rest)) : c = '-' ∨ c.isDigit := by
  simp only [Number.read?, Option.bind_eq_bind, Option.bind_eq_some_iff, Prod.exists] at h
  obtain ⟨l, r', hl, -⟩ := h
  exact Literal.head_of_read? hl

/-- A number that the number reader takes is one token. -/
theorem scan_number {cs rest : List Char} {n : Number} (h : Number.read? cs = some (n, rest)) :
    scan cs = .number n :: scan rest := by
  cases cs with
  | nil => cases h
  | cons c r =>
    have hne (d : Char) (hminus : d ≠ '-') (hdigit : d.isDigit = false) : c ≠ d := by
      rintro rfl
      rcases head_of_readNumber h with hc | hc
      · exact hminus hc
      · rw [hdigit] at hc
        cases hc
    have hblank : isBlank c = false := by
      simp [isBlank, hne ' ' (by decide) rfl, hne '\n' (by decide) rfl, hne '\t' (by decide) rfl,
        hne '\r' (by decide) rfl]
    rw [scan]
    · rw [hblank, if_neg Bool.false_ne_true]
      split
      · rename_i h'
        rw [h] at h'
        cases h'
        rfl
      · rename_i h'
        rw [h] at h'
        cases h'
    · exact hne '[' (by decide) rfl
    · exact hne ']' (by decide) rfl
    · exact hne '\x7b' (by decide) rfl
    · exact hne '\x7d' (by decide) rfl
    · exact hne ',' (by decide) rfl
    · exact hne ':' (by decide) rfl
    · exact fun _ hc _ => hne 'n' (by decide) rfl hc
    · exact fun _ hc _ => hne 't' (by decide) rfl hc
    · exact fun _ hc _ => hne 'f' (by decide) rfl hc
    · exact hne '\"' (by decide) rfl

/-- Blanks are no tokens. -/
theorem scan_blank {c : Char} (hc : isBlank c) (r : List Char) : scan (c :: r) = scan r := by
  have hcases : c = ' ' ∨ c = '\n' ∨ c = '\t' ∨ c = '\r' := by
    simpa only [isBlank, Bool.or_eq_true, decide_eq_true_eq, or_assoc] using hc
  rcases hcases with rfl | rfl | rfl | rfl
  all_goals
    rw [scan, if_pos hc]
    all_goals simp

theorem scan_indentation (depth : Nat) (r : List Char) :
    scan (Value.indentation depth ++ r) = scan r := by
  have hspaces (n : Nat) : scan (List.replicate n ' ' ++ r) = scan r := by
    induction n with
    | zero => rfl
    | succ n ih => rw [List.replicate_succ, List.cons_append, scan_blank rfl, ih]
  rw [Value.indentation, List.cons_append, scan_blank rfl, hspaces]

/-- Parts that are scanned one by one are scanned with separators between them. -/
theorem scan_sepBy {α : Type} {separator : List Char} {text : α → List Char}
    {tokens : α → List Token} {xs : List α} {rest : List Char}
    (hseparator : ∀ r, scan (separator ++ r) = .comma :: scan r)
    (hends : ∀ r, Ends (separator ++ r))
    (hparts : ∀ x ∈ xs, ∀ r, Ends r → scan (text x ++ r) = tokens x ++ scan r)
    (hrest : Ends rest) :
    scan (sepBy separator (xs.map text) ++ rest) =
      [.comma].intercalate (xs.map tokens) ++ scan rest := by
  induction xs with
  | nil => rfl
  | cons x xs ih =>
    have hx := hparts x List.mem_cons_self
    have hrests := ih fun y hy => hparts y (List.mem_cons_of_mem _ hy)
    cases xs with
    | nil =>
      rw [List.map_cons, List.map_nil, sepBy, hx rest hrest, List.map_cons, List.map_nil,
        List.intercalate_singleton]
    | cons y ys =>
      rw [List.map_cons, List.map_cons, sepBy, List.append_assoc, List.append_assoc,
        hx _ (hends _), hseparator, ← List.map_cons, hrests, List.map_cons, List.map_cons,
        List.map_cons, List.intercalate_cons_cons, List.append_assoc, List.append_assoc,
        List.singleton_append]

end Token

/-! ## Values -/

namespace Value

/-- Induction on values. -/
@[elab_as_elim, induction_eliminator]
theorem ind {motive : Value → Prop} (null : motive .null) (bool : ∀ b, motive (.bool b))
    (number : ∀ n, motive (.number n)) (string : ∀ s, motive (.string s))
    (array : ∀ items, (∀ v ∈ items, motive v) → motive (.array items))
    (object : ∀ entries, (∀ e ∈ entries, motive e.2) → motive (.object entries)) :
    ∀ v, motive v
  | .null => null
  | .bool b => bool b
  | .number n => number n
  | .string s => string s
  | .array items => array items fun v _ => ind null bool number string array object v
  | .object entries => object entries fun e _ => ind null bool number string array object e.2
termination_by v => v
decreasing_by
  · rename_i hv
    have hlt := List.sizeOf_lt_of_mem hv
    simp only [Value.array.sizeOf_spec]
    omega
  · rename_i he
    have hlt := List.sizeOf_lt_of_mem he
    obtain ⟨name, v⟩ := e
    simp only [Prod.mk.sizeOf_spec, Value.object.sizeOf_spec] at hlt ⊢
    omega

mutual

/-- The node of a value. -/
def node : Value → Node
  | .null => .null
  | .bool b => .bool b
  | .number n => .number n
  | .string s => .string s
  | .array items => .array (itemNodes items) true
  | .object entries => .object (entryNodes entries) true

/-- The nodes of the items of an array. -/
def itemNodes : List Value → List Node
  | [] => []
  | v :: rest => node v :: itemNodes rest

/-- The nodes of the entries of an object. -/
def entryNodes : List (String × Value) → List (String × Node)
  | [] => []
  | (name, v) :: rest => (name, node v) :: entryNodes rest

end

mutual

/-- The numbers in a value. -/
def numbers : Value → List Number
  | .number n => [n]
  | .array items => itemNumbers items
  | .object entries => entryNumbers entries
  | .null | .bool _ | .string _ => []

/-- The numbers in the items of an array. -/
def itemNumbers : List Value → List Number
  | [] => []
  | v :: rest => numbers v ++ itemNumbers rest

/-- The numbers in the entries of an object. -/
def entryNumbers : List (String × Value) → List Number
  | [] => []
  | (_, v) :: rest => numbers v ++ entryNumbers rest

end

mutual

/-- How many containers are open at a time in the text of a value. -/
def depth : Value → Nat
  | .array items => itemsDepth items + 1
  | .object entries => entriesDepth entries + 1
  | .null | .bool _ | .number _ | .string _ => 0

/-- How many containers are open at a time in the text of an item. -/
def itemsDepth : List Value → Nat
  | [] => 0
  | v :: rest => max (depth v) (itemsDepth rest)

/-- How many containers are open at a time in the text of an entry. -/
def entriesDepth : List (String × Value) → Nat
  | [] => 0
  | (_, v) :: rest => max (depth v) (entriesDepth rest)

end

/-- What is in an object has one level less to itself. -/
theorem exists_below {entries : List (String × Value)} {n : Nat}
    (h : (object entries).depth ≤ n) :
    ∃ below, n = below + 1 ∧ ∀ e ∈ entries, e.2.depth ≤ below := by
  have hle : ∀ e ∈ entries, e.2.depth ≤ entriesDepth entries := by
    clear h
    intro e he
    induction entries with
    | nil => cases he
    | cons d entries ih =>
      rw [entriesDepth]
      rcases List.mem_cons.mp he with rfl | he
      · exact Nat.le_max_left _ _
      · exact Nat.le_trans (ih he) (Nat.le_max_right _ _)
  rw [depth] at h
  refine ⟨n - 1, by omega, fun e he => ?_⟩
  have := hle e he
  omega

/-! ### Their lists, as maps -/

theorem itemNodes_eq (items : List Value) : itemNodes items = items.map node := by
  induction items with
  | nil => rfl
  | cons v items ih => rw [itemNodes, ih, List.map_cons]

theorem entryNodes_eq (entries : List (String × Value)) :
    entryNodes entries = entries.map fun e => (e.1, e.2.node) := by
  induction entries with
  | nil => rfl
  | cons e entries ih => rw [entryNodes, ih, List.map_cons]

theorem mem_numbers_array {items : List Value} {n : Number} :
    n ∈ (array items).numbers ↔ ∃ v ∈ items, n ∈ v.numbers := by
  rw [numbers]
  induction items with
  | nil => simp [itemNumbers]
  | cons v items ih => simp [itemNumbers, ih]

theorem mem_numbers_object {entries : List (String × Value)} {n : Number} :
    n ∈ (object entries).numbers ↔ ∃ e ∈ entries, n ∈ e.2.numbers := by
  rw [numbers]
  induction entries with
  | nil => simp [entryNumbers]
  | cons e entries ih => simp [entryNumbers, ih]

theorem itemChars_eq (items : List Value) : itemChars items = items.map chars := by
  induction items with
  | nil => rfl
  | cons v items ih => rw [itemChars, ih, List.map_cons]

theorem entryChars_eq (entries : List (String × Value)) :
    entryChars entries = entries.map fun e => quote e.1 ++ ':' :: e.2.chars := by
  induction entries with
  | nil => rfl
  | cons e entries ih => rw [entryChars, ih, List.map_cons]

theorem prettyItems_eq (depth : Nat) (items : List Value) :
    prettyItems depth items = items.map (prettyChars (depth + 1)) := by
  induction items with
  | nil => rfl
  | cons v items ih => rw [prettyItems, ih, List.map_cons]

theorem prettyEntries_eq (depth : Nat) (entries : List (String × Value)) :
    prettyEntries depth entries =
      entries.map fun e => quote e.1 ++ ':' :: ' ' :: e.2.prettyChars (depth + 1) := by
  induction entries with
  | nil => rfl
  | cons e entries ih => rw [prettyEntries, ih, List.map_cons]

/-! ### What their texts spell -/

theorem isWhole_node (v : Value) : v.node.isWhole := by
  induction v with
  | array items ih =>
    rw [node, itemNodes_eq, Node.isWhole_array, List.forall_mem_map]
    exact ⟨rfl, ih⟩
  | object entries ih =>
    rw [node, entryNodes_eq, Node.isWhole_object, List.forall_mem_map]
    exact ⟨rfl, ih⟩
  | _ => rfl

theorem scan_null (r : List Char) : Token.scan (nullText ++ r) = .null :: Token.scan r := by
  rw [nullText, List.cons_append, List.cons_append, List.cons_append, List.cons_append,
    List.nil_append, Token.scan]

theorem scan_bool (b : Bool) (r : List Char) :
    Token.scan (boolText b ++ r) = .bool b :: Token.scan r := by
  cases b
  · change Token.scan ('f' :: 'a' :: 'l' :: 's' :: 'e' :: r) = _
    rw [Token.scan]
  · change Token.scan ('t' :: 'r' :: 'u' :: 'e' :: r) = _
    rw [Token.scan]

theorem scan_comma (r : List Char) : Token.scan ([','] ++ r) = .comma :: Token.scan r := by
  rw [List.singleton_append, Token.scan]

/-- No numeral goes on with a comma or a line break, or with what closes a container. -/
theorem ends_cons {c : Char} (hc : c ∈ [',', ']', '\x7d', '\n']) (r : List Char) :
    Ends (c :: r) := by
  rintro _ ⟨⟩
  simp only [List.mem_cons, List.not_mem_nil, or_false] at hc
  rcases hc with rfl | rfl | rfl | rfl <;> decide

/-- The text of a value on one line has the tokens of its node. -/
theorem scan_chars {v : Value} (h : ∀ n ∈ v.numbers, n.ReadsBack) {rest : List Char}
    (hrest : Ends rest) : Token.scan (v.chars ++ rest) = v.node.tokens ++ Token.scan rest := by
  induction v generalizing rest with
  | null => exact scan_null rest
  | bool b => exact scan_bool b rest
  | number n =>
    have hread := Number.read?_append hrest (h n List.mem_cons_self)
    exact Token.scan_number hread
  | string s => exact Token.scan_quote s rest
  | array items ih =>
    have hitems (v : Value) (hv : v ∈ items) (r : List Char) (hr : Ends r) :
        Token.scan (v.chars ++ r) = v.node.tokens ++ Token.scan r :=
      ih v hv (fun n hn => h n (mem_numbers_array.mpr ⟨v, hv, hn⟩)) hr
    have hrest : Ends (']' :: rest) := ends_cons (by decide) rest
    have hall := Token.scan_sepBy scan_comma (ends_cons (by decide)) hitems hrest
    rw [chars, itemChars_eq, node, itemNodes_eq, Node.tokens_array, List.map_map,
      List.cons_append, List.cons_append, List.append_assoc, List.singleton_append, Token.scan,
      hall, Token.scan]
    simp [Function.comp_def]
  | object entries ih =>
    have hentries (e : String × Value) (he : e ∈ entries) (r : List Char) (hr : Ends r) :
        Token.scan (quote e.1 ++ ':' :: e.2.chars ++ r) =
          Node.tokensOfEntry (e.1, e.2.node) ++ Token.scan r := by
      have hv := ih e he (fun n hn => h n (mem_numbers_object.mpr ⟨e, he, hn⟩)) hr
      rw [List.append_assoc, Token.scan_quote, List.cons_append, Token.scan, hv]
      rfl
    have hrest : Ends ('\x7d' :: rest) := ends_cons (by decide) rest
    have hall := Token.scan_sepBy scan_comma (ends_cons (by decide)) hentries hrest
    rw [chars, entryChars_eq, node, entryNodes_eq, Node.tokens_object, List.map_map,
      List.cons_append, List.cons_append, List.append_assoc, List.singleton_append, Token.scan,
      hall, Token.scan]
    simp [Function.comp_def]

/-- What stands on lines of its own between brackets is scanned as what stands on one line. -/
theorem scan_block {α : Type} {opening closing : Char} {before after : Token} {depth : Nat}
    {text : α → List Char} {tokens : α → List Token} {xs : List α} {rest : List Char}
    (hopening : ∀ r, Token.scan (opening :: r) = before :: Token.scan r)
    (hclosing : ∀ r, Token.scan (closing :: r) = after :: Token.scan r)
    (hparts : ∀ x ∈ xs, ∀ r, Ends r → Token.scan (text x ++ r) = tokens x ++ Token.scan r) :
    Token.scan (block opening closing depth (xs.map text) ++ rest) =
      before :: [.comma].intercalate (xs.map tokens) ++ [after] ++ Token.scan rest := by
  cases xs with
  | nil =>
    change Token.scan (opening :: closing :: rest) = _
    rw [hopening, hclosing]
    rfl
  | cons x xs =>
    have hseparator (r : List Char) :
        Token.scan (',' :: indentation (depth + 1) ++ r) = .comma :: Token.scan r := by
      rw [List.cons_append, Token.scan, Token.scan_indentation]
    have hall := Token.scan_sepBy hseparator (ends_cons (by decide)) hparts
      (ends_cons (c := '\n') (by decide) (List.replicate (2 * depth) ' ' ++ closing :: rest))
    have hafter : Token.scan (indentation depth ++ closing :: rest) = after :: Token.scan rest := by
      rw [Token.scan_indentation, hclosing]
    rw [block, if_neg (by simp)]
    simp only [List.append_assoc, List.cons_append, List.nil_append] at hall ⊢
    rw [hopening, Token.scan_indentation]
    change before :: Token.scan (_ ++ '\n' :: (List.replicate _ _ ++ _)) = _
    rw [hall]
    exact congrArg _ (congrArg _ hafter)

/-- The indented text of a value has the tokens of its node. -/
theorem scan_prettyChars {v : Value} (h : ∀ n ∈ v.numbers, n.ReadsBack) (depth : Nat)
    {rest : List Char} (hrest : Ends rest) :
    Token.scan (v.prettyChars depth ++ rest) = v.node.tokens ++ Token.scan rest := by
  induction v generalizing depth rest with
  | null => exact scan_null rest
  | bool b => exact scan_bool b rest
  | number n =>
    have hread := Number.read?_append hrest (h n List.mem_cons_self)
    exact Token.scan_number hread
  | string s => exact Token.scan_quote s rest
  | array items ih =>
    have hitems (v : Value) (hv : v ∈ items) (r : List Char) (hr : Ends r) :
        Token.scan (v.prettyChars (depth + 1) ++ r) = v.node.tokens ++ Token.scan r :=
      ih v hv (fun n hn => h n (mem_numbers_array.mpr ⟨v, hv, hn⟩)) (depth + 1) hr
    rw [prettyChars, prettyItems_eq, node, itemNodes_eq, Node.tokens_array, List.map_map]
    exact scan_block (fun r => by rw [Token.scan]) (fun r => by rw [Token.scan]) hitems
  | object entries ih =>
    have hentries (e : String × Value) (he : e ∈ entries) (r : List Char) (hr : Ends r) :
        Token.scan (quote e.1 ++ ':' :: ' ' :: e.2.prettyChars (depth + 1) ++ r) =
          Node.tokensOfEntry (e.1, e.2.node) ++ Token.scan r := by
      have hv := ih e he (fun n hn => h n (mem_numbers_object.mpr ⟨e, he, hn⟩)) (depth + 1) hr
      rw [List.append_assoc, Token.scan_quote, List.cons_append, Token.scan, List.cons_append,
        Token.scan_blank rfl, hv]
      rfl
    rw [prettyChars, prettyEntries_eq, node, entryNodes_eq, Node.tokens_object, List.map_map]
    exact scan_block (fun r => by rw [Token.scan]) (fun r => by rw [Token.scan]) hentries

theorem ends_nil : Ends [] := nofun

/-- The text of a value on one line spells its node. -/
theorem compact_spells {v : Value} (h : ∀ n ∈ v.numbers, n.ReadsBack) :
    Spells v.compact v.node := by
  have hscan := scan_chars h ends_nil
  rw [List.append_nil, Token.scan, List.append_nil] at hscan
  exact ⟨isWhole_node v, by rw [compact, String.toList_ofList, hscan]⟩

/-- The indented text of a value spells its node. -/
theorem pretty_spells {v : Value} (h : ∀ n ∈ v.numbers, n.ReadsBack) : Spells v.pretty v.node := by
  have hscan := scan_prettyChars h 0 ends_nil
  rw [List.append_nil, Token.scan, List.append_nil] at hscan
  exact ⟨isWhole_node v, by rw [pretty, String.toList_ofList, hscan]⟩

end Value

end FieldSchema.Json
