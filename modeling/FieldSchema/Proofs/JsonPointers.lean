import FieldSchema.Json.Token
import FieldSchema.Proofs.Entries

/-!
# JSON pointers

How a reader follows a reference within a document. A reference is a number sign and a fragment. The
fragment may escape bytes by a percent sign and their value in base 16, and what it then says is a
pointer: tokens, with a slash before each. In a token `~0` stands for a tilde and `~1` for a slash.
Each token leads one step down, to the entry of an object or to the item of an array.

* `Pointer.referenceTokens?`: the tokens of a reference. `Value.resolve?`: the part of a document to
  which a reference leads.
* `Pointer.bytes?_cases`, `Pointer.unescape?_cases`: what is read takes as many bytes as what is
  written only if nothing is escaped.
* `Pointer.fragmentTokens?_written`: a text behind a plain one is read as itself exactly if it is
  plain, too.
-/

namespace FieldSchema.Json

namespace Pointer

/-! ## Reading references -/

/-- The bytes that a fragment stands for. A percent sign must begin an escaped byte. A character that
may not stand in a fragment, such as a space or one beyond ASCII, is taken as itself. -/
def bytes? : List Char → Option (List UInt8)
  | [] => some []
  | '%' :: a :: b :: cs => do
    let high ← Token.hexValue? a
    let low ← Token.hexValue? b
    let bytes ← bytes? cs
    return .ofNat (high * 16 + low) :: bytes
  | '%' :: _ => none
  | c :: cs => do
    let bytes ← bytes? cs
    return String.utf8EncodeChar c ++ bytes

/-- What a character stands for behind a tilde. -/
def escaped? : Char → Option Char
  | '0' => some '~'
  | '1' => some '/'
  | _ => none

/-- The text of a token. A tilde must begin an escaped character. -/
def unescape? : List Char → Option (List Char)
  | [] => some []
  | '~' :: c :: cs => do
    let c ← escaped? c
    let text ← unescape? cs
    return c :: text
  | '~' :: _ => none
  | c :: cs => do
    let text ← unescape? cs
    return c :: text

/-- The tokens of a pointer. -/
def tokens? : List Char → Option (List (List Char))
  | [] => some []
  | '/' :: cs => (cs.splitOn '/').mapM unescape?
  | _ => none

/-- The tokens of a fragment. -/
def fragmentTokens? (fragment : List Char) : Option (List (List Char)) := do
  let bytes ← bytes? fragment
  let pointer ← String.fromUTF8? bytes.toByteArray
  tokens? pointer.toList

/-- The tokens of a reference within the document. -/
def referenceTokens? (reference : String) : Option (List String) :=
  match reference.toList with
  | '#' :: fragment => (fragmentTokens? fragment).map (List.map String.ofList)
  | _ => none

/-- The position that a token names: a number in base 10 without leading zeros. -/
def position? (token : String) : Option Nat := token.toNat?.filter fun n => toString n = token

end Pointer

namespace Value

/-- The part of a value to which a token leads. -/
def member? : Value → String → Option Value
  | .object es, token => Entries.find? es token
  | .array vs, token => do
    let n ← Pointer.position? token
    vs[n]?
  | _, _ => none

/-- The part of a document to which a reference leads. -/
def resolve? (document : Value) (reference : String) : Option Value := do
  let tokens ← Pointer.referenceTokens? reference
  tokens.foldlM member? document

end Value

/-! ## What is written and what is read -/

namespace Pointer

variable {cs text : List Char} {bytes : List UInt8} {name : String}

/-- How many bytes a text takes. -/
def byteCount (cs : List Char) : Nat := (cs.flatMap String.utf8EncodeChar).length

theorem byteCount_append (cs ds : List Char) :
    byteCount (cs ++ ds) = byteCount cs + byteCount ds := by
  rw [byteCount, List.flatMap_append, List.length_append]
  rfl

theorem byteCount_cons (c : Char) (cs : List Char) :
    byteCount (c :: cs) = c.utf8Size + byteCount cs := by
  rw [byteCount, List.flatMap_cons, List.length_append, String.length_utf8EncodeChar]
  rfl

/-- Bytes are read as the text whose bytes they are. -/
theorem fromUTF8?_eq_some {s : String} :
    String.fromUTF8? bytes.toByteArray = some s ↔
      s.toList.flatMap String.utf8EncodeChar = bytes := by
  have hs : (s.toList.flatMap String.utf8EncodeChar).toByteArray = s.toByteArray :=
    String.utf8Encode_toList
  rw [← List.toByteArray_inj, hs]
  unfold String.fromUTF8?
  split
  · rename_i h
    rw [Option.some.injEq, ← String.toByteArray_inj, eq_comm]
    rfl
  · rename_i h
    refine iff_of_false nofun fun heq => h ?_
    rw [← heq]
    exact s.isValidUTF8

/-- A fragment that escapes nothing stands for its own bytes. -/
theorem bytes?_of_plain (h : '%' ∉ cs) : bytes? cs = some (cs.flatMap String.utf8EncodeChar) := by
  fun_induction bytes? cs with
  | case1 => rfl
  | case2 => exact absurd List.mem_cons_self h
  | case3 => exact absurd List.mem_cons_self h
  | case4 c cs _ _ ih =>
    rw [ih fun hmem => h (List.mem_cons_of_mem _ hmem)]
    rfl

/-- A fragment that escapes bytes stands for fewer than it takes. -/
theorem bytes?_cases (h : bytes? cs = some bytes) :
    ('%' ∉ cs ∧ bytes = cs.flatMap String.utf8EncodeChar) ∨ bytes.length < byteCount cs := by
  fun_induction bytes? cs generalizing bytes with
  | case1 =>
    cases h
    exact .inl ⟨List.not_mem_nil, rfl⟩
  | case2 a b cs ih =>
    simp only [bind, Option.bind_eq_some_iff, pure, Option.some.injEq] at h
    obtain ⟨high, -, low, -, rest, hrest, rfl⟩ := h
    have hle : rest.length ≤ byteCount cs := by
      rcases ih hrest with ⟨-, rfl⟩ | hlt
      · exact Nat.le_refl _
      · exact Nat.le_of_lt hlt
    have hpercent : '%'.utf8Size = 1 := by decide
    have ha := Char.utf8Size_pos a
    rw [byteCount_cons, byteCount_cons, byteCount_cons, List.length_cons]
    omega
  | case3 => cases h
  | case4 c cs _ hc ih =>
    simp only [bind, Option.bind_eq_some_iff, pure, Option.some.injEq] at h
    obtain ⟨rest, hrest, rfl⟩ := h
    rcases ih hrest with ⟨hplain, rfl⟩ | hlt
    · exact .inl ⟨List.not_mem_cons_of_ne_of_not_mem (fun heq => hc heq.symm) hplain, rfl⟩
    · right
      rw [byteCount_cons, List.length_append, String.length_utf8EncodeChar]
      omega

/-- A token that escapes nothing is its own text. -/
theorem unescape?_of_plain (h : '~' ∉ cs) : unescape? cs = some cs := by
  fun_induction unescape? cs with
  | case1 => rfl
  | case2 => exact absurd List.mem_cons_self h
  | case3 => exact absurd List.mem_cons_self h
  | case4 c cs _ _ ih =>
    rw [ih fun hmem => h (List.mem_cons_of_mem _ hmem)]
    rfl

theorem utf8Size_escaped? {c d : Char} (h : escaped? c = some d) : d.utf8Size = 1 := by
  unfold escaped? at h
  split at h <;> cases h <;> decide

/-- A token that escapes characters takes more bytes than its text. -/
theorem unescape?_cases (h : unescape? cs = some text) :
    ('~' ∉ cs ∧ text = cs) ∨ byteCount text < byteCount cs := by
  fun_induction unescape? cs generalizing text with
  | case1 =>
    cases h
    exact .inl ⟨List.not_mem_nil, rfl⟩
  | case2 c cs ih =>
    simp only [bind, Option.bind_eq_some_iff, pure, Option.some.injEq] at h
    obtain ⟨d, hd, rest, hrest, rfl⟩ := h
    have hle : byteCount rest ≤ byteCount cs := by
      rcases ih hrest with ⟨-, rfl⟩ | hlt
      · exact Nat.le_refl _
      · exact Nat.le_of_lt hlt
    have htilde : '~'.utf8Size = 1 := by decide
    have hc := Char.utf8Size_pos c
    rw [byteCount_cons, byteCount_cons, byteCount_cons, utf8Size_escaped? hd]
    omega
  | case3 => cases h
  | case4 c cs _ hc ih =>
    simp only [bind, Option.bind_eq_some_iff, pure, Option.some.injEq] at h
    obtain ⟨rest, hrest, rfl⟩ := h
    rcases ih hrest with ⟨hplain, rfl⟩ | hlt
    · exact .inl ⟨List.not_mem_cons_of_ne_of_not_mem (fun heq => hc heq.symm) hplain, rfl⟩
    · right
      rw [byteCount_cons, byteCount_cons]
      omega

/-! ## Two tokens -/

/-- No character of the text has a meaning in a fragment. -/
def Plain (cs : List Char) : Prop := '/' ∉ cs ∧ '~' ∉ cs ∧ '%' ∉ cs

instance (cs : List Char) : Decidable (Plain cs) := inferInstanceAs (Decidable (_ ∧ _ ∧ _))

/-- Two texts, with a slash before each. -/
def written (first second : List Char) : List Char := '/' :: first ++ '/' :: second

theorem byteCount_written (first second : List Char) :
    byteCount (written first second) = 2 + byteCount first + byteCount second := by
  have hslash : '/'.utf8Size = 1 := by decide
  rw [written, byteCount_append, byteCount_cons, byteCount_cons, hslash]
  omega

theorem mapM_eq_some {α β : Type} {f : α → Option β} {xs : List α} {ys : List β} :
    xs.mapM f = some ys ↔ List.Forall₂ (fun x y => f x = some y) xs ys := by
  induction xs generalizing ys with
  | nil =>
    rw [List.mapM_nil, List.forall₂_nil_left_iff]
    exact Option.some_inj.trans eq_comm
  | cons x xs ih =>
    rw [List.mapM_cons, List.forall₂_cons_left_iff]
    simp only [bind, Option.bind_eq_some_iff, pure, Option.some.injEq, ih]
    constructor
    · rintro ⟨y, hy, rest, hrest, rfl⟩
      exact ⟨y, rest, hy, hrest, rfl⟩
    · rintro ⟨y, rest, hy, hrest, rfl⟩
      exact ⟨y, hy, rest, hrest, rfl⟩

theorem mapM_eq_some_pair {α β : Type} {f : α → Option β} {xs : List α} {first second : β} :
    xs.mapM f = some [first, second] ↔
      ∃ a b, xs = [a, b] ∧ f a = some first ∧ f b = some second := by
  rw [mapM_eq_some, List.forall₂_cons_right_iff]
  constructor
  · rintro ⟨a, rest, ha, hrest, rfl⟩
    obtain ⟨b, rest, hb, hnil, rfl⟩ := List.forall₂_cons_right_iff.mp hrest
    rw [List.forall₂_nil_right_iff.mp hnil]
    exact ⟨a, b, rfl, ha, hb⟩
  · rintro ⟨a, b, rfl, ha, hb⟩
    exact ⟨a, [b], ha, .cons hb .nil, rfl⟩

theorem splitOn_eq_singleton_iff : cs.splitOn '/' = [text] ↔ '/' ∉ cs ∧ text = cs := by
  constructor
  · intro h
    have hmem : '/' ∉ cs := by
      intro hmem
      obtain ⟨before, after, rfl⟩ := List.append_of_mem hmem
      have hlength := congrArg List.length h
      have hbefore := List.length_pos_of_ne_nil (List.splitOn_ne_nil '/' before)
      have hafter := List.length_pos_of_ne_nil (List.splitOn_ne_nil '/' after)
      rw [List.splitOn_append_cons_self, List.length_append, List.length_singleton] at hlength
      omega
    rw [List.splitOn_eq_singleton hmem] at h
    exact ⟨hmem, (List.singleton_inj.mp h).symm⟩
  · rintro ⟨hmem, rfl⟩
    exact List.splitOn_eq_singleton hmem

/-- A pointer takes at least the bytes of its tokens. -/
theorem byteCount_le_of_tokens? {first second : List Char}
    (h : tokens? cs = some [first, second]) : byteCount (written first second) ≤ byteCount cs := by
  unfold tokens? at h
  split at h
  · cases h
  · rename_i cs
    obtain ⟨a, b, hsplit, ha, hb⟩ := mapM_eq_some_pair.mp h
    have hcs : '/' :: cs = written a b := by
      have hwhole : ['/'].intercalate (cs.splitOn '/') = cs := List.intercalate_splitOn '/'
      rw [← hwhole, hsplit]
      simp [written, List.intercalate]
    rw [hcs, byteCount_written, byteCount_written]
    have hfirst : byteCount first ≤ byteCount a := by
      rcases unescape?_cases ha with ⟨-, rfl⟩ | hlt
      · exact Nat.le_refl _
      · exact Nat.le_of_lt hlt
    have hsecond : byteCount second ≤ byteCount b := by
      rcases unescape?_cases hb with ⟨-, rfl⟩ | hlt
      · exact Nat.le_refl _
      · exact Nat.le_of_lt hlt
    omega
  · cases h

theorem tokens?_written {first second : List Char} (hfirst : Plain first) :
    tokens? (written first second) = some [first, second] ↔ '/' ∉ second ∧ '~' ∉ second := by
  obtain ⟨hslash, htilde, -⟩ := hfirst
  show (List.splitOn '/' (first ++ '/' :: second)).mapM unescape? = _ ↔ _
  rw [List.splitOn_append_cons_self_of_not_mem hslash, mapM_eq_some_pair]
  constructor
  · rintro ⟨a, b, hpieces, -, hb⟩
    obtain ⟨hmem, rfl⟩ := splitOn_eq_singleton_iff.mp (List.cons.inj hpieces).2
    refine ⟨hmem, ?_⟩
    rcases unescape?_cases hb with ⟨hplain, -⟩ | hlt
    · exact hplain
    · exact absurd hlt (Nat.lt_irrefl _)
  · rintro ⟨hmem, hplain⟩
    refine ⟨first, second, ?_, unescape?_of_plain htilde, unescape?_of_plain hplain⟩
    rw [List.splitOn_eq_singleton hmem]

/-- A fragment that escapes nothing is its pointer. -/
theorem fragmentTokens?_of_plain (h : '%' ∉ cs) : fragmentTokens? cs = tokens? cs := by
  have hread : String.fromUTF8? (cs.flatMap String.utf8EncodeChar).toByteArray =
      some (String.ofList cs) := by
    rw [fromUTF8?_eq_some, String.toList_ofList]
  rw [fragmentTokens?, bytes?_of_plain h]
  show (String.fromUTF8? _).bind _ = _
  rw [hread, Option.bind_some, String.toList_ofList]

/-- **Which texts are their own tokens.** A text behind a plain one is read as the second token
exactly if it is plain, too. -/
theorem fragmentTokens?_written {first second : List Char} (hfirst : Plain first) :
    fragmentTokens? (written first second) = some [first, second] ↔ Plain second := by
  by_cases hpercent : '%' ∈ second
  · refine iff_of_false (fun h => ?_) fun h => h.2.2 hpercent
    -- what is escaped is read as fewer bytes, and the two tokens need all of them
    simp only [fragmentTokens?, bind, Option.bind_eq_some_iff] at h
    obtain ⟨bytes, hbytes, pointer, hpointer, htokens⟩ := h
    have hle := byteCount_le_of_tokens? htokens
    have hread : byteCount pointer.toList = bytes.length := by
      rw [byteCount, fromUTF8?_eq_some.mp hpointer]
    rcases bytes?_cases hbytes with ⟨hplain, -⟩ | hlt
    · exact hplain (List.mem_append_right _ (List.mem_cons_of_mem _ hpercent))
    · omega
  · have hmem : '%' ∉ written first second := by
      simp [written, hfirst.2.2, hpercent]
    rw [fragmentTokens?_of_plain hmem, tokens?_written hfirst]
    exact ⟨fun h => ⟨h.1, h.2, hpercent⟩, fun h => ⟨h.1, h.2.1⟩⟩

end Pointer

end FieldSchema.Json
