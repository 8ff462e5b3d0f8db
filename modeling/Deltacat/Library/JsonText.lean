import Mathlib.Tactic

/-!
# Texts of JSON values

`JsonValue.dumps` follows `json.dumps` of Python with its default arguments: the
text is ASCII, and whatever is not printable is escaped. A slash or a question
mark is in the text only if it is in a text of the value (`mem_dumps_iff`).
-/

namespace Deltacat.Library

/-- The text of a floating point number, as `float.__repr__` writes it. -/
structure FloatText where
  text : List Char
  isPlain : ∀ char ∈ text, char.isAlphanum ∨ char = '.' ∨ char = '-' ∨ char = '+'

/-- What can be written as JSON, where the keys of an object are texts. -/
inductive JsonValue
  | null
  | bool (value : Bool)
  | int (value : ℤ)
  | float (value : FloatText)
  | string (text : List Char)
  | list (items : List JsonValue)
  | object (entries : List (List Char × JsonValue))

/-- `\uXXXX`, the escape of a 16-bit unit. -/
def escapeUnit (unit : ℕ) : List Char :=
  '\\' :: 'u' :: [unit / 4096, unit / 256, unit / 16, unit].map fun part =>
    Nat.digitChar (part % 16)

/-- The text of a character. Beyond 16 bits it is a pair of surrogates. -/
def escapeChar (char : Char) : List Char :=
  if char = '"' then ['\\', '"']
  else if char = '\\' then ['\\', '\\']
  else if char = '\n' then ['\\', 'n']
  else if char = '\r' then ['\\', 'r']
  else if char = '\t' then ['\\', 't']
  else if char = '\x0c' then ['\\', 'f']
  else if char = '\x08' then ['\\', 'b']
  else if 32 ≤ char.toNat ∧ char.toNat ≤ 126 then [char]
  else if char.toNat < 65536 then escapeUnit char.toNat
  else
    escapeUnit (55296 + (char.toNat - 65536) / 1024 % 1024) ++
      escapeUnit (56320 + (char.toNat - 65536) % 1024)

def escapeText (text : List Char) : List Char :=
  '"' :: text.flatMap escapeChar ++ ['"']

mutual

/-- `json.dumps`. -/
def JsonValue.dumps : JsonValue → List Char
  | .null => "null".toList
  | .bool true => "true".toList
  | .bool false => "false".toList
  | .int value => (toString value).toList
  | .float value => value.text
  | .string text => escapeText text
  | .list items => '[' :: ", ".toList.intercalate (dumpsItems items) ++ [']']
  | .object entries => '{' :: ", ".toList.intercalate (dumpsEntries entries) ++ ['}']

def dumpsItems : List JsonValue → List (List Char)
  | [] => []
  | item :: items => item.dumps :: dumpsItems items

def dumpsEntries : List (List Char × JsonValue) → List (List Char)
  | [] => []
  | (key, value) :: entries =>
      (escapeText key ++ ": ".toList ++ value.dumps) :: dumpsEntries entries

end

mutual

/-- The texts in a value, keys included. -/
def JsonValue.texts : JsonValue → List (List Char)
  | .string text => [text]
  | .list items => textsOfItems items
  | .object entries => textsOfEntries entries
  | _ => []

def textsOfItems : List JsonValue → List (List Char)
  | [] => []
  | item :: items => item.texts ++ textsOfItems items

def textsOfEntries : List (List Char × JsonValue) → List (List Char)
  | [] => []
  | (key, value) :: entries => key :: value.texts ++ textsOfEntries entries

end

example : (JsonValue.list [.int 3, .string ['a', '/', 'é'], .null]).dumps =
    "[3, \"a/\\u00e9\", null]".toList := by
  decide

/-- The characters that are asked for: a slash, a question mark, and those that are escaped. -/
def IsSpecial (char : Char) : Prop :=
  char = '/' ∨ char = '?' ∨ char = '\t' ∨ char = '\r' ∨ char = '\n'

def IsKept (char : Char) : Prop := char = '/' ∨ char = '?'

variable {char : Char}

section Parts

variable (isSpecial : IsSpecial char)
include isSpecial

theorem digitChar_not_special (digit : ℕ) (isDigit : digit < 16) : Nat.digitChar digit ≠ char := by
  rcases isSpecial with rfl | rfl | rfl | rfl | rfl
  all_goals
    revert digit
    decide

theorem notMem_escapeUnit (unit : ℕ) : char ∉ escapeUnit unit := by
  intro charMem
  rw [escapeUnit, List.mem_cons, List.mem_cons, List.mem_map] at charMem
  rcases charMem with isBackslash | isLetter | ⟨part, -, isDigit⟩
  · rw [isBackslash] at isSpecial
    revert isSpecial
    unfold IsSpecial
    decide
  · rw [isLetter] at isSpecial
    revert isSpecial
    unfold IsSpecial
    decide
  · exact digitChar_not_special isSpecial _ (Nat.mod_lt _ (by decide)) isDigit

theorem notMem_escape {letter : Char} (isLetter : letter ∈ ['"', '\\', 'n', 'r', 't', 'f', 'b']) :
    char ∉ ['\\', letter] := by
  rcases isSpecial with rfl | rfl | rfl | rfl | rfl
  all_goals fin_cases isLetter <;> decide

theorem eq_of_mem_escapeChar {other : Char} (charMem : char ∈ escapeChar other) :
    IsKept char ∧ char = other := by
  unfold escapeChar at charMem
  split_ifs at charMem with _ _ isLine isReturn isTab
  · exact absurd charMem (notMem_escape isSpecial (by decide))
  · exact absurd charMem (notMem_escape isSpecial (by decide))
  · exact absurd charMem (notMem_escape isSpecial (by decide))
  · exact absurd charMem (notMem_escape isSpecial (by decide))
  · exact absurd charMem (notMem_escape isSpecial (by decide))
  · exact absurd charMem (notMem_escape isSpecial (by decide))
  · exact absurd charMem (notMem_escape isSpecial (by decide))
  · have isOther : char = other := List.mem_singleton.mp charMem
    rw [← isOther] at isLine isReturn isTab
    refine ⟨?_, isOther⟩
    rcases isSpecial with isSlash | isQuestion | isTabular | isReturning | isLineBreak
    · exact Or.inl isSlash
    · exact Or.inr isQuestion
    · exact absurd isTabular isTab
    · exact absurd isReturning isReturn
    · exact absurd isLineBreak isLine
  · exact absurd charMem (notMem_escapeUnit isSpecial _)
  · rcases List.mem_append.mp charMem with charMem | charMem
    · exact absurd charMem (notMem_escapeUnit isSpecial _)
    · exact absurd charMem (notMem_escapeUnit isSpecial _)

theorem mem_escapeChar_iff {other : Char} :
    char ∈ escapeChar other ↔ IsKept char ∧ char = other := by
  refine ⟨eq_of_mem_escapeChar isSpecial, ?_⟩
  rintro ⟨rfl | rfl, rfl⟩
  all_goals decide

theorem mem_escapeText_iff {text : List Char} :
    char ∈ escapeText text ↔ IsKept char ∧ char ∈ text := by
  have notQuote : char ≠ '"' := by
    rcases isSpecial with rfl | rfl | rfl | rfl | rfl
    all_goals decide
  simp [escapeText, notQuote, mem_escapeChar_iff isSpecial, and_comm]

theorem notMem_repr (number : ℕ) : char ∉ number.repr.toList := by
  rw [Nat.repr_eq_ofList_toDigits, String.toList_ofList]
  intro charMem
  have isDigit := Nat.isDigit_of_mem_toDigits (by decide) (by decide) charMem
  rcases isSpecial with rfl | rfl | rfl | rfl | rfl
  all_goals
    revert isDigit
    decide

theorem notMem_toString (value : ℤ) : char ∉ (toString value).toList := by
  have notMinus : char ∉ "-".toList := by
    rcases isSpecial with rfl | rfl | rfl | rfl | rfl
    all_goals decide
  rw [Int.toString_eq_repr, Int.repr_eq_if]
  split
  · exact notMem_repr isSpecial _
  · rw [String.toList_append, List.mem_append, not_or]
    exact ⟨notMinus, notMem_repr isSpecial _⟩

/-- The words and the punctuation of JSON. -/
theorem notMem_punctuation {text : List Char} (isPunctuation : text ∈ ["null".toList, "true".toList,
    "false".toList, ", ".toList, ": ".toList, ['['], [']'], ['\x7b'], ['\x7d']]) : char ∉ text := by
  rcases isSpecial with rfl | rfl | rfl | rfl | rfl
  all_goals
    revert text
    decide

theorem notMem_float (value : FloatText) : char ∉ value.text := by
  intro charMem
  have isPlain := value.isPlain char charMem
  rcases isSpecial with rfl | rfl | rfl | rfl | rfl
  all_goals
    revert isPlain
    decide

end Parts

theorem mem_intercalate_iff {separator : List Char} {texts : List (List Char)}
    (notSeparator : char ∉ separator) :
    char ∈ separator.intercalate texts ↔ ∃ text ∈ texts, char ∈ text := by
  induction texts with
  | nil => simp
  | cons text texts ih =>
      cases texts with
      | nil => simp
      | cons other texts =>
          rw [List.intercalate_cons_cons, List.mem_append, List.mem_append, ih]
          simp [notSeparator]

section Punctuation

variable (isSpecial : IsSpecial char)
include isSpecial

theorem mem_brackets_iff (texts : List (List Char)) {opening closing : Char}
    (areBrackets : (opening, closing) ∈ [('[', ']'), ('\x7b', '\x7d')]) :
    char ∈ opening :: ", ".toList.intercalate texts ++ [closing] ↔
      ∃ text ∈ texts, char ∈ text := by
  have notBracket : char ≠ opening ∧ char ≠ closing := by
    simp only [List.mem_cons, Prod.mk.injEq, List.not_mem_nil, or_false] at areBrackets
    rcases isSpecial with rfl | rfl | rfl | rfl | rfl
    all_goals
      rcases areBrackets with ⟨rfl, rfl⟩ | ⟨rfl, rfl⟩
      all_goals decide
  rw [List.cons_append, List.mem_cons, List.mem_append, List.mem_singleton,
    mem_intercalate_iff (notMem_punctuation isSpecial (by decide))]
  simp only [notBracket.1, notBracket.2, false_or, or_false]

end Punctuation

mutual

/-- A slash or a question mark comes from a text of the value, and there are no line breaks. -/
theorem mem_dumps_iff (isSpecial : IsSpecial char) : (value : JsonValue) →
    (char ∈ value.dumps ↔ IsKept char ∧ ∃ text ∈ value.texts, char ∈ text)
  | .null => iff_of_false (notMem_punctuation isSpecial (by decide)) (by simp [JsonValue.texts])
  | .bool true =>
      iff_of_false (notMem_punctuation isSpecial (by decide)) (by simp [JsonValue.texts])
  | .bool false =>
      iff_of_false (notMem_punctuation isSpecial (by decide)) (by simp [JsonValue.texts])
  | .int value => iff_of_false (notMem_toString isSpecial value) (by simp [JsonValue.texts])
  | .float value => iff_of_false (notMem_float isSpecial value) (by simp [JsonValue.texts])
  | .string text => by simp [JsonValue.dumps, JsonValue.texts, mem_escapeText_iff isSpecial]
  | .list items => by
      rw [JsonValue.dumps, mem_brackets_iff isSpecial _ (by decide),
        mem_dumpsItems_iff isSpecial items]
      rfl
  | .object entries => by
      rw [JsonValue.dumps, mem_brackets_iff isSpecial _ (by decide),
        mem_dumpsEntries_iff isSpecial entries]
      rfl

theorem mem_dumpsItems_iff (isSpecial : IsSpecial char) : (items : List JsonValue) →
    ((∃ text ∈ dumpsItems items, char ∈ text) ↔
      IsKept char ∧ ∃ text ∈ textsOfItems items, char ∈ text)
  | [] => by simp [dumpsItems, textsOfItems]
  | item :: items => by
      simp only [dumpsItems, textsOfItems, List.exists_mem_cons_iff, List.mem_append,
        or_and_right, exists_or, and_or_left]
      rw [mem_dumps_iff isSpecial item, mem_dumpsItems_iff isSpecial items]

theorem mem_dumpsEntries_iff (isSpecial : IsSpecial char) :
    (entries : List (List Char × JsonValue)) →
    ((∃ text ∈ dumpsEntries entries, char ∈ text) ↔
      IsKept char ∧ ∃ text ∈ textsOfEntries entries, char ∈ text)
  | [] => by simp [dumpsEntries, textsOfEntries]
  | (key, value) :: entries => by
      have notColon : char ∉ ": ".toList := notMem_punctuation isSpecial (by decide)
      simp only [dumpsEntries, textsOfEntries, List.cons_append, List.exists_mem_cons_iff,
        List.mem_append, or_and_right, exists_or, and_or_left, notColon, or_false]
      rw [mem_escapeText_iff isSpecial, mem_dumps_iff isSpecial value,
        mem_dumpsEntries_iff isSpecial entries, or_assoc]

end

end Deltacat.Library
