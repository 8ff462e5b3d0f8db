import Mathlib

/-!
# Splitting URLs

URLs are texts. `urlsplit` follows the function of Python's `urllib.parse` with
fragments disallowed, and `pathElements` cuts a path at its slashes, without empty
elements. A URL that was put together from elements without separators is split
into the same elements (`urlsplit_eq` and `elementsBehind_joinElements`).
-/

namespace Deltacat.Library

/-- The parts of a URL, where everything behind the location up to a query is the path. -/
structure SplitUrl where
  scheme : List Char
  netloc : List Char
  path : List Char
  query : List Char

/-- The characters that are removed wherever they are. -/
def isUnsafe (char : Char) : Bool := char = '\t' || char = '\r' || char = '\n'

def withoutUnsafe (text : List Char) : List Char := text.filter fun char => !isUnsafe char

/-- The characters that a location ends at. -/
def isDelimiter (char : Char) : Bool := char = '/' || char = '?' || char = '#'

theorem noDelimiter_of_all {text : List Char}
    (noDelimiter : text.all fun char => !isDelimiter char) :
    ∀ char ∈ text, isDelimiter char = false :=
  fun char charMem => by simpa using List.all_eq_true.mp noDelimiter char charMem

def isSchemeChar (char : Char) : Bool :=
  char.isAlphanum || char = '+' || char = '-' || char = '.'

/-- The scheme of a URL in lower case, and the rest. -/
def splitScheme (url : List Char) : List Char × List Char :=
  let head := url.takeWhile (· ≠ ':')
  match url.dropWhile (· ≠ ':') with
  | [] => ([], url)
  | _ :: rest =>
      if head.head?.any Char.isAlpha && head.all isSchemeChar then (head.map Char.toLower, rest)
      else ([], url)

/-- The location behind two slashes, and the rest. -/
def splitNetloc : List Char → List Char × List Char
  | '/' :: '/' :: rest =>
      (rest.takeWhile fun char => !isDelimiter char, rest.dropWhile fun char => !isDelimiter char)
  | rest => ([], rest)

/--
`urlsplit(url, allow_fragments=False)`, which fails for invalid locations. What is
checked of a location, its brackets and how its characters are normalized, differs
between the versions of Python.
-/
def urlsplit (netlocIsValid : List Char → Bool) (url : List Char) : Option SplitUrl :=
  let url := withoutUnsafe (url.dropWhile fun char => decide (char.toNat ≤ 32))
  let (scheme, rest) := splitScheme url
  let (netloc, rest) := splitNetloc rest
  if netlocIsValid netloc then
    some {
      scheme := scheme
      netloc := netloc
      path := rest.takeWhile (· ≠ '?')
      query := (rest.dropWhile (· ≠ '?')).tail }
  else none

/-- `path.strip("/").split("/")` without the empty elements. -/
def pathElements (path : List Char) : List (List Char) :=
  (((path.dropWhile (· = '/')).rdropWhile (· = '/')).splitOn '/').filter (· ≠ [])

/-- The elements, each with a slash behind it. -/
def joinElements (elements : List (List Char)) : List Char :=
  elements.flatMap fun element => element ++ ['/']

/-- A text that a URL can have as an element of its path. -/
structure IsPathElement (element : List Char) : Prop where
  nonempty : element ≠ []
  isPlain : ∀ char ∈ element, char ≠ '/' ∧ char ≠ '?' ∧ isUnsafe char = false

theorem isPathElement_of_all {element : List Char} (nonempty : element ≠ [])
    (isPlain : element.all fun char => char ≠ '/' ∧ char ≠ '?' ∧ isUnsafe char = false) :
    IsPathElement element :=
  ⟨nonempty, fun char charMem => of_decide_eq_true (List.all_eq_true.mp isPlain char charMem)⟩

variable {path element : List Char} {elements : List (List Char)}

section PathElements

theorem pathElements_slash_cons (path : List Char) :
    pathElements ('/' :: path) = pathElements path := by
  rw [pathElements, List.dropWhile_cons_of_pos (by decide)]
  rfl

/-- Slashes at the end give empty elements only. -/
theorem filter_splitOn_append_slash (path : List Char) :
    ((path ++ ['/']).splitOn '/').filter (· ≠ []) = (path.splitOn '/').filter (· ≠ []) := by
  rw [List.splitOn_append_cons_self, List.filter_append]
  simp

theorem filter_splitOn_rdropWhile (path : List Char) :
    ((path.rdropWhile (· = '/')).splitOn '/').filter (· ≠ []) =
      (path.splitOn '/').filter (· ≠ []) := by
  induction path using List.reverseRecOn with
  | nil => rfl
  | append_singleton path char ih =>
      by_cases isSlash : char = '/'
      · rw [isSlash, List.rdropWhile_concat_pos _ _ _ (by decide), ih,
          filter_splitOn_append_slash]
      · rw [List.rdropWhile_concat_neg _ _ _ (by simpa using isSlash)]

theorem filter_splitOn_dropWhile (path : List Char) :
    ((path.dropWhile (· = '/')).splitOn '/').filter (· ≠ []) =
      (path.splitOn '/').filter (· ≠ []) := by
  induction path with
  | nil => rfl
  | cons char path ih =>
      by_cases isSlash : char = '/'
      · rw [isSlash, List.dropWhile_cons_of_pos (by decide), ih, List.splitOn_cons_eq_if_modifyHead]
        simp
      · rw [List.dropWhile_cons_of_neg (by simpa using isSlash)]

/-- The slashes at both ends make no difference to the elements. -/
theorem pathElements_eq (path : List Char) :
    pathElements path = (path.splitOn '/').filter (· ≠ []) := by
  rw [pathElements, filter_splitOn_rdropWhile, filter_splitOn_dropWhile]

theorem pathElements_append (isElement : IsPathElement element) (path : List Char) :
    pathElements (element ++ '/' :: path) = element :: pathElements path := by
  have noSlash : '/' ∉ element := fun slashMem => (isElement.isPlain '/' slashMem).1 rfl
  rw [pathElements_eq, pathElements_eq, List.splitOn_append_cons_self,
    List.splitOn_eq_singleton noSlash]
  simp [isElement.nonempty]

theorem slash_notMem_of_mem_splitOn (elementMem : element ∈ path.splitOn '/') :
    '/' ∉ element ∧ ∀ char ∈ element, char ∈ path := by
  induction path generalizing element with
  | nil =>
      rw [List.splitOn_nil, List.mem_singleton] at elementMem
      simp [elementMem]
  | cons first path ih =>
      rw [List.splitOn_cons_eq_if_modifyHead] at elementMem
      by_cases isSlash : first = '/'
      · rw [if_pos (by simpa using isSlash), List.mem_cons] at elementMem
        rcases elementMem with rfl | elementMem
        · simp
        · have isPart := ih elementMem
          exact ⟨isPart.1, fun char charMem => List.mem_cons_of_mem _ (isPart.2 char charMem)⟩
      · rw [if_neg (by simpa using isSlash)] at elementMem
        rcases List.exists_cons_of_ne_nil (List.splitOn_ne_nil '/' path) with
          ⟨head, tail, isSplit⟩
        rw [isSplit] at elementMem ih
        rcases List.mem_cons.mp elementMem with rfl | elementMem
        · have isPart := ih List.mem_cons_self
          refine ⟨fun slashMem => ?_, fun char charMem => ?_⟩
          · rcases List.mem_cons.mp slashMem with isFirst | slashMem
            · exact isSlash isFirst.symm
            · exact isPart.1 slashMem
          · rcases List.mem_cons.mp charMem with rfl | charMem
            · exact List.mem_cons_self
            · exact List.mem_cons_of_mem _ (isPart.2 char charMem)
        · have isPart := ih (List.mem_cons_of_mem _ elementMem)
          exact ⟨isPart.1, fun char charMem => List.mem_cons_of_mem _ (isPart.2 char charMem)⟩

theorem mem_of_mem_pathElements (elementMem : element ∈ pathElements path) :
    element ≠ [] ∧ '/' ∉ element ∧ ∀ char ∈ element, char ∈ path := by
  rw [pathElements_eq, List.mem_filter] at elementMem
  exact ⟨by simpa using elementMem.2, slash_notMem_of_mem_splitOn elementMem.1⟩

end PathElements

section UrlSplit

variable {scheme netloc : List Char}

theorem withoutUnsafe_append (left right : List Char) :
    withoutUnsafe (left ++ right) = withoutUnsafe left ++ withoutUnsafe right :=
  List.filter_append left right

theorem withoutUnsafe_cons {char : Char} (isSafe : isUnsafe char = false) (text : List Char) :
    withoutUnsafe (char :: text) = char :: withoutUnsafe text :=
  List.filter_cons_of_pos (by simp [isSafe])

/-- The elements that a URL with this text behind its location has. -/
def elementsBehind (rest : List Char) : List (List Char) :=
  pathElements ((withoutUnsafe rest).takeWhile (· ≠ '?'))

theorem elementsBehind_append (isElement : IsPathElement element) (rest : List Char) :
    elementsBehind (element ++ '/' :: rest) = element :: elementsBehind rest := by
  have isSafe : withoutUnsafe element = element :=
    List.filter_eq_self.mpr fun char charMem => by simp [(isElement.isPlain char charMem).2.2]
  have noQuery : ∀ char ∈ element, decide (char ≠ '?') = true := fun char charMem =>
    decide_eq_true (isElement.isPlain char charMem).2.1
  rw [elementsBehind, withoutUnsafe_append, isSafe, withoutUnsafe_cons (by decide),
    List.takeWhile_append_of_pos noQuery, List.takeWhile_cons_of_pos (by decide),
    pathElements_append isElement]
  rfl

theorem elementsBehind_joinElements_cons (isElement : IsPathElement element) :
    elementsBehind (joinElements (element :: elements)) =
      element :: elementsBehind (joinElements elements) := by
  rw [joinElements, List.flatMap_cons, List.append_assoc, List.singleton_append,
    elementsBehind_append isElement]
  rfl

/-- Elements without separators get through the splitting. -/
theorem elementsBehind_joinElements (areElements : ∀ element ∈ elements, IsPathElement element) :
    elementsBehind (joinElements elements) = elements := by
  induction elements with
  | nil => rfl
  | cons element elements ih =>
      rw [List.forall_mem_cons] at areElements
      rw [elementsBehind_joinElements_cons areElements.1, ih areElements.2]

/-- What is taken out of a split URL is an element. -/
theorem isPathElement_of_mem {rest : List Char} (elementMem : element ∈ elementsBehind rest) :
    IsPathElement element := by
  rcases mem_of_mem_pathElements elementMem with ⟨nonempty, noSlash, areChars⟩
  refine ⟨nonempty, fun char charMem => ⟨?_, ?_, ?_⟩⟩
  · rintro rfl
    exact noSlash charMem
  · simpa using List.mem_takeWhile_imp (areChars char charMem)
  · have isKept := List.of_mem_filter (List.takeWhile_subset _ (areChars char charMem))
    simpa using isKept

theorem isLower_bounds {char : Char} (isLower : char.isLower) :
    97 ≤ char.toNat ∧ char.toNat ≤ 122 := by
  simp only [Char.isLower, Bool.and_eq_true, decide_eq_true_eq] at isLower
  exact isLower

theorem toLower_of_isLower {char : Char} (isLower : char.isLower) : char.toLower = char := by
  have bounds := isLower_bounds isLower
  unfold Char.toLower
  rw [dif_neg]
  rintro ⟨-, upper⟩
  have upper : char.toNat ≤ 90 := upper
  omega

theorem withoutUnsafe_scheme (isScheme : ∀ char ∈ scheme, char.isLower) :
    withoutUnsafe scheme = scheme := by
  apply List.filter_eq_self.mpr
  intro char charMem
  have bounds := isLower_bounds (isScheme char charMem)
  simp only [isUnsafe, Bool.not_eq_true', Bool.or_eq_false_iff, decide_eq_false_iff_not]
  refine ⟨⟨?_, ?_⟩, ?_⟩
  all_goals
    rintro rfl
    revert bounds
    decide

theorem splitScheme_eq (isScheme : scheme ≠ [] ∧ ∀ char ∈ scheme, char.isLower)
    (rest : List Char) : splitScheme (scheme ++ ':' :: rest) = (scheme, rest) := by
  have noColon : ∀ char ∈ scheme, decide (char ≠ ':') = true := by
    intro char charMem
    have bounds := isLower_bounds (isScheme.2 char charMem)
    rw [decide_eq_true_eq]
    rintro rfl
    revert bounds
    decide
  have isHead : (scheme ++ ':' :: rest).takeWhile (· ≠ ':') = scheme := by
    rw [List.takeWhile_append_of_pos noColon, List.takeWhile_cons_of_neg (by decide),
      List.append_nil]
  have isTail : (scheme ++ ':' :: rest).dropWhile (· ≠ ':') = ':' :: rest := by
    rw [List.dropWhile_append_of_pos noColon, List.dropWhile_cons_of_neg (by decide)]
  have isValid : (scheme.head?.any Char.isAlpha && scheme.all isSchemeChar) = true := by
    cases scheme with
    | nil => exact absurd rfl isScheme.1
    | cons first others =>
        rw [Bool.and_eq_true, List.all_eq_true]
        refine ⟨?_, fun char charMem => ?_⟩
        · simp [Char.isAlpha, isScheme.2 first List.mem_cons_self]
        · simp [isSchemeChar, Char.isAlphanum, Char.isAlpha, isScheme.2 char charMem]
  have isLowerCase : scheme.map Char.toLower = scheme := by
    refine (List.map_congr_left fun char charMem => ?_).trans (List.map_id scheme)
    exact toLower_of_isLower (isScheme.2 char charMem)
  unfold splitScheme
  rw [isHead, isTail]
  simp only [isValid, if_true, isLowerCase]

theorem splitNetloc_eq (noDelimiter : ∀ char ∈ netloc, isDelimiter char = false)
    (rest : List Char) :
    splitNetloc ('/' :: '/' :: netloc ++ '/' :: rest) = (netloc, '/' :: rest) := by
  have isPlain : ∀ char ∈ netloc, (!isDelimiter char) = true := by
    intro char charMem
    rw [noDelimiter char charMem]
    rfl
  simp only [List.cons_append, splitNetloc, List.takeWhile_append_of_pos isPlain,
    List.dropWhile_append_of_pos isPlain]
  rw [List.takeWhile_cons_of_neg (by decide), List.dropWhile_cons_of_neg (by decide),
    List.append_nil]

/-- The scheme, the location and the path of a URL are those it was put together from. -/
theorem urlsplit_eq (netlocIsValid : List Char → Bool)
    (isScheme : scheme ≠ [] ∧ ∀ char ∈ scheme, char.isLower)
    (noDelimiter : ∀ char ∈ netloc, isDelimiter char = false) (rest : List Char) :
    urlsplit netlocIsValid (scheme ++ ':' :: '/' :: '/' :: netloc ++ '/' :: rest) =
      if netlocIsValid (withoutUnsafe netloc) then
        some {
          scheme := scheme
          netloc := withoutUnsafe netloc
          path := '/' :: (withoutUnsafe rest).takeWhile (· ≠ '?')
          query := ((withoutUnsafe rest).dropWhile (· ≠ '?')).tail }
      else none := by
  have noDelimiter : ∀ char ∈ withoutUnsafe netloc, isDelimiter char = false := fun char charMem =>
    noDelimiter char (List.mem_of_mem_filter charMem)
  have noneRemoved : (scheme ++ ':' :: '/' :: '/' :: netloc ++ '/' :: rest).dropWhile
      (fun char => decide (char.toNat ≤ 32)) =
        scheme ++ ':' :: '/' :: '/' :: netloc ++ '/' :: rest := by
    cases scheme with
    | nil => exact absurd rfl isScheme.1
    | cons first others =>
        have bounds := isLower_bounds (isScheme.2 first List.mem_cons_self)
        exact List.dropWhile_cons_of_neg (by simp only [decide_eq_true_eq]; omega)
  have isClean : withoutUnsafe (scheme ++ ':' :: '/' :: '/' :: netloc ++ '/' :: rest) =
      scheme ++ ':' :: ('/' :: '/' :: withoutUnsafe netloc ++ '/' :: withoutUnsafe rest) := by
    rw [List.append_assoc, withoutUnsafe_append, withoutUnsafe_scheme isScheme.2, List.cons_append,
      withoutUnsafe_cons (by decide), List.cons_append, withoutUnsafe_cons (by decide),
      List.cons_append, withoutUnsafe_cons (by decide), withoutUnsafe_append,
      withoutUnsafe_cons (by decide)]
    rfl
  rw [urlsplit, noneRemoved, isClean, splitScheme_eq isScheme]
  simp only [splitNetloc_eq noDelimiter]
  rw [List.takeWhile_cons_of_pos (by decide), List.dropWhile_cons_of_pos (by decide)]

end UrlSplit

end Deltacat.Library
