import Mathlib.Data.List.DropRight
import Mathlib.Tactic

/-!
# POSIX paths

Paths are texts. The functions cut them at separators and join them the way the
POSIX flavour of Python's path functions does: the name is what follows the last
separator, the directory is what precedes it, without the separators at its end
unless it has nothing else, and joining adds a separator only where there is none.
-/

namespace Deltacat.Library

/-- `posixpath.basename`. -/
def basename (path : List Char) : List Char := path.rtakeWhile (· ≠ '/')

/-- `posixpath.dirname`. -/
def dirname (path : List Char) : List Char :=
  let head := path.rdropWhile (· ≠ '/')
  if head.all (· = '/') then head else head.rdropWhile (· = '/')

/-- `posixpath.join`. -/
def joinPath (path name : List Char) : List Char :=
  if name.head? = some '/' then name
  else if path = [] ∨ path.getLast? = some '/' then path ++ name
  else path ++ '/' :: name

/-- A name that a path can be joined with: it is not empty and has no separator. -/
structure IsName (name : List Char) : Prop where
  nonempty : name ≠ []
  noSlash : '/' ∉ name

/-- The path with a separator at its end, unless it is empty. -/
def withSeparator (path : List Char) : List Char :=
  if path = [] ∨ path.getLast? = some '/' then path else path ++ ['/']

variable {path directory name : List Char}

theorem slash_not_mem_basename (path : List Char) : '/' ∉ basename path := by
  intro isMem
  have noSlash := List.mem_rtakeWhile_imp isMem
  simp at noSlash

section Cutting

variable (noSlash : '/' ∉ name)
include noSlash

private theorem rdropWhile_append_name :
    (directory ++ '/' :: name).rdropWhile (· ≠ '/') = directory ++ ['/'] := by
  have passed : ∀ char ∈ name.reverse, decide (char ≠ '/') = true := by
    intro char charMem
    rw [decide_eq_true_eq]
    rintro rfl
    exact noSlash (List.mem_reverse.mp charMem)
  rw [List.rdropWhile, List.reverse_append, List.reverse_cons, List.append_assoc,
    List.dropWhile_append_of_pos passed]
  simp

theorem basename_append (directory : List Char) : basename (directory ++ '/' :: name) = name := by
  have whole := @List.rdropWhile_append_rtakeWhile _ (· ≠ '/') (directory ++ '/' :: name)
  rw [rdropWhile_append_name noSlash] at whole
  rw [← List.append_cancel_left_eq (directory ++ ['/'])]
  exact whole.trans (List.append_cons directory '/' name)

theorem dirname_append (directory : List Char) :
    dirname (directory ++ '/' :: name) =
      if directory.all (· = '/') then directory ++ ['/']
      else directory.rdropWhile (· = '/') := by
  unfold dirname
  dsimp only
  rw [rdropWhile_append_name noSlash, List.all_append]
  simp only [List.all_cons, List.all_nil, decide_true, Bool.and_true]
  split_ifs
  · rfl
  · exact List.rdropWhile_concat_pos _ _ _ (by simp)

theorem basename_of_noSlash : basename name = name := by
  apply List.rtakeWhile_eq_self_iff.mpr
  intro char charMem
  rw [decide_eq_true_eq]
  rintro rfl
  exact noSlash charMem

theorem dirname_of_noSlash : dirname name = [] := by
  have dropped : name.rdropWhile (· ≠ '/') = [] := by
    rw [List.rdropWhile_eq_nil_iff]
    intro char charMem
    rw [decide_eq_true_eq]
    rintro rfl
    exact noSlash charMem
  unfold dirname
  rw [dropped]
  rfl

end Cutting

/-- A path is a name, or has a last separator. -/
theorem exists_cut (path : List Char) :
    '/' ∉ path ∨ ∃ directory name, '/' ∉ name ∧ path = directory ++ '/' :: name := by
  by_cases hasSlash : '/' ∈ path
  · rcases List.eq_append_cons_of_mem (List.mem_reverse.mpr hasSlash) with
      ⟨reversedName, reversedDirectory, isPath, noSlash⟩
    refine .inr ⟨reversedDirectory.reverse, reversedName.reverse, by simpa using noSlash, ?_⟩
    simpa using congrArg List.reverse isPath
  · exact .inl hasSlash

theorem head?_ne_slash (noSlash : '/' ∉ name) : name.head? ≠ some '/' := by
  intro isHead
  exact noSlash (List.mem_of_mem_head? isHead)

theorem getLast?_append_ne_slash (isName : IsName name) :
    (path ++ name).getLast? ≠ some '/' := by
  rw [List.getLast?_append_of_ne_nil _ isName.nonempty]
  intro isLast
  exact isName.noSlash (List.mem_of_mem_getLast? isLast)

theorem joinPath_eq (noSlash : '/' ∉ name) : joinPath path name = withSeparator path ++ name := by
  rw [joinPath, if_neg (head?_ne_slash noSlash), withSeparator]
  split_ifs
  · rfl
  · rw [List.append_assoc, List.singleton_append]

theorem withSeparator_append (isName : IsName name) :
    withSeparator (path ++ name) = path ++ name ++ ['/'] := by
  rw [withSeparator, if_neg]
  rintro (isEmpty | isLast)
  · exact isName.nonempty (List.append_eq_nil_iff.mp isEmpty).2
  · exact getLast?_append_ne_slash isName isLast

/-- Joining a path with names one after another puts separators between them. -/
theorem foldl_joinPath {names : List (List Char)} (nonempty : names ≠ [])
    (areNames : ∀ name ∈ names, IsName name) (path : List Char) :
    names.foldl joinPath path = withSeparator path ++ ['/'].intercalate names := by
  induction names generalizing path with
  | nil => exact absurd rfl nonempty
  | cons name names ih =>
      have isName := areNames name List.mem_cons_self
      rw [List.foldl_cons, joinPath_eq isName.noSlash]
      cases names with
      | nil => rw [List.foldl_nil, List.intercalate_singleton]
      | cons next names =>
          rw [ih (List.cons_ne_nil next names)
            (fun other otherMem => areNames other (List.mem_cons_of_mem name otherMem)),
            withSeparator_append isName, List.intercalate_cons_cons]
          simp only [List.append_assoc]

/-- Names that are joined end in a name. -/
theorem exists_last_name {names : List (List Char)} (nonempty : names ≠ [])
    (areNames : ∀ name ∈ names, IsName name) (path : List Char) :
    ∃ before name, IsName name ∧ path ++ ['/'].intercalate names = before ++ name := by
  induction names generalizing path with
  | nil => exact absurd rfl nonempty
  | cons name names ih =>
      cases names with
      | nil => exact ⟨path, name, areNames name List.mem_cons_self, by simp⟩
      | cons next names =>
          rcases ih (List.cons_ne_nil next names)
            (fun other otherMem => areNames other (List.mem_cons_of_mem name otherMem))
            (path ++ name ++ ['/']) with ⟨before, last, isName, isPath⟩
          refine ⟨before, last, isName, ?_⟩
          rw [← isPath, List.intercalate_cons_cons]
          simp only [List.append_assoc]

theorem dirname_append_name (isName : IsName name) (path : List Char) {last : List Char}
    (noSlash : '/' ∉ last) : dirname (path ++ name ++ '/' :: last) = path ++ name := by
  have notAll : ¬(path ++ name).all (· = '/') := by
    rcases List.exists_mem_of_ne_nil name isName.nonempty with ⟨char, charMem⟩
    intro allSlash
    have isSlash := List.all_eq_true.mp allSlash char (List.mem_append_right path charMem)
    rw [decide_eq_true_eq] at isSlash
    exact isName.noSlash (isSlash ▸ charMem)
  rw [dirname_append noSlash, if_neg notAll, List.rdropWhile_eq_self_iff]
  intro nonempty isSlash
  rw [decide_eq_true_eq] at isSlash
  apply getLast?_append_ne_slash isName
  rw [List.getLast?_eq_some_getLast nonempty, isSlash]

/-- Splitting what was joined. -/
theorem splitOn_append_intercalate {names : List (List Char)} (nonempty : names ≠ [])
    (areNames : ∀ name ∈ names, IsName name) (path : List Char) :
    (path ++ '/' :: ['/'].intercalate names).splitOn '/' = path.splitOn '/' ++ names := by
  rw [List.splitOn_append_cons_self,
    List.splitOn_intercalate '/' (fun name nameMem => (areNames name nameMem).noSlash) nonempty]

end Deltacat.Library
