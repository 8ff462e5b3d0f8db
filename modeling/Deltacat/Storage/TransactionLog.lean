import Deltacat.Library.Rounding
import Deltacat.Storage.Revision
import Mathlib.Data.Int.Log
import Mathlib.Tactic

/-!
# Transaction log paths

A completed transaction is found by its log, which lies in the directory of its
status below five directories for the year, the month, the day, the hour and the
minute of the start time. The start time is read out of the transaction's
identifier, so that whoever knows the identifier knows the path.

The conversion of a time stamp goes through a floating-point division in the
source, which may carry a time just before a full minute over into the next
one. The writer of a log and its readers convert in the same way.
-/

namespace Deltacat.Storage

open Deltacat.Library

/-- The double that is nearest to a nonnegative number that is not too large for one. -/
def nearestDouble (value : ℚ) : ℚ :=
  let exponent := max (Int.log 2 value - 52) (-1074)
  roundHalfEven (value / (2 : ℚ) ^ exponent) * (2 : ℚ) ^ exponent

/-- The full seconds of `datetime.fromtimestamp`, which rounds to microseconds first. -/
def fullSeconds (timestamp : ℚ) : ℤ :=
  let seconds := ⌊timestamp⌋
  let microseconds := roundHalfEven (nearestDouble ((timestamp - seconds) * 1000000))
  if 1000000 ≤ microseconds then seconds + 1 else seconds

/-- The year, the month and the day in the Gregorian calendar, of a day since the epoch. -/
def civilFromDays (days : ℤ) : ℤ × ℤ × ℤ :=
  -- The calendar repeats every 400 years, and years are taken to begin in March.
  let shifted := days + 719468
  let era := shifted / 146097
  let dayOfEra := shifted % 146097
  let yearOfEra := (dayOfEra - dayOfEra / 1460 + dayOfEra / 36524 - dayOfEra / 146096) / 365
  let dayOfYear := dayOfEra - (365 * yearOfEra + yearOfEra / 4 - yearOfEra / 100)
  let shiftedMonth := (5 * dayOfYear + 2) / 153
  let day := dayOfYear - (153 * shiftedMonth + 2) / 5 + 1
  let month := if shiftedMonth < 10 then shiftedMonth + 3 else shiftedMonth - 9
  (yearOfEra + era * 400 + (if month ≤ 2 then 1 else 0), month, day)

/-- The components of a UTC time; years beyond 9999 are out of range. -/
def partitionComponents (seconds : ℤ) : Except Error (List String) :=
  let (year, month, day) := civilFromDays (seconds / 86400)
  let padded (width : ℕ) (value : ℤ) := String.ofList (paddedDigits width value.toNat)
  if 9999 < year then .error .valueError
  else
    .ok [padded 4 year, padded 2 month, padded 2 day,
      padded 2 (seconds / 3600 % 24), padded 2 (seconds / 60 % 60)]

/-- `epoch_timestamp_partition_transform`. -/
def epochTimestampPartitionTransform (epochTimestamp : ℤ) : Except Error (List String) :=
  let digits := (toString epochTimestamp).length
  if epochTimestamp < 0 then .error .valueError
  else if 19 ≤ digits then
    partitionComponents (fullSeconds (nearestDouble (epochTimestamp / 1000000000)))
  else if 13 ≤ digits then
    partitionComponents (fullSeconds (nearestDouble (epochTimestamp / 1000)))
  else if 10 ≤ digits then partitionComponents epochTimestamp
  else .error .valueError

theorem partitionComponents_length {seconds : ℤ} {dirs : List String}
    (transformed : partitionComponents seconds = .ok dirs) : dirs.length = 5 := by
  simp only [partitionComponents] at transformed
  split at transformed
  · cases transformed
  · cases transformed
    rfl

theorem epochTimestampPartitionTransform_length {epochTimestamp : ℤ} {dirs : List String}
    (transformed : epochTimestampPartitionTransform epochTimestamp = .ok dirs) :
    dirs.length = 5 := by
  simp only [epochTimestampPartitionTransform] at transformed
  split at transformed
  · cases transformed
  split at transformed
  · exact partitionComponents_length transformed
  split at transformed
  · exact partitionComponents_length transformed
  split at transformed
  · exact partitionComponents_length transformed
  · cases transformed

example : epochTimestampPartitionTransform 1705323000 = .ok ["2024", "01", "15", "12", "50"] := by
  decide +kernel

/-- `text.strip()`. -/
def strip (text : List Char) : List Char :=
  ((text.dropWhile Char.isWhitespace).reverse.dropWhile Char.isWhitespace).reverse

def digitValue (base : ℕ) (char : Char) : Option ℕ :=
  let digit :=
    if char.isDigit then char.toNat - '0'.toNat
    else if 'a' ≤ char ∧ char ≤ 'f' then char.toNat - 'a'.toNat + 10
    else if 'A' ≤ char ∧ char ≤ 'F' then char.toNat - 'A'.toNat + 10
    else base
  if digit < base then some digit else none

/-- The digits of a text, behind the mark of a hexadecimal number. -/
def unmarked (base : ℕ) : List Char → List Char
  | '0' :: mark :: rest =>
      if base = 16 ∧ (mark = 'x' ∨ mark = 'X') then rest else '0' :: mark :: rest
  | digits => digits

def parseDigits (base : ℕ) (digits : List Char) : Option ℤ :=
  if digits = [] then none
  else
    (digits.mapM (digitValue base)).map fun values =>
      values.foldl (fun sum digit => sum * base + digit) 0

/-- `int(text, base)`, of a text without underscores. -/
def parseInteger (base : ℕ) (text : List Char) : Option ℤ :=
  match strip text with
  | '-' :: rest => (parseDigits base (unmarked base rest)).map (- ·)
  | '+' :: rest => parseDigits base (unmarked base rest)
  | digits => parseDigits base (unmarked base digits)

/-- `text.replace(pattern, "")`, while so many characters of a match are still to be skipped. -/
def removeAll (pattern : List Char) : ℕ → List Char → List Char
  | _, [] => []
  | skip + 1, _ :: rest => removeAll pattern skip rest
  | 0, char :: rest =>
      if pattern.isPrefixOf (char :: rest) then removeAll pattern (pattern.length - 1) rest
      else char :: removeAll pattern 0 rest

/-- Whether `uuid.UUID` accepts a text. -/
def isUuid (text : String) : Bool :=
  let brace (char : Char) : Bool := char = '\x7b' ∨ char = '\x7d'
  let unprefixed := removeAll "uuid:".toList 0 (removeAll "urn:".toList 0 text.toList)
  let bare := ((unprefixed.dropWhile brace).reverse.dropWhile brace).reverse
  let hex := bare.filter (· ≠ '-')
  hex.length = 32 ∧ (parseInteger 16 hex).any (0 ≤ ·)

/-- `parse_transaction_id`: the start time and the identifier's second half. -/
def parseTransactionId (transactionId : String) : Except Error (ℤ × String) :=
  match transactionId.toList.splitOn '_' with
  | [startText, uuidText] =>
      match parseInteger 10 startText with
      | none => .error .valueError
      | some startTime =>
          if isUuid (String.ofList uuidText) then .ok (startTime, String.ofList uuidText)
          else .error .valueError
  | _ => .error .valueError

/-- `_partitioned_txn_log_path`, relative to the directory of the status. -/
def partitionedTxnLogPath (txnId : String) : Except Error (List String) := do
  let (startTime, _) ← parseTransactionId txnId
  let dirs ← epochTimestampPartitionTransform startTime
  return dirs ++ [txnId]

/-- A log lies six levels below its status directory, under its own name. -/
theorem partitionedTxnLogPath_ok {txnId : String} {path : List String}
    (isPath : partitionedTxnLogPath txnId = .ok path) :
    ∃ dirs : List String, dirs.length = 5 ∧ path = dirs ++ [txnId] := by
  simp only [partitionedTxnLogPath, bind, Except.bind] at isPath
  split at isPath
  · cases isPath
  split at isPath
  · cases isPath
  · rename_i dirs transformed
    cases isPath
    exact ⟨dirs, epochTimestampPartitionTransform_length transformed, rfl⟩

/-- Stripping keeps a first character that is no white space. -/
private theorem strip_cons {char : Char} (visible : ¬char.isWhitespace) (rest : List Char) :
    ∃ stripped, strip (char :: rest) = char :: stripped := by
  unfold strip
  rw [List.dropWhile_cons_of_neg visible, List.reverse_cons, List.dropWhile_append]
  split
  · exact ⟨[], by simp [visible]⟩
  · exact ⟨(rest.reverse.dropWhile Char.isWhitespace).reverse, by simp⟩

private theorem parseInteger_of_excluded {char : Char} (excluded : char = '.' ∨ char = '_')
    (rest : List Char) : parseInteger 10 (char :: rest) = none := by
  have visible : ¬char.isWhitespace := by
    rcases excluded with rfl | rfl <;> decide
  have noDigit : digitValue 10 char = none := by
    rcases excluded with rfl | rfl <;> decide
  rcases strip_cons visible rest with ⟨stripped, isStripped⟩
  rcases excluded with rfl | rfl <;>
    simp [parseInteger, isStripped, unmarked, parseDigits, noDigit]

/-- The name of a log is not one that `list_directory` leaves out. -/
theorem hasExcludedPrefix_of_parseTransactionId {txnId : String} {parsed : ℤ × String}
    (isParsed : parseTransactionId txnId = .ok parsed) :
    Utils.hasExcludedPrefix txnId = false := by
  simp only [parseTransactionId] at isParsed
  split at isParsed
  · rename_i startText uuidText parts
    have joined : txnId.toList = startText ++ '_' :: uuidText := by
      have whole : ['_'].intercalate (txnId.toList.splitOn '_') = txnId.toList :=
        List.intercalate_splitOn '_'
      rw [parts] at whole
      simpa [List.intercalate] using whole.symm
    cases startText with
    | nil => simp [parseInteger, strip, unmarked, parseDigits] at isParsed
    | cons char startText =>
        by_contra excluded
        have isExcluded : char = '.' ∨ char = '_' := by
          simpa [Utils.hasExcludedPrefix, joined, or_iff_not_imp_left] using excluded
        simp [parseInteger_of_excluded isExcluded] at isParsed
  · cases isParsed

end Deltacat.Storage
