import Deltacat.Experimental.Rivulet.BlockIntervalTree
import Deltacat.Exceptions
import Deltacat.Library.Grouping
import Deltacat.Library.Run
import Mathlib.Data.List.Sort
import Mathlib.Data.Multiset.Basic
import Mathlib.Algebra.BigOperators.Group.Multiset.Basic
import Mathlib.Tactic

/-!
# The memtable writer

Records are collected in a memtable. A full memtable is replaced by a new one and
handed to a background thread, which writes its records to a data file and then
an SST file that refers to it. `flush` hands over the current memtable too, waits
for all threads and lists the SST files written since the last flush in a
manifest. The files are named by the clock.

`flush` keeps the current memtable in place, so that its records are written
again with the next flush or when it is full (`not_commitsOnce_run`). A record
of another type than the memtable holds does not replace the memtable either,
since `isinstance` raises no exception, and the memtable can then not be written.
Otherwise, and if the clock does not name two files alike, each flush has listed
every record written so far once (`commitsOnce_run`).
-/

namespace Deltacat.Experimental.Rivulet

open Deltacat.Library

universe u

variable {Record Key : Type u}

/-- What `write` hands to `write_dict` or to `write_record_batch`. -/
inductive Item (Record : Type u)
  | dict (record : Record)
  | recordBatch (records : List Record)
  deriving DecidableEq

/-- The classes `DictMemTable` and `RecordBatchMemTable`. -/
inductive MemtableType
  | dict
  | recordBatch
  deriving DecidableEq

namespace Item

def records : Item Record → List Record
  | dict record => [record]
  | recordBatch records => records

/-- The memtable that is constructed for an item. -/
def memtableType : Item Record → MemtableType
  | dict _ => .dict
  | recordBatch _ => .recordBatch

end Item

structure Memtable (Record : Type u) where
  type : MemtableType
  rowSize : ℕ
  items : List (Item Record)
  deriving DecidableEq

namespace Memtable

def new (type : MemtableType) : Memtable Record where
  type := type
  rowSize := 0
  items := []

/--
`add_record` of both classes: whether the memtable is full. A dict has no
`num_rows`, which shows only after it was added to the batches.
-/
def addRecord (maxRowSize : ℕ) (memtable : Memtable Record) (item : Item Record) :
    Memtable Record × Except Error Bool :=
  let added := { memtable with items := memtable.items ++ [item] }
  match memtable.type, item with
  | .dict, _ =>
      let rowSize := memtable.rowSize + 1
      ({ added with rowSize := rowSize }, .ok (maxRowSize ≤ rowSize))
  | .recordBatch, .dict _ => (added, .error .attributeError)
  | .recordBatch, .recordBatch records =>
      let rowSize := memtable.rowSize + records.length
      ({ added with rowSize := rowSize }, .ok (maxRowSize ≤ rowSize))

def records (memtable : Memtable Record) : List Record :=
  memtable.items.flatMap Item.records

/-- All items are of the type of the memtable. -/
def IsUniform (memtable : Memtable Record) : Prop :=
  ∀ item ∈ memtable.items, item.memtableType = memtable.type

instance (memtable : Memtable Record) : Decidable memtable.IsUniform :=
  inferInstanceAs (Decidable (∀ item ∈ memtable.items, item.memtableType = memtable.type))

/--
`get_sorted_records`. That a memtable of dicts is sorted in place is left out, as
it is sorted again each time. What becomes of a memtable with items of the other
type, if it does not raise an exception, is up to `mixed`.
-/
def getSortedRecords [LinearOrder Key] (mergeKey : Record → Key)
    (mixed : Memtable Record → Option (List Record)) (memtable : Memtable Record) :
    Option (List Record) :=
  if memtable.IsUniform then
    some (memtable.records.insertionSort fun left right => mergeKey left ≤ mergeKey right)
  else mixed memtable

end Memtable

/-- How far a background thread is. -/
inductive FlushStage (Key : Type u)
  | started
  | serialized (sstMetadataList : List (SSTableRow Key))
  | finished (sstFile : Option ℕ)

/-- A thread that runs `__flush_memtable_async` on a memtable. -/
structure FlushThread (Key : Type u) where
  memtable : Option ℕ
  stage : FlushStage Key

def FlushThread.isAlive (thread : FlushThread Key) : Bool :=
  match thread.stage with
  | .finished _ => false
  | _ => true

/-- The SST file that a thread wrote. -/
def FlushThread.sstFile (thread : FlushThread Key) : Option ℕ :=
  match thread.stage with
  | .finished sstFile => sstFile
  | _ => none

theorem FlushThread.sstFile_of_isAlive {thread : FlushThread Key} (alive : thread.isAlive) :
    thread.sstFile = none := by
  rcases thread with ⟨number, _ | rows | sstFile⟩
  · rfl
  · rfl
  · cases alive

/--
The writer with its threads and the files they wrote. Memtables and threads are
numbered, files are named by clock readings, and a later file of the same name
hides an earlier one. `flushing` is set while `flush` waits for threads.
-/
structure Writer (Record Key : Type u) where
  currMemtable : Option ℕ
  memtables : List (Memtable Record)
  openMemtables : List ℕ
  threads : List (FlushThread Key)
  openThreads : List ℕ
  sstFiles : List ℕ
  dataFiles : List (ℕ × List Record)
  ssts : List (ℕ × List (SSTableRow Key))
  manifests : List (List ℕ)
  flushing : Bool

namespace Writer

def new : Writer Record Key where
  currMemtable := none
  memtables := []
  openMemtables := []
  threads := []
  openThreads := []
  sstFiles := []
  dataFiles := []
  ssts := []
  manifests := []
  flushing := false

/-- `__flush_memtable`. -/
def flushMemtable (writer : Writer Record Key) (memtable : Option ℕ) : Writer Record Key :=
  { writer with
    threads := writer.threads ++ [⟨memtable, .started⟩]
    openThreads := writer.openThreads ++ [writer.threads.length] }

def isAlive (writer : Writer Record Key) (thread : ℕ) : Bool :=
  writer.threads[thread]?.any FlushThread.isAlive

/-- A new memtable becomes the current one. -/
def setCurrMemtable (writer : Writer Record Key) (type : MemtableType) : Writer Record Key :=
  { writer with
    memtables := writer.memtables ++ [.new type]
    currMemtable := some writer.memtables.length }

/-- `__rotate_memtable`. -/
def rotateMemtable (writer : Writer Record Key) (type : MemtableType) : Writer Record Key :=
  let flushed := (writer.flushMemtable writer.currMemtable).setCurrMemtable type
  let opened := { flushed with
    openMemtables := flushed.openMemtables ++ flushed.currMemtable.toList }
  { opened with openThreads := opened.openThreads.filter opened.isAlive }

/-- The current memtable, constructed if there is none. -/
def openCurrent (writer : Writer Record Key) (type : MemtableType) : Writer Record Key :=
  match writer.currMemtable with
  | none => writer.setCurrMemtable type
  | some _ => writer

/-- The item is added to the current memtable, which is replaced if it is full. -/
def addToCurrent (maxRowSize : ℕ) (writer : Writer Record Key) (item : Item Record) :
    Writer Record Key × Except Error Unit :=
  match writer.currMemtable.bind fun index =>
      writer.memtables[index]?.map fun memtable => (index, memtable) with
  | none => (writer, .error .attributeError)
  | some (index, memtable) =>
      let (memtable, isFull) := memtable.addRecord maxRowSize item
      let writer := { writer with memtables := writer.memtables.set index memtable }
      match isFull with
      | .error error => (writer, .error error)
      | .ok false => (writer, .ok ())
      | .ok true => (writer.rotateMemtable item.memtableType, .ok ())

/--
`write_dict` and `write_record_batch`. The test of the type of the current
memtable is without effect, as `isinstance` does not raise a `TypeError`.
-/
def writeItem (maxRowSize : ℕ) (writer : Writer Record Key) (item : Item Record) :
    Writer Record Key × Except Error Unit :=
  (writer.openCurrent item.memtableType).addToCurrent maxRowSize item

/-- `flush` up to the point where it waits. -/
def flush (writer : Writer Record Key) : Writer Record Key :=
  { writer.flushMemtable writer.currMemtable with flushing := true }

/-- The rest of `flush`, after the threads have ended. -/
def writeManifestFile (writer : Writer Record Key) : Writer Record Key :=
  { writer with
    manifests := writer.manifests ++ [writer.sstFiles]
    sstFiles := []
    flushing := false }

def setStage (writer : Writer Record Key) (index : ℕ) (thread : FlushThread Key)
    (stage : FlushStage Key) : Writer Record Key :=
  { writer with threads := writer.threads.set index { thread with stage := stage } }

/-- `__flush_memtable_async` up to the data file, which an exception ends. -/
def flushBatch [LinearOrder Key] (mergeKey : Record → Key)
    (mixed : Memtable Record → Option (List Record)) (writer : Writer Record Key)
    (index clock : ℕ) : Option (Writer Record Key) := do
  let thread ← writer.threads[index]?
  match thread.stage, thread.memtable with
  | .started, none => some (writer.setStage index thread (.finished none))
  | .started, some number =>
      let memtable ← writer.memtables[number]?
      match memtable.getSortedRecords mergeKey mixed with
      | none => some (writer.setStage index thread (.finished none))
      | some [] =>
          some { writer.setStage index thread (.finished none) with
            openMemtables := writer.openMemtables.erase number }
      | some (first :: rest) =>
          let row := ⟨mergeKey first, mergeKey (rest.getLastD first), clock⟩
          some { writer.setStage index thread (.serialized [row]) with
            dataFiles := (clock, first :: rest) :: writer.dataFiles }
  | _, _ => none

/-- The rest of `__flush_memtable_async`. -/
def writeSst (writer : Writer Record Key) (index clock : ℕ) : Option (Writer Record Key) := do
  let thread ← writer.threads[index]?
  match thread.stage with
  | .serialized sstMetadataList =>
      some { writer.setStage index thread (.finished (some clock)) with
        ssts := (clock, sstMetadataList) :: writer.ssts
        sstFiles := writer.sstFiles.insert clock
        openMemtables := thread.memtable.elim writer.openMemtables writer.openMemtables.erase }
  | _ => none

end Writer

/-- A step of the writer or of one of its threads. -/
inductive WriterEvent (Record : Type u)
  | write (item : Item Record)
  | flush
  | flushBatch (thread clock : ℕ)
  | writeSst (thread clock : ℕ)
  | commit

def WriterEvent.records : WriterEvent Record → List Record
  | write item => item.records
  | _ => []

namespace Writer

section Steps

variable [LinearOrder Key] (mergeKey : Record → Key) (maxRowSize : ℕ)
  (mixed : Memtable Record → Option (List Record))

/-- Only threads move while `flush` waits; it goes on when no open thread is alive. -/
def step (writer : Writer Record Key) : WriterEvent Record → Option (Writer Record Key)
  | .write item => if writer.flushing then none else some (writer.writeItem maxRowSize item).1
  | .flush => if writer.flushing then none else some writer.flush
  | .flushBatch thread clock => writer.flushBatch mergeKey mixed thread clock
  | .writeSst thread clock => writer.writeSst thread clock
  | .commit =>
      if writer.flushing ∧ ∀ thread ∈ writer.openThreads, ¬writer.isAlive thread then
        some writer.writeManifestFile
      else none

def Step (writer : Writer Record Key) (event : WriterEvent Record)
    (next : Writer Record Key) : Prop :=
  writer.step mergeKey maxRowSize mixed event = some next

end Steps

/-- The records of the data files that an SST file refers to. -/
def dataRecords (writer : Writer Record Key) (rows : List (SSTableRow Key)) : List Record :=
  rows.flatMap fun row => (writer.dataFiles.lookup row.uri).getD []

def sstRecords (writer : Writer Record Key) (sstFile : ℕ) : List Record :=
  writer.dataRecords ((writer.ssts.lookup sstFile).getD [])

/--
Over all manifests the records are contained in the SST files once each, and
every SST file is listed once.
-/
structure CommitsOnce (writer : Writer Record Key) (written : List Record) : Prop where
  records : (writer.manifests.flatten.flatMap writer.sstRecords).Perm written
  nodup : writer.manifests.flatten.Nodup
  listed : ∀ sstFile, sstFile ∈ writer.manifests.flatten ↔ sstFile ∈ writer.ssts.map Prod.fst

/-- An SST file of the current memtable has been written. -/
def CurrentWritten (writer : Writer Record Key) : Prop :=
  ∃ thread ∈ writer.threads, thread.memtable.isSome ∧ thread.memtable = writer.currMemtable ∧
    thread.sstFile.isSome

instance (writer : Writer Record Key) : Decidable writer.CurrentWritten :=
  inferInstanceAs (Decidable (∃ thread ∈ writer.threads, thread.memtable.isSome ∧
    thread.memtable = writer.currMemtable ∧ thread.sstFile.isSome))

def current (writer : Writer Record Key) : Option (Memtable Record) :=
  writer.currMemtable.bind fun index => writer.memtables[index]?

/-- The item fills the current memtable. -/
def Fills (maxRowSize : ℕ) (writer : Writer Record Key) (item : Item Record) : Prop :=
  (((writer.current).getD (.new item.memtableType)).addRecord maxRowSize item).2.toOption =
    some true

/--
Items are of the type of the current memtable, the memtable is handed over only
if it has not been written before, and the clock names every file differently.
-/
def Orderly (maxRowSize : ℕ) (writer : Writer Record Key) : WriterEvent Record → Prop
  | .write item =>
      (∀ memtable ∈ writer.current, memtable.type = item.memtableType) ∧
      (writer.Fills maxRowSize item → ¬writer.CurrentWritten)
  | .flush => ¬writer.CurrentWritten
  | .flushBatch _ clock => clock ∉ writer.dataFiles.map Prod.fst
  | .writeSst _ clock => clock ∉ writer.ssts.map Prod.fst
  | .commit => True

section Accounting

/-- The records of a memtable. -/
def recordsIn (memtables : List (Memtable Record)) (number : Option ℕ) : Multiset Record :=
  ((number.bind fun index => memtables[index]?).map Memtable.records).getD []

/-- The records that a thread still has to write. -/
def pendingRecords (memtables : List (Memtable Record)) (thread : FlushThread Key) :
    Multiset Record :=
  if thread.isAlive then recordsIn memtables thread.memtable else 0

/-- The SST files that a manifest lists or will list. -/
def listedFiles (writer : Writer Record Key) : List ℕ :=
  writer.manifests.flatten ++ writer.sstFiles

def listedRecords (writer : Writer Record Key) : Multiset Record :=
  (writer.listedFiles.map fun sstFile => (writer.sstRecords sstFile : Multiset Record)).sum

def allPending (writer : Writer Record Key) : Multiset Record :=
  (writer.threads.map (pendingRecords writer.memtables)).sum

/-- What holds of the memtables, threads and files at all times. -/
structure Base (writer : Writer Record Key) : Prop where
  uniform : ∀ memtable ∈ writer.memtables, memtable.IsUniform
  threadBound : ∀ thread ∈ writer.threads, ∀ index ∈ thread.memtable,
    index < writer.memtables.length
  currentBound : ∀ index ∈ writer.currMemtable, index < writer.memtables.length
  isOpen : ∀ index thread, writer.threads[index]? = some thread → thread.isAlive →
    index ∈ writer.openThreads
  serialized : ∀ thread ∈ writer.threads, ∀ rows, thread.stage = .serialized rows →
    (writer.dataRecords rows : Multiset Record) = recordsIn writer.memtables thread.memtable ∧
      ∀ row ∈ rows, row.uri ∈ writer.dataFiles.map Prod.fst
  uris : ∀ sst ∈ writer.ssts, ∀ row ∈ sst.2, row.uri ∈ writer.dataFiles.map Prod.fst
  listed : writer.listedFiles.Perm (writer.ssts.map Prod.fst)
  nodup : writer.listedFiles.Nodup

/-- What orderly steps keep: every record is in one place. -/
structure Inv (writer : Writer Record Key) (written : Multiset Record) : Prop
    extends writer.Base where
  notCurrent : ¬writer.flushing → ∀ thread ∈ writer.threads, thread.isAlive →
    thread.memtable.isSome ∧ thread.memtable ≠ writer.currMemtable
  whileFlushing : writer.flushing → written = writer.listedRecords + writer.allPending ∧
    (recordsIn writer.memtables writer.currMemtable = 0 ∨ writer.CurrentWritten ∨
      ∃ thread ∈ writer.threads, thread.memtable = writer.currMemtable ∧ thread.isAlive)
  whileIdle : ¬writer.flushing → writer.CurrentWritten ∨
    written = writer.listedRecords + writer.allPending +
      recordsIn writer.memtables writer.currMemtable

theorem Inv.new : (Writer.new : Writer Record Key).Inv 0 where
  uniform := by simp [Writer.new]
  threadBound := by simp [Writer.new]
  currentBound := by simp [Writer.new]
  isOpen := by simp [Writer.new]
  serialized := by simp [Writer.new]
  uris := by simp [Writer.new]
  listed := by simp [Writer.new, listedFiles]
  nodup := by simp [Writer.new, listedFiles]
  notCurrent := by simp [Writer.new]
  whileFlushing := by simp [Writer.new]
  whileIdle := by
    intro
    right
    simp [Writer.new, listedRecords, listedFiles, allPending, recordsIn]

@[simp]
theorem recordsIn_none (memtables : List (Memtable Record)) : recordsIn memtables none = 0 := rfl

theorem recordsIn_append {memtables : List (Memtable Record)} {number : Option ℕ}
    (memtable : Memtable Record) (bound : ∀ index ∈ number, index < memtables.length) :
    recordsIn (memtables ++ [memtable]) number = recordsIn memtables number := by
  rcases number with _ | index
  · rfl
  · have less := bound index rfl
    simp [recordsIn, List.getElem?_append_left less]

theorem recordsIn_append_new (memtables : List (Memtable Record)) (type : MemtableType) :
    recordsIn (memtables ++ [.new type]) (some memtables.length) = 0 := by
  simp [recordsIn, Memtable.new, Memtable.records]

theorem recordsIn_set_ne {memtables : List (Memtable Record)} {index : ℕ} {number : Option ℕ}
    (memtable : Memtable Record) (other : number ≠ some index) :
    recordsIn (memtables.set index memtable) number = recordsIn memtables number := by
  rcases number with _ | number
  · rfl
  · have differ : index ≠ number := fun same => other (by rw [same])
    simp [recordsIn, List.getElem?_set_ne differ]

theorem recordsIn_set_self {memtables : List (Memtable Record)} {index : ℕ}
    (memtable : Memtable Record) (less : index < memtables.length) :
    recordsIn (memtables.set index memtable) (some index) = memtable.records := by
  simp [recordsIn, less]

theorem recordsIn_of_getElem {memtables : List (Memtable Record)} {index : ℕ}
    {memtable : Memtable Record} (isMemtable : memtables[index]? = some memtable) :
    recordsIn memtables (some index) = memtable.records := by
  simp [recordsIn, isMemtable]

/-- Threads that do not have the memtable are not concerned by a change to it. -/
theorem pendingRecords_congr {left right : List (Memtable Record)} {thread : FlushThread Key}
    (same : thread.isAlive → recordsIn left thread.memtable = recordsIn right thread.memtable) :
    pendingRecords left thread = pendingRecords right thread := by
  unfold pendingRecords
  split_ifs with alive
  · exact same alive
  · rfl

variable {writer : Writer Record Key} {written : Multiset Record}

section SetCurrMemtable

variable {type : MemtableType}

theorem Base.setCurrMemtable (base : writer.Base) : (writer.setCurrMemtable type).Base where
  uniform := by
    simp only [Writer.setCurrMemtable, List.mem_append, List.mem_singleton]
    rintro memtable (memtableMem | rfl)
    · exact base.uniform memtable memtableMem
    · simp [Memtable.IsUniform, Memtable.new]
  threadBound thread threadMem index isIndex := by
    have bound := base.threadBound thread threadMem index isIndex
    simp only [Writer.setCurrMemtable, List.length_append, List.length_singleton]
    omega
  currentBound := by simp [Writer.setCurrMemtable]
  isOpen := base.isOpen
  serialized thread threadMem rows isStage := by
    obtain ⟨same, inFiles⟩ := base.serialized thread threadMem rows isStage
    refine ⟨same.trans ?_, inFiles⟩
    exact (recordsIn_append _ (base.threadBound thread threadMem)).symm
  uris := base.uris
  listed := base.listed
  nodup := base.nodup

theorem Base.allPending_setCurrMemtable (base : writer.Base) :
    (writer.setCurrMemtable type).allPending = writer.allPending := by
  apply congrArg List.sum
  apply List.map_congr_left
  intro thread threadMem
  exact pendingRecords_congr fun _ => recordsIn_append _ (base.threadBound thread threadMem)

/-- A current memtable that is accounted for may be replaced by an empty one. -/
theorem Base.inv_setCurrMemtable (base : writer.Base) (idle : ¬writer.flushing)
    (handedOver : ∀ thread ∈ writer.threads, thread.isAlive → thread.memtable.isSome)
    (accounted : written = writer.listedRecords + writer.allPending) :
    (writer.setCurrMemtable type).Inv written where
  toBase := base.setCurrMemtable
  notCurrent _ thread threadMem alive := by
    refine ⟨handedOver thread threadMem alive, fun isCurrent => ?_⟩
    exact absurd (base.threadBound thread threadMem _ isCurrent) (lt_irrefl _)
  whileFlushing isFlushing := absurd isFlushing idle
  whileIdle _ := by
    right
    have noneYet : recordsIn (writer.setCurrMemtable type).memtables
        (writer.setCurrMemtable type).currMemtable = 0 :=
      recordsIn_append_new writer.memtables type
    rw [noneYet, base.allPending_setCurrMemtable, add_zero]
    exact accounted

end SetCurrMemtable

section FlushMemtable

theorem Base.flushMemtable (base : writer.Base) :
    (writer.flushMemtable writer.currMemtable).Base where
  uniform := base.uniform
  threadBound := by
    simp only [Writer.flushMemtable, List.mem_append, List.mem_singleton]
    rintro thread (threadMem | rfl)
    · exact base.threadBound thread threadMem
    · exact base.currentBound
  currentBound := base.currentBound
  isOpen index thread isThread alive := by
    simp only [Writer.flushMemtable, List.mem_append, List.mem_singleton] at isThread ⊢
    rcases Nat.lt_trichotomy index writer.threads.length with less | isLast | greater
    · rw [List.getElem?_append_left less] at isThread
      exact Or.inl (base.isOpen index thread isThread alive)
    · exact Or.inr isLast
    · rw [List.getElem?_eq_none (by simp; omega)] at isThread
      cases isThread
  serialized := by
    simp only [Writer.flushMemtable, List.mem_append, List.mem_singleton]
    rintro thread (threadMem | rfl)
    · exact base.serialized thread threadMem
    · simp
  uris := base.uris
  listed := base.listed
  nodup := base.nodup

theorem allPending_flushMemtable (writer : Writer Record Key) :
    (writer.flushMemtable writer.currMemtable).allPending =
      writer.allPending + recordsIn writer.memtables writer.currMemtable := by
  simp [allPending, Writer.flushMemtable, pendingRecords, FlushThread.isAlive]

end FlushMemtable

/-- An orderly `flush`: the current memtable is not written yet. -/
theorem Inv.flush (inv : writer.Inv written) (idle : ¬writer.flushing)
    (notWritten : ¬writer.CurrentWritten) : writer.flush.Inv written := by
  have base : (writer.flushMemtable writer.currMemtable).Base := inv.toBase.flushMemtable
  refine ⟨⟨base.uniform, base.threadBound, base.currentBound, base.isOpen, base.serialized,
    base.uris, base.listed, base.nodup⟩, ?_, ?_, ?_⟩
  · exact fun notFlushing => absurd rfl notFlushing
  · intro _
    have accounted := (inv.whileIdle idle).resolve_left notWritten
    have pending := allPending_flushMemtable writer
    refine ⟨?_, Or.inr (Or.inr ⟨⟨writer.currMemtable, .started⟩, ?_, rfl, rfl⟩)⟩
    · change written = writer.listedRecords +
        (writer.flushMemtable writer.currMemtable).allPending
      rw [pending, ← add_assoc]
      exact accounted
    · simp [Writer.flush, Writer.flushMemtable]
  · exact fun notFlushing => absurd rfl notFlushing

/-- The end of a `flush`. -/
theorem Inv.writeManifestFile (inv : writer.Inv written) (isFlushing : writer.flushing)
    (ended : ∀ thread ∈ writer.openThreads, ¬writer.isAlive thread) :
    writer.writeManifestFile.Inv written ∧ written = writer.writeManifestFile.listedRecords := by
  have noneAlive : ∀ thread ∈ writer.threads, ¬thread.isAlive := by
    intro thread threadMem alive
    obtain ⟨index, isThread⟩ := List.getElem?_of_mem threadMem
    apply ended index (inv.isOpen index thread isThread alive)
    simp [isAlive, isThread, alive]
  have noPending : writer.allPending = 0 := by
    apply List.sum_eq_zero
    simp only [List.mem_map]
    rintro _ ⟨thread, threadMem, rfl⟩
    exact if_neg (noneAlive thread threadMem)
  have sameListed : writer.writeManifestFile.listedFiles = writer.listedFiles := by
    simp [listedFiles, Writer.writeManifestFile]
  have sameRecords : writer.writeManifestFile.listedRecords = writer.listedRecords := by
    rw [listedRecords, sameListed]
    rfl
  obtain ⟨accounted, taken⟩ := inv.whileFlushing isFlushing
  rw [noPending, add_zero] at accounted
  have taken := taken.imp_right fun alternatives =>
    alternatives.resolve_right fun ⟨thread, threadMem, _, alive⟩ => noneAlive thread threadMem alive
  refine ⟨⟨⟨inv.uniform, inv.threadBound, inv.currentBound, inv.isOpen, inv.serialized, inv.uris,
    ?_, ?_⟩, ?_, ?_, ?_⟩, ?_⟩
  · exact sameListed ▸ inv.listed
  · exact sameListed ▸ inv.nodup
  · exact fun _ thread threadMem alive => absurd alive (noneAlive thread threadMem)
  · intro isFlushing
    cases isFlushing
  · intro _
    rcases taken with noRecords | isWritten
    · right
      change written = writer.writeManifestFile.listedRecords + writer.allPending +
        recordsIn writer.memtables writer.currMemtable
      rw [noRecords, noPending, add_zero, add_zero, sameRecords]
      exact accounted
    · exact Or.inl isWritten
  · rw [sameRecords]
    exact accounted

section Write

variable {maxRowSize : ℕ} {item : Item Record} {memtable : Memtable Record} {index : ℕ}

/-- Adding an item of its own type to a memtable. -/
theorem addRecord_of_type_eq (maxRowSize : ℕ) (sameType : memtable.type = item.memtableType) :
    (memtable.addRecord maxRowSize item).1.items = memtable.items ++ [item] ∧
      (memtable.addRecord maxRowSize item).1.type = memtable.type ∧
        ∃ isFull, (memtable.addRecord maxRowSize item).2 = .ok isFull := by
  rcases memtable with ⟨_ | _, rowSize, items⟩ <;> rcases item with record | records
  · simp [Memtable.addRecord]
  · cases sameType
  · cases sameType
  · simp [Memtable.addRecord]

/-- The current memtable grows while no thread has it. -/
theorem Inv.setMemtable {grown : Memtable Record} (inv : writer.Inv written)
    (idle : ¬writer.flushing) (isCurrent : writer.currMemtable = some index)
    (isMemtable : writer.memtables[index]? = some memtable)
    (sameType : memtable.type = item.memtableType)
    (items : grown.items = memtable.items ++ [item]) (type : grown.type = memtable.type) :
    { writer with memtables := writer.memtables.set index grown }.Inv
      (written + item.records) := by
  have less : index < writer.memtables.length := inv.currentBound index isCurrent
  have other : ∀ thread ∈ writer.threads, thread.isAlive → thread.memtable ≠ some index :=
    fun thread threadMem alive => isCurrent ▸ (inv.notCurrent idle thread threadMem alive).2
  have grownRecords : (grown.records : Multiset Record) =
      recordsIn writer.memtables writer.currMemtable + item.records := by
    rw [isCurrent, recordsIn_of_getElem isMemtable]
    simp [Memtable.records, items]
  have samePending : (writer.threads.map (pendingRecords (writer.memtables.set index grown))).sum =
      writer.allPending := by
    apply congrArg List.sum
    apply List.map_congr_left
    intro thread threadMem
    exact pendingRecords_congr fun alive => recordsIn_set_ne grown (other thread threadMem alive)
  refine ⟨⟨?_, ?_, ?_, inv.isOpen, ?_, inv.uris, inv.listed, inv.nodup⟩, inv.notCurrent, ?_, ?_⟩
  · intro each eachMem
    rcases List.mem_or_eq_of_mem_set eachMem with eachMem | rfl
    · exact inv.uniform each eachMem
    · have wasUniform := inv.uniform memtable (List.mem_of_getElem? isMemtable)
      intro other otherMem
      rw [items, List.mem_append, List.mem_singleton] at otherMem
      rcases otherMem with otherMem | rfl
      · rw [type]
        exact wasUniform other otherMem
      · rw [type, sameType]
  · intro thread threadMem number isNumber
    simpa using inv.threadBound thread threadMem number isNumber
  · intro number isNumber
    simpa using inv.currentBound number isNumber
  · intro thread threadMem rows isStage
    obtain ⟨same, inFiles⟩ := inv.serialized thread threadMem rows isStage
    have alive : thread.isAlive := by simp [FlushThread.isAlive, isStage]
    refine ⟨same.trans ?_, inFiles⟩
    exact (recordsIn_set_ne grown (other thread threadMem alive)).symm
  · exact fun isFlushing => absurd isFlushing idle
  · intro _
    rcases inv.whileIdle idle with isWritten | accounted
    · exact Or.inl isWritten
    · right
      have current : recordsIn (writer.memtables.set index grown) writer.currMemtable =
          grown.records := by
        rw [isCurrent]
        exact recordsIn_set_self grown less
      change written + _ = writer.listedRecords +
        (writer.threads.map (pendingRecords (writer.memtables.set index grown))).sum +
          recordsIn (writer.memtables.set index grown) writer.currMemtable
      rw [samePending, current, grownRecords, ← add_assoc, ← accounted]

/-- A current memtable that was not written yet is handed over and replaced. -/
theorem Inv.rotateMemtable {type : MemtableType} (inv : writer.Inv written)
    (idle : ¬writer.flushing) (isCurrent : writer.currMemtable = some index)
    (notWritten : ¬writer.CurrentWritten) : (writer.rotateMemtable type).Inv written := by
  have base : (writer.flushMemtable writer.currMemtable).Base := inv.toBase.flushMemtable
  have handedOver : ∀ thread ∈ (writer.flushMemtable writer.currMemtable).threads,
      thread.isAlive → thread.memtable.isSome := by
    simp only [Writer.flushMemtable, List.mem_append, List.mem_singleton]
    rintro thread (threadMem | rfl) alive
    · exact (inv.notCurrent idle thread threadMem alive).1
    · simp [isCurrent]
  have accounted : written = (writer.flushMemtable writer.currMemtable).listedRecords +
      (writer.flushMemtable writer.currMemtable).allPending := by
    rw [allPending_flushMemtable, ← add_assoc]
    exact (inv.whileIdle idle).resolve_left notWritten
  have replaced : ((writer.flushMemtable writer.currMemtable).setCurrMemtable type).Inv written :=
    base.inv_setCurrMemtable idle handedOver accounted
  refine ⟨⟨replaced.uniform, replaced.threadBound, replaced.currentBound, ?_, replaced.serialized,
    replaced.uris, replaced.listed, replaced.nodup⟩, replaced.notCurrent, replaced.whileFlushing,
    replaced.whileIdle⟩
  intro number thread isThread alive
  apply List.mem_filter.mpr
  refine ⟨replaced.isOpen number thread isThread alive, ?_⟩
  change (Option.any FlushThread.isAlive _) = true
  rw [show ((writer.flushMemtable writer.currMemtable).setCurrMemtable type).threads[number]? =
    some thread from isThread]
  exact alive

theorem Inv.addToCurrent (inv : writer.Inv written) (idle : ¬writer.flushing)
    (isCurrent : writer.currMemtable = some index)
    (isMemtable : writer.memtables[index]? = some memtable)
    (sameType : memtable.type = item.memtableType)
    (notWritten : (memtable.addRecord maxRowSize item).2.toOption = some true →
      ¬writer.CurrentWritten) :
    (writer.addToCurrent maxRowSize item).1.Inv (written + item.records) := by
  obtain ⟨items, type, isFull, result⟩ := addRecord_of_type_eq maxRowSize sameType
  have grows := inv.setMemtable idle isCurrent isMemtable sameType items type
  have found : (writer.currMemtable.bind fun index =>
      writer.memtables[index]?.map fun memtable => (index, memtable)) = some (index, memtable) := by
    simp [isCurrent, isMemtable]
  simp only [Writer.addToCurrent, found, result]
  cases isFull with
  | false => exact grows
  | true => exact grows.rotateMemtable idle isCurrent (notWritten (by rw [result]; rfl))

theorem Inv.writeItem (inv : writer.Inv written) (idle : ¬writer.flushing)
    (orderly : writer.Orderly maxRowSize (.write item)) :
    (writer.writeItem maxRowSize item).1.Inv (written + item.records) := by
  obtain ⟨sameType, notWritten⟩ := orderly
  unfold Writer.writeItem Writer.openCurrent
  rcases isCurrent : writer.currMemtable with _ | index
  · have noneWritten : ¬writer.CurrentWritten := by
      rintro ⟨thread, -, isSome, isNone, -⟩
      simp [isNone, isCurrent] at isSome
    have accounted := (inv.whileIdle idle).resolve_left noneWritten
    rw [isCurrent, recordsIn_none, add_zero] at accounted
    have opened : (writer.setCurrMemtable item.memtableType).Inv written :=
      inv.toBase.inv_setCurrMemtable idle
        (fun thread threadMem alive => (inv.notCurrent idle thread threadMem alive).1) accounted
    have isNew : (writer.setCurrMemtable item.memtableType).memtables[writer.memtables.length]? =
        some (.new item.memtableType) := by
      simp [Writer.setCurrMemtable]
    apply opened.addToCurrent idle rfl isNew
    · rfl
    · rintro - ⟨thread, threadMem, -, isNew, -⟩
      exact absurd (inv.threadBound thread threadMem _ isNew) (lt_irrefl _)
  · have less := inv.currentBound index isCurrent
    have isMemtable : writer.memtables[index]? = some writer.memtables[index] :=
      List.getElem?_eq_getElem less
    have current : writer.current = some writer.memtables[index] := by
      simp [Writer.current, isCurrent]
    apply inv.addToCurrent idle isCurrent isMemtable
    · exact sameType _ current
    · intro isFull
      apply notWritten
      rw [Fills, current]
      exact isFull

end Write

section Threads

variable {index clock : ℕ} {thread : FlushThread Key} {stage : FlushStage Key}

theorem allPending_setStage (stage : FlushStage Key)
    (isThread : writer.threads[index]? = some thread) :
    (writer.setStage index thread stage).allPending + pendingRecords writer.memtables thread =
      writer.allPending + pendingRecords writer.memtables { thread with stage := stage } :=
  sum_map_set _ _ isThread

theorem mem_threads_setStage {other : FlushThread Key}
    (isThread : writer.threads[index]? = some thread) (otherMem : other ∈ writer.threads) :
    other = thread ∨ other ∈ (writer.setStage index thread stage).threads := by
  obtain ⟨number, isOther⟩ := List.getElem?_of_mem otherMem
  by_cases same : index = number
  · subst same
    exact Or.inl (Option.some.inj (isOther.symm.trans isThread))
  · right
    apply List.mem_of_getElem? (i := number)
    rw [← isOther]
    exact List.getElem?_set_ne same

theorem eq_or_mem_of_mem_setStage {other : FlushThread Key}
    (otherMem : other ∈ (writer.setStage index thread stage).threads) :
    other ∈ writer.threads ∨ other = { thread with stage := stage } :=
  List.mem_or_eq_of_mem_set otherMem

theorem CurrentWritten.setStage (isThread : writer.threads[index]? = some thread)
    (alive : thread.isAlive) (isWritten : writer.CurrentWritten) :
    (writer.setStage index thread stage).CurrentWritten := by
  obtain ⟨other, otherMem, isSome, isCurrent, hasFile⟩ := isWritten
  rcases mem_threads_setStage isThread otherMem with rfl | stillMem
  · simp [FlushThread.sstFile_of_isAlive alive] at hasFile
  · exact ⟨other, stillMem, isSome, isCurrent, hasFile⟩

theorem Base.setStage (base : writer.Base) (isThread : writer.threads[index]? = some thread)
    (alive : thread.isAlive)
    (isSerialized : ∀ rows, stage = .serialized rows →
      (writer.dataRecords rows : Multiset Record) = recordsIn writer.memtables thread.memtable ∧
        ∀ row ∈ rows, row.uri ∈ writer.dataFiles.map Prod.fst) :
    (writer.setStage index thread stage).Base where
  uniform := base.uniform
  threadBound other otherMem := by
    rcases eq_or_mem_of_mem_setStage otherMem with otherMem | rfl
    · exact base.threadBound other otherMem
    · exact base.threadBound thread (List.mem_of_getElem? isThread)
  currentBound := base.currentBound
  isOpen number other isOther otherAlive := by
    by_cases same : index = number
    · subst same
      exact base.isOpen index thread isThread alive
    · have isOther : writer.threads[number]? = some other := by
        rw [← isOther]
        exact (List.getElem?_set_ne same).symm
      exact base.isOpen number other isOther otherAlive
  serialized other otherMem := by
    rcases eq_or_mem_of_mem_setStage otherMem with otherMem | rfl
    · exact base.serialized other otherMem
    · exact isSerialized
  uris := base.uris
  listed := base.listed
  nodup := base.nodup

/-- A thread ends without a file if its memtable has no records. -/
theorem Inv.setStage_finished (inv : writer.Inv written)
    (isThread : writer.threads[index]? = some thread) (alive : thread.isAlive)
    (noRecords : recordsIn writer.memtables thread.memtable = 0) :
    (writer.setStage index thread (.finished none)).Inv written := by
  have samePending : (writer.setStage index thread (.finished none)).allPending =
      writer.allPending := by
    have sums := allPending_setStage (.finished none) isThread
    have nothingPending : pendingRecords writer.memtables thread = 0 := by
      rw [pendingRecords, if_pos alive, noRecords]
    rw [nothingPending, add_zero] at sums
    exact sums.trans (add_zero _)
  refine ⟨inv.toBase.setStage isThread alive (by simp), ?_, ?_, ?_⟩
  · intro idle other otherMem otherAlive
    rcases eq_or_mem_of_mem_setStage otherMem with otherMem | rfl
    · exact inv.notCurrent idle other otherMem otherAlive
    · cases otherAlive
  · intro isFlushing
    obtain ⟨accounted, taken⟩ := inv.whileFlushing isFlushing
    refine ⟨by rw [samePending]; exact accounted, ?_⟩
    rcases taken with isEmpty | isWritten | ⟨other, otherMem, isCurrent, otherAlive⟩
    · exact Or.inl isEmpty
    · exact Or.inr (Or.inl (isWritten.setStage isThread alive))
    · rcases mem_threads_setStage isThread otherMem with rfl | stillMem
      · exact Or.inl (isCurrent ▸ noRecords)
      · exact Or.inr (Or.inr ⟨other, stillMem, isCurrent, otherAlive⟩)
  · intro idle
    rcases inv.whileIdle idle with isWritten | accounted
    · exact Or.inl (isWritten.setStage isThread alive)
    · right
      rw [samePending]
      exact accounted

/-- A thread goes on with its memtable. -/
theorem Inv.setStage_serialized {rows : List (SSTableRow Key)} (inv : writer.Inv written)
    (isThread : writer.threads[index]? = some thread) (alive : thread.isAlive)
    (isSerialized : (writer.dataRecords rows : Multiset Record) =
      recordsIn writer.memtables thread.memtable ∧
        ∀ row ∈ rows, row.uri ∈ writer.dataFiles.map Prod.fst) :
    (writer.setStage index thread (.serialized rows)).Inv written := by
  have samePending : (writer.setStage index thread (.serialized rows)).allPending =
      writer.allPending := by
    have sums := allPending_setStage (.serialized rows) isThread
    have stillPending : pendingRecords writer.memtables { thread with stage := .serialized rows } =
        pendingRecords writer.memtables thread := by
      rw [pendingRecords, pendingRecords, if_pos alive]
      rfl
    rw [stillPending] at sums
    exact add_right_cancel sums
  have threadMem := List.mem_of_getElem? isThread
  refine ⟨inv.toBase.setStage isThread alive ?_, ?_, ?_, ?_⟩
  · rintro _ ⟨⟩
    exact isSerialized
  · intro idle other otherMem otherAlive
    rcases eq_or_mem_of_mem_setStage otherMem with otherMem | rfl
    · exact inv.notCurrent idle other otherMem otherAlive
    · exact inv.notCurrent idle thread threadMem alive
  · intro isFlushing
    obtain ⟨accounted, taken⟩ := inv.whileFlushing isFlushing
    refine ⟨by rw [samePending]; exact accounted, ?_⟩
    rcases taken with isEmpty | isWritten | ⟨other, otherMem, isCurrent, otherAlive⟩
    · exact Or.inl isEmpty
    · exact Or.inr (Or.inl (isWritten.setStage isThread alive))
    · rcases mem_threads_setStage isThread otherMem with rfl | stillMem
      · refine Or.inr (Or.inr ⟨{ other with stage := .serialized rows }, ?_, isCurrent, rfl⟩)
        exact List.mem_set (List.getElem?_eq_some_iff.mp isThread).1 _
      · exact Or.inr (Or.inr ⟨other, stillMem, isCurrent, otherAlive⟩)
  · intro idle
    rcases inv.whileIdle idle with isWritten | accounted
    · exact Or.inl (isWritten.setStage isThread alive)
    · right
      rw [samePending]
      exact accounted

/-- A new data file does not change what rows of SST files refer to. -/
theorem dataRecords_of_fresh {rows : List (SSTableRow Key)} {records : List Record}
    (fresh : clock ∉ writer.dataFiles.map Prod.fst)
    (inFiles : ∀ row ∈ rows, row.uri ∈ writer.dataFiles.map Prod.fst) :
    { writer with dataFiles := (clock, records) :: writer.dataFiles }.dataRecords rows =
      writer.dataRecords rows := by
  apply List.flatMap_congr
  intro row rowMem
  have other : row.uri ≠ clock := fun same => fresh (same ▸ inFiles row rowMem)
  simp [List.lookup_cons, beq_false_of_ne other]

theorem Base.uri_mem (base : writer.Base) {sstFile : ℕ} {row : SSTableRow Key}
    (rowMem : row ∈ (writer.ssts.lookup sstFile).getD []) :
    row.uri ∈ writer.dataFiles.map Prod.fst := by
  rcases found : writer.ssts.lookup sstFile with _ | rows
  · simp [found] at rowMem
  · rw [found] at rowMem
    obtain ⟨before, after, isSst, -⟩ := List.lookup_eq_some_iff.mp found
    exact base.uris (sstFile, rows) (by simp [isSst]) row rowMem

theorem Inv.addDataFile {records : List Record} (inv : writer.Inv written)
    (fresh : clock ∉ writer.dataFiles.map Prod.fst) :
    { writer with dataFiles := (clock, records) :: writer.dataFiles }.Inv written := by
  have sameListed : { writer with
      dataFiles := (clock, records) :: writer.dataFiles }.listedRecords = writer.listedRecords := by
    apply congrArg List.sum
    apply List.map_congr_left
    intro sstFile _
    apply congrArg Multiset.ofList
    exact dataRecords_of_fresh fresh fun row rowMem => inv.toBase.uri_mem rowMem
  refine ⟨⟨inv.uniform, inv.threadBound, inv.currentBound, inv.isOpen, ?_, ?_, inv.listed,
    inv.nodup⟩, inv.notCurrent, ?_, ?_⟩
  · intro other otherMem rows isStage
    obtain ⟨same, inFiles⟩ := inv.serialized other otherMem rows isStage
    refine ⟨?_, fun row rowMem => List.mem_cons_of_mem _ (inFiles row rowMem)⟩
    rw [dataRecords_of_fresh fresh inFiles]
    exact same
  · exact fun sst sstMem row rowMem => List.mem_cons_of_mem _ (inv.uris sst sstMem row rowMem)
  · rw [sameListed]
    exact inv.whileFlushing
  · rw [sameListed]
    exact inv.whileIdle

variable {next : Writer Record Key}

/-- The writer after an SST file was written, before its thread ends. -/
def addSst (writer : Writer Record Key) (clock : ℕ) (rows : List (SSTableRow Key)) :
    Writer Record Key :=
  { writer with
    ssts := (clock, rows) :: writer.ssts
    sstFiles := clock :: writer.sstFiles }

theorem listedFiles_addSst (rows : List (SSTableRow Key)) :
    (writer.addSst clock rows).listedFiles.Perm (clock :: writer.listedFiles) :=
  List.perm_middle

theorem Base.addSst {rows : List (SSTableRow Key)} (base : writer.Base)
    (fresh : clock ∉ writer.ssts.map Prod.fst)
    (inFiles : ∀ row ∈ rows, row.uri ∈ writer.dataFiles.map Prod.fst) :
    (writer.addSst clock rows).Base where
  uniform := base.uniform
  threadBound := base.threadBound
  currentBound := base.currentBound
  isOpen := base.isOpen
  serialized := base.serialized
  uris := by
    simp only [Writer.addSst, List.mem_cons]
    rintro sst (rfl | sstMem)
    · exact inFiles
    · exact base.uris sst sstMem
  listed := (listedFiles_addSst rows).trans (base.listed.cons clock)
  nodup := by
    apply (listedFiles_addSst rows).nodup_iff.mpr
    exact List.nodup_cons.mpr
      ⟨fun isListed => fresh (base.listed.mem_iff.mp isListed), base.nodup⟩

theorem Base.listedRecords_addSst {rows : List (SSTableRow Key)} (base : writer.Base)
    (fresh : clock ∉ writer.ssts.map Prod.fst) :
    (writer.addSst clock rows).listedRecords =
      writer.listedRecords + writer.dataRecords rows := by
  have newRecords : (writer.addSst clock rows).sstRecords clock = writer.dataRecords rows := by
    simp only [sstRecords, Writer.addSst, List.lookup_cons_self, Option.getD_some]
    rfl
  have oldRecords : ∀ sstFile ∈ writer.listedFiles,
      ((writer.addSst clock rows).sstRecords sstFile : Multiset Record) =
        writer.sstRecords sstFile := by
    intro sstFile isListed
    have other : sstFile ≠ clock := by
      rintro rfl
      exact fresh (base.listed.mem_iff.mp isListed)
    simp only [sstRecords, Writer.addSst, List.lookup_cons, beq_false_of_ne other]
    rfl
  calc (writer.addSst clock rows).listedRecords
      = ((clock :: writer.listedFiles).map fun sstFile =>
          ((writer.addSst clock rows).sstRecords sstFile : Multiset Record)).sum :=
        ((listedFiles_addSst rows).map _).sum_eq
    _ = writer.dataRecords rows + writer.listedRecords := by
        rw [List.map_cons, List.sum_cons, newRecords, List.map_congr_left oldRecords]
        rfl
    _ = writer.listedRecords + writer.dataRecords rows := add_comm _ _

/-- A thread writes the SST file of its data file and ends. -/
theorem Inv.writeSst (inv : writer.Inv written) (fresh : clock ∉ writer.ssts.map Prod.fst)
    (stepped : writer.writeSst index clock = some next) : next.Inv written := by
  simp only [Writer.writeSst, Option.bind_eq_bind, Option.bind_eq_some_iff] at stepped
  obtain ⟨⟨number, stage⟩, isThread, stepped⟩ := stepped
  have threadMem := List.mem_of_getElem? isThread
  rcases stage with _ | rows | sstFile
  · cases stepped
  · have notFile : clock ∉ writer.sstFiles := fun isFile =>
      fresh (inv.listed.mem_iff.mp (List.mem_append_right _ isFile))
    simp only [List.insert_of_not_mem notFile] at stepped
    cases stepped
    obtain ⟨same, inFiles⟩ := inv.serialized _ threadMem rows rfl
    have base : ((writer.addSst clock rows).setStage index ⟨number, .serialized rows⟩
        (.finished (some clock))).Base :=
      (inv.toBase.addSst fresh inFiles).setStage isThread rfl (by simp)
    have pending : (writer.setStage index ⟨number, .serialized rows⟩
        (.finished (some clock))).allPending + recordsIn writer.memtables number =
          writer.allPending :=
      (allPending_setStage (.finished (some clock)) isThread).trans (add_zero _)
    have sameSum : (writer.addSst clock rows).listedRecords + (writer.setStage index
        ⟨number, .serialized rows⟩ (.finished (some clock))).allPending =
          writer.listedRecords + writer.allPending := by
      rw [inv.toBase.listedRecords_addSst fresh, same, ← pending]
      abel
    have newMem : ⟨number, .finished (some clock)⟩ ∈ (writer.setStage index
        ⟨number, .serialized rows⟩ (.finished (some clock))).threads :=
      List.mem_set (List.getElem?_eq_some_iff.mp isThread).1 _
    refine ⟨⟨base.uniform, base.threadBound, base.currentBound, base.isOpen, base.serialized,
      base.uris, base.listed, base.nodup⟩, ?_, ?_, ?_⟩
    · intro idle other otherMem otherAlive
      rcases eq_or_mem_of_mem_setStage otherMem with otherMem | rfl
      · exact inv.notCurrent idle other otherMem otherAlive
      · cases otherAlive
    · intro isFlushing
      obtain ⟨accounted, taken⟩ := inv.whileFlushing isFlushing
      refine ⟨accounted.trans sameSum.symm, ?_⟩
      rcases taken with isEmpty | isWritten | ⟨other, otherMem, isCurrent, otherAlive⟩
      · exact Or.inl isEmpty
      · exact Or.inr (Or.inl (isWritten.setStage isThread rfl))
      · rcases mem_threads_setStage isThread otherMem with rfl | stillMem
        · rcases number with _ | number
          · exact Or.inl (isCurrent ▸ recordsIn_none writer.memtables)
          · exact Or.inr (Or.inl ⟨_, newMem, rfl, isCurrent, rfl⟩)
        · exact Or.inr (Or.inr ⟨other, stillMem, isCurrent, otherAlive⟩)
    · intro idle
      rcases inv.whileIdle idle with isWritten | accounted
      · exact Or.inl (isWritten.setStage isThread rfl)
      · exact Or.inr (accounted.trans (congrArg (· + _) sameSum.symm))
  · cases stepped

variable [LinearOrder Key] {mergeKey : Record → Key}
  {mixed : Memtable Record → Option (List Record)}

/-- A thread writes the data file of its memtable, or ends because there are no records. -/
theorem Inv.flushBatch (inv : writer.Inv written)
    (fresh : clock ∉ writer.dataFiles.map Prod.fst)
    (stepped : writer.flushBatch mergeKey mixed index clock = some next) : next.Inv written := by
  simp only [Writer.flushBatch, Option.bind_eq_bind, Option.bind_eq_some_iff] at stepped
  obtain ⟨thread, isThread, stepped⟩ := stepped
  rcases thread with ⟨number, stage⟩
  have threadMem := List.mem_of_getElem? isThread
  rcases stage with _ | rows | sstFile
  · rcases number with _ | number
    · cases stepped
      exact inv.setStage_finished isThread rfl rfl
    · have less := inv.threadBound _ threadMem number rfl
      have isMemtable : writer.memtables[number]? = some writer.memtables[number] :=
        List.getElem?_eq_getElem less
      have records := recordsIn_of_getElem isMemtable
      have uniform := inv.uniform _ (List.mem_of_getElem? isMemtable)
      have sorted := List.perm_insertionSort
        (fun left right => mergeKey left ≤ mergeKey right) writer.memtables[number].records
      simp only [isMemtable, Option.bind_some, Memtable.getSortedRecords, if_pos uniform] at stepped
      generalize writer.memtables[number].records.insertionSort
        (fun left right => mergeKey left ≤ mergeKey right) = sortedRecords at sorted stepped
      rcases sortedRecords with _ | ⟨first, rest⟩
      · cases stepped
        have isEmpty : recordsIn writer.memtables (some number) = 0 := by
          rw [records, ← Multiset.coe_eq_coe.mpr sorted]
          rfl
        have ended := inv.setStage_finished isThread rfl isEmpty
        exact ⟨⟨ended.uniform, ended.threadBound, ended.currentBound, ended.isOpen,
          ended.serialized, ended.uris, ended.listed, ended.nodup⟩, ended.notCurrent,
          ended.whileFlushing, ended.whileIdle⟩
      · cases stepped
        apply (inv.addDataFile fresh).setStage_serialized isThread rfl
        simp only [dataRecords, List.flatMap_cons, List.flatMap_nil, List.append_nil,
          List.lookup_cons_self, Option.getD_some, List.mem_singleton, forall_eq]
        refine ⟨?_, by simp⟩
        rw [records]
        exact Multiset.coe_eq_coe.mpr sorted
  · cases stepped
  · cases stepped

end Threads

end Accounting

/-- Orderly steps keep every record in one place. -/
theorem Inv.step [LinearOrder Key] {mergeKey : Record → Key} {maxRowSize : ℕ}
    {mixed : Memtable Record → Option (List Record)} {writer next : Writer Record Key}
    {written : Multiset Record} {event : WriterEvent Record} (inv : writer.Inv written)
    (orderly : writer.Orderly maxRowSize event)
    (stepped : Step mergeKey maxRowSize mixed writer event next) :
    next.Inv (written + event.records) := by
  cases event with
  | write item =>
      simp only [Step, Writer.step] at stepped
      split_ifs at stepped with isFlushing
      cases stepped
      exact inv.writeItem isFlushing orderly
  | flush =>
      simp only [Step, Writer.step] at stepped
      split_ifs at stepped with isFlushing
      cases stepped
      simpa [WriterEvent.records] using inv.flush isFlushing orderly
  | flushBatch thread clock =>
      simpa [WriterEvent.records] using inv.flushBatch orderly stepped
  | writeSst thread clock =>
      simpa [WriterEvent.records] using inv.writeSst orderly stepped
  | commit =>
      simp only [Step, Writer.step] at stepped
      split_ifs at stepped with ended
      cases stepped
      simpa [WriterEvent.records] using (inv.writeManifestFile ended.1 ended.2).1

instance (maxRowSize : ℕ) (writer : Writer Record Key) (event : WriterEvent Record) :
    Decidable (writer.Orderly maxRowSize event) :=
  match event with
  | .write item => inferInstanceAs (Decidable
      ((∀ memtable ∈ writer.current, memtable.type = item.memtableType) ∧
        ((((writer.current).getD (.new item.memtableType)).addRecord maxRowSize item).2.toOption =
          some true → ¬writer.CurrentWritten)))
  | .flush => inferInstanceAs (Decidable (¬writer.CurrentWritten))
  | .flushBatch _ clock => inferInstanceAs (Decidable (clock ∉ writer.dataFiles.map Prod.fst))
  | .writeSst _ clock => inferInstanceAs (Decidable (clock ∉ writer.ssts.map Prod.fst))
  | .commit => inferInstanceAs (Decidable True)

section Run

variable [LinearOrder Key] {mergeKey : Record → Key} {maxRowSize : ℕ}
  {mixed : Memtable Record → Option (List Record)} {writer : Writer Record Key}
  {events : List (WriterEvent Record)}

theorem inv_run
    (run : Run (Guarded (Orderly maxRowSize) (Step mergeKey maxRowSize mixed)) .new events writer) :
    writer.Inv (events.flatMap WriterEvent.records) := by
  induction run with
  | nil => exact Inv.new
  | snoc _ stepped ih =>
      simpa [List.flatMap_append, ← Multiset.coe_add] using ih.step stepped.1 stepped.2

/--
In every run of orderly steps, however the threads are interleaved, each `flush`
that returns has listed all the records written so far once, and all SST files once.
-/
theorem commitsOnce_run
    (run : Run (Guarded (Orderly maxRowSize) (Step mergeKey maxRowSize mixed)) .new
      (events ++ [.commit]) writer) :
    writer.CommitsOnce (events.flatMap WriterEvent.records) := by
  obtain ⟨waiting, before, -, stepped⟩ := run.snoc_inv
  simp only [Step, Writer.step] at stepped
  split_ifs at stepped with ended
  cases stepped
  obtain ⟨inv, accounted⟩ := (inv_run before).writeManifestFile ended.1 ended.2
  have allListed : waiting.writeManifestFile.listedFiles =
      waiting.writeManifestFile.manifests.flatten :=
    List.append_nil _
  refine ⟨?_, ?_, ?_⟩
  · apply Multiset.coe_eq_coe.mp
    rw [accounted, listedRecords, allListed]
    induction waiting.writeManifestFile.manifests.flatten with
    | nil => rfl
    | cons sstFile sstFiles ih => simp [← ih, ← Multiset.coe_add]
  · exact allListed ▸ inv.nodup
  · intro sstFile
    rw [← allListed]
    exact inv.listed.mem_iff

end Run

/-- Two memtables whose threads overtake each other. -/
theorem commitsOnce_run_rotated : ∃ writer : Writer ℕ ℕ, writer.CommitsOnce [3, 1, 2] := by
  have performed : ([.write (.dict 3), .write (.dict 1), .write (.dict 2), .flush,
      .flushBatch 1 10, .flushBatch 0 11, .writeSst 1 12, .writeSst 0 13, .commit].foldlM
        (guardedStep (Orderly 2) (step id 2 fun _ => none)) (.new : Writer ℕ ℕ)).isSome := by
    decide +kernel
  obtain ⟨writer, performed⟩ := Option.isSome_iff_exists.mp performed
  have run : Run (Guarded (Orderly 2) (Step id 2 fun _ => none)) .new
      ([.write (.dict 3), .write (.dict 1), .write (.dict 2), .flush, .flushBatch 1 10,
        .flushBatch 0 11, .writeSst 1 12, .writeSst 0 13] ++ [.commit]) writer :=
    Run.of_foldlM_guardedStep performed
  exact ⟨writer, commitsOnce_run run⟩

/-- A record is written, flushed, and flushed again when the writer exits. -/
theorem not_commitsOnce_run :
    ¬∀ (events : List (WriterEvent ℕ)) (writer : Writer ℕ ℕ),
      Run (Step id 1000000 fun _ => none) .new (events ++ [.commit]) writer →
        writer.CommitsOnce (events.flatMap WriterEvent.records) := by
  intro all
  have performed : ([.write (.dict 7), .flush, .flushBatch 0 10, .writeSst 0 11, .commit, .flush,
      .flushBatch 1 12, .writeSst 1 13, .commit].foldlM (step id 1000000 fun _ => none)
        (.new : Writer ℕ ℕ)).any
          (fun writer => (writer.manifests.flatten.flatMap writer.sstRecords).length = 2) := by
    decide +kernel
  obtain ⟨writer, performed, twice⟩ := (Option.any_eq_true _ _).mp performed
  have once := all [.write (.dict 7), .flush, .flushBatch 0 10, .writeSst 0 11, .commit, .flush,
    .flushBatch 1 12, .writeSst 1 13] writer (Run.of_foldlM_eq_some performed)
  have length := once.records.length_eq
  rw [of_decide_eq_true twice] at length
  cases length

end Writer

end Deltacat.Experimental.Rivulet
