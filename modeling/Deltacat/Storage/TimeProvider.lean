import Deltacat.Library.Run
import Mathlib.Data.List.AList
import Mathlib.Data.List.MinMax
import Mathlib.Tactic

/-!
# The system time provider

`TransactionSystemTimeProvider` hands out transaction start and end times from
the system clock. It keeps two dictionaries, keyed by process and thread, that
are shared by all threads of the process, and each of its methods spins on the
clock until the reading passes the maximum of one of them.

The two dictionaries are not the ones their names suggest. `start_time` waits
for the clock to pass the maximum of `last_known_end_times` and then records
the *start* time it returns in `last_known_end_times`; `end_time` waits on and
records into `last_known_start_times`. The two methods therefore never consult
the times the other one returned: each orders its own results only. The model
keeps the source's names, so that this can be read off it.

A call takes a first clock reading and, while the reading is behind, sleeps and
takes another one. `Call.retries` lists what the later iterations of the loop
observe: the monotonic time elapsed since the call began and the next reading.
A call whose list is used up without a sufficient reading is a call that is
still spinning; it has returned nothing, as has one that raised `TimeoutError`.
-/

namespace Deltacat.Storage

open Deltacat.Library

/-- The dictionary key `(pid, tid)` of the calling thread. -/
abbrev ThreadKey := ℕ × ℕ

/-- A `defaultdict(int)` from threads to times. -/
abbrev ThreadTimes := AList fun _ : ThreadKey => Int

namespace ThreadTimes

/-- `max(times.values() or [0])`. -/
def maxKnown (times : ThreadTimes) : Int :=
  ((times.entries.map Sigma.snd).max?).getD 0

/-- `times[thread] = time`. -/
def record (times : ThreadTimes) (thread : ThreadKey) (time : Int) : ThreadTimes :=
  times.insert thread time

/-- A recorded time is at most the maximum. -/
theorem le_maxKnown {times : ThreadTimes} {entry : (_ : ThreadKey) × Int}
    (recorded : entry ∈ times.entries) : entry.2 ≤ times.maxKnown := by
  unfold maxKnown
  cases maximum : (times.entries.map Sigma.snd).max? with
  | none =>
      rw [List.max?_eq_none_iff, List.map_eq_nil_iff] at maximum
      simp [maximum] at recorded
  | some greatest =>
      rw [List.max?_eq_some_iff] at maximum
      exact maximum.2 entry.2 (List.mem_map_of_mem recorded)

/-- Recording a time that is at least the maximum makes it the maximum, whatever it overwrites. -/
theorem maxKnown_record {times : ThreadTimes} {thread : ThreadKey} {time : Int}
    (atLeast : times.maxKnown ≤ time) : (times.record thread time).maxKnown = time := by
  have bounded : ∀ entry ∈ (times.record thread time).entries, entry.2 ≤ time := by
    intro entry recorded
    rw [record, AList.entries_insert, List.mem_cons] at recorded
    rcases recorded with rfl | kept
    · exact le_rfl
    · exact (le_maxKnown ((List.kerase_sublist _ _).subset kept)).trans atLeast
  have maximum : ((times.record thread time).entries.map Sigma.snd).max? = some time := by
    rw [List.max?_eq_some_iff]
    refine ⟨List.mem_map.mpr ⟨⟨thread, time⟩, by simp [record], rfl⟩, ?_⟩
    intro value valueMem
    rcases List.mem_map.mp valueMem with ⟨entry, recorded, rfl⟩
    exact bounded entry recorded
  simp [maxKnown, maximum]

end ThreadTimes

/-- What one iteration of the waiting loop observes after its comparison failed. -/
structure Retry where
  /-- `time.monotonic_ns() - elapsed_start_time`. -/
  elapsed : Int
  /-- The reading of `time.time_ns()` after the sleep. -/
  reading : Int
  deriving DecidableEq

/-- The two methods of the provider. -/
inductive TimeMethod
  | startTime
  | endTime
  deriving DecidableEq

/-- One atomic call of the provider with everything it observes. -/
structure Call where
  /-- The method called. -/
  method : TimeMethod
  /-- The calling thread. -/
  thread : ThreadKey
  /-- The first reading of the system clock. -/
  firstReading : Int
  /-- The observations of the waiting loop, as far as it gets. -/
  retries : List Retry
  deriving DecidableEq

namespace TransactionSystemTimeProvider

/-- `60 * NANOS_PER_SEC`. -/
def maxSyncWaitTime : Int := 60 * 1000000000

end TransactionSystemTimeProvider

/--
The waiting loop shared by both methods: `behind` is the loop's own comparison.
The result is the reading the loop stops on, if it stops without raising.
-/
def syncClock (behind : Int → Bool) (currentTime : Int) : List Retry → Option Int
  | [] => if behind currentTime then none else some currentTime
  | retry :: retries =>
      if behind currentTime then
        if retry.elapsed > TransactionSystemTimeProvider.maxSyncWaitTime then none
        else syncClock behind retry.reading retries
      else some currentTime

/-- The clock readings the waiting loop takes, in order. -/
def readingsTaken (behind : Int → Bool) (currentTime : Int) : List Retry → List Int
  | [] => [currentTime]
  | retry :: retries =>
      currentTime ::
        if behind currentTime ∧ retry.elapsed ≤ TransactionSystemTimeProvider.maxSyncWaitTime then
          readingsTaken behind retry.reading retries
        else []

/-- The loop stops on the one reading it took that is not behind. -/
theorem syncClock_eq_some_iff {behind : Int → Bool} {currentTime time : Int}
    {retries : List Retry} :
    syncClock behind currentTime retries = some time ↔
      time ∈ readingsTaken behind currentTime retries ∧ behind time = false := by
  induction retries generalizing currentTime with
  | nil =>
      simp only [syncClock, readingsTaken, List.mem_singleton]
      cases isBehind : behind currentTime
      · simp only [Bool.false_eq_true, if_false, Option.some.injEq]
        exact ⟨fun eq => ⟨eq.symm, eq ▸ isBehind⟩, fun taken => taken.1.symm⟩
      · simp only [if_true, false_iff, reduceCtorEq]
        rintro ⟨rfl, notBehind⟩
        simp [isBehind] at notBehind
  | cons retry retries ih =>
      simp only [syncClock, readingsTaken, List.mem_cons]
      cases isBehind : behind currentTime
      · simp only [Bool.false_eq_true, if_false, Option.some.injEq, false_and,
          List.not_mem_nil, or_false]
        exact ⟨fun eq => ⟨eq.symm, eq ▸ isBehind⟩, fun taken => taken.1.symm⟩
      · have notCurrent : behind time = false → time ≠ currentTime := by
          rintro notBehind rfl
          simp [isBehind] at notBehind
        by_cases expired : retry.elapsed > TransactionSystemTimeProvider.maxSyncWaitTime
        · have notWithin : ¬retry.elapsed ≤ TransactionSystemTimeProvider.maxSyncWaitTime := by
            omega
          simp only [if_true, if_pos expired, notWithin, and_false, if_false, List.not_mem_nil,
            or_false, false_iff, reduceCtorEq]
          exact fun taken => notCurrent taken.2 taken.1
        · have within : retry.elapsed ≤ TransactionSystemTimeProvider.maxSyncWaitTime := by
            omega
          simp only [if_true, if_neg expired, within, and_self, ih]
          constructor
          · exact fun taken => ⟨Or.inr taken.1, taken.2⟩
          · exact fun taken => ⟨taken.1.resolve_left (notCurrent taken.2), taken.2⟩

/-- The class-level dictionaries of the provider. -/
structure TransactionSystemTimeProvider where
  lastKnownStartTimes : ThreadTimes
  lastKnownEndTimes : ThreadTimes

namespace TransactionSystemTimeProvider

/-- The provider of a process that has not called it yet. -/
def empty : TransactionSystemTimeProvider where
  lastKnownStartTimes := ∅
  lastKnownEndTimes := ∅

/-- The comparison `start_time` loops on. -/
def startBehind (provider : TransactionSystemTimeProvider) (currentTime : Int) : Bool :=
  currentTime ≤ provider.lastKnownEndTimes.maxKnown

/-- The comparison `end_time` loops on. -/
def endBehind (provider : TransactionSystemTimeProvider) (currentTime : Int) : Bool :=
  currentTime < provider.lastKnownStartTimes.maxKnown

/-- `start_time`: the state after the call and the time it returned, if it returned. -/
def startTime (provider : TransactionSystemTimeProvider) (thread : ThreadKey)
    (firstReading : Int) (retries : List Retry) : TransactionSystemTimeProvider × Option Int :=
  match syncClock provider.startBehind firstReading retries with
  | none => (provider, none)
  | some currentTime =>
      ({ provider with
          lastKnownEndTimes := provider.lastKnownEndTimes.record thread currentTime },
        some currentTime)

/-- `end_time`: the state after the call and the time it returned, if it returned. -/
def endTime (provider : TransactionSystemTimeProvider) (thread : ThreadKey)
    (firstReading : Int) (retries : List Retry) : TransactionSystemTimeProvider × Option Int :=
  match syncClock provider.endBehind firstReading retries with
  | none => (provider, none)
  | some currentTime =>
      ({ provider with
          lastKnownStartTimes := provider.lastKnownStartTimes.record thread currentTime },
        some currentTime)

end TransactionSystemTimeProvider

/-- A time handed out by the provider. -/
structure Issued where
  method : TimeMethod
  time : Int
  deriving DecidableEq

/--
The order the two methods owe each other: a start time is strictly greater than
an earlier end time, and an end time is at least an earlier start time.
-/
def Issued.Precedes (earlier later : Issued) : Prop :=
  (earlier.method = .endTime → later.method = .startTime → earlier.time < later.time) ∧
    (earlier.method = .startTime → later.method = .endTime → earlier.time ≤ later.time)

instance : DecidableRel Issued.Precedes :=
  fun _ _ => inferInstanceAs (Decidable (_ ∧ _))

/-- The provider with the times it has issued so far, oldest first. -/
structure Session where
  provider : TransactionSystemTimeProvider
  issued : List Issued

namespace Session

/-- The session of a process that has not called the provider yet. -/
def initial : Session where
  provider := .empty
  issued := []

/-- One call of the provider. -/
def call (session : Session) (request : Call) : Session :=
  let answer :=
    match request.method with
    | .startTime =>
        session.provider.startTime request.thread request.firstReading request.retries
    | .endTime =>
        session.provider.endTime request.thread request.firstReading request.retries
  { provider := answer.1
    issued := session.issued ++ answer.2.toList.map fun time => ⟨request.method, time⟩ }

/-- A sequence of calls, in the order in which they take effect. -/
def runCalls (calls : List Call) : Session :=
  calls.foldl call initial

/-- Every pair of issued times is in the order the two methods owe each other. -/
def Ordered (session : Session) : Prop :=
  session.issued.Pairwise Issued.Precedes

instance (session : Session) : Decidable session.Ordered :=
  inferInstanceAs (Decidable (session.issued.Pairwise Issued.Precedes))

/-- The step relation of the provider. -/
def Step (session : Session) (request : Call) (next : Session) : Prop :=
  next = session.call request

/--
No clock reading the call takes passes the method's own guard while still
being behind the dictionary that the *other* method guards.
-/
def ReadsClearOfGap (session : Session) (request : Call) : Prop :=
  match request.method with
  | .startTime =>
      ∀ reading ∈ readingsTaken session.provider.startBehind request.firstReading request.retries,
        session.provider.lastKnownEndTimes.maxKnown < reading →
          session.provider.lastKnownStartTimes.maxKnown < reading
  | .endTime =>
      ∀ reading ∈ readingsTaken session.provider.endBehind request.firstReading request.retries,
        session.provider.lastKnownStartTimes.maxKnown ≤ reading →
          session.provider.lastKnownEndTimes.maxKnown ≤ reading

/-- What a call can do: return nothing and change nothing, or issue a reading it took. -/
theorem call_cases (session : Session) (request : Call) :
    (session.call request = session ∧ session.ReadsClearOfGap request) ∨
    (request.method = .startTime ∧ ∃ time,
      session.provider.lastKnownEndTimes.maxKnown < time ∧
      (session.ReadsClearOfGap request ↔
        session.provider.lastKnownStartTimes.maxKnown < time) ∧
      session.call request =
        { provider :=
            { session.provider with
              lastKnownEndTimes :=
                session.provider.lastKnownEndTimes.record request.thread time }
          issued := session.issued ++ [⟨.startTime, time⟩] }) ∨
    (request.method = .endTime ∧ ∃ time,
      session.provider.lastKnownStartTimes.maxKnown ≤ time ∧
      (session.ReadsClearOfGap request ↔
        session.provider.lastKnownEndTimes.maxKnown ≤ time) ∧
      session.call request =
        { provider :=
            { session.provider with
              lastKnownStartTimes :=
                session.provider.lastKnownStartTimes.record request.thread time }
          issued := session.issued ++ [⟨.endTime, time⟩] }) := by
  cases isMethod : request.method with
  | startTime =>
      have clearIff : session.ReadsClearOfGap request ↔
          ∀ time, syncClock session.provider.startBehind request.firstReading request.retries =
            some time → session.provider.lastKnownStartTimes.maxKnown < time := by
        simp [ReadsClearOfGap, isMethod, syncClock_eq_some_iff,
          TransactionSystemTimeProvider.startBehind]
      cases synced : syncClock session.provider.startBehind request.firstReading
          request.retries with
      | none =>
          refine Or.inl ⟨?_, by simp [clearIff, synced]⟩
          simp [call, isMethod, TransactionSystemTimeProvider.startTime, synced]
      | some time =>
          refine Or.inr (Or.inl ⟨rfl, time, ?_, by simp [clearIff, synced], ?_⟩)
          · simpa [TransactionSystemTimeProvider.startBehind] using
              (syncClock_eq_some_iff.mp synced).2
          · simp [call, isMethod, TransactionSystemTimeProvider.startTime, synced]
  | endTime =>
      have clearIff : session.ReadsClearOfGap request ↔
          ∀ time, syncClock session.provider.endBehind request.firstReading request.retries =
            some time → session.provider.lastKnownEndTimes.maxKnown ≤ time := by
        simp [ReadsClearOfGap, isMethod, syncClock_eq_some_iff,
          TransactionSystemTimeProvider.endBehind]
      cases synced : syncClock session.provider.endBehind request.firstReading
          request.retries with
      | none =>
          refine Or.inl ⟨?_, by simp [clearIff, synced]⟩
          simp [call, isMethod, TransactionSystemTimeProvider.endTime, synced]
      | some time =>
          refine Or.inr (Or.inr ⟨rfl, time, ?_, by simp [clearIff, synced], ?_⟩)
          · simpa [TransactionSystemTimeProvider.endBehind] using
              (syncClock_eq_some_iff.mp synced).2
          · simp [call, isMethod, TransactionSystemTimeProvider.endTime, synced]

end Session

/--
The maximum of a dictionary is the greatest time one method has issued, or zero
when that method has issued nothing.
-/
structure ThreadTimes.Tracks (times : ThreadTimes) (method : TimeMethod)
    (issued : List Issued) : Prop where
  nonneg : 0 ≤ times.maxKnown
  bounds : ∀ item ∈ issued, item.method = method → item.time ≤ times.maxKnown
  attained : times.maxKnown = 0 ∨
    ∃ item ∈ issued, item.method = method ∧ item.time = times.maxKnown

namespace ThreadTimes.Tracks

/-- Recording a newly issued time of the tracked method. -/
theorem record {times : ThreadTimes} {method : TimeMethod} {issued : List Issued}
    (tracks : times.Tracks method issued) {time : Int} (atLeast : times.maxKnown ≤ time)
    (thread : ThreadKey) :
    (times.record thread time).Tracks method (issued ++ [⟨method, time⟩]) where
  nonneg := by
    rw [maxKnown_record atLeast]
    exact tracks.nonneg.trans atLeast
  bounds := by
    rw [maxKnown_record atLeast]
    intro item itemMem isMethod
    rcases List.mem_append.mp itemMem with old | new
    · exact (tracks.bounds item old isMethod).trans atLeast
    · rw [List.mem_singleton] at new
      simp [new]
  attained := by
    rw [maxKnown_record atLeast]
    exact Or.inr ⟨⟨method, time⟩, by simp, rfl, rfl⟩

/-- A time issued by the other method leaves the dictionary and what it tracks alone. -/
theorem append_other {times : ThreadTimes} {method other : TimeMethod} {issued : List Issued}
    (tracks : times.Tracks method issued) (isOther : other ≠ method) (time : Int) :
    times.Tracks method (issued ++ [⟨other, time⟩]) where
  nonneg := tracks.nonneg
  bounds := by
    intro item itemMem isMethod
    rcases List.mem_append.mp itemMem with old | new
    · exact tracks.bounds item old isMethod
    · rw [List.mem_singleton] at new
      subst new
      exact absurd isMethod isOther
  attained := by
    rcases tracks.attained with isZero | ⟨item, itemMem, isMethod, isMax⟩
    · exact Or.inl isZero
    · exact Or.inr ⟨item, List.mem_append_left _ itemMem, isMethod, isMax⟩

/-- A positive time exceeds every time of the tracked method exactly when it exceeds the maximum. -/
theorem forall_lt_iff {times : ThreadTimes} {method : TimeMethod} {issued : List Issued}
    (tracks : times.Tracks method issued) {time : Int} (positive : 0 < time) :
    (∀ item ∈ issued, item.method = method → item.time < time) ↔ times.maxKnown < time := by
  constructor
  · intro above
    rcases tracks.attained with isZero | ⟨item, itemMem, isMethod, isMax⟩
    · omega
    · exact isMax ▸ above item itemMem isMethod
  · intro above item itemMem isMethod
    exact (tracks.bounds item itemMem isMethod).trans_lt above

/-- The nonstrict form of `forall_lt_iff`. -/
theorem forall_le_iff {times : ThreadTimes} {method : TimeMethod} {issued : List Issued}
    (tracks : times.Tracks method issued) {time : Int} (nonnegTime : 0 ≤ time) :
    (∀ item ∈ issued, item.method = method → item.time ≤ time) ↔ times.maxKnown ≤ time := by
  constructor
  · intro above
    rcases tracks.attained with isZero | ⟨item, itemMem, isMethod, isMax⟩
    · omega
    · exact isMax ▸ above item itemMem isMethod
  · intro above item itemMem isMethod
    exact (tracks.bounds item itemMem isMethod).trans above

end ThreadTimes.Tracks

namespace Session

/-- Each dictionary tracks the times of the method that its name does not mention. -/
structure Tracks (session : Session) : Prop where
  ends : session.provider.lastKnownStartTimes.Tracks .endTime session.issued
  starts : session.provider.lastKnownEndTimes.Tracks .startTime session.issued

theorem tracks_initial : initial.Tracks where
  ends := ⟨by decide, by simp [initial], Or.inl rfl⟩
  starts := ⟨by decide, by simp [initial], Or.inl rfl⟩

/-- Every call keeps the dictionaries in step with the issued times. -/
theorem Tracks.call {session : Session} (tracks : session.Tracks) (request : Call) :
    (session.call request).Tracks := by
  rcases session.call_cases request with
    ⟨unchanged, _⟩ | ⟨_, time, ahead, _, called⟩ | ⟨_, time, ahead, _, called⟩
  · rw [unchanged]
    exact tracks
  · rw [called]
    exact ⟨tracks.ends.append_other (by decide) time, tracks.starts.record ahead.le _⟩
  · rw [called]
    exact ⟨tracks.ends.record ahead _, tracks.starts.append_other (by decide) time⟩

/-- One call extends an ordered session to an ordered one exactly when it reads clear of the gap. -/
theorem ordered_call_iff {session : Session} (tracks : session.Tracks) (request : Call) :
    (session.call request).Ordered ↔ session.Ordered ∧ session.ReadsClearOfGap request := by
  rcases session.call_cases request with
    ⟨unchanged, clear⟩ | ⟨_, time, ahead, clearIff, called⟩ | ⟨_, time, ahead, clearIff, called⟩
  · simp [unchanged, clear]
  · have positive : 0 < time := tracks.starts.nonneg.trans_lt ahead
    rw [called, clearIff, ← tracks.ends.forall_lt_iff positive]
    simp only [Ordered, List.pairwise_append, List.pairwise_singleton, List.mem_singleton,
      forall_eq, Issued.Precedes, true_and, reduceCtorEq, false_imp_iff, imp_true_iff, and_true,
      true_imp_iff]
  · have nonneg : 0 ≤ time := tracks.ends.nonneg.trans ahead
    rw [called, clearIff, ← tracks.starts.forall_le_iff nonneg]
    simp only [Ordered, List.pairwise_append, List.pairwise_singleton, List.mem_singleton,
      forall_eq, Issued.Precedes, true_and, reduceCtorEq, false_imp_iff, imp_true_iff,
      true_imp_iff]

theorem runCalls_snoc (calls : List Call) (request : Call) :
    runCalls (calls ++ [request]) = (runCalls calls).call request := by
  simp [runCalls]

theorem tracks_runCalls (calls : List Call) : (runCalls calls).Tracks := by
  induction calls using List.reverseRecOn with
  | nil => exact tracks_initial
  | append_singleton calls request ih =>
      rw [runCalls_snoc]
      exact ih.call request

/--
The times issued over a whole sequence of calls are in order exactly when every
call of the sequence reads the clock clear of the gap between the two
dictionaries, in the state in which it is made.
-/
theorem ordered_runCalls_iff (calls : List Call) :
    (runCalls calls).Ordered ↔
      Run (Guarded ReadsClearOfGap Step) initial calls (runCalls calls) := by
  induction calls using List.reverseRecOn with
  | nil =>
      constructor
      · exact fun _ => Run.nil
      · exact fun _ => List.Pairwise.nil
  | append_singleton calls request ih =>
      rw [runCalls_snoc, ordered_call_iff (tracks_runCalls calls), ih]
      constructor
      · rintro ⟨before, clear⟩
        exact Run.snoc before ⟨clear, rfl⟩
      · intro run
        rcases run.snoc_inv with ⟨middle, before, clear, stepped⟩
        have reached : middle = runCalls calls :=
          before.eq_foldl fun _ _ _ step => step.2
        subst reached
        exact ⟨before, clear⟩

/--
Clock readings that stand still or move back put the issued times out of order:
a transaction that starts in the nanosecond in which another one ended gets
that one's end time as its start time, and an end time may be smaller than an
earlier start time.
-/
theorem not_ordered_runCalls :
    ¬(runCalls
        [⟨.startTime, (1, 1), 90, []⟩, ⟨.endTime, (1, 1), 100, []⟩,
          ⟨.startTime, (1, 2), 100, []⟩]).Ordered ∧
      ¬(runCalls [⟨.startTime, (1, 1), 100, []⟩, ⟨.endTime, (1, 1), 95, []⟩]).Ordered := by
  decide

end Session

end Deltacat.Storage
