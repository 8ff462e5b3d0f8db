import Deltacat.Exceptions
import Deltacat.Library.Run
import Mathlib.Tactic

/-!
# Catalog functions and the current transaction

The functions of the catalog delegate find the catalog of an operation from the
`catalog` argument, or else from the name that the current transaction carries,
or else take the default catalog. The implementation writes data files to the
root of that catalog, and metadata to the root of the transaction it is given,
or else of the current one, or else of a new one in that catalog. An explicit
transaction is not asked for its catalog, so the two may differ; they may also
differ once another catalog has been registered under the name.

A transaction is current within its `with` block. It keeps the transaction that
was current before in one attribute, which a second `with` block of the same
transaction overwrites.
-/

namespace Deltacat.Catalog

open Deltacat.Library

/-- Where a catalog is: its root directory, and the file system that has it. -/
structure CatalogProperties (FileSystem : Type) where
  root : String
  filesystem : FileSystem
  deriving DecidableEq

/-- The actor `Catalogs`; a dictionary has its entries in the order of their insertion. -/
structure Catalogs (FileSystem : Type) where
  catalogs : List (String × CatalogProperties FileSystem)
  defaultCatalogName : Option String
  defaultCatalog : Option (CatalogProperties FileSystem)

namespace Catalogs

variable {FileSystem : Type}

/-- The constructor, which does not accept a default catalog that is not among the catalogs. -/
def of (catalogs : List (String × CatalogProperties FileSystem)) (default : Option String) :
    Except Error (Catalogs FileSystem) :=
  -- The empty string is no true value.
  match default.filter (· ≠ "") with
  | some name =>
      (catalogs.lookup name).elim (.error .valueError) fun catalog =>
        .ok ⟨catalogs, some name, some catalog⟩
  | none =>
      if catalogs.length = 1 then .ok ⟨catalogs, none, catalogs.head?.map Prod.snd⟩
      else .ok ⟨catalogs, none, none⟩

def put (registry : Catalogs FileSystem) (name : String)
    (catalog : CatalogProperties FileSystem) (setDefault : Bool) : Catalogs FileSystem :=
  let catalogs :=
    if (registry.catalogs.lookup name).isSome then
      registry.catalogs.map fun entry => if entry.1 = name then (name, catalog) else entry
    else registry.catalogs ++ [(name, catalog)]
  { registry with
    catalogs := catalogs
    defaultCatalog :=
      if setDefault ∨ catalogs.length = 1 then some catalog else registry.defaultCatalog }

def pop (registry : Catalogs FileSystem) (name : String) : Catalogs FileSystem :=
  let catalogs := registry.catalogs.filter (·.1 ≠ name)
  { registry with
    catalogs := catalogs
    defaultCatalog :=
      if (registry.catalogs.lookup name).isSome ∧ registry.defaultCatalogName = some name then
        if catalogs.length = 1 then catalogs.head?.map Prod.snd else none
      else registry.defaultCatalog }

def clear (registry : Catalogs FileSystem) : Catalogs FileSystem :=
  { registry with catalogs := [], defaultCatalog := none }

end Catalogs

section Registry

variable {FileSystem : Type}

/-- `get_catalog`, of the catalogs that are registered once DeltaCAT is initialized. -/
def getCatalog (allCatalogs : Option (Catalogs FileSystem)) :
    Option String → Except Error (CatalogProperties FileSystem)
  | some name =>
      (allCatalogs.bind (·.catalogs.lookup name)).elim (.error .valueError) .ok
  | none => (allCatalogs.bind (·.defaultCatalog)).elim (.error .valueError) .ok

/-- `put_catalog`. -/
def putCatalog (allCatalogs : Option (Catalogs FileSystem)) (name : String)
    (catalog : CatalogProperties FileSystem) (default failIfExists : Bool) :
    Except Error (Catalogs FileSystem) :=
  match allCatalogs with
  | none => Catalogs.of [(name, catalog)] none
  | some registry =>
      -- The error that there is such a catalog is taken for one that there is none by its text.
      if failIfExists ∧ (registry.catalogs.lookup name).isSome ∧
          ¬"not found".toList <:+: name.toList then
        .error .valueError
      else .ok (registry.put name catalog default)

end Registry

/-- A transaction object; two objects differ in `object`. -/
structure Transaction (FileSystem : Type) where
  object : ℕ
  interactive : Bool
  startTime : Option ℕ
  /-- `catalog_root_normalized` and `_filesystem`. -/
  catalog : CatalogProperties FileSystem
  catalogName : Option String
  deriving DecidableEq

/-- The functions of the delegate. -/
inductive CatalogFunction
  | writeToTable | readTable | alterTable | createTable | dropTable | refreshTable | listTables
  | getTable | truncateTable | renameTable | tableExists | listNamespaces | getNamespace
  | namespaceExists | createNamespace | alterNamespace | dropNamespace | defaultNamespace
  | fromManifestTable
  deriving DecidableEq

namespace CatalogFunction

/-- Whether the function has a `transaction` parameter. -/
def takesTransaction : CatalogFunction → Bool
  | defaultNamespace | fromManifestTable => false
  | _ => true

/-- Whether the main implementation has the function. -/
def isImplemented : CatalogFunction → Bool
  | refreshTable | truncateTable => false
  | _ => true

end CatalogFunction

/-- Where an operation puts its data files, and where its transaction puts metadata and logs. -/
structure Roots (FileSystem : Type) where
  data : CatalogProperties FileSystem
  transaction : Option (CatalogProperties FileSystem)

section Calls

variable {FileSystem : Type}

/-- `resolve_catalog_from_transaction`. -/
def resolveCatalogFromTransaction (current : Option (Transaction FileSystem)) : Option String :=
  current.bind Transaction.catalogName

/-- `setup_transaction`: the root of the transaction that an implementation works in. -/
def setupTransaction (current transaction : Option (Transaction FileSystem))
    (inner : CatalogProperties FileSystem) : CatalogProperties FileSystem :=
  match transaction <|> current with
  | some used => used.catalog
  | none => inner

/-- A call of a function with these `transaction` and `catalog` arguments. -/
def CatalogFunction.call (function : CatalogFunction)
    (allCatalogs : Option (Catalogs FileSystem))
    (current transaction : Option (Transaction FileSystem)) (catalog : Option String) :
    Except Error (Roots FileSystem) :=
  if function.takesTransaction then
    -- The empty string is a catalog name, but no true value.
    if (transaction <|> current).isSome ∧ catalog.any (· ≠ "") then .error .valueError
    else do
      let inner ← getCatalog allCatalogs
        (if catalog = none ∧ (transaction <|> current).isSome then
          resolveCatalogFromTransaction current
        else catalog)
      if function.isImplemented then
        return {
          data := inner
          transaction := some (setupTransaction current transaction inner) }
      else throw .notImplementedError
  else do
    let inner ← getCatalog allCatalogs (catalog <|> resolveCatalogFromTransaction current)
    return { data := inner, transaction := none }

namespace CatalogFunction

variable {function : CatalogFunction} {allCatalogs : Option (Catalogs FileSystem)}
  {current transaction : Option (Transaction FileSystem)} {catalog : Option String}

theorem call_of_not_takesTransaction (without : ¬function.takesTransaction)
    {roots : Roots FileSystem}
    (called : function.call allCatalogs current transaction catalog = .ok roots) :
    roots.transaction = none := by
  rw [call, if_neg without] at called
  cases found : getCatalog allCatalogs (catalog <|> resolveCatalogFromTransaction current) with
  | error error =>
      rw [found] at called
      cases called
  | ok inner =>
      rw [found] at called
      cases called
      rfl

/-- The catalog of an operation is looked up by the argument or by the current transaction. -/
theorem call_eq (takes : function.takesTransaction) :
    function.call allCatalogs current transaction catalog =
      if (transaction <|> current).isSome ∧ catalog.any (· ≠ "") then .error .valueError
      else (do
        let inner ← getCatalog allCatalogs (catalog <|> resolveCatalogFromTransaction current)
        if function.isImplemented then
          return {
            data := inner
            transaction := some (setupTransaction current transaction inner) }
        else throw .notImplementedError) := by
  have name : (if catalog = none ∧ (transaction <|> current).isSome then
      resolveCatalogFromTransaction current else catalog) =
        (catalog <|> resolveCatalogFromTransaction current) := by
    cases catalog with
    | some _ => rfl
    | none =>
        cases current with
        | some _ => cases transaction <;> rfl
        | none => cases transaction <;> rfl
  rw [call, if_pos takes, name]

end CatalogFunction

end Calls

/--
The context of a program: the registered catalogs, the current transaction, the previous
ones that the transactions remember, and the `with` blocks that are entered, innermost
first, each with the transaction that was current before.
-/
structure Session (FileSystem : Type) where
  allCatalogs : Option (Catalogs FileSystem)
  current : Option (Transaction FileSystem)
  contextTokens : Transaction FileSystem → Option (Option (Transaction FileSystem))
  blocks : List (Transaction FileSystem × Option (Transaction FileSystem))

namespace Session

variable {FileSystem : Type}

/-- Outside all `with` blocks, before DeltaCAT is initialized. -/
def start : Session FileSystem where
  allCatalogs := none
  current := none
  contextTokens := fun _ => none
  blocks := []

/-- `Transaction.__enter__`. -/
def enter [DecidableEq FileSystem] (session : Session FileSystem)
    (transaction : Transaction FileSystem) : Except Error (Session FileSystem) :=
  if transaction.interactive = false then .error .runtimeError
  else if transaction.startTime = none then .error .runtimeError
  else .ok { session with
    current := some transaction
    contextTokens := Function.update session.contextTokens transaction (some session.current)
    blocks := (transaction, session.current) :: session.blocks }

/--
`Transaction.__exit__`. Whether it seals the transaction or cleans up, and
whether that succeeds, it ends with restoring the context.
-/
def exit (session : Session FileSystem) (transaction : Transaction FileSystem) :
    Session FileSystem :=
  { session with
    current := (session.contextTokens transaction).getD session.current
    blocks := session.blocks.tail }

end Session

/-- What a program does. -/
inductive Event (FileSystem : Type)
  /-- It calls `init`, with the catalogs that are given or loaded. -/
  | init (catalogs : List (String × CatalogProperties FileSystem)) (default : Option String)
      (force : Bool)
  | putCatalog (name : String) (catalog : CatalogProperties FileSystem)
      (default failIfExists : Bool)
  | popCatalog (name : String)
  | clearCatalogs
  /-- It enters the `with` block of a transaction. -/
  | enter (transaction : Transaction FileSystem)
  /-- It leaves the innermost `with` block. -/
  | leave
  /-- It calls a catalog function. -/
  | call (function : CatalogFunction) (transaction : Option (Transaction FileSystem))
      (catalog : Option String)

namespace Session

variable {FileSystem : Type} [DecidableEq FileSystem]

/--
The context after an event. There is none if no block is left to leave, or if the
catalogs have not the default one that they are registered with.
-/
def next (session : Session FileSystem) : Event FileSystem → Option (Session FileSystem)
  | .init catalogs default force =>
      if session.allCatalogs.isSome ∧ ¬force then some session
      else (Catalogs.of catalogs default).toOption.map fun registry =>
        { session with allCatalogs := some registry }
  | .putCatalog name catalog default failIfExists =>
      some { session with
        allCatalogs :=
          (putCatalog session.allCatalogs name catalog default failIfExists).toOption <|>
          session.allCatalogs }
  | .popCatalog name =>
      some { session with allCatalogs := session.allCatalogs.map (·.pop name) }
  | .clearCatalogs => some { session with allCatalogs := session.allCatalogs.map (·.clear) }
  | .enter transaction => some ((session.enter transaction).toOption.getD session)
  | .leave => session.blocks.head?.map fun block => session.exit block.1
  | .call _ _ _ => some session

/--
A call uses one catalog for data and metadata, and leaving a block restores the
transaction that was current before the block.
-/
def OneCatalog (session : Session FileSystem) : Event FileSystem → Prop
  | .leave => ∀ block ∈ session.blocks.head?, (session.exit block.1).current = block.2
  | .call function transaction catalog =>
      ∀ roots, function.call session.allCatalogs session.current transaction catalog = .ok roots →
        ∀ root ∈ roots.transaction, roots.data = root
  | _ => True

/--
No transaction is entered again within its block. A function that is called
with a transaction, or within a block, finds this transaction's root by the name
of the current transaction, or by the default catalog outside all blocks.
-/
def Disciplined (session : Session FileSystem) : Event FileSystem → Prop
  | .enter transaction => transaction ∉ session.blocks.map Prod.fst
  | .call function transaction catalog =>
      function.takesTransaction → function.isImplemented → ¬catalog.any (· ≠ "") →
        ∀ used ∈ transaction <|> session.current, ∀ inner,
          getCatalog session.allCatalogs
              (catalog <|> resolveCatalogFromTransaction session.current) =
            .ok inner → inner = used.catalog
  | _ => True

omit [DecidableEq FileSystem] in
/-- A call that returns uses one root if and only if it is a disciplined one. -/
theorem oneCatalog_call_iff (session : Session FileSystem) (function : CatalogFunction)
    (transaction : Option (Transaction FileSystem)) (catalog : Option String) :
    session.OneCatalog (.call function transaction catalog) ↔
      session.Disciplined (.call function transaction catalog) := by
  simp only [OneCatalog, Disciplined]
  by_cases takes : function.takesTransaction
  · rw [CatalogFunction.call_eq takes]
    simp only [setupTransaction]
    generalize getCatalog session.allCatalogs _ = found
    generalize (transaction <|> session.current) = active
    generalize catalog.any (· ≠ "") = given
    by_cases implemented : function.isImplemented
    · cases active with
      | none => cases found <;> simp [implemented, bind, Except.bind, pure, Except.pure]
      | some used =>
          cases given <;> cases found <;>
            simp [takes, implemented, bind, Except.bind, pure, Except.pure]
    · constructor
      · intro _ _ isImplemented
        exact absurd isImplemented implemented
      · intro _ roots called
        split at called
        · cases called
        · cases found with
          | error error => cases called
          | ok inner =>
              simp only [bind, Except.bind] at called
              cases called
  · constructor
    · intro _ takesTransaction
      exact absurd takesTransaction takes
    · intro _ roots called root isRoot
      rw [CatalogFunction.call_of_not_takesTransaction takes called] at isRoot
      cases isRoot

/-- Every entered block is of another transaction, which remembers what the block found. -/
structure Nested (session : Session FileSystem) : Prop where
  distinct : (session.blocks.map Prod.fst).Nodup
  remembered : ∀ block ∈ session.blocks, session.contextTokens block.1 = some block.2

omit [DecidableEq FileSystem] in
theorem nested_start : (start : Session FileSystem).Nested where
  distinct := List.nodup_nil
  remembered := by simp [start]

theorem Nested.enter {session entered : Session FileSystem} (nested : session.Nested)
    {transaction : Transaction FileSystem} (fresh : transaction ∉ session.blocks.map Prod.fst)
    (succeeded : session.enter transaction = .ok entered) : entered.Nested := by
  simp only [Session.enter] at succeeded
  split at succeeded
  · cases succeeded
  split at succeeded
  · cases succeeded
  cases succeeded
  refine ⟨by simpa using ⟨by simpa using fresh, nested.distinct⟩, ?_⟩
  intro block isBlock
  rcases List.mem_cons.mp isBlock with rfl | outer
  · exact Function.update_self ..
  · have other : block.1 ≠ transaction := fun same =>
      fresh (same ▸ List.mem_map_of_mem outer)
    dsimp only
    rw [Function.update_of_ne other]
    exact nested.remembered block outer

omit [DecidableEq FileSystem] in
theorem Nested.exit {session : Session FileSystem} (nested : session.Nested)
    (transaction : Transaction FileSystem) : (session.exit transaction).Nested where
  distinct := by
    rw [Session.exit, List.map_tail]
    exact nested.distinct.sublist (List.tail_sublist _)
  remembered := fun block isBlock => nested.remembered block (List.mem_of_mem_tail isBlock)

omit [DecidableEq FileSystem] in
/-- Which catalogs are registered has no influence on the blocks. -/
theorem Nested.withCatalogs {session : Session FileSystem} (nested : session.Nested)
    (allCatalogs : Option (Catalogs FileSystem)) :
    Nested { session with allCatalogs := allCatalogs } where
  distinct := nested.distinct
  remembered := nested.remembered

theorem Nested.next {session after : Session FileSystem} {event : Event FileSystem}
    (nested : session.Nested) (disciplined : session.Disciplined event)
    (stepped : session.next event = some after) : after.Nested := by
  cases event with
  | init catalogs default force =>
      rw [Session.next] at stepped
      split_ifs at stepped
      · cases stepped
        exact nested
      · rcases Option.map_eq_some_iff.mp stepped with ⟨registry, _, rfl⟩
        exact nested.withCatalogs _
  | putCatalog name catalog default failIfExists =>
      cases stepped
      exact nested.withCatalogs _
  | popCatalog name =>
      cases stepped
      exact nested.withCatalogs _
  | clearCatalogs =>
      cases stepped
      exact nested.withCatalogs _
  | enter transaction =>
      cases entered : session.enter transaction with
      | error error =>
          rw [Session.next, entered] at stepped
          cases stepped
          exact nested
      | ok inside =>
          rw [Session.next, entered] at stepped
          cases stepped
          exact nested.enter disciplined entered
  | leave =>
      rcases Option.map_eq_some_iff.mp stepped with ⟨block, _, rfl⟩
      exact nested.exit block.1
  | call function transaction catalog =>
      cases stepped
      exact nested

omit [DecidableEq FileSystem] in
/-- In a nested context leaving the innermost block restores what it found. -/
theorem Nested.oneCatalog_leave {session : Session FileSystem} (nested : session.Nested) :
    session.OneCatalog .leave := by
  intro block isInnermost
  have isBlock := List.mem_of_mem_head? isInnermost
  simp [Session.exit, nested.remembered block isBlock]

/--
In a run of disciplined events every call uses one catalog and every block that
is left restores the transaction that was current before it.
-/
theorem oneCatalog_run {events : List (Event FileSystem)} {session : Session FileSystem}
    (run : Run (Guarded Disciplined fun session event after =>
      session.next event = some after) start events session)
    {event : Event FileSystem} (disciplined : session.Disciplined event) :
    session.OneCatalog event := by
  have nested : session.Nested := run.invariant nested_start
    fun _ _ _ before stepped => before.next stepped.1 stepped.2
  cases event with
  | leave => exact nested.oneCatalog_leave
  | call function transaction catalog =>
      exact (oneCatalog_call_iff session function transaction catalog).mpr disciplined
  | _ => trivial

section Examples

/-- Two catalogs in one file system, of which the first is the default. -/
def initTwo : Event String :=
  .init [("a", ⟨"/a", "local"⟩), ("b", ⟨"/b", "local"⟩)] (some "a") false

/-- A transaction in the second catalog. -/
def inSecond : Transaction String where
  object := 1
  interactive := true
  startTime := some 10
  catalog := ⟨"/b", "local"⟩
  catalogName := some "b"

/-- A write within the transaction's block, also after another catalog has become the default. -/
theorem oneCatalog_run_inBlock :
    ∃ session : Session String, session.current = some inSecond ∧
      session.OneCatalog (.call .writeToTable none none) := by
  have initialized : start.Disciplined initTwo := trivial
  have entered (session : Session String) (noBlocks : session.blocks = []) :
      session.Disciplined (.enter inSecond) := by simp [Disciplined, noBlocks]
  have registered (session : Session String) :
      session.Disciplined (.putCatalog "c" ⟨"/c", "s3"⟩ true false) := trivial
  refine ⟨_, ?_, oneCatalog_run (Run.snoc (Run.snoc (Run.snoc Run.nil ⟨initialized, rfl⟩)
    ⟨entered _ rfl, rfl⟩) ⟨registered _, rfl⟩) ?_⟩
  · rfl
  · rintro _ _ _ used ⟨⟩ inner found
    cases found
    rfl

/-- Outside all blocks a write with an explicit transaction puts data into the default catalog. -/
theorem not_oneCatalog_explicit :
    ¬∀ (events : List (Event String)) (session : Session String),
      Run (fun session event after => session.next event = some after) start events session →
        ∀ event, session.OneCatalog event := by
  intro always
  have same := always [initTwo] _ (Run.snoc Run.nil rfl) (.call .writeToTable (some inSecond) none)
    ⟨⟨"/a", "local"⟩, some ⟨"/b", "local"⟩⟩ rfl ⟨"/b", "local"⟩ rfl
  exact absurd same (by decide)

end Examples

end Session

end Deltacat.Catalog
