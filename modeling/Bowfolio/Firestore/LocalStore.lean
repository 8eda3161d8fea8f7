import Bowfolio.Firestore.LocalDocuments

/-!
# The local store

The local store holds the cached documents and for every user the pending batches. A write
adds a batch, the acknowledgement of the first batch moves its effect into the cache, a
rejection drops it, and a remote event brings newer documents. Each operation is described
once: its assertions hold in every store that satisfies the invariant, and it changes what
its lemma says.
-/

namespace Bowfolio.Firestore

/-- `User`: a signed-in user by its identifier, or none. -/
abbrev User := Option String

/-- `MutationBatchResult`, whose constructor asserts that there is a result for each
mutation. A result is the version that the mutated document has now. -/
structure MutationBatchResult where
  batch : MutationBatch
  commitVersion : SnapshotVersion
  mutationResults : List SnapshotVersion
  sameLength : batch.mutations.length = mutationResults.length

/-- `MutationBatchResult::doc_versions`. -/
def MutationBatchResult.docVersions (result : MutationBatchResult) :
    Collection DocumentKey SnapshotVersion :=
  (result.batch.mutations.zip result.mutationResults).foldl
    (fun versions mutated => versions.set mutated.1.key mutated.2) .empty

/-- `RemoteEvent`: the version of the snapshot and the documents that it updates. -/
structure RemoteEvent where
  snapshotVersion : SnapshotVersion
  documentUpdates : Collection DocumentKey MaybeDocument
  keyed : documentUpdates.Every fun key doc => doc.key = key

/-- A remote event with one update. -/
def RemoteEvent.single (snapshotVersion : SnapshotVersion) (doc : MaybeDocument) :
    RemoteEvent where
  snapshotVersion
  documentUpdates := Collection.empty.set doc.key doc
  keyed := by
    intro key update found
    by_cases same : key = doc.key
    · rw [same, Collection.get?_set_self] at found
      rw [same, Option.some.inj found]
    · rw [Collection.get?_set_of_ne _ same, Collection.get?_empty] at found
      cases found

/-- An event about one document updates no other. -/
theorem RemoteEvent.eq_of_get?_single {snapshotVersion : SnapshotVersion}
    {doc update : MaybeDocument} {key : DocumentKey}
    (found : (single snapshotVersion doc).documentUpdates.get? key = some update) :
    update = doc := by
  by_cases same : key = doc.key
  · subst same
    exact (Option.some.inj ((Collection.get?_set_self _ _ _).symm.trans found)).symm
  · have absent : (single snapshotVersion doc).documentUpdates.get? key = none :=
      (Collection.get?_set_of_ne _ same _).trans (Collection.get?_empty key)
    cases absent.symm.trans found

/-- `LocalStore` over the persistence in memory, which keeps a mutation queue for each user. -/
structure LocalStore where
  remoteDocumentCache : MemoryRemoteDocumentCache
  mutationQueues : User → MemoryMutationQueue
  user : User
  lastRemoteSnapshotVersion : SnapshotVersion

/-- `LocalWriteResult`. -/
structure LocalWriteResult where
  batchId : Nat
  changes : Collection DocumentKey MaybeDocument

namespace MutationBatch

/-- The loop body of `MutationBatch::ApplyToLocalDocumentSet`, which applies the whole batch
to the document of each mutation. -/
def applyToDocumentOf (batch : MutationBatch) (documents : Collection DocumentKey MaybeDocument)
    (mutation : Mutation) : Collection DocumentKey MaybeDocument :=
  match batch.applyToLocalDocument (documents.get? mutation.key) mutation.key with
  | some mutated => documents.set mutation.key mutated
  | none => documents

/-- `MutationBatch::ApplyToLocalDocumentSet`. -/
def applyToLocalDocumentSet (batch : MutationBatch)
    (documentSet : Collection DocumentKey MaybeDocument) : Collection DocumentKey MaybeDocument :=
  batch.mutations.foldl batch.applyToDocumentOf documentSet

end MutationBatch

namespace LocalStore

/-- The store that `MemoryPersistence` gives to the first user. -/
def initial (user : User) : LocalStore := ⟨.initial, fun _ => .initial, user, 0⟩

variable (store : LocalStore)

def mutationQueue : MemoryMutationQueue := store.mutationQueues store.user

def localDocuments : LocalDocumentsView := ⟨store.remoteDocumentCache, store.mutationQueue⟩

/-- The store with another queue of the current user. -/
def withQueue (queue : MemoryMutationQueue) : LocalStore :=
  { store with mutationQueues := Function.update store.mutationQueues store.user queue }

/-- The keys that batches write. -/
def changedKeys (batches : List MutationBatch) : Finset DocumentKey :=
  (batches.flatMap MutationBatch.keys).toFinset

/-- `LocalStore::HandleUserChange`; as for all operations, there is no result when an
assertion fails. -/
def handleUserChange (user : User) : Option (Collection DocumentKey MaybeDocument × LocalStore) :=
  let oldBatches := store.mutationQueue.queue
  let next : LocalStore := { store with user }
  let next := next.withQueue next.mutationQueue.start
  let newBatches := next.mutationQueue.queue
  (next.localDocuments.getDocuments (changedKeys (oldBatches ++ newBatches))).map
    fun changes => (changes, next)

/-- `LocalStore::WriteLocally`. Only numeric increments have a base value to record, so
there are no base mutations. -/
def writeLocally (mutations : List Mutation) : Option (LocalWriteResult × LocalStore) :=
  (store.localDocuments.getDocuments (mutations.map Mutation.key).toFinset).bind
    fun existingDocuments =>
      (store.mutationQueue.addMutationBatch [] mutations).map fun added =>
        (⟨added.1.batchId, added.1.applyToLocalDocumentSet existingDocuments⟩,
          store.withQueue added.2)

/-- The loop body of `LocalStore::ApplyBatchResult`. -/
def applyResultTo (result : MutationBatchResult) (cache : MemoryRemoteDocumentCache)
    (docKey : DocumentKey) : Option MemoryRemoteDocumentCache :=
  (result.docVersions.get? docKey).bind fun ackVersion =>
    if (cache.get docKey).all fun doc => doc.version < ackVersion then
      match result.batch.applyToRemoteDocument (cache.get docKey) docKey result.mutationResults with
      | none => if cache.get docKey = none then some cache else none
      | some doc => some (cache.add doc result.commitVersion)
    else some cache

/-- `LocalStore::ApplyBatchResult`. -/
def applyBatchResult (result : MutationBatchResult) : Option LocalStore :=
  ((DocumentKey.inOrder result.batch.keys.toFinset).foldlM (applyResultTo result)
      store.remoteDocumentCache).bind fun cache =>
    (store.mutationQueue.removeMutationBatch result.batch).map fun queue =>
      { store with remoteDocumentCache := cache }.withQueue queue

/-- `LocalStore::AcknowledgeBatch`. -/
def acknowledgeBatch (result : MutationBatchResult) :
    Option (Collection DocumentKey MaybeDocument × LocalStore) :=
  (store.mutationQueue.acknowledgeBatch result.batch).bind fun queue =>
    ((store.withQueue queue).applyBatchResult result).bind fun next =>
      next.mutationQueue.performConsistencyCheck.bind fun _ =>
        (next.localDocuments.getDocuments result.batch.keys.toFinset).map
          fun changes => (changes, next)

/-- `LocalStore::RejectBatch`. -/
def rejectBatch (batchId : Nat) : Option (Collection DocumentKey MaybeDocument × LocalStore) :=
  (store.mutationQueue.lookupMutationBatch batchId).join.bind fun toReject =>
    (store.mutationQueue.removeMutationBatch toReject).bind fun queue =>
      queue.performConsistencyCheck.bind fun _ =>
        ((store.withQueue queue).localDocuments.getDocuments toReject.keys.toFinset).map
          fun changes => (changes, store.withQueue queue)

/-- `LocalStore::GetNextMutationBatch`. -/
def getNextMutationBatch (batchId : Int) : Option MutationBatch :=
  store.mutationQueue.nextMutationBatchAfterBatchId batchId

/-- A manufactured update, which says that the access to a document was lost. -/
def isManufactured : MaybeDocument → Bool
  | .noDocument _ version _ => version = 0
  | .document .. | .unknownDocument .. => false

/-- An update is newer than the cached document, or completes one that has the effects of
acknowledged writes. -/
def isNewer (doc : MaybeDocument) (existingDoc : Option MaybeDocument) : Bool :=
  existingDoc.all fun existing => existing.version < doc.version ||
    (doc.version = existing.version && existing.hasPendingWrites)

/-- The loop body of `LocalStore::ApplyRemoteEvent`, on the cache and the changed documents.
An iteration affects its own document only. -/
def applyDocumentUpdate (snapshotVersion : SnapshotVersion)
    (existingDocs : Collection DocumentKey (Option MaybeDocument))
    (state : MemoryRemoteDocumentCache × Collection DocumentKey (Option MaybeDocument))
    (update : DocumentKey × MaybeDocument) :
    Option (MemoryRemoteDocumentCache × Collection DocumentKey (Option MaybeDocument)) :=
  if isManufactured update.2 then
    some (state.1.remove update.1, state.2.set update.1 (some update.2))
  else if isNewer update.2 (existingDocs.get? update.1).join then
    if snapshotVersion ≠ 0 then
      some (state.1.add update.2 snapshotVersion, state.2.set update.1 (some update.2))
    else none
  else some state

/-- The last remote snapshot version after an event, which may come without one. -/
def snapshotVersionAfter (event : RemoteEvent) : SnapshotVersion :=
  if event.snapshotVersion ≠ 0 then event.snapshotVersion else store.lastRemoteSnapshotVersion

/-- `LocalStore::ApplyRemoteEvent`, without the targets. -/
def applyRemoteEvent (event : RemoteEvent) :
    Option (Collection DocumentKey MaybeDocument × LocalStore) :=
  let existingDocs := store.remoteDocumentCache.getAll
    (event.documentUpdates.entries.map Prod.fst).toFinset
  (event.documentUpdates.entries.foldlM (applyDocumentUpdate event.snapshotVersion existingDocs)
      (store.remoteDocumentCache, .empty)).bind fun updated =>
    if event.snapshotVersion ≠ 0 ∧ event.snapshotVersion < store.lastRemoteSnapshotVersion then none
    else
      let next : LocalStore := { store with
        remoteDocumentCache := updated.1
        lastRemoteSnapshotVersion := store.snapshotVersionAfter event }
      (next.localDocuments.getLocalViewOfDocuments updated.2).map fun changes => (changes, next)

/-! ## The results of a batch -/

end LocalStore

namespace MutationBatchResult

variable (result : MutationBatchResult)

/-- The document with a result has the key of its mutation. -/
theorem key_applyToRemoteDocument (mutation : Mutation) (maybeDoc : Option MaybeDocument)
    (version : SnapshotVersion) :
    (mutation.applyToRemoteDocument maybeDoc version).key = mutation.key := by
  cases mutation with
  | set | delete => rfl
  | patch key value mask precondition =>
      rw [Mutation.applyToRemoteDocument]
      split <;> rfl
  | transform =>
      rw [Mutation.applyToRemoteDocument]
      split <;> rfl

/-- Mutations leave the documents that they write at the versions of their results. -/
theorem foldl_results {key : DocumentKey} (mutated : List (Mutation × SnapshotVersion))
    (maybeDoc : Option MaybeDocument) (versions : Collection DocumentKey SnapshotVersion)
    (written : (∃ result ∈ mutated, result.1.key = key) ∨
      ∃ doc, maybeDoc = some doc ∧ doc.key = key ∧ versions.get? key = some doc.version) :
    ∃ doc, mutated.foldl (fun doc result =>
        if result.1.key = key then some (result.1.applyToRemoteDocument doc result.2) else doc)
          maybeDoc = some doc ∧ doc.key = key ∧
      (mutated.foldl (fun versions result => versions.set result.1.key result.2) versions).get?
        key = some doc.version := by
  induction mutated generalizing maybeDoc versions with
  | nil =>
      rcases written with ⟨result, member, _⟩ | stored
      · exact absurd member List.not_mem_nil
      · exact stored
  | cons head mutated ih =>
      rw [List.foldl_cons, List.foldl_cons]
      by_cases own : head.1.key = key
      · refine ih _ _ (.inr ⟨_, if_pos own, ?_, ?_⟩)
        · rw [key_applyToRemoteDocument, own]
        · rw [own, Collection.get?_set_self, Mutation.version_applyToRemoteDocument]
      · rw [if_neg own]
        refine ih _ _ ?_
        rcases written with ⟨result, member, same⟩ | ⟨doc, stored, keyed, version⟩
        · rcases List.mem_cons.mp member with rfl | later
          · exact absurd same own
          · exact .inl ⟨result, later, same⟩
        · exact .inr ⟨doc, stored, keyed, by rw [versions.get?_set_of_ne (Ne.symm own), version]⟩

variable {result} {key : DocumentKey}

/-- The batch leaves a document that it writes at the version of the acknowledgement. -/
theorem applyToRemoteDocument_of_written (written : key ∈ result.batch.keys)
    (maybeDoc : Option MaybeDocument) :
    ∃ doc, result.batch.applyToRemoteDocument maybeDoc key result.mutationResults = some doc ∧
      doc.key = key ∧ result.docVersions.get? key = some doc.version := by
  obtain ⟨mutation, member, own⟩ := List.mem_map.mp written
  refine foldl_results _ maybeDoc .empty (.inl ?_)
  obtain ⟨index, bound, rfl⟩ := List.mem_iff_getElem.mp member
  have inside : index < (result.batch.mutations.zip result.mutationResults).length := by
    rw [List.length_zip, ← result.sameLength, Nat.min_self]
    exact bound
  exact ⟨_, List.getElem_mem inside, by rw [List.getElem_zip]; exact own⟩

/-- A document that the batch does not write has no result version. -/
theorem docVersions_of_foreign (foreign : key ∉ result.batch.keys) :
    result.docVersions.get? key = none := by
  have apart : ∀ mutated ∈ result.batch.mutations.zip result.mutationResults,
      mutated.1.key ≠ key := fun mutated member own =>
    foreign (List.mem_map.mpr ⟨mutated.1, (List.of_mem_zip member).1, own⟩)
  rw [docVersions]
  generalize result.batch.mutations.zip result.mutationResults = mutated at apart
  suffices kept : ∀ versions : Collection DocumentKey SnapshotVersion,
      (mutated.foldl (fun versions mutated => versions.set mutated.1.key mutated.2) versions).get?
        key = versions.get? key from kept .empty
  induction mutated with
  | nil => exact fun _ => rfl
  | cons head mutated ih =>
      intro versions
      rw [List.foldl_cons, ih fun other member => apart other (List.mem_cons_of_mem _ member),
        versions.get?_set_of_ne (Ne.symm (apart head List.mem_cons_self))]

/-- The cached document is missing or older than the acknowledgement. -/
def outdates (result : MutationBatchResult) (key : DocumentKey) (maybeDoc : Option MaybeDocument) :
    Bool :=
  (result.docVersions.get? key).any fun ackVersion =>
    maybeDoc.all fun doc => doc.version < ackVersion

/-- What an acknowledgement makes of a cached entry. -/
def cachedEntry (result : MutationBatchResult) (key : DocumentKey)
    (entry : Option (MaybeDocument × SnapshotVersion)) : Option (MaybeDocument × SnapshotVersion) :=
  if result.outdates key (entry.map Prod.fst) then
    (result.batch.applyToRemoteDocument (entry.map Prod.fst) key result.mutationResults).map
      fun doc => (doc, result.commitVersion)
  else entry

/-- Only documents that the batch writes are outdated by its result. -/
theorem mem_keys_of_outdates {maybeDoc : Option MaybeDocument}
    (outdated : result.outdates key maybeDoc) : key ∈ result.batch.keys := by
  by_contra foreign
  rw [outdates, docVersions_of_foreign foreign] at outdated
  cases outdated

/-- The cached entries of documents that the batch does not write stay. -/
theorem cachedEntry_of_foreign (foreign : key ∉ result.batch.keys)
    (entry : Option (MaybeDocument × SnapshotVersion)) : result.cachedEntry key entry = entry :=
  if_neg fun outdated => foreign (mem_keys_of_outdates outdated)

/-- An entry after an acknowledgement is the old one, or a newer document under the key. -/
theorem cachedEntry_cases {entry : Option (MaybeDocument × SnapshotVersion)}
    {after : MaybeDocument × SnapshotVersion} (cached : result.cachedEntry key entry = some after) :
    entry = some after ∨
      after.1.key = key ∧ after.2 = result.commitVersion ∧
        ∀ doc, entry.map Prod.fst = some doc → doc.version < after.1.version := by
  rw [cachedEntry] at cached
  split_ifs at cached with outdated
  · obtain ⟨doc, applied, keyed, version⟩ := applyToRemoteDocument_of_written
      (mem_keys_of_outdates outdated) (entry.map Prod.fst)
    rw [applied, Option.map_some, Option.some.injEq] at cached
    subst cached
    refine .inr ⟨keyed, rfl, fun old stored => ?_⟩
    rw [outdates, version, stored] at outdated
    exact of_decide_eq_true outdated
  · exact .inl cached

end MutationBatchResult

namespace LocalStore

variable {store : LocalStore}

/-! ## What the operations do -/

/-- The queues keep their invariants, no batch has base mutations, and cached documents have
read times. -/
structure Invariant (store : LocalStore) : Prop where
  queues : ∀ user, (store.mutationQueues user).Invariant
  unbased : ∀ user, ∀ batch ∈ (store.mutationQueues user).queue, batch.baseMutations = []
  readTimes : ∀ key entry, store.remoteDocumentCache.docs.get? key = some entry → 0 < entry.2

@[simp] theorem mutationQueue_withQueue (store : LocalStore) (queue : MemoryMutationQueue) :
    (store.withQueue queue).mutationQueue = queue :=
  Function.update_self ..

@[simp] theorem withQueue_mutationQueue (store : LocalStore) :
    store.withQueue store.mutationQueue = store := by
  rw [withQueue, mutationQueue, Function.update_eq_self]

theorem mutationQueues_withQueue_of_ne {user : User} (apart : user ≠ store.user)
    (queue : MemoryMutationQueue) :
    (store.withQueue queue).mutationQueues user = store.mutationQueues user :=
  Function.update_of_ne apart ..

namespace Invariant

theorem initial (user : User) : Invariant (initial user) :=
  ⟨fun _ => .initial, fun _ _ member => absurd member List.not_mem_nil,
    fun _ _ cached => by cases cached⟩

/-- The queue may be replaced by one that keeps its invariant, without base mutations. -/
theorem withQueue (invariant : Invariant store) {queue : MemoryMutationQueue}
    (kept : queue.Invariant) (unbased : ∀ batch ∈ queue.queue, batch.baseMutations = []) :
    Invariant (store.withQueue queue) := by
  have either : ∀ user, (store.withQueue queue).mutationQueues user = queue ∨
      (store.withQueue queue).mutationQueues user = store.mutationQueues user := by
    intro user
    by_cases same : user = store.user
    · rw [same]
      exact .inl (store.mutationQueue_withQueue queue)
    · exact .inr (mutationQueues_withQueue_of_ne same queue)
  refine ⟨fun user => ?_, fun user => ?_, invariant.readTimes⟩
  · rcases either user with same | same <;> rw [same]
    · exact kept
    · exact invariant.queues user
  · rcases either user with same | same <;> rw [same]
    · exact unbased
    · exact invariant.unbased user

theorem current (invariant : Invariant store) : store.mutationQueue.Invariant :=
  invariant.queues store.user

/-- The batches behind the first have no base mutations. -/
theorem unbased_of_front (invariant : Invariant store) {batch : MutationBatch}
    {rest : List MutationBatch} (front : store.mutationQueue.queue = batch :: rest) :
    ∀ other ∈ rest, other.baseMutations = [] := fun other member =>
  invariant.unbased store.user other (front ▸ List.mem_cons_of_mem batch member)

/-- The local view of documents fails no assertion. -/
theorem getLocalViewOfDocuments (invariant : Invariant store)
    (baseDocs : Collection DocumentKey (Option MaybeDocument)) :
    ∃ documents, store.localDocuments.getLocalViewOfDocuments baseDocs = some documents :=
  LocalDocumentsView.getLocalViewOfDocuments_eq invariant.current baseDocs

/-- Reading documents fails no assertion. -/
theorem getDocuments (invariant : Invariant store) (keys : Finset DocumentKey) :
    ∃ documents, store.localDocuments.getDocuments keys = some documents :=
  invariant.getLocalViewOfDocuments _

/-- A write puts a batch of its mutations at the end of the queue. -/
theorem writeLocally (invariant : Invariant store) {mutations : List Mutation}
    (nonempty : mutations ≠ []) :
    ∃ batch existing queue,
      batch = ⟨store.mutationQueue.nextBatchId, [], mutations, nonempty⟩ ∧
      store.localDocuments.getDocuments (mutations.map Mutation.key).toFinset = some existing ∧
      store.writeLocally mutations =
        some (⟨batch.batchId, batch.applyToLocalDocumentSet existing⟩, store.withQueue queue) ∧
      queue.queue = store.mutationQueue.queue ++ [batch] ∧
      Invariant (store.withQueue queue) := by
  obtain ⟨existing, read⟩ := invariant.getDocuments (mutations.map Mutation.key).toFinset
  obtain ⟨queue, added, appended, kept⟩ := invariant.current.addMutationBatch [] nonempty
  refine ⟨_, existing, queue, rfl, read, ?_, appended, invariant.withQueue kept ?_⟩
  · rw [LocalStore.writeLocally, read, Option.bind_some, added, Option.map_some]
  · rw [appended]
    intro batch member
    rcases List.mem_append.mp member with old | new
    · exact invariant.unbased store.user batch old
    · rw [List.mem_singleton.mp new]

/-- The loop over the keys of an acknowledged batch. -/
theorem foldlM_applyResultTo (result : MutationBatchResult) (cache : MemoryRemoteDocumentCache) :
    ∃ after, (DocumentKey.inOrder result.batch.keys.toFinset).foldlM (applyResultTo result)
        cache = some after ∧
      ∀ key, after.docs.get? key = result.cachedEntry key (cache.docs.get? key) := by
  have own : ∀ cache : MemoryRemoteDocumentCache,
      ∀ key ∈ DocumentKey.inOrder result.batch.keys.toFinset,
      ∃ next, applyResultTo result cache key = some next ∧
        next.docs.get? (id key) = result.cachedEntry key (cache.docs.get? (id key)) ∧
        ∀ other, other ≠ id key → next.docs.get? other = cache.docs.get? other := by
    intro cache key member
    have written := List.mem_toFinset.mp (DocumentKey.mem_inOrder.mp member)
    obtain ⟨doc, applied, keyed, version⟩ :=
      MutationBatchResult.applyToRemoteDocument_of_written written (cache.get key)
    have outdates : result.outdates key (cache.get key) =
        (cache.get key).all fun old => old.version < doc.version := by
      rw [MutationBatchResult.outdates, version, Option.any_some]
    have entry : (cache.docs.get? key).map Prod.fst = cache.get key := rfl
    rw [applyResultTo, version, Option.bind_some, MutationBatchResult.cachedEntry, id, entry,
      outdates, applied]
    by_cases older : (cache.get key).all fun old => old.version < doc.version
    · rw [if_pos older, if_pos older]
      refine ⟨_, rfl, ?_, fun other apart => cache.docs_add_of_ne (keyed ▸ apart) _⟩
      rw [← keyed, cache.docs_add_self, Option.map_some]
    · rw [if_neg older, if_neg older]
      exact ⟨cache, rfl, rfl, fun _ _ => rfl⟩
  have distinct : ((DocumentKey.inOrder result.batch.keys.toFinset).map id).Nodup :=
    (List.map_id _).symm ▸ DocumentKey.nodup_inOrder _
  obtain ⟨after, loop, changed, untouched⟩ := foldlM_of_own distinct own cache
  refine ⟨after, loop, fun key => ?_⟩
  by_cases written : key ∈ result.batch.keys
  · exact changed key (DocumentKey.mem_inOrder.mpr (List.mem_toFinset.mpr written))
  · rw [MutationBatchResult.cachedEntry_of_foreign written]
    refine untouched key fun member => written ?_
    rw [List.map_id] at member
    exact List.mem_toFinset.mp (DocumentKey.mem_inOrder.mp member)

/-- The acknowledgement of the first batch removes it, and its effect goes to the cache. -/
theorem acknowledgeBatch (invariant : Invariant store) {result : MutationBatchResult}
    {rest : List MutationBatch} (front : store.mutationQueue.queue = result.batch :: rest)
    (committed : 0 < result.commitVersion) :
    ∃ changes cache queue, store.acknowledgeBatch result =
        some (changes, { store with remoteDocumentCache := cache }.withQueue queue) ∧
      (∀ key, cache.docs.get? key =
        result.cachedEntry key (store.remoteDocumentCache.docs.get? key)) ∧
      queue.queue = rest ∧
      Invariant ({ store with remoteDocumentCache := cache }.withQueue queue) := by
  have checked : store.mutationQueue.acknowledgeBatch result.batch = some store.mutationQueue := by
    rw [MemoryMutationQueue.acknowledgeBatch, front]
    exact if_pos rfl
  obtain ⟨cache, loop, entries⟩ := foldlM_applyResultTo result store.remoteDocumentCache
  obtain ⟨queue, removed, left, _, kept⟩ := invariant.current.removeMutationBatch front
  have acknowledged : Invariant { store with remoteDocumentCache := cache } := by
    refine ⟨invariant.queues, invariant.unbased, fun key entry cached => ?_⟩
    rw [entries] at cached
    rcases MutationBatchResult.cachedEntry_cases cached with old | ⟨_, readTime, _⟩
    · exact invariant.readTimes key entry old
    · exact readTime ▸ committed
  have next := acknowledged.withQueue kept (left ▸ invariant.unbased_of_front front)
  obtain ⟨changes, read⟩ := next.getDocuments result.batch.keys.toFinset
  refine ⟨changes, cache, queue, ?_, entries, left, next⟩
  rw [LocalStore.acknowledgeBatch, checked, Option.bind_some, withQueue_mutationQueue,
    applyBatchResult, loop, Option.bind_some, removed, Option.map_some, Option.bind_some,
    mutationQueue_withQueue, kept.performConsistencyCheck, Option.bind_some, read, Option.map_some]

/-- The rejection of the first batch removes it. -/
theorem rejectBatch (invariant : Invariant store) {batch : MutationBatch}
    {rest : List MutationBatch} (front : store.mutationQueue.queue = batch :: rest) :
    ∃ changes queue, store.rejectBatch batch.batchId = some (changes, store.withQueue queue) ∧
      queue.queue = rest ∧ Invariant (store.withQueue queue) := by
  obtain ⟨queue, removed, left, _, kept⟩ := invariant.current.removeMutationBatch front
  have next := invariant.withQueue kept (left ▸ invariant.unbased_of_front front)
  obtain ⟨changes, read⟩ := next.getDocuments batch.keys.toFinset
  refine ⟨changes, queue, ?_, left, next⟩
  have found : store.mutationQueue.lookupMutationBatch batch.batchId = some (some batch) := by
    rw [invariant.current.lookupMutationBatch, front, List.find?_cons, decide_eq_true rfl]
  rw [LocalStore.rejectBatch, found, Option.join_some, Option.bind_some, removed, Option.bind_some,
    kept.performConsistencyCheck, Option.bind_some, read, Option.map_some]

/-- Another user gets the own queue. -/
theorem handleUserChange (invariant : Invariant store) (user : User) :
    ∃ changes, store.handleUserChange user =
        some (changes, { store with user }.withQueue (store.mutationQueues user).start) ∧
      Invariant ({ store with user }.withQueue (store.mutationQueues user).start) := by
  have changed : Invariant { store with user } :=
    ⟨invariant.queues, invariant.unbased, invariant.readTimes⟩
  have next := changed.withQueue (invariant.queues user).start
    ((MemoryMutationQueue.queue_start _).symm ▸ invariant.unbased user)
  obtain ⟨changes, read⟩ := next.getDocuments (changedKeys (store.mutationQueue.queue ++
    (store.mutationQueues user).start.queue))
  have swapped : ({ store with user } : LocalStore).mutationQueue = store.mutationQueues user := rfl
  refine ⟨changes, ?_, next⟩
  rw [LocalStore.handleUserChange]
  simp only [mutationQueue_withQueue, swapped, read, Option.map_some]

end Invariant

/-- What a remote event makes of a cached entry. -/
def updatedEntry (event : RemoteEvent) (key : DocumentKey)
    (entry : Option (MaybeDocument × SnapshotVersion)) : Option (MaybeDocument × SnapshotVersion) :=
  match event.documentUpdates.get? key with
  | none => entry
  | some doc =>
      if isManufactured doc then none
      else if isNewer doc (entry.map Prod.fst) then some (doc, event.snapshotVersion)
      else entry

/-- What the store relies on: snapshots do not go back, and an event without a version only has
manufactured updates. -/
structure Raises (store : LocalStore) (event : RemoteEvent) : Prop where
  ordered : event.snapshotVersion ≠ 0 → store.lastRemoteSnapshotVersion ≤ event.snapshotVersion
  manufactured : event.snapshotVersion = 0 →
    event.documentUpdates.Every fun _ doc => isManufactured doc

/-- The loop over the updates of a remote event. -/
theorem foldlM_applyDocumentUpdate {event : RemoteEvent} (raises : store.Raises event) :
    ∃ after changed, event.documentUpdates.entries.foldlM
        (applyDocumentUpdate event.snapshotVersion (store.remoteDocumentCache.getAll
          (event.documentUpdates.entries.map Prod.fst).toFinset))
        (store.remoteDocumentCache, .empty) = some (after, changed) ∧
      ∀ key, after.docs.get? key =
        updatedEntry event key (store.remoteDocumentCache.docs.get? key) := by
  have own : ∀ state : MemoryRemoteDocumentCache × Collection DocumentKey (Option MaybeDocument),
      ∀ update ∈ event.documentUpdates.entries, ∃ next,
        applyDocumentUpdate event.snapshotVersion (store.remoteDocumentCache.getAll
          (event.documentUpdates.entries.map Prod.fst).toFinset) state update = some next ∧
        next.1.docs.get? update.1 =
          (if isManufactured update.2 then none
          else if isNewer update.2 (store.remoteDocumentCache.get update.1) then
            some (update.2, event.snapshotVersion)
          else state.1.docs.get? update.1) ∧
        ∀ other, other ≠ update.1 → next.1.docs.get? other = state.1.docs.get? other := by
    intro state update member
    have found := (event.documentUpdates.get?_eq_some_iff).mpr member
    have keyed := event.keyed found
    have listed : update.1 ∈ (event.documentUpdates.entries.map Prod.fst).toFinset :=
      List.mem_toFinset.mpr (List.mem_map_of_mem member)
    rw [applyDocumentUpdate, MemoryRemoteDocumentCache.get?_getAll, if_pos listed, Option.join_some]
    by_cases manufactured : isManufactured update.2
    · rw [if_pos manufactured, if_pos manufactured]
      exact ⟨_, rfl, Collection.get?_erase_self _ _, fun other apart =>
        Collection.get?_erase_of_ne _ apart⟩
    · rw [if_neg manufactured, if_neg manufactured]
      by_cases newer : isNewer update.2 (store.remoteDocumentCache.get update.1)
      · have versioned : event.snapshotVersion ≠ 0 := fun zero =>
          manufactured (raises.manufactured zero found)
        rw [if_pos newer, if_pos newer, if_pos versioned]
        refine ⟨_, rfl, ?_, fun other apart => state.1.docs_add_of_ne (keyed ▸ apart) _⟩
        rw [← keyed]
        exact state.1.docs_add_self ..
      · rw [if_neg newer, if_neg newer]
        exact ⟨state, rfl, rfl, fun _ _ => rfl⟩
  obtain ⟨final, loop, changed, untouched⟩ :=
    @foldlM_of_own _ _ _ _ _ Prod.fst (fun state key => state.1.docs.get? key)
      (fun update old =>
        if isManufactured update.2 then none
        else if isNewer update.2 (store.remoteDocumentCache.get update.1) then
          some (update.2, event.snapshotVersion)
        else old)
      _ (Collection.nodup_keys event.documentUpdates.sorted) own
      (store.remoteDocumentCache, Collection.empty)
  refine ⟨final.1, final.2, loop, fun key => ?_⟩
  rw [updatedEntry]
  cases found : event.documentUpdates.get? key with
  | none =>
      refine untouched key fun member => ?_
      obtain ⟨update, listed, rfl⟩ := List.mem_map.mp member
      cases found.symm.trans ((event.documentUpdates.get?_eq_some_iff).mpr listed)
  | some doc => exact changed (key, doc) ((event.documentUpdates.get?_eq_some_iff).mp found)

/-- A remote event updates the cache and leaves the queues. -/
theorem Invariant.applyRemoteEvent (invariant : Invariant store) {event : RemoteEvent}
    (raises : store.Raises event) :
    ∃ changes cache, store.applyRemoteEvent event = some (changes,
        { store with
          remoteDocumentCache := cache
          lastRemoteSnapshotVersion := store.snapshotVersionAfter event }) ∧
      (∀ key, cache.docs.get? key =
        updatedEntry event key (store.remoteDocumentCache.docs.get? key)) ∧
      Invariant { store with
        remoteDocumentCache := cache
        lastRemoteSnapshotVersion := store.snapshotVersionAfter event } := by
  obtain ⟨cache, changed, loop, entries⟩ := foldlM_applyDocumentUpdate raises
  have ordered : ¬ (event.snapshotVersion ≠ 0 ∧
      event.snapshotVersion < store.lastRemoteSnapshotVersion) := fun backwards =>
    Nat.not_lt.mpr (raises.ordered backwards.1) backwards.2
  have next : Invariant { store with
      remoteDocumentCache := cache
      lastRemoteSnapshotVersion := store.snapshotVersionAfter event } := by
    refine ⟨invariant.queues, invariant.unbased, fun key entry cached => ?_⟩
    rw [entries, updatedEntry] at cached
    cases found : event.documentUpdates.get? key with
    | none =>
        rw [found] at cached
        exact invariant.readTimes key entry cached
    | some doc =>
        rw [found] at cached
        dsimp only at cached
        split_ifs at cached with manufactured newer
        · cases cached
          exact Nat.pos_of_ne_zero fun zero => manufactured (raises.manufactured zero found)
        · exact invariant.readTimes key entry cached
  obtain ⟨changes, read⟩ := next.getLocalViewOfDocuments changed
  refine ⟨changes, cache, ?_, entries, next⟩
  rw [LocalStore.applyRemoteEvent]
  simp only [loop, Option.bind_some, if_neg ordered, read, Option.map_some]

end LocalStore

end Bowfolio.Firestore
