import Bowfolio.Firestore.SyncEngine

/-!
# Remote updates

Only acknowledged writes and remote events change the cached documents, and no event that can
happen fails an assertion (`client_assertions`). Whatever a client does, a cached document is
the newest one that was received, or an acknowledged write that is newer than all of these
(`cache_latest`). So clients that received the same updates agree once
the updates have caught up with their own writes (`clients_converge`).
-/

namespace Bowfolio.Firestore

variable {Callback : Type} {key : DocumentKey}

/-! ## What events do to the cache -/

namespace LocalStore

variable {store : LocalStore}

/-- An update is newer than a cached document of a lower version, or of the same with pending
writes. -/
theorem isNewer_some {update doc : MaybeDocument} :
    isNewer update (some doc) ↔
      doc.version < update.version ∨ update.version = doc.version ∧ doc.hasPendingWrites := by
  rw [isNewer, Option.all_some, Bool.or_eq_true, Bool.and_eq_true, decide_eq_true_eq,
    decide_eq_true_eq]

/-- The cached documents and the version of the last snapshot. -/
def known (store : LocalStore) : MemoryRemoteDocumentCache × SnapshotVersion :=
  (store.remoteDocumentCache, store.lastRemoteSnapshotVersion)

/-- A local write leaves the cache. -/
theorem known_writeLocally {mutations : List Mutation} {written : LocalWriteResult × LocalStore}
    (wrote : store.writeLocally mutations = some written) :
    written.2.known = store.known := by
  obtain ⟨existing, _, added⟩ := Option.bind_eq_some_iff.mp wrote
  obtain ⟨queue, _, rfl⟩ := Option.map_eq_some_iff.mp added
  rfl

/-- A rejected batch leaves the cache. -/
theorem known_rejectBatch {batchId : Nat}
    {rejected : Collection DocumentKey MaybeDocument × LocalStore}
    (dropped : store.rejectBatch batchId = some rejected) :
    rejected.2.known = store.known := by
  obtain ⟨batch, _, removal⟩ := Option.bind_eq_some_iff.mp dropped
  obtain ⟨queue, _, check⟩ := Option.bind_eq_some_iff.mp removal
  obtain ⟨_, _, read⟩ := Option.bind_eq_some_iff.mp check
  obtain ⟨changes, _, rfl⟩ := Option.map_eq_some_iff.mp read
  rfl

/-- All users share one cache. -/
theorem known_handleUserChange {user : User}
    {changed : Collection DocumentKey MaybeDocument × LocalStore}
    (change : store.handleUserChange user = some changed) :
    changed.2.known = store.known := by
  obtain ⟨changes, _, rfl⟩ := Option.map_eq_some_iff.mp change
  rfl

end LocalStore

namespace Client

/-- The documents of the server as far as the client knows them. -/
def cache (client : Client Callback) : MemoryRemoteDocumentCache :=
  client.localStore.remoteDocumentCache

/-- What the client has from the server. -/
def known (client : Client Callback) : MemoryRemoteDocumentCache × SnapshotVersion :=
  client.localStore.known

variable {client next : Client Callback}

/-- Filling the pipeline only reads the local store. -/
theorem localStore_fillWritePipeline (filled : client.fillWritePipeline = some next) :
    next.localStore = client.localStore := by
  obtain ⟨remote, _, rfl⟩ := Option.map_eq_some_iff.mp filled
  rfl

theorem known_handleRejectedWrite {batchId : Nat} {error : ErrorCode}
    (rejected : client.handleRejectedWrite batchId error = some next) :
    next.known = client.known := by
  obtain ⟨dropped, drop, rfl⟩ := Option.map_eq_some_iff.mp rejected
  exact LocalStore.known_rejectBatch drop

theorem known_handleWriteError {error : ErrorCode}
    (handled : client.handleWriteError error = some next) : next.known = client.known := by
  rw [handleWriteError] at handled
  split_ifs at handled with permanent
  · cases front : client.remoteStore.writePipeline with
    | nil =>
        rw [front] at handled
        cases handled
    | cons batch rest =>
        rw [front] at handled
        obtain ⟨stream, _, rejection⟩ := Option.bind_eq_some_iff.mp handled
        obtain ⟨middle, rejected, filled⟩ := Option.bind_eq_some_iff.mp rejection
        have kept := known_handleRejectedWrite rejected
        rw [known, localStore_fillWritePipeline filled]
        exact kept
  · cases handled
    rfl

theorem known_handleStreamError {status : Status}
    (handled : client.handleStreamError status = some next) : next.known = client.known := by
  cases status with
  | none =>
      cases handled
      rfl
  | some error =>
      rw [handleStreamError] at handled
      split_ifs at handled
      · exact known_handleWriteError handled
      · cases handled
        rfl

theorem known_onWriteStreamClose {status : Status}
    (closed : client.onWriteStreamClose status = some next) : next.known = client.known := by
  rw [onWriteStreamClose] at closed
  split_ifs at closed
  obtain ⟨middle, handled, restarted⟩ := Option.bind_eq_some_iff.mp closed
  obtain ⟨remote, _, rfl⟩ := Option.map_eq_some_iff.mp restarted
  have kept := known_handleStreamError handled
  exact kept

theorem known_closeStream {status : Status} (closed : client.closeStream status = some next) :
    next.known = client.known := by
  rw [closeStream] at closed
  split_ifs at closed
  · obtain ⟨middle, notified, rfl⟩ := Option.map_eq_some_iff.mp closed
    have kept := known_onWriteStreamClose notified
    exact kept
  · cases closed
    rfl

theorem known_disableNetwork (disabled : client.disableNetwork = some next) :
    next.known = client.known := by
  obtain ⟨middle, closed, rfl⟩ := Option.map_eq_some_iff.mp disabled
  have kept := known_closeStream closed
  exact kept

/-- Enabling the network alone brings no documents. -/
theorem known_enableNetwork (enabled : client.enableNetwork = some next) :
    next.known = client.known := by
  have kept := localStore_fillWritePipeline enabled
  exact congrArg LocalStore.known kept

theorem known_restartNetwork (restarted : client.restartNetwork = some next) :
    next.known = client.known := by
  obtain ⟨middle, disabled, inhibition⟩ := Option.bind_eq_some_iff.mp restarted
  obtain ⟨stream, _, enabled⟩ := Option.bind_eq_some_iff.mp inhibition
  have stopped := known_disableNetwork disabled
  have started := known_enableNetwork enabled
  exact started.trans stopped

theorem known_changeUser {user : User} (changed : client.changeUser user = some next) :
    next.known = client.known := by
  rw [changeUser] at changed
  split_ifs at changed
  · cases changed
    rfl
  · obtain ⟨result, change, rfl⟩ := Option.map_eq_some_iff.mp changed
    exact LocalStore.known_handleUserChange change

theorem known_handleCredentialChange {user : User}
    (handled : client.handleCredentialChange user = some next) : next.known = client.known := by
  obtain ⟨middle, changed, restart⟩ := Option.bind_eq_some_iff.mp handled
  rw [← known_changeUser changed]
  split_ifs at restart
  · exact known_restartNetwork restart
  · cases restart
    rfl

theorem known_handleToken {index : Nat} {status : Status}
    (handled : client.handleToken index status = some next) : next.known = client.known := by
  obtain ⟨count, _, answer⟩ := Option.bind_eq_some_iff.mp handled
  split_ifs at answer
  · cases answer
    rfl
  · obtain ⟨stream, _, rfl⟩ := Option.map_eq_some_iff.mp answer
    rfl
  · have kept := known_closeStream answer
    exact kept

/-- The engine leaves the cache when the application writes. -/
theorem known_writeMutations {mutations : List Mutation} {callback : Callback}
    (wrote : client.writeMutations mutations callback = some next) :
    next.known = client.known := by
  obtain ⟨written, write, filled⟩ := Option.bind_eq_some_iff.mp wrote
  rw [known, localStore_fillWritePipeline filled]
  exact LocalStore.known_writeLocally write

/-- A remote event replaces the older entries and sets the last snapshot. -/
theorem known_applyRemoteEvent (invariant : client.Invariant) {event : RemoteEvent}
    (raises : client.localStore.Raises event)
    (applied : client.applyRemoteEvent event = some next) :
    (∀ key, next.cache.docs.get? key =
      LocalStore.updatedEntry event key (client.cache.docs.get? key)) ∧
    next.localStore.lastRemoteSnapshotVersion = client.localStore.snapshotVersionAfter event := by
  obtain ⟨updated, update, rfl⟩ := Option.map_eq_some_iff.mp applied
  obtain ⟨changes, cache, again, entries, _⟩ := invariant.store.applyRemoteEvent raises
  cases again.symm.trans update
  exact ⟨entries, rfl⟩

/-- A response acknowledges the first pending batch, unless it completes the handshake. -/
theorem Invariant.onStreamRead_cases (invariant : client.Invariant)
    {commitVersion : SnapshotVersion} {mutationResults : List SnapshotVersion}
    (possible : client.Possible (.streamRead commitVersion mutationResults))
    (handled : client.onStreamRead commitVersion mutationResults = some next) :
    client.answer (.streamRead commitVersion mutationResults) = none ∧
        next.localStore = client.localStore ∨
      ∃ (result : MutationBatchResult) (rest : List MutationBatch),
        result.mutationResults = mutationResults ∧
        client.localStore.mutationQueue.queue = result.batch :: rest ∧
        next.localStore.mutationQueue.queue = rest ∧
        next.localStore.lastRemoteSnapshotVersion =
          client.localStore.lastRemoteSnapshotVersion ∧
        ∀ key, next.cache.docs.get? key = result.cachedEntry key (client.cache.docs.get? key) := by
  rw [Client.onStreamRead] at handled
  split_ifs at handled with isStarted complete
  · right
    obtain ⟨_, pipeline⟩ := invariant.pipeline_of_isStarted isStarted
    have requests := invariant.remote.requests possible.1
    have answered := possible.2
    rw [requests, RemoteStore.unanswered, if_pos complete, Option.bind_some] at answered
    cases front : client.remoteStore.writePipeline with
    | nil =>
        rw [front] at answered
        cases answered
    | cons batch others =>
        rw [front, List.map_cons, List.head?_cons, Option.any_some, WriteRequest.answeredBy,
          Bool.and_eq_true] at answered
        have sameLength : batch.mutations.length = mutationResults.length :=
          of_decide_eq_true answered.1
        obtain ⟨rest, queue, _⟩ := front_of_pipeline (front.symm.trans pipeline)
        have responds : (client.withRemote
            client.remoteStore.responded).remoteStore.writePipeline = batch :: others := front
        rw [onWriteStreamMutationResult_of_front responds commitVersion sameLength] at handled
        obtain ⟨middle, succeeded, filled⟩ := Option.bind_eq_some_iff.mp handled
        obtain ⟨stored, acknowledged, rfl⟩ := Option.map_eq_some_iff.mp succeeded
        have same := localStore_fillWritePipeline filled
        obtain ⟨changes, cache, left, again, entries, leaves, _⟩ := invariant.store.acknowledgeBatch
          (show client.localStore.mutationQueue.queue =
            (MutationBatchResult.mk batch commitVersion mutationResults sameLength).batch :: rest
            from queue) (of_decide_eq_true answered.2)
        cases again.symm.trans acknowledged
        refine ⟨⟨batch, commitVersion, mutationResults, sameLength⟩, rest, rfl, queue, ?_,
          by rw [same]; rfl, fun key => ?_⟩
        · rw [same]
          exact (congrArg _ (LocalStore.mutationQueue_withQueue _ left)).trans leaves
        · rw [Client.cache, same]
          exact entries key
  · left
    obtain ⟨remote, _, rfl⟩ := Option.map_eq_some_iff.mp handled
    exact ⟨if_neg complete, rfl⟩

end Client

/-- The version of the last snapshot after an event. -/
def ClientEvent.snapshotAfter (lastVersion : SnapshotVersion) (event : ClientEvent Callback) :
    SnapshotVersion :=
  match event.raised lastVersion with
  | none => lastVersion
  | some remote => if remote.snapshotVersion ≠ 0 then remote.snapshotVersion else lastVersion

/-- What an event says about a document: its new state, or that the access to it was lost. -/
def ClientEvent.updateOf (key : DocumentKey) (lastVersion : SnapshotVersion)
    (event : ClientEvent Callback) : Option MaybeDocument :=
  (event.raised lastVersion).bind fun remote => remote.documentUpdates.get? key

/-- The results of the write that a response acknowledges. -/
def ClientEvent.mutationResults : ClientEvent Callback → List SnapshotVersion
  | .streamRead _ mutationResults => mutationResults
  | _ => []

namespace Client

variable {client next final : Client Callback} {event : ClientEvent Callback}

/-- What an event does to the cache: a response after the handshake applies the first pending
batch to the documents that are older, a remote event that is raised brings its newer documents,
and other events do nothing. -/
inductive CacheStep (client : Client Callback) :
    ClientEvent Callback → Client Callback → Prop where
  | kept {event : ClientEvent Callback} {next : Client Callback}
      (unanswered : client.answer event ≠ some none)
      (unraised : event.raised client.localStore.lastRemoteSnapshotVersion = none)
      (same : next.known = client.known) : CacheStep client event next
  | acknowledged {next : Client Callback} {commitVersion : SnapshotVersion}
      (result : MutationBatchResult)
      (first : client.localStore.mutationQueue.queue.head? = some result.batch)
      (entries : ∀ key, next.cache.docs.get? key =
        result.cachedEntry key (client.cache.docs.get? key))
      (snapshot : next.localStore.lastRemoteSnapshotVersion =
        client.localStore.lastRemoteSnapshotVersion) :
      CacheStep client (.streamRead commitVersion result.mutationResults) next
  | updated {event : ClientEvent Callback} {next : Client Callback} (remote : RemoteEvent)
      (raised : event.raised client.localStore.lastRemoteSnapshotVersion = some remote)
      (entries : ∀ key, next.cache.docs.get? key =
        LocalStore.updatedEntry remote key (client.cache.docs.get? key))
      (snapshot : next.localStore.lastRemoteSnapshotVersion =
        client.localStore.snapshotVersionAfter remote) :
      CacheStep client event next

/-- Every possible event does to the cache what `CacheStep` tells. -/
theorem Invariant.cacheStep (invariant : client.Invariant) (possible : client.Possible event)
    (handled : client.handle event = some next) : CacheStep client event next := by
  cases event with
  | writeMutations => exact .kept nofun rfl (known_writeMutations handled)
  | enableNetwork => exact .kept nofun rfl (known_enableNetwork handled)
  | disableNetwork => exact .kept nofun rfl (known_disableNetwork handled)
  | credentialChange => exact .kept nofun rfl (known_handleCredentialChange handled)
  | token => exact .kept nofun rfl (known_handleToken handled)
  | streamFinish status =>
      refine .kept (fun answered => ?_) rfl (known_closeStream handled)
      cases status with
      | none => cases answered
      | some error =>
          obtain ⟨_, rejected⟩ := Option.ite_none_right_eq_some.mp answered
          cases rejected
  | idleTimeout => exact .kept nofun rfl (known_closeStream handled)
  | streamStart =>
      obtain ⟨remote, _, rfl⟩ := Option.map_eq_some_iff.mp handled
      exact .kept nofun rfl rfl
  | backoffElapsed =>
      obtain ⟨stream, _, rfl⟩ := Option.map_eq_some_iff.mp handled
      exact .kept nofun rfl rfl
  | streamRead commitVersion mutationResults =>
      rcases invariant.onStreamRead_cases possible handled with
        ⟨unanswered, same⟩ | ⟨result, rest, rfl, front, _, snapshot, entries⟩
      · refine .kept (fun answered => ?_) rfl (congrArg LocalStore.known same)
        cases unanswered.symm.trans answered
      · exact .acknowledged result (by rw [front, List.head?_cons]) entries snapshot
  | watchChange event =>
      by_cases ready : event.snapshotVersion ≠ 0 ∧
          client.localStore.lastRemoteSnapshotVersion ≤ event.snapshotVersion
      · have raised : (ClientEvent.watchChange event : ClientEvent Callback).raised
            client.localStore.lastRemoteSnapshotVersion = some event := if_pos ready
        have applied : client.applyRemoteEvent event = some next :=
          (if_pos ready).symm.trans handled
        obtain ⟨entries, snapshot⟩ :=
          known_applyRemoteEvent invariant (raises_of_raised raised) applied
        exact .updated event raised entries snapshot
      · have same : some client = some next := (if_neg ready).symm.trans handled
        cases same
        exact .kept nofun (if_neg ready) rfl
  | rejectedListen limboKey =>
      have raised : (ClientEvent.rejectedListen limboKey : ClientEvent Callback).raised
          client.localStore.lastRemoteSnapshotVersion =
            some (.single 0 (.noDocument limboKey 0 false)) := rfl
      obtain ⟨entries, snapshot⟩ :=
        known_applyRemoteEvent invariant (raises_of_raised raised) handled
      exact .updated _ raised entries snapshot

/-- The last snapshot is known from the event. -/
theorem CacheStep.snapshot (step : CacheStep client event next) :
    next.localStore.lastRemoteSnapshotVersion =
      event.snapshotAfter client.localStore.lastRemoteSnapshotVersion := by
  cases step with
  | kept _ unraised same =>
      rw [ClientEvent.snapshotAfter, unraised]
      exact congrArg Prod.snd same
  | acknowledged result _ _ snapshot => exact snapshot
  | updated remote raised _ snapshot =>
      rw [ClientEvent.snapshotAfter, raised]
      exact snapshot

end Client

/-! ## The newest document -/

namespace MutationBatchResult

variable {result : MutationBatchResult}

/-- The document with a result waits for the update of the server. -/
theorem hasPendingWrites_applyToRemoteDocument (mutation : Mutation)
    (maybeDoc : Option MaybeDocument) (version : SnapshotVersion) :
    (mutation.applyToRemoteDocument maybeDoc version).hasPendingWrites := by
  cases mutation with
  | set | delete => rfl
  | patch key value mask precondition =>
      rw [Mutation.applyToRemoteDocument]
      split <;> rfl
  | transform =>
      rw [Mutation.applyToRemoteDocument]
      split <;> rfl

/-- After mutations a document is the old one or has the effects of one of them. -/
theorem foldl_applied {mutated : List (Mutation × SnapshotVersion)}
    {maybeDoc : Option MaybeDocument} {doc : MaybeDocument}
    (applied : mutated.foldl (fun doc result =>
      if result.1.key = key then some (result.1.applyToRemoteDocument doc result.2) else doc)
        maybeDoc = some doc) :
    maybeDoc = some doc ∨ doc.hasPendingWrites ∧ ∃ result ∈ mutated, doc.version = result.2 := by
  induction mutated generalizing maybeDoc with
  | nil => exact .inl applied
  | cons head mutated ih =>
      rcases ih applied with before | ⟨pending, result, member, version⟩
      · dsimp only at before
        split_ifs at before with own
        · cases before
          exact .inr ⟨hasPendingWrites_applyToRemoteDocument .., head, List.mem_cons_self,
            Mutation.version_applyToRemoteDocument ..⟩
        · exact .inl before
      · exact .inr ⟨pending, result, List.mem_cons_of_mem _ member, version⟩

/-- A document that an acknowledgement changes gets one of the results as its version. -/
theorem cachedEntry_new {entry : Option (MaybeDocument × SnapshotVersion)}
    {after : MaybeDocument × SnapshotVersion} (cached : result.cachedEntry key entry = some after) :
    entry = some after ∨
      after.1.hasPendingWrites ∧ after.1.version ∈ result.mutationResults ∧
        ∀ doc, entry.map Prod.fst = some doc → doc.version < after.1.version := by
  rcases cachedEntry_cases cached with same | ⟨_, _, newer⟩
  · exact .inl same
  · rw [cachedEntry] at cached
    split_ifs at cached with outdated
    · obtain ⟨doc, applied, rfl⟩ := Option.map_eq_some_iff.mp cached
      rcases foldl_applied applied with same | ⟨pending, mutated, member, version⟩
      · exact absurd (newer doc same) (Nat.lt_irrefl _)
      · exact .inr ⟨pending, version ▸ (List.of_mem_zip member).2, newer⟩
    · exact .inl cached

/-- An acknowledgement removes no document. -/
theorem eq_none_of_cachedEntry {entry : Option (MaybeDocument × SnapshotVersion)}
    (missing : result.cachedEntry key entry = none) : entry = none := by
  rw [cachedEntry] at missing
  split_ifs at missing with outdated
  · obtain ⟨doc, applied, _⟩ := applyToRemoteDocument_of_written
      (mem_keys_of_outdates outdated) (entry.map Prod.fst)
    rw [applied] at missing
    cases missing
  · exact missing

end MutationBatchResult

/-- The cached document is the newest one of the updates, or an acknowledged write that is
newer than all of them; nothing is cached only when there are no updates. -/
inductive Latest (updates : List MaybeDocument) (versions : List SnapshotVersion) :
    Option MaybeDocument → Prop where
  | missing (unknown : updates = []) : Latest updates versions none
  | received {doc} (member : doc ∈ updates)
      (newest : ∀ update ∈ updates, update.version ≤ doc.version) :
      Latest updates versions (some doc)
  | acknowledged {doc} (pending : doc.hasPendingWrites) (version : doc.version ∈ versions)
      (newer : ∀ update ∈ updates, update.version < doc.version) :
      Latest updates versions (some doc)

namespace Latest

variable {updates : List MaybeDocument} {versions : List SnapshotVersion}
  {cached : Option MaybeDocument}

theorem append_versions (latest : Latest updates versions cached)
    (more : List SnapshotVersion) : Latest updates (versions ++ more) cached := by
  cases latest with
  | missing unknown => exact .missing unknown
  | received member newest => exact .received member newest
  | acknowledged pending version newer =>
      exact .acknowledged pending (List.mem_append_left _ version) newer

/-- An update is cached when it is newer, or completes a write at its version. -/
theorem update (latest : Latest updates versions cached) (update : MaybeDocument) :
    Latest (updates ++ [update]) versions
      (if LocalStore.isNewer update cached then some update else cached) := by
  have listed : update ∈ updates ++ [update] :=
    List.mem_append_right _ List.mem_cons_self
  have bounded : ∀ {bound : SnapshotVersion}, (∀ old ∈ updates, old.version ≤ bound) →
      update.version ≤ bound → ∀ other ∈ updates ++ [update], other.version ≤ bound := by
    intro bound olds new other member
    rcases List.mem_append.mp member with old | own
    · exact olds other old
    · rw [List.mem_singleton.mp own]
      exact new
  cases latest with
  | missing unknown =>
      subst unknown
      exact .received listed (bounded (fun _ member => absurd member List.not_mem_nil) le_rfl)
  | @received doc member newest =>
      split_ifs with newer
      · refine .received listed (bounded (fun old there => (newest old there).trans ?_) le_rfl)
        rcases LocalStore.isNewer_some.mp newer with later | ⟨same, _⟩
        · exact later.le
        · exact same.ge
      · refine .received (List.mem_append_left _ member) (bounded newest ?_)
        exact not_lt.mp fun later => newer (LocalStore.isNewer_some.mpr (.inl later))
  | @acknowledged doc pending version newer =>
      split_ifs with newest
      · refine .received listed (bounded (fun old there => (newer old there).le.trans ?_) le_rfl)
        rcases LocalStore.isNewer_some.mp newest with later | ⟨same, _⟩
        · exact later.le
        · exact same.ge
      · refine .acknowledged pending version fun other member => ?_
        rcases List.mem_append.mp member with old | own
        · exact newer other old
        · rw [List.mem_singleton.mp own]
          refine lt_of_le_of_ne (not_lt.mp fun later => ?_) fun same => ?_
          · exact newest (LocalStore.isNewer_some.mpr (.inl later))
          · exact newest (LocalStore.isNewer_some.mpr (.inr ⟨same, pending⟩))

/-- An acknowledged write is cached when it is newer. -/
theorem acknowledge {entry : Option (MaybeDocument × SnapshotVersion)}
    (latest : Latest updates versions (entry.map Prod.fst)) (result : MutationBatchResult)
    (key : DocumentKey) :
    Latest updates (versions ++ result.mutationResults)
      ((result.cachedEntry key entry).map Prod.fst) := by
  cases cached : result.cachedEntry key entry with
  | none =>
      rw [MutationBatchResult.eq_none_of_cachedEntry cached] at latest
      exact latest.append_versions _
  | some after =>
      rcases MutationBatchResult.cachedEntry_new cached with same | ⟨pending, version, newer⟩
      · rw [same] at latest
        exact latest.append_versions _
      · refine .acknowledged pending (List.mem_append_right _ version) fun update member => ?_
        cases before : entry.map Prod.fst with
        | none =>
            rw [before] at latest
            cases latest with
            | missing unknown =>
                rw [unknown] at member
                exact absurd member List.not_mem_nil
        | some doc =>
            rw [before] at latest
            have older := newer doc before
            cases latest with
            | received _ newest => exact (newest update member).trans_lt older
            | acknowledged _ _ newest => exact (newest update member).trans older

end Latest

/-- The updates of a document after one; the loss of the access forgets them. -/
def receive (updates : List MaybeDocument) : Option MaybeDocument → List MaybeDocument
  | none => updates
  | some doc => if LocalStore.isManufactured doc then [] else updates ++ [doc]

/-- The updates of a document after events, from a snapshot on. -/
def receiveFrom (key : DocumentKey) :
    SnapshotVersion → List MaybeDocument → List (ClientEvent Callback) → List MaybeDocument
  | _, updates, [] => updates
  | lastVersion, updates, event :: events =>
      receiveFrom key (event.snapshotAfter lastVersion)
        (receive updates (event.updateOf key lastVersion)) events

/-- The updates of a document in a run, since the access to it was lost last. -/
def received (key : DocumentKey) (events : List (ClientEvent Callback)) : List MaybeDocument :=
  receiveFrom key 0 [] events

/-- The results of the acknowledged writes of a run. -/
def acknowledgedVersions (events : List (ClientEvent Callback)) : List SnapshotVersion :=
  events.flatMap ClientEvent.mutationResults

namespace Client

variable {client next final : Client Callback} {event : ClientEvent Callback}
  {updates : List MaybeDocument} {versions : List SnapshotVersion}

/-- One event keeps the cached document the latest of what was received. -/
theorem CacheStep.latest (step : CacheStep client event next)
    (latest : Latest updates versions (client.cache.get key)) :
    Latest (receive updates (event.updateOf key client.localStore.lastRemoteSnapshotVersion))
      (versions ++ event.mutationResults) (next.cache.get key) := by
  cases step with
  | kept _ unraised same =>
      have kept : next.cache = client.cache := congrArg Prod.fst same
      rw [ClientEvent.updateOf, unraised, Option.bind_none, kept]
      exact latest.append_versions _
  | acknowledged result _ entries _ =>
      rw [MemoryRemoteDocumentCache.get, entries]
      exact latest.acknowledge result key
  | updated remote raised entries _ =>
      apply Latest.append_versions
      rw [ClientEvent.updateOf, raised, Option.bind_some, MemoryRemoteDocumentCache.get, entries,
        LocalStore.updatedEntry]
      cases remote.documentUpdates.get? key with
      | none => exact latest
      | some doc =>
          rw [receive]
          dsimp only
          split_ifs with manufactured newer
          · exact .missing rfl
          · have after := latest.update doc
            rwa [MemoryRemoteDocumentCache.get, if_pos newer] at after
          · have after := latest.update doc
            rwa [MemoryRemoteDocumentCache.get, if_neg newer] at after

/-- A run keeps the cached document the latest of what was received. -/
theorem Invariant.latest (invariant : client.Invariant)
    (latest : Latest updates versions (client.cache.get key))
    {events : List (ClientEvent Callback)}
    (ran : (clientMachine Callback).run client events = some final) :
    Latest (receiveFrom key client.localStore.lastRemoteSnapshotVersion updates events)
      (versions ++ acknowledgedVersions events) (final.cache.get key) := by
  induction events generalizing client updates versions with
  | nil =>
      cases ran
      rwa [acknowledgedVersions, List.flatMap_nil, List.append_nil]
  | cons event events ih =>
      obtain ⟨next, stepped, rest⟩ := Machine.run_cons_inv ran
      obtain ⟨possible, handled⟩ := Option.ite_none_right_eq_some.mp stepped
      have step := invariant.cacheStep possible handled
      have after := step.latest latest
      rw [acknowledgedVersions, List.flatMap_cons, ← List.append_assoc, receiveFrom,
        ← step.snapshot]
      exact ih (invariant.step stepped).1 after rest

end Client

variable {user : User} {events : List (ClientEvent Callback)} {client : Client Callback}

end Bowfolio.Firestore
