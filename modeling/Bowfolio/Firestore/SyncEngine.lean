import Bowfolio.Firestore.RemoteStore

/-!
# Writes from the call to the callback

The sync engine takes a write to the local store, the remote store sends it, and the engine
calls the callback of the write when the server accepts or rejects it. Users, the network,
the stream and the server interleave in any order (`clientMachine`). One step is described in
`Client.Invariant.handle`. In every run the writes of each user are answered once, in the order
in which they were made (`writes_answered_in_order`).
-/

namespace Bowfolio.Firestore

/-- `SyncEngine` with the two stores, and the calls of callbacks so far. -/
structure Client (Callback : Type) where
  localStore : LocalStore
  remoteStore : RemoteStore
  currentUser : User
  mutationCallbacks : User → Collection Nat Callback
  calls : List (User × Callback × Status)

/-- What reaches the worker queue. A watch change comes with the documents that the watch stream
has collected, and a listen that the server rejects with the document that it asked about. -/
inductive ClientEvent (Callback : Type) where
  | writeMutations (mutations : List Mutation) (callback : Callback)
  | enableNetwork
  | disableNetwork
  | credentialChange (user : User)
  | token (index : Nat) (status : Status)
  | streamStart
  | streamRead (commitVersion : SnapshotVersion) (mutationResults : List SnapshotVersion)
  | streamFinish (status : Status)
  | idleTimeout
  | backoffElapsed
  | watchChange (event : RemoteEvent)
  | rejectedListen (limboKey : DocumentKey)

/-- The write that an event makes. -/
def ClientEvent.issued {Callback : Type} :
    ClientEvent Callback → Option (List Mutation × Callback)
  | .writeMutations mutations callback => some (mutations, callback)
  | _ => none

/-- The current user after an event. -/
def ClientEvent.userAfter {Callback : Type} (current : User) : ClientEvent Callback → User
  | .credentialChange user => user
  | _ => current

/-- Whether the network is enabled after an event. -/
def ClientEvent.networkAfter {Callback : Type} (isNetworkEnabled : Bool) :
    ClientEvent Callback → Bool
  | .enableNetwork => true
  | .disableNetwork => false
  | _ => isNetworkEnabled

/-- The remote event that an event raises when the last snapshot has a version. -/
def ClientEvent.raised {Callback : Type} (lastVersion : SnapshotVersion) :
    ClientEvent Callback → Option RemoteEvent
  | .watchChange event =>
      if event.snapshotVersion ≠ 0 ∧ lastVersion ≤ event.snapshotVersion then some event else none
  | .rejectedListen limboKey => some (.single 0 (.noDocument limboKey 0 false))
  | _ => none

namespace Client

variable {Callback : Type}

/-- The engine before the network is enabled first. -/
def initial (user : User) : Client Callback :=
  ⟨.initial user, .initial, user, fun _ => .empty, []⟩

variable (client : Client Callback)

/-- The engine with another remote store. -/
def withRemote (remoteStore : RemoteStore) : Client Callback := { client with remoteStore }

/-- The engine with another write stream. -/
def withStream (writeStream : WriteStream) : Client Callback :=
  client.withRemote { client.remoteStore with writeStream }

/-- `RemoteStore::FillWritePipeline`. -/
def fillWritePipeline : Option (Client Callback) :=
  (client.remoteStore.fillWritePipeline client.localStore).map client.withRemote

/-- The callback of a new write is kept under its batch; `insert` replaces none. -/
def registerCallback (batchId : Nat) (callback : Callback) : User → Collection Nat Callback :=
  Function.update client.mutationCallbacks client.currentUser
    (if ((client.mutationCallbacks client.currentUser).get? batchId).isSome then
      client.mutationCallbacks client.currentUser
    else (client.mutationCallbacks client.currentUser).set batchId callback)

/-- `SyncEngine::WriteMutations`. -/
def writeMutations (mutations : List Mutation) (callback : Callback) : Option (Client Callback) :=
  (client.localStore.writeLocally mutations).bind fun written =>
    fillWritePipeline { client with
      localStore := written.2
      mutationCallbacks := client.registerCallback written.1.batchId callback }

/-- `SyncEngine::NotifyUser`. -/
def notifyUser (batchId : Nat) (status : Status) : Client Callback :=
  match (client.mutationCallbacks client.currentUser).get? batchId with
  | none => client
  | some callback =>
      { client with
        mutationCallbacks := Function.update client.mutationCallbacks client.currentUser
          ((client.mutationCallbacks client.currentUser).erase batchId)
        calls := client.calls ++ [(client.currentUser, callback, status)] }

/-- `SyncEngine::HandleSuccessfulWrite`. -/
def handleSuccessfulWrite (result : MutationBatchResult) : Option (Client Callback) :=
  (client.localStore.acknowledgeBatch result).map fun acknowledged =>
    { client.notifyUser result.batch.batchId none with localStore := acknowledged.2 }

/-- `SyncEngine::HandleRejectedWrite`. -/
def handleRejectedWrite (batchId : Nat) (error : ErrorCode) : Option (Client Callback) :=
  (client.localStore.rejectBatch batchId).map fun rejected =>
    { client.notifyUser batchId (some error) with localStore := rejected.2 }

/-- `RemoteStore::OnWriteStreamMutationResult`; the constructor of the batch result asserts
that there is a result for each mutation. -/
def onWriteStreamMutationResult (commitVersion : SnapshotVersion)
    (mutationResults : List SnapshotVersion) : Option (Client Callback) :=
  match client.remoteStore.writePipeline with
  | [] => none
  | batch :: _ =>
      if sameLength : batch.mutations.length = mutationResults.length then
        ((client.withRemote client.remoteStore.shifted).handleSuccessfulWrite
          ⟨batch, commitVersion, mutationResults, sameLength⟩).bind fillWritePipeline
      else none

/-- `RemoteStore::HandleWriteError`. -/
def handleWriteError (error : ErrorCode) : Option (Client Callback) :=
  if error.isPermanentWriteError then
    match client.remoteStore.writePipeline with
    | [] => none
    | batch :: _ =>
        client.remoteStore.writeStream.inhibitBackoff.bind fun writeStream =>
          (((client.withRemote client.remoteStore.shifted).withStream
            writeStream).handleRejectedWrite batch.batchId error).bind fillWritePipeline
  else some client

/-- The error callbacks in `RemoteStore::OnWriteStreamClose`; an error of the handshake only
resets the stream token. -/
def handleStreamError (status : Status) : Option (Client Callback) :=
  match status with
  | none => some client
  | some error =>
      if client.remoteStore.writePipeline ≠ [] ∧ client.remoteStore.writeStream.handshakeComplete
      then client.handleWriteError error
      else some client

/-- `RemoteStore::OnWriteStreamClose`, which asserts that a stream that is still needed only
closes with an error. -/
def onWriteStreamClose (status : Status) : Option (Client Callback) :=
  if status = none ∧ client.remoteStore.shouldStartWriteStream then none
  else
    (client.handleStreamError status).bind fun next =>
      next.remoteStore.startWriteStreamIfNeeded.map next.withRemote

/-- `Stream::Close`. -/
def closeStream (status : Status) : Option (Client Callback) :=
  if client.remoteStore.writeStream.isStarted then
    ((client.withRemote (client.remoteStore.closed status)).onWriteStreamClose status).map
      fun next => next.withRemote next.remoteStore.handshakeReset
  else if status = none then some client
  else none

/-- `RemoteStore::DisableNetwork`, whose last step is `DisableNetworkInternal`. -/
def disableNetwork : Option (Client Callback) :=
  ((client.withRemote { client.remoteStore with isNetworkEnabled := false }).closeStream
    none).map fun next => next.withRemote { next.remoteStore with writePipeline := [] }

/-- `RemoteStore::EnableNetwork`. -/
def enableNetwork : Option (Client Callback) :=
  (client.withRemote { client.remoteStore with isNetworkEnabled := true }).fillWritePipeline

/-- `RemoteStore::RestartNetwork`. -/
def restartNetwork : Option (Client Callback) :=
  client.disableNetwork.bind fun next =>
    next.remoteStore.writeStream.inhibitBackoff.bind fun writeStream =>
      (next.withStream writeStream).enableNetwork

/-- The change of the user in the engine and the local store. -/
def changeUser (user : User) : Option (Client Callback) :=
  if user = client.currentUser then some client
  else
    (client.localStore.handleUserChange user).map fun changed =>
      { client with localStore := changed.2, currentUser := user }

/-- `SyncEngine::HandleCredentialChange`. -/
def handleCredentialChange (user : User) : Option (Client Callback) :=
  (client.changeUser user).bind fun next =>
    if next.remoteStore.isNetworkEnabled then next.restartNetwork else some next

/-- The stream without one of the token requests. -/
def takeToken (index : Nat) : Client Callback :=
  client.withStream { client.remoteStore.writeStream with
    tokenRequests := client.remoteStore.writeStream.tokenRequests.eraseIdx index }

/-- The answer to a token request in `Stream::RequestCredentials`; one from before a close is
ignored. -/
def handleToken (index : Nat) (status : Status) : Option (Client Callback) :=
  client.remoteStore.writeStream.tokenRequests[index]?.bind fun initialCloseCount =>
    if client.remoteStore.writeStream.closeCount ≠ initialCloseCount then
      some (client.takeToken index)
    else if status = none then
      (client.takeToken index).remoteStore.writeStream.resumeStartWithCredentials.map
        (client.takeToken index).withStream
    else if client.remoteStore.writeStream.state = .starting then
      (client.takeToken index).closeStream status
    else none

/-- `WriteStream::NotifyStreamResponse`. -/
def onStreamRead (commitVersion : SnapshotVersion) (mutationResults : List SnapshotVersion) :
    Option (Client Callback) :=
  if client.remoteStore.writeStream.isStarted then
    if client.remoteStore.writeStream.handshakeComplete then
      (client.withRemote client.remoteStore.responded).onWriteStreamMutationResult
        commitVersion mutationResults
    else
      client.remoteStore.responded.handshaken.onWriteStreamHandshakeComplete.map client.withRemote
  else none

/-- `SyncEngine::ApplyRemoteEvent`, without the targets. -/
def applyRemoteEvent (event : RemoteEvent) : Option (Client Callback) :=
  (client.localStore.applyRemoteEvent event).map fun updated =>
    { client with localStore := updated.2 }

/-- The end of `RemoteStore::OnWatchStreamChange`: a snapshot is raised unless it is older than
the last one. -/
def onWatchStreamChange (event : RemoteEvent) : Option (Client Callback) :=
  if event.snapshotVersion ≠ 0 ∧
      client.localStore.lastRemoteSnapshotVersion ≤ event.snapshotVersion then
    client.applyRemoteEvent event
  else some client

/-- `SyncEngine::HandleRejectedListen` of a document in limbo, which counts as deleted. -/
def handleRejectedListen (limboKey : DocumentKey) : Option (Client Callback) :=
  client.applyRemoteEvent (.single 0 (.noDocument limboKey 0 false))

/-- Let one event take effect; without a result an assertion fails. -/
def handle : ClientEvent Callback → Option (Client Callback)
  | .writeMutations mutations callback => client.writeMutations mutations callback
  | .enableNetwork => client.enableNetwork
  | .disableNetwork => client.disableNetwork
  | .credentialChange user => client.handleCredentialChange user
  | .token index status => client.handleToken index status
  | .streamStart => client.remoteStore.onWriteStreamOpen.map client.withRemote
  | .streamRead commitVersion mutationResults =>
      client.onStreamRead commitVersion mutationResults
  | .streamFinish status => client.closeStream status
  | .idleTimeout => client.closeStream none
  | .backoffElapsed => client.remoteStore.writeStream.finishBackoff.map client.withStream
  | .watchChange event => client.onWatchStreamChange event
  | .rejectedListen limboKey => client.handleRejectedListen limboKey

/-- What callers, timers and the server can bring about. An empty write does not reach the
engine. The server answers the requests in order, a write with a result for each mutation,
and ends a stream that has writes to send with an error only. -/
def Possible : ClientEvent Callback → Prop
  | .writeMutations mutations _ => mutations ≠ []
  | .enableNetwork | .disableNetwork | .credentialChange _ => True
  | .token index _ => index < client.remoteStore.writeStream.tokenRequests.length
  | .streamStart => client.remoteStore.writeStream.state = .starting ∧
      client.remoteStore.writeStream.grpcStream = some []
  | .streamRead commitVersion mutationResults => client.remoteStore.writeStream.isOpen ∧
      (client.remoteStore.writeStream.grpcStream.bind List.head?).any
        (WriteRequest.answeredBy commitVersion mutationResults)
  | .streamFinish status => client.remoteStore.writeStream.grpcStream.isSome ∧
      (status = none → client.remoteStore.writePipeline = [])
  | .idleTimeout => client.remoteStore.writeStream.idlenessTimer
  | .backoffElapsed => client.remoteStore.writeStream.backoffTimer
  | .watchChange _ | .rejectedListen _ => True

instance : (event : ClientEvent Callback) → Decidable (client.Possible event)
  | .writeMutations .. => inferInstanceAs (Decidable (_ ≠ []))
  | .enableNetwork | .disableNetwork | .credentialChange _ => inferInstanceAs (Decidable True)
  | .token .. => inferInstanceAs (Decidable (_ < _))
  | .streamStart => inferInstanceAs (Decidable (_ ∧ _))
  | .streamRead .. => inferInstanceAs (Decidable (_ ∧ _))
  | .streamFinish _ => inferInstanceAs (Decidable (_ ∧ (_ → _)))
  | .idleTimeout | .backoffElapsed => inferInstanceAs (Decidable (_ = true))
  | .watchChange _ | .rejectedListen _ => inferInstanceAs (Decidable True)

/-! ## Pending and answered writes -/

/-- The pending writes of a user with their callbacks, in order. -/
def pendingWrites (user : User) : List (List Mutation × Callback) :=
  (client.localStore.mutationQueues user).queue.filterMap fun batch =>
    ((client.mutationCallbacks user).get? batch.batchId).map fun callback =>
      (batch.mutations, callback)

/-- The callbacks of a user that were called, in order. -/
def answered (user : User) : List Callback :=
  (client.calls.filter fun call => call.1 = user).map fun call => call.2.1

/-- The status with which an event calls the first pending callback, if it does: a response
after the handshake, and a permanent error of a stream that carries writes. -/
def answer : ClientEvent Callback → Option Status
  | .streamRead .. =>
      if client.remoteStore.writeStream.handshakeComplete then some none else none
  | .streamFinish (some error) =>
      if client.remoteStore.writePipeline ≠ [] ∧
          client.remoteStore.writeStream.handshakeComplete ∧ error.isPermanentWriteError then
        some (some error)
      else none
  | _ => none

/-- The local store keeps its invariant for the current user of the engine, and exactly the
pending batches have callbacks. -/
structure Sound : Prop where
  store : client.localStore.Invariant
  user : client.localStore.user = client.currentUser
  callbacks : ∀ user batchId, ((client.mutationCallbacks user).get? batchId).isSome ↔
    ∃ batch ∈ (client.localStore.mutationQueues user).queue, batch.batchId = batchId

/-- The invariant between events. -/
structure Invariant : Prop extends client.Sound where
  remote : client.remoteStore.Invariant client.localStore.mutationQueue.queue

/-- A step that answers nothing and adds no write. -/
structure Silent (client next : Client Callback) : Prop where
  pending : ∀ user, next.pendingWrites user = client.pendingWrites user
  calls : next.calls = client.calls

/-- The first pending write of the current user is answered. -/
structure Answers (status : Status) (client next : Client Callback) : Prop where
  current : ∃ write, client.pendingWrites client.currentUser =
      write :: next.pendingWrites client.currentUser ∧
    next.calls = client.calls ++ [(client.currentUser, write.2, status)]
  others : ∀ user, user ≠ client.currentUser →
    next.pendingWrites user = client.pendingWrites user

/-- What happens to the writes with an answer, or without one. -/
def Reacts (answer : Option Status) (client next : Client Callback) : Prop :=
  match answer with
  | none => Silent client next
  | some status => Answers status client next

variable {client}

theorem initial_invariant (user : User) : (initial user : Client Callback).Invariant where
  store := .initial user
  user := rfl
  callbacks := by
    intro user batchId
    constructor
    · intro isSome
      cases isSome
    · intro pending
      obtain ⟨batch, member, _⟩ := pending
      exact absurd member List.not_mem_nil
  remote := RemoteStore.initial_invariant _

theorem Silent.refl (client : Client Callback) : Silent client client := ⟨fun _ => rfl, rfl⟩

theorem Reacts.withRemote {answer : Option Status} {next : Client Callback}
    (reacts : Reacts answer client next) (remoteStore : RemoteStore) :
    Reacts answer client (next.withRemote remoteStore) := by
  cases answer with
  | none => exact ⟨reacts.pending, reacts.calls⟩
  | some status => exact ⟨reacts.current, reacts.others⟩

theorem mutationQueue_eq (sound : client.Sound) :
    client.localStore.mutationQueue = client.localStore.mutationQueues client.currentUser := by
  rw [LocalStore.mutationQueue, sound.user]

namespace Sound

theorem withRemote (sound : client.Sound) (remoteStore : RemoteStore) :
    (client.withRemote remoteStore).Sound :=
  ⟨sound.store, sound.user, sound.callbacks⟩

/-- Callbacks of distinct batches are apart. -/
theorem filterMap_erase {batches : List MutationBatch} {callbacks : Collection Nat Callback}
    {batchId : Nat} (apart : ∀ batch ∈ batches, batch.batchId ≠ batchId) :
    (batches.filterMap fun batch => ((callbacks.erase batchId).get? batch.batchId).map
        fun callback => (batch.mutations, callback)) =
      batches.filterMap fun batch => (callbacks.get? batch.batchId).map
        fun callback => (batch.mutations, callback) := by
  refine List.filterMap_congr fun batch member => ?_
  rw [callbacks.get?_erase_of_ne (apart batch member)]

/-- When the local store drops the first batch, its callback is called. -/
theorem answer (sound : client.Sound) {batch : MutationBatch} {rest : List MutationBatch}
    (front : client.localStore.mutationQueue.queue = batch :: rest) {store : LocalStore}
    (kept : store.Invariant) (sameUser : store.user = client.localStore.user)
    (left : store.mutationQueue.queue = rest)
    (others : ∀ user, user ≠ client.localStore.user →
      store.mutationQueues user = client.localStore.mutationQueues user) (status : Status) :
    Sound { client.notifyUser batch.batchId status with localStore := store } ∧
      Answers status client
        { client.notifyUser batch.batchId status with localStore := store } ∧
      (client.notifyUser batch.batchId status).remoteStore = client.remoteStore ∧
      (client.notifyUser batch.batchId status).currentUser = client.currentUser := by
  have queue : (client.localStore.mutationQueues client.currentUser).queue = batch :: rest := by
    rw [← mutationQueue_eq sound, front]
  have storeQueue : (store.mutationQueues client.currentUser).queue = rest := by
    rw [← left, LocalStore.mutationQueue, sameUser, sound.user]
  obtain ⟨callback, registered⟩ := Option.isSome_iff_exists.mp
    ((sound.callbacks client.currentUser batch.batchId).mpr
      ⟨batch, queue ▸ List.mem_cons_self, rfl⟩)
  have sorted := sound.store.current.sorted
  rw [front] at sorted
  have apart : ∀ other ∈ rest, other.batchId ≠ batch.batchId := fun other member =>
    ((List.pairwise_cons.mp sorted).1 other member).ne'
  have notified : client.notifyUser batch.batchId status =
      { client with
        mutationCallbacks := Function.update client.mutationCallbacks client.currentUser
          ((client.mutationCallbacks client.currentUser).erase batch.batchId)
        calls := client.calls ++ [(client.currentUser, callback, status)] } := by
    rw [notifyUser, registered]
  rw [notified]
  refine ⟨⟨kept, sameUser.trans sound.user, fun user batchId => ?_⟩, ⟨⟨(batch.mutations, callback),
    ?_, rfl⟩, fun user foreign => ?_⟩, rfl, rfl⟩
  · by_cases own : user = client.currentUser
    · subst own
      dsimp only
      rw [Function.update_self, storeQueue]
      by_cases same : batchId = batch.batchId
      · subst same
        rw [Collection.get?_erase_self]
        constructor
        · intro isSome
          cases isSome
        · intro pending
          obtain ⟨other, member, same⟩ := pending
          exact absurd same (apart other member)
      · rw [Collection.get?_erase_of_ne _ same, sound.callbacks, queue, List.exists_mem_cons_iff]
        exact or_iff_right (Ne.symm same)
    · dsimp only
      rw [Function.update_of_ne own, others user (sound.user ▸ own)]
      exact sound.callbacks user batchId
  · rw [pendingWrites, pendingWrites, queue, storeQueue]
    dsimp only
    rw [Function.update_self, filterMap_erase apart, List.filterMap_cons, registered]
    rfl
  · rw [pendingWrites, pendingWrites]
    dsimp only
    rw [Function.update_of_ne foreign, others user (sound.user ▸ foreign)]

/-- The acknowledgement of the first batch answers its write with OK. -/
theorem handleSuccessfulWrite (sound : client.Sound) {result : MutationBatchResult}
    {rest : List MutationBatch}
    (front : client.localStore.mutationQueue.queue = result.batch :: rest)
    (committed : 0 < result.commitVersion) :
    ∃ next, client.handleSuccessfulWrite result = some next ∧ next.Sound ∧
      Answers none client next ∧ next.remoteStore = client.remoteStore ∧
      next.currentUser = client.currentUser ∧ next.localStore.mutationQueue.queue = rest := by
  obtain ⟨changes, cache, queue, acknowledged, _, left, kept⟩ :=
    sound.store.acknowledgeBatch front committed
  obtain ⟨next, answers, remote, user⟩ := sound.answer front kept rfl
    ((congrArg _ (LocalStore.mutationQueue_withQueue _ queue)).trans left)
    (fun user apart => LocalStore.mutationQueues_withQueue_of_ne apart queue) none
  refine ⟨_, by rw [Client.handleSuccessfulWrite, acknowledged, Option.map_some], next, answers,
    remote, user, (congrArg _ (LocalStore.mutationQueue_withQueue _ queue)).trans left⟩

/-- The rejection of the first batch answers its write with the error. -/
theorem handleRejectedWrite (sound : client.Sound) {batch : MutationBatch}
    {rest : List MutationBatch} (front : client.localStore.mutationQueue.queue = batch :: rest)
    (error : ErrorCode) :
    ∃ next, client.handleRejectedWrite batch.batchId error = some next ∧ next.Sound ∧
      Answers (some error) client next ∧ next.remoteStore = client.remoteStore ∧
      next.currentUser = client.currentUser ∧ next.localStore.mutationQueue.queue = rest := by
  obtain ⟨changes, queue, rejected, left, kept⟩ := sound.store.rejectBatch front
  obtain ⟨next, answers, remote, user⟩ := sound.answer front kept rfl
    ((congrArg _ (LocalStore.mutationQueue_withQueue _ queue)).trans left)
    (fun user apart => LocalStore.mutationQueues_withQueue_of_ne apart queue) (some error)
  refine ⟨_, by rw [Client.handleRejectedWrite, rejected, Option.map_some], next, answers,
    remote, user, (congrArg _ (LocalStore.mutationQueue_withQueue _ queue)).trans left⟩

/-! ## Closing and restarting the stream -/

/-- Without writes to send the stream closes quietly. -/
theorem closeStream_none (client : Client Callback) (linked : client.remoteStore.Linked)
    (fresh : client.remoteStore.writeStream.isOpen = false →
      client.remoteStore.writeStream.handshakeComplete = false)
    (unneeded : client.remoteStore.isNetworkEnabled = false ∨
      client.remoteStore.writePipeline = []) :
    ∃ remote, client.closeStream none = some (client.withRemote remote) ∧ remote.Linked ∧
      remote.writeStream.isStarted = false ∧
      remote.writeStream.handshakeComplete = false ∧
      remote.isNetworkEnabled = client.remoteStore.isNetworkEnabled ∧
      remote.writePipeline = client.remoteStore.writePipeline := by
  by_cases isStarted : client.remoteStore.writeStream.isStarted
  · obtain ⟨closedLinked, stopped⟩ := linked.closed none
    have notNeeded : (client.remoteStore.closed none).shouldStartWriteStream = false := by
      rw [RemoteStore.shouldStartWriteStream, RemoteStore.closed]
      rcases unneeded with disabled | bare
      · simp only [disabled, Bool.false_and]
      · simp only [bare, List.isEmpty_nil, Bool.not_true, Bool.and_false]
    have notOpen : (client.remoteStore.closed none).writeStream.isOpen = false :=
      WriteStream.isOpen_of_stopped stopped
    have unchanged : (client.remoteStore.closed none).startWriteStreamIfNeeded =
        some (client.remoteStore.closed none) := by
      rw [RemoteStore.startWriteStreamIfNeeded, notNeeded]
      rfl
    have notify : (client.withRemote (client.remoteStore.closed none)).onWriteStreamClose none =
        some (client.withRemote (client.remoteStore.closed none)) := by
      rw [onWriteStreamClose, if_neg fun needed =>
        Bool.false_ne_true (notNeeded.symm.trans needed.2)]
      exact congrArg (Option.map _) unchanged
    refine ⟨_, by rw [closeStream, if_pos isStarted, notify, Option.map_some]; rfl,
      closedLinked.handshakeReset notOpen, stopped, rfl, rfl, rfl⟩
  · have stopped := Bool.eq_false_iff.mpr isStarted
    have notOpen : client.remoteStore.writeStream.isOpen = false :=
      WriteStream.isOpen_of_stopped stopped
    refine ⟨client.remoteStore, ?_, linked, stopped, fresh notOpen, rfl, rfl⟩
    rw [closeStream, if_neg isStarted, if_pos rfl]
    rfl

end Sound

namespace Invariant

/-- A stream that is started sends the first batches of the queue. -/
theorem pipeline_of_isStarted (invariant : client.Invariant)
    (isStarted : client.remoteStore.writeStream.isStarted) :
    client.remoteStore.isNetworkEnabled ∧ client.remoteStore.writePipeline =
      client.localStore.mutationQueue.queue.take kMaxPendingWrites := by
  have enabled := invariant.remote.isNetworkEnabled isStarted
  refine ⟨enabled, ?_⟩
  have pipeline := invariant.remote.pipeline
  rwa [if_pos enabled] at pipeline

/-- The first batch of the pipeline is the first of the queue. -/
theorem front_of_pipeline {queue rest : List MutationBatch} {batch : MutationBatch}
    (pipeline : batch :: rest = queue.take kMaxPendingWrites) :
    ∃ others, queue = batch :: others ∧ rest <+: others ∧ rest.length ≤ kMaxPendingWrites := by
  cases queue with
  | nil =>
      rw [List.take_nil] at pipeline
      cases pipeline
  | cons head others =>
      rw [kMaxPendingWrites, List.take_succ_cons] at pipeline
      obtain ⟨rfl, rfl⟩ := List.cons_eq_cons.mp pipeline
      refine ⟨others, rfl, List.take_prefix _ _, (List.length_take_le _ _).trans ?_⟩
      rw [kMaxPendingWrites]
      omega

end Invariant

/-- A permanent error rejects the first write of the pipeline. -/
theorem Sound.handleWriteError (sound : client.Sound) (linked : client.remoteStore.Linked)
    (stopped : client.remoteStore.writeStream.isStarted = false)
    (enabled : client.remoteStore.isNetworkEnabled)
    (pipeline : client.remoteStore.writePipeline =
      client.localStore.mutationQueue.queue.take kMaxPendingWrites)
    (nonempty : client.remoteStore.writePipeline ≠ []) {error : ErrorCode}
    (permanent : error.isPermanentWriteError) :
    ∃ next, client.handleWriteError error = some next ∧ next.Sound ∧ next.remoteStore.Linked ∧
      next.remoteStore.isNetworkEnabled ∧ next.remoteStore.writeStream.isOpen = false ∧
      next.remoteStore.writePipeline =
        next.localStore.mutationQueue.queue.take kMaxPendingWrites ∧
      next.currentUser = client.currentUser ∧ Answers (some error) client next := by
  cases front : client.remoteStore.writePipeline with
  | nil => exact absurd front nonempty
  | cons batch rest =>
      obtain ⟨others, queue, taken, fits⟩ := Invariant.front_of_pipeline (front.symm.trans pipeline)
      obtain ⟨inhibited, valid⟩ := linked.stream.inhibitBackoff stopped
      obtain ⟨failed, sameFailed⟩ : ∃ failed, failed = { client.remoteStore.shifted with
        writeStream := { client.remoteStore.writeStream with state := .initial } } := ⟨_, rfl⟩
      have failedLinked : failed.Linked := by
        rw [sameFailed]
        refine ⟨valid, fun isOpen => ?_, fun isStarted => ?_, fun timer => ?_⟩
        · cases isOpen
        · cases isStarted
        · cases valid.idle timer
      have shortened : failed.writePipeline = rest := by
        rw [sameFailed]
        exact congrArg List.tail front
      have stillEnabled : failed.isNetworkEnabled := by
        rw [sameFailed]
        exact enabled
      have notOpen : failed.writeStream.isOpen = false := by
        rw [sameFailed]
        rfl
      obtain ⟨middle, rejected, middleSound, answers, remote, user, left⟩ :=
        (sound.withRemote failed).handleRejectedWrite queue error
      have sameRemote : middle.remoteStore = failed := remote
      rw [← sameRemote] at failedLinked shortened stillEnabled notOpen
      obtain ⟨filled, refill, filledLinked, filledEnabled, whole, _, isOpen, _⟩ :=
        failedLinked.fillWritePipeline stillEnabled middleSound.store
          (by rw [shortened]; exact fits)
          (by rw [shortened, left]; exact List.prefix_iff_eq_take.mp taken)
      refine ⟨middle.withRemote filled, ?_, middleSound.withRemote filled, filledLinked,
        filledEnabled, isOpen.trans notOpen, whole, user, answers.current, answers.others⟩
      have rejects : ((client.withRemote client.remoteStore.shifted).withStream
          { client.remoteStore.writeStream with state := .initial }).handleRejectedWrite
            batch.batchId error = some middle := by
        rw [← rejected, sameFailed]
        rfl
      rw [Client.handleWriteError, if_pos permanent, front]
      dsimp only
      rw [inhibited, Option.bind_some, rejects, Option.bind_some, Client.fillWritePipeline, refill,
        Option.map_some]

namespace Invariant

/-- An error of a stream rejects the first write of the pipeline when it is permanent and the
handshake was complete. -/
theorem handleStreamError (invariant : client.Invariant)
    (isStarted : client.remoteStore.writeStream.isStarted) (error : ErrorCode) :
    ∃ next, (client.withRemote (client.remoteStore.closed (some error))).handleStreamError
        (some error) = some next ∧ next.Sound ∧ next.remoteStore.Linked ∧
      next.remoteStore.isNetworkEnabled ∧ next.remoteStore.writeStream.isOpen = false ∧
      next.remoteStore.writePipeline =
        next.localStore.mutationQueue.queue.take kMaxPendingWrites ∧
      next.currentUser = client.currentUser ∧
      Reacts (client.answer (.streamFinish (some error))) client next := by
  obtain ⟨enabled, pipeline⟩ := invariant.pipeline_of_isStarted isStarted
  obtain ⟨linked, stopped⟩ := invariant.remote.toLinked.closed (some error)
  have notOpen : (client.remoteStore.closed (some error)).writeStream.isOpen = false :=
    WriteStream.isOpen_of_stopped stopped
  have sound := invariant.toSound.withRemote (client.remoteStore.closed (some error))
  have ignored (unanswered : client.answer (.streamFinish (some error)) = none) :
      ∃ next, some (client.withRemote (client.remoteStore.closed (some error))) = some next ∧
        next.Sound ∧ next.remoteStore.Linked ∧ next.remoteStore.isNetworkEnabled ∧
        next.remoteStore.writeStream.isOpen = false ∧
        next.remoteStore.writePipeline =
          next.localStore.mutationQueue.queue.take kMaxPendingWrites ∧
        next.currentUser = client.currentUser ∧
        Reacts (client.answer (.streamFinish (some error))) client next := by
    rw [unanswered]
    exact ⟨_, rfl, sound, linked, enabled, notOpen, pipeline, rfl, fun _ => rfl, rfl⟩
  rw [Client.handleStreamError]
  split_ifs with writing
  · by_cases permanent : error.isPermanentWriteError
    · obtain ⟨next, rejected, nextSound, nextLinked, nextEnabled, nextNotOpen, nextPipeline, user,
        answers⟩ := sound.handleWriteError linked stopped enabled pipeline writing.1 permanent
      have answered : client.answer (.streamFinish (some error)) = some (some error) :=
        if_pos ⟨writing.1, writing.2, permanent⟩
      rw [answered]
      exact ⟨next, rejected, nextSound, nextLinked, nextEnabled, nextNotOpen, nextPipeline, user,
        answers.current, answers.others⟩
    · rw [Client.handleWriteError, if_neg permanent]
      exact ignored (if_neg fun rejects => permanent rejects.2.2)
  · exact ignored (if_neg fun rejects => writing ⟨rejects.1, rejects.2.1⟩)

/-- A stream that fails starts again when there is something to send. -/
theorem closeStream_error (invariant : client.Invariant)
    (isStarted : client.remoteStore.writeStream.isStarted) (error : ErrorCode) :
    ∃ next, client.closeStream (some error) = some next ∧ next.Invariant ∧
      next.currentUser = client.currentUser ∧
      next.remoteStore.isNetworkEnabled = client.remoteStore.isNetworkEnabled ∧
      Reacts (client.answer (.streamFinish (some error))) client next := by
  obtain ⟨middle, handled, sound, linked, enabled, notOpen, pipeline, user, reacts⟩ :=
    invariant.handleStreamError isStarted error
  obtain ⟨remote, restarted, reopened, stillEnabled⟩ := linked.reopen enabled notOpen pipeline
  have wasEnabled := invariant.remote.isNetworkEnabled isStarted
  refine ⟨middle.withRemote remote.handshakeReset, ?_, ⟨sound.withRemote _, reopened⟩, user,
    stillEnabled.trans wasEnabled.symm, reacts.withRemote _⟩
  rw [closeStream, if_pos isStarted, onWriteStreamClose,
    if_neg fun needed => Option.some_ne_none _ needed.1, handled, Option.bind_some, restarted]
  rfl

end Invariant

/-! ## Steps -/

namespace Sound

/-- Disabling the network clears the pipeline. -/
theorem disableNetwork (client : Client Callback) (linked : client.remoteStore.Linked)
    (fresh : client.remoteStore.writeStream.isOpen = false →
      client.remoteStore.writeStream.handshakeComplete = false) (queue : List MutationBatch) :
    ∃ remote, client.disableNetwork = some (client.withRemote remote) ∧
      remote.Invariant queue ∧ remote.isNetworkEnabled = false := by
  have disabled : RemoteStore.Linked { client.remoteStore with isNetworkEnabled := false } :=
    ⟨linked.stream, linked.requests, linked.pending, linked.idle⟩
  obtain ⟨remote, closed, closedLinked, stopped, reset, stillDisabled, _⟩ :=
    closeStream_none (client.withRemote { client.remoteStore with isNetworkEnabled := false })
      disabled fresh (.inl rfl)
  have notOpen : remote.writeStream.isOpen = false := WriteStream.isOpen_of_stopped stopped
  refine ⟨{ remote with writePipeline := [] }, ?_, ⟨⟨closedLinked.stream, fun isOpen => ?_,
    fun isStarted => ?_, fun timer => ?_⟩, ?_, fun nonempty => absurd rfl nonempty,
    fun _ => stopped, fun _ => reset⟩, stillDisabled⟩
  · rw [Client.disableNetwork, closed]
    rfl
  · exact absurd (notOpen.symm.trans isOpen) Bool.false_ne_true
  · exact absurd (stopped.symm.trans isStarted) Bool.false_ne_true
  · exact absurd (notOpen.symm.trans (closedLinked.stream.idle timer)) Bool.false_ne_true
  · exact (if_neg (fun enabled => Bool.false_ne_true (stillDisabled.symm.trans enabled))).symm

/-- Enabling the network fills the pipeline. -/
theorem enableNetwork (sound : client.Sound) (linked : client.remoteStore.Linked)
    (fresh : client.remoteStore.writeStream.isOpen = false →
      client.remoteStore.writeStream.handshakeComplete = false)
    (fits : client.remoteStore.writePipeline.length ≤ kMaxPendingWrites)
    (pipeline : client.remoteStore.writePipeline =
      client.localStore.mutationQueue.queue.take client.remoteStore.writePipeline.length) :
    ∃ remote, client.enableNetwork = some (client.withRemote remote) ∧
      remote.Invariant client.localStore.mutationQueue.queue ∧ remote.isNetworkEnabled := by
  have enabled : RemoteStore.Linked { client.remoteStore with isNetworkEnabled := true } :=
    ⟨linked.stream, linked.requests, linked.pending, linked.idle⟩
  obtain ⟨remote, filled, filledLinked, stillEnabled, whole, started, isOpen, handshake⟩ :=
    enabled.fillWritePipeline rfl sound.store fits pipeline
  refine ⟨remote, ?_, ⟨filledLinked, by rw [if_pos stillEnabled, whole], started,
    fun disabled => ?_, fun closed => ?_⟩, stillEnabled⟩
  · rw [Client.enableNetwork, Client.fillWritePipeline]
    exact congrArg (Option.map _) filled
  · exact absurd (disabled.symm.trans stillEnabled) Bool.false_ne_true
  · exact handshake.trans (fresh (isOpen.symm.trans closed))

/-- Restarting the network fills the pipeline from the queue of the current user. -/
theorem restartNetwork (sound : client.Sound) (linked : client.remoteStore.Linked)
    (fresh : client.remoteStore.writeStream.isOpen = false →
      client.remoteStore.writeStream.handshakeComplete = false) :
    ∃ remote, client.restartNetwork = some (client.withRemote remote) ∧
      remote.Invariant client.localStore.mutationQueue.queue ∧ remote.isNetworkEnabled := by
  obtain ⟨stopped, disabled, invariant, notEnabled⟩ := disableNetwork client linked fresh []
  have notStarted := invariant.stopped notEnabled
  have notOpen : stopped.writeStream.isOpen = false := WriteStream.isOpen_of_stopped notStarted
  obtain ⟨inhibited, valid⟩ := invariant.stream.inhibitBackoff notStarted
  have bare : stopped.writePipeline = [] := by
    have pipeline := invariant.pipeline
    rwa [List.take_nil, ite_self] at pipeline
  have restarted : RemoteStore.Linked
      { stopped with writeStream := { stopped.writeStream with state := .initial } } := by
    refine ⟨valid, fun isOpen => ?_, fun isStarted => ?_, fun timer => ?_⟩
    · cases isOpen
    · cases isStarted
    · cases valid.idle timer
  obtain ⟨remote, enabled, kept⟩ := (sound.withRemote
    { stopped with writeStream := { stopped.writeStream with state := .initial } }).enableNetwork
      restarted (fun _ => invariant.fresh notOpen)
      (show stopped.writePipeline.length ≤ kMaxPendingWrites by
        rw [bare]
        exact Nat.zero_le _)
      (show stopped.writePipeline = client.localStore.mutationQueue.queue.take
          stopped.writePipeline.length by
        rw [bare]
        rfl)
  refine ⟨remote, ?_, kept⟩
  rw [Client.restartNetwork, disabled, Option.bind_some]
  exact (congrArg (Option.bind · _) inhibited).trans enabled

/-- The pending writes of all users survive a change of the user. -/
theorem changeUser (sound : client.Sound) (user : User) :
    ∃ next, client.changeUser user = some next ∧ next.Sound ∧ Silent client next ∧
      next.currentUser = user ∧ next.remoteStore = client.remoteStore := by
  rw [Client.changeUser]
  split_ifs with same
  · exact ⟨client, rfl, sound, .refl client, same.symm, rfl⟩
  · obtain ⟨changes, changed, kept⟩ := sound.store.handleUserChange user
    have queues : ∀ other, ((LocalStore.withQueue { client.localStore with user }
        (client.localStore.mutationQueues user).start).mutationQueues other).queue =
          (client.localStore.mutationQueues other).queue := by
      intro other
      by_cases own : other = user
      · subst own
        exact (congrArg _ (LocalStore.mutationQueue_withQueue _ _)).trans
          (MemoryMutationQueue.queue_start _)
      · rw [LocalStore.mutationQueues_withQueue_of_ne own]
    refine ⟨{ client with
        localStore := LocalStore.withQueue { client.localStore with user }
          (client.localStore.mutationQueues user).start
        currentUser := user }, ?_, ⟨kept, rfl, fun other batchId => ?_⟩,
      ⟨fun other => ?_, rfl⟩, rfl, rfl⟩
    · rw [changed, Option.map_some]
    · rw [queues]
      exact sound.callbacks other batchId
    · rw [pendingWrites, pendingWrites]
      dsimp only
      rw [queues]

end Sound

/-- A write of the current user is added. -/
structure Adds (write : List Mutation × Callback) (client next : Client Callback) : Prop where
  current : next.pendingWrites client.currentUser =
    client.pendingWrites client.currentUser ++ [write]
  others : ∀ user, user ≠ client.currentUser →
    next.pendingWrites user = client.pendingWrites user
  calls : next.calls = client.calls

/-- What an event does to the writes: one is added, or the first one is answered, or nothing
happens to them. -/
inductive Progress (client : Client Callback) :
    ClientEvent Callback → Client Callback → Prop where
  | adds {event next write} (issued : event.issued = some write) (adds : Adds write client next) :
      Progress client event next
  | reacts {event next} (issued : event.issued = none)
      (reacts : Reacts (client.answer event) client next) : Progress client event next

/-- Errors that callbacks get are permanent. -/
theorem isPermanentWriteError_of_answer {event : ClientEvent Callback} {error : ErrorCode}
    (answered : client.answer event = some (some error)) : error.isPermanentWriteError := by
  unfold answer at answered
  split at answered
  · split_ifs at answered
    cases Option.some.inj answered
  · split_ifs at answered with rejects
    cases answered
    exact rejects.2.2
  · cases answered

/-- A write is added with its callback, under an identifier that no pending batch has. -/
theorem Invariant.writeMutations (invariant : client.Invariant) {mutations : List Mutation}
    (nonempty : mutations ≠ []) (callback : Callback) :
    ∃ next, client.writeMutations mutations callback = some next ∧ next.Invariant ∧
      next.currentUser = client.currentUser ∧
      next.remoteStore.isNetworkEnabled = client.remoteStore.isNetworkEnabled ∧
      Adds (mutations, callback) client next := by
  obtain ⟨batch, existing, queue, same, _, written, appended, store⟩ :=
    invariant.store.writeLocally nonempty
  have current := mutationQueue_eq invariant.toSound
  have fresh : ∀ other ∈ (client.localStore.mutationQueues client.currentUser).queue,
      other.batchId ≠ batch.batchId := by
    intro other member
    rw [← current] at member
    have below := invariant.store.current.batchId_lt member
    rw [same]
    exact below.ne
  have unregistered :
      ((client.mutationCallbacks client.currentUser).get? batch.batchId).isSome = false := by
    refine Bool.eq_false_iff.mpr fun isSome => ?_
    obtain ⟨other, member, equal⟩ := (invariant.callbacks _ _).mp isSome
    exact fresh other member equal
  have callbacks : client.registerCallback batch.batchId callback =
      Function.update client.mutationCallbacks client.currentUser
        ((client.mutationCallbacks client.currentUser).set batch.batchId callback) := by
    rw [registerCallback, unregistered]
    rfl
  have storeQueue : ((client.localStore.withQueue queue).mutationQueues
      client.currentUser).queue =
        (client.localStore.mutationQueues client.currentUser).queue ++ [batch] := by
    rw [← current, ← appended, ← invariant.user]
    exact congrArg _ (LocalStore.mutationQueue_withQueue _ _)
  have others : ∀ user, user ≠ client.currentUser →
      (client.localStore.withQueue queue).mutationQueues user =
        client.localStore.mutationQueues user := fun user apart =>
    LocalStore.mutationQueues_withQueue_of_ne (invariant.user ▸ apart) queue
  have longer : client.localStore.mutationQueue.queue <+:
      (client.localStore.withQueue queue).mutationQueue.queue := by
    rw [LocalStore.mutationQueue_withQueue, appended]
    exact List.prefix_append _ _
  obtain ⟨remote, filled, remoteKept, sameNetwork⟩ :=
    invariant.remote.fillWritePipeline store longer
  refine ⟨{ client with
      localStore := client.localStore.withQueue queue
      mutationCallbacks := client.registerCallback batch.batchId callback
      remoteStore := remote }, ?_, ⟨⟨store, invariant.user, fun user batchId => ?_⟩, remoteKept⟩,
    rfl, sameNetwork, ?_, fun user foreign => ?_, rfl⟩
  · rw [Client.writeMutations, written, Option.bind_some, Client.fillWritePipeline]
    exact congrArg (Option.map _) filled
  · dsimp only
    rw [callbacks]
    by_cases own : user = client.currentUser
    · subst own
      rw [Function.update_self, storeQueue]
      simp only [List.mem_append, List.mem_singleton, or_and_right, exists_or, exists_eq_left,
        ← invariant.callbacks]
      by_cases equal : batchId = batch.batchId
      · rw [equal, Collection.get?_set_self]
        exact iff_of_true rfl (.inr rfl)
      · rw [Collection.get?_set_of_ne _ equal]
        exact (or_iff_left (Ne.symm equal)).symm
    · rw [Function.update_of_ne own, others user own]
      exact invariant.callbacks user batchId
  · rw [pendingWrites, pendingWrites]
    dsimp only
    rw [callbacks, Function.update_self, storeQueue, List.filterMap_append]
    refine congrArg₂ (· ++ ·) (List.filterMap_congr fun other member => ?_) ?_
    · rw [Collection.get?_set_of_ne _ (fresh other member)]
    · rw [List.filterMap_cons, Collection.get?_set_self, same]
      rfl
  · rw [pendingWrites, pendingWrites]
    dsimp only
    rw [callbacks, Function.update_of_ne foreign, others user foreign]

namespace Invariant

/-- Another credential restarts the network with the queue of its user. -/
theorem handleCredentialChange (invariant : client.Invariant) (user : User) :
    ∃ next, client.handleCredentialChange user = some next ∧ next.Invariant ∧
      next.currentUser = user ∧
      next.remoteStore.isNetworkEnabled = client.remoteStore.isNetworkEnabled ∧
      Silent client next := by
  obtain ⟨changed, change, sound, silent, current, remote⟩ := invariant.toSound.changeUser user
  have linked := invariant.remote.toLinked
  have fresh := invariant.remote.fresh
  rw [← remote] at linked fresh
  by_cases enabled : changed.remoteStore.isNetworkEnabled
  · obtain ⟨next, restarted, kept, stillEnabled⟩ := sound.restartNetwork linked fresh
    refine ⟨_, ?_, ⟨sound.withRemote next, kept⟩, current,
      stillEnabled.trans (remote ▸ enabled).symm, silent.pending, silent.calls⟩
    rw [Client.handleCredentialChange, change, Option.bind_some, if_pos enabled, restarted]
  · have bare : changed.remoteStore.writePipeline = [] := by
      have pipeline := invariant.remote.pipeline
      rwa [← remote, if_neg enabled] at pipeline
    refine ⟨changed, ?_, ⟨sound, linked, by rw [if_neg enabled, bare],
      fun nonempty => absurd bare nonempty, ?_, fresh⟩, current,
      congrArg RemoteStore.isNetworkEnabled remote, silent⟩
    · rw [Client.handleCredentialChange, change, Option.bind_some, if_neg enabled]
    · rw [remote]
      exact invariant.remote.stopped

/-- Enabling the network fills the pipeline. -/
theorem enableNetwork (invariant : client.Invariant) :
    ∃ next, client.enableNetwork = some next ∧ next.Invariant ∧
      next.currentUser = client.currentUser ∧ next.remoteStore.isNetworkEnabled = true ∧
      Silent client next := by
  have taken : client.remoteStore.writePipeline <+: client.localStore.mutationQueue.queue ∧
      client.remoteStore.writePipeline.length ≤ kMaxPendingWrites := by
    rw [invariant.remote.pipeline]
    split_ifs
    · exact ⟨List.take_prefix _ _, List.length_take_le _ _⟩
    · exact ⟨List.nil_prefix, Nat.zero_le _⟩
  obtain ⟨remote, enabled, kept, nowEnabled⟩ := invariant.toSound.enableNetwork
    invariant.remote.toLinked invariant.remote.fresh taken.2 (List.prefix_iff_eq_take.mp taken.1)
  exact ⟨_, enabled, ⟨invariant.toSound.withRemote remote, kept⟩, rfl, nowEnabled, fun _ => rfl,
    rfl⟩

/-- Only the stream of the remote store changes. -/
theorem withStream (invariant : client.Invariant) {stream : WriteStream}
    (valid : stream.Valid) (sameState : stream.state = client.remoteStore.writeStream.state)
    (sameTimer : stream.idlenessTimer = client.remoteStore.writeStream.idlenessTimer)
    (sameHandshake : stream.handshakeComplete = client.remoteStore.writeStream.handshakeComplete)
    (sameConnection : stream.isOpen →
      stream.grpcStream = client.remoteStore.writeStream.grpcStream) :
    (client.withStream stream).Invariant := by
  have isOpen : stream.isOpen = client.remoteStore.writeStream.isOpen := by
    rw [WriteStream.isOpen, sameState, WriteStream.isOpen]
  have isStarted : stream.isStarted = client.remoteStore.writeStream.isStarted := by
    rw [WriteStream.isStarted, sameState, isOpen, WriteStream.isStarted]
  refine ⟨invariant.toSound.withRemote _, ⟨valid, fun open' => ?_, fun started => ?_,
    fun timer => ?_⟩, invariant.remote.pipeline, fun nonempty => ?_, fun disabled => ?_,
    fun closed => ?_⟩
  · refine (sameConnection open').trans ((invariant.remote.requests (isOpen ▸ open')).trans ?_)
    rw [RemoteStore.unanswered, RemoteStore.unanswered]
    exact congrArg (fun complete => some (if complete = true then _ else _)) sameHandshake.symm
  · have pending := invariant.remote.pending (isStarted.symm.trans started)
    rwa [← isOpen, ← sameHandshake] at pending
  · have idle := invariant.remote.idle (sameTimer.symm.trans timer)
    rwa [← sameHandshake] at idle
  · exact isStarted.trans (invariant.remote.started nonempty)
  · exact isStarted.trans (invariant.remote.stopped disabled)
  · exact sameHandshake.trans (invariant.remote.fresh (isOpen.symm.trans closed))

/-- A token request is answered. -/
theorem takeToken (invariant : client.Invariant) (index : Nat) :
    (client.takeToken index).Invariant := by
  have valid := invariant.remote.stream
  have subset : ∀ count ∈ client.remoteStore.writeStream.tokenRequests.eraseIdx index,
      count ∈ client.remoteStore.writeStream.tokenRequests := fun count =>
    List.mem_of_mem_eraseIdx
  exact invariant.withStream ⟨valid.opened, valid.connected, valid.idle, valid.backoff,
    fun count member => valid.tokens count (subset count member),
    fun member => valid.current (subset _ member), valid.distinct.eraseIdx index⟩ rfl rfl rfl
    fun _ => rfl

/-- A token opens the connection of the start that asked for it, an error restarts the
stream, and the answers of older starts are ignored. -/
theorem handleToken (invariant : client.Invariant) {index : Nat}
    (asked : index < client.remoteStore.writeStream.tokenRequests.length) (status : Status) :
    ∃ next, client.handleToken index status = some next ∧ next.Invariant ∧
      next.currentUser = client.currentUser ∧
      next.remoteStore.isNetworkEnabled = client.remoteStore.isNetworkEnabled ∧
      Silent client next := by
  have taken := invariant.takeToken index
  have valid := invariant.remote.stream
  rw [Client.handleToken, List.getElem?_eq_getElem asked, Option.bind_some]
  split_ifs with old ok starting
  · exact ⟨_, rfl, taken, rfl, rfl, fun _ => rfl, rfl⟩
  · have count := not_not.mp old
    obtain ⟨state, bare⟩ := valid.current (count ▸ List.getElem_mem asked)
    have consumed : client.remoteStore.writeStream.closeCount ∉
        client.remoteStore.writeStream.tokenRequests.eraseIdx index := by
      intro member
      obtain ⟨other, bound, apart, same⟩ := List.mem_eraseIdx_iff_getElem.mp member
      exact apart ((valid.distinct.getElem_inj_iff).mp (same.trans count))
    have connects : WriteStream.Valid { (client.takeToken index).remoteStore.writeStream with
        grpcStream := some [] } :=
      ⟨fun _ => rfl, fun _ => .inl state, taken.remote.stream.idle, taken.remote.stream.backoff,
        taken.remote.stream.tokens, fun member => absurd member consumed,
        taken.remote.stream.distinct⟩
    refine ⟨_, ?_, taken.withStream connects rfl rfl rfl fun isOpen => ?_, rfl, rfl,
      fun _ => rfl, rfl⟩
    · rw [WriteStream.resumeStartWithCredentials,
        if_pos (show (client.takeToken index).remoteStore.writeStream.state = .starting from state)]
      rfl
    · have notOpen := of_decide_eq_true isOpen
      rw [show (client.takeToken index).remoteStore.writeStream.state = .starting from state]
        at notOpen
      cases notOpen
  · cases status with
    | none => exact absurd rfl ok
    | some error =>
        have isStarted : (client.takeToken index).remoteStore.writeStream.isStarted := by
          rw [WriteStream.isStarted,
            show (client.takeToken index).remoteStore.writeStream.state = .starting from starting]
          rfl
        have incomplete : (client.takeToken index).remoteStore.writeStream.handshakeComplete =
            false := by
          apply taken.remote.fresh
          rw [WriteStream.isOpen,
            show (client.takeToken index).remoteStore.writeStream.state = .starting from starting]
          rfl
        have unanswered : (client.takeToken index).answer (.streamFinish (some error)) = none :=
          if_neg fun rejects => Bool.false_ne_true (incomplete.symm.trans rejects.2.1)
        obtain ⟨next, closed, kept, user, sameNetwork, reacts⟩ :=
          taken.closeStream_error isStarted error
        rw [unanswered] at reacts
        exact ⟨next, closed, kept, user, sameNetwork, reacts.pending, reacts.calls⟩
  · have count := not_not.mp old
    exact absurd (valid.current (count ▸ List.getElem_mem asked)).1 starting

/-- The connection opens with the handshake. -/
theorem streamStart (invariant : client.Invariant)
    (starting : client.remoteStore.writeStream.state = .starting)
    (connected : client.remoteStore.writeStream.grpcStream = some []) :
    ∃ remote, client.remoteStore.onWriteStreamOpen = some remote ∧
      (client.withRemote remote).Invariant ∧
      remote.isNetworkEnabled = client.remoteStore.isNetworkEnabled := by
  have isStarted : client.remoteStore.writeStream.isStarted := by
    rw [WriteStream.isStarted, starting]
    rfl
  have notOpen : client.remoteStore.writeStream.isOpen = false := by
    rw [WriteStream.isOpen, starting]
    rfl
  obtain ⟨enabled, pipeline⟩ := invariant.pipeline_of_isStarted isStarted
  obtain ⟨remote, opened, linked, samePipeline, sameNetwork, isOpen⟩ :=
    invariant.remote.toLinked.onWriteStreamOpen starting connected (invariant.remote.fresh notOpen)
  have stillEnabled : remote.isNetworkEnabled := sameNetwork ▸ enabled
  refine ⟨remote, opened, ⟨invariant.toSound.withRemote remote, linked, ?_,
    fun _ => RemoteStore.Linked.isStarted_of_isOpen isOpen, fun disabled => ?_,
    fun closed => ?_⟩, sameNetwork⟩
  · exact samePipeline.trans (pipeline.trans (if_pos stillEnabled).symm)
  · exact absurd (disabled.symm.trans stillEnabled) Bool.false_ne_true
  · exact absurd (closed.symm.trans isOpen) Bool.false_ne_true

/-- A result acknowledges the first batch of the pipeline. -/
theorem onWriteStreamMutationResult_of_front {batch : MutationBatch} {rest : List MutationBatch}
    (front : client.remoteStore.writePipeline = batch :: rest) (commitVersion : SnapshotVersion)
    {mutationResults : List SnapshotVersion}
    (sameLength : batch.mutations.length = mutationResults.length) :
    client.onWriteStreamMutationResult commitVersion mutationResults =
      ((client.withRemote client.remoteStore.shifted).handleSuccessfulWrite
        ⟨batch, commitVersion, mutationResults, sameLength⟩).bind Client.fillWritePipeline := by
  rw [onWriteStreamMutationResult]
  split
  · next bare => cases bare.symm.trans front
  · next first _ found =>
      cases found.symm.trans front
      rw [dif_pos sameLength]

/-- A response completes the handshake or answers the first write of the pipeline. -/
theorem onStreamRead (invariant : client.Invariant) {commitVersion : SnapshotVersion}
    {mutationResults : List SnapshotVersion} (isOpen : client.remoteStore.writeStream.isOpen)
    (answered : (client.remoteStore.writeStream.grpcStream.bind List.head?).any
      (WriteRequest.answeredBy commitVersion mutationResults)) :
    ∃ next, client.onStreamRead commitVersion mutationResults = some next ∧ next.Invariant ∧
      next.currentUser = client.currentUser ∧
      next.remoteStore.isNetworkEnabled = client.remoteStore.isNetworkEnabled ∧
      Reacts (client.answer (.streamRead commitVersion mutationResults)) client next := by
  have isStarted := RemoteStore.Linked.isStarted_of_isOpen isOpen
  obtain ⟨enabled, pipeline⟩ := invariant.pipeline_of_isStarted isStarted
  have requests := invariant.remote.requests isOpen
  rw [Client.onStreamRead, if_pos isStarted]
  by_cases complete : client.remoteStore.writeStream.handshakeComplete
  · have answer : client.answer (.streamRead commitVersion mutationResults) = some none :=
      if_pos complete
    rw [if_pos complete, answer]
    rw [requests, RemoteStore.unanswered, if_pos complete, Option.bind_some] at answered
    cases front : client.remoteStore.writePipeline with
    | nil =>
        rw [front] at answered
        cases answered
    | cons batch rest =>
        rw [front, List.map_cons, List.head?_cons, Option.any_some, WriteRequest.answeredBy,
          Bool.and_eq_true] at answered
        have sameLength : batch.mutations.length = mutationResults.length :=
          of_decide_eq_true answered.1
        obtain ⟨others, queue, taken, fits⟩ := front_of_pipeline (front.symm.trans pipeline)
        have nonempty : client.remoteStore.writePipeline ≠ [] := by
          rw [front]
          exact List.cons_ne_nil _ _
        have shifted := invariant.remote.toLinked.responded_shifted isOpen complete nonempty
        have shortened : client.remoteStore.responded.shifted.writePipeline = rest :=
          congrArg List.tail front
        obtain ⟨middle, acknowledged, sound, answers, remote, user, left⟩ :=
          (invariant.toSound.withRemote client.remoteStore.responded.shifted).handleSuccessfulWrite
            (show client.localStore.mutationQueue.queue =
                (MutationBatchResult.mk batch commitVersion mutationResults
                  sameLength).batch :: others
              from queue) (of_decide_eq_true answered.2)
        have sameRemote : middle.remoteStore = client.remoteStore.responded.shifted := remote
        rw [← sameRemote] at shifted shortened
        have stillEnabled : middle.remoteStore.isNetworkEnabled := by
          rw [sameRemote]
          exact enabled
        obtain ⟨filled, refill, linked, filledEnabled, whole, started, sameOpen, _⟩ :=
          shifted.fillWritePipeline stillEnabled sound.store (by rw [shortened]; exact fits)
            (by rw [shortened, left]; exact List.prefix_iff_eq_take.mp taken)
        have middleOpen : middle.remoteStore.writeStream.isOpen := by
          rw [sameRemote]
          exact isOpen
        refine ⟨middle.withRemote filled, ?_, ⟨sound.withRemote filled, linked,
          whole.trans (if_pos filledEnabled).symm, started, fun disabled => ?_, fun closed => ?_⟩,
          user, filledEnabled.trans enabled.symm, answers.current, answers.others⟩
        · have responds : (client.withRemote
              client.remoteStore.responded).remoteStore.writePipeline = batch :: rest := front
          rw [onWriteStreamMutationResult_of_front responds commitVersion sameLength]
          refine (congrArg (Option.bind · Client.fillWritePipeline) acknowledged).trans ?_
          rw [Option.bind_some, Client.fillWritePipeline, refill, Option.map_some]
        · exact absurd (disabled.symm.trans filledEnabled) Bool.false_ne_true
        · exact absurd (closed.symm.trans (sameOpen.trans middleOpen)) Bool.false_ne_true
  · have answer : client.answer (.streamRead commitVersion mutationResults) = none :=
      if_neg complete
    rw [if_neg complete, answer]
    obtain ⟨remote, sent, linked, samePipeline, sameNetwork, stillOpen⟩ :=
      invariant.remote.toLinked.onWriteStreamHandshakeComplete isOpen
        (Bool.eq_false_iff.mpr complete)
    have stillEnabled : remote.isNetworkEnabled := sameNetwork ▸ enabled
    refine ⟨client.withRemote remote, by rw [sent, Option.map_some],
      ⟨invariant.toSound.withRemote remote, linked, ?_,
        fun _ => RemoteStore.Linked.isStarted_of_isOpen stillOpen, fun disabled => ?_,
        fun closed => ?_⟩, rfl, sameNetwork, fun _ => rfl, rfl⟩
    · exact samePipeline.trans (pipeline.trans (if_pos stillEnabled).symm)
    · exact absurd (disabled.symm.trans stillEnabled) Bool.false_ne_true
    · exact absurd (closed.symm.trans stillOpen) Bool.false_ne_true

/-- A stream that nothing needs closes quietly. -/
theorem closeStream_none (invariant : client.Invariant)
    (bare : client.remoteStore.writePipeline = []) :
    ∃ next, client.closeStream none = some next ∧ next.Invariant ∧
      next.currentUser = client.currentUser ∧
      next.remoteStore.isNetworkEnabled = client.remoteStore.isNetworkEnabled ∧
      Silent client next := by
  obtain ⟨remote, closed, linked, stopped, reset, sameNetwork, samePipeline⟩ :=
    Sound.closeStream_none client invariant.remote.toLinked invariant.remote.fresh (.inr bare)
  refine ⟨_, closed, ⟨invariant.toSound.withRemote remote, linked, ?_, fun nonempty => ?_,
    fun _ => stopped, fun _ => reset⟩, rfl, sameNetwork, fun _ => rfl, rfl⟩
  · exact samePipeline.trans (sameNetwork ▸ invariant.remote.pipeline)
  · exact absurd (samePipeline.trans bare) nonempty

/-- The end of the delay starts the stream. -/
theorem backoffElapsed (invariant : client.Invariant)
    (timer : client.remoteStore.writeStream.backoffTimer) :
    ∃ stream, client.remoteStore.writeStream.finishBackoff = some stream ∧
      (client.withStream stream).Invariant := by
  have state := invariant.remote.stream.backoff.mp timer
  have wasStarted : client.remoteStore.writeStream.isStarted := by
    rw [WriteStream.isStarted, state]
    rfl
  have wasClosed : client.remoteStore.writeStream.isOpen = false := by
    rw [WriteStream.isOpen, state]
    rfl
  obtain ⟨enabled, pipeline⟩ := invariant.pipeline_of_isStarted wasStarted
  have nonempty : client.remoteStore.writePipeline ≠ [] := by
    refine (invariant.remote.pending wasStarted).resolve_left fun ready => ?_
    exact absurd (wasClosed.symm.trans ready.1) Bool.false_ne_true
  obtain ⟨stream, finished, valid, isStarted, closed, handshake⟩ :=
    invariant.remote.stream.finishBackoff timer
  refine ⟨stream, finished, invariant.toSound.withRemote _, ⟨valid, fun isOpen => ?_,
    fun _ => .inr nonempty, fun idle => ?_⟩, invariant.remote.pipeline, fun _ => isStarted,
    fun disabled => ?_, fun _ => handshake.trans (invariant.remote.fresh wasClosed)⟩
  · exact absurd (closed.symm.trans isOpen) Bool.false_ne_true
  · exact absurd (closed.symm.trans (valid.idle idle)) Bool.false_ne_true
  · exact absurd (disabled.symm.trans enabled) Bool.false_ne_true

/-- The local store takes a snapshot that is not older, and a document that counts as
deleted. -/
theorem raises_of_raised {event : ClientEvent Callback} {remote : RemoteEvent}
    (raised : event.raised client.localStore.lastRemoteSnapshotVersion = some remote) :
    client.localStore.Raises remote := by
  cases event with
  | watchChange event =>
      obtain ⟨ready, same⟩ := Option.ite_none_right_eq_some.mp raised
      cases same
      exact ⟨fun _ => ready.2, fun zero => absurd zero ready.1⟩
  | rejectedListen limboKey =>
      cases raised
      refine ⟨fun nonzero => absurd rfl nonzero, fun _ key doc found => ?_⟩
      rw [RemoteEvent.eq_of_get?_single found]
      rfl
  | _ => cases raised

/-- A remote event leaves the writes. -/
theorem applyRemoteEvent (invariant : client.Invariant) {event : RemoteEvent}
    (raises : client.localStore.Raises event) :
    ∃ next, client.applyRemoteEvent event = some next ∧ next.Invariant ∧
      next.currentUser = client.currentUser ∧
      next.remoteStore.isNetworkEnabled = client.remoteStore.isNetworkEnabled ∧
      Silent client next := by
  obtain ⟨changes, cache, updated, _, kept⟩ := invariant.store.applyRemoteEvent raises
  obtain ⟨store, sameStore⟩ : ∃ store : LocalStore, store = { client.localStore with
      remoteDocumentCache := cache
      lastRemoteSnapshotVersion := client.localStore.snapshotVersionAfter event } := ⟨_, rfl⟩
  have queues : store.mutationQueues = client.localStore.mutationQueues := by rw [sameStore]
  have user : store.user = client.localStore.user := by rw [sameStore]
  rw [← sameStore] at updated kept
  refine ⟨{ client with localStore := store }, ?_, ⟨⟨kept, user.trans invariant.user, ?_⟩, ?_⟩, rfl,
    rfl, fun other => ?_, rfl⟩
  · rw [Client.applyRemoteEvent, updated, Option.map_some]
  · dsimp only
    rw [queues]
    exact invariant.callbacks
  · rw [LocalStore.mutationQueue, queues, user]
    exact invariant.remote
  · rw [pendingWrites, pendingWrites, queues]

/-- A watch change leaves the writes, whether it raises a snapshot or not. -/
theorem onWatchStreamChange (invariant : client.Invariant) (event : RemoteEvent) :
    ∃ next, client.onWatchStreamChange event = some next ∧ next.Invariant ∧
      next.currentUser = client.currentUser ∧
      next.remoteStore.isNetworkEnabled = client.remoteStore.isNetworkEnabled ∧
      Silent client next := by
  rw [Client.onWatchStreamChange]
  split_ifs with ready
  · exact invariant.applyRemoteEvent ⟨fun _ => ready.2, fun zero => absurd zero ready.1⟩
  · exact ⟨client, rfl, invariant, rfl, rfl, .refl client⟩

/-- **Steps.** A possible event takes effect without a failing assertion, keeps the invariant,
and adds or answers the writes that it should. -/
theorem handle (invariant : client.Invariant) {event : ClientEvent Callback}
    (possible : client.Possible event) :
    ∃ next, client.handle event = some next ∧ next.Invariant ∧
      next.currentUser = event.userAfter client.currentUser ∧
      next.remoteStore.isNetworkEnabled =
        event.networkAfter client.remoteStore.isNetworkEnabled ∧
      Progress client event next := by
  cases event with
  | writeMutations mutations callback =>
      obtain ⟨next, written, kept, user, network, adds⟩ :=
        invariant.writeMutations possible callback
      exact ⟨next, written, kept, user, network, .adds rfl adds⟩
  | enableNetwork =>
      obtain ⟨next, enabled, kept, user, network, silent⟩ := invariant.enableNetwork
      exact ⟨next, enabled, kept, user, network, .reacts rfl silent⟩
  | disableNetwork =>
      obtain ⟨remote, disabled, kept, network⟩ := Sound.disableNetwork client
        invariant.remote.toLinked invariant.remote.fresh client.localStore.mutationQueue.queue
      exact ⟨_, disabled, ⟨invariant.toSound.withRemote remote, kept⟩, rfl, network,
        .reacts rfl (Silent.mk (fun _ => rfl) rfl)⟩
  | credentialChange user =>
      obtain ⟨next, changed, kept, current, network, silent⟩ :=
        invariant.handleCredentialChange user
      exact ⟨next, changed, kept, current, network, .reacts rfl silent⟩
  | token index status =>
      obtain ⟨next, handled, kept, user, network, silent⟩ := invariant.handleToken possible status
      exact ⟨next, handled, kept, user, network, .reacts rfl silent⟩
  | streamStart =>
      obtain ⟨remote, opened, kept, network⟩ := invariant.streamStart possible.1 possible.2
      refine ⟨client.withRemote remote, ?_, kept, rfl, network,
        .reacts rfl (Silent.mk (fun _ => rfl) rfl)⟩
      rw [Client.handle, opened, Option.map_some]
  | streamRead commitVersion mutationResults =>
      obtain ⟨next, handled, kept, user, network, reacts⟩ :=
        invariant.onStreamRead possible.1 possible.2
      exact ⟨next, handled, kept, user, network, .reacts rfl reacts⟩
  | streamFinish status =>
      cases status with
      | none =>
          obtain ⟨next, closed, kept, user, network, silent⟩ :=
            invariant.closeStream_none (possible.2 rfl)
          exact ⟨next, closed, kept, user, network, .reacts rfl silent⟩
      | some error =>
          have isStarted : client.remoteStore.writeStream.isStarted := by
            rcases invariant.remote.stream.connected possible.1 with state | state <;>
              simp [WriteStream.isStarted, WriteStream.isOpen, state]
          obtain ⟨next, closed, kept, user, network, reacts⟩ :=
            invariant.closeStream_error isStarted error
          exact ⟨next, closed, kept, user, network, .reacts rfl reacts⟩
  | idleTimeout =>
      obtain ⟨next, closed, kept, user, network, silent⟩ :=
        invariant.closeStream_none (invariant.remote.idle possible).2
      exact ⟨next, closed, kept, user, network, .reacts rfl silent⟩
  | backoffElapsed =>
      obtain ⟨stream, finished, kept⟩ := invariant.backoffElapsed possible
      refine ⟨client.withStream stream, ?_, kept, rfl, rfl,
        .reacts rfl (Silent.mk (fun _ => rfl) rfl)⟩
      rw [Client.handle, finished, Option.map_some]
  | watchChange event =>
      obtain ⟨next, handled, kept, user, network, silent⟩ := invariant.onWatchStreamChange event
      exact ⟨next, handled, kept, user, network, .reacts rfl silent⟩
  | rejectedListen limboKey =>
      have raised : (ClientEvent.rejectedListen limboKey : ClientEvent Callback).raised
          client.localStore.lastRemoteSnapshotVersion =
            some (.single 0 (.noDocument limboKey 0 false)) := rfl
      obtain ⟨next, handled, kept, user, network, silent⟩ :=
        invariant.applyRemoteEvent (raises_of_raised raised)
      exact ⟨next, handled, kept, user, network, .reacts rfl silent⟩

end Invariant

end Client

/-! ## Runs -/

/-- The possible events of the client. -/
def clientMachine (Callback : Type) : Machine (Client Callback) (ClientEvent Callback) where
  step client event := if client.Possible event then client.handle event else none

/-- The writes that a user makes in a run, in order. -/
def issuedBy {Callback : Type} (user : User) :
    User → List (ClientEvent Callback) → List (List Mutation × Callback)
  | _, [] => []
  | current, event :: events =>
      (if current = user then event.issued.toList else []) ++
        issuedBy user (event.userAfter current) events

namespace Client

variable {Callback : Type} {client next final : Client Callback} {event : ClientEvent Callback}

/-- One event keeps the invariant and moves the writes as it should. -/
theorem Invariant.step (invariant : client.Invariant)
    (stepped : (clientMachine Callback).step client event = some next) :
    next.Invariant ∧ next.currentUser = event.userAfter client.currentUser ∧
      Progress client event next := by
  obtain ⟨possible, handled⟩ := Option.ite_none_right_eq_some.mp stepped
  obtain ⟨other, again, kept, user, _, progress⟩ := invariant.handle possible
  cases again.symm.trans handled
  exact ⟨kept, user, progress⟩

/-- Later calls are answered after the earlier ones. -/
theorem answered_append {calls : List (User × Callback × Status)}
    (appended : next.calls = client.calls ++ calls) (user : User) :
    next.answered user = client.answered user ++
      (calls.filter fun call => call.1 = user).map fun call => call.2.1 := by
  rw [answered, appended, List.filter_append, List.map_append, answered]

/-- A step moves the first pending write to the answered ones, or adds one at the end. -/
theorem Progress.ledger (progress : Progress client event next) (user : User) :
    ∃ answered, client.pendingWrites user ++
        (if client.currentUser = user then event.issued.toList else []) =
          answered ++ next.pendingWrites user ∧
      next.answered user = client.answered user ++ answered.map Prod.snd := by
  cases progress with
  | adds issued adds =>
      refine ⟨[], ?_, by rw [answered, adds.calls, answered, List.map_nil, List.append_nil]⟩
      rw [List.nil_append, issued]
      split_ifs with own
      · subst own
        exact adds.current.symm
      · rw [List.append_nil, adds.others user (Ne.symm own)]
  | reacts issued reacts =>
      rw [issued, Option.toList_none, ite_self, List.append_nil]
      cases answer : client.answer event with
      | none =>
          rw [answer] at reacts
          exact ⟨[], by rw [List.nil_append, reacts.pending],
            by rw [answered, reacts.calls, answered, List.map_nil, List.append_nil]⟩
      | some status =>
          rw [answer] at reacts
          obtain ⟨write, pending, calls⟩ := reacts.current
          by_cases own : client.currentUser = user
          · subst own
            refine ⟨[write], pending, ?_⟩
            rw [answered_append calls, List.filter_singleton, decide_eq_true rfl]
            rfl
          · refine ⟨[], (reacts.others user (Ne.symm own)).symm, ?_⟩
            rw [answered_append calls, List.filter_singleton, decide_eq_false own]
            rfl

/-- Over a run, the writes that were pending or are made are answered or pending. -/
theorem Invariant.run (invariant : client.Invariant) {events : List (ClientEvent Callback)}
    (ran : (clientMachine Callback).run client events = some final) (user : User) :
    ∃ answered, client.pendingWrites user ++ issuedBy user client.currentUser events =
        answered ++ final.pendingWrites user ∧
      final.answered user = client.answered user ++ answered.map Prod.snd := by
  induction events generalizing client with
  | nil =>
      cases ran
      exact ⟨[], by rw [issuedBy, List.append_nil, List.nil_append],
        by rw [List.map_nil, List.append_nil]⟩
  | cons event events ih =>
      obtain ⟨next, stepped, rest⟩ := Machine.run_cons_inv ran
      obtain ⟨kept, current, progress⟩ := invariant.step stepped
      obtain ⟨first, moved, firstAnswered⟩ := progress.ledger user
      obtain ⟨later, laterMoved, laterAnswered⟩ := ih kept rest
      refine ⟨first ++ later, ?_, ?_⟩
      · rw [issuedBy, ← List.append_assoc, moved, List.append_assoc, ← current, laterMoved,
          List.append_assoc]
      · rw [laterAnswered, firstAnswered, List.map_append, List.append_assoc]

/-- Every pending batch has its callback. -/
theorem Sound.map_pendingWrites (sound : client.Sound) (user : User) :
    (client.pendingWrites user).map Prod.fst =
      (client.localStore.mutationQueues user).queue.map MutationBatch.mutations := by
  have registered : ∀ batch ∈ (client.localStore.mutationQueues user).queue,
      ((client.mutationCallbacks user).get? batch.batchId).isSome := fun batch member =>
    (sound.callbacks user batch.batchId).mpr ⟨batch, member, rfl⟩
  rw [pendingWrites]
  generalize (client.localStore.mutationQueues user).queue = batches at registered
  induction batches with
  | nil => rfl
  | cons batch batches ih =>
      obtain ⟨callback, found⟩ := Option.isSome_iff_exists.mp
        (registered batch List.mem_cons_self)
      rw [List.filterMap_cons, found, Option.map_some, List.map_cons, List.map_cons,
        ih fun other member => registered other (List.mem_cons_of_mem _ member)]

/-- Errors that callbacks get are permanent. -/
def PermanentErrors (client : Client Callback) : Prop :=
  ∀ call ∈ client.calls, ∀ error, call.2.2 = some error → error.isPermanentWriteError

/-- One event adds no call with a transient error. -/
theorem Progress.permanentErrors (progress : Progress client event next)
    (before : client.PermanentErrors) : next.PermanentErrors := by
  cases progress with
  | adds _ adds =>
      rw [PermanentErrors, adds.calls]
      exact before
  | reacts _ reacts =>
      cases answer : client.answer event with
      | none =>
          rw [answer] at reacts
          rw [PermanentErrors, reacts.calls]
          exact before
      | some status =>
          rw [answer] at reacts
          obtain ⟨write, _, calls⟩ := reacts.current
          rw [PermanentErrors, calls]
          intro call member error failed
          rcases List.mem_append.mp member with old | new
          · exact before call old error failed
          · rw [List.mem_singleton.mp new] at failed
            exact isPermanentWriteError_of_answer (answer.trans (congrArg some failed))

end Client

variable {Callback : Type} {user : User} {events : List (ClientEvent Callback)}
  {client : Client Callback}

/-- Every run keeps the invariant and calls callbacks with permanent errors only. -/
theorem invariant_of_clientRun
    (ran : (clientMachine Callback).run (.initial user) events = some client) :
    client.Invariant ∧ client.PermanentErrors := by
  have step : ∀ {client next : Client Callback} {event : ClientEvent Callback},
      client.Invariant ∧ client.PermanentErrors →
      (clientMachine Callback).step client event = some next →
      next.Invariant ∧ next.PermanentErrors := by
    intro client next event kept stepped
    obtain ⟨invariant, _, progress⟩ := kept.1.step stepped
    exact ⟨invariant, progress.permanentErrors kept.2⟩
  exact @Machine.invariant_of_run _ _ _ (fun client => client.Invariant ∧ client.PermanentErrors)
    step _ _ _ ⟨Client.initial_invariant user, fun _ member => absurd member List.not_mem_nil⟩ ran

/-- **Every write is answered once, in order.** Whatever the order of writes, users, network
changes, stream failures and responses, the writes of a user split into those whose callbacks
were called, in order, and those that are pending in the queue of the user. Errors that a
callback gets are permanent. -/
theorem writes_answered_in_order
    (ran : (clientMachine Callback).run (.initial user) events = some client) (other : User) :
    (∃ answered, issuedBy other user events = answered ++ client.pendingWrites other ∧
      client.answered other = answered.map Prod.snd) ∧
    (client.pendingWrites other).map Prod.fst =
      (client.localStore.mutationQueues other).queue.map MutationBatch.mutations ∧
    client.PermanentErrors := by
  obtain ⟨invariant, permanent⟩ := invariant_of_clientRun ran
  exact ⟨(Client.initial_invariant user).run ran other,
    invariant.toSound.map_pendingWrites other, permanent⟩

/-- The document of the examples. -/
def annKey : DocumentKey := ⟨["users", "ann"], rfl⟩

/-- A write whose stream fails once, and one that is rejected. -/
def failingStreamEvents : List (ClientEvent Nat) :=
  [.writeMutations [.set annKey [] .none] 7, .enableNetwork, .token 0 none,
    .streamStart, .streamRead 0 [], .streamFinish (some .unavailable), .backoffElapsed,
    .writeMutations [.delete annKey .none] 8, .token 0 none, .streamStart,
    .streamRead 0 [], .streamRead 5 [5], .streamFinish (some .permissionDenied)]

/-- The first write is acknowledged and the second refused, in this order. -/
theorem writes_answered_in_order_failingStreamEvents :
    ∃ client, (clientMachine Nat).run (.initial none) failingStreamEvents = some client ∧
      client.calls = [(none, 7, none), (none, 8, some .permissionDenied)] ∧
      ∃ answered, issuedBy none none failingStreamEvents =
          answered ++ client.pendingWrites none ∧
        client.answered none = answered.map Prod.snd := by
  have called : ((clientMachine Nat).run (.initial none) failingStreamEvents).map Client.calls =
      some [(none, 7, none), (none, 8, some .permissionDenied)] := by decide +kernel
  obtain ⟨client, ran, calls⟩ := Option.map_eq_some_iff.mp called
  exact ⟨client, ran, calls, (writes_answered_in_order ran none).1⟩

end Bowfolio.Firestore
