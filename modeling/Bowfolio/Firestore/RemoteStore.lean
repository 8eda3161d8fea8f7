import Bowfolio.Firestore.LocalStore
import Bowfolio.Firestore.WriteStream

/-!
# The write pipeline

The remote store keeps the first pending batches in a pipeline and sends them over the write
stream in order. It fills the pipeline up whenever a slot is free, and starts the stream when
there is something to send.
-/

namespace Bowfolio.Firestore

/-- `kMaxPendingWrites`. -/
def kMaxPendingWrites : Nat := 10

/-- The side of `RemoteStore` that writes. -/
structure RemoteStore where
  isNetworkEnabled : Bool
  writePipeline : List MutationBatch
  writeStream : WriteStream

namespace RemoteStore

/-- The store before `RemoteStore::Start` enables the network. -/
def initial : RemoteStore := ⟨false, [], .initial⟩

variable (remote : RemoteStore)

/-- `RemoteStore::CanAddToWritePipeline`. -/
def canAddToWritePipeline : Bool :=
  remote.isNetworkEnabled && remote.writePipeline.length < kMaxPendingWrites

/-- `RemoteStore::ShouldStartWriteStream`. -/
def shouldStartWriteStream : Bool :=
  remote.isNetworkEnabled && !remote.writeStream.isStarted && !remote.writePipeline.isEmpty

/-- `RemoteStore::AddToWritePipeline`, without a result when an assertion fails. -/
def addToWritePipeline (batch : MutationBatch) : Option RemoteStore :=
  if remote.canAddToWritePipeline then
    let next := { remote with writePipeline := remote.writePipeline ++ [batch] }
    if remote.writeStream.isOpen && remote.writeStream.handshakeComplete then
      (remote.writeStream.writeMutations batch.mutations).map fun writeStream =>
        { next with writeStream }
    else some next
  else none

/-- `RemoteStore::StartWriteStream`, when `ShouldStartWriteStream`. -/
def startWriteStreamIfNeeded : Option RemoteStore :=
  if remote.shouldStartWriteStream then
    remote.writeStream.start.map fun writeStream => { remote with writeStream }
  else some remote

/-- The last batch in the pipeline, or `kBatchIdUnknown`. -/
def lastBatchId (batches : List MutationBatch) : Int :=
  match batches.getLast? with
  | none => -1
  | some batch => batch.batchId

/-- The loop of `RemoteStore::FillWritePipeline` over the free slots. -/
def fillSlots (localStore : LocalStore) : Nat → Int → RemoteStore → Option RemoteStore
  | 0, _, remote => some remote
  | slots + 1, lastBatchIdRetrieved, remote =>
      match localStore.getNextMutationBatch lastBatchIdRetrieved with
      | none =>
          if remote.writePipeline = [] then
            some { remote with writeStream := remote.writeStream.markIdle }
          else some remote
      | some batch =>
          (remote.addToWritePipeline batch).bind fun next =>
            fillSlots localStore slots batch.batchId next

/-- `RemoteStore::FillWritePipeline`. -/
def fillWritePipeline (localStore : LocalStore) : Option RemoteStore :=
  (fillSlots localStore
      (if remote.isNetworkEnabled then kMaxPendingWrites - remote.writePipeline.length else 0)
      (lastBatchId remote.writePipeline) remote).bind startWriteStreamIfNeeded

/-- `RemoteStore::OnWriteStreamOpen` after `Stream::OnStreamStart`. -/
def onWriteStreamOpen : Option RemoteStore :=
  { remote.writeStream with state := .opened }.writeHandshake.map fun writeStream =>
    { remote with writeStream }

/-- `RemoteStore::OnWriteStreamHandshakeComplete`, which sends the pipeline. -/
def onWriteStreamHandshakeComplete : Option RemoteStore :=
  (remote.writePipeline.foldlM
      (fun (stream : WriteStream) batch => stream.writeMutations batch.mutations)
      remote.writeStream).map fun writeStream => { remote with writeStream }

/-- The stream without the first request that has no response. -/
def responded : RemoteStore :=
  { remote with writeStream := { remote.writeStream with
      grpcStream := remote.writeStream.grpcStream.map List.tail } }

/-- The stream after the first response. -/
def handshaken : RemoteStore :=
  { remote with writeStream := { remote.writeStream with handshakeComplete := true } }

/-- The pipeline without its first batch. -/
def shifted : RemoteStore :=
  { remote with writePipeline := remote.writePipeline.tail }

/-- `Stream::Close` up to the notification of the remote store. -/
def closed (status : Status) : RemoteStore :=
  { remote with writeStream := remote.writeStream.closeConnection status }

/-- The end of `WriteStream::NotifyStreamClose`. -/
def handshakeReset : RemoteStore :=
  { remote with writeStream := { remote.writeStream with handshakeComplete := false } }

/-! ## Stream and pipeline -/

/-- The requests that an open stream waits for the responses of. -/
def unanswered : List WriteRequest :=
  if remote.writeStream.handshakeComplete then
    remote.writePipeline.map fun batch => .mutations batch.mutations
  else [.handshake]

/-- The stream carries the requests of the pipeline, and without any it is idle or stopped. -/
structure Linked : Prop where
  stream : remote.writeStream.Valid
  requests : remote.writeStream.isOpen → remote.writeStream.grpcStream = some remote.unanswered
  pending : remote.writeStream.isStarted →
    remote.writeStream.isOpen ∧ remote.writeStream.handshakeComplete ∨ remote.writePipeline ≠ []
  idle : remote.writeStream.idlenessTimer →
    remote.writeStream.handshakeComplete ∧ remote.writePipeline = []

/-- Between events the pipeline also holds the first pending batches while the network is
enabled, with the stream started to send them. -/
structure Invariant (queue : List MutationBatch) : Prop extends remote.Linked where
  pipeline : remote.writePipeline =
    if remote.isNetworkEnabled then queue.take kMaxPendingWrites else []
  started : remote.writePipeline ≠ [] → remote.writeStream.isStarted
  stopped : remote.isNetworkEnabled = false → remote.writeStream.isStarted = false
  fresh : remote.writeStream.isOpen = false → remote.writeStream.handshakeComplete = false

variable {remote} {localStore : LocalStore}

theorem initial_invariant (queue : List MutationBatch) : initial.Invariant queue where
  stream := .initial
  requests := by intro isOpen; cases isOpen
  pending := by intro isStarted; cases isStarted
  idle := by intro timer; cases timer
  pipeline := rfl
  started := fun nonempty => absurd rfl nonempty
  stopped := fun _ => rfl
  fresh := fun _ => rfl

/-! ### The next batch -/

/-- The last batch of a pipeline is the one that joined it last. -/
theorem lastBatchId_append (batches : List MutationBatch) (batch : MutationBatch) :
    lastBatchId (batches ++ [batch]) = batch.batchId := by
  rw [lastBatchId, List.getLast?_concat]

/-- The first batch after those of the pipeline is the one at its length. -/
theorem find_after_take {batches : List MutationBatch}
    (sorted : batches.Pairwise fun first second => first.batchId < second.batchId) (count : Nat) :
    (batches.find? fun batch => lastBatchId (batches.take count) < batch.batchId) =
      batches[count]? := by
  have below : ∀ batch ∈ batches.take count,
      ¬ lastBatchId (batches.take count) < batch.batchId := by
    have sortedTake := sorted.sublist (List.take_sublist count batches)
    cases last : (batches.take count).getLast? with
    | none =>
        rw [List.getLast?_eq_none_iff.mp last]
        exact fun _ member => absurd member List.not_mem_nil
    | some final =>
        intro batch member above
        rw [lastBatchId, last] at above
        obtain ⟨front, split⟩ := List.getLast?_eq_some_iff.mp last
        rw [split] at sortedTake member
        rcases List.mem_append.mp member with earlier | same
        · have before := (List.pairwise_append.mp sortedTake).2.2 batch earlier final
            List.mem_cons_self
          dsimp only at above
          omega
        · rw [List.mem_singleton.mp same] at above
          exact lt_irrefl _ above
  have above : ∀ batch ∈ batches.drop count,
      lastBatchId (batches.take count) < batch.batchId := by
    intro batch member
    cases last : (batches.take count).getLast? with
    | none =>
        rw [lastBatchId, last]
        dsimp only
        omega
    | some final =>
        rw [lastBatchId, last]
        rw [← List.take_append_drop count batches] at sorted
        exact Int.ofNat_lt.mpr ((List.pairwise_append.mp sorted).2.2 final
          (List.mem_of_getLast? last) batch member)
  have found : ((batches.take count ++ batches.drop count).find? fun batch =>
      lastBatchId (batches.take count) < batch.batchId) = batches[count]? := by
    rw [List.find?_append, List.find?_eq_none.mpr fun batch member =>
      fun matching => below batch member (of_decide_eq_true matching), Option.none_or]
    cases rest : batches.drop count with
    | nil =>
        rw [List.find?_nil, List.getElem?_eq_none (List.drop_eq_nil_iff.mp rest)]
    | cons head tail =>
        have first := above head (rest ▸ List.mem_cons_self)
        rw [List.find?_cons, decide_eq_true first, ← List.head?_drop, rest, List.head?_cons]
  rwa [List.take_append_drop] at found

/-! ### Filling the pipeline -/

namespace Linked

theorem isStarted_of_isOpen {stream : WriteStream} (isOpen : stream.isOpen) : stream.isStarted := by
  rw [WriteStream.isStarted, isOpen, Bool.or_true]

/-- A batch that fits goes to the end of the pipeline, and to the stream if that is ready. -/
theorem addToWritePipeline (linked : Linked remote) (batch : MutationBatch)
    (fits : remote.canAddToWritePipeline) :
    ∃ next, remote.addToWritePipeline batch = some next ∧ Linked next ∧
      next.writePipeline = remote.writePipeline ++ [batch] ∧
      next.isNetworkEnabled = remote.isNetworkEnabled ∧
      next.writeStream.state = remote.writeStream.state ∧
      next.writeStream.handshakeComplete = remote.writeStream.handshakeComplete := by
  have nonempty : remote.writePipeline ++ [batch] ≠ [] := List.append_ne_nil_of_right_ne_nil _
    (List.cons_ne_nil _ _)
  by_cases ready : (remote.writeStream.isOpen && remote.writeStream.handshakeComplete) = true
  · obtain ⟨isOpen, complete⟩ := Bool.and_eq_true_iff.mp ready
    obtain ⟨written, valid⟩ := linked.stream.write isOpen (.mutations batch.mutations)
      (linked.requests isOpen)
    refine ⟨{ remote with
        writePipeline := remote.writePipeline ++ [batch]
        writeStream := { remote.writeStream with
          idlenessTimer := false
          grpcStream := some (remote.unanswered ++ [.mutations batch.mutations]) } },
      ?_, ⟨valid, fun _ => ?_, fun _ => .inr nonempty, ?_⟩, rfl, rfl, rfl, rfl⟩
    · rw [RemoteStore.addToWritePipeline, if_pos fits]
      dsimp only
      rw [if_pos ready, WriteStream.writeMutations, if_pos complete, written, Option.map_some]
    · simp only [unanswered, complete, ↓reduceIte, List.map_append, List.map_cons, List.map_nil]
    · intro timer
      cases timer
  · refine ⟨{ remote with writePipeline := remote.writePipeline ++ [batch] }, ?_,
      ⟨linked.stream, fun isOpen => ?_, fun _ => .inr nonempty, ?_⟩, rfl, rfl, rfl, rfl⟩
    · rw [RemoteStore.addToWritePipeline, if_pos fits, if_neg ready]
    · have incomplete : ¬ remote.writeStream.handshakeComplete := fun complete =>
        ready (Bool.and_eq_true_iff.mpr ⟨isOpen, complete⟩)
      have requests := linked.requests isOpen
      rw [unanswered, if_neg incomplete] at requests
      exact requests.trans (by rw [unanswered, if_neg incomplete])
    · intro timer
      have able := Bool.and_eq_true_iff.mpr ⟨linked.stream.idle timer, (linked.idle timer).1⟩
      exact absurd able ready

/-- An empty pipeline makes the stream idle. -/
theorem markIdle (linked : Linked remote) (bare : remote.writePipeline = []) :
    Linked { remote with writeStream := remote.writeStream.markIdle } ∧
      remote.writeStream.markIdle.state = remote.writeStream.state ∧
      remote.writeStream.markIdle.handshakeComplete = remote.writeStream.handshakeComplete := by
  have valid := linked.stream.markIdle
  rw [WriteStream.markIdle] at valid ⊢
  split_ifs at valid ⊢ with idle
  · have isOpen := (Bool.and_eq_true_iff.mp idle).1
    have complete : remote.writeStream.handshakeComplete := by
      rcases linked.pending (isStarted_of_isOpen isOpen) with ready | nonempty
      · exact ready.2
      · exact absurd bare nonempty
    exact ⟨⟨valid, linked.requests, linked.pending, fun _ => ⟨complete, bare⟩⟩, rfl, rfl⟩
  · exact ⟨linked, rfl, rfl⟩

/-- The free slots take the next batches. -/
theorem fillSlots (slots : Nat) (linked : Linked remote) (enabled : remote.isNetworkEnabled)
    (invariant : localStore.Invariant)
    (filled : remote.writePipeline.length + slots = kMaxPendingWrites)
    (pipeline : remote.writePipeline =
      localStore.mutationQueue.queue.take remote.writePipeline.length) :
    ∃ next, RemoteStore.fillSlots localStore slots (lastBatchId remote.writePipeline) remote =
        some next ∧ Linked next ∧
      next.writePipeline = localStore.mutationQueue.queue.take kMaxPendingWrites ∧
      next.isNetworkEnabled ∧ next.writeStream.state = remote.writeStream.state ∧
      next.writeStream.handshakeComplete = remote.writeStream.handshakeComplete := by
  induction slots generalizing remote with
  | zero =>
      rw [Nat.add_zero] at filled
      exact ⟨remote, rfl, linked, filled ▸ pipeline, enabled, rfl, rfl⟩
  | succ slots ih =>
      have retrieved : localStore.getNextMutationBatch (lastBatchId remote.writePipeline) =
          localStore.mutationQueue.queue[remote.writePipeline.length]? := by
        rw [LocalStore.getNextMutationBatch, invariant.current.nextMutationBatchAfterBatchId,
          ← find_after_take invariant.current.sorted, ← pipeline]
      cases found : localStore.mutationQueue.queue[remote.writePipeline.length]? with
      | none =>
          have short := List.getElem?_eq_none_iff.mp found
          have whole : remote.writePipeline =
              localStore.mutationQueue.queue.take kMaxPendingWrites := by
            rw [pipeline, List.take_of_length_le short, List.take_of_length_le (by omega)]
          rw [RemoteStore.fillSlots, retrieved, found]
          dsimp only
          split_ifs with bare
          · obtain ⟨idle, state, handshake⟩ := linked.markIdle bare
            exact ⟨_, rfl, idle, whole, enabled, state, handshake⟩
          · exact ⟨remote, rfl, linked, whole, enabled, rfl, rfl⟩
      | some batch =>
          have fits : remote.canAddToWritePipeline := by
            rw [canAddToWritePipeline, enabled, Bool.true_and]
            exact decide_eq_true (by omega)
          obtain ⟨next, added, nextLinked, appended, sameNetwork, state, handshake⟩ :=
            linked.addToWritePipeline batch fits
          have longer : next.writePipeline.length = remote.writePipeline.length + 1 := by
            rw [appended, List.length_append, List.length_singleton]
          have taken : next.writePipeline =
              localStore.mutationQueue.queue.take next.writePipeline.length := by
            obtain ⟨bound, same⟩ := List.getElem?_eq_some_iff.mp found
            rw [longer, List.take_succ_eq_append_getElem bound, same, ← pipeline, appended]
          obtain ⟨final, rest, finalLinked, whole, stillEnabled, finalState, finalHandshake⟩ :=
            ih nextLinked (sameNetwork ▸ enabled) (by omega) taken
          refine ⟨final, ?_, finalLinked, whole, stillEnabled, finalState.trans state,
            finalHandshake.trans handshake⟩
          rw [appended, lastBatchId_append] at rest
          rw [RemoteStore.fillSlots, retrieved, found]
          dsimp only
          rw [added, Option.bind_some, rest]

/-- The stream is started when the pipeline needs it. -/
theorem startWriteStreamIfNeeded (linked : Linked remote) :
    ∃ next, remote.startWriteStreamIfNeeded = some next ∧ Linked next ∧
      next.writePipeline = remote.writePipeline ∧
      next.isNetworkEnabled = remote.isNetworkEnabled ∧
      next.writeStream.isOpen = remote.writeStream.isOpen ∧
      next.writeStream.handshakeComplete = remote.writeStream.handshakeComplete ∧
      (remote.isNetworkEnabled → remote.writePipeline ≠ [] → next.writeStream.isStarted) := by
  rw [RemoteStore.startWriteStreamIfNeeded]
  split_ifs with needed
  · simp only [shouldStartWriteStream, Bool.and_eq_true, Bool.not_eq_true',
      List.isEmpty_eq_false_iff] at needed
    obtain ⟨⟨_, stopped⟩, nonempty⟩ := needed
    obtain ⟨next, started, valid, isStarted, closed, handshake⟩ := linked.stream.start stopped
    have wasClosed : remote.writeStream.isOpen = false := WriteStream.isOpen_of_stopped stopped
    refine ⟨{ remote with writeStream := next }, ?_, ⟨valid, fun isOpen => ?_,
      fun _ => .inr nonempty, fun timer => ?_⟩, rfl, rfl, closed.trans wasClosed.symm, handshake,
      fun _ _ => isStarted⟩
    · rw [started, Option.map_some]
    · rw [closed] at isOpen
      cases isOpen
    · have isOpen := valid.idle timer
      rw [closed] at isOpen
      cases isOpen
  · refine ⟨remote, rfl, linked, rfl, rfl, rfl, rfl, fun enabled nonempty => ?_⟩
    refine Bool.of_not_eq_false fun stopped => needed ?_
    rw [shouldStartWriteStream, enabled, stopped, List.isEmpty_eq_false_iff.mpr nonempty]
    rfl

/-- With the network enabled, the pipeline takes the first pending batches. -/
theorem fillWritePipeline (linked : Linked remote) (enabled : remote.isNetworkEnabled)
    (invariant : localStore.Invariant) (fits : remote.writePipeline.length ≤ kMaxPendingWrites)
    (pipeline : remote.writePipeline =
      localStore.mutationQueue.queue.take remote.writePipeline.length) :
    ∃ next, remote.fillWritePipeline localStore = some next ∧ Linked next ∧
      next.isNetworkEnabled ∧
      next.writePipeline = localStore.mutationQueue.queue.take kMaxPendingWrites ∧
      (next.writePipeline ≠ [] → next.writeStream.isStarted) ∧
      next.writeStream.isOpen = remote.writeStream.isOpen ∧
      next.writeStream.handshakeComplete = remote.writeStream.handshakeComplete := by
  obtain ⟨filled, slots, filledLinked, whole, stillEnabled, state, handshake⟩ :=
    linked.fillSlots (kMaxPendingWrites - remote.writePipeline.length) enabled invariant
      (by omega) pipeline
  obtain ⟨next, started, nextLinked, samePipeline, sameNetwork, isOpen, sameHandshake, isStarted⟩ :=
    filledLinked.startWriteStreamIfNeeded
  refine ⟨next, ?_, nextLinked, sameNetwork ▸ stillEnabled, samePipeline.trans whole,
    fun nonempty => isStarted stillEnabled (samePipeline ▸ nonempty), ?_,
    sameHandshake.trans handshake⟩
  · rw [RemoteStore.fillWritePipeline, if_pos enabled, slots, Option.bind_some, started]
  · rw [isOpen, WriteStream.isOpen, state, WriteStream.isOpen]

/-! ### The connection -/

/-- An opened stream sends the handshake. -/
theorem onWriteStreamOpen (linked : Linked remote) (starting : remote.writeStream.state = .starting)
    (connected : remote.writeStream.grpcStream = some [])
    (fresh : remote.writeStream.handshakeComplete = false) :
    ∃ next, remote.onWriteStreamOpen = some next ∧ Linked next ∧
      next.writePipeline = remote.writePipeline ∧
      next.isNetworkEnabled = remote.isNetworkEnabled ∧ next.writeStream.isOpen := by
  have notOpen : remote.writeStream.isOpen = false := by
    rw [WriteStream.isOpen, starting]
    rfl
  have noTimer : remote.writeStream.idlenessTimer = false := by
    refine Bool.eq_false_iff.mpr fun timer => ?_
    rw [linked.stream.idle timer] at notOpen
    cases notOpen
  have nonempty : remote.writePipeline ≠ [] := by
    have isStarted : remote.writeStream.isStarted := by
      rw [WriteStream.isStarted, starting]
      rfl
    rcases linked.pending isStarted with ready | nonempty
    · rw [notOpen] at ready
      cases ready.1
    · exact nonempty
  have opened : WriteStream.Valid { remote.writeStream with state := .opened } := by
    refine ⟨fun _ => by rw [connected]; rfl, fun _ => .inr rfl, fun _ => rfl, ?_,
      linked.stream.tokens, fun member => ?_, linked.stream.distinct⟩
    · have noBackoff : ¬ remote.writeStream.backoffTimer := fun timer => by
        have backoff := linked.stream.backoff.mp timer
        rw [starting] at backoff
        cases backoff
      simp [noBackoff]
    · have bare := (linked.stream.current member).2
      rw [connected] at bare
      cases bare
  obtain ⟨written, valid⟩ := opened.write rfl .handshake connected
  refine ⟨{ remote with writeStream := { remote.writeStream with
      state := .opened, idlenessTimer := false, grpcStream := some [.handshake] } },
    ?_, ⟨valid, fun _ => ?_, fun _ => .inr nonempty, ?_⟩, rfl, rfl, rfl⟩
  · have sent : WriteStream.writeHandshake { remote.writeStream with state := .opened } =
        WriteStream.write { remote.writeStream with state := .opened } .handshake :=
      if_neg (Bool.not_eq_true _ ▸ fresh)
    rw [RemoteStore.onWriteStreamOpen, sent, written]
    rfl
  · rw [unanswered]
    dsimp only
    rw [fresh, if_neg Bool.false_ne_true]
  · intro timer
    cases timer

/-- A ready stream takes the requests of batches. -/
theorem writeEach (batches : List MutationBatch) {stream : WriteStream} (valid : stream.Valid)
    (isOpen : stream.isOpen) (complete : stream.handshakeComplete)
    (noTimer : stream.idlenessTimer = false) {requests : List WriteRequest}
    (connected : stream.grpcStream = some requests) :
    ∃ next, batches.foldlM
        (fun (stream : WriteStream) batch => stream.writeMutations batch.mutations) stream =
        some next ∧ next.Valid ∧
      next.grpcStream = some (requests ++ batches.map fun batch => .mutations batch.mutations) ∧
      next.isOpen ∧ next.handshakeComplete ∧ next.idlenessTimer = false := by
  induction batches generalizing stream requests with
  | nil =>
      refine ⟨stream, rfl, valid, ?_, isOpen, complete, noTimer⟩
      rw [connected, List.map_nil, List.append_nil]
  | cons batch batches ih =>
      obtain ⟨written, nextValid⟩ := valid.write isOpen (.mutations batch.mutations) connected
      obtain ⟨final, rest, finalValid, appended, finalOpen, finalComplete, finalTimer⟩ :=
        ih nextValid isOpen complete rfl rfl
      refine ⟨final, ?_, finalValid, ?_, finalOpen, finalComplete, finalTimer⟩
      · rw [List.foldlM_cons, WriteStream.writeMutations, if_pos complete, written,
          Option.bind_eq_bind, Option.bind_some, rest]
      · rw [appended, List.append_assoc, List.map_cons, List.singleton_append]

/-- After the handshake the whole pipeline is sent. -/
theorem onWriteStreamHandshakeComplete (linked : Linked remote) (isOpen : remote.writeStream.isOpen)
    (incomplete : remote.writeStream.handshakeComplete = false) :
    ∃ next, remote.responded.handshaken.onWriteStreamHandshakeComplete = some next ∧ Linked next ∧
      next.writePipeline = remote.writePipeline ∧
      next.isNetworkEnabled = remote.isNetworkEnabled ∧ next.writeStream.isOpen := by
  have requests := linked.requests isOpen
  rw [unanswered, incomplete, if_neg Bool.false_ne_true] at requests
  have noTimer : remote.writeStream.idlenessTimer = false := by
    refine Bool.eq_false_iff.mpr fun timer => ?_
    have complete := (linked.idle timer).1
    rw [incomplete] at complete
    cases complete
  have valid : WriteStream.Valid remote.responded.handshaken.writeStream := by
    refine ⟨fun _ => ?_, fun _ => .inr (of_decide_eq_true isOpen), linked.stream.idle,
      linked.stream.backoff, linked.stream.tokens, fun member => ?_, linked.stream.distinct⟩
    · rw [handshaken, responded]
      dsimp only
      rw [requests]
      rfl
    · have bare := (linked.stream.current member).2
      rw [requests] at bare
      cases bare
  obtain ⟨stream, written, streamValid, sent, stillOpen, complete, stillNoTimer⟩ :=
    writeEach remote.writePipeline valid isOpen rfl noTimer
      (show remote.responded.handshaken.writeStream.grpcStream = some [] by
        rw [handshaken, responded]
        dsimp only
        rw [requests]
        rfl)
  refine ⟨{ remote with writeStream := stream }, ?_, ⟨streamValid, fun _ => ?_,
    fun _ => .inl ⟨stillOpen, complete⟩, fun timer => ?_⟩, rfl, rfl, stillOpen⟩
  · rw [RemoteStore.onWriteStreamHandshakeComplete]
    exact (congrArg _ written).trans rfl
  · rw [sent, unanswered, if_pos complete, List.nil_append]
  · rw [stillNoTimer] at timer
    cases timer

/-- The response to a write leaves the stream and the pipeline without it. -/
theorem responded_shifted (linked : Linked remote) (isOpen : remote.writeStream.isOpen)
    (complete : remote.writeStream.handshakeComplete) (nonempty : remote.writePipeline ≠ []) :
    Linked remote.responded.shifted := by
  have requests := linked.requests isOpen
  rw [unanswered, if_pos complete] at requests
  refine ⟨⟨fun _ => ?_, fun _ => .inr (of_decide_eq_true isOpen), linked.stream.idle,
    linked.stream.backoff, linked.stream.tokens, fun member => ?_, linked.stream.distinct⟩,
    fun _ => ?_, fun _ => .inl ⟨isOpen, complete⟩, fun timer => ?_⟩
  · rw [shifted, responded]
    dsimp only
    rw [requests]
    rfl
  · have bare := (linked.stream.current member).2
    rw [requests] at bare
    cases bare
  · rw [unanswered, shifted, responded]
    dsimp only
    rw [if_pos complete, requests, Option.map_some, List.map_tail]
  · exact absurd (linked.idle timer).2 nonempty

/-- A closed stream carries nothing. -/
theorem closed (linked : Linked remote) (status : Status) :
    Linked (remote.closed status) ∧ (remote.closed status).writeStream.isStarted = false := by
  obtain ⟨valid, stopped⟩ := linked.stream.closeConnection status
  have notOpen : (remote.closed status).writeStream.isOpen = false :=
    WriteStream.isOpen_of_stopped stopped
  refine ⟨⟨valid, fun isOpen => ?_, fun isStarted => ?_, fun timer => ?_⟩, stopped⟩
  · rw [notOpen] at isOpen
    cases isOpen
  · rw [show (remote.closed status).writeStream.isStarted = false from stopped] at isStarted
    cases isStarted
  · cases timer

/-- The handshake of a stream that is not open does not matter. -/
theorem handshakeReset (linked : Linked remote) (notOpen : remote.writeStream.isOpen = false) :
    Linked remote.handshakeReset := by
  refine ⟨⟨linked.stream.opened, linked.stream.connected, linked.stream.idle,
    linked.stream.backoff, linked.stream.tokens, linked.stream.current, linked.stream.distinct⟩,
    fun isOpen => ?_, fun isStarted => ?_, fun timer => ?_⟩
  · rw [show remote.handshakeReset.writeStream.isOpen = false from notOpen] at isOpen
    cases isOpen
  · rcases linked.pending isStarted with ready | nonempty
    · rw [notOpen] at ready
      cases ready.1
    · exact .inr nonempty
  · rw [linked.stream.idle timer] at notOpen
    cases notOpen

end Linked

/-! ### Between events -/

/-- A stream that was closed starts again when the pipeline needs it. -/
theorem Linked.reopen (linked : Linked remote) {queue : List MutationBatch}
    (enabled : remote.isNetworkEnabled) (notOpen : remote.writeStream.isOpen = false)
    (pipeline : remote.writePipeline = queue.take kMaxPendingWrites) :
    ∃ next, remote.startWriteStreamIfNeeded = some next ∧ next.handshakeReset.Invariant queue ∧
      next.isNetworkEnabled := by
  obtain ⟨next, restarted, nextLinked, samePipeline, sameNetwork, sameOpen, _, isStarted⟩ :=
    linked.startWriteStreamIfNeeded
  have stillEnabled : next.isNetworkEnabled := sameNetwork ▸ enabled
  refine ⟨next, restarted, ⟨nextLinked.handshakeReset (sameOpen.trans notOpen), ?_,
    fun nonempty => isStarted enabled (samePipeline ▸ nonempty), fun disabled => ?_,
    fun _ => rfl⟩, stillEnabled⟩
  · exact samePipeline.trans (pipeline.trans (if_pos stillEnabled).symm)
  · rw [show next.isNetworkEnabled = false from disabled] at stillEnabled
    cases stillEnabled

namespace Invariant

variable {queue : List MutationBatch}

/-- A stream is only started while the network is enabled. -/
theorem isNetworkEnabled (invariant : remote.Invariant queue)
    (isStarted : remote.writeStream.isStarted) : remote.isNetworkEnabled := by
  refine Bool.of_not_eq_false fun disabled => ?_
  rw [invariant.stopped disabled] at isStarted
  cases isStarted

/-- A longer queue fills the pipeline up. -/
theorem fillWritePipeline (invariant : remote.Invariant queue) (store : localStore.Invariant)
    (longer : queue <+: localStore.mutationQueue.queue) :
    ∃ next, remote.fillWritePipeline localStore = some next ∧
      next.Invariant localStore.mutationQueue.queue ∧
      next.isNetworkEnabled = remote.isNetworkEnabled := by
  by_cases enabled : remote.isNetworkEnabled
  · have pipeline := invariant.pipeline
    rw [if_pos enabled] at pipeline
    have taken : remote.writePipeline <+: localStore.mutationQueue.queue :=
      pipeline ▸ (List.take_prefix _ _).trans longer
    have fits : remote.writePipeline.length ≤ kMaxPendingWrites := by
      rw [pipeline]
      exact List.length_take_le ..
    obtain ⟨next, filled, linked, stillEnabled, whole, started, isOpen, handshake⟩ :=
      invariant.toLinked.fillWritePipeline enabled store fits (List.prefix_iff_eq_take.mp taken)
    refine ⟨next, filled, ⟨linked, by rw [if_pos stillEnabled, whole], started,
      fun disabled => ?_, fun closed => ?_⟩, stillEnabled.trans enabled.symm⟩
    · rw [disabled] at stillEnabled
      cases stillEnabled
    · rw [handshake]
      exact invariant.fresh (isOpen ▸ closed)
  · have disabled := Bool.eq_false_iff.mpr enabled
    have pipeline := invariant.pipeline
    rw [if_neg enabled] at pipeline
    have same : remote.fillWritePipeline localStore = some remote := by
      rw [RemoteStore.fillWritePipeline, if_neg enabled, fillSlots, Option.bind_some,
        RemoteStore.startWriteStreamIfNeeded, shouldStartWriteStream, disabled]
      rfl
    exact ⟨remote, same, ⟨invariant.toLinked, by rw [if_neg enabled, pipeline],
      invariant.started, invariant.stopped, invariant.fresh⟩, rfl⟩

end Invariant

end RemoteStore

end Bowfolio.Firestore
