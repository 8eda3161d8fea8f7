import Bowfolio.Firestore.Mutation

/-!
# The write stream

A stream waits for credentials, opens a connection, and backs off after an error. Tokens that
arrive after the stream was closed belong to an older start and are ignored, which the count
of closes tells apart. The write stream sends a handshake before any mutations.
-/

namespace Bowfolio.Firestore

/-- The codes of `Error` but `kErrorOk`. -/
inductive ErrorCode where
  | cancelled
  | unknown
  | invalidArgument
  | deadlineExceeded
  | notFound
  | alreadyExists
  | permissionDenied
  | resourceExhausted
  | failedPrecondition
  | aborted
  | outOfRange
  | unimplemented
  | internal
  | unavailable
  | dataLoss
  | unauthenticated
  deriving DecidableEq, Repr

/-- `Status`: OK or an error. -/
abbrev Status := Option ErrorCode

/-- `Datastore::IsPermanentError`. -/
def ErrorCode.isPermanentError : ErrorCode → Bool
  | .cancelled | .unknown | .deadlineExceeded | .resourceExhausted | .internal | .unavailable
  | .unauthenticated => false
  | .invalidArgument | .notFound | .alreadyExists | .permissionDenied | .failedPrecondition
  | .aborted | .outOfRange | .unimplemented | .dataLoss => true

/-- `Datastore::IsPermanentWriteError`. -/
def ErrorCode.isPermanentWriteError (error : ErrorCode) : Bool :=
  error.isPermanentError && error ≠ .aborted

/-- `Stream::State`. -/
inductive StreamState where
  | initial
  | starting
  | opened
  | error
  | backoff
  deriving DecidableEq, Repr

/-- A request on the connection. -/
inductive WriteRequest where
  | handshake
  | mutations (mutations : List Mutation)
  deriving DecidableEq

/-- A response answers a handshake, or mutations with a result for each of them. -/
def WriteRequest.answeredBy (commitVersion : SnapshotVersion)
    (mutationResults : List SnapshotVersion) : WriteRequest → Bool
  | .handshake => true
  | .mutations sent => sent.length = mutationResults.length && 0 < commitVersion

/-- `WriteStream`. The connection is the list of the requests that have no response yet. A
request for a token keeps the count of closes at its time. -/
structure WriteStream where
  state : StreamState
  handshakeComplete : Bool
  idlenessTimer : Bool
  backoffTimer : Bool
  grpcStream : Option (List WriteRequest)
  closeCount : Nat
  tokenRequests : List Nat

namespace WriteStream

/-- A stream that was never started. -/
def initial : WriteStream := ⟨.initial, false, false, false, none, 0, []⟩

variable (stream : WriteStream)

/-- `Stream::IsOpen`. -/
def isOpen : Bool := stream.state = .opened

/-- `Stream::IsStarted`. -/
def isStarted : Bool :=
  stream.state = .starting || stream.state = .backoff || stream.isOpen

/-- `Stream::Start`, which asserts that the stream is not started. -/
def start : Option WriteStream :=
  match stream.state with
  | .error => some { stream with state := .backoff, backoffTimer := true }
  | .initial =>
      some { stream with
        state := .starting
        tokenRequests := stream.tokenRequests ++ [stream.closeCount] }
  | .starting | .opened | .backoff => none

/-- The end of the delay in `Stream::BackoffAndTryRestarting`. -/
def finishBackoff : Option WriteStream :=
  if stream.state = .backoff then
    { stream with state := .initial, backoffTimer := false }.start
  else none

/-- `Stream::InhibitBackoff`, which asserts that the stream is not started. -/
def inhibitBackoff : Option WriteStream :=
  if stream.isStarted then none else some { stream with state := .initial }

/-- `Stream::MarkIdle`. -/
def markIdle : WriteStream :=
  if stream.isOpen && !stream.idlenessTimer then { stream with idlenessTimer := true } else stream

/-- `Stream::ResumeStartWithCredentials` with a token. -/
def resumeStartWithCredentials : Option WriteStream :=
  if stream.state = .starting then some { stream with grpcStream := some [] } else none

/-- `Stream::Write`, which asserts that the stream is open. -/
def write (request : WriteRequest) : Option WriteStream :=
  if stream.isOpen then
    stream.grpcStream.map fun requests =>
      { stream with idlenessTimer := false, grpcStream := some (requests ++ [request]) }
  else none

/-- `WriteStream::WriteHandshake`. -/
def writeHandshake : Option WriteStream :=
  if stream.handshakeComplete then none else stream.write .handshake

/-- `WriteStream::WriteMutations`. -/
def writeMutations (mutations : List Mutation) : Option WriteStream :=
  if stream.handshakeComplete then stream.write (.mutations mutations) else none

/-- `Stream::Close` before it notifies the remote store. -/
def closeConnection (status : Status) : WriteStream :=
  { stream with
    state := if status = none then .initial else .error
    idlenessTimer := false
    backoffTimer := false
    grpcStream := none
    closeCount := stream.closeCount + 1 }

/-! ## The states of a stream -/

/-- A stream that is not started is not open. -/
theorem isOpen_of_stopped {stream : WriteStream} (stopped : stream.isStarted = false) :
    stream.isOpen = false := by
  simp only [isStarted, Bool.or_eq_false_iff] at stopped
  exact stopped.2

/-- There is a connection in an open stream and at most one more, of a stream that starts;
timers belong to their states, and only the last token request of a starting stream counts. -/
structure Valid : Prop where
  opened : stream.isOpen → stream.grpcStream.isSome
  connected : stream.grpcStream.isSome → stream.state = .starting ∨ stream.state = .opened
  idle : stream.idlenessTimer → stream.isOpen
  backoff : stream.backoffTimer ↔ stream.state = .backoff
  tokens : ∀ count ∈ stream.tokenRequests, count ≤ stream.closeCount
  current : stream.closeCount ∈ stream.tokenRequests →
    stream.state = .starting ∧ stream.grpcStream = none
  distinct : stream.tokenRequests.Nodup

namespace Valid

variable {stream} {next : WriteStream}

theorem initial : Valid initial where
  opened := by intro isOpen; cases isOpen
  connected := by intro isSome; cases isSome
  idle := by intro timer; cases timer
  backoff := by constructor <;> intro impossible <;> cases impossible
  tokens := by intro count member; cases member
  current := by intro member; cases member
  distinct := List.nodup_nil

/-- A stream that is not started was never started, or it failed. -/
theorem isStarted_eq_false (stopped : stream.isStarted = false) :
    stream.state = .initial ∨ stream.state = .error := by
  cases state : stream.state <;> simp [isStarted, isOpen, state] at stopped ⊢

theorem start_of_initial (state : stream.state = .initial) :
    stream.start = some { stream with
      state := .starting
      tokenRequests := stream.tokenRequests ++ [stream.closeCount] } := by
  rw [WriteStream.start, state]

theorem start_of_error (state : stream.state = .error) :
    stream.start = some { stream with state := .backoff, backoffTimer := true } := by
  rw [WriteStream.start, state]

/-- A stream that is not started can be started. -/
theorem start (valid : Valid stream) (stopped : stream.isStarted = false) :
    ∃ next, stream.start = some next ∧ Valid next ∧ next.isStarted ∧ next.isOpen = false ∧
      next.handshakeComplete = stream.handshakeComplete := by
  have waiting : stream.closeCount ∉ stream.tokenRequests := by
    intro member
    have starting := (valid.current member).1
    rcases isStarted_eq_false stopped with state | state <;> rw [state] at starting <;>
      cases starting
  have bare : stream.grpcStream = none := by
    by_contra connected
    have started := valid.connected (Option.isSome_iff_ne_none.mpr connected)
    rcases isStarted_eq_false stopped with state | state <;> simp [state] at started
  have noTimer : stream.idlenessTimer = false := by
    refine Bool.eq_false_iff.mpr fun timer => ?_
    have isOpen := valid.idle timer
    simp [isStarted, isOpen] at stopped
  rcases isStarted_eq_false stopped with state | state
  · have noBackoff : stream.backoffTimer = false := by
      refine Bool.eq_false_iff.mpr fun timer => ?_
      have backoff := valid.backoff.mp timer
      rw [state] at backoff
      cases backoff
    refine ⟨_, start_of_initial state, ⟨?_, ?_, ?_, ?_, ?_, ?_, ?_⟩, rfl, rfl, rfl⟩
    · intro isOpen
      cases isOpen
    · intro isSome
      exact .inl rfl
    · intro timer
      rw [noTimer] at timer
      cases timer
    · simp [noBackoff]
    · intro count member
      rcases List.mem_append.mp member with old | new
      · exact valid.tokens count old
      · exact (List.mem_singleton.mp new).le
    · intro _
      exact ⟨rfl, bare⟩
    · refine List.nodup_append.mpr ⟨valid.distinct, List.nodup_singleton _, ?_⟩
      intro count member other new
      cases List.mem_singleton.mp new
      exact fun same => waiting (same ▸ member)
  · refine ⟨_, start_of_error state, ⟨?_, ?_, ?_, ?_, ?_, ?_, ?_⟩, rfl, rfl, rfl⟩
    · intro isOpen
      cases isOpen
    · intro isSome
      rw [bare] at isSome
      cases isSome
    · intro timer
      rw [noTimer] at timer
      cases timer
    · simp
    · exact valid.tokens
    · exact fun member => absurd member waiting
    · exact valid.distinct

/-- The delay ends in a stream that starts again. -/
theorem finishBackoff (valid : Valid stream) (timer : stream.backoffTimer) :
    ∃ next, stream.finishBackoff = some next ∧ Valid next ∧ next.isStarted ∧
      next.isOpen = false ∧ next.handshakeComplete = stream.handshakeComplete := by
  have state := valid.backoff.mp timer
  have elapsed : Valid { stream with state := .initial, backoffTimer := false } := by
    refine ⟨?_, ?_, ?_, ?_, valid.tokens, ?_, valid.distinct⟩
    · intro isOpen
      cases isOpen
    · intro isSome
      have connected := valid.connected isSome
      simp [state] at connected
    · intro timer
      have isOpen := valid.idle timer
      simp [WriteStream.isOpen, state] at isOpen
    · simp
    · intro member
      have starting := (valid.current member).1
      rw [state] at starting
      cases starting
  rw [WriteStream.finishBackoff, if_pos state]
  exact elapsed.start rfl

/-- A stopped stream forgets the error. -/
theorem inhibitBackoff (valid : Valid stream) (stopped : stream.isStarted = false) :
    stream.inhibitBackoff = some { stream with state := .initial } ∧
      Valid { stream with state := .initial } := by
  have notOpen : stream.isOpen = false := isOpen_of_stopped stopped
  have waiting : stream.closeCount ∉ stream.tokenRequests := by
    intro member
    have starting := (valid.current member).1
    simp [isStarted, starting] at stopped
  refine ⟨by rw [WriteStream.inhibitBackoff, stopped]; rfl, ?_, ?_, ?_, ?_, valid.tokens,
    fun member => absurd member waiting, valid.distinct⟩
  · intro isOpen
    cases isOpen
  · intro isSome
    rcases valid.connected isSome with state | state <;> simp [isStarted, isOpen, state] at stopped
  · intro timer
    rw [valid.idle timer] at notOpen
    cases notOpen
  · have noBackoff : ¬ stream.backoffTimer := fun timer => by
      simp [isStarted, valid.backoff.mp timer] at stopped
    simp [noBackoff]

/-- An idle stream is valid. -/
theorem markIdle (valid : Valid stream) : Valid stream.markIdle := by
  rw [WriteStream.markIdle]
  split_ifs with idle
  · refine ⟨valid.opened, valid.connected, fun _ => (Bool.and_eq_true_iff.mp idle).1,
      valid.backoff, valid.tokens, valid.current, valid.distinct⟩
  · exact valid

/-- An open stream takes a request. -/
theorem write (valid : Valid stream) (isOpen : stream.isOpen) (request : WriteRequest)
    {requests : List WriteRequest} (unanswered : stream.grpcStream = some requests) :
    stream.write request = some { stream with
        idlenessTimer := false, grpcStream := some (requests ++ [request]) } ∧
      Valid { stream with
        idlenessTimer := false, grpcStream := some (requests ++ [request]) } := by
  have state : stream.state = .opened := of_decide_eq_true isOpen
  refine ⟨by rw [WriteStream.write, if_pos isOpen, unanswered, Option.map_some], fun _ => rfl,
    fun _ => .inr state, ?_, valid.backoff, valid.tokens, ?_, valid.distinct⟩
  · intro timer
    cases timer
  · intro member
    have starting := (valid.current member).1
    rw [state] at starting
    cases starting

/-- A closed stream has no connection, and the tokens that it asked for are old. -/
theorem closeConnection (valid : Valid stream) (status : Status) :
    Valid (stream.closeConnection status) ∧ (stream.closeConnection status).isStarted = false := by
  have state : (stream.closeConnection status).state = .initial ∨
      (stream.closeConnection status).state = .error := by
    rw [WriteStream.closeConnection]
    dsimp only
    split_ifs
    · exact .inl rfl
    · exact .inr rfl
  have old : ∀ count ∈ stream.tokenRequests, count ≠ stream.closeCount + 1 := by
    intro count member
    have := valid.tokens count member
    omega
  have stopped : (stream.closeConnection status).isStarted = false := by
    rcases state with same | same <;> simp [isStarted, isOpen, same]
  refine ⟨⟨?_, ?_, ?_, ?_, ?_, ?_, valid.distinct⟩, stopped⟩
  · intro isOpen
    simp [isStarted, isOpen] at stopped
  · intro isSome
    cases isSome
  · intro timer
    cases timer
  · constructor
    · intro timer
      cases timer
    · intro backoff
      rcases state with same | same <;> rw [same] at backoff <;> cases backoff
  · intro count member
    have := valid.tokens count member
    exact Nat.le_succ_of_le this
  · intro member
    exact absurd rfl (old _ member)

end Valid

end WriteStream

end Bowfolio.Firestore
