import Bowfolio.Creation.OwnPicture

/-!
# Waiting for the picture of a new project

After Done, the request for the download URL is repeated from its own callback until it
succeeds, while the upload that it waits for only prints an error. The chain of requests
ends exactly when a request is answered while an object is at its path
(`retry_ends_iff`); after a failed upload it goes on for as long as no other client
stores an object there.
-/

namespace Bowfolio

variable {Image : Type}

/-- What the server does next: the end of the upload, the answer to the request, which
depends on the storage or fails for a reason of its own, or an object that another
client stores. -/
inductive StorageResponse (Image : Type) where
  | uploadSucceeded
  | uploadFailed
  | downloadURL
  | downloadURLFailed
  | stored (path : String) (image : Image)

/-- The storage and what one Done has under way: its upload, its pending requests, and
the picture writes that their callbacks issued. -/
structure ImageRetry (Image : Type) where
  objects : String → Option Image
  uploads : List (String × Image)
  requests : List ImageRequest
  written : List Write

namespace ImageRetry

/-- After the requests of Done. The reference of a path standardizes it. -/
def launch (objects : String → Option Image) (effects : List (ProjectEffect Image)) :
    ImageRetry Image where
  objects := objects
  uploads := (ProjectEffect.uploads effects).map fun (path, image) =>
    (standardizedPathForString path, image)
  requests := (ProjectEffect.requests effects).map fun (path, project) =>
    ⟨standardizedPathForString path, project⟩
  written := []

variable (url : Image → String) (state : ImageRetry Image)

/-- A failed request: its callback calls `loadImageFromStorage` again. -/
def retry (request : ImageRequest) (rest : List ImageRequest) : ImageRetry Image :=
  { state with requests := rest ++ [request] }

/-- A served request: its callback writes the picture. -/
def serve (request : ImageRequest) (rest : List ImageRequest) (image : Image) :
    ImageRetry Image :=
  { state with
    requests := rest
    written := state.written ++
      (ProjectViewModel.updatePicture request.project (url image)).toList }

/-- One response. The error branch of the upload only prints, and a response to nothing
pending does nothing. -/
def step : StorageResponse Image → ImageRetry Image
  | .uploadSucceeded =>
      match state.uploads with
      | [] => state
      | (path, image) :: rest =>
          { state with
            objects := Function.update state.objects path (some image)
            uploads := rest }
  | .uploadFailed => { state with uploads := state.uploads.tail }
  | .downloadURL =>
      match state.requests with
      | [] => state
      | request :: rest =>
          match state.objects request.path with
          | none => state.retry request rest
          | some image => state.serve url request rest image
  | .downloadURLFailed =>
      match state.requests with
      | [] => state
      | request :: rest => state.retry request rest
  | .stored path image =>
      { state with objects := Function.update state.objects path (some image) }

/-- The state after the first `count` of a sequence of responses. -/
def after (responses : Nat → StorageResponse Image) : Nat → ImageRetry Image
  | 0 => state
  | count + 1 => (after responses count).step url (responses count)

/-- After finitely many responses no request is pending. -/
def Ends (responses : Nat → StorageResponse Image) : Prop :=
  ∃ count, (state.after url responses count).requests = []

end ImageRetry

section Inputs

variable (objects : String → Option Image) (path : String)
  (responses : Nat → StorageResponse Image)

/-- None of the first responses ends the upload. -/
def UploadPending (count : Nat) : Prop :=
  ∀ index < count, responses index ≠ .uploadSucceeded ∧ responses index ≠ .uploadFailed

/-- An object is at the path before the response `count`: it was there at Done, another
client stored it, or the upload of Done ended in success. -/
def StoredBefore (count : Nat) : Prop :=
  (objects path).isSome ∨ ∃ index < count,
    (∃ image, responses index = .stored path image) ∨
      (responses index = .uploadSucceeded ∧ UploadPending responses index)

variable {objects path responses}

/-- An upload is pending after one more response unless that response ends it. -/
theorem uploadPending_succ {count : Nat} :
    UploadPending responses (count + 1) ↔
      UploadPending responses count ∧ responses count ≠ .uploadSucceeded ∧
        responses count ≠ .uploadFailed :=
  Nat.forall_lt_succ_right

/-- An object is stored by an earlier response or by the last one. -/
theorem storedBefore_succ {count : Nat} :
    StoredBefore objects path responses (count + 1) ↔
      StoredBefore objects path responses count ∨
        (∃ image, responses count = .stored path image) ∨
          (responses count = .uploadSucceeded ∧ UploadPending responses count) := by
  rw [StoredBefore, Nat.exists_lt_succ_right, ← or_assoc]
  rfl

end Inputs

/-- The request is still waiting after `count` responses: it is the only one, the upload
is under way unless it has ended, and the storage is as the responses left it. -/
structure ImageRetry.Waiting (objects : String → Option Image) (request : ImageRequest)
    (image : Image) (responses : Nat → StorageResponse Image) (count : Nat)
    (state : ImageRetry Image) : Prop where
  requests : state.requests = [request]
  pending : UploadPending responses count → state.uploads = [(request.path, image)]
  ended : ¬ UploadPending responses count → state.uploads = []
  objects : (state.objects request.path).isSome ↔
    StoredBefore objects request.path responses count

namespace ImageRetry

variable {url : Image → String} {objects : String → Option Image} {request : ImageRequest}
  {image : Image} {responses : Nat → StorageResponse Image} {count : Nat}
  {state : ImageRetry Image}

/-- An answer while an object is there ends the chain. -/
theorem Waiting.served (waiting : state.Waiting objects request image responses count)
    (answered : responses count = .downloadURL)
    (stored : StoredBefore objects request.path responses count) :
    (state.step url (responses count)).requests = [] := by
  obtain ⟨object, present⟩ := Option.isSome_iff_exists.mp (waiting.objects.mpr stored)
  simp [answered, step, waiting.requests, present, serve]

/-- A failed request is issued again. -/
theorem Waiting.retry (waiting : state.Waiting objects request image responses count)
    (failed : responses count = .downloadURL ∨ responses count = .downloadURLFailed) :
    (state.retry request []).Waiting objects request image responses (count + 1) := by
  have samePending : UploadPending responses (count + 1) ↔ UploadPending responses count := by
    rcases failed with response | response <;> simp [uploadPending_succ, response]
  have sameStored : StoredBefore objects request.path responses (count + 1) ↔
      StoredBefore objects request.path responses count := by
    rcases failed with response | response <;> simp [storedBefore_succ, response]
  exact ⟨rfl, fun undecided => waiting.pending (samePending.mp undecided),
    fun decided => waiting.ended (mt samePending.mpr decided),
    waiting.objects.trans sameStored.symm⟩

/-- Every other response leaves the request waiting. -/
theorem Waiting.step (waiting : state.Waiting objects request image responses count)
    (unserved : ¬ (responses count = .downloadURL ∧
      StoredBefore objects request.path responses count)) :
    (state.step url (responses count)).Waiting objects request image responses (count + 1) := by
  cases response : responses count with
  | uploadSucceeded =>
      have decided : ¬ UploadPending responses (count + 1) := by
        simp [uploadPending_succ, response]
      by_cases undecided : UploadPending responses count
      · have uploads := waiting.pending undecided
        refine ⟨?_, fun pending => absurd pending decided, fun _ => ?_, ?_⟩ <;>
          simp [ImageRetry.step, uploads, waiting.requests, storedBefore_succ, response, undecided]
      · have uploads := waiting.ended undecided
        refine ⟨?_, fun pending => absurd pending decided, fun _ => ?_, ?_⟩ <;>
          simp [ImageRetry.step, uploads, waiting.requests, storedBefore_succ, response, undecided,
            waiting.objects]
  | uploadFailed =>
      have decided : ¬ UploadPending responses (count + 1) := by
        simp [uploadPending_succ, response]
      have uploads : state.uploads.tail = [] := by
        by_cases undecided : UploadPending responses count
        · rw [waiting.pending undecided, List.tail_cons]
        · rw [waiting.ended undecided, List.tail_nil]
      refine ⟨waiting.requests, fun pending => absurd pending decided, fun _ => uploads, ?_⟩
      simp [ImageRetry.step, storedBefore_succ, response, waiting.objects]
  | downloadURL =>
      have absent : state.objects request.path = none := by
        rw [← Option.not_isSome_iff_eq_none, waiting.objects]
        exact fun stored => unserved ⟨response, stored⟩
      have retried : state.step url .downloadURL = state.retry request [] := by
        simp [ImageRetry.step, waiting.requests, absent]
      rw [retried]
      exact waiting.retry (.inl response)
  | downloadURLFailed =>
      have retried : state.step url .downloadURLFailed = state.retry request [] := by
        simp [ImageRetry.step, waiting.requests]
      rw [retried]
      exact waiting.retry (.inr response)
  | stored path object =>
      have samePending : UploadPending responses (count + 1) ↔ UploadPending responses count := by
        simp [uploadPending_succ, response]
      refine ⟨waiting.requests, fun undecided => waiting.pending (samePending.mp undecided),
        fun decided => waiting.ended (mt samePending.mpr decided), ?_⟩
      by_cases same : request.path = path
      · subst same
        simp [ImageRetry.step, storedBefore_succ, response]
      · simp [ImageRetry.step, storedBefore_succ, response, waiting.objects, same, Ne.symm same]

/-- A request waits until the first answer with an object. -/
theorem Waiting.after (waiting : state.Waiting objects request image responses 0)
    (unserved : ∀ index < count, ¬ (responses index = .downloadURL ∧
      StoredBefore objects request.path responses index)) :
    (state.after url responses count).Waiting objects request image responses count := by
  induction count with
  | zero => exact waiting
  | succ count ih =>
      have earlier := ih fun index before => unserved index (by omega)
      exact earlier.step (unserved count (by omega))

/-- The chain ends exactly with an answer while an object is there. -/
theorem Waiting.ends_iff (waiting : state.Waiting objects request image responses 0) :
    state.Ends url responses ↔
      ∃ count, responses count = .downloadURL ∧
        StoredBefore objects request.path responses count := by
  constructor
  · intro ends
    obtain ⟨count, finished⟩ := ends
    by_contra never
    have still : (state.after url responses count).Waiting objects request image responses count :=
      waiting.after fun index _ served => never ⟨index, served⟩
    simp [still.requests] at finished
  · intro answered
    classical
    let first := Nat.find answered
    obtain ⟨response, stored⟩ := Nat.find_spec answered
    have still : (state.after url responses first).Waiting objects request image responses first :=
      waiting.after fun index before => Nat.find_min answered before
    exact ⟨first + 1, still.served response stored⟩

/-- After Done, its request waits under the path of its image. -/
theorem waiting_launch {lowercased : String → String} {creation : Creation Image}
    {effects : List (ProjectEffect Image)}
    (issued : creation.view.handleDoneTapped lowercased = some effects)
    (picked : creation.view.image = some image) :
    (launch objects effects).Waiting objects ⟨creation.path, creation.view.setInterests.project⟩
      image responses 0 where
  requests := by
    rw [launch, AddProjectView.requests_handleDoneTapped issued]
    rfl
  pending := fun _ => by
    rw [launch, AddProjectView.uploads_handleDoneTapped picked issued]
    rfl
  ended := fun decided => absurd (fun index before => by omega) decided
  objects := by simp [launch, StoredBefore]

end ImageRetry

/-- **When the retries end.** For every Done, storage and sequence of responses, Done
issues its requests, and its chain of download-URL requests ends if and only if some
request is answered while an object is at the path of its image. -/
theorem retry_ends_iff (lowercased : String → String) (url : Image → String)
    (creation : Creation Image) (objects : String → Option Image)
    (responses : Nat → StorageResponse Image) :
    ∃ effects, creation.view.handleDoneTapped lowercased = some effects ∧
      ((ImageRetry.launch objects effects).Ends url responses ↔
        ∃ count, responses count = .downloadURL ∧
          StoredBefore objects creation.path responses count) := by
  obtain ⟨image, effects, picked, issued⟩ := creation.issues lowercased
  exact ⟨effects, issued, (ImageRetry.waiting_launch issued picked).ends_iff⟩

/-- While the server keeps answering, the chain ends exactly when an object ever gets to
the path of the image. -/
theorem ImageRetry.ends_iff_stored {url : Image → String} {objects : String → Option Image}
    {request : ImageRequest} {image : Image} {responses : Nat → StorageResponse Image}
    {state : ImageRetry Image} (waiting : state.Waiting objects request image responses 0)
    (answers : ∀ count, ∃ later ≥ count, responses later = .downloadURL) :
    state.Ends url responses ↔ ∃ count, StoredBefore objects request.path responses count := by
  rw [waiting.ends_iff]
  constructor
  · intro answered
    obtain ⟨count, _, stored⟩ := answered
    exact ⟨count, stored⟩
  · intro arrives
    obtain ⟨count, stored⟩ := arrives
    obtain ⟨later, after, answered⟩ := answers count
    refine ⟨later, answered, stored.imp_right ?_⟩
    rintro ⟨index, before, arrived⟩
    exact ⟨index, by omega, arrived⟩

/-- The upload fails, and then every request is answered. -/
def failedUpload : Nat → StorageResponse Nat
  | 0 => .uploadFailed
  | _ + 1 => .downloadURL

/-- No object ever gets to the path, so the requests never end. -/
theorem not_ends_failedUpload :
    ∃ effects,
      (enabledCreation "d-1" "Reef" rfl).view.handleDoneTapped asciiLowercased = some effects ∧
        ¬ (ImageRetry.launch (fun _ => none) effects).Ends (fun _ => "url") failedUpload := by
  obtain ⟨image, effects, picked, issued⟩ :=
    (enabledCreation "d-1" "Reef" rfl).issues asciiLowercased
  refine ⟨effects, issued, fun ends => ?_⟩
  obtain ⟨count, _, stored⟩ := (ImageRetry.waiting_launch issued picked).ends_iff.mp ends
  rcases stored with present | ⟨index, _, ⟨image, response⟩ | ⟨response, _⟩⟩
  · exact absurd present nofun
  · cases index <;> exact absurd response nofun
  · cases index <;> exact absurd response nofun

end Bowfolio
