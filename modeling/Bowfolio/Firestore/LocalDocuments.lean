import Bowfolio.Firestore.MutationQueue

/-!
# Cached documents and the local view

The cache holds the documents as the server last gave them, the local view applies the
pending batches to them. A single document, a set of documents and a query take
different ways to the same view (`getDocuments_agrees`, `collectionQuery_agrees`), also
when the query starts from the documents that matched before (`indexFreeQuery_agrees`).
-/

namespace Bowfolio.Firestore

/-- A `Query` on a collection. What its filters, orders and bounds say about a document is
one predicate. -/
structure CollectionQuery where
  path : ResourcePath
  isCollection : path.length % 2 = 1
  filter : DocumentKey → ObjectValue → Bool
  matchesAllDocuments : Bool

/-- `Query::Matches`. -/
def CollectionQuery.matches (query : CollectionQuery) : MaybeDocument → Bool
  | .document key data .. => query.path.isImmediateParentOf key.path && query.filter key data
  | .noDocument .. | .unknownDocument .. => false

/-- `MemoryRemoteDocumentCache`: documents and the times they were read. -/
structure MemoryRemoteDocumentCache where
  docs : Collection DocumentKey (MaybeDocument × SnapshotVersion)
  keyed : docs.Every fun key entry => entry.1.key = key

namespace MemoryRemoteDocumentCache

def initial : MemoryRemoteDocumentCache := ⟨.empty, Collection.every_empty⟩

variable (cache : MemoryRemoteDocumentCache)

/-- `MemoryRemoteDocumentCache::Get`. -/
def get (key : DocumentKey) : Option MaybeDocument :=
  (cache.docs.get? key).map Prod.fst

/-- `MemoryRemoteDocumentCache::Add`. -/
def add (document : MaybeDocument) (readTime : SnapshotVersion) : MemoryRemoteDocumentCache where
  docs := cache.docs.set document.key (document, readTime)
  keyed := by
    intro key entry found
    by_cases same : key = document.key
    · subst same
      cases (Collection.get?_set_self _ _ _).symm.trans found
      rfl
    · exact cache.keyed ((cache.docs.get?_set_of_ne same _).symm.trans found)

/-- `MemoryRemoteDocumentCache::Remove`. -/
def remove (key : DocumentKey) : MemoryRemoteDocumentCache where
  docs := cache.docs.erase key
  keyed := by
    intro other entry found
    by_cases same : other = key
    · subst same
      cases (cache.docs.get?_erase_self other).symm.trans found
    · exact cache.keyed ((cache.docs.get?_erase_of_ne same).symm.trans found)

/-- `MemoryRemoteDocumentCache::GetAll`. -/
def getAll (keys : Finset DocumentKey) : Collection DocumentKey (Option MaybeDocument) :=
  Collection.storeEach (fun _ found => some found)
    ((DocumentKey.inOrder keys).map fun key => (key, cache.get key)) .empty

/-- `MemoryRemoteDocumentCache::GetMatching`. -/
def getMatching (query : CollectionQuery) (sinceReadTime : SnapshotVersion) :
    Collection DocumentKey MaybeDocument :=
  Collection.storeEach
    (fun _ entry =>
      if entry.1.isDocument ∧ ¬ entry.2 ≤ sinceReadTime ∧ query.matches entry.1 then some entry.1
      else none)
    (scanFrom Prod.fst cache.docs.entries (MemoryMutationQueue.startKey query.path)
      fun key => query.path.isPrefixOf key.path) .empty

/-- A cached document is filed under its key. -/
theorem get_key {key : DocumentKey} {doc : MaybeDocument} (found : cache.get key = some doc) :
    doc.key = key := by
  obtain ⟨entry, cached, rfl⟩ := Option.map_eq_some_iff.mp found
  exact cache.keyed cached

theorem docs_add_self (document : MaybeDocument) (readTime : SnapshotVersion) :
    (cache.add document readTime).docs.get? document.key = some (document, readTime) :=
  Collection.get?_set_self ..

theorem docs_add_of_ne {document : MaybeDocument} {key : DocumentKey} (apart : key ≠ document.key)
    (readTime : SnapshotVersion) :
    (cache.add document readTime).docs.get? key = cache.docs.get? key :=
  Collection.get?_set_of_ne _ apart _

/-- A list of values by keys has the value of each of its keys. -/
theorem findEntry_map_mk {Value : Type} (keys : List DocumentKey) (value : DocumentKey → Value)
    (key : DocumentKey) :
    Collection.findEntry (keys.map fun key => (key, value key)) key =
      if key ∈ keys then some (value key) else none := by
  induction keys with
  | nil => rfl
  | cons head keys ih =>
      rw [List.map_cons, Collection.findEntry_cons, ih]
      by_cases same : head = key
      · subst same
        simp
      · simp [same, Ne.symm same]

/-- Exactly the wanted keys are looked up, cached or not. -/
theorem get?_getAll (keys : Finset DocumentKey) (key : DocumentKey) :
    (cache.getAll keys).get? key = if key ∈ keys then some (cache.get key) else none := by
  have distinct :
      (((DocumentKey.inOrder keys).map fun key => (key, cache.get key)).map Prod.fst).Nodup := by
    rw [List.map_map]
    exact (List.map_id _).symm ▸ DocumentKey.nodup_inOrder keys
  rw [getAll, Collection.get?_storeEach _ _ distinct, findEntry_map_mk, Collection.get?_empty,
    Option.or_none, Option.bind_fun_some]
  simp only [DocumentKey.mem_inOrder]

/-- The scan of the cache finds every matching document that was read since. -/
theorem get?_getMatching (query : CollectionQuery) (sinceReadTime : SnapshotVersion)
    (key : DocumentKey) :
    (cache.getMatching query sinceReadTime).get? key =
      (cache.docs.get? key).bind fun entry =>
        if entry.1.isDocument ∧ ¬ entry.2 ≤ sinceReadTime ∧ query.matches entry.1 then
          some entry.1
        else none := by
  have scan : scanFrom Prod.fst cache.docs.entries (MemoryMutationQueue.startKey query.path)
        (fun key => query.path.isPrefixOf key.path) =
      cache.docs.entries.filter fun entry => query.path.isPrefixOf entry.1.path :=
    scanFrom_eq_filter (MemoryMutationQueue.interval_startKey query.path)
      (cache.docs.sorted.imp le_of_lt)
  have distinct : ((cache.docs.entries.filter fun entry =>
      query.path.isPrefixOf entry.1.path).map Prod.fst).Nodup :=
    Collection.nodup_keys (cache.docs.sorted.filter _)
  rw [getMatching, scan, Collection.get?_storeEach _ _ distinct, Collection.get?_empty,
    Option.or_none, Collection.findEntry_filter fun key : DocumentKey =>
      query.path.isPrefixOf key.path, ← Collection.get?_eq_findEntry]
  by_cases below : query.path.isPrefixOf key.path
  · rw [if_pos below]
  · rw [if_neg below, Option.bind_none]
    cases cached : cache.docs.get? key with
    | none => rfl
    | some entry =>
        refine (if_neg fun matching => below ?_).symm
        have own := cache.keyed cached
        obtain ⟨doc, readTime⟩ := entry
        cases doc with
        | document docKey data version state =>
            have parent := (Bool.and_eq_true_iff.mp matching.2.2).1
            rw [← own]
            exact (Bool.and_eq_true_iff.mp parent).2
        | noDocument => cases matching.1
        | unknownDocument => cases matching.1

end MemoryRemoteDocumentCache

/-- `LocalDocumentsView`. -/
structure LocalDocumentsView where
  remoteDocumentCache : MemoryRemoteDocumentCache
  mutationQueue : MemoryMutationQueue

namespace LocalDocumentsView

variable (view : LocalDocumentsView)

/-- A document after pending batches. -/
def applyBatches (batches : List MutationBatch) (document : Option MaybeDocument)
    (key : DocumentKey) : Option MaybeDocument :=
  batches.foldl (fun document batch => batch.applyToLocalDocument document key) document

/-- `LocalDocumentsView::GetDocument`; without a result an assertion of the queue fails. -/
def getDocument (key : DocumentKey) : Option (Option MaybeDocument) :=
  (view.mutationQueue.allMutationBatchesAffectingDocumentKey key).map fun batches =>
    applyBatches batches (view.remoteDocumentCache.get key) key

/-- `LocalDocumentsView::ApplyLocalMutationsToDocuments`. -/
def applyLocalMutationsToDocuments (docs : Collection DocumentKey (Option MaybeDocument))
    (batches : List MutationBatch) : Collection DocumentKey (Option MaybeDocument) :=
  Collection.storeEach (fun key document => some (applyBatches batches document key))
    docs.entries .empty

/-- `LocalDocumentsView::GetLocalViewOfDocuments`; a missing document is one that is known
to be deleted. -/
def getLocalViewOfDocuments (baseDocs : Collection DocumentKey (Option MaybeDocument)) :
    Option (Collection DocumentKey MaybeDocument) :=
  (view.mutationQueue.allMutationBatchesAffectingDocumentKeys
      (baseDocs.entries.map Prod.fst).toFinset).map fun batches =>
    Collection.storeEach (fun key document => some (document.getD (.noDocument key 0 false)))
      (applyLocalMutationsToDocuments baseDocs batches).entries .empty

/-- `LocalDocumentsView::GetDocuments`. -/
def getDocuments (keys : Finset DocumentKey) : Option (Collection DocumentKey MaybeDocument) :=
  view.getLocalViewOfDocuments (view.remoteDocumentCache.getAll keys)

/-- The key of a patch whose document is not among the results. -/
def addMissingKey (existingDocs : Collection DocumentKey MaybeDocument)
    (missingDocKeys : Finset DocumentKey) (mutation : Mutation) : Finset DocumentKey :=
  match mutation with
  | .patch key .. =>
      if existingDocs.get? key = none then insert key missingDocKeys else missingDocKeys
  | .set .. | .transform .. | .delete .. => missingDocKeys

/-- `LocalDocumentsView::AddMissingBaseDocuments`. -/
def addMissingBaseDocuments (matchingBatches : List MutationBatch)
    (existingDocs : Collection DocumentKey MaybeDocument) :
    Collection DocumentKey MaybeDocument :=
  let missingDocKeys := matchingBatches.foldl
    (fun keys batch => batch.mutations.foldl (addMissingKey existingDocs) keys) ∅
  Collection.storeEach (fun _ maybeDoc => maybeDoc.filter MaybeDocument.isDocument)
    (view.remoteDocumentCache.getAll missingDocKeys).entries existingDocs

/-- Keep a mutated document among the results, when it is one. -/
def storeMutated (results : Collection DocumentKey MaybeDocument) (key : DocumentKey)
    (mutatedDoc : Option MaybeDocument) : Collection DocumentKey MaybeDocument :=
  match mutatedDoc with
  | some doc => if doc.isDocument then results.set key doc else results.erase key
  | none => results.erase key

/-- The body of the loops over the mutations in `GetDocumentsMatchingCollectionQuery`. -/
def mutateResults (query : CollectionQuery) (results : Collection DocumentKey MaybeDocument)
    (mutation : Mutation) : Collection DocumentKey MaybeDocument :=
  if query.path.isImmediateParentOf mutation.key.path then
    storeMutated results mutation.key
      (mutation.applyToLocalView (results.get? mutation.key) (results.get? mutation.key))
  else results

/-- `LocalDocumentsView::GetDocumentsMatchingCollectionQuery`. -/
def getDocumentsMatchingCollectionQuery (query : CollectionQuery)
    (sinceReadTime : SnapshotVersion) : Option (Collection DocumentKey MaybeDocument) :=
  (view.mutationQueue.allMutationBatchesAffectingQuery query.path).map fun matchingBatches =>
    let results := view.addMissingBaseDocuments matchingBatches
      (view.remoteDocumentCache.getMatching query sinceReadTime)
    let results := matchingBatches.foldl
      (fun results batch => batch.mutations.foldl (mutateResults query) results) results
    results.filter fun _ doc => query.matches doc

end LocalDocumentsView

/-! ## Batches of requests -/

namespace Mutation

/-- The first mutation of a document does not need to see it unless it is a patch. -/
def Grounded (documentKey : DocumentKey) : List Mutation → Prop
  | [] => True
  | mutation :: mutations =>
      if mutation.key = documentKey then
        match mutation with
        | .set _ _ precondition | .delete _ precondition => precondition = .none
        | .patch .. => True
        | .transform .. => False
      else Grounded documentKey mutations

end Mutation

/-- The batches that requests make: no base mutations, no disturbed fields, sorted values,
and no transformation or conditional write at the start. -/
structure MutationBatch.Plain (batch : MutationBatch) : Prop where
  baseMutations : batch.baseMutations = []
  undisturbed : Mutation.Undisturbed batch.mutations
  sorted : ∀ mutation ∈ batch.mutations, mutation.Sorted
  grounded : ∀ documentKey, Mutation.Grounded documentKey batch.mutations

namespace MutationBatch

variable {batch : MutationBatch} {key : DocumentKey}

/-- A batch leaves the documents it does not write. -/
theorem applyToLocalDocument_of_foreign (plain : batch.baseMutations = [])
    (foreign : key ∉ batch.keys) (document : Option MaybeDocument) :
    batch.applyToLocalDocument document key = document := by
  have apart : ∀ mutation ∈ batch.mutations, mutation.key ≠ key := fun mutation member own =>
    foreign (List.mem_map.mpr ⟨mutation, member, own⟩)
  rw [applyToLocalDocument, plain, List.foldl_nil]
  refine (List.foldl_ext _ (fun doc _ => doc) _ fun doc mutation member => ?_).trans
    (List.foldl_fixed _)
  exact if_neg (apart mutation member)

end MutationBatch

namespace Mutation

variable {key : DocumentKey} {mutation : Mutation} {mutations : List Mutation}

/-- A mutation of a document gives a document with its key. -/
theorem key_applyToLocalView {maybeDoc baseDoc : Option MaybeDocument} {doc : MaybeDocument}
    (keyed : ∀ doc, maybeDoc = some doc → doc.key = mutation.key)
    (result : mutation.applyToLocalView maybeDoc baseDoc = some doc) : doc.key = mutation.key := by
  unfold applyToLocalView at result
  split at result
  · cases mutation with
    | set | patch | delete =>
        cases result
        rfl
    | transform key fieldTransforms =>
        match maybeDoc with
        | none => cases result
        | some (.document own data version state) =>
            cases result
            exact keyed (.document own data version state) rfl
        | some (.noDocument ..) =>
            cases result
            exact keyed _ rfl
        | some (.unknownDocument ..) =>
            cases result
            exact keyed _ rfl
  · exact keyed doc result

theorem Grounded.append {others : List Mutation} (first : Grounded key mutations)
    (second : Grounded key others) : Grounded key (mutations ++ others) := by
  induction mutations with
  | nil => exact second
  | cons mutation mutations ih =>
      rw [List.cons_append]
      unfold Grounded at first ⊢
      split_ifs at first ⊢
      · exact first
      · exact ih first

/-- Without a patch, mutations of requests do not look at the document they find. -/
theorem runAll_of_grounded (grounded : Grounded key mutations)
    (unpatched : ∀ mutation ∈ mutations, mutation.key = key →
      ∀ value mask precondition, mutation ≠ .patch key value mask precondition)
    (written : ∃ mutation ∈ mutations, mutation.key = key)
    (first second : Option ObjectValue) :
    runAll mutations key first = runAll mutations key second := by
  induction mutations with
  | nil =>
      obtain ⟨mutation, member, _⟩ := written
      exact absurd member List.not_mem_nil
  | cons mutation mutations ih =>
      unfold Grounded at grounded
      by_cases own : mutation.key = key
      · rw [if_pos own] at grounded
        rw [runAll_cons_self own, runAll_cons_self own]
        refine congrArg (runAll mutations key) ?_
        cases mutation with
        | set other value precondition =>
            cases grounded
            rfl
        | patch other value mask precondition =>
            cases own
            exact absurd rfl (unpatched _ List.mem_cons_self rfl value mask precondition)
        | transform => exact grounded.elim
        | delete other precondition =>
            cases grounded
            rfl
      · rw [if_neg own] at grounded
        rw [runAll_cons_of_ne own, runAll_cons_of_ne own]
        obtain ⟨other, member, same⟩ := written
        rcases List.mem_cons.mp member with rfl | later
        · exact absurd same own
        · exact ih grounded (fun other member => unpatched other (List.mem_cons_of_mem _ member))
            ⟨other, later, same⟩

end Mutation

namespace LocalDocumentsView

variable {view : LocalDocumentsView} {query : CollectionQuery} {key : DocumentKey}
  {batches : List MutationBatch} {results : Collection DocumentKey MaybeDocument}

/-! ## One document and a set of documents -/

/-- Batches that do not write the document may be left out. -/
theorem applyBatches_filter {chosen : MutationBatch → Bool}
    (plain : ∀ batch ∈ batches, batch.baseMutations = [])
    (writers : ∀ batch ∈ batches, key ∈ batch.keys → chosen batch)
    (document : Option MaybeDocument) :
    applyBatches (batches.filter chosen) document key = applyBatches batches document key := by
  induction batches generalizing document with
  | nil => rfl
  | cons batch batches ih =>
      have rest := ih (fun other member => plain other (List.mem_cons_of_mem _ member))
        fun other member => writers other (List.mem_cons_of_mem _ member)
      rw [List.filter_cons]
      split_ifs with picked
      · exact rest _
      · have foreign : key ∉ batch.keys := fun writes =>
          picked (writers batch List.mem_cons_self writes)
        rw [rest, applyBatches, applyBatches, List.foldl_cons,
          batch.applyToLocalDocument_of_foreign (plain batch List.mem_cons_self) foreign]

/-- On the contents, batches do what their mutations do in a row. -/
theorem contents_applyBatches (plain : ∀ batch ∈ batches, batch.Plain)
    (document : Option MaybeDocument) (key : DocumentKey) :
    contents (applyBatches batches document key) =
      Mutation.runAll (batches.flatMap MutationBatch.mutations) key (contents document) := by
  induction batches generalizing document with
  | nil => rfl
  | cons batch batches ih =>
      have own := plain batch List.mem_cons_self
      rw [applyBatches, List.foldl_cons, ← applyBatches,
        ih fun other member => plain other (List.mem_cons_of_mem _ member),
        batch.contents_applyToLocalDocument own.baseMutations own.undisturbed, List.flatMap_cons,
        Mutation.runAll_append]

/-- The queue keeps its invariant, and its batches are those of requests. -/
structure Sound (view : LocalDocumentsView) : Prop where
  queue : view.mutationQueue.Invariant
  plain : ∀ batch ∈ view.mutationQueue.queue, batch.Plain

/-- Views of sets of documents only need the queue. -/
theorem getLocalViewOfDocuments_eq (invariant : view.mutationQueue.Invariant)
    (baseDocs : Collection DocumentKey (Option MaybeDocument)) :
    ∃ results, view.getLocalViewOfDocuments baseDocs = some results := by
  rw [getLocalViewOfDocuments, invariant.allMutationBatchesAffectingDocumentKeys]
  exact ⟨_, rfl⟩

/-- The pending mutations, in order. -/
def pending (view : LocalDocumentsView) : List Mutation :=
  view.mutationQueue.queue.flatMap MutationBatch.mutations

/-- The local view of a document: all pending batches over the cached document. -/
def localDocument (view : LocalDocumentsView) (key : DocumentKey) : Option MaybeDocument :=
  applyBatches view.mutationQueue.queue (view.remoteDocumentCache.get key) key

/-- Reading a document fails no assertion and gives its local view. -/
theorem getDocument_eq (sound : view.Sound) (key : DocumentKey) :
    view.getDocument key = some (view.localDocument key) := by
  rw [getDocument, sound.queue.allMutationBatchesAffectingDocumentKey, Option.map_some]
  refine congrArg some (applyBatches_filter (fun batch member =>
    (sound.plain batch member).baseMutations) (fun batch _ writes => decide_eq_true writes) _)

/-- A set of documents is viewed as each of them is. -/
theorem getDocuments_agrees (sound : view.Sound) (keys : Finset DocumentKey) :
    ∃ results, view.getDocuments keys = some results ∧ ∀ key, results.get? key =
      if key ∈ keys then some ((view.localDocument key).getD (.noDocument key 0 false))
      else none := by
  refine ⟨_, by rw [getDocuments, getLocalViewOfDocuments,
    sound.queue.allMutationBatchesAffectingDocumentKeys, Option.map_some], fun key => ?_⟩
  rw [Collection.get?_storeEach _ _ (Collection.nodup_keys (Collection.sorted _)),
    ← Collection.get?_eq_findEntry, applyLocalMutationsToDocuments,
    Collection.get?_storeEach _ _ (Collection.nodup_keys (Collection.sorted _)),
    ← Collection.get?_eq_findEntry, MemoryRemoteDocumentCache.get?_getAll]
  by_cases wanted : key ∈ keys
  · have listed : key ∈
        ((view.remoteDocumentCache.getAll keys).entries.map Prod.fst).toFinset := by
      have found : (view.remoteDocumentCache.getAll keys).get? key =
          some (view.remoteDocumentCache.get key) := by
        rw [MemoryRemoteDocumentCache.get?_getAll, if_pos wanted]
      exact List.mem_toFinset.mpr
        (List.mem_map_of_mem ((Collection.get?_eq_some_iff _).mp found))
    have all : applyBatches (view.mutationQueue.queue.filter fun batch =>
          ∃ key ∈ batch.keys, key ∈
            ((view.remoteDocumentCache.getAll keys).entries.map Prod.fst).toFinset)
        (view.remoteDocumentCache.get key) key =
        applyBatches view.mutationQueue.queue (view.remoteDocumentCache.get key) key :=
      applyBatches_filter (fun batch member => (sound.plain batch member).baseMutations)
        (fun batch _ writes => decide_eq_true ⟨key, writes, listed⟩) _
    simp only [if_pos wanted, Option.bind_some, Collection.get?_empty, Option.or_none, all]
    rfl
  · simp only [if_neg wanted, Option.bind_none, Collection.get?_empty, Option.or_none]

/-! ## Queries -/

/-- The results are documents under their keys. -/
def Documents (results : Collection DocumentKey MaybeDocument) : Prop :=
  results.Every fun key doc => doc.key = key ∧ doc.isDocument

/-- A mutated result stays when it is still a document. -/
theorem get?_storeMutated_self (results : Collection DocumentKey MaybeDocument)
    (key : DocumentKey) (mutatedDoc : Option MaybeDocument) :
    (storeMutated results key mutatedDoc).get? key =
      mutatedDoc.filter MaybeDocument.isDocument := by
  cases mutatedDoc with
  | none => exact results.get?_erase_self key
  | some doc =>
      rw [storeMutated]
      split_ifs with isDocument
      · rw [Collection.get?_set_self, Option.filter_some_pos isDocument]
      · rw [Collection.get?_erase_self, Option.filter_some_neg (Bool.eq_false_iff.mpr isDocument)]

theorem get?_storeMutated_of_ne {other : DocumentKey} (apart : other ≠ key)
    (mutatedDoc : Option MaybeDocument) :
    (storeMutated results key mutatedDoc).get? other = results.get? other := by
  cases mutatedDoc with
  | none => exact results.get?_erase_of_ne apart
  | some doc =>
      rw [storeMutated]
      split_ifs
      · exact results.get?_set_of_ne apart doc
      · exact results.get?_erase_of_ne apart

/-- A step of the loop does to a document of the collection what the mutation does. -/
theorem contents_mutateResults (parent : query.path.isImmediateParentOf key.path)
    (results : Collection DocumentKey MaybeDocument) (mutation : Mutation) :
    contents ((mutateResults query results mutation).get? key) =
      if mutation.key = key then
        mutation.effect (contents (results.get? key)) (contents (results.get? key))
      else contents (results.get? key) := by
  rw [mutateResults]
  by_cases own : mutation.key = key
  · subst own
    rw [if_pos parent, if_pos rfl, ← Mutation.contents_applyToLocalView, get?_storeMutated_self]
    cases mutation.applyToLocalView (results.get? mutation.key) (results.get? mutation.key) with
    | none => rfl
    | some doc => cases doc <;> rfl
  · rw [if_neg own]
    split_ifs
    · rw [get?_storeMutated_of_ne (Ne.symm own)]
    · rfl

/-- A mutation leaves only documents among the results. -/
theorem documents_mutateResults (documents : Documents results) (mutation : Mutation) :
    Documents (mutateResults query results mutation) := by
  rw [mutateResults]
  split_ifs
  · intro key doc found
    by_cases same : key = mutation.key
    · subst same
      rw [get?_storeMutated_self, Option.filter_eq_some_iff] at found
      exact ⟨Mutation.key_applyToLocalView (fun doc stored => (documents stored).1) found.1,
        found.2⟩
    · rw [get?_storeMutated_of_ne same] at found
      exact documents found
  · exact documents

/-- On the results, the mutations of a document in the collection take effect in a row. -/
theorem contents_foldl_mutateResults (parent : query.path.isImmediateParentOf key.path)
    (mutations : List Mutation) (results : Collection DocumentKey MaybeDocument) :
    contents ((mutations.foldl (mutateResults query) results).get? key) =
      Mutation.runAll mutations key (contents (results.get? key)) := by
  induction mutations generalizing results with
  | nil => rfl
  | cons mutation mutations ih =>
      rw [List.foldl_cons, ih, contents_mutateResults parent]
      by_cases own : mutation.key = key
      · rw [if_pos own, Mutation.runAll_cons_self own]
      · rw [if_neg own, Mutation.runAll_cons_of_ne own]

theorem documents_foldl_mutateResults (documents : Documents results) (mutations : List Mutation) :
    Documents (mutations.foldl (mutateResults query) results) := by
  induction mutations generalizing results with
  | nil => exact documents
  | cons mutation mutations ih => exact ih (documents_mutateResults documents mutation)

theorem documents_getMatching (cache : MemoryRemoteDocumentCache) (query : CollectionQuery)
    (sinceReadTime : SnapshotVersion) : Documents (cache.getMatching query sinceReadTime) := by
  intro key doc found
  rw [cache.get?_getMatching] at found
  obtain ⟨entry, cached, picked⟩ := Option.bind_eq_some_iff.mp found
  split_ifs at picked with matching
  cases picked
  exact ⟨cache.keyed cached, matching.1⟩

/-- The mutations that make `AddMissingBaseDocuments` look for a document. -/
def Patched (mutations : List Mutation) (key : DocumentKey) : Prop :=
  ∃ value mask precondition, Mutation.patch key value mask precondition ∈ mutations

/-- The missing keys are those that are patched but not among the results. -/
theorem mem_foldl_addMissingKey (existing : Collection DocumentKey MaybeDocument)
    (mutations : List Mutation) (keys : Finset DocumentKey) (key : DocumentKey) :
    key ∈ mutations.foldl (addMissingKey existing) keys ↔
      key ∈ keys ∨ existing.get? key = none ∧ Patched mutations key := by
  induction mutations generalizing keys with
  | nil => simp [Patched]
  | cons mutation mutations ih =>
      rw [List.foldl_cons, ih]
      have rest : Patched (mutation :: mutations) key ↔
          (∃ value mask precondition, mutation = .patch key value mask precondition) ∨
            Patched mutations key := by
        simp only [Patched, List.mem_cons, exists_or, eq_comm]
      rw [rest]
      cases mutation with
      | set | transform | delete => simp [addMissingKey]
      | patch other value mask precondition =>
          rw [addMissingKey]
          by_cases same : other = key
          · subst same
            split_ifs with absent <;> simp [absent]
          · split_ifs <;> simp [same, Ne.symm same]

/-- Missing documents that are patched are taken from the cache, and nothing else changes. -/
theorem get?_addMissingBaseDocuments (view : LocalDocumentsView) (batches : List MutationBatch)
    (existing : Collection DocumentKey MaybeDocument) (key : DocumentKey) :
    (existing.get? key = none ∧ Patched (batches.flatMap MutationBatch.mutations) key →
      (view.addMissingBaseDocuments batches existing).get? key =
        (view.remoteDocumentCache.get key).filter MaybeDocument.isDocument) ∧
    (¬ (existing.get? key = none ∧ Patched (batches.flatMap MutationBatch.mutations) key) →
      (view.addMissingBaseDocuments batches existing).get? key = existing.get? key) := by
  have lookup : (view.addMissingBaseDocuments batches existing).get? key =
      (((view.remoteDocumentCache.getAll ((batches.flatMap MutationBatch.mutations).foldl
          (addMissingKey existing) ∅)).get? key).bind
        fun maybeDoc => maybeDoc.filter MaybeDocument.isDocument).or (existing.get? key) := by
    rw [List.foldl_flatMap, addMissingBaseDocuments,
      Collection.get?_storeEach _ _ (Collection.nodup_keys (Collection.sorted _))]
    rfl
  have listed := (mem_foldl_addMissingKey existing (batches.flatMap MutationBatch.mutations) ∅
    key).trans (or_iff_right (Finset.notMem_empty key))
  rw [lookup, MemoryRemoteDocumentCache.get?_getAll]
  constructor
  · intro missing
    rw [if_pos (listed.mpr missing), Option.bind_some, missing.1, Option.or_none]
  · intro present
    rw [if_neg fun member => present (listed.mp member), Option.bind_none, Option.none_or]

/-- Only documents are added as bases. -/
theorem documents_addMissingBaseDocuments (view : LocalDocumentsView)
    (batches : List MutationBatch) (documents : Documents results) :
    Documents (view.addMissingBaseDocuments batches results) := by
  intro key doc found
  obtain ⟨restored, kept⟩ := view.get?_addMissingBaseDocuments batches results key
  by_cases missing : results.get? key = none ∧
      Patched (batches.flatMap MutationBatch.mutations) key
  · rw [restored missing, Option.filter_eq_some_iff] at found
    exact ⟨view.remoteDocumentCache.get_key found.1, found.2⟩
  · exact documents ((kept missing).symm.trans found)

/-- The base of a document of the collection is the cached one, unless no patch needs it
and it does not match or was read before. -/
theorem contents_base (parent : query.path.isImmediateParentOf key.path)
    (view : LocalDocumentsView) (batches : List MutationBatch) (sinceReadTime : SnapshotVersion) :
    let base := contents ((view.addMissingBaseDocuments batches
      (view.remoteDocumentCache.getMatching query sinceReadTime)).get? key)
    base = contents (view.remoteDocumentCache.get key) ∨
      base = none ∧ ¬ Patched (batches.flatMap MutationBatch.mutations) key ∧
        ∀ entry data, view.remoteDocumentCache.docs.get? key = some entry →
          entry.1.data? = some data → query.filter key data → entry.2 ≤ sinceReadTime := by
  intro base
  have existing := view.remoteDocumentCache.get?_getMatching query sinceReadTime key
  have added := view.get?_addMissingBaseDocuments batches
    (view.remoteDocumentCache.getMatching query sinceReadTime) key
  cases found : (view.remoteDocumentCache.getMatching query sinceReadTime).get? key with
  | some doc =>
      left
      have kept : base = contents (some doc) := by
        rw [← found]
        refine congrArg contents (added.2 fun missing => ?_)
        rw [found] at missing
        cases missing.1
      rw [kept]
      rw [existing] at found
      obtain ⟨entry, cached, picked⟩ := Option.bind_eq_some_iff.mp found
      split_ifs at picked
      rw [MemoryRemoteDocumentCache.get, cached, Option.map_some, picked]
  | none =>
      by_cases patched : Patched (batches.flatMap MutationBatch.mutations) key
      · left
        have restored : base = contents ((view.remoteDocumentCache.get key).filter
            MaybeDocument.isDocument) := congrArg contents (added.1 ⟨found, patched⟩)
        rw [restored]
        cases view.remoteDocumentCache.get key with
        | none => rfl
        | some doc => cases doc <;> rfl
      · right
        refine ⟨?_, patched, fun entry data cached stored accepted => ?_⟩
        · refine (congrArg contents (added.2 fun missing => patched missing.2)).trans ?_
          rw [found]
          rfl
        · by_contra recent
          rw [existing, cached, Option.bind_some] at found
          refine absurd found (Option.ne_none_iff_isSome.mpr ?_)
          rw [if_pos]
          · rfl
          · obtain ⟨doc, readTime⟩ := entry
            cases doc with
            | document own stored' version state =>
                cases stored
                have key_eq := view.remoteDocumentCache.keyed cached
                refine ⟨rfl, recent, ?_⟩
                cases key_eq
                exact Bool.and_eq_true_iff.mpr ⟨parent, accepted⟩
            | noDocument => cases stored
            | unknownDocument => cases stored

/-- The mutations of plain batches are grounded. -/
theorem grounded_flatMap (plain : ∀ batch ∈ batches, batch.Plain) (key : DocumentKey) :
    Mutation.Grounded key (batches.flatMap MutationBatch.mutations) := by
  induction batches with
  | nil => exact trivial
  | cons batch batches ih =>
      rw [List.flatMap_cons]
      exact ((plain batch List.mem_cons_self).grounded key).append
        (ih fun other member => plain other (List.mem_cons_of_mem _ member))

/-- When no patch of a document is pending, the missing base of a document does not matter
to the view of it, or nothing is pending at all. -/
theorem runAll_of_unpatched (plain : ∀ batch ∈ batches, batch.Plain)
    (unpatched : ¬ Patched (batches.flatMap MutationBatch.mutations) key)
    (base : Option ObjectValue) :
    let mutations := batches.flatMap MutationBatch.mutations
    Mutation.runAll mutations key none = Mutation.runAll mutations key base ∨
      Mutation.runAll mutations key none = none ∧ Mutation.runAll mutations key base = base := by
  intro mutations
  by_cases written : ∃ mutation ∈ mutations, mutation.key = key
  · refine .inl (Mutation.runAll_of_grounded (grounded_flatMap plain key) ?_ written none base)
    intro mutation member own value mask precondition same
    exact unpatched ⟨value, mask, precondition, same ▸ member⟩
  · have foreign : ∀ mutation ∈ mutations, mutation.key ≠ key := fun mutation member own =>
      written ⟨mutation, member, own⟩
    exact .inr ⟨Mutation.runAll_of_foreign foreign none, Mutation.runAll_of_foreign foreign base⟩

/-- The documents of the collection that a scan since some time may leave out. -/
def Stale (view : LocalDocumentsView) (sinceReadTime : SnapshotVersion) (key : DocumentKey)
    (data : ObjectValue) : Prop :=
  ∃ entry, view.remoteDocumentCache.docs.get? key = some entry ∧ entry.1.data? = some data ∧
    entry.2 ≤ sinceReadTime

/-- On a document of the collection the affecting batches do what all pending ones do. -/
theorem contents_localDocument_of_parent (sound : view.Sound)
    (parent : query.path.isImmediateParentOf key.path) :
    contents (view.localDocument key) =
      Mutation.runAll ((view.mutationQueue.queue.filter fun batch =>
          batch.keys.any fun key => query.path.isImmediateParentOf key.path).flatMap
            MutationBatch.mutations) key (contents (view.remoteDocumentCache.get key)) := by
  rw [← contents_applyBatches fun batch member => sound.plain batch (List.mem_filter.mp member).1,
    applyBatches_filter, localDocument]
  · exact fun batch member => (sound.plain batch member).baseMutations
  · exact fun batch _ writes => List.any_eq_true.mpr ⟨key, writes, parent⟩

/-- What a scan has found before its last filter. -/
def scanned (view : LocalDocumentsView) (query : CollectionQuery)
    (sinceReadTime : SnapshotVersion) (batches : List MutationBatch) :
    Collection DocumentKey MaybeDocument :=
  (batches.flatMap MutationBatch.mutations).foldl (mutateResults query)
    (view.addMissingBaseDocuments batches
      (view.remoteDocumentCache.getMatching query sinceReadTime))

/-- A scan finds only documents, each under its key. -/
theorem documents_scanned (view : LocalDocumentsView) (query : CollectionQuery)
    (sinceReadTime : SnapshotVersion) (batches : List MutationBatch) :
    Documents (view.scanned query sinceReadTime batches) :=
  documents_foldl_mutateResults (documents_addMissingBaseDocuments view batches
    (documents_getMatching _ query sinceReadTime)) _

/-- A scan has a document of the collection as the batches leave it, or misses it, when it is
stale or the batches leave none. -/
theorem contents_scanned (plain : ∀ batch ∈ batches, batch.Plain)
    (parent : query.path.isImmediateParentOf key.path) (sinceReadTime : SnapshotVersion) :
    let viewed := Mutation.runAll (batches.flatMap MutationBatch.mutations) key
      (contents (view.remoteDocumentCache.get key))
    contents ((view.scanned query sinceReadTime batches).get? key) = viewed ∨
      contents ((view.scanned query sinceReadTime batches).get? key) = none ∧
        ∀ data, viewed = some data → query.filter key data →
          view.Stale sinceReadTime key data := by
  intro viewed
  rw [scanned, contents_foldl_mutateResults parent]
  rcases contents_base parent view batches sinceReadTime with same | ⟨absent, unpatched, old⟩
  · exact .inl (congrArg _ same)
  · rw [absent]
    rcases runAll_of_unpatched plain unpatched
      (contents (view.remoteDocumentCache.get key)) with same | ⟨nothing, unchanged⟩
    · exact .inl same
    · refine .inr ⟨nothing, fun data stored accepted => ?_⟩
      obtain ⟨doc, cachedDoc, isData⟩ := Option.bind_eq_some_iff.mp (unchanged.symm.trans stored)
      obtain ⟨entry, cached, rfl⟩ := Option.map_eq_some_iff.mp cachedDoc
      exact ⟨entry, cached, isData, old entry data cached isData accepted⟩

/-- A query finds nothing but matching documents of the local view, and all of them but
stale ones. -/
theorem query_results (sound : view.Sound) (query : CollectionQuery)
    (sinceReadTime : SnapshotVersion) :
    ∃ results, view.getDocumentsMatchingCollectionQuery query sinceReadTime = some results ∧
      (∀ key doc, results.get? key = some doc → doc.key = key ∧
        query.path.isImmediateParentOf key.path ∧
        ∃ data, doc.data? = some data ∧ query.filter key data ∧
          contents (view.localDocument key) = some data) ∧
      ∀ key data, query.path.isImmediateParentOf key.path → query.filter key data →
        contents (view.localDocument key) = some data →
        contents (results.get? key) = some data ∨ view.Stale sinceReadTime key data := by
  have plain : ∀ batch ∈ view.mutationQueue.queue.filter fun batch =>
      batch.keys.any fun key => query.path.isImmediateParentOf key.path, batch.Plain :=
    fun batch member => sound.plain batch (List.mem_filter.mp member).1
  have whole (key : DocumentKey) (parent : query.path.isImmediateParentOf key.path) :=
    contents_localDocument_of_parent sound parent
  refine ⟨_, by rw [getDocumentsMatchingCollectionQuery,
    sound.queue.allMutationBatchesAffectingQuery, Option.map_some], ?_⟩
  dsimp only
  rw [← List.foldl_flatMap]
  generalize view.mutationQueue.queue.filter _ = batches at plain whole
  change (∀ key doc, ((view.scanned query sinceReadTime batches).filter _).get? key = some doc →
    _) ∧ ∀ key data, _ → _ → _ →
      contents (((view.scanned query sinceReadTime batches).filter _).get? key) = some data ∨ _
  have documents := documents_scanned view query sinceReadTime batches
  refine ⟨fun key doc found => ?_, fun key data parent accepted stored => ?_⟩
  · rw [Collection.get?_filter, Option.filter_eq_some_iff] at found
    obtain ⟨listed, matching⟩ := found
    obtain ⟨own, isDocument⟩ := documents listed
    cases doc with
    | noDocument => cases isDocument
    | unknownDocument => cases isDocument
    | document docKey data version state =>
        cases own
        obtain ⟨parent, accepted⟩ := Bool.and_eq_true_iff.mp matching
        refine ⟨rfl, parent, data, rfl, accepted, ?_⟩
        apply (whole docKey parent).trans
        rcases contents_scanned plain parent sinceReadTime with same | ⟨absent, _⟩
        · exact same.symm.trans (congrArg contents listed)
        · cases (congrArg contents listed).symm.trans absent
  · rw [whole key parent] at stored
    rcases contents_scanned plain parent sinceReadTime with same | ⟨_, old⟩
    · left
      rw [stored] at same
      obtain ⟨doc, listed, isData⟩ := Option.bind_eq_some_iff.mp same
      have own := (documents listed).1
      rw [Collection.get?_filter, listed, Option.filter_some_pos]
      · exact isData
      · cases doc with
        | noDocument => cases isData
        | unknownDocument => cases isData
        | document docKey stored version state =>
            cases isData
            cases own
            exact Bool.and_eq_true_iff.mpr ⟨parent, accepted⟩
    · exact .inr (old data stored accepted)

/-- **Queries.** A scan of the collection finds exactly the matching documents of the local
view, as long as every cached document has a read time. -/
theorem collectionQuery_agrees (sound : view.Sound)
    (readTimes : ∀ key entry, view.remoteDocumentCache.docs.get? key = some entry → 0 < entry.2)
    (query : CollectionQuery) :
    ∃ results, view.getDocumentsMatchingCollectionQuery query 0 = some results ∧
      ∀ key data, contents (results.get? key) = some data ↔
        query.path.isImmediateParentOf key.path ∧ query.filter key data ∧
          (view.getDocument key).map contents = some (some data) := by
  obtain ⟨results, found, only, all⟩ := query_results sound query 0
  refine ⟨results, found, fun key data => ?_⟩
  rw [getDocument_eq sound key, Option.map_some, Option.some.injEq]
  constructor
  · intro listed
    obtain ⟨doc, result, isData⟩ := Option.bind_eq_some_iff.mp listed
    obtain ⟨_, parent, stored, same, accepted, viewed⟩ := only key doc result
    cases isData.symm.trans same
    exact ⟨parent, accepted, viewed⟩
  · intro stored
    obtain ⟨parent, accepted, stored⟩ := stored
    refine (all key data parent accepted stored).resolve_right fun stale => ?_
    obtain ⟨entry, cached, _, old⟩ := stale
    exact absurd (readTimes key entry cached) (Nat.not_lt.mpr old)

/-! ## The index-free engine -/

/-- `IndexFreeQueryEngine::GetDocumentsMatchingQuery` of a query without limit. -/
def indexFreeQuery (view : LocalDocumentsView) (query : CollectionQuery)
    (lastLimboFreeSnapshotVersion : SnapshotVersion) (remoteKeys : Finset DocumentKey) :
    Option (Collection DocumentKey MaybeDocument) :=
  if query.matchesAllDocuments then view.getDocumentsMatchingCollectionQuery query 0
  else if lastLimboFreeSnapshotVersion = 0 then view.getDocumentsMatchingCollectionQuery query 0
  else
    (view.getDocuments remoteKeys).bind fun documents =>
      let previousResults := documents.filter fun _ doc => doc.isDocument && query.matches doc
      (view.getDocumentsMatchingCollectionQuery query lastLimboFreeSnapshotVersion).map
        fun updatedResults =>
          Collection.storeEach (fun _ result => some result) previousResults.entries updatedResults

/-- Mutations of a document keep its key. -/
theorem key_foldl_applyToLocalView (mutations : List Mutation) (baseDoc : Option MaybeDocument)
    {document : Option MaybeDocument} (keyed : ∀ doc, document = some doc → doc.key = key) :
    ∀ doc, mutations.foldl (fun doc mutation =>
        if mutation.key = key then mutation.applyToLocalView doc baseDoc else doc) document =
      some doc → doc.key = key := by
  induction mutations generalizing document with
  | nil => exact keyed
  | cons mutation mutations ih =>
      refine ih fun doc result => ?_
      dsimp only at result
      split_ifs at result with own
      · rw [← own]
        exact Mutation.key_applyToLocalView (fun doc stored => (keyed doc stored).trans own.symm)
          result
      · exact keyed doc result

/-- Batches keep the key of a document. -/
theorem key_applyBatches (plain : ∀ batch ∈ batches, batch.baseMutations = [])
    {document : Option MaybeDocument} (keyed : ∀ doc, document = some doc → doc.key = key) :
    ∀ doc, applyBatches batches document key = some doc → doc.key = key := by
  induction batches generalizing document with
  | nil => exact keyed
  | cons batch batches ih =>
      refine ih (fun other member => plain other (List.mem_cons_of_mem _ member))
        fun doc result => ?_
      dsimp only at result
      rw [MutationBatch.applyToLocalDocument, plain batch List.mem_cons_self,
        List.foldl_nil] at result
      exact key_foldl_applyToLocalView _ _ keyed doc result

theorem key_localDocument (sound : view.Sound) {doc : MaybeDocument}
    (viewed : view.localDocument key = some doc) : doc.key = key :=
  key_applyBatches (fun batch member => (sound.plain batch member).baseMutations)
    (fun _ stored => view.remoteDocumentCache.get_key stored) doc viewed

/-- A previous result is a matching document of the local view, and a remote key with one
has a result. -/
theorem previous_results (sound : view.Sound) (query : CollectionQuery)
    (remoteKeys : Finset DocumentKey) :
    ∃ documents, view.getDocuments remoteKeys = some documents ∧
      (∀ key doc, (documents.filter fun _ doc => doc.isDocument && query.matches doc).get? key =
          some doc → query.path.isImmediateParentOf key.path ∧
        ∃ data, doc.data? = some data ∧ query.filter key data ∧
          contents (view.localDocument key) = some data) ∧
      ∀ key data, key ∈ remoteKeys → query.path.isImmediateParentOf key.path →
        query.filter key data → contents (view.localDocument key) = some data →
        contents ((documents.filter fun _ doc => doc.isDocument && query.matches doc).get? key) =
          some data := by
  obtain ⟨documents, found, lookup⟩ := getDocuments_agrees sound remoteKeys
  refine ⟨documents, found, fun key doc result => ?_,
    fun key data remote parent accepted stored => ?_⟩
  · rw [Collection.get?_filter, Option.filter_eq_some_iff, lookup] at result
    obtain ⟨viewed, matching⟩ := result
    split_ifs at viewed
    obtain ⟨isDocument, matching⟩ := Bool.and_eq_true_iff.mp matching
    have shown := Option.some.inj viewed
    cases viewedHere : view.localDocument key with
    | none =>
        rw [viewedHere, Option.getD_none] at shown
        rw [← shown] at isDocument
        cases isDocument
    | some own =>
        rw [viewedHere, Option.getD_some] at shown
        have ownKey := key_localDocument sound viewedHere
        subst shown
        cases own with
        | noDocument => cases isDocument
        | unknownDocument => cases isDocument
        | document docKey data version state =>
            cases ownKey
            obtain ⟨parent, accepted⟩ := Bool.and_eq_true_iff.mp matching
            exact ⟨parent, data, rfl, accepted, rfl⟩
  · obtain ⟨doc, viewed, isData⟩ := Option.bind_eq_some_iff.mp stored
    have own := key_localDocument sound viewed
    rw [Collection.get?_filter, lookup, if_pos remote, viewed, Option.getD_some,
      Option.filter_some_pos]
    · exact isData
    · cases doc with
      | noDocument => cases isData
      | unknownDocument => cases isData
      | document docKey stored version state =>
          cases isData
          cases own
          exact Bool.and_eq_true_iff.mpr ⟨rfl, Bool.and_eq_true_iff.mpr ⟨parent, accepted⟩⟩

/-- **The index-free engine.** When the remote keys list every cached document that matches
and was read by the last snapshot without limbo documents, the engine finds exactly the
matching documents of the local view, as a scan of the whole collection does. -/
theorem indexFreeQuery_agrees (sound : view.Sound)
    (readTimes : ∀ key entry, view.remoteDocumentCache.docs.get? key = some entry → 0 < entry.2)
    (query : CollectionQuery) (snapshot : SnapshotVersion) (remoteKeys : Finset DocumentKey)
    (listed : ∀ key data, query.path.isImmediateParentOf key.path → query.filter key data →
      view.Stale snapshot key data → key ∈ remoteKeys) :
    ∃ results, view.indexFreeQuery query snapshot remoteKeys = some results ∧
      ∀ key data, contents (results.get? key) = some data ↔
        query.path.isImmediateParentOf key.path ∧ query.filter key data ∧
          (view.getDocument key).map contents = some (some data) := by
  unfold indexFreeQuery
  split_ifs
  · exact collectionQuery_agrees sound readTimes query
  · exact collectionQuery_agrees sound readTimes query
  · obtain ⟨documents, read, previousOnly, previousAll⟩ :=
      previous_results sound query remoteKeys
    obtain ⟨updated, scan, updatedOnly, updatedAll⟩ := query_results sound query snapshot
    refine ⟨_, by rw [read, Option.bind_some, scan, Option.map_some], fun key data => ?_⟩
    rw [Collection.get?_storeEach _ _ (Collection.nodup_keys (Collection.sorted _)),
      ← Collection.get?_eq_findEntry, Option.bind_fun_some, getDocument_eq sound key,
      Option.map_some, Option.some.injEq]
    cases previous :
      (documents.filter fun _ doc => doc.isDocument && query.matches doc).get? key with
    | some doc =>
        obtain ⟨parent, own, isData, accepted, viewed⟩ := previousOnly key doc previous
        rw [Option.some_or, viewed]
        constructor
        · intro shown
          cases isData.symm.trans shown
          exact ⟨parent, accepted, rfl⟩
        · intro shown
          cases shown.2.2
          exact isData
    | none =>
        rw [Option.none_or]
        constructor
        · intro shown
          obtain ⟨doc, result, isData⟩ := Option.bind_eq_some_iff.mp shown
          obtain ⟨_, parent, stored, same, accepted, viewed⟩ := updatedOnly key doc result
          cases isData.symm.trans same
          exact ⟨parent, accepted, viewed⟩
        · intro shown
          obtain ⟨parent, accepted, viewed⟩ := shown
          refine (updatedAll key data parent accepted viewed).resolve_right fun stale => ?_
          have remote := listed key data parent accepted stale
          have kept := previousAll key data remote parent accepted viewed
          rw [previous] at kept
          cases kept

/-- Ann is cached and Bob only pending, the engine finds both. -/
theorem indexFreeQuery_agrees_twoUsers :
    let ann : DocumentKey := ⟨["users", "ann"], rfl⟩
    let bob : DocumentKey := ⟨["users", "bob"], rfl⟩
    let view : LocalDocumentsView :=
      ⟨MemoryRemoteDocumentCache.initial.add (.document ann [] 2 .synced) 2,
        ⟨[⟨1, [], [.set bob [] .none], List.cons_ne_nil _ _⟩], 2, {⟨bob, 1⟩}⟩⟩
    let query : CollectionQuery := ⟨["users"], rfl, fun _ data => data = [], false⟩
    ∃ results, view.indexFreeQuery query 2 {ann} = some results ∧
      contents (results.get? ann) = some [] ∧ contents (results.get? bob) = some [] := by
  intro ann bob view query
  have sound : view.Sound := by
    refine ⟨⟨rfl, Nat.lt_succ_self 1, fun reference => ?_⟩, fun batch member => ?_⟩
    · have listed : reference ∈ view.mutationQueue.batchesByDocumentKey ↔
          reference = ⟨bob, 1⟩ := Finset.mem_singleton
      rw [listed]
      constructor
      · rintro rfl
        exact ⟨_, List.mem_cons_self, rfl, List.mem_cons_self⟩
      · intro indexed
        obtain ⟨batch, member, same, writes⟩ := indexed
        cases List.mem_singleton.mp member
        cases reference
        cases same
        cases List.mem_singleton.mp writes
        rfl
    · cases List.mem_singleton.mp member
      refine ⟨rfl, List.pairwise_singleton _ _, fun mutation own => ?_, fun key => ?_⟩
      · cases List.mem_singleton.mp own
        exact ObjectValue.sorted_nil
      · unfold Mutation.Grounded
        split_ifs
        · rfl
        · trivial
  have cached : ∀ key entry, view.remoteDocumentCache.docs.get? key = some entry →
      key = ann ∧ entry.2 = 2 := by
    intro key entry found
    by_cases same : key = ann
    · subst same
      cases (Collection.get?_set_self _ _ _).symm.trans found
      exact ⟨rfl, rfl⟩
    · have absent : view.remoteDocumentCache.docs.get? key = none :=
        (Collection.get?_set_of_ne _ same _).trans (Collection.get?_empty key)
      cases absent.symm.trans found
  obtain ⟨results, found, agrees⟩ := indexFreeQuery_agrees sound
    (fun key entry stored => (cached key entry stored).2 ▸ Nat.zero_lt_two) query 2 {ann}
    fun key data _ _ stale => by
      obtain ⟨entry, stored, _⟩ := stale
      exact Finset.mem_singleton.mpr (cached key entry stored).1
  refine ⟨results, found, (agrees ann []).mpr ⟨by decide, by decide, ?_⟩,
    (agrees bob []).mpr ⟨by decide, by decide, ?_⟩⟩
  · rw [getDocument_eq sound]
    rfl
  · rw [getDocument_eq sound]
    rfl

end LocalDocumentsView

end Bowfolio.Firestore
