import Mathlib.Data.Finset.Sort
import Mathlib.Data.Prod.Lex
import Bowfolio.Foundation.Machine
import Bowfolio.Foundation.OrderedScan
import Bowfolio.Firestore.MutationBatch

/-!
# The mutation queue

The pending batches in the order of their ids, and an index of the batches by the keys
they write. Lookups use the position of an id and scans of the index; in every state
that the queue reaches they return what a search of all batches returns, and no
assertion fails (`mutationQueue_run`).
-/

namespace Bowfolio.Firestore

/-- The keys of a `DocumentKeySet`, in the order of its iterators. -/
def DocumentKey.inOrder (keys : Finset DocumentKey) : List DocumentKey :=
  keys.sort (· ≤ ·)

@[simp] theorem DocumentKey.mem_inOrder {keys : Finset DocumentKey} {key : DocumentKey} :
    key ∈ DocumentKey.inOrder keys ↔ key ∈ keys :=
  Finset.mem_sort _

/-- No key occurs twice in order. -/
theorem DocumentKey.nodup_inOrder (keys : Finset DocumentKey) : (DocumentKey.inOrder keys).Nodup :=
  Finset.sort_nodup keys (· ≤ ·)

/-- `DocumentKeyReference`. -/
structure DocumentKeyReference where
  key : DocumentKey
  refId : Nat
  deriving DecidableEq

namespace DocumentKeyReference

/-- The pair that `DocumentKeyReference::ByKey` compares. -/
def position (reference : DocumentKeyReference) : DocumentKey ×ₗ Nat :=
  toLex (reference.key, reference.refId)

/-- A reference is determined by its key and identifier. -/
theorem position_injective : Function.Injective position := by
  intro first second same
  cases first
  cases second
  cases toLex.injective same
  rfl

instance : LinearOrder DocumentKeyReference :=
  LinearOrder.lift' position position_injective

theorem le_iff {first second : DocumentKeyReference} :
    first ≤ second ↔ first.key < second.key ∨
      first.key = second.key ∧ first.refId ≤ second.refId :=
  Prod.Lex.toLex_le_toLex

end DocumentKeyReference

/-- `MemoryMutationQueue`. -/
structure MemoryMutationQueue where
  queue : List MutationBatch
  nextBatchId : Nat
  batchesByDocumentKey : Finset DocumentKeyReference
  deriving DecidableEq

namespace MemoryMutationQueue

/-- A new queue. -/
def initial : MemoryMutationQueue := ⟨[], 1, ∅⟩

variable (queue : MemoryMutationQueue)

/-- `MemoryMutationQueue::Start`. -/
def start : MemoryMutationQueue :=
  if queue.queue = [] then { queue with nextBatchId := 1 } else queue

/-- `MemoryMutationQueue::AddMutationBatch`, which asserts that there are mutations and
that the ids increase. -/
def addMutationBatch (baseMutations mutations : List Mutation) :
    Option (MutationBatch × MemoryMutationQueue) :=
  if nonempty : mutations ≠ [] then
    if queue.queue.getLast?.all fun prior => prior.batchId < queue.nextBatchId then
      let batch : MutationBatch := ⟨queue.nextBatchId, baseMutations, mutations, nonempty⟩
      some (batch,
        { queue := queue.queue ++ [batch]
          nextBatchId := queue.nextBatchId + 1
          batchesByDocumentKey := mutations.foldl
            (fun index mutation => insert ⟨mutation.key, batch.batchId⟩ index)
            queue.batchesByDocumentKey })
    else none
  else none

/-- `MemoryMutationQueue::AcknowledgeBatch`, without the stream token. -/
def acknowledgeBatch (batch : MutationBatch) : Option MemoryMutationQueue :=
  match queue.queue with
  | [] => none
  | check :: _ => if batch.batchId = check.batchId then some queue else none

/-- `MemoryMutationQueue::RemoveMutationBatch`, which asserts that the batch is the first. -/
def removeMutationBatch (batch : MutationBatch) : Option MemoryMutationQueue :=
  match queue.queue with
  | [] => none
  | head :: rest =>
      if head.batchId = batch.batchId then
        some { queue with
          queue := rest
          batchesByDocumentKey := batch.mutations.foldl
            (fun index mutation => index.erase ⟨mutation.key, batch.batchId⟩)
            queue.batchesByDocumentKey }
      else none

/-- `MemoryMutationQueue::IndexOfBatchId`. -/
def indexOfBatchId (batchId : Int) : Int :=
  match queue.queue with
  | [] => 0
  | firstBatch :: _ => batchId - firstBatch.batchId

/-- `MemoryMutationQueue::LookupMutationBatch`; the outer option is the assertion that the
batch found has the id. -/
def lookupMutationBatch (batchId : Nat) : Option (Option MutationBatch) :=
  if queue.queue = [] then some none
  else if queue.indexOfBatchId batchId < 0 then some none
  else
    match queue.queue[(queue.indexOfBatchId batchId).toNat]? with
    | none => some none
    | some batch => if batch.batchId = batchId then some (some batch) else none

/-- `MemoryMutationQueue::NextMutationBatchAfterBatchId`. -/
def nextMutationBatchAfterBatchId (batchId : Int) : Option MutationBatch :=
  queue.queue[(queue.indexOfBatchId (batchId + 1)).toNat]?

/-- `MemoryMutationQueue::AllMutationBatchesWithIds`. -/
def allMutationBatchesWithIds (batchIds : Finset Nat) : Option (List MutationBatch) :=
  ((batchIds.sort (· ≤ ·)).mapM queue.lookupMutationBatch).map (List.filterMap id)

/-- The references to one key, from the first possible one on. -/
def referencesTo (key : DocumentKey) : List DocumentKeyReference :=
  scanFrom id (queue.batchesByDocumentKey.sort (· ≤ ·)) ⟨key, 0⟩
    fun reference => reference.key = key

/-- `MemoryMutationQueue::AllMutationBatchesAffectingDocumentKey`, which asserts that the
batches in the index exist. -/
def allMutationBatchesAffectingDocumentKey (key : DocumentKey) : Option (List MutationBatch) :=
  (queue.referencesTo key).mapM fun reference => (queue.lookupMutationBatch reference.refId).join

/-- `MemoryMutationQueue::AllMutationBatchesAffectingDocumentKeys`. -/
def allMutationBatchesAffectingDocumentKeys (documentKeys : Finset DocumentKey) :
    Option (List MutationBatch) :=
  queue.allMutationBatchesWithIds
    ((DocumentKey.inOrder documentKeys).foldl (fun batchIds key =>
      (queue.referencesTo key).foldl (fun batchIds reference =>
        insert reference.refId batchIds) batchIds) ∅)

/-- The first key that the scan for a query looks at. -/
def startKey (path : ResourcePath) : DocumentKey :=
  if even : path.length % 2 = 0 then ⟨path, even⟩
  else ⟨path ++ [""], by rw [List.length_append, List.length_singleton]; omega⟩

/-- `MemoryMutationQueue::AllMutationBatchesAffectingQuery`, from the path of the query. -/
def allMutationBatchesAffectingQuery (path : ResourcePath) : Option (List MutationBatch) :=
  let references := scanFrom id (queue.batchesByDocumentKey.sort (· ≤ ·)) ⟨startKey path, 0⟩
    fun reference => path.isPrefixOf reference.key.path
  queue.allMutationBatchesWithIds
    (references.foldl (fun batchIds reference =>
      if reference.key.path.length ≠ path.length + 1 then batchIds
      else insert reference.refId batchIds) ∅)

/-- `MemoryMutationQueue::ContainsKey`. -/
def containsKey (key : DocumentKey) : Bool :=
  match (queue.batchesByDocumentKey.sort (· ≤ ·)).dropWhile fun reference =>
      reference < ⟨key, 0⟩ with
  | [] => false
  | begin :: _ => begin.key = key

/-- `MemoryMutationQueue::PerformConsistencyCheck`. -/
def performConsistencyCheck : Option Unit :=
  if queue.queue = [] ∧ queue.batchesByDocumentKey ≠ ∅ then none else some ()

@[simp] theorem queue_start : queue.start.queue = queue.queue := by
  rw [start]
  split <;> rfl

/-! ## The invariant -/

/-- The ids are consecutive up to the next one, and the index lists for every key the
batches that write it. -/
structure Invariant : Prop where
  consecutive : Consecutive MutationBatch.batchId (queue.nextBatchId - queue.queue.length)
    queue.queue
  positive : queue.queue.length < queue.nextBatchId
  indexed : ∀ reference, reference ∈ queue.batchesByDocumentKey ↔
    ∃ batch ∈ queue.queue, batch.batchId = reference.refId ∧ reference.key ∈ batch.keys

/-! ### Sets that loops collect -/

section Sets

variable {Item Element : Type} [DecidableEq Element] (element : Item → Element)

/-- Inserting for each item adds the elements of the items. -/
theorem mem_foldl_insert (items : List Item) (set : Finset Element) (wanted : Element) :
    wanted ∈ items.foldl (fun set item => insert (element item) set) set ↔
      wanted ∈ set ∨ ∃ item ∈ items, element item = wanted := by
  induction items generalizing set with
  | nil => simp
  | cons item items ih =>
      rw [List.foldl_cons, ih, Finset.mem_insert, List.exists_mem_cons_iff,
        @eq_comm _ wanted (element item)]
      tauto

/-- Erasing for each item leaves the elements of none. -/
theorem mem_foldl_erase (items : List Item) (set : Finset Element) (wanted : Element) :
    wanted ∈ items.foldl (fun set item => set.erase (element item)) set ↔
      wanted ∈ set ∧ ∀ item ∈ items, element item ≠ wanted := by
  induction items generalizing set with
  | nil => simp
  | cons item items ih =>
      rw [List.foldl_cons, ih, Finset.mem_erase, List.forall_mem_cons]
      tauto

end Sets

/-! ### The start of a scan -/

/-- The start of a scan lies at its path or after it. -/
theorem path_le_startKey (path : ResourcePath) : path ≤ (startKey path).path := by
  rw [startKey]
  split_ifs
  · exact le_refl path
  · exact le_of_isPrefix (List.prefix_append path [""])

/-- The start of a scan lies before every key below its path. -/
theorem startKey_le {path : ResourcePath} {key : DocumentKey} (extended : path <+: key.path) :
    (startKey path).path ≤ key.path := by
  rw [startKey]
  split_ifs with even
  · exact le_of_isPrefix extended
  · obtain ⟨rest, same⟩ := extended
    have parity := key.isDocumentKey
    rw [← same] at parity ⊢
    cases rest with
    | nil =>
        rw [List.append_nil] at parity
        exact absurd parity even
    | cons segment rest =>
        refine append_le_append path (singleton_le_cons (not_lt.mp ?_) rest)
        rw [String.lt_iff_toList_lt]
        exact List.not_lt_nil _

/-- The keys below a path are the first ones from its start key on. -/
theorem interval_startKey (path : ResourcePath) :
    Interval (startKey path) fun key => path.isPrefixOf key.path := by
  refine ⟨fun key below => startKey_le (List.isPrefixOf_iff_prefix.mp below),
    fun key other above ordered below => ?_⟩
  have lower : (startKey path).path ≤ key.path := above
  exact List.isPrefixOf_iff_prefix.mpr (isPrefix_of_between
    ((path_le_startKey path).trans lower) ordered (List.isPrefixOf_iff_prefix.mp below))

/-- So are the references to them. -/
theorem interval_references (path : ResourcePath) :
    Interval (⟨startKey path, 0⟩ : DocumentKeyReference)
      fun reference => path.isPrefixOf reference.key.path := by
  have keys : ∀ {first second : DocumentKeyReference}, first ≤ second →
      first.key ≤ second.key := by
    intro first second less
    rcases DocumentKeyReference.le_iff.mp less with before | ⟨same, _⟩
    · exact before.le
    · exact same.le
  refine ⟨fun reference below => ?_, fun reference other above ordered below => ?_⟩
  · rcases lt_or_eq_of_le ((interval_startKey path).above reference.key below) with before | same
    · exact DocumentKeyReference.le_iff.mpr (.inl before)
    · exact DocumentKeyReference.le_iff.mpr (.inr ⟨same, Nat.zero_le _⟩)
  · exact (interval_startKey path).closed _ _ (keys above) (keys ordered) below

/-! ### What keeps the invariant and what it gives -/

namespace Invariant

variable {queue}

theorem initial : Invariant initial :=
  ⟨rfl, Nat.zero_lt_one, fun reference => by simp [MemoryMutationQueue.initial]⟩

theorem sorted (invariant : Invariant queue) :
    queue.queue.Pairwise fun first second => first.batchId < second.batchId :=
  invariant.consecutive.sorted

/-- The next identifier is greater than all in use. -/
theorem batchId_lt (invariant : Invariant queue) {batch : MutationBatch}
    (member : batch ∈ queue.queue) : batch.batchId < queue.nextBatchId := by
  have bounds := invariant.consecutive.number_mem member
  have positive := invariant.positive
  omega

theorem start (invariant : Invariant queue) : Invariant queue.start := by
  rw [MemoryMutationQueue.start]
  split
  · next bare =>
      refine ⟨?_, ?_, invariant.indexed⟩
      · simp only [bare]
        rfl
      · simp [bare]
  · exact invariant

/-- Adding a batch succeeds and puts it last. -/
theorem addMutationBatch (invariant : Invariant queue) (baseMutations : List Mutation)
    {mutations : List Mutation} (nonempty : mutations ≠ []) :
    ∃ next, queue.addMutationBatch baseMutations mutations =
        some (⟨queue.nextBatchId, baseMutations, mutations, nonempty⟩, next) ∧
      next.queue = queue.queue ++ [⟨queue.nextBatchId, baseMutations, mutations, nonempty⟩] ∧
      Invariant next := by
  have increasing :
      (queue.queue.getLast?.all fun prior => prior.batchId < queue.nextBatchId) = true := by
    cases last : queue.queue.getLast? with
    | none => rfl
    | some prior =>
        exact decide_eq_true (invariant.batchId_lt (List.mem_of_getLast? last))
  refine ⟨_, by rw [MemoryMutationQueue.addMutationBatch, dif_pos nonempty, if_pos increasing],
    rfl, ?_, ?_, ?_⟩
  · have positive := invariant.positive
    rw [List.length_append, List.length_singleton, Nat.add_sub_add_right]
    refine invariant.consecutive.append_singleton ?_
    dsimp only
    omega
  · have positive := invariant.positive
    simp only [List.length_append, List.length_singleton]
    omega
  · intro reference
    rw [mem_foldl_insert, invariant.indexed]
    constructor
    · intro listed
      rcases listed with ⟨batch, member, same, writes⟩ | ⟨mutation, member, rfl⟩
      · exact ⟨batch, List.mem_append_left _ member, same, writes⟩
      · exact ⟨_, List.mem_append_right _ List.mem_cons_self, rfl, List.mem_map_of_mem member⟩
    · intro listed
      obtain ⟨batch, member, same, writes⟩ := listed
      rcases List.mem_append.mp member with old | new
      · exact .inl ⟨batch, old, same, writes⟩
      · cases List.mem_singleton.mp new
        obtain ⟨mutation, own, key⟩ := List.mem_map.mp writes
        refine .inr ⟨mutation, own, ?_⟩
        cases reference
        cases key
        cases same
        rfl

/-- Removing the first batch succeeds. -/
theorem removeMutationBatch (invariant : Invariant queue) {head : MutationBatch}
    {rest : List MutationBatch} (front : queue.queue = head :: rest) :
    ∃ next, queue.removeMutationBatch head = some next ∧ next.queue = rest ∧
      next.nextBatchId = queue.nextBatchId ∧ Invariant next := by
  have consecutive := invariant.consecutive
  have positive := invariant.positive
  have sorted := invariant.sorted
  rw [front] at consecutive positive sorted
  rw [List.length_cons] at consecutive positive
  have removed : queue.removeMutationBatch head = some { queue with
      queue := rest
      batchesByDocumentKey := head.mutations.foldl
        (fun index mutation => index.erase ⟨mutation.key, head.batchId⟩)
        queue.batchesByDocumentKey } := by
    rw [MemoryMutationQueue.removeMutationBatch, front]
    exact if_pos rfl
  refine ⟨_, removed, rfl, rfl, ?_, ?_, ?_⟩
  · have tail := (Consecutive.cons_iff.mp consecutive).2
    have first : queue.nextBatchId - (rest.length + 1) + 1 = queue.nextBatchId - rest.length := by
      omega
    rwa [first] at tail
  · dsimp only
    omega
  · intro reference
    rw [mem_foldl_erase, invariant.indexed, front]
    constructor
    · intro listed
      obtain ⟨⟨batch, member, same, writes⟩, kept⟩ := listed
      rcases List.mem_cons.mp member with rfl | later
      · obtain ⟨mutation, own, key⟩ := List.mem_map.mp writes
        refine absurd ?_ (kept mutation own)
        rw [key, same]
      · exact ⟨batch, later, same, writes⟩
    · intro listed
      obtain ⟨batch, later, same, writes⟩ := listed
      refine ⟨⟨batch, List.mem_cons_of_mem _ later, same, writes⟩, fun mutation _ equal => ?_⟩
      have before := (List.pairwise_cons.mp sorted).1 batch later
      have ids := congrArg DocumentKeyReference.refId equal
      dsimp only at ids
      omega

/-- The batch with an id is found at its position. -/
theorem lookupMutationBatch (invariant : Invariant queue) (batchId : Nat) :
    queue.lookupMutationBatch batchId =
      some (queue.queue.find? fun batch => batch.batchId = batchId) := by
  have consecutive := invariant.consecutive
  rw [consecutive.find_number, MemoryMutationQueue.lookupMutationBatch,
    MemoryMutationQueue.indexOfBatchId]
  generalize queue.nextBatchId - queue.queue.length = first at consecutive
  cases front : queue.queue with
  | nil => simp
  | cons head rest =>
      rw [front] at consecutive
      obtain rfl := (Consecutive.cons_iff.mp consecutive).1
      dsimp only
      rw [if_neg (List.cons_ne_nil _ _)]
      by_cases later : head.batchId ≤ batchId
      · have position : ((batchId : Int) - head.batchId).toNat = batchId - head.batchId := by omega
        rw [if_neg (by omega), if_pos later, position]
        cases found : (head :: rest)[batchId - head.batchId]? with
        | none => rfl
        | some batch =>
            have same := consecutive.find_number batchId
            rw [if_pos later, found] at same
            have id := List.find?_some same
            dsimp only
            rw [if_pos (of_decide_eq_true id)]
      · rw [if_pos (by omega), if_neg later]

/-- The next batch by position is the next by identifier. -/
theorem nextMutationBatchAfterBatchId (invariant : Invariant queue) (batchId : Int) :
    queue.nextMutationBatchAfterBatchId batchId =
      queue.queue.find? fun batch => batchId < batch.batchId := by
  have consecutive := invariant.consecutive
  have above : (fun batch : MutationBatch => decide (batchId < batch.batchId)) =
      fun batch => decide ((batchId + 1).toNat ≤ batch.batchId) := by
    funext batch
    rw [decide_eq_decide]
    omega
  rw [above, consecutive.find_from, MemoryMutationQueue.nextMutationBatchAfterBatchId,
    MemoryMutationQueue.indexOfBatchId]
  cases front : queue.queue with
  | nil => simp
  | cons head rest =>
      rw [front] at consecutive
      have position : (batchId + 1 - head.batchId).toNat =
          (batchId + 1).toNat - head.batchId := by omega
      rw [← (Consecutive.cons_iff.mp consecutive).1]
      dsimp only
      rw [position]

/-- A set of ids gives the batches with these ids in the order of the queue. -/
theorem allMutationBatchesWithIds (invariant : Invariant queue) {batchIds : Finset Nat}
    {chosen : MutationBatch → Bool}
    (carried : ∀ batchId, batchId ∈ batchIds ↔
      ∃ batch ∈ queue.queue, batch.batchId = batchId ∧ chosen batch) :
    queue.allMutationBatchesWithIds batchIds = some (queue.queue.filter chosen) := by
  have lookups : (batchIds.sort (· ≤ ·)).mapM queue.lookupMutationBatch =
      some ((batchIds.sort (· ≤ ·)).map fun batchId =>
        queue.queue.find? fun batch => batch.batchId = batchId) := by
    induction batchIds.sort (· ≤ ·) with
    | nil => rfl
    | cons batchId rest ih =>
        rw [List.mapM_cons, ih, invariant.lookupMutationBatch]
        rfl
  rw [MemoryMutationQueue.allMutationBatchesWithIds, lookups, Option.map_some,
    ← filterMap_find_eq_filter invariant.sorted (Finset.sortedLT_sort batchIds).pairwise
      (fun wanted => by rw [Finset.mem_sort, carried]), List.filterMap_map]
  rfl

/-- The references to a key, in the order of the ids. -/
theorem referencesTo (invariant : Invariant queue) (key : DocumentKey) :
    (queue.referencesTo key).map DocumentKeyReference.refId =
      (queue.queue.filter fun batch => key ∈ batch.keys).map MutationBatch.batchId := by
  have interval : Interval (⟨key, 0⟩ : DocumentKeyReference)
      fun reference => reference.key = key := by
    refine ⟨fun reference same => ?_, fun reference other above below same => ?_⟩
    · exact DocumentKeyReference.le_iff.mpr (.inr ⟨(of_decide_eq_true same).symm, Nat.zero_le _⟩)
    · have upper := of_decide_eq_true same
      refine decide_eq_true ?_
      rcases DocumentKeyReference.le_iff.mp above with before | ⟨equal, _⟩
      · rcases DocumentKeyReference.le_iff.mp below with after | ⟨equal, _⟩
        · exact absurd (before.trans (upper ▸ after)) (lt_irrefl key)
        · exact equal.trans upper
      · exact equal.symm
  have sorted := (Finset.sortedLT_sort queue.batchesByDocumentKey).pairwise
  have scan : queue.referencesTo key = (queue.batchesByDocumentKey.sort (· ≤ ·)).filter
      fun reference => reference.key = key :=
    scanFrom_eq_filter interval (sorted.imp le_of_lt)
  refine eq_map_filter invariant.sorted (List.pairwise_map.mpr ?_) fun wanted => ?_
  · rw [scan]
    refine (sorted.filter _).imp_of_mem fun {first second} one other before => ?_
    have firstKey := of_decide_eq_true (List.mem_filter.mp one).2
    have secondKey := of_decide_eq_true (List.mem_filter.mp other).2
    rcases DocumentKeyReference.le_iff.mp before.le with apart | ⟨_, below⟩
    · exact absurd (firstKey.trans secondKey.symm) apart.ne
    · refine lt_of_le_of_ne below fun equal => before.ne ?_
      cases first
      cases second
      cases firstKey
      cases secondKey
      cases equal
      rfl
  · rw [scan, List.mem_map]
    constructor
    · intro listed
      obtain ⟨reference, member, rfl⟩ := listed
      obtain ⟨indexed, same⟩ := List.mem_filter.mp member
      obtain ⟨batch, queued, id, writes⟩ :=
        (invariant.indexed reference).mp ((Finset.mem_sort _).mp indexed)
      exact ⟨batch, queued, id, decide_eq_true (of_decide_eq_true same ▸ writes)⟩
    · intro carried
      obtain ⟨batch, queued, id, writes⟩ := carried
      have indexed := (invariant.indexed ⟨key, wanted⟩).mpr
        ⟨batch, queued, id, of_decide_eq_true writes⟩
      exact ⟨⟨key, wanted⟩, List.mem_filter.mpr ⟨(Finset.mem_sort _).mpr indexed,
        decide_eq_true rfl⟩, rfl⟩

/-- The references to a document are those of the batches that write it. -/
theorem mem_referencesTo (invariant : Invariant queue) {key : DocumentKey} {batchId : Nat} :
    (∃ reference ∈ queue.referencesTo key, reference.refId = batchId) ↔
      ∃ batch ∈ queue.queue, batch.batchId = batchId ∧ key ∈ batch.keys := by
  rw [← List.mem_map, invariant.referencesTo, List.mem_map]
  simp only [List.mem_filter, decide_eq_true_eq]
  exact exists_congr fun batch => by tauto

/-- The batches that write a key. -/
theorem allMutationBatchesAffectingDocumentKey (invariant : Invariant queue) (key : DocumentKey) :
    queue.allMutationBatchesAffectingDocumentKey key =
      some (queue.queue.filter fun batch => key ∈ batch.keys) := by
  have lookups : (queue.referencesTo key).mapM
        (fun reference => (queue.lookupMutationBatch reference.refId).join) =
      ((queue.referencesTo key).map DocumentKeyReference.refId).mapM fun batchId =>
        queue.queue.find? fun batch => batch.batchId = batchId := by
    induction queue.referencesTo key with
    | nil => rfl
    | cons reference rest ih =>
        rw [List.mapM_cons, ih, List.map_cons, List.mapM_cons, invariant.lookupMutationBatch]
        rfl
  rw [MemoryMutationQueue.allMutationBatchesAffectingDocumentKey, lookups, invariant.referencesTo,
    mapM_find invariant.sorted fun batch member => (List.mem_filter.mp member).1]

/-- The batches that write one of some keys. -/
theorem allMutationBatchesAffectingDocumentKeys (invariant : Invariant queue)
    (documentKeys : Finset DocumentKey) :
    queue.allMutationBatchesAffectingDocumentKeys documentKeys =
      some (queue.queue.filter fun batch => ∃ key ∈ batch.keys, key ∈ documentKeys) := by
  have collected : ∀ (keys : List DocumentKey) (batchIds : Finset Nat) (batchId : Nat),
      batchId ∈ keys.foldl (fun batchIds key =>
          (queue.referencesTo key).foldl (fun batchIds reference =>
            insert reference.refId batchIds) batchIds) batchIds ↔
        batchId ∈ batchIds ∨
          ∃ key ∈ keys, ∃ batch ∈ queue.queue, batch.batchId = batchId ∧ key ∈ batch.keys := by
    intro keys
    induction keys with
    | nil => simp
    | cons key keys ih =>
        intro batchIds batchId
        rw [List.foldl_cons, ih, mem_foldl_insert, invariant.mem_referencesTo, or_assoc,
          List.exists_mem_cons_iff]
  refine invariant.allMutationBatchesWithIds fun batchId => ?_
  rw [collected]
  simp only [Finset.notMem_empty, false_or, DocumentKey.mem_inOrder, decide_eq_true_eq]
  constructor
  · intro listed
    obtain ⟨key, wanted, batch, queued, id, writes⟩ := listed
    exact ⟨batch, queued, id, key, writes, wanted⟩
  · intro carried
    obtain ⟨batch, queued, id, key, writes, wanted⟩ := carried
    exact ⟨key, wanted, batch, queued, id, writes⟩

/-- The batches that write a document directly below a path. -/
theorem allMutationBatchesAffectingQuery (invariant : Invariant queue) (path : ResourcePath) :
    queue.allMutationBatchesAffectingQuery path =
      some (queue.queue.filter fun batch =>
        batch.keys.any fun key => path.isImmediateParentOf key.path) := by
  have collected : ∀ (references : List DocumentKeyReference) (batchIds : Finset Nat)
      (batchId : Nat),
      batchId ∈ references.foldl (fun batchIds reference =>
          if reference.key.path.length ≠ path.length + 1 then batchIds
          else insert reference.refId batchIds) batchIds ↔
        batchId ∈ batchIds ∨ ∃ reference ∈ references,
          reference.refId = batchId ∧ reference.key.path.length = path.length + 1 := by
    intro references
    induction references with
    | nil => simp
    | cons reference references ih =>
        intro batchIds batchId
        rw [List.foldl_cons, ih, List.exists_mem_cons_iff]
        by_cases deeper : reference.key.path.length = path.length + 1
        · simp only [deeper, ne_eq, not_true_eq_false, ↓reduceIte, Finset.mem_insert, and_true,
            @eq_comm _ batchId reference.refId]
          tauto
        · simp only [deeper, ne_eq, not_false_eq_true, ↓reduceIte, and_false, false_or]
  have sorted := (Finset.sortedLT_sort queue.batchesByDocumentKey).pairwise
  have scan : scanFrom id (queue.batchesByDocumentKey.sort (· ≤ ·)) ⟨startKey path, 0⟩
        (fun reference => path.isPrefixOf reference.key.path) =
      (queue.batchesByDocumentKey.sort (· ≤ ·)).filter
        fun reference => path.isPrefixOf reference.key.path :=
    scanFrom_eq_filter (interval_references path) (sorted.imp le_of_lt)
  rw [MemoryMutationQueue.allMutationBatchesAffectingQuery, scan]
  refine invariant.allMutationBatchesWithIds fun batchId => ?_
  rw [collected]
  simp only [Finset.notMem_empty, false_or, List.mem_filter, Finset.mem_sort, invariant.indexed,
    List.any_eq_true, ResourcePath.isImmediateParentOf, Bool.and_eq_true, decide_eq_true_eq]
  constructor
  · intro listed
    obtain ⟨reference, ⟨⟨batch, queued, id, writes⟩, below⟩, rfl, deeper⟩ := listed
    exact ⟨batch, queued, id, reference.key, writes, deeper.symm, below⟩
  · intro carried
    obtain ⟨batch, queued, id, key, writes, deeper, below⟩ := carried
    exact ⟨⟨key, batchId⟩, ⟨⟨batch, queued, id, writes⟩, below⟩, rfl, deeper.symm⟩

/-- The index knows exactly the documents of pending batches. -/
theorem containsKey (invariant : Invariant queue) (key : DocumentKey) :
    queue.containsKey key ↔ ∃ batch ∈ queue.queue, key ∈ batch.keys := by
  have first : queue.containsKey key ↔ queue.referencesTo key ≠ [] := by
    rw [MemoryMutationQueue.containsKey, MemoryMutationQueue.referencesTo, scanFrom]
    dsimp only [id]
    cases (queue.batchesByDocumentKey.sort (· ≤ ·)).dropWhile fun reference =>
        decide (reference < ⟨key, 0⟩) with
    | nil => simp
    | cons begin rest => by_cases same : begin.key = key <;> simp [same]
  rw [first, ne_eq, ← List.map_eq_nil_iff, invariant.referencesTo, List.map_eq_nil_iff,
    List.filter_eq_nil_iff]
  simp

/-- A queue with the invariant passes its consistency check. -/
theorem performConsistencyCheck (invariant : Invariant queue) :
    queue.performConsistencyCheck = some () := by
  refine if_neg fun leak => leak.2 (Finset.eq_empty_of_forall_notMem fun reference listed => ?_)
  obtain ⟨batch, queued, _⟩ := (invariant.indexed reference).mp listed
  rw [leak.1] at queued
  exact absurd queued List.not_mem_nil

end Invariant

end MemoryMutationQueue

/-! ## Runs -/

inductive QueueEvent where
  | start
  | add (baseMutations mutations : List Mutation)
  | remove (batchId : Nat)

/-- A queue that is started, appended to and emptied from the front; the batch to remove is
looked up by its id. -/
def queueMachine : Machine MemoryMutationQueue QueueEvent where
  step queue event :=
    match event with
    | .start => some queue.start
    | .add baseMutations mutations => (queue.addMutationBatch baseMutations mutations).map Prod.snd
    | .remove batchId => (queue.lookupMutationBatch batchId).join.bind queue.removeMutationBatch

namespace MemoryMutationQueue

variable {queue next : MemoryMutationQueue}

/-- Only nonempty mutations are added. -/
theorem addMutationBatch_inv {baseMutations mutations : List Mutation} {batch : MutationBatch}
    (added : queue.addMutationBatch baseMutations mutations = some (batch, next)) :
    mutations ≠ [] := by
  intro bare
  rw [addMutationBatch, dif_neg (not_not.mpr bare)] at added
  cases added

/-- Only the first batch is removed. -/
theorem removeMutationBatch_inv {batch : MutationBatch}
    (sorted : queue.queue.Pairwise fun first second => first.batchId < second.batchId)
    (member : batch ∈ queue.queue) (removed : queue.removeMutationBatch batch = some next) :
    ∃ rest, queue.queue = batch :: rest := by
  rw [removeMutationBatch] at removed
  cases front : queue.queue with
  | nil =>
      rw [front] at member
      exact absurd member List.not_mem_nil
  | cons head rest =>
      rw [front] at removed member sorted
      dsimp only at removed
      split_ifs at removed with same
      rcases List.mem_cons.mp member with rfl | later
      · exact ⟨rest, rfl⟩
      · have before := (List.pairwise_cons.mp sorted).1 batch later
        omega

/-- The first batch is the one that is acknowledged and removed, and both succeed. -/
theorem Invariant.first_iff (invariant : Invariant queue) {batch : MutationBatch}
    (member : batch ∈ queue.queue) :
    (queue.acknowledgeBatch batch = some queue ↔ queue.queue.head? = some batch) ∧
      ((∃ next, queue.removeMutationBatch batch = some next) ↔
        queue.queue.head? = some batch) := by
  obtain ⟨head, rest, front⟩ := List.exists_cons_of_ne_nil (List.ne_nil_of_mem member)
  have own : queue.queue.head? = some batch ↔ batch.batchId = head.batchId := by
    rw [front, List.head?_cons, Option.some.injEq]
    constructor
    · rintro rfl
      rfl
    · intro same
      have sorted := invariant.sorted
      rw [front] at sorted member
      rcases List.mem_cons.mp member with first | later
      · exact first.symm
      · have before := (List.pairwise_cons.mp sorted).1 batch later
        omega
  constructor
  · rw [own, acknowledgeBatch, front]
    simp
  · constructor
    · rintro ⟨next, removed⟩
      obtain ⟨_, first⟩ := removeMutationBatch_inv invariant.sorted member removed
      rw [first, List.head?_cons]
    · intro first
      rw [front, List.head?_cons, Option.some.injEq] at first
      obtain ⟨next, removed, _⟩ := invariant.removeMutationBatch (first ▸ front)
      exact ⟨next, removed⟩

/-- One event keeps the invariant. -/
theorem Invariant.step (invariant : Invariant queue) {event : QueueEvent}
    (stepped : queueMachine.step queue event = some next) : Invariant next := by
  cases event with
  | start =>
      cases stepped
      exact invariant.start
  | add baseMutations mutations =>
      obtain ⟨result, added, rfl⟩ := Option.map_eq_some_iff.mp stepped
      have nonempty := addMutationBatch_inv added
      obtain ⟨next, again, _, kept⟩ := invariant.addMutationBatch baseMutations nonempty
      cases again.symm.trans added
      exact kept
  | remove batchId =>
      obtain ⟨batch, found, removed⟩ := Option.bind_eq_some_iff.mp stepped
      rw [invariant.lookupMutationBatch] at found
      have member := List.mem_of_find?_eq_some found
      obtain ⟨rest, front⟩ := removeMutationBatch_inv invariant.sorted member removed
      obtain ⟨next, again, _, _, kept⟩ := invariant.removeMutationBatch front
      cases again.symm.trans removed
      exact kept

end MemoryMutationQueue

/-- **The queue over its runs.** However the queue was filled and emptied, the lookups by
position and by index return, in order, what a search of all batches returns, and none of
their assertions fails. Mutations are added at the end; of the pending batches exactly the
first one can be acknowledged and removed, which leaves the others. -/
theorem mutationQueue_run {events : List QueueEvent} {queue : MemoryMutationQueue}
    (ran : queueMachine.run .initial events = some queue) :
    (∀ batchId, queue.lookupMutationBatch batchId =
      some (queue.queue.find? fun batch => batch.batchId = batchId)) ∧
    (∀ batchId, queue.nextMutationBatchAfterBatchId batchId =
      queue.queue.find? fun batch => batchId < batch.batchId) ∧
    (∀ key, queue.allMutationBatchesAffectingDocumentKey key =
      some (queue.queue.filter fun batch => key ∈ batch.keys)) ∧
    (∀ keys, queue.allMutationBatchesAffectingDocumentKeys keys =
      some (queue.queue.filter fun batch => ∃ key ∈ batch.keys, key ∈ keys)) ∧
    (∀ path, queue.allMutationBatchesAffectingQuery path =
      some (queue.queue.filter fun batch =>
        batch.keys.any fun key => path.isImmediateParentOf key.path)) ∧
    (∀ key, queue.containsKey key ↔ ∃ batch ∈ queue.queue, key ∈ batch.keys) ∧
    queue.performConsistencyCheck = some () ∧
    (∀ baseMutations mutations, mutations ≠ [] → ∃ batch next,
      queue.addMutationBatch baseMutations mutations = some (batch, next) ∧
        next.queue = queue.queue ++ [batch]) ∧
    (∀ batch ∈ queue.queue,
      (queue.acknowledgeBatch batch = some queue ↔ queue.queue.head? = some batch) ∧
        ((∃ next, queue.removeMutationBatch batch = some next) ↔
          queue.queue.head? = some batch)) ∧
    ∀ head rest, queue.queue = head :: rest → ∃ next,
      queueMachine.step queue (.remove head.batchId) = some next ∧ next.queue = rest ∧
        next.performConsistencyCheck = some () := by
  have invariant := Machine.invariant_of_run
    (fun kept stepped => MemoryMutationQueue.Invariant.step kept stepped)
    MemoryMutationQueue.Invariant.initial ran
  refine ⟨invariant.lookupMutationBatch, invariant.nextMutationBatchAfterBatchId,
    invariant.allMutationBatchesAffectingDocumentKey,
    invariant.allMutationBatchesAffectingDocumentKeys,
    invariant.allMutationBatchesAffectingQuery, invariant.containsKey,
    invariant.performConsistencyCheck, fun baseMutations mutations nonempty => ?_,
    fun batch member => invariant.first_iff member, fun head rest front => ?_⟩
  · obtain ⟨next, added, appended, _⟩ := invariant.addMutationBatch baseMutations nonempty
    exact ⟨_, next, added, appended⟩
  · obtain ⟨next, removed, left, _, kept⟩ := invariant.removeMutationBatch front
    refine ⟨next, ?_, left, kept.performConsistencyCheck⟩
    have found : queue.lookupMutationBatch head.batchId = some (some head) := by
      rw [invariant.lookupMutationBatch, front]
      simp
    exact Option.bind_eq_some_iff.mpr ⟨head, congrArg Option.join found, removed⟩

/-- After the first of two batches is removed, the index lists the second one alone. -/
theorem mutationQueue_run_twoBatches :
    ∃ queue batch, queueMachine.run .initial
        [.start, .add [] [.delete ⟨["users", "ann"], rfl⟩ .none],
          .add [] [.delete ⟨["users", "bob"], rfl⟩ .none, .delete ⟨["users", "ann"], rfl⟩ .none],
          .remove 1] = some queue ∧
      batch.batchId = 2 ∧
      queue.allMutationBatchesAffectingDocumentKey ⟨["users", "ann"], rfl⟩ = some [batch] ∧
      queue.allMutationBatchesAffectingQuery ["profiles"] = some [] := by
  have ran : queueMachine.run .initial
      [.start, .add [] [.delete ⟨["users", "ann"], rfl⟩ .none],
        .add [] [.delete ⟨["users", "bob"], rfl⟩ .none, .delete ⟨["users", "ann"], rfl⟩ .none],
        .remove 1] = some _ := rfl
  have lookups := mutationQueue_run ran
  exact ⟨_, ⟨2, [], [.delete ⟨["users", "bob"], rfl⟩ .none, .delete ⟨["users", "ann"], rfl⟩ .none],
    List.cons_ne_nil _ _⟩, ran, rfl, lookups.2.2.1 _, lookups.2.2.2.2.1 _⟩

end Bowfolio.Firestore
