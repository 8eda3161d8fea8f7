import Mathlib.Data.List.Pairwise
import Mathlib.Data.List.Perm.Basic
import Mathlib.Data.List.Sort
import Mathlib.Order.Basic
import Mathlib.Order.Defs.LinearOrder
import Mathlib.Tactic.Basic

/-!
# Keyed collections in key order

A collection holds at most one document per key and lists its documents in
increasing key order. The order is a field of the structure, so a listing with a
repeated key cannot be built. Lookup and listing determine each other
(`Collection.get?_eq_some_iff`), and every other law is read off that.
-/

namespace Bowfolio

/-- Documents listed in strictly increasing order of their keys. -/
structure Collection (Key Doc : Type) [LinearOrder Key] where
  entries : List (Key × Doc)
  sorted : entries.Pairwise fun first second => first.1 < second.1

namespace Collection

variable {Key Doc : Type} [LinearOrder Key]

/-- Place one document, replacing the one under the same key. -/
def insertEntry (key : Key) (doc : Doc) : List (Key × Doc) → List (Key × Doc)
  | [] => [(key, doc)]
  | entry :: rest =>
      if key < entry.1 then (key, doc) :: entry :: rest
      else if entry.1 < key then entry :: insertEntry key doc rest
      else (key, doc) :: rest

/-- An insertion replaces the entry of its key and keeps all others. -/
theorem mem_insertEntry {key : Key} {doc : Doc} {entries : List (Key × Doc)}
    (sorted : entries.Pairwise fun first second => first.1 < second.1) (entry : Key × Doc) :
    entry ∈ insertEntry key doc entries ↔
      entry = (key, doc) ∨ entry ∈ entries ∧ entry.1 ≠ key := by
  induction entries with
  | nil => simp only [insertEntry, List.mem_singleton, List.not_mem_nil, false_and, or_false]
  | cons head rest ih =>
      obtain ⟨above, sorted⟩ := List.pairwise_cons.mp sorted
      simp only [insertEntry]
      split_ifs with before after
      · have apart : ∀ other ∈ head :: rest, other.1 ≠ key := by
          intro other member
          rcases List.mem_cons.mp member with rfl | member
          · exact ne_of_gt before
          · exact ne_of_gt (before.trans (above other member))
        rw [List.mem_cons]
        exact or_congr_right ⟨fun member => ⟨member, apart entry member⟩, And.left⟩
      · rw [List.mem_cons, ih sorted, List.mem_cons]
        have headApart : head.1 ≠ key := ne_of_lt after
        constructor
        · rintro (rfl | rfl | ⟨member, apart⟩)
          · exact .inr ⟨.inl rfl, headApart⟩
          · exact .inl rfl
          · exact .inr ⟨.inr member, apart⟩
        · rintro (rfl | ⟨rfl | member, apart⟩)
          · exact .inr (.inl rfl)
          · exact .inl rfl
          · exact .inr (.inr ⟨member, apart⟩)
      · have same : head.1 = key := le_antisymm (not_lt.mp before) (not_lt.mp after)
        have apart : ∀ other ∈ rest, other.1 ≠ key := by
          intro other member
          exact ne_of_gt (same ▸ above other member)
        rw [List.mem_cons, List.mem_cons]
        constructor
        · rintro (rfl | member)
          · exact .inl rfl
          · exact .inr ⟨.inr member, apart entry member⟩
        · rintro (rfl | ⟨rfl | member, different⟩)
          · exact .inl rfl
          · exact (different same).elim
          · exact .inr member

/-- An insertion keeps the keys increasing. -/
theorem insertEntry_sorted (key : Key) (doc : Doc) {entries : List (Key × Doc)}
    (sorted : entries.Pairwise fun first second => first.1 < second.1) :
    (insertEntry key doc entries).Pairwise fun first second => first.1 < second.1 := by
  induction entries with
  | nil => exact List.pairwise_singleton _ _
  | cons head rest ih =>
      obtain ⟨above, restSorted⟩ := List.pairwise_cons.mp sorted
      simp only [insertEntry]
      split_ifs with before after
      · refine List.pairwise_cons.mpr ⟨?_, sorted⟩
        intro other member
        rcases List.mem_cons.mp member with rfl | member
        · exact before
        · exact before.trans (above other member)
      · refine List.pairwise_cons.mpr ⟨?_, ih restSorted⟩
        intro other member
        rcases (mem_insertEntry restSorted other).mp member with rfl | ⟨member, _⟩
        · exact after
        · exact above other member
      · have same : head.1 = key := le_antisymm (not_lt.mp before) (not_lt.mp after)
        exact List.pairwise_cons.mpr ⟨fun other member => same ▸ above other member, restSorted⟩

/-! ## Entries in any order -/

/-- The first document listed under a key. -/
def findEntry (entries : List (Key × Doc)) (key : Key) : Option Doc :=
  (entries.find? fun entry => entry.1 = key).map Prod.snd

/-- The entries without those of one key. -/
def eraseEntry (entries : List (Key × Doc)) (key : Key) : List (Key × Doc) :=
  entries.filter fun entry => entry.1 ≠ key

section Entries

variable {key other : Key} {doc : Doc} {entries : List (Key × Doc)}

@[simp] theorem findEntry_nil (key : Key) : findEntry ([] : List (Key × Doc)) key = none := rfl

theorem findEntry_cons (entry : Key × Doc) (entries : List (Key × Doc)) (key : Key) :
    findEntry (entry :: entries) key =
      if entry.1 = key then some entry.2 else findEntry entries key := by
  by_cases same : entry.1 = key <;> simp [findEntry, same]

/-- What is found at a key is an entry with that key. -/
theorem mem_of_findEntry (found : findEntry entries key = some doc) : (key, doc) ∈ entries := by
  obtain ⟨entry, located, rfl⟩ := Option.map_eq_some_iff.mp found
  have same : entry.1 = key := by simpa only [decide_eq_true_eq] using List.find?_some located
  exact same ▸ List.mem_of_find?_eq_some located

/-- Among distinct keys every entry is found at its own. -/
theorem findEntry_of_mem (distinct : (entries.map Prod.fst).Nodup)
    (member : (key, doc) ∈ entries) : findEntry entries key = some doc := by
  induction entries with
  | nil => exact absurd member List.not_mem_nil
  | cons entry entries ih =>
      obtain ⟨fresh, distinct⟩ := List.nodup_cons.mp distinct
      rw [findEntry_cons]
      rcases List.mem_cons.mp member with rfl | later
      · exact if_pos rfl
      · rw [if_neg, ih distinct later]
        exact fun same => fresh (same ▸ List.mem_map_of_mem later)

/-- Increasing keys are distinct. -/
theorem nodup_keys (sorted : entries.Pairwise fun first second => first.1 < second.1) :
    (entries.map Prod.fst).Nodup :=
  List.pairwise_map.mpr (sorted.imp ne_of_lt)

/-- Nothing is found exactly at the keys without an entry. -/
theorem findEntry_eq_none_iff : findEntry entries key = none ↔ key ∉ entries.map Prod.fst := by
  rw [findEntry, Option.map_eq_none_iff, List.find?_eq_none]
  constructor
  · intro missing listed
    obtain ⟨entry, member, same⟩ := List.mem_map.mp listed
    exact missing entry member (decide_eq_true same)
  · intro missing entry member same
    exact missing (of_decide_eq_true same ▸ List.mem_map_of_mem member)

@[simp] theorem findEntry_insertEntry_self (key : Key) (doc : Doc) (entries : List (Key × Doc)) :
    findEntry (insertEntry key doc entries) key = some doc := by
  induction entries with
  | nil => simp [insertEntry, findEntry_cons]
  | cons entry entries ih =>
      simp only [insertEntry]
      split_ifs with before after
      · simp [findEntry_cons]
      · rw [findEntry_cons, if_neg (ne_of_lt after), ih]
      · simp [findEntry_cons]

/-- An insertion is not seen at other keys. -/
theorem findEntry_insertEntry_of_ne (apart : other ≠ key) (doc : Doc)
    (entries : List (Key × Doc)) :
    findEntry (insertEntry key doc entries) other = findEntry entries other := by
  induction entries with
  | nil => simp [insertEntry, findEntry_cons, apart.symm]
  | cons entry entries ih =>
      simp only [insertEntry]
      split_ifs with before after
      · rw [findEntry_cons, if_neg apart.symm]
      · rw [findEntry_cons, ih, findEntry_cons]
      · have same : entry.1 = key := le_antisymm (not_lt.mp before) (not_lt.mp after)
        rw [findEntry_cons, findEntry_cons, if_neg apart.symm, if_neg (same ▸ apart.symm)]

/-- Writing what is there already changes nothing. -/
theorem insertEntry_of_findEntry (sorted : entries.Pairwise fun first second => first.1 < second.1)
    (found : findEntry entries key = some doc) : insertEntry key doc entries = entries := by
  induction entries with
  | nil => cases found
  | cons entry entries ih =>
      obtain ⟨above, sorted⟩ := List.pairwise_cons.mp sorted
      rw [findEntry_cons] at found
      simp only [insertEntry]
      by_cases same : entry.1 = key
      · rw [if_pos same] at found
        cases found
        subst same
        simp
      · rw [if_neg same] at found
        have before : entry.1 < key := above _ (mem_of_findEntry found)
        rw [if_neg before.asymm, if_pos before, ih sorted found]

@[simp] theorem findEntry_eraseEntry_self (entries : List (Key × Doc)) (key : Key) :
    findEntry (eraseEntry entries key) key = none := by
  simp [findEntry, eraseEntry]

/-- An erasure is not seen at other keys. -/
theorem findEntry_eraseEntry_of_ne (apart : other ≠ key) (entries : List (Key × Doc)) :
    findEntry (eraseEntry entries key) other = findEntry entries other := by
  induction entries with
  | nil => rfl
  | cons entry entries ih =>
      rw [eraseEntry] at ih ⊢
      rw [List.filter_cons]
      by_cases same : entry.1 = key
      · simp only [same, ne_eq, not_true_eq_false, decide_false, Bool.false_eq_true, ↓reduceIte]
        rw [ih, findEntry_cons, if_neg (same ▸ apart.symm)]
      · simp only [ne_eq, same, not_false_eq_true, decide_true, ↓reduceIte]
        rw [findEntry_cons, ih, findEntry_cons]

/-- A filter by keys keeps what is found at the keys it accepts. -/
theorem findEntry_filter (keep : Key → Bool) (entries : List (Key × Doc)) (key : Key) :
    findEntry (entries.filter fun entry => keep entry.1) key =
      if keep key then findEntry entries key else none := by
  induction entries with
  | nil => simp
  | cons entry entries ih =>
      rw [List.filter_cons]
      by_cases same : entry.1 = key
      · subst same
        by_cases kept : keep entry.1
        · simp [kept, findEntry_cons]
        · simp [kept, ih]
      · by_cases kept : keep entry.1
        · simp [kept, findEntry_cons, same, ih]
        · simp [kept, findEntry_cons, same, ih]

/-- Erasing a key without an entry changes nothing. -/
theorem eraseEntry_of_missing (missing : findEntry entries key = none) :
    eraseEntry entries key = entries := by
  refine List.filter_eq_self.mpr fun entry member => ?_
  have apart := List.find?_eq_none.mp (Option.map_eq_none_iff.mp missing) entry member
  simpa using apart

/-- An erasure keeps the keys increasing. -/
theorem eraseEntry_sorted (sorted : entries.Pairwise fun first second => first.1 < second.1)
    (key : Key) : (eraseEntry entries key).Pairwise fun first second => first.1 < second.1 :=
  sorted.filter _

end Entries

/-! ## Collections -/

/-- The collection without documents. -/
def empty : Collection Key Doc := ⟨[], List.Pairwise.nil⟩

/-- The document under a key, when there is one. -/
def get? (collection : Collection Key Doc) (key : Key) : Option Doc :=
  (collection.entries.find? fun entry => entry.1 = key).map Prod.snd

/-- Write a document under a key, creating or replacing it. -/
def set (collection : Collection Key Doc) (key : Key) (doc : Doc) : Collection Key Doc :=
  ⟨insertEntry key doc collection.entries, insertEntry_sorted key doc collection.sorted⟩

variable (collection : Collection Key Doc)

/-- A key lists one document. -/
theorem entry_unique {key : Key} {first second : Doc}
    (firstMember : (key, first) ∈ collection.entries)
    (secondMember : (key, second) ∈ collection.entries) : first = second := by
  by_contra different
  have apart : (key, first) ≠ (key, second) := fun same => different (Prod.ext_iff.mp same).2
  have distinct : collection.entries.Pairwise fun first second => first.1 ≠ second.1 :=
    collection.sorted.imp ne_of_lt
  have : Std.Symm fun first second : Key × Doc => first.1 ≠ second.1 := ⟨fun _ _ => Ne.symm⟩
  exact distinct.forall firstMember secondMember apart rfl

/-- Looking a key up and finding it in the listing are the same thing. -/
theorem get?_eq_some_iff {key : Key} {doc : Doc} :
    collection.get? key = some doc ↔ (key, doc) ∈ collection.entries := by
  unfold get?
  constructor
  · intro found
    obtain ⟨entry, located, rfl⟩ := Option.map_eq_some_iff.mp found
    have same : entry.1 = key := by simpa only [decide_eq_true_eq] using List.find?_some located
    exact same ▸ List.mem_of_find?_eq_some located
  · intro member
    cases located : collection.entries.find? fun entry => entry.1 = key with
    | none =>
        have missed := List.find?_eq_none.mp located (key, doc) member
        exact (missed (decide_eq_true rfl)).elim
    | some entry =>
        have same : entry.1 = key := by simpa only [decide_eq_true_eq] using List.find?_some located
        have listed : (key, entry.2) ∈ collection.entries :=
          same ▸ List.mem_of_find?_eq_some located
        exact congrArg some (collection.entry_unique listed member)

@[simp] theorem get?_set_self (key : Key) (doc : Doc) :
    (collection.set key doc).get? key = some doc :=
  (get?_eq_some_iff _).mpr ((mem_insertEntry collection.sorted _).mpr (.inl rfl))

/-- Writing one document leaves every other key alone. -/
theorem get?_set_of_ne {key other : Key} (apart : other ≠ key) (doc : Doc) :
    (collection.set key doc).get? other = collection.get? other := by
  ext found
  rw [get?_eq_some_iff, get?_eq_some_iff]
  refine (mem_insertEntry collection.sorted _).trans ⟨?_, fun member => .inr ⟨member, apart⟩⟩
  rintro (same | ⟨member, _⟩)
  · exact (apart (Prod.ext_iff.mp same).1).elim
  · exact member

/-- Collections with the same lookups are the same. -/
theorem ext_get? {first second : Collection Key Doc}
    (same : ∀ key, first.get? key = second.get? key) : first = second := by
  have : Std.Irrefl fun first second : Key × Doc => first.1 < second.1 :=
    ⟨fun entry => lt_irrefl entry.1⟩
  have : Std.Antisymm fun first second : Key × Doc => first.1 < second.1 :=
    ⟨fun _ _ before after => absurd before (lt_asymm after)⟩
  have entries : first.entries = second.entries := by
    refine first.sorted.eq_of_mem_iff second.sorted fun entry => ?_
    rw [← first.get?_eq_some_iff, ← second.get?_eq_some_iff, same]
  cases first
  cases second
  cases entries
  rfl

/-- Remove the document under a key. -/
def erase (collection : Collection Key Doc) (key : Key) : Collection Key Doc :=
  ⟨eraseEntry collection.entries key, eraseEntry_sorted collection.sorted key⟩

/-- The documents that are kept. -/
def filter (collection : Collection Key Doc) (keep : Key → Doc → Bool) : Collection Key Doc :=
  ⟨collection.entries.filter fun entry => keep entry.1 entry.2, collection.sorted.filter _⟩

/-- A loop over entries that stores what is picked from each. -/
def storeEach {Item : Type} (pick : Key → Item → Option Doc) (entries : List (Key × Item))
    (collection : Collection Key Doc) : Collection Key Doc :=
  entries.foldl (fun collection entry =>
    match pick entry.1 entry.2 with
    | some doc => collection.set entry.1 doc
    | none => collection) collection

theorem get?_eq_findEntry (key : Key) : collection.get? key = findEntry collection.entries key :=
  rfl

@[simp] theorem get?_empty (key : Key) : (empty : Collection Key Doc).get? key = none := rfl

@[simp] theorem get?_erase_self (key : Key) : (collection.erase key).get? key = none :=
  findEntry_eraseEntry_self collection.entries key

theorem get?_erase_of_ne {key other : Key} (apart : other ≠ key) :
    (collection.erase key).get? other = collection.get? other :=
  findEntry_eraseEntry_of_ne apart collection.entries

/-- A filter keeps the documents that it accepts under their keys. -/
theorem get?_filter (keep : Key → Doc → Bool) (key : Key) :
    (collection.filter keep).get? key = (collection.get? key).filter (keep key) := by
  ext doc
  rw [get?_eq_some_iff, Option.filter_eq_some_iff, get?_eq_some_iff]
  exact List.mem_filter

/-- Over distinct keys, the loop stores what is picked from the entry of a key. -/
theorem get?_storeEach {Item : Type} (pick : Key → Item → Option Doc)
    {entries : List (Key × Item)} (distinct : (entries.map Prod.fst).Nodup) (key : Key) :
    (storeEach pick entries collection).get? key =
      ((findEntry entries key).bind (pick key)).or (collection.get? key) := by
  induction entries generalizing collection with
  | nil => rfl
  | cons entry entries ih =>
      obtain ⟨fresh, distinct⟩ := List.nodup_cons.mp distinct
      rw [storeEach, List.foldl_cons, ← storeEach, ih _ distinct, findEntry_cons]
      by_cases same : entry.1 = key
      · subst same
        rw [if_pos rfl, findEntry_eq_none_iff.mpr fresh, Option.bind_none, Option.none_or,
          Option.bind_some]
        cases pick entry.1 entry.2 with
        | none => rfl
        | some doc => exact get?_set_self collection entry.1 doc
      · rw [if_neg same]
        cases pick entry.1 entry.2 with
        | none => rfl
        | some doc =>
            dsimp only
            rw [collection.get?_set_of_ne (Ne.symm same)]

/-- Every listed document satisfies `property`, which may look at its key. -/
def Every (property : Key → Doc → Prop) : Prop :=
  ∀ ⦃key doc⦄, collection.get? key = some doc → property key doc

variable {collection} {property : Key → Doc → Prop}

theorem every_empty : (empty : Collection Key Doc).Every property :=
  fun _ _ found => (Option.some_ne_none _ found.symm).elim

theorem Every.of_mem (every : collection.Every property) {entry : Key × Doc}
    (member : entry ∈ collection.entries) : property entry.1 entry.2 :=
  every (collection.get?_eq_some_iff.mpr member)

instance [∀ key doc, Decidable (property key doc)] : Decidable (collection.Every property) :=
  decidable_of_iff (∀ entry ∈ collection.entries, property entry.1 entry.2)
    ⟨fun all key doc found => all (key, doc) (collection.get?_eq_some_iff.mp found),
      fun every _ => every.of_mem⟩

end Collection

/-- **Loops over distinct keys.** When an iteration only changes what is read under its own
key, a loop over distinct keys changes each of them once. -/
theorem foldlM_of_own {State Item Key Value : Type} {step : State → Item → Option State}
    {key : Item → Key} {read : State → Key → Value} {outcome : Item → Value → Value}
    {items : List Item} (distinct : (items.map key).Nodup)
    (own : ∀ state, ∀ item ∈ items, ∃ next, step state item = some next ∧
      read next (key item) = outcome item (read state (key item)) ∧
      ∀ other, other ≠ key item → read next other = read state other) (state : State) :
    ∃ final, items.foldlM step state = some final ∧
      (∀ item ∈ items, read final (key item) = outcome item (read state (key item))) ∧
      ∀ other, other ∉ items.map key → read final other = read state other := by
  induction items generalizing state with
  | nil => exact ⟨state, rfl, fun _ member => absurd member List.not_mem_nil, fun _ _ => rfl⟩
  | cons item items ih =>
      rw [List.map_cons, List.nodup_cons] at distinct
      obtain ⟨next, stepped, changed, others⟩ := own state item List.mem_cons_self
      obtain ⟨final, rest, later, untouched⟩ := ih distinct.2
        (fun state other member => own state other (List.mem_cons_of_mem _ member)) next
      refine ⟨final, ?_, fun other member => ?_, fun other outside => ?_⟩
      · rw [List.foldlM_cons, stepped, Option.bind_eq_bind, Option.bind_some, rest]
      · rcases List.mem_cons.mp member with rfl | member
        · rw [untouched _ distinct.1, changed]
        · have apart : key other ≠ key item := fun same =>
            distinct.1 (same ▸ List.mem_map_of_mem member)
          rw [later other member, others _ apart]
      · rw [List.map_cons, List.mem_cons, not_or] at outside
        rw [untouched other outside.2, others other outside.1]

end Bowfolio
