import Xperimentum.WMcore.HashTable

/-! The hash table as a finite map: what each operation does to the entries, whatever their order is. -/

namespace Xperimentum.WMcore.HashTables

open HashTable

variable {K D : Type} {callbacks : WMHashTableCallbacks K} {address : K → UInt64}

section Keys

variable [DecidableEq K]

/-- Equal keys hash equally, and a retained key is equal to the one that was given. -/
structure Agree (callbacks : WMHashTableCallbacks K) (address : K → UInt64) : Prop where
  refl : ∀ a, keyIsEqual callbacks a a = true
  symm : ∀ a b, keyIsEqual callbacks a b = true → keyIsEqual callbacks b a = true
  trans : ∀ a b c, keyIsEqual callbacks a b = true → keyIsEqual callbacks b c = true →
    keyIsEqual callbacks a c = true
  hash : ∀ a b, keyIsEqual callbacks a b = true → hashKey callbacks address a = hashKey callbacks address b
  retain : ∀ a, keyIsEqual callbacks a (DUPKEY callbacks a) = true

/-! Lists of items with keys that are not equal. -/

def Distinct (callbacks : WMHashTableCallbacks K) (l : List (HashItem K D)) : Prop :=
  l.Pairwise fun a b => keyIsEqual callbacks a.key b.key = false

def valueIn (callbacks : WMHashTableCallbacks K) (l : List (HashItem K D)) (key : K) : Option (Option D) :=
  (l.find? fun item => keyIsEqual callbacks key item.key).map HashItem.data

lemma valueIn_cons (item : HashItem K D) (l : List (HashItem K D)) (key : K) :
    valueIn callbacks (item :: l) key =
      if keyIsEqual callbacks key item.key then some item.data else valueIn callbacks l key := by
  rw [valueIn, List.find?_cons, valueIn]
  cases keyIsEqual callbacks key item.key <;> rfl

section Lists

variable (h : Agree callbacks address)

include h

lemma keyIsEqual_comm (a b : K) : keyIsEqual callbacks a b = keyIsEqual callbacks b a := by
  rw [Bool.eq_iff_iff]
  exact ⟨h.symm a b, h.symm b a⟩

lemma keyIsEqual_congr {a b : K} (hab : keyIsEqual callbacks a b = true) (c : K) :
    keyIsEqual callbacks a c = keyIsEqual callbacks b c := by
  rw [Bool.eq_iff_iff]
  exact ⟨h.trans b a c (h.symm a b hab), h.trans a b c hab⟩

lemma distinct_perm {l l' : List (HashItem K D)} (hl : l.Perm l') : Distinct callbacks l ↔ Distinct callbacks l' := by
  refine hl.pairwise_iff ?_
  intro a b hab
  rwa [keyIsEqual_comm h]

lemma find?_eq_some_iff {l : List (HashItem K D)} (hl : Distinct callbacks l) {key : K} {item : HashItem K D} :
    (l.find? fun item => keyIsEqual callbacks key item.key) = some item ↔
      item ∈ l ∧ keyIsEqual callbacks key item.key = true := by
  constructor
  · intro hf
    exact ⟨List.mem_of_find?_eq_some hf,
      List.find?_some (p := fun item : HashItem K D => keyIsEqual callbacks key item.key) hf⟩
  · rintro ⟨hm, hk⟩
    induction l with
    | nil => cases hm
    | cons d l ih =>
      obtain ⟨hd, hl⟩ := List.pairwise_cons.mp hl
      rw [List.find?_cons]
      rcases List.mem_cons.mp hm with rfl | hm
      · rw [hk]
      · have hne : keyIsEqual callbacks key d.key = false := by
          rw [keyIsEqual_congr h hk, keyIsEqual_comm h]
          exact hd item hm
        rw [hne]
        exact ih hl hm

lemma find?_perm {l l' : List (HashItem K D)} (hp : l.Perm l') (hl : Distinct callbacks l) (key : K) :
    (l.find? fun item => keyIsEqual callbacks key item.key) =
      l'.find? fun item => keyIsEqual callbacks key item.key := by
  have hl' := (distinct_perm h hp).mp hl
  ext item
  rw [find?_eq_some_iff h hl, find?_eq_some_iff h hl', hp.mem_iff]

lemma valueIn_perm {l l' : List (HashItem K D)} (hp : l.Perm l') (hl : Distinct callbacks l) (key : K) :
    valueIn callbacks l key = valueIn callbacks l' key := by
  rw [valueIn, valueIn, find?_perm h hp hl]

lemma distinct_replace {item new : HashItem K D} {l : List (HashItem K D)}
    (hk : keyIsEqual callbacks item.key new.key = true) (hl : Distinct callbacks (item :: l)) :
    Distinct callbacks (new :: l) := by
  obtain ⟨hitem, hl⟩ := List.pairwise_cons.mp hl
  refine List.pairwise_cons.mpr ⟨fun b hb => ?_, hl⟩
  rw [← keyIsEqual_congr h hk]
  exact hitem b hb

lemma valueIn_eq_none {l : List (HashItem K D)} {key other : K} (hk : keyIsEqual callbacks other key = true)
    (hl : ∀ item ∈ l, keyIsEqual callbacks key item.key = false) : valueIn callbacks l other = none := by
  rw [valueIn, List.find?_eq_none.mpr]
  · rfl
  · intro item hitem
    rw [keyIsEqual_congr h hk, hl item hitem]
    exact Bool.false_ne_true

end Lists

end Keys

/-! The entries of a table, chain after chain. -/

namespace HashTable

def entries (t : HashTable K D) : List (HashItem K D) := (List.finRange t.size).flatMap t.table

def others (t : HashTable K D) (h : Fin t.size) : List (HashItem K D) :=
  ((List.finRange t.size).erase h).flatMap t.table

lemma setChain_self (t : HashTable K D) (h : Fin t.size) (chain : List (HashItem K D)) :
    (t.setChain h chain).table h = chain := Function.update_self _ _ _

lemma setChain_of_ne (t : HashTable K D) {h i : Fin t.size} (hne : i ≠ h) (chain : List (HashItem K D)) :
    (t.setChain h chain).table i = t.table i := Function.update_of_ne hne _ _

lemma entries_perm (t : HashTable K D) (h : Fin t.size) : t.entries.Perm (t.table h ++ t.others h) :=
  (List.perm_cons_erase (List.mem_finRange h)).flatMap_right t.table

lemma entries_setChain (t : HashTable K D) (h : Fin t.size) (chain : List (HashItem K D)) :
    (t.setChain h chain).entries.Perm (chain ++ t.others h) := by
  refine ((t.setChain h chain).entries_perm h).trans ?_
  have hothers : (t.setChain h chain).others h = t.others h := by
    refine List.flatMap_congr fun (i : Fin t.size) hi => t.setChain_of_ne ?_ chain
    intro heq
    rw [heq] at hi
    exact (List.nodup_finRange _).not_mem_erase hi
  rw [hothers, t.setChain_self]

lemma mem_entries {t : HashTable K D} {item : HashItem K D} : item ∈ t.entries ↔ ∃ i, item ∈ t.table i := by
  rw [entries, List.mem_flatMap]
  constructor
  · rintro ⟨i, -, hi⟩
    exact ⟨i, hi⟩
  · rintro ⟨i, hi⟩
    exact ⟨i, List.mem_finRange i, hi⟩

lemma entries_allocated (size : ℕ) (size_pos : 0 < size) (itemCount : ℕ) :
    (allocated size size_pos itemCount : HashTable K D).entries = [] := by
  simp [entries, allocated]

/-- Every item stands in the chain that its key hashes to. -/
structure Placed (callbacks : WMHashTableCallbacks K) (address : K → UInt64) (t : HashTable K D) : Prop where
  hash : ∀ i, ∀ item ∈ t.table i, t.HASH callbacks address item.key = i

lemma placed_setChain {t : HashTable K D} (hp : Placed callbacks address t) {h : Fin t.size}
    {chain : List (HashItem K D)} (hc : ∀ item ∈ chain, t.HASH callbacks address item.key = h) :
    Placed callbacks address (t.setChain h chain) := by
  refine ⟨fun (i : Fin t.size) item hi => ?_⟩
  change t.HASH callbacks address item.key = i
  by_cases heq : i = h
  · rw [heq] at hi ⊢
    rw [t.setChain_self] at hi
    exact hc item hi
  · rw [t.setChain_of_ne heq] at hi
    exact hp.hash i item hi

lemma placed_allocated (size : ℕ) (size_pos : 0 < size) (itemCount : ℕ) :
    Placed callbacks address (allocated size size_pos itemCount : HashTable K D) :=
  ⟨fun _ _ hi => absurd hi List.not_mem_nil⟩

/-! Rebuilding. -/

section Rebuild

lemma size_foldl {E : Type} {f : HashTable K D → E → HashTable K D} (hf : ∀ t e, (f t e).size = t.size)
    (l : List E) (t : HashTable K D) : (l.foldl f t).size = t.size := by
  induction l generalizing t with
  | nil => rfl
  | cons e l ih => rw [List.foldl_cons, ih, hf]

lemma itemCount_foldl {E : Type} {f : HashTable K D → E → HashTable K D} (hf : ∀ t e, (f t e).itemCount = t.itemCount)
    (l : List E) (t : HashTable K D) : (l.foldl f t).itemCount = t.itemCount := by
  induction l generalizing t with
  | nil => rfl
  | cons e l ih => rw [List.foldl_cons, ih, hf]

lemma rellocateItem_placed {t : HashTable K D} (hp : Placed callbacks address t) (item : HashItem K D) :
    Placed callbacks address (t.rellocateItem callbacks address item) := by
  refine placed_setChain hp fun other hother => ?_
  rcases List.mem_cons.mp hother with rfl | hother
  · rfl
  · exact hp.hash _ other hother

lemma rellocateItem_entries (t : HashTable K D) (item : HashItem K D) :
    (t.rellocateItem callbacks address item).entries.Perm (item :: t.entries) :=
  (t.entries_setChain _ _).trans ((t.entries_perm _).symm.cons item)

lemma rellocateChain_placed (chain : List (HashItem K D)) {t : HashTable K D} (hp : Placed callbacks address t) :
    Placed callbacks address (chain.foldl (rellocateItem callbacks address) t) := by
  induction chain generalizing t with
  | nil => exact hp
  | cons item chain ih => exact ih (rellocateItem_placed hp item)

lemma rellocateChain_entries (chain : List (HashItem K D)) (t : HashTable K D) :
    (chain.foldl (rellocateItem callbacks address) t).entries.Perm (chain ++ t.entries) := by
  induction chain generalizing t with
  | nil => exact List.Perm.refl _
  | cons item chain ih =>
    refine (ih (t.rellocateItem callbacks address item)).trans ?_
    exact ((rellocateItem_entries t item).append_left chain).trans List.perm_middle

lemma rellocateAll {n : ℕ} (table : Fin n → List (HashItem K D)) (l : List (Fin n)) {t : HashTable K D}
    (hp : Placed callbacks address t) :
    Placed callbacks address (l.foldl (fun new i => (table i).foldl (rellocateItem callbacks address) new) t) ∧
      (l.foldl (fun new i => (table i).foldl (rellocateItem callbacks address) new) t).entries.Perm
        (l.flatMap table ++ t.entries) := by
  induction l generalizing t with
  | nil => exact ⟨hp, List.Perm.refl _⟩
  | cons i l ih =>
    obtain ⟨hplaced, hentries⟩ := ih (rellocateChain_placed (table i) hp)
    refine ⟨hplaced, hentries.trans ?_⟩
    refine ((rellocateChain_entries (table i) t).append_left _).trans ?_
    rw [List.flatMap_cons, ← List.append_assoc]
    exact List.perm_append_comm.append_right _

lemma rebuildTable_size (t : HashTable K D) : (t.rebuildTable callbacks address).size = t.size * 2 := by
  have hchain (new : HashTable K D) (i : Fin t.size) :
      ((t.table i).foldl (rellocateItem callbacks address) new).size = new.size := size_foldl (f := rellocateItem callbacks address) (fun _ _ => rfl) _ _
  exact size_foldl hchain _ _

lemma rebuildTable_itemCount (t : HashTable K D) : (t.rebuildTable callbacks address).itemCount = t.itemCount := by
  have hchain (new : HashTable K D) (i : Fin t.size) :
      ((t.table i).foldl (rellocateItem callbacks address) new).itemCount = new.itemCount :=
    itemCount_foldl (f := rellocateItem callbacks address) (fun _ _ => rfl) _ _
  exact itemCount_foldl hchain _ _

lemma rebuildTable_entries (t : HashTable K D) : (t.rebuildTable callbacks address).entries.Perm t.entries := by
  have hplaced : Placed callbacks address
      (allocated (t.size * 2) (Nat.mul_pos t.size_pos Nat.two_pos) t.itemCount : HashTable K D) :=
    placed_allocated _ _ _
  obtain ⟨-, hentries⟩ := rellocateAll t.table (List.finRange t.size) hplaced
  rw [entries_allocated, List.append_nil] at hentries
  exact hentries

end Rebuild

/-! The invariant. -/

section Invariant

variable [DecidableEq K]

structure WellFormed (callbacks : WMHashTableCallbacks K) (address : K → UInt64) (t : HashTable K D) : Prop
    extends Placed callbacks address t where
  distinct : Distinct callbacks t.entries
  count : t.itemCount = t.entries.length

lemma wellFormed_allocated (size : ℕ) (size_pos : 0 < size) :
    WellFormed callbacks address (allocated size size_pos 0 : HashTable K D) where
  toPlaced := placed_allocated size size_pos 0
  distinct := by
    rw [entries_allocated]
    exact List.Pairwise.nil
  count := by
    rw [entries_allocated]
    rfl

lemma rebuildTable_wellFormed (ha : Agree callbacks address) {t : HashTable K D} (h : WellFormed callbacks address t) :
    WellFormed callbacks address (t.rebuildTable callbacks address) where
  toPlaced := (rellocateAll t.table (List.finRange t.size) (placed_allocated _ _ _)).1
  distinct := (distinct_perm ha t.rebuildTable_entries).mpr h.distinct
  count := by rw [rebuildTable_itemCount, h.count, t.rebuildTable_entries.length_eq]

/-! Insertion and removal. -/

lemma replaceItem_some {key : K} {data old : Option D} {chain chain' : List (HashItem K D)}
    (h : replaceItem callbacks key data chain = some (chain', old)) :
    ∃ before item after, chain = before ++ item :: after ∧ keyIsEqual callbacks key item.key = true ∧
      chain' = before ++ ⟨DUPKEY callbacks key, data⟩ :: after ∧ old = item.data := by
  induction chain generalizing chain' with
  | nil => cases h
  | cons item chain ih =>
    rw [replaceItem] at h
    split at h
    · next hk =>
      cases h
      exact ⟨[], item, chain, rfl, hk, rfl, rfl⟩
    · obtain ⟨⟨rest, old⟩, hrest, he⟩ := Option.map_eq_some_iff.mp h
      cases he
      obtain ⟨before, found, after, rfl, hk, rfl, rfl⟩ := ih hrest
      exact ⟨item :: before, found, after, rfl, hk, rfl, rfl⟩

lemma replaceItem_none {key : K} {data : Option D} {chain : List (HashItem K D)}
    (h : replaceItem callbacks key data chain = none) : ∀ item ∈ chain, keyIsEqual callbacks key item.key = false := by
  induction chain with
  | nil => exact fun item hi => absurd hi List.not_mem_nil
  | cons item chain ih =>
    rw [replaceItem] at h
    split at h
    · cases h
    · next hk =>
      rw [Option.map_eq_none_iff] at h
      intro other hother
      rcases List.mem_cons.mp hother with rfl | hother
      · exact Bool.not_eq_true _ ▸ hk
      · exact ih h other hother

lemma deleteFromList_cases (callbacks : WMHashTableCallbacks K) (key : K) (chain : List (HashItem K D)) :
    (∃ before item after, chain = before ++ item :: after ∧ keyIsEqual callbacks key item.key = true ∧
      deleteFromList callbacks key chain = (before ++ after, 1)) ∨
    (∀ item ∈ chain, keyIsEqual callbacks key item.key = false) ∧
      deleteFromList callbacks key chain = (chain, 0) := by
  induction chain with
  | nil => exact .inr ⟨fun item hi => absurd hi List.not_mem_nil, rfl⟩
  | cons item chain ih =>
    rw [deleteFromList]
    split
    · next hk => exact .inl ⟨[], item, chain, rfl, hk, rfl⟩
    · next hk =>
      rcases ih with ⟨before, found, after, rfl, hfound, hdelete⟩ | ⟨hnone, hdelete⟩
      · exact .inl ⟨item :: before, found, after, rfl, hfound, by rw [hdelete]; rfl⟩
      · refine .inr ⟨fun other hother => ?_, by rw [hdelete]⟩
        rcases List.mem_cons.mp hother with rfl | hother
        · exact Bool.not_eq_true _ ▸ hk
        · exact hnone other hother

lemma hashRemove_eq {t : HashTable K D} {key : K} {chain : List (HashItem K D)} {freed : ℕ}
    (h : deleteFromList callbacks key (t.table (t.HASH callbacks address key)) = (chain, freed)) :
    t.hashRemove callbacks address key =
      { t.setChain (t.HASH callbacks address key) chain with itemCount := t.itemCount - freed } := by
  rw [hashRemove, h]

section Steps

variable (ha : Agree callbacks address) {t : HashTable K D}

include ha

lemma HASH_congr {a b : K} (hk : keyIsEqual callbacks a b = true) :
    t.HASH callbacks address a = t.HASH callbacks address b := by
  rw [HASH, HASH]
  simp only [ha.hash a b hk]

lemma mem_chain (hp : Placed callbacks address t) {key : K} {item : HashItem K D} (hi : item ∈ t.entries)
    (hk : keyIsEqual callbacks key item.key = true) : item ∈ t.table (t.HASH callbacks address key) := by
  obtain ⟨i, hi⟩ := mem_entries.mp hi
  rw [HASH_congr ha hk, hp.hash i item hi]
  exact hi

lemma not_mem_entries (hp : Placed callbacks address t) {key : K}
    (h : ∀ item ∈ t.table (t.HASH callbacks address key), keyIsEqual callbacks key item.key = false) :
    ∀ item ∈ t.entries, keyIsEqual callbacks key item.key = false := by
  intro item hi
  cases hk : keyIsEqual callbacks key item.key with
  | false => rfl
  | true =>
    rw [h item (mem_chain ha hp hi hk)] at hk
    cases hk

lemma hashGetItem_eq (h : WellFormed callbacks address t) (key : K) :
    t.hashGetItem callbacks address key = t.entries.find? fun item => keyIsEqual callbacks key item.key := by
  have hperm := t.entries_perm (t.HASH callbacks address key)
  have hothers : ∀ item ∈ t.others (t.HASH callbacks address key), keyIsEqual callbacks key item.key = false := by
    intro item hi
    obtain ⟨i, hmem, hi⟩ := List.mem_flatMap.mp hi
    cases hk : keyIsEqual callbacks key item.key with
    | false => rfl
    | true =>
      have hin := mem_chain ha h.toPlaced (mem_entries.mpr ⟨i, hi⟩) hk
      have hsame : i = t.HASH callbacks address key := (h.hash i item hi).symm.trans (h.hash _ item hin)
      rw [hsame] at hmem
      exact absurd hmem (List.nodup_finRange _).not_mem_erase
  have hnone : ((t.others (t.HASH callbacks address key)).find? fun item => keyIsEqual callbacks key item.key) = none := by
    rw [List.find?_eq_none]
    intro item hi
    rw [hothers item hi]
    exact Bool.false_ne_true
  rw [find?_perm ha hperm h.distinct, List.find?_append, hnone, Option.or_none, hashGetItem]

lemma hashInsert_cases (h : WellFormed callbacks address t) (key : K) (data : Option D) :
    WellFormed callbacks address (t.hashInsert callbacks address key data).1 ∧
    ((∃ item rest, keyIsEqual callbacks key item.key = true ∧ t.entries.Perm (item :: rest) ∧
        (t.hashInsert callbacks address key data).1.entries.Perm (⟨DUPKEY callbacks key, data⟩ :: rest) ∧
        (t.hashInsert callbacks address key data).2 = item.data) ∨
      (∀ item ∈ t.entries, keyIsEqual callbacks key item.key = false) ∧
        (t.hashInsert callbacks address key data).1.entries.Perm (⟨DUPKEY callbacks key, data⟩ :: t.entries) ∧
        (t.hashInsert callbacks address key data).2 = none) := by
  have hperm := t.entries_perm (t.HASH callbacks address key)
  have hsame : t.HASH callbacks address (DUPKEY callbacks key) = t.HASH callbacks address key :=
    (HASH_congr ha (ha.retain key)).symm
  cases hr : replaceItem callbacks key data (t.table (t.HASH callbacks address key)) with
  | some replaced =>
    obtain ⟨chain, old⟩ := replaced
    have hinsert : t.hashInsert callbacks address key data = (t.setChain (t.HASH callbacks address key) chain, old) := by
      rw [hashInsert]
      simp only [hr]
    obtain ⟨before, item, after, hchain, hk, rfl, rfl⟩ := replaceItem_some hr
    have hentries := t.entries_setChain (t.HASH callbacks address key) (before ++ ⟨DUPKEY callbacks key, data⟩ :: after)
    rw [hchain] at hperm
    rw [List.append_assoc, List.cons_append] at hperm hentries
    replace hperm := hperm.trans List.perm_middle
    replace hentries := hentries.trans List.perm_middle
    rw [hinsert]
    refine ⟨⟨placed_setChain h.toPlaced fun other hother => ?_, ?_, ?_⟩, .inl ⟨item, _, hk, hperm, hentries, rfl⟩⟩
    · have hold : ∀ other ∈ before ++ item :: after, t.HASH callbacks address other.key = t.HASH callbacks address key :=
        fun other hin => h.hash _ other (hchain ▸ hin)
      rcases List.mem_append.mp hother with hb | hafter
      · exact hold other (List.mem_append_left _ hb)
      rcases List.mem_cons.mp hafter with rfl | hafter
      · exact hsame
      · exact hold other (List.mem_append_right _ (List.mem_cons_of_mem _ hafter))
    · refine (distinct_perm ha hentries).mpr (distinct_replace ha ?_ ((distinct_perm ha hperm).mp h.distinct))
      exact ha.trans _ _ _ (ha.symm _ _ hk) (ha.retain key)
    · change t.itemCount = _
      rw [h.count, hperm.length_eq, hentries.length_eq]
      rfl
  | none =>
    have hnone := not_mem_entries ha h.toPlaced (replaceItem_none hr)
    let added : HashTable K D :=
      { t.setChain (t.HASH callbacks address key)
          (⟨DUPKEY callbacks key, data⟩ :: t.table (t.HASH callbacks address key)) with itemCount := t.itemCount + 1 }
    have hinsert : t.hashInsert callbacks address key data =
        (if added.itemCount > added.size then added.rebuildTable callbacks address else added, none) := by
      rw [hashInsert]
      simp only [hr]
      rfl
    have hentries : added.entries.Perm (⟨DUPKEY callbacks key, data⟩ :: t.entries) :=
      (t.entries_setChain _ _).trans (hperm.symm.cons _)
    have hadded : WellFormed callbacks address added := by
      refine ⟨⟨?_⟩, ?_, ?_⟩
      · refine (placed_setChain h.toPlaced fun other hother => ?_).hash
        rcases List.mem_cons.mp hother with rfl | hother
        · exact hsame
        · exact h.hash _ other hother
      · refine (distinct_perm ha hentries).mpr (List.pairwise_cons.mpr ⟨fun item hi => ?_, h.distinct⟩)
        rw [← keyIsEqual_congr ha (ha.retain key)]
        exact hnone item hi
      · change t.itemCount + 1 = _
        rw [h.count, hentries.length_eq]
        rfl
    rw [hinsert]
    split
    · exact ⟨rebuildTable_wellFormed ha hadded,
        .inr ⟨hnone, (added.rebuildTable_entries).trans hentries, rfl⟩⟩
    · exact ⟨hadded, .inr ⟨hnone, hentries, rfl⟩⟩

lemma hashRemove_cases (h : WellFormed callbacks address t) (key : K) :
    WellFormed callbacks address (t.hashRemove callbacks address key) ∧
    ((∃ item rest, keyIsEqual callbacks key item.key = true ∧ t.entries.Perm (item :: rest) ∧
        (t.hashRemove callbacks address key).entries.Perm rest) ∨
      (∀ item ∈ t.entries, keyIsEqual callbacks key item.key = false) ∧
        (t.hashRemove callbacks address key).entries.Perm t.entries) := by
  have hperm := t.entries_perm (t.HASH callbacks address key)
  rcases deleteFromList_cases callbacks key (t.table (t.HASH callbacks address key)) with
    ⟨before, item, after, hchain, hk, hdelete⟩ | ⟨hnone, hdelete⟩
  · have hentries := t.entries_setChain (t.HASH callbacks address key) (before ++ after)
    rw [hchain] at hperm
    rw [List.append_assoc, List.cons_append] at hperm
    rw [List.append_assoc] at hentries
    replace hperm := hperm.trans List.perm_middle
    rw [hashRemove_eq hdelete]
    refine ⟨⟨⟨?_⟩, ?_, ?_⟩, .inl ⟨item, _, hk, hperm, hentries⟩⟩
    · refine (placed_setChain h.toPlaced fun other hother => h.hash _ other ?_).hash
      rw [hchain]
      rcases List.mem_append.mp hother with hb | hafter
      · exact List.mem_append_left _ hb
      · exact List.mem_append_right _ (List.mem_cons_of_mem _ hafter)
    · exact (distinct_perm ha hentries).mpr (List.pairwise_cons.mp ((distinct_perm ha hperm).mp h.distinct)).2
    · change t.itemCount - 1 = _
      rw [h.count, hperm.length_eq, List.length_cons, Nat.add_sub_cancel]
      exact hentries.length_eq.symm
  · have hentries := (t.entries_setChain (t.HASH callbacks address key) _).trans hperm.symm
    rw [hashRemove_eq hdelete]
    refine ⟨⟨⟨(placed_setChain h.toPlaced fun other hother => h.hash _ other hother).hash⟩, ?_, ?_⟩,
      .inr ⟨not_mem_entries ha h.toPlaced hnone, hentries⟩⟩
    · exact (distinct_perm ha hentries).mpr h.distinct
    · exact h.count.trans hentries.length_eq.symm

omit ha in
lemma resetHashTable_wellFormed (t : HashTable K D) : WellFormed callbacks address t.resetHashTable := by
  rw [resetHashTable]
  split <;> exact wellFormed_allocated _ _

omit ha in
lemma resetHashTable_entries (t : HashTable K D) : t.resetHashTable.entries = [] := by
  rw [resetHashTable]
  split <;> exact entries_allocated _ _ _

end Steps

end Invariant

end HashTable

end Xperimentum.WMcore.HashTables
