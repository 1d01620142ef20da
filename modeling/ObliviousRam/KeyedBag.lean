import Mathlib.Data.Multiset.Basic
import Mathlib.Data.Multiset.Filter
import Mathlib.Data.Multiset.UnionInter

set_option autoImplicit false

/-!
# Bags with unique keys

A store that moves its entries around holds a *bag* of them: a multiset, with a
key on every entry. As long as no two entries share a key, the bag is a finite
map, and an update or a removal of the first match in any list of the entries is
an update or a removal of the key in the bag. Nothing here mentions an
oblivious RAM.
-/

namespace ObliviousRam

variable {β κ : Type} (key : β → κ)

/-- No two entries share a key. -/
def UniqueKeys (s : Multiset β) : Prop := (s.map key).Nodup

instance [DecidableEq κ] (s : Multiset β) : Decidable (UniqueKeys key s) :=
  inferInstanceAs (Decidable (s.map key).Nodup)

namespace UniqueKeys

variable {key} {s t : Multiset β}

theorem zero : UniqueKeys key (0 : Multiset β) := Multiset.nodup_zero

/-- Fewer entries share no key either. -/
theorem of_le (h : UniqueKeys key t) (hst : s ≤ t) : UniqueKeys key s :=
  Multiset.nodup_of_le (Multiset.map_le_map hst) h

theorem left (h : UniqueKeys key (s + t)) : UniqueKeys key s :=
  h.of_le (Multiset.le_add_right s t)

theorem right (h : UniqueKeys key (s + t)) : UniqueKeys key t :=
  h.of_le (Multiset.le_add_left t s)

/-- Entries from two parts of the bag have different keys. -/
theorem ne_of_mem (h : UniqueKeys key (s + t)) {b c : β} (hb : b ∈ s) (hc : c ∈ t) :
    key b ≠ key c := by
  rw [UniqueKeys, Multiset.map_add, Multiset.nodup_add] at h
  intro he
  exact Multiset.disjoint_left.mp h.2.2 (Multiset.mem_map_of_mem key hb)
    (he ▸ Multiset.mem_map_of_mem key hc)

/-- The key determines the entry. -/
theorem eq_of_key_eq (h : UniqueKeys key s) {b c : β} (hb : b ∈ s) (hc : c ∈ s)
    (hbc : key b = key c) : b = c := by
  by_contra hne
  obtain ⟨t, rfl⟩ := Multiset.exists_cons_of_mem hb
  rcases Multiset.mem_cons.mp hc with hc | hc
  · exact hne hc.symm
  · rw [UniqueKeys, Multiset.map_cons, Multiset.nodup_cons] at h
    exact h.1 (hbc ▸ Multiset.mem_map_of_mem key hc)

/-- The key of an entry occurs once among the keys. -/
theorem count_eq_one [DecidableEq κ] (h : UniqueKeys key s) {b : β} (hb : b ∈ s) :
    (s.map key).count (key b) = 1 :=
  Multiset.count_eq_one_of_mem h (Multiset.mem_map_of_mem key hb)

/-! ### Bags that are lists -/

variable {l : List β} {p : β → Bool}

/-- The head of a list shares its key with nothing behind it. -/
theorem cons_ne {b : β} (h : UniqueKeys key (b :: l : List β)) :
    ∀ c ∈ l, key c ≠ key b := by
  intro c hc he
  rw [UniqueKeys, ← Multiset.cons_coe, Multiset.map_cons, Multiset.nodup_cons] at h
  exact h.1 (he ▸ Multiset.mem_map_of_mem key hc)

theorem tail {b : β} (h : UniqueKeys key (b :: l : List β)) :
    UniqueKeys key (l : Multiset β) :=
  h.of_le (by rw [← Multiset.cons_coe]; exact Multiset.le_cons_self _ _)

end UniqueKeys

/-- A first match is the entry under the key. -/
theorem find?_eq_some_of_unique {key : β → κ} {l : List β} {p : β → Bool} {k : κ}
    (h : UniqueKeys key (l : Multiset β))
    (hp : ∀ b ∈ l, p b ↔ key b = k) {b : β} (hb : b ∈ l) (hk : key b = k) :
    l.find? p = some b := by
  rcases hfind : l.find? p with _ | c
  · exact absurd ((hp b hb).mpr hk) (List.find?_eq_none.mp hfind b hb)
  · have hc := List.mem_of_find?_eq_some hfind
    have hck := (hp c hc).mp (List.find?_some hfind)
    exact congrArg some (h.eq_of_key_eq hc hb (hck.trans hk.symm))

/-! ## Updating and removing a key

On a bag, an update or a removal is about all the entries under the key. Sums of bags
are what stores are made of (a stash, the buckets of a tree), so the first lemmas
distribute both operations over a sum; what is off the place that is touched then drops
out because the key does not occur there. -/

variable [DecidableEq κ]

/-- Rewrite the entries under key `k`. -/
def replaceKey (k : κ) (f : β → β) (s : Multiset β) : Multiset β :=
  s.map fun b => if key b = k then f b else b

/-- Remove the entries under key `k`. -/
def dropKey (k : κ) (s : Multiset β) : Multiset β := s.filter fun b => key b ≠ k

variable {key} {k : κ} {f : β → β} {s t : Multiset β} {l : List β} {p : β → Bool}

theorem replaceKey_add : replaceKey key k f (s + t) = replaceKey key k f s + replaceKey key k f t :=
  Multiset.map_add _ _ _

theorem dropKey_add : dropKey key k (s + t) = dropKey key k s + dropKey key k t :=
  Multiset.filter_add _ _ _

/-- Where the key does not occur, there is nothing to rewrite. -/
theorem replaceKey_of_notMem (h : ∀ b ∈ s, key b ≠ k) : replaceKey key k f s = s := by
  have hid : replaceKey key k f s = s.map id :=
    Multiset.map_congr rfl fun b hb => if_neg (h b hb)
  rw [hid, Multiset.map_id]

/-- Without the key there is nothing to remove. -/
theorem dropKey_of_notMem (h : ∀ b ∈ s, key b ≠ k) : dropKey key k s = s :=
  Multiset.filter_eq_self.mpr h

/-- What stays is what has another key. -/
theorem mem_dropKey {b : β} : b ∈ dropKey key k s ↔ b ∈ s ∧ key b ≠ k := Multiset.mem_filter

/-- Rewriting a value does not move a key. -/
theorem map_key_replaceKey (hf : ∀ b, key (f b) = key b) :
    (replaceKey key k f s).map key = s.map key := by
  rw [replaceKey, Multiset.map_map]
  refine Multiset.map_congr rfl fun b _ => ?_
  by_cases hb : key b = k
  · rw [Function.comp_apply, if_pos hb, hf]
  · rw [Function.comp_apply, if_neg hb]

/-- Removing a key removes it from the keys, and no other. -/
theorem map_key_dropKey : (dropKey key k s).map key = (s.map key).filter (· ≠ k) := by
  rw [dropKey, Multiset.filter_map]
  rfl

/-- The elements of other keys are not replaced. -/
theorem dropKey_replaceKey (hf : ∀ b, key (f b) = key b) :
    dropKey key k (replaceKey key k f s) = dropKey key k s := by
  induction s using Multiset.induction with
  | empty => rfl
  | cons b s ih =>
    rw [replaceKey, Multiset.map_cons, ← replaceKey, dropKey, dropKey]
    by_cases hb : key b = k
    · rw [if_pos hb, Multiset.filter_cons_of_neg (p := fun c => key c ≠ k) _ fun h => h ((hf b).trans hb),
        Multiset.filter_cons_of_neg (p := fun c => key c ≠ k) _ fun h => h hb]
      exact ih
    · rw [if_neg hb, Multiset.filter_cons_of_pos (p := fun c => key c ≠ k) _ hb,
        Multiset.filter_cons_of_pos (p := fun c => key c ≠ k) _ hb]
      exact congrArg _ ih

/-- Keys stay unique under an update. -/
theorem UniqueKeys.replaceKey (h : UniqueKeys key s) (hf : ∀ b, key (f b) = key b) :
    UniqueKeys key (replaceKey key k f s) := by
  rw [UniqueKeys, map_key_replaceKey hf]
  exact h

/-- Keys stay unique under a removal. -/
theorem UniqueKeys.dropKey (h : UniqueKeys key s) : UniqueKeys key (dropKey key k s) :=
  h.of_le (Multiset.filter_le _ _)

/-! ## First matches in a list

The code updates and erases the *first* match in a list. With unique keys this is the
update or removal of the key, and these two lemmas are the only place where the order of
a list matters. -/

/-- Apply `f` to the first element that satisfies `p`. -/
def updateFirst {α : Type} (p : α → Bool) (f : α → α) : List α → List α
  | [] => []
  | a :: as => if p a then f a :: as else a :: updateFirst p f as

/-- Updating the first match is updating the key. -/
theorem coe_updateFirst (h : UniqueKeys key (l : Multiset β)) (hp : ∀ b ∈ l, p b ↔ key b = k) :
    (updateFirst p f l : Multiset β) = replaceKey key k f (l : Multiset β) := by
  induction l with
  | nil => rfl
  | cons b l ih =>
    have hrest := ih h.tail fun c hc => hp c (List.mem_cons_of_mem _ hc)
    rw [← Multiset.cons_coe, replaceKey, Multiset.map_cons]
    by_cases hb : key b = k
    · rw [updateFirst, if_pos ((hp b List.mem_cons_self).mpr hb), if_pos hb, ← Multiset.cons_coe]
      refine congrArg _ (Eq.symm (replaceKey_of_notMem fun c hc => ?_))
      exact hb ▸ h.cons_ne c hc
    · rw [updateFirst, if_neg (fun hpb => hb ((hp b List.mem_cons_self).mp hpb)), if_neg hb,
        ← Multiset.cons_coe, hrest, replaceKey]

/-- Erasing the first match is removing the key. -/
theorem coe_eraseP (h : UniqueKeys key (l : Multiset β)) (hp : ∀ b ∈ l, p b ↔ key b = k) :
    (l.eraseP p : Multiset β) = dropKey key k (l : Multiset β) := by
  induction l with
  | nil => rfl
  | cons b l ih =>
    have hrest := ih h.tail fun c hc => hp c (List.mem_cons_of_mem _ hc)
    rw [← Multiset.cons_coe, dropKey]
    by_cases hb : key b = k
    · rw [List.eraseP_cons_of_pos ((hp b List.mem_cons_self).mpr hb),
        Multiset.filter_cons_of_neg (p := fun b => key b ≠ k) _ (not_not.mpr hb)]
      exact Eq.symm (dropKey_of_notMem fun c hc => hb ▸ h.cons_ne c hc)
    · rw [List.eraseP_cons_of_neg (fun hpb => hb ((hp b List.mem_cons_self).mp hpb)),
        ← Multiset.cons_coe, Multiset.filter_cons_of_pos (p := fun b => key b ≠ k) _ hb, hrest,
        dropKey]

/-! ## A bag as a map -/

variable {υ : Type} {val : β → υ} {m : κ → Option υ}

/-- The bag holds the values of the map `m`, and nothing else. -/
def Stores (key : β → κ) (val : β → υ) (s : Multiset β) (m : κ → Option υ) : Prop :=
  ∀ k v, m k = some v ↔ ∃ b ∈ s, key b = k ∧ val b = v

namespace Stores

omit [DecidableEq κ] in
/-- An entry of the bag is the value of its key. -/
theorem get (h : Stores key val s m) {b : β} (hb : b ∈ s) : m (key b) = some (val b) :=
  (h _ _).mpr ⟨b, hb, rfl, rfl⟩

/-- Rewriting the value under a key of the bag is updating the map there. -/
theorem replaceKey (h : Stores key val s m) {b : β} (hb : b ∈ s) (hk : key b = k)
    (hf : ∀ b, key (f b) = key b) {v : υ} (hv : ∀ b, val (f b) = v) {m' : κ → Option υ}
    (hm' : ∀ k', m' k' = if k' = k then some v else m k') :
    Stores key val (replaceKey key k f s) m' := by
  intro k' v'
  rw [hm']
  have hmem : ∀ c, c ∈ ObliviousRam.replaceKey key k f s ↔
      ∃ d ∈ s, (if key d = k then f d else d) = c := fun c => Multiset.mem_map
  by_cases hk' : k' = k
  · subst hk'
    rw [if_pos rfl]
    constructor
    · intro hv'
      refine ⟨f b, (hmem _).mpr ⟨b, hb, if_pos hk⟩, (hf b).trans hk, ?_⟩
      rw [hv, Option.some.inj hv']
    · rintro ⟨c, hc, hck, hcv⟩
      obtain ⟨d, -, rfl⟩ := (hmem c).mp hc
      by_cases hd : key d = k'
      · rw [if_pos hd, hv] at hcv
        rw [hcv]
      · rw [if_neg hd] at hck
        exact absurd hck hd
  · rw [if_neg hk', h k' v']
    constructor
    · rintro ⟨d, hd, hdk, hdv⟩
      exact ⟨d, (hmem d).mpr ⟨d, hd, if_neg fun he => hk' (hdk ▸ he)⟩, hdk, hdv⟩
    · rintro ⟨c, hc, hck, hcv⟩
      obtain ⟨d, hd, rfl⟩ := (hmem c).mp hc
      by_cases hdk : key d = k
      · rw [if_pos hdk, hf] at hck
        exact absurd (hck.symm.trans hdk) hk'
      · rw [if_neg hdk] at hck hcv
        exact ⟨d, hd, hck, hcv⟩

end Stores

end ObliviousRam
