import Mathlib.Algebra.Ring.Nat
import Mathlib.Data.List.Count

set_option autoImplicit false

/-!
# Items and separators

`split` is the loop of `getline`: an item ends at the separator or at the end of the input, and no
item begins at the end of the input. So an empty item is lost if it is the last one, and no other
is: `split_join` is the round trip, `length_split_join` counts the items that come out if they
have separators in them.
-/

namespace Delimited

variable {α : Type} {delim : α}

/-- The items with a separator between any two. -/
def join (delim : α) : List (List α) → List α
  | [] => []
  | [item] => item
  | item :: items => item ++ delim :: join delim items

theorem join_cons (item : List α) {items : List (List α)} (h : items ≠ []) :
    join delim (item :: items) = item ++ delim :: join delim items := by
  cases items with
  | nil => exact absurd rfl h
  | cons next items => rfl

variable [DecidableEq α]

/-- The items between the separators. -/
def split (delim : α) : List α → List (List α)
  | [] => []
  | c :: cs =>
    if c = delim then [] :: split delim cs
    else match split delim cs with
      | [] => [[c]]
      | item :: items => (c :: item) :: items

@[simp]
theorem split_nil (delim : α) : split delim [] = [] := rfl

@[simp]
theorem split_delim (cs : List α) : split delim (delim :: cs) = [] :: split delim cs := if_pos rfl

/-- A character that does not separate goes to the item that is under way. -/
theorem split_cons {c : α} (hc : c ≠ delim) {cs item : List α} {items : List (List α)}
    (h : split delim cs = item :: items) : split delim (c :: cs) = (c :: item) :: items := by
  rw [split, if_neg hc, h]

/-- An item without a separator in it is read up to the separator behind it. -/
theorem split_append_delim {item : List α} (h : delim ∉ item) (rest : List α) :
    split delim (item ++ delim :: rest) = item :: split delim rest := by
  induction item with
  | nil => exact split_delim rest
  | cons c item ih =>
    exact split_cons (List.ne_of_not_mem_cons h).symm (ih (List.not_mem_of_not_mem_cons h))

/-- Or up to the end, if it is not empty. -/
theorem split_of_notMem {item : List α} (h : delim ∉ item) (hne : item ≠ []) :
    split delim item = [item] := by
  induction item with
  | nil => exact absurd rfl hne
  | cons c item ih =>
    have hc : c ≠ delim := (List.ne_of_not_mem_cons h).symm
    by_cases hnil : item = []
    · rw [hnil, split, if_neg hc, split_nil]
    · exact split_cons hc (ih (List.not_mem_of_not_mem_cons h) hnil)

/-- Only the empty input has no items. -/
theorem split_ne_nil {cs : List α} (h : cs ≠ []) : split delim cs ≠ [] := by
  cases cs with
  | nil => exact absurd rfl h
  | cons c cs =>
    rw [split]
    split
    · exact List.cons_ne_nil _ _
    · split <;> exact List.cons_ne_nil _ _

/-- What stands before an item makes no new one but by its separators. -/
theorem length_split_cons {c : α} (hc : c ≠ delim) {cs : List α} (h : cs ≠ []) :
    (split delim (c :: cs)).length = (split delim cs).length := by
  cases hsplit : split delim cs with
  | nil => exact absurd hsplit (split_ne_nil h)
  | cons item items => rw [split_cons hc hsplit, List.length_cons, List.length_cons]

/-- Separators inside an item split it, and the count goes up by as many. -/
theorem length_split_append (item : List α) {rest : List α} (h : rest ≠ []) :
    (split delim (item ++ rest)).length = item.count delim + (split delim rest).length := by
  induction item with
  | nil => rw [List.nil_append, List.count_nil, Nat.zero_add]
  | cons c item ih =>
    rw [List.cons_append]
    by_cases hc : c = delim
    · rw [hc, split_delim, List.length_cons, ih, List.count_cons_self]
      omega
    · rw [length_split_cons hc (List.append_ne_nil_of_right_ne_nil item h), ih,
        List.count_cons_of_ne hc]

/-- **Round trip.** -/
theorem split_join {items : List (List α)} (h : ∀ item ∈ items, delim ∉ item)
    (hlast : items.getLast? ≠ some []) : split delim (join delim items) = items := by
  induction items with
  | nil => rfl
  | cons item items ih =>
    have hitem := h item List.mem_cons_self
    by_cases hnil : items = []
    · subst hnil
      exact split_of_notMem hitem fun he => hlast (congrArg some he)
    · rw [List.getLast?_cons_of_ne_nil hnil] at hlast
      rw [join_cons item hnil, split_append_delim hitem,
        ih (fun i hi => h i (List.mem_cons_of_mem _ hi)) hlast]

/-- How many items there are if there are separators in all but the last of them. -/
theorem length_split_join (items : List (List α)) {last : List α} (hlast : delim ∉ last)
    (hne : last ≠ []) :
    (split delim (join delim (items ++ [last]))).length =
      items.length + 1 + (items.map (·.count delim)).sum := by
  induction items with
  | nil => rw [List.nil_append, join, split_of_notMem hlast hne]; rfl
  | cons item items ih =>
    have hrest : items ++ [last] ≠ [] := List.append_ne_nil_of_right_ne_nil _ (List.cons_ne_nil _ _)
    rw [List.cons_append, join_cons item hrest, length_split_append item (List.cons_ne_nil _ _),
      split_delim, List.length_cons, ih, List.length_cons, List.map_cons, List.sum_cons]
    omega

end Delimited
