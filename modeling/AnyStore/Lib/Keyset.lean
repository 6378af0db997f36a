import Mathlib.Order.Defs.LinearOrder
import Mathlib.Order.Basic
import Mathlib.Data.List.Basic
import Mathlib.Data.List.Nodup
import Mathlib.Data.List.Sort

/-!
# Keyset pagination

A listing shows items in the strict order of their keys and is read page by
page: a page takes up to `limit` items whose keys lie after the cursor, and as
long as there are more its last key is the next cursor. The items may be others
at every fetch.

* `after`, `page`, `more` — one fetch.
* `Follows` — the fetches of a traversal, each with the items that were there.
* `Follows.sorted` — the keys of all pages increase strictly.
* `Follows.mem` — a traversal that has come to its end has returned every key
  that was there at each of its fetches.
* `drop_eq_after` — an item that is still there under its key may stand for the
  cursor.
* `arrange` — sorting by the keys; what lies after a cursor may be taken before
  or after it.
-/

namespace Keyset

variable {ι κ : Type} [LinearOrder κ] {key : ι → κ} {limit : ℕ}

section Fetch

variable (key : ι → κ) (limit : ℕ) (cursor : Option κ) (items : List ι)

/-- The items that lie after the cursor. -/
def after : List ι := items.filter fun x => decide (∀ k ∈ cursor, k < key x)

def page : List ι := (after key cursor items).take limit

/-- There is something left behind the page. -/
def more : Prop := limit < (after key cursor items).length

instance : Decidable (more key limit cursor items) := inferInstanceAs (Decidable (_ < _))

end Fetch

/-- The listing is in the strict order of its keys. -/
def Sorted (key : ι → κ) (items : List ι) : Prop := items.Pairwise fun x y => key x < key y

variable {cursor : Option κ} {items : List ι} {x : ι}

/-- What is behind the cursor. -/
theorem mem_after : x ∈ after key cursor items ↔ x ∈ items ∧ ∀ k ∈ cursor, k < key x := by
  simp [after]

/-- It keeps its order. -/
theorem Sorted.after (h : Sorted key items) : Sorted key (after key cursor items) :=
  h.sublist List.filter_sublist

/-- Other items with the same keys. -/
theorem map_after {ι' : Type} (key : ι → κ) (f : ι' → ι) (cursor : Option κ) (items : List ι') :
    (Keyset.after (fun x => key (f x)) cursor items).map f =
      Keyset.after key cursor (items.map f) := by
  unfold Keyset.after
  rw [List.filter_map]
  rfl

/-- A page keeps its order. -/
theorem Sorted.page (h : Sorted key items) : Sorted key (page key limit cursor items) :=
  h.after.sublist (List.take_sublist _ _)

/-- One key belongs to one item. -/
theorem Sorted.nodup_keys (h : Sorted key items) : (items.map key).Nodup := by
  rw [List.Nodup, List.pairwise_map]
  exact h.imp ne_of_lt

/-- What is on a page is behind the cursor. -/
theorem mem_of_mem_page (h : x ∈ page key limit cursor items) :
    x ∈ items ∧ ∀ k ∈ cursor, k < key x :=
  mem_after.mp (List.mem_of_mem_take h)

/-- The last page leaves nothing out. -/
theorem page_eq_after (h : ¬ more key limit cursor items) :
    page key limit cursor items = after key cursor items := by
  unfold more at h
  exact List.take_of_length_le (by omega)

/-- What is not on the page lies behind its last item. -/
theorem last_lt_of_not_mem_page (h : Sorted key items) {last : ι}
    (hlast : (page key limit cursor items).getLast? = some last) (hx : x ∈ after key cursor items)
    (hpage : x ∉ page key limit cursor items) : key last < key x := by
  have hsplit := List.take_append_drop limit (Keyset.after key cursor items)
  have hsorted : Sorted key (Keyset.after key cursor items) := h.after
  unfold Sorted at hsorted
  rw [← hsplit, List.pairwise_append] at hsorted
  rw [← hsplit] at hx
  rcases List.mem_append.mp hx with hx | hx
  · exact absurd hx hpage
  · exact hsorted.2.2 last (List.mem_of_getLast? hlast) x hx

/-- A full page has a last item. -/
theorem page_ne_nil (hlimit : 0 < limit) (h : more key limit cursor items) :
    page key limit cursor items ≠ [] := by
  unfold more at h
  intro hnil
  have hlength := congrArg List.length hnil
  unfold page at hlength
  rw [List.length_take, List.length_nil] at hlength
  omega

/-! ## Sorting -/

/-- The items in the order of their keys. -/
def arrange (key : ι → κ) (items : List ι) : List ι :=
  items.insertionSort fun a b => key a ≤ key b

instance totalKeys : Std.Total fun a b : ι => key a ≤ key b := ⟨fun a b => le_total (key a) (key b)⟩

instance transKeys : IsTrans ι fun a b => key a ≤ key b := ⟨fun _ _ _ => le_trans⟩

/-- Sorting drops nothing. -/
theorem mem_arrange : x ∈ arrange key items ↔ x ∈ items := List.mem_insertionSort _

/-- It only changes the order. -/
theorem perm_arrange (key : ι → κ) (items : List ι) : (arrange key items).Perm items :=
  List.perm_insertionSort _ items

/-- Different keys are in strict order then. -/
theorem arrange_sorted (h : (items.map key).Nodup) : Sorted key (arrange key items) := by
  have hle : (arrange key items).Pairwise fun a b => key a ≤ key b :=
    List.pairwise_insertionSort _ items
  have hne : ((arrange key items).map key).Nodup := ((perm_arrange key items).map key).nodup_iff.mpr h
  rw [List.Nodup, List.pairwise_map] at hne
  exact (hle.and hne).imp fun hab => lt_of_le_of_ne hab.1 hab.2

/-- Only one list of the same items is sorted. -/
theorem Sorted.eq_of_perm {items' : List ι} (h : Sorted key items) (h' : Sorted key items')
    (hperm : items.Perm items') : items = items' := by
  refine hperm.eq_of_pairwise ?_ h h'
  intro a b _ _ hab hba
  exact absurd (lt_trans hab hba) (lt_irrefl _)

/-- What is sorted stays as it is. -/
theorem Sorted.arrange_eq (h : Sorted key items) : arrange key items = items :=
  List.Pairwise.insertionSort_eq (h.imp le_of_lt)

/-- One may sort first, or cut off first. -/
theorem arrange_after (h : (items.map key).Nodup) :
    arrange key (after key cursor items) = after key cursor (arrange key items) := by
  have hsub : ((after key cursor items).map key).Nodup := h.sublist (List.filter_sublist.map key)
  refine (arrange_sorted hsub).eq_of_perm (arrange_sorted h).after ?_
  exact (perm_arrange key _).trans ((perm_arrange key items).filter _).symm

/-! ## Traversals -/

/-- One fetch: its cursor, the items that were there, and the page. -/
structure Fetch (ι κ : Type) where
  cursor : Option κ
  items : List ι
  page : List ι

/-- The fetches of a traversal from `cursor`, and whether it has come to its end. -/
inductive Follows (key : ι → κ) (limit : ℕ) : Option κ → List (Fetch ι κ) → Prop → Prop
  | pause (cursor : Option κ) : Follows key limit cursor [] False
  | last {cursor : Option κ} {items : List ι} (hmore : ¬ more key limit cursor items) :
      Follows key limit cursor [⟨cursor, items, page key limit cursor items⟩] True
  | next {cursor : Option κ} {items : List ι} {last : ι} {fetches : List (Fetch ι κ)}
      {ended : Prop} (hmore : more key limit cursor items)
      (hlast : (page key limit cursor items).getLast? = some last)
      (hnext : Follows key limit (some (key last)) fetches ended) :
      Follows key limit cursor (⟨cursor, items, page key limit cursor items⟩ :: fetches) ended

/-- All items that a traversal has returned. -/
def returned (fetches : List (Fetch ι κ)) : List ι := fetches.flatMap Fetch.page

variable {fetches : List (Fetch ι κ)} {ended : Prop}

/-- What is returned lies after the cursor. -/
theorem Follows.after_cursor (h : Follows key limit cursor fetches ended)
    (hsorted : ∀ f ∈ fetches, Sorted key f.items) (hx : x ∈ returned fetches) :
    ∀ k ∈ cursor, k < key x := by
  induction h with
  | pause => cases hx
  | @last cursor items hmore =>
    rw [returned, List.flatMap_singleton] at hx
    exact (mem_of_mem_page hx).2
  | @next cursor items last fetches ended hmore hlast _ ih =>
    rw [returned, List.flatMap_cons] at hx
    intro k hk
    rcases List.mem_append.mp hx with hx | hx
    · exact (mem_of_mem_page hx).2 k hk
    · -- the next page begins behind the last item of this one
      have hlast' := (mem_of_mem_page (List.mem_of_getLast? hlast)).2 k hk
      have hbehind := ih (fun f hf => hsorted f (List.mem_cons_of_mem _ hf)) hx _ rfl
      exact lt_trans hlast' hbehind

/-- Every page is a page of what was there. -/
theorem Follows.found (h : Follows key limit cursor fetches ended) :
    ∀ f ∈ fetches, ∀ x ∈ f.page, x ∈ f.items := by
  induction h with
  | pause => simp
  | @last cursor items hmore =>
    intro f hf x hx
    rw [List.mem_singleton] at hf
    subst hf
    exact (mem_of_mem_page hx).1
  | @next cursor items last fetches ended hmore hlast _ ih =>
    rw [List.forall_mem_cons]
    exact ⟨fun x hx => (mem_of_mem_page hx).1, ih⟩

/-- Every cursor is the one of the start or names an item of an earlier page. -/
theorem Follows.cursor_returned (h : Follows key limit cursor fetches ended) :
    ∀ f ∈ fetches, f.cursor = cursor ∨
      ∃ g ∈ fetches, ∃ x ∈ g.page, f.cursor = some (key x) := by
  induction h with
  | pause => simp
  | @last cursor items hmore =>
    intro f hf
    rw [List.mem_singleton] at hf
    exact .inl (by rw [hf])
  | @next cursor items last fetches ended hmore hlast _ ih =>
    intro f hf
    rcases List.mem_cons.mp hf with rfl | hf
    · exact .inl rfl
    · right
      rcases ih f hf with hcursor | ⟨g, hg, x, hx, hcursor⟩
      · exact ⟨_, List.mem_cons_self .., last, List.mem_of_getLast? hlast, hcursor⟩
      · exact ⟨g, List.mem_cons_of_mem _ hg, x, hx, hcursor⟩

/-- The keys of all pages increase strictly. -/
theorem Follows.sorted (h : Follows key limit cursor fetches ended)
    (hsorted : ∀ f ∈ fetches, Sorted key f.items) : Sorted key (returned fetches) := by
  induction h with
  | pause => exact .nil
  | @last cursor items hmore =>
    rw [returned, List.flatMap_singleton]
    exact (hsorted _ (List.mem_singleton_self _)).page
  | @next cursor items last fetches ended hmore hlast hnext ih =>
    have hrest : ∀ f ∈ fetches, Sorted key f.items := fun f hf =>
      hsorted f (List.mem_cons_of_mem _ hf)
    have hpage : Sorted key (page key limit cursor items) :=
      (hsorted _ (List.mem_cons_self ..)).page
    unfold Sorted
    rw [returned, List.flatMap_cons, List.pairwise_append]
    refine ⟨hpage, ih hrest, ?_⟩
    intro a ha b hb
    have hbehind : key last < key b := hnext.after_cursor hrest hb _ rfl
    -- nothing on the page lies behind its last item
    have hle : key a ≤ key last := by
      obtain ⟨init, hinit⟩ := List.getLast?_eq_some_iff.mp hlast
      rw [hinit] at ha hpage
      rcases List.mem_append.mp ha with ha | ha
      · exact le_of_lt ((List.pairwise_append.mp hpage).2.2 a ha last (List.mem_singleton_self _))
      · rw [List.mem_singleton.mp ha]
    exact lt_of_le_of_lt hle hbehind

/-- Every page but the last one is full. -/
theorem Follows.length_le (h : Follows key limit cursor fetches ended) :
    limit * fetches.length ≤ (returned fetches).length + limit := by
  induction h with
  | pause => simp
  | last => simp
  | @next cursor items last fetches ended hmore hlast hnext ih =>
    have hfull : (page key limit cursor items).length = limit := by
      unfold more at hmore
      unfold page
      rw [List.length_take]
      omega
    unfold returned at ih ⊢
    rw [List.length_cons, List.flatMap_cons, List.length_append, hfull, Nat.mul_succ]
    omega

/-- A key that is found by every fetch before it has been passed has been
returned when the traversal comes to its end. -/
theorem Follows.mem (h : Follows key limit cursor fetches ended) (hended : ended) {k : κ}
    (hsorted : ∀ f ∈ fetches, Sorted key f.items) (hcursor : ∀ c ∈ cursor, c < k)
    (hkey : ∀ f ∈ fetches, (∀ c ∈ f.cursor, c < k) → ∃ x ∈ f.items, key x = k) :
    ∃ x ∈ returned fetches, key x = k := by
  induction h with
  | pause => exact absurd hended id
  | @last cursor items hmore =>
    obtain ⟨x, hx, rfl⟩ := hkey _ (List.mem_singleton_self _) hcursor
    rw [returned, List.flatMap_singleton]
    show ∃ y ∈ page key limit cursor items, key y = key x
    rw [page_eq_after hmore]
    exact ⟨x, mem_after.mpr ⟨hx, hcursor⟩, rfl⟩
  | @next cursor items last fetches ended hmore hlast _ ih =>
    obtain ⟨x, hx, rfl⟩ := hkey _ (List.mem_cons_self ..) hcursor
    rw [returned, List.flatMap_cons]
    -- the item is on this page, or behind its last one
    by_cases hpage : x ∈ page key limit cursor items
    · exact ⟨x, List.mem_append_left _ hpage, rfl⟩
    · have hlt : key last < key x := last_lt_of_not_mem_page (hsorted _ (List.mem_cons_self ..)) hlast
        (mem_after.mpr ⟨hx, hcursor⟩) hpage
      obtain ⟨y, hy, hyx⟩ := ih hended (fun f hf => hsorted f (List.mem_cons_of_mem _ hf))
        (fun c hc => Option.some.inj hc ▸ hlt) fun f hf => hkey f (List.mem_cons_of_mem _ hf)
      exact ⟨y, List.mem_append_right _ hy, hyx⟩

/-! ## A cursor that names an item -/

/-- Cutting a listing behind the item `v` leaves what lies after its key. -/
theorem drop_eq_after (h : Sorted key items) {p : ι → Bool} {n : ℕ} {v : ι}
    (hfind : items.findIdx? p = some n) (hv : items[n]? = some v) :
    items.drop (n + 1) = after key (some (key v)) items := by
  induction items generalizing n with
  | nil => simp at hfind
  | cons a items ih =>
    obtain ⟨hhead, htail⟩ := List.pairwise_cons.mp h
    rw [List.findIdx?_cons] at hfind
    by_cases hp : p a = true
    · rw [if_pos hp, Option.some.injEq] at hfind
      subst hfind
      obtain rfl : a = v := by simpa using hv
      -- everything behind the item has a larger key, everything in front of it a smaller one
      have hafter : after key (some (key a)) (a :: items) = items := by
        unfold after
        rw [List.filter_cons_of_neg (by simp), List.filter_eq_self]
        intro b hb
        simpa using hhead b hb
      rw [hafter]
      rfl
    · rw [if_neg hp, Option.map_eq_some_iff] at hfind
      obtain ⟨m, hm, rfl⟩ := hfind
      rw [List.getElem?_cons_succ] at hv
      have hlt : key a < key v := hhead v (List.mem_of_getElem? hv)
      have hafter : after key (some (key v)) (a :: items) = after key (some (key v)) items := by
        unfold after
        rw [List.filter_cons_of_neg (by simpa using le_of_lt hlt)]
      rw [hafter, List.drop_succ_cons]
      exact ih htail hm hv

end Keyset
