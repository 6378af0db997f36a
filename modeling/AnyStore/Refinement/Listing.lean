import AnyStore.Lib.Keyset
import AnyStore.Spec.Metadata
import AnyStore.Spec.Walks
import Mathlib.Data.Prod.Lex
import Mathlib.Data.String.Basic
import Mathlib.Order.Compare

/-!
# Listings are keyset pages

What `finish_page` makes of a look-ahead, what a `WHERE` clause keeps, the views
a `SELECT` finds and what an adapter parses of them, and the traversals that
clients make of pages.
-/

namespace AnyStore

open Keyset

variable {κ : Type} [LinearOrder κ]

/-- Each element has its partner, -/
theorem forall₂_left {α β : Type} {R : α → β → Prop} {l : List α} {l' : List β}
    (h : List.Forall₂ R l l') {a : α} (ha : a ∈ l) : ∃ b ∈ l', R a b := by
  induction h with
  | nil => cases ha
  | cons hab _ ih =>
    rcases List.mem_cons.mp ha with rfl | ha
    · exact ⟨_, List.mem_cons_self .., hab⟩
    · obtain ⟨b, hb, hr⟩ := ih ha
      exact ⟨b, List.mem_cons_of_mem _ hb, hr⟩

/-- and each partner its element. -/
theorem forall₂_right {α β : Type} {R : α → β → Prop} {l : List α} {l' : List β}
    (h : List.Forall₂ R l l') {b : β} (hb : b ∈ l') : ∃ a ∈ l, R a b :=
  forall₂_left h.flip hb

/-! ## Pages -/

/-- The cursor behind an item. -/
def Texts.cursorOf (T : Texts) (orderBy : Option OrderBy) (last : ObjectView) : String :=
  T.encodeCursor { k := T.sortKeyOf last orderBy, i := last.id }

/-- The page that lies behind `cursor`, with the text that continues it. -/
def Texts.keysetPage (T : Texts) (key : ObjectView → κ) (limit : Nat) (orderBy : Option OrderBy)
    (cursor : Option κ) (items : List ObjectView) : Page where
  items := page key limit cursor items
  nextCursor :=
    if more key limit cursor items then
      (page key limit cursor items).getLast?.map (T.cursorOf orderBy)
    else none
  hasMore := decide (more key limit cursor items)

/-- A page is what comes first behind the cursor. -/
theorem Texts.finishPage_after (T : Texts) (key : ObjectView → κ) (limit : Nat)
    (orderBy : Option OrderBy) (cursor : Option κ) (items : List ObjectView) :
    T.finishPage (after key cursor items) limit orderBy =
      T.keysetPage key limit orderBy cursor items := rfl

/-- One look-ahead row is enough. -/
theorem Texts.finishPage_take (T : Texts) (items : List ObjectView) (limit : Nat)
    (orderBy : Option OrderBy) :
    T.finishPage (items.take (limit + 1)) limit orderBy = T.finishPage items limit orderBy := by
  have hmore : limit < (items.take (limit + 1)).length ↔ limit < items.length := by
    rw [List.length_take]
    omega
  have htake : (items.take (limit + 1)).take limit = items.take limit := by
    rw [List.take_take, Nat.min_eq_left (by omega)]
  unfold Texts.finishPage
  simp only [hmore, htake]

/-! ## Parsed views -/

/-- A view as an adapter hands it out, where its metadata can be parsed. -/
def Adapter.shown (a : Adapter) (v : ObjectView) : ObjectView := (v.read a.pageRoom).getD v

/-- Nothing but the metadata of a view is parsed. -/
theorem ObjectView.read_eq {room : Nat} {v w : ObjectView} (h : v.read room = some w) :
    w = { v with object := { v.object with metadata := w.object.metadata } } := by
  unfold ObjectView.read ObjectRow.read at h
  obtain ⟨o, ho, rfl⟩ := Option.map_eq_some_iff.mp h
  obtain ⟨metadata, -, rfl⟩ := Option.map_eq_some_iff.mp ho
  rfl

/-- Only the metadata is shown as it was read. -/
theorem Adapter.shown_eq (a : Adapter) (v : ObjectView) : ∃ metadata,
    a.shown v = { v with object := { v.object with metadata } } := by
  unfold Adapter.shown
  cases h : v.read a.pageRoom with
  | none => exact ⟨v.object.metadata, rfl⟩
  | some w => exact ⟨w.object.metadata, ObjectView.read_eq h⟩

/-- An object keeps its id, -/
theorem ObjectView.read_id {room : Nat} {v w : ObjectView} (h : v.read room = some w) :
    w.id = v.id := by
  rw [ObjectView.read_eq h]

/-- however it is shown. -/
@[simp] theorem Adapter.shown_id (a : Adapter) (v : ObjectView) : (a.shown v).id = v.id := by
  obtain ⟨metadata, h⟩ := a.shown_eq v
  rw [h]

/-- More room for a document changes nothing. -/
theorem ObjectView.read_mono {room more : Nat} (hle : room ≤ more) {v w : ObjectView}
    (h : v.read room = some w) : v.read more = some w := by
  unfold ObjectView.read ObjectRow.read at h ⊢
  obtain ⟨o, ho, rfl⟩ := Option.map_eq_some_iff.mp h
  obtain ⟨metadata, hm, rfl⟩ := Option.map_eq_some_iff.mp ho
  rw [v.object.metadata.read_mono hle hm]
  rfl

/-- The envelope takes room away from the metadata. -/
theorem Adapter.pageRoom_le (a : Adapter) : Adapter.rpc.pageRoom ≤ a.pageRoom := by
  cases a with
  | sqlx => decide
  | rpc => exact le_rfl

/-- What the PostgREST adapter can parse, both adapters show alike. -/
theorem Adapter.shown_of_read {v : ObjectView} (h : (v.read Adapter.rpc.pageRoom).isSome)
    (a : Adapter) : a.shown v = Adapter.rpc.shown v := by
  obtain ⟨w, hw⟩ := Option.isSome_iff_exists.mp h
  unfold Adapter.shown
  rw [hw, ObjectView.read_mono a.pageRoom_le hw]

/-- Every view is parsed, or the whole answer fails. -/
theorem Adapter.parseViews_eq (a : Adapter) (views : List ObjectView) :
    a.parseViews views = if ∀ v ∈ views, (v.read a.pageRoom).isSome then
      .ok (views.map a.shown) else .error a.unparsed := by
  have hmapM : views.mapM (·.read a.pageRoom) =
      if ∀ v ∈ views, (v.read a.pageRoom).isSome then some (views.map a.shown) else none := by
    induction views with
    | nil => rfl
    | cons v views ih =>
      rw [List.mapM_cons, ih]
      cases hv : v.read a.pageRoom with
      | none =>
        have hnot : ¬ ∀ w ∈ v :: views, (w.read a.pageRoom).isSome := by
          intro hall
          have hsome := hall v (List.mem_cons_self ..)
          rw [hv] at hsome
          cases hsome
        rw [if_neg hnot]
        rfl
      | some w =>
        have hshown : a.shown v = w := by
          unfold Adapter.shown
          rw [hv]
          rfl
        have hiff : (∀ u ∈ v :: views, (u.read a.pageRoom).isSome) ↔
            ∀ u ∈ views, (u.read a.pageRoom).isSome := by
          rw [List.forall_mem_cons, hv]
          exact and_iff_right rfl
        by_cases hall : ∀ u ∈ views, (u.read a.pageRoom).isSome
        · rw [if_pos hall, if_pos (hiff.mpr hall), List.map_cons, hshown]
          rfl
        · rw [if_neg hall, if_neg fun h => hall (hiff.mp h)]
          rfl
  unfold Adapter.parseViews
  rw [hmapM]
  by_cases hall : ∀ v ∈ views, (v.read a.pageRoom).isSome
  · rw [if_pos hall, if_pos hall]
  · rw [if_neg hall, if_neg hall]

/-! ## `WHERE` -/

/-- A row is kept if the condition is true, not if it is unknown. -/
theorem SqlBool.keeps_iff {b : SqlBool} : b.keeps = true ↔ b = some true := by
  unfold SqlBool.keeps
  exact decide_eq_true_iff

/-- Both are true, -/
theorem SqlBool.and_eq_true {a b : SqlBool} :
    a.and b = some true ↔ a = some true ∧ b = some true := by
  unfold SqlBool.and
  rcases a with _ | _ | _ <;> rcases b with _ | _ | _ <;> simp

/-- or all of them. -/
theorem SqlBool.foldl_and {clauses : List SqlBool} {a : SqlBool} :
    clauses.foldl SqlBool.and a = some true ↔ a = some true ∧ ∀ c ∈ clauses, c = some true := by
  induction clauses generalizing a with
  | nil => simp
  | cons c clauses ih =>
    rw [List.foldl_cons, ih, SqlBool.and_eq_true, List.forall_mem_cons, and_assoc]

/-- A filter keeps the rows with its value, -/
theorem sqlFilter_eq_true {α : Type} [DecidableEq α] {column filter : Option α} :
    sqlFilter column filter = some true ↔ ∀ x ∈ filter, column = some x := by
  unfold sqlFilter
  cases filter with
  | none => simp
  | some x => cases column <;> simp

/-- a cursor those behind it. -/
theorem sqlAfter_eq_true {id : ObjectId} {cursor : Option KeysetCursor} :
    sqlAfter id cursor = some true ↔ ∀ k ∈ cursor.map KeysetCursor.i, k < id := by
  unfold sqlAfter
  cases cursor <;> simp

/-! ## `SELECT` -/

variable {db : Db} {keep : ObjectId → ObjectRow → Bool}

/-- The view of a row that is there. -/
def Db.viewOf (db : Db) (id : ObjectId) (object : ObjectRow) : ObjectView :=
  { id, object, path := db.path id }

/-- What is selected is there and is kept, -/
theorem Db.mem_selectViews {v : ObjectView} :
    v ∈ db.selectViews keep ↔
      ∃ o, db.object v.id = some o ∧ keep v.id o = true ∧ v = db.viewOf v.id o := by
  unfold Db.selectViews
  rw [List.mem_filterMap]
  constructor
  · rintro ⟨id, _, h⟩
    obtain ⟨o, ho, rfl⟩ := Option.map_eq_some_iff.mp h
    obtain ⟨ho, hkeep⟩ := Option.filter_eq_some_iff.mp ho
    exact ⟨o, ho, hkeep, rfl⟩
  · rintro ⟨o, ho, hkeep, hv⟩
    refine ⟨v.id, Db.mem_objectIds.mpr (by rw [ho]; rfl), ?_⟩
    rw [ho, Option.filter_some, if_pos hkeep, hv]
    rfl

/-- each once. -/
theorem Db.selectViews_ids : ((db.selectViews keep).map (·.id)).Nodup := by
  unfold Db.selectViews
  rw [List.map_filterMap]
  refine List.Nodup.filterMap ?_ Db.nodup_objectIds
  intro id id' x hx hx'
  simp only [Option.map_map, Option.mem_def, Option.map_eq_some_iff, Function.comp_apply] at hx hx'
  obtain ⟨_, _, rfl⟩ := hx
  obtain ⟨_, _, h⟩ := hx'
  exact h.symm

/-- A further condition on the id is a filter on the views. -/
theorem Db.selectViews_filter {keep' : ObjectId → ObjectRow → Bool} {p : ObjectId → Bool}
    (h : ∀ id o, keep' id o = (keep id o && p id)) :
    db.selectViews keep' = (db.selectViews keep).filter fun v => p v.id := by
  unfold Db.selectViews
  rw [List.filter_filterMap]
  refine List.filterMap_congr ?_
  intro id _
  cases hrow : db.object id with
  | none => rfl
  | some o =>
    rw [Option.filter_some, Option.filter_some, h]
    cases keep id o <;> cases hp : p id <;> simp [Option.filter, hp]

/-- The first ones by their ids. -/
theorem firstById_eq_arrange (n : Nat) (views : List ObjectView) :
    firstById n views = (arrange (·.id) views).take n := rfl

/-! ## Sort keys -/

/-- The value of a sort expression. -/
abbrev SortKey := Int ×ₗ String

def OrderBy.sortKey (orderBy : OrderBy) (o : ObjectRow) : SortKey :=
  match orderBy with
  | .name => toLex (0, o.name)
  | .createdAt => toLex (o.createdAt, "")
  | .updatedAt => toLex (o.updatedAt, "")
  | .size => toLex (o.sizeKey, "")

/-- Comparing one thing and then another is comparing pairs. -/
theorem compare_then {α β : Type} [LinearOrder α] [LinearOrder β] (a b : α) (c d : β) :
    (compare a b).then (compare c d) = compare (toLex (a, c)) (toLex (b, d)) := rfl

/-- Rows are compared by their keys. -/
theorem OrderBy.compare_eq (orderBy : OrderBy) (a b : ObjectRow) :
    orderBy.compare a b = Ord.compare (orderBy.sortKey a) (orderBy.sortKey b) := by
  unfold OrderBy.compare OrderBy.sortKey
  cases orderBy with
  | name => rw [← compare_then]; simp
  | createdAt => rw [← compare_then]; simp
  | updatedAt => rw [← compare_then]; simp
  | size => rw [← compare_then]; simp

/-- The keys of a listing, in its direction. -/
def ListOrder.Keys : ListOrder → Type
  | .asc => SortKey ×ₗ ObjectId
  | .desc => (SortKey ×ₗ ObjectId)ᵒᵈ

instance (order : ListOrder) : LinearOrder order.Keys :=
  match order with
  | .asc => inferInstanceAs (LinearOrder (SortKey ×ₗ ObjectId))
  | .desc => inferInstanceAs (LinearOrder (SortKey ×ₗ ObjectId)ᵒᵈ)

def ListOrder.toKey (order : ListOrder) (k : SortKey ×ₗ ObjectId) : order.Keys :=
  match order with
  | .asc => k
  | .desc => OrderDual.toDual k

def ListOrder.ofKey (order : ListOrder) (k : order.Keys) : SortKey ×ₗ ObjectId :=
  match order with
  | .asc => k
  | .desc => OrderDual.ofDual k

/-- A key is read back in either direction, -/
theorem ListOrder.ofKey_toKey (order : ListOrder) (k : SortKey ×ₗ ObjectId) :
    order.ofKey (order.toKey k) = k := by
  cases order <;> rfl

/-- so keys differ in either. -/
theorem ListOrder.toKey_injective (order : ListOrder) : Function.Injective order.toKey :=
  Function.LeftInverse.injective order.ofKey_toKey

/-- The key of a child. -/
def ListChildren.key (q : ListChildren) (e : ObjectId × ObjectRow) : q.order.Keys :=
  q.order.toKey (toLex (q.orderBy.sortKey e.2, e.1))

/-- Children are compared by their keys, -/
theorem ListChildren.compare_eq (q : ListChildren) (a b : ObjectId × ObjectRow) :
    q.compare a b = Ord.compare (q.key a) (q.key b) := by
  unfold ListChildren.compare ListChildren.key
  rw [OrderBy.compare_eq, compare_then]
  cases q.order with
  | asc => rfl
  | desc =>
    show (Ord.compare (toLex (q.orderBy.sortKey a.2, a.1)) (toLex (q.orderBy.sortKey b.2, b.1))).swap =
      Ord.compare (toLex (q.orderBy.sortKey b.2, b.1)) (toLex (q.orderBy.sortKey a.2, a.1))
    exact Std.OrientedOrd.eq_swap.symm

/-- strictly, -/
theorem ListChildren.compare_lt {q : ListChildren} {a b : ObjectId × ObjectRow} :
    q.compare a b = .lt ↔ q.key a < q.key b := by
  rw [q.compare_eq, compare_lt_iff_lt]

/-- or not, -/
theorem ListChildren.compare_le {q : ListChildren} {a b : ObjectId × ObjectRow} :
    (q.compare a b).isLE = true ↔ q.key a ≤ q.key b := by
  rw [q.compare_eq, Ordering.isLE_iff_ne_gt]
  exact compare_le_iff_le

/-- and the id decides. -/
theorem ListChildren.key_eq {q : ListChildren} {a b : ObjectId × ObjectRow} :
    q.key a = q.key b ↔ a.1 = b.1 ∧ q.orderBy.sortKey a.2 = q.orderBy.sortKey b.2 := by
  unfold ListChildren.key
  rw [q.order.toKey_injective.eq_iff, toLex_inj, Prod.mk.injEq]
  exact and_comm

/-- A key holds the id. -/
theorem ListChildren.key_id (q : ListChildren) (e : ObjectId × ObjectRow) :
    (ofLex (q.order.ofKey (q.key e))).2 = e.1 := by
  unfold ListChildren.key
  rw [ListOrder.ofKey_toKey]
  rfl

/-! ## Traversals -/

/-- The fetches of a client that follows the cursors: the state of the store at
each of them and its answer, and whether the last page has been reached. -/
inductive Browsing {σ : Type} (fetch : Option String → σ → DomainResult Page) :
    Option String → List (σ × DomainResult Page) → Prop → Prop
  | pause (cursor : Option String) : Browsing fetch cursor [] False
  | failed {cursor : Option String} {s : σ} {e : DomainError} (hfetch : fetch cursor s = .error e) :
      Browsing fetch cursor [(s, .error e)] False
  | last {cursor : Option String} {s : σ} {page : Page} (hfetch : fetch cursor s = .ok page)
      (hlast : page.nextCursor = none) : Browsing fetch cursor [(s, .ok page)] True
  | next {cursor : Option String} {s : σ} {page : Page} {text : String}
      {fetches : List (σ × DomainResult Page)} {ended : Prop} (hfetch : fetch cursor s = .ok page)
      (hnext : page.nextCursor = some text) (hrest : Browsing fetch (some text) fetches ended) :
      Browsing fetch cursor ((s, .ok page) :: fetches) ended

def itemsOf : DomainResult Page → List ObjectView
  | .ok page => page.items
  | .error _ => []

def allItems {σ : Type} (fetches : List (σ × DomainResult Page)) : List ObjectView :=
  fetches.flatMap fun f => itemsOf f.2

/-- What a client that follows the cursors may rely on. -/
structure Complete {σ α : Type} (Listed : σ → ObjectId → ObjectRow → Prop) (sortKey : ObjectRow → α)
    (before : ObjectView → ObjectView → Prop) (fetches : List (σ × DomainResult Page))
    (ended : Prop) : Prop where
  -- no fetch fails
  answered : ∀ f ∈ fetches, ∃ page, f.2 = .ok page
  listed : ∀ f ∈ fetches, ∀ v ∈ itemsOf f.2, Listed f.1 v.id v.object
  ordered : (allItems fetches).Pairwise before
  -- what is listed at every fetch under one sort key is returned exactly once
  once : ended → ∀ id k, (∀ f ∈ fetches, ∃ o, Listed f.1 id o ∧ sortKey o = k) →
    ((allItems fetches).map (·.id)).count id = 1

section Traversals

variable {σ α : Type} {T : Texts} {fetch : Option String → σ → DomainResult Page}
  {key : ObjectView → κ} {limit : Nat} {orderBy : Option OrderBy}
  {items : σ → Option κ → List ObjectView} {Admits : σ → Option ObjectView → Prop}
  {cursor : Option String} {fetches : List (σ × DomainResult Page)} {ended : Prop}

/-- A client that follows the cursors of keyset pages makes a keyset traversal. -/
theorem Browsing.follows (hlimit : 0 < limit)
    (hpage : ∀ s v, Admits s v → fetch (v.map (T.cursorOf orderBy)) s =
      .ok (T.keysetPage key limit orderBy (v.map key) (items s (v.map key))))
    (h : Browsing fetch cursor fetches ended) {v : Option ObjectView}
    (hcursor : cursor = v.map (T.cursorOf orderBy))
    (hhead : ∀ f ∈ fetches.head?, Admits f.1 v)
    (hchain : fetches.IsChain fun f g => Admits g.1 (itemsOf f.2).getLast?) :
    ∃ found, Follows key limit (v.map key) found ended ∧
      List.Forall₂ (fun f g => (∃ page, f.2 = .ok page ∧ page.items = g.page) ∧
        g.items = items f.1 g.cursor) fetches found := by
  induction h generalizing v with
  | pause => exact ⟨[], .pause _, .nil⟩
  | @failed cursor s e hfetch =>
    have h := hpage s v (hhead _ rfl)
    rw [← hcursor, hfetch] at h
    cases h
  | @last cursor s page hfetch hlast =>
    have h := hpage s v (hhead _ rfl)
    rw [← hcursor, hfetch] at h
    obtain rfl := Except.ok.inj h
    have hmore : ¬ more key limit (v.map key) (items s (v.map key)) := by
      intro hmore
      unfold Texts.keysetPage at hlast
      rw [if_pos hmore, Option.map_eq_none_iff, List.getLast?_eq_none_iff] at hlast
      exact page_ne_nil hlimit hmore hlast
    exact ⟨_, .last hmore, .cons ⟨⟨_, rfl, rfl⟩, rfl⟩ .nil⟩
  | @next cursor s page text fetches ended hfetch hnext hrest ih =>
    have h := hpage s v (hhead _ rfl)
    rw [← hcursor, hfetch] at h
    obtain rfl := Except.ok.inj h
    unfold Texts.keysetPage at hnext
    by_cases hmore : more key limit (v.map key) (items s (v.map key))
    · rw [if_pos hmore] at hnext
      obtain ⟨last, hlast, htext⟩ := Option.map_eq_some_iff.mp hnext
      have hrest' := List.isChain_cons.mp hchain
      -- the next cursor names the last item of the page
      obtain ⟨found, hfollows, hfound⟩ := ih (v := some last) (by rw [← htext]; rfl)
        (fun f hf => hlast ▸ hrest'.1 f hf) hrest'.2
      exact ⟨_, .next hmore hlast hfollows, .cons ⟨⟨_, rfl, rfl⟩, rfl⟩ hfound⟩
    · rw [if_neg hmore] at hnext
      cases hnext

omit [LinearOrder κ] in
/-- The items of all pages. -/
theorem allItems_eq_returned {found : List (Fetch ObjectView κ)}
    (h : List.Forall₂ (fun f g => (∃ page, f.2 = .ok page ∧ page.items = g.page) ∧
      g.items = items f.1 g.cursor) fetches found) : allItems fetches = returned found := by
  induction h with
  | nil => rfl
  | cons hfg _ ih =>
    obtain ⟨⟨page, hok, hitems⟩, _⟩ := hfg
    unfold allItems returned at ih ⊢
    rw [List.flatMap_cons, List.flatMap_cons, ih, hok, ← hitems]
    rfl

variable {Listed : σ → ObjectId → ObjectRow → Prop} {sortKey : ObjectRow → α} {idOf : κ → ObjectId}

/-- A keyset traversal is complete, also where a fetch leaves out the object
that its cursor names. -/
theorem Browsing.complete (hlimit : 0 < limit)
    (hpage : ∀ s v, Admits s v → fetch (v.map (T.cursorOf orderBy)) s =
      .ok (T.keysetPage key limit orderBy (v.map key) (items s (v.map key))))
    (hsorted : ∀ s c, Sorted key (items s c))
    (hlisted : ∀ f ∈ fetches, ∀ c, ∀ v ∈ items f.1 c, Listed f.1 v.id v.object)
    (hitems : ∀ f ∈ fetches, ∀ c id o, Listed f.1 id o → (∀ k ∈ c, idOf k ≠ id) →
      ∃ v ∈ items f.1 c, v.id = id ∧ v.object = o)
    (hrow : ∀ s id o o', Listed s id o → Listed s id o' → o = o')
    (hkey : ∀ v w, key v = key w ↔ v.id = w.id ∧ sortKey v.object = sortKey w.object)
    (hid : ∀ v, idOf (key v) = v.id)
    (h : Browsing fetch none fetches ended) (hhead : ∀ f ∈ fetches.head?, Admits f.1 none)
    (hchain : fetches.IsChain fun f g => Admits g.1 (itemsOf f.2).getLast?) :
    Complete Listed sortKey (fun v w => key v < key w) fetches ended := by
  obtain ⟨found, hfollows, hfound⟩ := h.follows hlimit hpage (v := none) rfl hhead hchain
  have hall : allItems fetches = returned found := allItems_eq_returned hfound
  have hsort : ∀ g ∈ found, Sorted key g.items := by
    intro g hg
    obtain ⟨f, _, _, heq⟩ := forall₂_right hfound hg
    rw [heq]
    exact hsorted _ _
  have hlist : ∀ f ∈ fetches, ∀ v ∈ itemsOf f.2, Listed f.1 v.id v.object := by
    intro f hf v hv
    obtain ⟨g, hg, ⟨page, hok, hpage⟩, heq⟩ := forall₂_left hfound hf
    rw [hok] at hv
    have hmem := hfollows.found g hg v (hpage ▸ hv)
    exact hlisted f hf _ _ (heq ▸ hmem)
  refine ⟨?_, hlist, ?_, ?_⟩
  · intro f hf
    obtain ⟨g, _, ⟨page, hok, _⟩, _⟩ := forall₂_left hfound hf
    exact ⟨page, hok⟩
  · rw [hall]
    exact hfollows.sorted hsort
  · intro hended id k hpersists
    obtain ⟨f, hf⟩ : ∃ f, f ∈ fetches := by
      cases h with
      | pause | failed => exact hended.elim
      | last | next => exact ⟨_, List.mem_cons_self ..⟩
    -- the key under which the object is listed all along
    obtain ⟨o, ho, hk⟩ := hpersists f hf
    obtain ⟨w, _, hwid, rfl⟩ := hitems f hf none id o ho (by simp)
    have hat : ∀ v ∈ allItems fetches, v.id = id ↔ key v = key w := by
      intro v hv
      obtain ⟨f, hf, hfv⟩ := List.mem_flatMap.mp hv
      rw [hkey, hwid]
      constructor
      · intro hvid
        obtain ⟨o, ho, hk'⟩ := hpersists f hf
        have hv' := hlist f hf v hfv
        rw [hvid] at hv'
        rw [hrow _ _ _ _ hv' ho, hk, hk']
        exact ⟨hvid, rfl⟩
      · exact And.left
    have hmem : ∃ x ∈ returned found, key x = key w := by
      refine hfollows.mem hended hsort (by simp) ?_
      intro g hg hlt
      obtain ⟨f, hf, _, heq⟩ := forall₂_right hfound hg
      obtain ⟨o, ho, hk'⟩ := hpersists f hf
      by_cases hcursor : ∀ c ∈ g.cursor, idOf c ≠ id
      · obtain ⟨v, hv, hvid, hvo⟩ := hitems f hf g.cursor id o ho hcursor
        exact ⟨v, heq ▸ hv, (hkey v w).mpr ⟨hvid.trans hwid.symm, by rw [hvo, hk', hk]⟩⟩
      · -- the object that the cursor names has been returned, under the key that it keeps
        exfalso
        push Not at hcursor
        obtain ⟨c, hc, hcid⟩ := hcursor
        rcases hfollows.cursor_returned g hg with hnone | ⟨g', hg', x, hx, hsome⟩
        · rw [hnone] at hc
          cases hc
        · rw [hsome] at hc
          obtain rfl := Option.some.inj hc
          rw [hid] at hcid
          have hx' : x ∈ allItems fetches := hall ▸ List.mem_flatMap.mpr ⟨g', hg', hx⟩
          have hltx := hlt _ hsome
          rw [(hat x hx').mp hcid] at hltx
          exact lt_irrefl _ hltx
    have hnodup : ((allItems fetches).map key).Nodup := hall ▸ (hfollows.sorted hsort).nodup_keys
    obtain ⟨x, hx, hxw⟩ := hmem
    have hone : ((allItems fetches).map key).count (key w) = 1 :=
      List.count_eq_one_of_mem hnodup (List.mem_map.mpr ⟨x, hall ▸ hx, hxw⟩)
    rw [← hone, List.count, List.count, List.countP_map, List.countP_map]
    refine List.countP_congr ?_
    intro v hv
    simpa using hat v hv

end Traversals

end AnyStore
