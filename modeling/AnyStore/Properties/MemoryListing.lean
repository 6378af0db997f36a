import AnyStore.Properties.MemoryTree
import AnyStore.Refinement.Listing

/-!
# Listings of the in-memory store

`paginate` looks for the item that the cursor names and continues behind it. The
page is the one of the sort keys as long as no other object has come between
where that item was and where it is, and it is empty once the item is gone.

## Results

* `listing_complete` — a client that follows the cursors meets every object that
  stays where it is once and in order, if the cursor's object is never passed.
* `listing_not_complete` — once the cursor's object is deleted, what lies behind it is
  not returned any more.

## Assumptions

A cursor is read as it was written (`hcodec`); a page holds at least one object.
-/

namespace AnyStore.Memory

open Keyset Locked

/-! ## The two listings -/

/-- A listing of the in-memory store. -/
inductive Listing
  | children (q : ListChildren)
  | query (q : ObjectQuery)

namespace Listing

/-- One page. -/
def fetch (T : Texts) (l : Listing) (cursor : Option String) (s : State) : DomainResult Page :=
  match l with
  | children q => listChildren T { q with cursor } s
  | query q => queryObjects T { q with cursor } s

/-- How many objects a page holds. -/
def limit : Listing → Nat
  | children q => q.limit
  | query q => q.limit

/-- Which objects are listed. -/
def keep : Listing → ObjectRow → Bool
  | children q => isChild q.parentId
  | query q => isSelected q

/-- The sort expression; a query has none. -/
def sortKey : Listing → ObjectRow → Option SortKey
  | children q => fun o => some (q.orderBy.sortKey o)
  | query _ => fun _ => none

/-- The order in which the objects are listed. -/
def before : Listing → ObjectId × ObjectRow → ObjectId × ObjectRow → Prop
  | children q => fun a b => q.compare a b = .lt
  | query _ => fun a b => a.1 < b.1

end Listing

/-- The object is there and is listed. -/
def Listed (keep : ObjectRow → Bool) (s : State) (id : ObjectId) (o : ObjectRow) : Prop :=
  s.objects.lookup id = some o ∧ keep o = true

/-- No listed path is too deep to be rendered. -/
def Renders (keep : ObjectRow → Bool) (s : State) : Prop :=
  ∀ id o, Listed keep s id o → ∃ path, s.renderPath id = .ok path

/-- What the store may have done since the page that ends with `v` was made: the
objects behind `v` are behind where it is now, or it is gone and there are none. -/
structure Undisturbed (Listed : ObjectId → ObjectRow → Prop)
    (before : ObjectId × ObjectRow → ObjectId × ObjectRow → Prop) (v : ObjectView) : Prop where
  kept : ∀ w, Listed v.id w → ∀ id o, id ≠ v.id → Listed id o →
    (before (v.id, v.object) (id, o) ↔ before (v.id, w) (id, o))
  gone : (∀ w, ¬ Listed v.id w) → ∀ id o, Listed id o → ¬ before (v.id, v.object) (id, o)

/-- Every fetch finds paths that can be rendered, and after the first it finds
what the page before left. -/
structure Steady (l : Listing) (fetches : List (State × DomainResult Page)) : Prop where
  renders : ∀ f ∈ fetches, Renders l.keep f.1
  undisturbed : fetches.IsChain fun f g =>
    ∀ v ∈ (itemsOf f.2).getLast?, Undisturbed (Listed l.keep g.1) l.before v

variable {s : State} {keep : ObjectRow → Bool} {κ : Type} [LinearOrder κ]

/-! ## What is listed -/

/-- The view of an object, with an empty path if there is none. -/
def State.viewAt (s : State) (id : ObjectId) (object : ObjectRow) : ObjectView :=
  { id, object, path := (s.renderPath id).toOption.getD "" }

/-- The objects of the listing, in no order. -/
def State.found (s : State) (keep : ObjectRow → Bool) : List ObjectView :=
  (s.objects.entries.filter fun e => keep e.2).map fun e => s.viewAt e.1 e.2

/-- They are the listed ones, each with its path. -/
theorem State.mem_found {v : ObjectView} :
    v ∈ s.found keep ↔ ∃ o, Listed keep s v.id o ∧ v = s.viewAt v.id o := by
  unfold State.found Listed
  rw [List.mem_map]
  constructor
  · rintro ⟨e, he, rfl⟩
    obtain ⟨he, hkeep⟩ := List.mem_filter.mp he
    exact ⟨e.2, ⟨AList.mem_lookup_iff.mpr he, hkeep⟩, rfl⟩
  · rintro ⟨o, ⟨ho, hkeep⟩, hv⟩
    exact ⟨⟨v.id, o⟩, List.mem_filter.mpr ⟨AList.mem_lookup_iff.mp ho, hkeep⟩, hv.symm⟩

/-- None is there twice. -/
theorem State.found_ids (s : State) (keep : ObjectRow → Bool) :
    ((s.found keep).map (·.id)).Nodup := by
  unfold State.found
  rw [List.map_map]
  exact s.objects.keys_nodup.sublist (List.filter_sublist.map Sigma.fst)

/-- Where every path can be rendered, the listing succeeds. -/
theorem State.views_eq (h : Renders keep s) : s.views keep = .ok (s.found keep) := by
  unfold State.views State.found
  have hall : ∀ e ∈ s.objects.entries.filter fun e => keep e.2,
      ∃ path, s.renderPath e.1 = .ok path := by
    intro e he
    obtain ⟨he, hkeep⟩ := List.mem_filter.mp he
    exact h e.1 e.2 ⟨AList.mem_lookup_iff.mpr he, hkeep⟩
  generalize s.objects.entries.filter _ = entries at hall
  induction entries with
  | nil => rfl
  | cons e entries ih =>
    obtain ⟨⟨path, hpath⟩, hrest⟩ := List.forall_mem_cons.mp hall
    rw [List.mapM_cons, ih hrest, List.map_cons, State.viewAt, hpath]
    rfl

/-! ## The page behind an item -/

/-- An object that has not changed leaves the listing undisturbed. -/
theorem Undisturbed.of_listed {before : ObjectId × ObjectRow → ObjectId × ObjectRow → Prop}
    {v : ObjectView} (h : Listed keep s v.id v.object) : Undisturbed (Listed keep s) before v where
  kept := by
    intro w hw id o _ _
    rw [Option.some.inj (h.1.symm.trans hw.1)]
  gone := fun hgone => absurd h (hgone v.object)

/-- The key of a view. -/
def keyOf (key : ObjectId × ObjectRow → κ) (v : ObjectView) : κ := key (v.id, v.object)

variable {T : Texts} {key : ObjectId × ObjectRow → κ} {limit : Nat} {orderBy : Option OrderBy}
  {items : List ObjectView} {l : Listing} {fetches : List (State × DomainResult Page)} {ended : Prop}

/-- Once the cursor is read, the rest is `finish_page`. -/
theorem paginate_ok {cursor : Option String} {c : Option KeysetCursor}
    (hread : T.readCursor cursor = .ok c) :
    paginate T items limit cursor orderBy = .ok (T.finishPage (splitOff items c) limit orderBy) := by
  unfold paginate Texts.finishPage sortKey
  rw [hread]
  show Except.ok _ = Except.ok _
  by_cases h : limit < (splitOff items c).length
  · simp only [h, decide_true, if_true]
  · simp only [h, decide_false, if_false, Bool.false_eq_true]

/-- What is behind the item is what has a larger key, as nobody has passed it. -/
theorem splitOff_eq_after {v : ObjectView} {c : KeysetCursor} (hsorted : Sorted (keyOf key) items)
    (hids : (items.map (·.id)).Nodup) (hc : c.i = v.id)
    (h : Undisturbed (fun id o => ∃ w ∈ items, w.id = id ∧ w.object = o)
      (fun a b => key a < key b) v) :
    splitOff items (some c) = after (keyOf key) (some (keyOf key v))
      (items.filter fun x => decide (x.id ≠ v.id)) := by
  simp only [splitOff, hc]
  cases hfind : items.findIdx? fun item => item.id = v.id with
  | none =>
    -- the item is gone, and nothing may be behind it
    rw [List.findIdx?_eq_none_iff] at hfind
    symm
    unfold after
    rw [List.filter_filter, List.filter_eq_nil_iff]
    intro x hx
    have hgone := h.gone (by
      rintro w ⟨y, hy, hyid, _⟩
      simpa [hyid] using hfind y hy) x.id x.object ⟨x, hx, rfl, rfl⟩
    simpa [keyOf] using fun hlt => absurd hlt hgone
  | some n =>
    obtain ⟨hn, hid, _⟩ := List.findIdx?_eq_some_iff_getElem.mp hfind
    have hw : items[n] ∈ items := List.getElem_mem hn
    have hwid : items[n].id = v.id := by simpa using hid
    show items.drop (n + 1) = _
    rw [drop_eq_after hsorted hfind (List.getElem?_eq_getElem hn)]
    unfold after
    rw [List.filter_filter]
    refine List.filter_congr ?_
    intro x hx
    rw [Bool.eq_iff_iff]
    simp only [Option.mem_def, Option.some.injEq, forall_eq', decide_eq_true_eq, Bool.and_eq_true,
      ne_eq]
    by_cases hxid : x.id = v.id
    · have hxw : x = items[n] := List.inj_on_of_nodup_map hids hx hw (hxid.trans hwid.symm)
      rw [← hxw]
      simp [hxid]
    · have hkept := h.kept items[n].object ⟨_, hw, hwid, rfl⟩ x.id x.object hxid ⟨x, hx, rfl, rfl⟩
      unfold keyOf
      rw [hwid, ← hkept]
      simp [hxid]

/-! ## Traversals -/

/-- Sorting them keeps them. -/
theorem State.listed_iff {id : ObjectId} {o : ObjectRow} :
    (∃ v ∈ arrange (keyOf key) (s.found keep), v.id = id ∧ v.object = o) ↔ Listed keep s id o := by
  constructor
  · rintro ⟨v, hv, rfl, rfl⟩
    obtain ⟨o, ho, heq⟩ := State.mem_found.mp (mem_arrange.mp hv)
    rw [heq]
    exact ho
  · intro ho
    exact ⟨s.viewAt id o, mem_arrange.mpr (State.mem_found.mpr ⟨o, ho, rfl⟩), rfl, rfl⟩

/-- The same as an equation. -/
theorem State.listed_eq (key : ObjectId × ObjectRow → κ) : Listed keep s = fun id o =>
    ∃ v ∈ arrange (keyOf key) (s.found keep), v.id = id ∧ v.object = o := by
  funext id o
  exact propext State.listed_iff.symm

/-- A listing in the order of `key`, from which the object of a key can be read. -/
structure Keyed (fetch : Option String → State → DomainResult Page) (T : Texts)
    (keep : ObjectRow → Bool) (key : ObjectId × ObjectRow → κ) (idOf : κ → ObjectId) (limit : Nat)
    (orderBy : Option OrderBy) : Prop where
  fetch : ∀ cursor s, fetch cursor s = (s.views keep).bind fun items =>
    paginate T (arrange (keyOf key) items) limit cursor orderBy
  idOf : ∀ e, idOf (key e) = e.1

section

variable {fetch : Option String → State → DomainResult Page} {idOf : κ → ObjectId}
  (hcodec : ∀ c, T.decodeCursor (T.encodeCursor c) = some c)
  (hkeyed : Keyed fetch T keep key idOf limit orderBy)

/-- What is listed, without the object that the cursor names. -/
def others (keep : ObjectRow → Bool) (key : ObjectId × ObjectRow → κ) (idOf : κ → ObjectId)
    (s : State) (cursor : Option κ) : List ObjectView :=
  (arrange (keyOf key) (s.found keep)).filter fun x => decide (∀ k ∈ cursor, x.id ≠ idOf k)

include hkeyed in
/-- By key the objects are in strict order. -/
theorem Keyed.found_sorted (s : State) : Sorted (keyOf key) (arrange (keyOf key) (s.found keep)) := by
  refine arrange_sorted (List.Nodup.map_on ?_ (s.found_ids keep).of_map)
  intro x hx y hy hxy
  have hid : x.id = y.id := by
    have h := congrArg idOf hxy
    unfold keyOf at h
    rwa [hkeyed.idOf, hkeyed.idOf] at h
  exact List.inj_on_of_nodup_map (s.found_ids keep) hx hy hid

include hcodec hkeyed in
/-- **Page.** It is the page of the keys behind the cursor. -/
theorem Keyed.page {s : State} {last : Option ObjectView} (hrenders : Renders keep s)
    (h : ∀ v ∈ last, Undisturbed (Listed keep s) (fun a b => key a < key b) v) :
    fetch (last.map (T.cursorOf orderBy)) s = .ok (T.keysetPage (keyOf key) limit orderBy
      (last.map (keyOf key)) (others keep key idOf s (last.map (keyOf key)))) := by
  have hsorted := hkeyed.found_sorted s
  rw [hkeyed.fetch, State.views_eq hrenders]
  show paginate T (arrange (keyOf key) (s.found keep)) limit (last.map (T.cursorOf orderBy)) orderBy = _
  unfold others
  cases last with
  | none =>
    have hread : T.readCursor none = .ok none := rfl
    rw [Option.map_none, paginate_ok hread, ← T.finishPage_after]
    simp [after, splitOff]
  | some v =>
    have hread : T.readCursor (some (T.cursorOf orderBy v)) =
        .ok (some { k := T.sortKeyOf v orderBy, i := v.id }) := by
      unfold Texts.readCursor Texts.cursorOf
      simp only [hcodec]
    -- the item of the cursor is found by its id
    have hids : ((arrange (keyOf key) (s.found keep)).map (·.id)).Nodup :=
      ((perm_arrange (keyOf key) _).map _).nodup_iff.mpr (s.found_ids keep)
    have hat := h v rfl
    rw [State.listed_eq key] at hat
    rw [Option.map_some, paginate_ok hread, ← T.finishPage_after,
      splitOff_eq_after hsorted hids rfl hat]
    have hid : idOf (keyOf key v) = v.id := hkeyed.idOf _
    simp [hid]

variable {α : Type} {sortKey : ObjectRow → α}

include hcodec hkeyed in
/-- **Traversal.** The rule for listings by key gives the result. -/
theorem Keyed.complete (hlimit : 0 < limit)
    (hkey : ∀ a b, key a = key b ↔ a.1 = b.1 ∧ sortKey a.2 = sortKey b.2)
    (h : Browsing fetch none fetches ended) (hrenders : ∀ f ∈ fetches, Renders keep f.1)
    (hchain : fetches.IsChain fun f g =>
      ∀ v ∈ (itemsOf f.2).getLast?, Undisturbed (Listed keep g.1) (fun a b => key a < key b) v) :
    Complete (Listed keep) sortKey (fun v w => key (v.id, v.object) < key (w.id, w.object))
      fetches ended := by
  -- the pages are pages of keys while the cursor's item is not passed
  let Admits (s : State) (last : Option ObjectView) : Prop := Renders keep s ∧
    ∀ v ∈ last, Undisturbed (Listed keep s) (fun a b => key a < key b) v
  refine @Browsing.complete κ _ State α T fetch (keyOf key) limit orderBy (others keep key idOf)
    Admits fetches ended (Listed keep) sortKey idOf hlimit
    (fun s v hv => hkeyed.page hcodec hv.1 hv.2) ?_ ?_ ?_ ?_ ?_ ?_ h ?_ ?_
  · intro s c
    exact (hkeyed.found_sorted s).sublist List.filter_sublist
  · intro f _ c v hv
    exact State.listed_iff.mp ⟨v, (List.mem_filter.mp hv).1, rfl, rfl⟩
  · intro f _ c id o ho hne
    rw [State.listed_eq key] at ho
    obtain ⟨v, hv, hvid, hvo⟩ := ho
    refine ⟨v, List.mem_filter.mpr ⟨hv, ?_⟩, hvid, hvo⟩
    rw [decide_eq_true_eq, hvid]
    intro k hk
    exact (hne k hk).symm
  · intro s id o o' ho ho'
    exact Option.some.inj (ho.1.symm.trans ho'.1)
  · intro v w
    exact hkey _ _
  · intro v
    exact hkeyed.idOf _
  · intro f hf
    exact ⟨hrenders f (List.mem_of_mem_head? hf), by simp⟩
  · refine (List.IsChain.iff_mem.mp hchain).imp ?_
    rintro f g ⟨_, hg, hfg⟩
    exact ⟨hrenders g hg, hfg⟩

end

/-- The children of a folder are in the order of their keys. -/
theorem keyed_children (T : Texts) (q : ListChildren) :
    Keyed ((Listing.children q).fetch T) T (isChild q.parentId) q.key
      (fun k => (ofLex (q.order.ofKey k)).2) q.limit (some q.orderBy) where
  fetch := by
    intro cursor s
    -- the comparison of the source is that of the keys
    have hle : (fun a b : ObjectView => (q.compare (a.id, a.object) (b.id, b.object)).isLE = true) =
        fun a b => keyOf q.key a ≤ keyOf q.key b := by
      funext a b
      exact propext ListChildren.compare_le
    have hsort : ∀ items : List ObjectView, (items.insertionSort fun a b =>
        (q.compare (a.id, a.object) (b.id, b.object)).isLE = true) =
          arrange (keyOf q.key) items := by
      intro items
      unfold arrange
      congr!
    show (s.views (isChild q.parentId)).bind _ = _
    congr 1
    funext items
    exact congrArg (fun items => paginate T items q.limit cursor (some q.orderBy)) (hsort items)
  idOf := q.key_id

/-- A query is in the order of the ids. -/
theorem keyed_query (T : Texts) (q : ObjectQuery) :
    Keyed ((Listing.query q).fetch T) T (isSelected q) Prod.fst id q.limit none where
  fetch := fun _ _ => rfl
  idOf := fun _ => rfl

/-- A client that follows the cursors of the in-memory store meets every object
that stays where it is exactly once, in the order of the listing, as long as no
other object passes the one that its cursor names. -/
theorem listing_complete (T : Texts) (hcodec : ∀ c, T.decodeCursor (T.encodeCursor c) = some c)
    (hlimit : 0 < l.limit) (h : Browsing (l.fetch T) none fetches ended)
    (hsteady : Steady l fetches) :
    Complete (Listed l.keep) l.sortKey (fun v w => l.before (v.id, v.object) (w.id, w.object))
      fetches ended := by
  cases l with
  | children q =>
    -- `before` is the order of the keys
    have hbefore : (Listing.children q).before = fun a b => q.key a < q.key b := by
      funext a b
      exact propext ListChildren.compare_lt
    have hchain := hsteady.undisturbed
    rw [hbefore] at hchain ⊢
    refine (keyed_children T q).complete hcodec hlimit ?_ h hsteady.renders hchain
    intro a b
    unfold Listing.sortKey
    rw [ListChildren.key_eq, Option.some.injEq]
  | query q =>
    refine (keyed_query T q).complete hcodec hlimit ?_ h hsteady.renders hsteady.undisturbed
    intro a b
    unfold Listing.sortKey
    simp

/-! ## Two folders, one to a page -/

/-- A text for a cursor that can be read again, character by character. -/
def spell (c : KeysetCursor) : List Char :=
  match c.k with
  | none => 'N' :: c.i.toList.flatMap fun x => ['i', x]
  | some k =>
    'S' :: ((k.toList.flatMap fun x => ['k', x]) ++ c.i.toList.flatMap fun x => ['i', x])

/-- The characters behind every `mark`. -/
def marked (mark : Char) : List Char → List Char
  | m :: x :: text => if m = mark then x :: marked mark text else marked mark text
  | _ => []

/-- The cursor that `spell` has written. -/
def unspell : List Char → Option KeysetCursor
  | 'N' :: text => some { k := none, i := String.ofList (marked 'i' text) }
  | 'S' :: text => some { k := some (String.ofList (marked 'k' text)), i := String.ofList (marked 'i' text) }
  | _ => none

/-- The characters behind one mark, and no others. -/
theorem marked_append (mark m : Char) (xs : List Char) (text : List Char) :
    marked mark ((xs.flatMap fun x => [m, x]) ++ text) =
      (if m = mark then xs else []) ++ marked mark text := by
  induction xs with
  | nil => split <;> rfl
  | cons x xs ih =>
    have hcons : marked mark (((x :: xs).flatMap fun x => [m, x]) ++ text) =
        if m = mark then x :: marked mark ((xs.flatMap fun x => [m, x]) ++ text)
        else marked mark ((xs.flatMap fun x => [m, x]) ++ text) := rfl
    rw [hcons, ih]
    split <;> rfl

/-- It comes back. -/
theorem unspell_spell (c : KeysetCursor) : unspell (spell c) = some c := by
  obtain ⟨k, i⟩ := c
  have hi : ∀ mark, marked mark (i.toList.flatMap fun x => ['i', x]) =
      if 'i' = mark then i.toList else [] := by
    intro mark
    have h := marked_append mark 'i' i.toList []
    rwa [List.append_nil, show marked mark [] = [] from rfl, List.append_nil] at h
  cases k with
  | none =>
    show some _ = some _
    rw [hi]
    simp
  | some k =>
    have hk : ∀ mark, marked mark ((k.toList.flatMap fun x => ['k', x]) ++
        i.toList.flatMap fun x => ['i', x]) =
          (if 'k' = mark then k.toList else []) ++ if 'i' = mark then i.toList else [] := by
      intro mark
      rw [marked_append, hi]
    show some (KeysetCursor.mk (some (String.ofList (marked 'k' _)))
      (String.ofList (marked 'i' _))) = some _
    rw [hk, hk]
    simp

/-- No such text begins like the one of the cursor behind `a`. -/
theorem spell_head (c : KeysetCursor) : (spell c).head? ≠ some 'e' := by
  unfold spell
  cases c.k <;> simp

/-- The cursor behind the folder `a` has the text that `serde_json` and `base64`
give it. -/
def spelledTexts : Texts where
  encodeCursor c := if c = ⟨some "a", "a"⟩ then "eyJrIjoiYSIsImkiOiJhIn0" else String.ofList (spell c)
  decodeCursor text :=
    if text = "eyJrIjoiYSIsImkiOiJhIn0" then some ⟨some "a", "a"⟩ else unspell text.toList
  toRfc3339 _ := ""
  parseRfc3339 _ := none

/-- All cursors come back. -/
theorem spelledTexts_codec (c : KeysetCursor) :
    spelledTexts.decodeCursor (spelledTexts.encodeCursor c) = some c := by
  by_cases h : c = ⟨some "a", "a"⟩
  · rw [h]
    rfl
  · have hne : String.ofList (spell c) ≠ "eyJrIjoiYSIsImkiOiJhIn0" := by
      intro heq
      refine spell_head c ?_
      rw [← String.toList_ofList (l := spell c), heq]
      rfl
    have hencode : spelledTexts.encodeCursor c = String.ofList (spell c) := if_neg h
    have hdecode : spelledTexts.decodeCursor (String.ofList (spell c)) =
        unspell (String.ofList (spell c)).toList := if_neg hne
    rw [hencode, hdecode, String.toList_ofList]
    exact unspell_spell c

/-- The folders below the root, one to a page. -/
def oneToAPage : Listing :=
  .children { parentId := rootId, limit := 1, cursor := none, orderBy := .name, order := .asc }

/-- The state behind a mutation. -/
def State.next (s : State) (m : Mutation) : State := ((m.run s).map Prod.snd).getD s

/-- Two folders below the root. -/
def twoFolders : State :=
  ((State.new 0).next (.create (newFolder "a" rootId "a"))).next
    (.create (newFolder "b" rootId "b"))

/-- They were created. -/
theorem twoFolders_reached : Visits Mutation.run (fun _ _ => True) (State.new 0) twoFolders :=
  .call (.create (newFolder "b" rootId "b"))
    (.call (.create (newFolder "a" rootId "a")) .init trivial rfl) trivial rfl

/-- Every path can be rendered. -/
theorem renders_of_all (keep : ObjectRow → Bool) {s : State}
    (h : (s.objects.entries.all fun e => (s.renderPath e.1).toOption.isSome) = true) :
    Renders keep s := by
  intro id o ho
  have hpath := List.all_eq_true.mp h ⟨id, o⟩ (AList.mem_lookup_iff.mp ho.1)
  cases hrender : s.renderPath id with
  | ok path => exact ⟨path, rfl⟩
  | error e =>
    rw [hrender] at hpath
    cases hpath

/-- The page of `a`, with the cursor behind it. -/
theorem twoFolders_first : ∃ page v,
    oneToAPage.fetch spelledTexts none twoFolders = .ok page ∧
      page.nextCursor = some "eyJrIjoiYSIsImkiOiJhIn0" ∧ page.items = [v] ∧ v.id = "a" :=
  ⟨_, _, rfl, rfl, rfl, rfl⟩

/-! ## A listing in a store that changes -/

/-- A third one. -/
def threeFolders : State := twoFolders.next (.create (newFolder "c" rootId "c"))

/-- Behind the page of `a`, the folder `b` is deleted and `0` is created. -/
def shifted : State :=
  (threeFolders.next (.delete (dropFolder "b" false))).next (.create (newFolder "0" rootId "0"))

/-- By a delete and a create. -/
theorem shifted_reached : Visits Mutation.run (fun _ _ => True) threeFolders shifted :=
  .call (.create (newFolder "0" rootId "0"))
    (.call (.delete (dropFolder "b" false)) .init trivial rfl) trivial rfl

/-- `c` comes on the second page, and `0` on none: it is in front of the cursor. -/
theorem listing_complete_shifted : Visits Mutation.run (fun _ _ => True) threeFolders shifted ∧
    ∃ fetches, fetches.map Prod.fst = [threeFolders, shifted] ∧
    (allItems fetches).map (·.id) = ["a", "c"] ∧
    Complete (Listed oneToAPage.keep) oneToAPage.sortKey
      (fun v w => oneToAPage.before (v.id, v.object) (w.id, w.object)) fetches True := by
  obtain ⟨page, v, hfetch, hnext, hitems, hv, hlisted⟩ : ∃ page v,
      oneToAPage.fetch spelledTexts none threeFolders = .ok page ∧
        page.nextCursor = some "eyJrIjoiYSIsImkiOiJhIn0" ∧ page.items = [v] ∧ v.id = "a" ∧
          Listed oneToAPage.keep shifted v.id v.object := ⟨_, _, rfl, rfl, rfl, rfl, rfl, rfl⟩
  obtain ⟨page', w, hfetch', hlast, hitems', hw⟩ : ∃ page v,
      oneToAPage.fetch spelledTexts (some "eyJrIjoiYSIsImkiOiJhIn0") shifted = .ok page ∧
        page.nextCursor = none ∧ page.items = [v] ∧ v.id = "c" := ⟨_, _, rfl, rfl, rfl, rfl⟩
  refine ⟨shifted_reached, [(threeFolders, .ok page), (shifted, .ok page')], rfl, ?_, ?_⟩
  · simp [allItems, itemsOf, hitems, hitems', hv, hw]
  refine listing_complete spelledTexts spelledTexts_codec (by decide)
    (.next hfetch hnext (.last hfetch' hlast)) ⟨?_, ?_⟩
  · have hthree : Renders oneToAPage.keep threeFolders := renders_of_all _ (by decide +kernel)
    have hshifted : Renders oneToAPage.keep shifted := renders_of_all _ (by decide +kernel)
    intro f hf
    rcases List.mem_cons.mp hf with rfl | hf
    · exact hthree
    · rw [List.mem_singleton.mp hf]
      exact hshifted
  · -- `a` stays where it is
    refine .cons_cons ?_ (.singleton _)
    intro u hu
    obtain rfl : v = u := by simpa [itemsOf, hitems] using hu
    exact .of_listed hlisted

/-! ## A cursor without its object -/

/-- `a` is deleted. -/
def onlyB : State := twoFolders.next (.delete (dropFolder "a" false))

/-- `a` is deleted behind its page: `b`, which has been there all along, is not
returned. -/
theorem listing_not_complete : ¬ ∀ (T : Texts) (l : Listing) fetches ended,
    (∀ c, T.decodeCursor (T.encodeCursor c) = some c) → 0 < l.limit →
    Browsing (l.fetch T) none fetches ended →
    (∀ f ∈ fetches, Visits Mutation.run (fun _ _ => True) (State.new 0) f.1) →
    fetches.IsChain (fun f g => Visits Mutation.run (fun _ _ => True) f.1 g.1) →
    Complete (Listed l.keep) l.sortKey (fun v w => l.before (v.id, v.object) (w.id, w.object))
      fetches ended := by
  intro h
  obtain ⟨page, v, hfetch, hnext, hitems, hv⟩ := twoFolders_first
  have hdrop : Visits Mutation.run (fun _ _ => True) twoFolders onlyB :=
    .call (.delete (dropFolder "a" false)) .init trivial rfl
  -- the second page is empty and has no cursor
  obtain ⟨page', hfetch', hlast, hitems'⟩ : ∃ page,
      oneToAPage.fetch spelledTexts (some "eyJrIjoiYSIsImkiOiJhIn0") onlyB = .ok page ∧
        page.nextCursor = none ∧ page.items = [] := ⟨_, rfl, rfl, rfl⟩
  let fetches : List (State × DomainResult Page) := [(twoFolders, .ok page), (onlyB, .ok page')]
  have hstates : ∀ f ∈ fetches, f.1 = twoFolders ∨ f.1 = onlyB := by
    intro f hf
    rcases List.mem_cons.mp hf with rfl | hf
    · exact .inl rfl
    · exact .inr (by rw [List.mem_singleton.mp hf])
  have hreached : ∀ f ∈ fetches, Visits Mutation.run (fun _ _ => True) (State.new 0) f.1 := by
    intro f hf
    rcases hstates f hf with h | h <;> rw [h]
    · exact twoFolders_reached
    · exact .call (.delete (dropFolder "a" false)) twoFolders_reached trivial rfl
  have hcomplete := h spelledTexts oneToAPage fetches True spelledTexts_codec (by decide)
    (.next hfetch hnext (.last hfetch' hlast)) hreached (.cons_cons hdrop (.singleton _))
  -- `b` is there at both fetches, so it should have been returned once
  have hb : ∀ f ∈ fetches, ∃ o, Listed oneToAPage.keep f.1 "b" o ∧
      oneToAPage.sortKey o = some (toLex (0, "b")) := by
    intro f hf
    rcases hstates f hf with h | h <;> rw [h]
    · exact ⟨createdRow (newFolder "b" rootId "b"), ⟨rfl, rfl⟩, rfl⟩
    · exact ⟨createdRow (newFolder "b" rootId "b"), ⟨rfl, rfl⟩, rfl⟩
  have honce := hcomplete.once trivial "b" _ hb
  have hids : (allItems fetches).map (·.id) = ["a"] := by
    simp [allItems, itemsOf, fetches, hitems, hitems', hv]
  rw [hids] at honce
  exact absurd honce (by decide)

end AnyStore.Memory
