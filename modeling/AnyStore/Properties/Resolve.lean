import AnyStore.Model.Resolve
import AnyStore.Properties.Deletes
import AnyStore.Properties.Paths
import AnyStore.Properties.Tree
import AnyStore.Refinement.Listing
import AnyStore.Spec.Rows
import AnyStore.Spec.Walks

/-!
# Paths name objects

In every committed tree a live object is found under the path that is rendered
for it and under no other, up to repeated slashes.

## Assumptions

- The names in the commands of the run have passed `validate_name`, as the
  application checks them.
- The lookup of the RPC adapter is one statement; that of the sqlx adapter walks
  in one snapshot and reads the row and the path in later ones.

## Results

- `NamedTree.follow_iff` — the walk down comes to the object whose way down bears
  these names, and to no other.
- `paths_name_objects` — in every state of every run a lookup finds an object
  exactly if its path is the text asked for, and shows it with the metadata that
  the adapter's parser makes of the stored text; the adapters answer a text alike
  exactly if what lies there can be parsed inside the RPC envelope.
-/

namespace AnyStore

open ReadCommitted Relation

variable {S : Setting} {w : World} {wal : Journal} {c : System} {db : Db}
  {debug : String → String} {id p x : ObjectId} {ids names : List String}

/-! ## Names -/

/-- The application has checked the name that a command gives to an object. -/
def Label.Named : Label → Prop
  | .createObject cmd => validateName cmd.name = .ok ()
  | .patchObject cmd => ∀ name ∈ cmd.newName, validateName name = .ok ()
  | _ => True

/-- The root has no name, and every other object a valid one. -/
def NameOf (id : ObjectId) (name : String) : Prop :=
  if id = rootId then name = "" else validateName name = .ok ()

/-- A patch leaves the name as it is, or takes the new one. -/
theorem patchTarget_name {a : Adapter} {cmd : PatchObjectCommit} {o : ObjectRow}
    {target : PatchTarget} (h : patchTarget a cmd o = .ok target) :
    target.name = cmd.newName.getD o.name := by
  unfold patchTarget at h
  cases hpatch : cmd.metadataPatch with
  | none =>
    rw [hpatch] at h
    obtain rfl := Except.ok.inj h
    rfl
  | some patch =>
    rw [hpatch] at h
    cases hm : a.applyMetadataPatch o.metadata patch with
    | error e =>
      simp only [hm] at h
      cases h
    | ok m =>
      simp only [hm] at h
      obtain rfl := Except.ok.inj h
      rfl

/-- **Run.** The root has the empty name, and every other object a valid one. -/
theorem Serial.nameOf (h : Serial S w wal) (hnames : ∀ e ∈ wal, e.1.Named) {o : ObjectRow}
    (ho : (S.rows wal).object id = some o) : NameOf id o.name := by
  -- a new row is not the root, as the root is there from the start
  have hroot : ∀ wal, Serial S w wal → ((S.rows wal).object rootId).isSome := by
    intro wal h
    obtain ⟨r, hr, _⟩ := h.treeInv.root
    rw [(Db.live_eq_some.mp hr).1]
    rfl
  induction h generalizing id o with
  | nil =>
    rw [Setting.rows_nil, object_initialDb] at ho
    unfold NameOf
    by_cases hid : id = rootId
    · rw [if_pos hid] at ho ⊢
      rw [← Option.some.inj ho]
    · rw [if_neg hid] at ho
      cases ho
  | @snoc wal label ws hserial hc ih =>
    have hprev : ∀ id o, (S.rows wal).object id = some o → NameOf id o.name :=
      fun _ _ ho => ih (fun e he => hnames e (List.mem_append_left _ he)) ho
    have hlabel := hnames (label, ws) (List.mem_append_right _ (List.mem_singleton_self _))
    rw [Setting.rows_snoc] at ho
    have hwrite := hc.rowWrite ho
    clear ho
    cases hwrite with
    | same ho => exact hprev _ _ ho
    | created cmd hcmd hid hfresh =>
      have hne : id ≠ rootId := by
        rintro rfl
        have hsome := hroot wal hserial
        rw [hfresh] at hsome
        cases hsome
      unfold NameOf
      rw [if_neg hne]
      exact (hcmd ▸ hlabel : (Label.createObject cmd).Named)
    | @patched cmd target o held hcmd hid ho hheld hpatch htarget =>
      have hold := hprev _ _ ho
      have hname : (target.row cmd.ctx.now o).name = cmd.newName.getD o.name := by
        -- parsing the metadata leaves the name alone
        rw [show (target.row cmd.ctx.now o).name = target.name from rfl,
          patchTarget_name htarget, Adapter.held_eq hheld]
      have hnew : (Label.patchObject cmd).Named := hcmd ▸ hlabel
      unfold NameOf at hold ⊢
      rw [hname]
      by_cases hr : id = rootId
      · rw [if_pos hr] at hold ⊢
        rw [(hpatch (hid.symm.trans hr)).2]
        exact hold
      · rw [if_neg hr] at hold ⊢
        cases hn : cmd.newName with
        | none => exact hold
        | some name => exact hnew name hn
    | content cmd hcmd hid ho =>
      have h := hprev _ _ ho
      exact h
    | deleted now ho =>
      have h := hprev _ _ ho
      exact h

/-! ## The way to an object -/

/-- The objects on the way up from `id` to the root, all of them live. -/
inductive Db.Lineage (db : Db) : ObjectId → List ObjectId → Prop
  | root : Db.Lineage db rootId [rootId]
  | child {id p : ObjectId} {o : ObjectRow} {ids : List ObjectId} (ho : db.live id = some o)
      (hp : o.parentId = some p) (h : Db.Lineage db p ids) : Db.Lineage db id (id :: ids)

/-- A tree whose names are those that the application lets through. -/
structure NamedTree (db : Db) : Prop where
  tree : TreeInv db
  siblings : ∀ a b p x y, db.live a = some x → db.live b = some y → x.parentId = some p →
    y.parentId = some p → x.name = y.name → a = b
  names : ∀ id o, db.object id = some o → NameOf id o.name

namespace Db.Lineage

/-- A lineage begins with its object, -/
theorem head (h : db.Lineage id ids) : ∃ rest, ids = id :: rest := by
  cases h with
  | root => exact ⟨[], rfl⟩
  | child => exact ⟨_, rfl⟩

/-- goes from child to parent, -/
theorem reaches (h : db.Lineage id ids) : ∀ x ∈ ids, ReflTransGen db.Parent id x := by
  induction h with
  | root =>
    intro x hx
    rw [List.mem_singleton.mp hx]
  | @child id p o ids ho hp _ ih =>
    have hparent : db.Parent id p := ⟨o, (Db.live_eq_some.mp ho).1, hp⟩
    intro x hx
    rcases List.mem_cons.mp hx with rfl | hx
    · exact .refl
    · exact .head hparent (ih x hx)

/-- meets no object twice, -/
theorem nodup (hinv : TreeInv db) (h : db.Lineage id ids) : ids.Nodup := by
  induction h with
  | root => exact List.nodup_singleton _
  | @child id p o ids ho hp h ih =>
    have hparent : db.Parent id p := ⟨o, (Db.live_eq_some.mp ho).1, hp⟩
    refine List.nodup_cons.mpr ⟨?_, ih⟩
    intro hmem
    -- nothing lies above itself
    exact hinv.acyclic id (.head' hparent (h.reaches id hmem))

/-- and only objects that are there. -/
theorem isSome (hinv : TreeInv db) (h : db.Lineage id ids) : ∀ x ∈ ids, (db.object x).isSome := by
  induction h with
  | root =>
    obtain ⟨r, hr, _⟩ := hinv.root
    intro x hx
    rw [List.mem_singleton.mp hx, (Db.live_eq_some.mp hr).1]
    rfl
  | @child id p o ids ho hp _ ih =>
    refine List.forall_mem_cons.mpr ⟨?_, ih⟩
    rw [(Db.live_eq_some.mp ho).1]
    rfl

/-- The walk up finds the way. -/
theorem up_eq (hinv : TreeInv db) (h : db.Lineage id ids) {n : Nat} {visited : List ObjectId}
    (hn : ids.length ≤ n) (hvisited : ∀ x ∈ ids, x ∉ visited) : db.up n visited id = ids := by
  induction h generalizing n visited with
  | root =>
    obtain ⟨r, hr, hnone, _⟩ := hinv.root
    obtain ⟨m, rfl⟩ : ∃ m, n = m + 1 := ⟨n - 1, by rw [List.length_singleton] at hn; omega⟩
    unfold Db.up
    rw [(Db.live_eq_some.mp hr).1]
    simp only [hnone]
  | @child id p o ids ho hp h ih =>
    obtain ⟨m, rfl⟩ : ∃ m, n = m + 1 := ⟨n - 1, by rw [List.length_cons] at hn; omega⟩
    obtain ⟨hself, hrest⟩ := List.nodup_cons.mp ((Db.Lineage.child ho hp h).nodup hinv)
    obtain ⟨rest, hids⟩ := h.head
    have hpmem : p ∈ ids := by
      rw [hids]
      exact List.mem_cons_self ..
    -- the walk has met none of what is still above
    have hnew : ∀ x ∈ ids, x ∉ id :: visited := by
      intro x hx hmem
      rcases List.mem_cons.mp hmem with rfl | hmem
      · exact hself hx
      · exact hvisited x (List.mem_cons_of_mem _ hx) hmem
    unfold Db.up
    rw [(Db.live_eq_some.mp ho).1]
    simp only [hp]
    rw [if_neg (hnew p hpmem), ih (by rw [List.length_cons] at hn; omega) hnew]

/-- The recursive query finds the lineage. -/
theorem ancestors_eq (hinv : TreeInv db) (h : db.Lineage id ids) : db.ancestors id = ids :=
  h.up_eq hinv (Db.length_le_keys (h.nodup hinv) (h.isSome hinv)) fun _ _ => List.not_mem_nil

end Db.Lineage

/-- Every live object has one. -/
theorem TreeInv.lineage (hinv : TreeInv db) (hid : (db.live id).isSome) :
    ∃ ids, db.Lineage id ids := by
  have hpath := hinv.reaches hid
  clear hid
  induction hpath using ReflTransGen.head_induction_on with
  | refl => exact ⟨_, .root⟩
  | head hparent _ ih =>
    obtain ⟨ids, hids⟩ := ih
    obtain ⟨⟨o, ho, hp⟩, _⟩ := hparent
    exact ⟨_, .child ho hp hids⟩

/-- The names on the way down to an object, the root left out. -/
def Db.namesOf (db : Db) (ids : List ObjectId) : List String :=
  (ids.dropLast.reverse.filterMap fun a => (db.object a).map (·.name))

/-- It ends at the root. -/
theorem Db.Lineage.last (h : db.Lineage id ids) : ids = ids.dropLast ++ [rootId] := by
  induction h with
  | root => rfl
  | child _ _ h ih =>
    obtain ⟨rest, rfl⟩ := h.head
    rw [List.dropLast_cons_cons, List.cons_append, ← ih]

/-- The names of a child are those of its parent and its own. -/
theorem Db.namesOf_child {o : ObjectRow} {rest : List ObjectId} (ho : db.live id = some o) :
    db.namesOf (id :: p :: rest) = db.namesOf (p :: rest) ++ [o.name] := by
  unfold Db.namesOf
  rw [List.dropLast_cons_cons, List.reverse_cons, List.filterMap_append]
  simp [(Db.live_eq_some.mp ho).1]

/-! ## Rendering -/

/-- All names are valid. -/
theorem NamedTree.namesOf (h : NamedTree db) (hl : db.Lineage id ids) :
    ∀ name ∈ db.namesOf ids, validateName name = .ok () := by
  induction hl with
  | root => exact fun name hname => absurd hname List.not_mem_nil
  | @child id p o ids ho hp hl ih =>
    obtain ⟨rest, rfl⟩ := hl.head
    rw [Db.namesOf_child ho]
    refine List.forall_mem_append.mpr ⟨ih, ?_⟩
    refine List.forall_mem_singleton.mpr ?_
    have hne : id ≠ rootId := by
      rintro rfl
      exact h.tree.root_parent ⟨o, (Db.live_eq_some.mp ho).1, hp⟩
    have hname := h.names id o (Db.live_eq_some.mp ho).1
    unfold NameOf at hname
    rwa [if_neg hne] at hname

/-- The query puts the slashes where `render_path` has them. -/
theorem slash_intercalate : "/" ++ "/".intercalate names = renderPath names := by
  apply String.toList_inj.mp
  rw [String.toList_append, String.toList_intercalate]
  cases names with
  | nil => rfl
  | cons name names =>
    rw [toList_renderPath (List.cons_ne_nil _ _), intercalate_slash, List.nil_append,
      List.flatMap_cons, List.map_cons]
    exact congrArg (List.cons '/') (intercalate_slash name.toList)

/-- `PATH_QUERY` renders the names on the way down. -/
theorem NamedTree.path_eq (h : NamedTree db) (hl : db.Lineage id ids) :
    db.path id = renderPath (db.namesOf ids) := by
  obtain ⟨r, hr, _⟩ := h.tree.root
  have hname := h.names rootId r (Db.live_eq_some.mp hr).1
  unfold NameOf at hname
  rw [if_pos rfl] at hname
  -- the names from the root downwards, of which the first one is empty
  have hall : (ids.reverse.filterMap fun a => (db.object a).map (·.name)) =
      "" :: db.namesOf ids := by
    conv_lhs => rw [hl.last]
    rw [List.reverse_append, List.filterMap_append]
    unfold Db.namesOf
    simp [(Db.live_eq_some.mp hr).1, hname]
  -- the other names are not empty, so the filter keeps them
  have hfilter : (db.namesOf ids).filter (· ≠ "") = db.namesOf ids := by
    refine List.filter_eq_self.mpr ?_
    intro name hmem
    exact decide_eq_true (IsName.of_validateName (h.namesOf hl name hmem)).nonempty
  unfold Db.path
  rw [hl.ancestors_eq h.tree]
  simp only [hall]
  rw [List.filter_cons_of_neg (by decide), hfilter]
  exact slash_intercalate

/-! ## Walking down -/

/-- The live children with a name. -/
theorem Db.mem_named {name : String} : x ∈ db.named p name ↔
    ∃ o, db.live x = some o ∧ o.parentId = some p ∧ o.name = name := by
  unfold Db.named
  rw [List.mem_filter, Db.mem_objectIds, Option.any_eq_true]
  constructor
  · rintro ⟨_, o, ho, h⟩
    exact ⟨o, ho, of_decide_eq_true h⟩
  · rintro ⟨o, ho, h⟩
    have hobject := (Db.live_eq_some.mp ho).1
    rw [hobject]
    exact ⟨rfl, o, ho, decide_eq_true h⟩

/-- Siblings differ in their names. -/
theorem NamedTree.named_eq (h : NamedTree db) {name : String} (hx : x ∈ db.named p name) :
    db.named p name = [x] := by
  have hunique : ∀ y ∈ db.named p name, y = x := by
    intro y hy
    obtain ⟨o, ho, hop, hname⟩ := Db.mem_named.mp hx
    obtain ⟨o', ho', hop', hname'⟩ := Db.mem_named.mp hy
    exact h.siblings y x p o' o ho' ho hop' hop (hname'.trans hname.symm)
  have hnodup : (db.named p name).Nodup := Db.nodup_objectIds.filter _
  exact List.perm_singleton.mp ((List.perm_ext_iff_of_nodup hnodup (List.nodup_singleton x)).mpr
    fun y => ⟨fun hy => List.mem_singleton.mpr (hunique y hy),
      fun hy => List.mem_singleton.mp hy ▸ hx⟩)

/-- There is at most one. -/
theorem NamedTree.named_head (h : NamedTree db) {name : String} :
    (db.named p name).head? = some x ↔ x ∈ db.named p name := by
  constructor
  · exact List.mem_of_head?
  · intro hx
    rw [h.named_eq hx]
    rfl

/-- One name more goes one step further down. -/
theorem Db.follow_append {name : String} : db.follow p (names ++ [name]) =
    (db.follow p names).bind fun q => (db.named q name).head? := by
  induction names generalizing p with
  | nil =>
    show db.follow p [name] = (db.named p name).head?
    unfold Db.follow
    cases (db.named p name).head? with
    | none => rfl
    | some child => rfl
  | cons segment names ih =>
    rw [List.cons_append]
    unfold Db.follow
    cases (db.named p segment).head? with
    | none => rfl
    | some child => exact ih

/-- The walk down from the root comes to the object whose way down bears these
names. -/
theorem NamedTree.follow_iff (h : NamedTree db) :
    db.follow rootId names = some id ↔ ∃ ids, db.Lineage id ids ∧ db.namesOf ids = names := by
  induction names using List.reverseRecOn generalizing id with
  | nil =>
    constructor
    · intro hid
      obtain rfl := Option.some.inj hid
      exact ⟨_, .root, rfl⟩
    · rintro ⟨ids, hl, hnames⟩
      cases hl with
      | root => rfl
      | child ho _ hl =>
        obtain ⟨rest, rfl⟩ := hl.head
        rw [Db.namesOf_child ho] at hnames
        exact absurd hnames (by simp)
  | append_singleton names name ih =>
    rw [Db.follow_append, Option.bind_eq_some_iff]
    constructor
    · rintro ⟨q, hq, hid⟩
      -- the last name leads to a child of what the names before it lead to
      obtain ⟨ids, hl, rfl⟩ := ih.mp hq
      obtain ⟨o, ho, hp, rfl⟩ := Db.mem_named.mp (h.named_head.mp hid)
      obtain ⟨rest, rfl⟩ := hl.head
      exact ⟨_, .child ho hp hl, Db.namesOf_child ho⟩
    · rintro ⟨ids, hl, hnames⟩
      cases hl with
      | root => exact absurd hnames (by simp [Db.namesOf])
      | @child _ q o ids ho hp hl =>
        obtain ⟨rest, rfl⟩ := hl.head
        rw [Db.namesOf_child ho] at hnames
        obtain ⟨hfront, hname⟩ := List.append_inj' hnames rfl
        refine ⟨q, ih.mpr ⟨_, hl, hfront⟩, h.named_head.mpr ?_⟩
        exact Db.mem_named.mpr ⟨o, ho, hp, List.head_eq_of_cons_eq hname⟩

/-- The recursive query and the loop take the same steps. -/
theorem NamedTree.walkDown_eq (h : NamedTree db) (start : Option ObjectId) :
    db.walkDown start.toList names = (start.bind fun p => db.follow p names).toList := by
  induction names generalizing start with
  | nil =>
    unfold Db.walkDown Db.follow
    cases start with
    | none => rfl
    | some p => rfl
  | cons segment names ih =>
    cases start with
    | none => exact ih none
    | some p =>
      -- the query goes down with all children of the name, of which there is at most one
      have hnext : [p].flatMap (fun id => db.named id segment) =
          ((db.named p segment).head?).toList := by
        rw [List.flatMap_singleton]
        cases hnamed : db.named p segment with
        | nil => rfl
        | cons x rest =>
          rw [← hnamed, h.named_eq (hnamed ▸ List.mem_cons_self ..)]
          rfl
      show db.walkDown ([p].flatMap fun id => db.named id segment) names =
        (db.follow p (segment :: names)).toList
      rw [hnext, ih]
      conv_rhs => unfold Db.follow
      cases (db.named p segment).head? with
      | none => rfl
      | some child => rfl

/-! ## Paths and objects -/

/-- Who follows names comes to a live object with the rendered path. -/
theorem NamedTree.follow_path (h : NamedTree db) (hid : db.follow rootId names = some id) :
    db.path id = renderPath names ∧ (db.live id).isSome := by
  obtain ⟨ids, hl, rfl⟩ := h.follow_iff.mp hid
  refine ⟨h.path_eq hl, ?_⟩
  cases hl with
  | root =>
    obtain ⟨r, hr, _⟩ := h.tree.root
    rw [hr]
    rfl
  | child ho _ _ =>
    rw [ho]
    rfl

/-- No two live objects have one path. -/
theorem NamedTree.path_injective (h : NamedTree db) {id' : ObjectId} (hid : (db.live id).isSome)
    (hid' : (db.live id').isSome) (hpath : db.path id = db.path id') : id = id' := by
  obtain ⟨ids, hl⟩ := h.tree.lineage hid
  obtain ⟨ids', hl'⟩ := h.tree.lineage hid'
  -- a path determines the names, and the names the object
  have hnames := @splitPath_renderPath (fun _ => "") _ (h.namesOf hl)
  have hnames' := @splitPath_renderPath (fun _ => "") _ (h.namesOf hl')
  rw [h.path_eq hl, h.path_eq hl'] at hpath
  rw [hpath, hnames'] at hnames
  have hfollow := h.follow_iff.mpr ⟨ids, hl, rfl⟩
  have hfollow' := h.follow_iff.mpr ⟨ids', hl', rfl⟩
  rw [← Except.ok.inj hnames, hfollow'] at hfollow
  exact (Option.some.inj hfollow).symm

/-- A path leads to the object for which its names are rendered. -/
theorem NamedTree.follow_eq (h : NamedTree db) {path : String}
    (hsplit : splitPath debug path = .ok names) :
    db.follow rootId names = some id ↔ (db.live id).isSome ∧ db.path id = renderPath names := by
  constructor
  · intro hid
    exact (h.follow_path hid).symm
  · rintro ⟨hid, hpath⟩
    obtain ⟨ids, hl⟩ := h.tree.lineage hid
    rw [h.path_eq hl] at hpath
    have hround := @splitPath_renderPath debug _ (h.namesOf hl)
    obtain ⟨_, _, hvalid, rfl⟩ := splitPath_ok.mp hsplit
    rw [hpath, splitPath_renderPath hvalid] at hround
    rw [Except.ok.inj hround]
    exact h.follow_iff.mpr ⟨ids, hl, rfl⟩

/-- The driver follows the names in one statement and reads the object in another. -/
theorem NamedTree.resolvePathSqlx_eq (h : NamedTree db) (path : String) (rows : Snapshots) :
    resolvePathSqlx debug path db rows = (splitPath debug path).bind fun segments =>
      Adapter.sqlx.parseFound ((db.follow rootId segments).bind rows.getObject) := by
  unfold resolvePathSqlx
  cases splitPath debug path with
  | error e => rfl
  | ok segments =>
    show (if segments = [] then _ else _) = _
    -- the root is not looked up by name
    by_cases hempty : segments = []
    · rw [if_pos hempty, hempty]
      rfl
    · rw [if_neg hempty]
      have hwalk := @NamedTree.walkDown_eq db segments h (some rootId)
      have hhead : (db.walkDown [rootId] segments).head? = db.follow rootId segments := by
        rw [show [rootId] = (some rootId).toList from rfl, hwalk, Option.head?_toList]
        rfl
      rw [hhead]
      rfl

/-! ## Lookups -/

/-- An object is shown if its metadata can be parsed. -/
theorem Adapter.parseFound_eq_some {a : Adapter} {found : Option ObjectView} {v : ObjectView} :
    a.parseFound found = .ok (some v) ↔
      ∃ stored, found = some stored ∧ stored.read a.viewRoom = some v := by
  unfold Adapter.parseFound
  cases found with
  | none =>
    constructor
    · intro h
      cases h
    · rintro ⟨stored, h, _⟩
      cases h
  | some stored =>
    -- what is found may still not be readable
    cases hread : stored.read a.viewRoom with
    | none =>
      constructor
      · intro h
        simp only [hread] at h
        cases h
      · rintro ⟨_, hfound, h⟩
        rw [← Option.some.inj hfound, hread] at h
        cases h
    | some view =>
      constructor
      · intro h
        simp only [hread] at h
        exact ⟨stored, rfl, hread.trans (Except.ok.inj h)⟩
      · rintro ⟨_, hfound, h⟩
        rw [← Option.some.inj hfound, hread] at h
        simp only [hread, Option.some.inj h]

/-- The RPC envelope takes room away from the metadata. -/
theorem Adapter.parseFound_alike {found : Option ObjectView} :
    Adapter.sqlx.parseFound found = Adapter.rpc.parseFound found ↔
      ∀ v ∈ found, (v.read Adapter.rpc.viewRoom).isSome := by
  cases found with
  | none =>
    constructor
    · intro _ v hv
      cases hv
    · intro _
      rfl
  | some v =>
    constructor
    · intro h w hw
      obtain rfl := Option.some.inj hw
      cases hrpc : v.read Adapter.rpc.viewRoom with
      | some w => rfl
      | none =>
        -- neither a view nor the other adapter's error is this error
        unfold Adapter.parseFound at h
        simp only [hrpc] at h
        cases hsqlx : v.read Adapter.sqlx.viewRoom with
        | none =>
          simp only [hsqlx] at h
          exact absurd (Except.error.inj h) (by decide)
        | some w =>
          simp only [hsqlx] at h
          cases h
    · intro h
      obtain ⟨w, hw⟩ := Option.isSome_iff_exists.mp (h v rfl)
      have hmore := ObjectView.read_mono (show Adapter.rpc.viewRoom ≤ Adapter.sqlx.viewRoom by decide)
        hw
      unfold Adapter.parseFound
      simp only [hw, hmore]

/-- The live object that lies under a path. -/
def Db.lies (debug : String → String) (db : Db) (path : String) (v : ObjectView) : Prop :=
  db.getObject v.id = some v ∧
    ∃ names, splitPath debug path = .ok names ∧ v.path = renderPath names

/-- What paths are in a committed state. -/
structure PathsName (debug : String → String) (db : Db) : Prop where
  /-- Every live object is found under its path, and all that can go wrong is that
  its metadata cannot be parsed. -/
  found : ∀ a id object, db.live id = some object → resolvePath debug a (db.path id) db =
    a.parseFound (some { id, object, path := db.path id })
  distinct : ∀ id id', (db.live id).isSome → (db.live id').isSome → db.path id = db.path id' →
    id = id'
  /-- What is found under a path has this path, and only what is there is found. -/
  resolved : ∀ a path v, resolvePath debug a path db = .ok (some v) ↔
    ∃ stored, db.lies debug path stored ∧ stored.read a.viewRoom = some v
  /-- A path without an object is answered with nothing. -/
  missing : ∀ a path, resolvePath debug a path db = .ok none ↔
    (∃ names, splitPath debug path = .ok names) ∧ ∀ v, ¬ db.lies debug path v
  /-- The row and the path may be read from states after the one of the walk. -/
  overlapped : ∀ path rows v, resolvePathSqlx debug path db rows = .ok (some v) ↔
    ∃ stored, rows.getObject v.id = some stored ∧ stored.read Adapter.sqlx.viewRoom = some v ∧
      (db.live v.id).isSome ∧
      ∃ names, splitPath debug path = .ok names ∧ db.path v.id = renderPath names
  agree : ∀ path, resolvePath debug .sqlx path db = resolvePath debug .rpc path db ↔
    ∀ v, db.lies debug path v → (v.read Adapter.rpc.viewRoom).isSome

/-- The view has the id that was asked for. -/
theorem Snapshots.getObject_id {rows : Snapshots} {v : ObjectView}
    (h : rows.getObject x = some v) : v.id = x := by
  unfold Snapshots.getObject at h
  obtain ⟨o, _, rfl⟩ := Option.map_eq_some_iff.mp h
  rfl

/-- What the driver returns may have been written again between the two statements. -/
theorem NamedTree.overlapped (h : NamedTree db) (path : String) (rows : Snapshots)
    (v : ObjectView) : resolvePathSqlx debug path db rows = .ok (some v) ↔
      ∃ stored, rows.getObject v.id = some stored ∧ stored.read Adapter.sqlx.viewRoom = some v ∧
        (db.live v.id).isSome ∧
        ∃ names, splitPath debug path = .ok names ∧ db.path v.id = renderPath names := by
  rw [h.resolvePathSqlx_eq]
  cases hsplit : splitPath debug path with
  | error e =>
    constructor
    · intro h
      cases h
    · rintro ⟨_, _, _, _, _, hnames, _⟩
      cases hnames
  | ok segments =>
    show Adapter.sqlx.parseFound _ = _ ↔ _
    rw [Adapter.parseFound_eq_some]
    constructor
    · rintro ⟨stored, hfound, hread⟩
      obtain ⟨id, hid, hstored⟩ := Option.bind_eq_some_iff.mp hfound
      have hvid : v.id = id := (ObjectView.read_id hread).trans (Snapshots.getObject_id hstored)
      obtain ⟨hlive, hpath⟩ := (h.follow_eq hsplit).mp hid
      exact ⟨stored, hvid ▸ hstored, hread, hvid ▸ hlive, segments, rfl, hvid ▸ hpath⟩
    · rintro ⟨stored, hstored, hread, hlive, names, hnames, hpath⟩
      obtain rfl := Except.ok.inj hnames
      refine ⟨stored, Option.bind_eq_some_iff.mpr ⟨v.id, ?_, hstored⟩, hread⟩
      exact (h.follow_eq hsplit).mpr ⟨hlive, hpath⟩

/-- In one state the statements of the sqlx adapter and the function read the
same object. -/
theorem NamedTree.resolvePath_eq (h : NamedTree db) (a : Adapter) (path : String) :
    resolvePath debug a path db = (splitPath debug path).bind fun segments =>
      a.parseFound ((db.follow rootId segments).bind db.getObject) := by
  cases a with
  | sqlx => exact h.resolvePathSqlx_eq path ⟨db, db, fun _ => id⟩
  | rpc => rfl

/-- The walk comes to the object under the path. -/
theorem NamedTree.lies_iff (h : NamedTree db) {path : String} {v : ObjectView}
    (hsplit : splitPath debug path = .ok names) :
    db.lies debug path v ↔ (db.follow rootId names).bind db.getObject = some v := by
  -- a view shows the path of its object
  have hpath : ∀ {id : ObjectId}, db.getObject id = some v →
      v.id = id ∧ v.path = db.path id ∧ (db.live id).isSome := by
    intro id hv
    unfold Db.getObject at hv
    obtain ⟨o, ho, rfl⟩ := Option.map_eq_some_iff.mp hv
    exact ⟨rfl, rfl, ho ▸ rfl⟩
  unfold Db.lies
  rw [Option.bind_eq_some_iff]
  constructor
  · rintro ⟨hv, segments, hsegments, hname⟩
    obtain rfl := Except.ok.inj (hsplit.symm.trans hsegments)
    obtain ⟨_, hvpath, hlive⟩ := hpath hv
    exact ⟨v.id, (h.follow_eq hsplit).mpr ⟨hlive, hvpath.symm.trans hname⟩, hv⟩
  · rintro ⟨id, hid, hv⟩
    obtain ⟨rfl, hvpath, _⟩ := hpath hv
    exact ⟨hv, names, hsplit, hvpath.trans ((h.follow_eq hsplit).mp hid).2⟩

/-- What a path resolves to lies there and can be read. -/
theorem NamedTree.resolved (h : NamedTree db) (a : Adapter) (path : String) (v : ObjectView) :
    resolvePath debug a path db = .ok (some v) ↔
      ∃ stored, db.lies debug path stored ∧ stored.read a.viewRoom = some v := by
  rw [h.resolvePath_eq]
  cases hsplit : splitPath debug path with
  | error e =>
    constructor
    · intro h
      cases h
    · rintro ⟨_, ⟨_, _, hnames, _⟩, _⟩
      rw [hsplit] at hnames
      cases hnames
  | ok segments =>
    show a.parseFound _ = _ ↔ _
    rw [Adapter.parseFound_eq_some]
    exact exists_congr fun stored => and_congr_left' (h.lies_iff hsplit).symm

/-- Nothing is found where nothing lies. -/
theorem NamedTree.missing (h : NamedTree db) (a : Adapter) (path : String) :
    resolvePath debug a path db = .ok none ↔
      (∃ names, splitPath debug path = .ok names) ∧ ∀ v, ¬ db.lies debug path v := by
  rw [h.resolvePath_eq]
  cases hsplit : splitPath debug path with
  | error e =>
    constructor
    · intro h
      cases h
    · rintro ⟨⟨_, hnames⟩, _⟩
      cases hnames
  | ok segments =>
    have hlies := fun v => h.lies_iff (v := v) hsplit
    show a.parseFound ((db.follow rootId segments).bind db.getObject) = _ ↔ _
    cases hfound : (db.follow rootId segments).bind db.getObject with
    | none =>
      refine iff_of_true rfl ⟨⟨segments, rfl⟩, fun v hv => ?_⟩
      rw [hlies, hfound] at hv
      cases hv
    | some stored =>
      refine iff_of_false ?_ fun hnone => hnone.2 stored ((hlies stored).mpr hfound)
      unfold Adapter.parseFound
      cases hread : stored.read a.viewRoom with
      | none =>
        simp only [hread]
        intro h
        cases h
      | some view =>
        simp only [hread]
        intro h
        cases Except.ok.inj h

/-- The adapters answer alike unless only one of them can read the object. -/
theorem NamedTree.agree (h : NamedTree db) (path : String) :
    resolvePath debug .sqlx path db = resolvePath debug .rpc path db ↔
      ∀ v, db.lies debug path v → (v.read Adapter.rpc.viewRoom).isSome := by
  rw [h.resolvePath_eq, h.resolvePath_eq]
  cases hsplit : splitPath debug path with
  | error e =>
    refine iff_of_true rfl ?_
    rintro v ⟨_, _, hnames, _⟩
    rw [hsplit] at hnames
    cases hnames
  | ok segments =>
    show Adapter.sqlx.parseFound _ = Adapter.rpc.parseFound _ ↔ _
    rw [Adapter.parseFound_alike]
    exact forall_congr' fun v => imp_congr (h.lies_iff hsplit).symm Iff.rfl

/-- The path of a live object leads to it. -/
theorem NamedTree.found (h : NamedTree db) (a : Adapter) {object : ObjectRow}
    (ho : db.live id = some object) : resolvePath debug a (db.path id) db =
      a.parseFound (some { id, object, path := db.path id }) := by
  obtain ⟨ids, hl⟩ := h.tree.lineage (show (db.live id).isSome by rw [ho]; rfl)
  have hsplit : splitPath debug (db.path id) = .ok (db.namesOf ids) := by
    rw [h.path_eq hl]
    exact splitPath_renderPath (h.namesOf hl)
  have hgot : db.getObject id = some { id, object, path := db.path id } := by
    unfold Db.getObject
    rw [ho]
    rfl
  rw [h.resolvePath_eq, hsplit]
  show a.parseFound _ = _
  rw [h.follow_iff.mpr ⟨ids, hl, rfl⟩, Option.bind_some, hgot]

/-- All clauses hold of a tree of names. -/
theorem NamedTree.pathsName (h : NamedTree db) (debug : String → String) :
    PathsName debug db where
  found a _ _ ho := h.found a ho
  distinct _ _ := h.path_injective
  resolved := h.resolved
  missing := h.missing
  overlapped := h.overlapped
  agree := h.agree

/-- Every state of a run whose names are valid has one. -/
theorem Setting.Runs.namedTree (h : S.Runs c) (hnames : ∀ e ∈ c.state.wal, e.1.Named) :
    NamedTree c.state.db where
  tree := h.storeInv.treeInv
  siblings _ _ _ _ _ hx hy hxp hyp hname := h.storeInv.siblings hx hy hxp hyp hname
  names _ _ ho := h.storeInv.serial.nameOf hnames (h.storeInv.db ▸ ho)

/-- In every state that a run comes to, paths and live objects belong together
one to one. -/
theorem paths_name_objects (h : S.Runs c) (hnames : ∀ e ∈ c.state.wal, e.1.Named)
    (debug : String → String) : PathsName debug c.state.db :=
  (h.namedTree hnames).pathsName debug

/-- A folder in a folder, found by its path with a slash too many. -/
def nestedFolders : List (Move Request (Choice Row Env)) :=
  alone 0 (sampleNested "a" rootId "A" 1) 9 {} ++ alone 1 (sampleNested "b" "a" "B" 2) 9 {}

/-- The name of what is created. -/
def Label.created : Label → Option String
  | .createObject cmd => some cmd.name
  | _ => none

/-- A folder in a folder. -/
theorem paths_name_objects_nested : ∃ c, (Setting.free (sampleApp .sqlx) 0).Runs c ∧
    Db.path c.state.db "b" = "/A/B" ∧
    PathsName (fun _ => "") c.state.db := by
  obtain ⟨c, hc, hend⟩ := Setting.free_runs (sampleApp .sqlx) 0 nestedFolders
    (fun c => (c.state.wal.map fun e => e.1.created, Db.path c.state.db "b"))
    (a := ([some "A", some "B"], "/A/B")) (by decide +kernel)
  obtain ⟨hwal, hpath⟩ := Prod.mk.inj hend
  refine ⟨c, hc, hpath, paths_name_objects hc ?_ _⟩
  intro e he
  have hname : e.1.created ∈ [some "A", some "B"] := hwal ▸ List.mem_map_of_mem he
  cases hlabel : e.1 with
  | createObject cmd =>
    rw [hlabel] at hname
    show validateName cmd.name = .ok ()
    rcases List.mem_cons.mp hname with hA | hB
    · rw [Option.some.inj hA]
      decide
    · rw [Option.some.inj (List.mem_singleton.mp hB)]
      decide
  | patchObject cmd =>
    rw [hlabel] at hname
    exact absurd (show none ∈ [some "A", some "B"] from hname) (by decide)
  | _ => exact trivial

end AnyStore
