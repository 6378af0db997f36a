import AnyStore.Model.Maintenance
import AnyStore.Refinement.Solo
import AnyStore.Spec.Uploads

/-!
# Maintenance without other writers

What claims, the provider and purges do on a store that nobody else writes to.
`Taken` says of a claim which rows it has rewritten, `Collects` of a batch what
became of its entries.
-/

namespace AnyStore

open ReadCommitted

variable {ok : Env → Prop} {κ α V : Type} {l l' : Rows} {t : Nat} {s : DbState}

/-- The operations of a lone transaction. -/
abbrev lone (ok : Env → Prop) : Effect Op Rows := soloEffect Label World liveNameUq ok

/-! ## Statements -/

/-- A statement that is carried out and writes no object. -/
theorem sure_run {stmt : Stmt α} {Q : Except DomainError α → Rows → Prop}
    (h : ∀ rank, ∃ a, stmt.run ⟨rank, fun _ => true⟩ l.db = .ok a ∧
      (∀ w ∈ a.writes, w.1.table ≠ .objects) ∧
      Q (.ok a.result) { l with db := replay a.writes l.db }) :
    (run stmt).Sure (lone ok) Q l := by
  refine sure_query ?_
  intro rank
  obtain ⟨a, ha, hw, hq⟩ := h rank
  exact ⟨a, ha, indexOk_of_table hw, hq⟩

/-! ## Claims -/

/-- The rows `done` of one table were due and have been rewritten, each once. -/
structure Taken (get : Db → κ → Option V) (f : V → V) (T : Table) (due : κ → V → Prop)
    (db db' : Db) (done : List (κ × V)) : Prop where
  nodup : (done.map Prod.fst).Nodup
  due : ∀ e ∈ done, get db e.1 = some e.2 ∧ due e.1 e.2
  rows : ∀ k, k ∉ done.map Prod.fst → get db' k = get db k
  taken : ∀ e ∈ done, get db' e.1 = some (f e.2)
  rest : ∀ r : Row, r.table ≠ T → db'.lookup r = db.lookup r

section Claims

variable {get : Db → κ → Option V} {f : V → V} {T : Table} {due : κ → V → Prop} {db : Db}
  {claim : κ → Stmt (Option α)} {out : κ → V → α}

/-- One claim takes one row. -/
def TakesRow (get : Db → κ → Option V) (f : V → V) (T : Table) (due : κ → V → Prop)
    (claim : κ → Stmt (Option α)) (out : κ → V → α) : Prop :=
  ∀ db k v rank, get db k = some v → due k v → ∃ a : Answer (Option α),
    (claim k).run ⟨rank, fun _ => true⟩ db = .ok a ∧ a.result = some (out k v) ∧
      (∀ w ∈ a.writes, w.1.table = T) ∧ get (replay a.writes db) k = some (f v) ∧
        ∀ k', k' ≠ k → get (replay a.writes db) k' = get db k'

theorem lookup_replay_table {ws : List Write} (h : ∀ w ∈ ws, w.1.table = T) {r : Row}
    (hr : r.table ≠ T) : (replay ws db).lookup r = db.lookup r := by
  rw [lookup_replay, OnTable.written h hr]
  rfl

theorem Taken.nil : Taken get f T due db db [] :=
  ⟨List.nodup_nil, fun _ he => absurd he List.not_mem_nil, fun _ _ => rfl,
    fun _ he => absurd he List.not_mem_nil, fun _ _ => rfl⟩

/-- The claims of a batch take due rows until the limit is reached. -/
theorem sure_claimEach (hclaim : TakesRow get f T due claim out) (hT : T ≠ .objects) {n : Nat}
    {ks : List κ} (hks : ks.Nodup) (hdue : ∀ k ∈ ks, ∃ v, get l.db k = some v ∧ due k v) :
    (claimEach claim n ks).Sure (lone ok) (fun r l' => ∃ done,
      r = .ok (done.map fun e => out e.1 e.2) ∧ Taken get f T due l.db l'.db done ∧
        l'.seq = l.seq ∧ l'.world = l.world ∧ done.length ≤ n ∧ (done.map Prod.fst) ⊆ ks ∧
          (done.length < n → ks ⊆ done.map Prod.fst)) l := by
  induction ks generalizing n l with
  | nil =>
    have hdone : (Prog.ret [] : Store (List α)).Sure (lone ok) (fun r l' => ∃ done,
        r = .ok (done.map fun e => out e.1 e.2) ∧ Taken get f T due l.db l'.db done ∧
          l'.seq = l.seq ∧ l'.world = l.world ∧ done.length ≤ n ∧ (done.map Prod.fst) ⊆ [] ∧
            (done.length < n → [] ⊆ done.map Prod.fst)) l :=
      ⟨[], rfl, .nil, rfl, rfl, Nat.zero_le n, List.Subset.refl _, fun _ => List.nil_subset _⟩
    cases n with
    | zero => exact hdone
    | succ n => exact hdone
  | cons k ks ih =>
    cases n with
    | zero =>
      exact ⟨[], rfl, .nil, rfl, rfl, Nat.zero_le 0, List.nil_subset _, fun h => absurd h (by simp)⟩
    | succ n =>
      obtain ⟨hk, hks⟩ := List.nodup_cons.mp hks
      obtain ⟨v, hv, hdv⟩ := hdue k (List.mem_cons_self ..)
      refine Prog.Sure.bind (sure_run ?_)
      intro rank
      obtain ⟨a, ha, hresult, htable, hnew, hold⟩ := hclaim l.db k v rank hv hdv
      refine ⟨a, ha, fun w hw => htable w hw ▸ hT, a.result, rfl, ?_⟩
      rw [hresult]
      -- the other rows are as they were
      have hdue' : ∀ k' ∈ ks, ∃ v, get (replay a.writes l.db) k' = some v ∧ due k' v := by
        intro k' hk'
        have hne : k' ≠ k := by
          rintro rfl
          exact hk hk'
        rw [hold k' hne]
        exact hdue k' (List.mem_cons_of_mem _ hk')
      refine Prog.Sure.bind ((ih hks hdue').mono ?_)
      rintro _ l' ⟨done, rfl, htaken, hseq, hworld, hlength, hsub, hall⟩
      refine ⟨_, rfl, (k, v) :: done, rfl, ?_, hseq, hworld, ?_, ?_, ?_⟩
      · have hkdone : k ∉ done.map Prod.fst := fun hmem => hk (hsub hmem)
        refine ⟨List.nodup_cons.mpr ⟨hkdone, htaken.nodup⟩, ?_, ?_, ?_, ?_⟩
        · refine List.forall_mem_cons.mpr ⟨⟨hv, hdv⟩, ?_⟩
          intro e he
          have hne : e.1 ≠ k := by
            rintro rfl
            exact hkdone (List.mem_map_of_mem he)
          obtain ⟨hget, hde⟩ := htaken.due e he
          exact ⟨(hold e.1 hne).symm.trans hget, hde⟩
        · intro k' hk'
          rw [List.map_cons, List.mem_cons, not_or] at hk'
          exact (htaken.rows k' hk'.2).trans (hold k' hk'.1)
        · refine List.forall_mem_cons.mpr ⟨?_, htaken.taken⟩
          exact (htaken.rows k hkdone).trans hnew
        · intro r hr
          exact (htaken.rest r hr).trans (lookup_replay_table htable hr)
      · rw [List.length_cons]
        omega
      · rw [List.map_cons]
        exact List.cons_subset_cons _ hsub
      · intro hshort
        rw [List.map_cons]
        refine List.cons_subset_cons _ (hall ?_)
        rw [List.length_cons] at hshort
        omega

end Claims

/-! ## Claims of the store -/

section Store

variable {now : Time} {db db' : Db}

theorem Db.mem_gcKeys {k : String × String} : k ∈ db.gcKeys ↔ (db.gc k.1 k.2).isSome := by
  unfold Db.gcKeys Db.gc
  rw [List.mem_filterMap, AList.lookup_isSome]
  constructor
  · rintro ⟨r, hr, hk⟩
    cases r with
    | gc b c =>
      obtain rfl := Option.some.inj hk
      exact hr
    | _ => cases hk
  · intro h
    exact ⟨.gc k.1 k.2, h, rfl⟩

theorem Db.nodup_gcKeys : db.gcKeys.Nodup := by
  refine List.Nodup.filterMap (fun r r' k hr hr' => ?_) db.nodupKeys
  cases r <;> cases r' <;> simp_all
  exact Prod.mk.inj (hr.trans hr'.symm)

theorem Db.nodup_uploadIds : db.uploadIds.Nodup := by
  refine List.Nodup.filterMap (fun r r' id hr hr' => ?_) db.nodupKeys
  cases r <;> cases r' <;> simp_all

theorem UploadRow.expired_expires (u : UploadRow) : u.expired.expires now = false := by
  unfold UploadRow.expires UploadRow.expired
  simp

def Db.gcEntry (db : Db) (k : String × String) : Option GcRow := db.gc k.1 k.2

def GcRow.leased (now : Time) (g : GcRow) : GcRow :=
  { g with notBefore := now + minutes gcLeaseMinutes }

theorem GcRow.leased_late (g : GcRow) : ¬ (g.leased now).notBefore ≤ now := by
  unfold GcRow.leased minutes gcLeaseMinutes
  show ¬ now + 5 * 60 * 1000000 ≤ now
  exact Int.not_le.mpr (Int.lt_add_of_pos_right now (by decide))

theorem takesRow_expireUpload : TakesRow Db.upload UploadRow.expired .uploads
    (fun _ u => u.expires now = true) (expireUpload now) (fun id u => ⟨id, u.expired⟩) := by
  intro db id u rank hu hdue
  have hfree : (db.upload id).filter (fun u => u.expires now ∧
      (⟨rank, fun _ => true⟩ : Scan Row).free (.upload id)) = some u := by
    rw [hu]
    simp [hdue]
  refine ⟨{ result := some ⟨id, u.expired⟩, writes := [⟨.upload id, some u.expired⟩] }, ?_, rfl,
    ?_, ?_, ?_⟩
  · unfold expireUpload
    simp only at hfree ⊢
    rw [hfree]
  · intro w hw
    rw [List.mem_singleton.mp hw]
    rfl
  · exact lookup_put_self db (.upload id) (some u.expired)
  · intro id' hne
    have hrow : Row.upload id' ≠ .upload id := fun he => hne (Row.upload.inj he)
    exact lookup_put_ne db (w := ⟨.upload id, some u.expired⟩) hrow

theorem gcRow_ne {k k' : String × String} (h : k' ≠ k) : Row.gc k'.1 k'.2 ≠ .gc k.1 k.2 := by
  intro he
  obtain ⟨hb, hr⟩ := Row.gc.inj he
  exact h (Prod.ext hb hr)

theorem takesRow_claimGc {unused : String × String → Prop} :
    TakesRow Db.gcEntry (GcRow.leased now) .gc
      (fun k g => g.notBefore ≤ now ∧ unused k) (claimGc now)
      (fun k g => { blobBackend := k.1, blobRef := k.2, attempts := g.attempts }) := by
  intro db k g rank hg hdue
  have hfree : (db.gc k.1 k.2).filter (fun g => g.notBefore ≤ now ∧
      (⟨rank, fun _ => true⟩ : Scan Row).free (.gc k.1 k.2)) = some g := by
    rw [show db.gc k.1 k.2 = some g from hg]
    simp [hdue.1]
  refine ⟨{
    result := some { blobBackend := k.1, blobRef := k.2, attempts := g.attempts }
    writes := [⟨.gc k.1 k.2, some (g.leased now)⟩] }, ?_, rfl, ?_, ?_, ?_⟩
  · unfold claimGc GcRow.leased
    simp only at hfree ⊢
    rw [hfree]
  · intro w hw
    rw [List.mem_singleton.mp hw]
    rfl
  · exact lookup_put_self db (.gc k.1 k.2) (some (g.leased now))
  · intro k' hne
    exact lookup_put_ne db (w := ⟨.gc k.1 k.2, some (g.leased now)⟩) (gcRow_ne hne)

/-- The queue after entries for some blobs, where there were none. -/
structure Queues (notBefore : Time) (blobs : List (String × String)) (l l' : Rows) : Prop where
  queued : ∀ k, Db.gcEntry l'.db k = (Db.gcEntry l.db k).or (if k ∈ blobs then some { notBefore } else none)
  rest : ∀ r : Row, r.table ≠ .gc → l'.db.lookup r = l.db.lookup r
  seq : l'.seq = l.seq
  world : l'.world = l.world

theorem sure_enqueueBlobGc {notBefore : Time} {b : String × String} :
    (run (enqueueBlobGc b.1 b.2 notBefore)).Sure (lone ok)
      (fun r l' => r = .ok () ∧ Queues notBefore [b] l l') l := by
  refine sure_run ?_
  intro rank
  cases hg : Db.gcEntry l.db b with
  | some g =>
    refine ⟨{ result := (), waits := [.gc b.1 b.2] }, ?_, fun _ hw => absurd hw List.not_mem_nil,
      rfl, fun k => ?_, fun _ _ => rfl, rfl, rfl⟩
    · have hrow := show Db.gc l.db b.1 b.2 = _ from hg
      unfold enqueueBlobGc statement
      simp only [hrow]
    · show Db.gcEntry l.db k = _
      by_cases hk : k = b
      · rw [hk, hg, Option.some_or]
      · rw [if_neg (List.mem_singleton.not.mpr hk), Option.or_none]
  | none =>
    refine ⟨{ result := (), writes := [⟨.gc b.1 b.2, some { notBefore }⟩] }, ?_, ?_, rfl,
      fun k => ?_, fun r hr => ?_, rfl, rfl⟩
    · have hrow := show Db.gc l.db b.1 b.2 = _ from hg
      unfold enqueueBlobGc statement
      simp only [hrow]
    · intro w hw
      rw [List.mem_singleton.mp hw]
      exact Table.noConfusion
    · by_cases hk : k = b
      · rw [hk, hg, Option.none_or, if_pos (List.mem_singleton_self b)]
        exact lookup_put_self l.db (.gc b.1 b.2) (some { notBefore })
      · rw [if_neg (List.mem_singleton.not.mpr hk), Option.or_none]
        exact lookup_put_ne l.db (w := ⟨.gc b.1 b.2, some { notBefore }⟩) (gcRow_ne hk)
    · refine lookup_put_ne l.db (w := ⟨.gc b.1 b.2, some { notBefore }⟩) ?_
      rintro rfl
      exact hr rfl

theorem Queues.cons {notBefore : Time} {b : String × String} {blobs : List (String × String)}
    {l₁ : Rows} (h : Queues notBefore [b] l l₁) (h' : Queues notBefore blobs l₁ l') :
    Queues notBefore (b :: blobs) l l' where
  queued := by
    intro k
    rw [h'.queued k, h.queued k, Option.or_assoc]
    congr 1
    by_cases hk : k = b
    · rw [if_pos (List.mem_singleton.mpr hk), Option.some_or, if_pos (hk ▸ List.mem_cons_self ..)]
    · rw [if_neg (List.mem_singleton.not.mpr hk), Option.none_or]
      by_cases hmem : k ∈ blobs
      · rw [if_pos hmem, if_pos (List.mem_cons_of_mem _ hmem)]
      · rw [if_neg hmem, if_neg (List.not_mem_cons_of_ne_of_not_mem hk hmem)]
  rest r hr := (h'.rest r hr).trans (h.rest r hr)
  seq := h'.seq.trans h.seq
  world := h'.world.trans h.world

theorem sure_enqueueBlobs {notBefore : Time} (blobs : List (String × String)) :
    (enqueueBlobs notBefore (blobs.map some)).Sure (lone ok)
      (fun r l' => r = .ok () ∧ Queues notBefore blobs l l') l := by
  induction blobs generalizing l with
  | nil =>
    refine ⟨rfl, fun k => ?_, fun _ _ => rfl, rfl, rfl⟩
    rw [if_neg List.not_mem_nil, Option.or_none]
  | cons b blobs ih =>
    refine Prog.Sure.bind (sure_enqueueBlobGc.mono ?_)
    rintro _ l₁ ⟨rfl, h⟩
    refine ⟨(), rfl, ih.mono ?_⟩
    rintro _ l' ⟨rfl, h'⟩
    exact ⟨rfl, h.cons h'⟩

/-- The uploads `done` have expired and their blobs are queued. -/
structure ExpiresUploads (now : Time) (db db' : Db) (done : List (UploadId × UploadRow)) : Prop where
  nodup : (done.map Prod.fst).Nodup
  due : ∀ e ∈ done, db.upload e.1 = some e.2 ∧ e.2.expires now = true
  uploads : ∀ id, id ∉ done.map Prod.fst → db'.upload id = db.upload id
  expired : ∀ e ∈ done, db'.upload e.1 = some e.2.expired
  queued : ∀ k, db'.gcEntry k = (db.gcEntry k).or
    (if k ∈ done.map (·.2.blob) then some { notBefore := now } else none)
  rest : ∀ r : Row, r.table ≠ .uploads → r.table ≠ .gc → db'.lookup r = db.lookup r

/-- The upload has a due time and a state from which it expires. -/
def DueUpload (now : Time) (db : Db) (id : UploadId) : Prop :=
  ∃ u, db.upload id = some u ∧ u.expires now = true

/-- The entry is due and no live object needs its blob. -/
def DueGc (now : Time) (db : Db) (k : String × String) : Prop :=
  ∃ g, db.gcEntry k = some g ∧ g.notBefore ≤ now ∧ db.pointsTo k = false

theorem sure_dueUploads {Q : Except DomainError (List UploadId) → Rows → Prop}
    (h : ∀ ids : List UploadId, ids.Nodup → (∀ id, id ∈ ids ↔ DueUpload now l.db id) →
      Q (.ok ids) l) : (run (dueUploads now)).Sure (lone ok) Q l := by
  refine sure_run ?_
  intro rank
  refine ⟨_, rfl, fun _ hw => absurd hw List.not_mem_nil, ?_⟩
  refine h _ ?_ ?_
  · exact (List.perm_insertionSort _ _).nodup_iff.mpr (Db.nodup_uploadIds.filter _)
  · intro id
    rw [List.mem_insertionSort, List.mem_filter, Db.mem_uploadIds, Option.any_eq_true]
    constructor
    · rintro ⟨_, u, hu, hexpires⟩
      exact ⟨u, hu, hexpires⟩
    · rintro ⟨u, hu, hexpires⟩
      exact ⟨by rw [hu]; rfl, u, hu, hexpires⟩

theorem sure_dueGc {Q : Except DomainError (List (String × String)) → Rows → Prop}
    (h : ∀ ks : List (String × String), ks.Nodup → (∀ k, k ∈ ks ↔ DueGc now l.db k) →
      Q (.ok ks) l) : (run (dueGc now)).Sure (lone ok) Q l := by
  refine sure_run ?_
  intro rank
  refine ⟨_, rfl, fun _ hw => absurd hw List.not_mem_nil, ?_⟩
  refine h _ ?_ ?_
  · exact (List.perm_insertionSort _ _).nodup_iff.mpr (Db.nodup_gcKeys.filter _)
  · intro k
    rw [List.mem_insertionSort, List.mem_filter, Db.mem_gcKeys, Bool.and_eq_true,
      Option.any_eq_true, Bool.not_eq_true']
    constructor
    · rintro ⟨_, ⟨g, hg, hdue⟩, hunused⟩
      exact ⟨g, hg, of_decide_eq_true hdue, hunused⟩
    · rintro ⟨g, hg, hdue, hunused⟩
      exact ⟨by rw [show Db.gc l.db k.1 k.2 = some g from hg]; rfl,
        ⟨g, hg, decide_eq_true hdue⟩, hunused⟩

/-- What a claim of expired uploads does to a store that is left alone. -/
theorem sure_claimExpiredUploads {limit : Nat} (h : Alone s l) :
    (claimExpiredUploads now limit).Sure (store.effect t (Calm ok)) (fun r s' =>
      ∃ done l', r = .ok (done.map fun e => ⟨e.1, e.2.expired⟩) ∧ Alone s' l' ∧
        ExpiresUploads now l.db l'.db done ∧ l'.world = l.world ∧ done.length ≤ limit ∧
          (done.length < limit → ∀ id, DueUpload now l.db id → id ∈ done.map Prod.fst)) s := by
  refine (Alone.sure_transaction h ?_ (P := fun batch l' => ∃ done,
    batch = done.map (fun e => ⟨e.1, e.2.expired⟩) ∧ ExpiresUploads now l.db l'.db done ∧
      l'.world = l.world ∧ done.length ≤ limit ∧
        (done.length < limit → ∀ id, DueUpload now l.db id → id ∈ done.map Prod.fst))).mono ?_
  · refine Prog.Sure.bind (sure_dueUploads fun ids hnodup hids => ⟨ids, rfl, ?_⟩)
    refine Prog.Sure.bind ((sure_claimEach takesRow_expireUpload (by decide) hnodup
      fun id hid => (hids id).mp hid).mono ?_)
    rintro _ l₁ ⟨done, rfl, htaken, _, hworld, hlength, _, hall⟩
    refine ⟨_, rfl, ?_⟩
    have hblobs : (done.map fun e => (⟨e.1, e.2.expired⟩ : UploadRecord)).map
        (fun u => some (u.row.blobBackend, u.row.blobRef)) = (done.map (·.2.blob)).map some := by
      rw [List.map_map, List.map_map]
      rfl
    rw [hblobs]
    refine Prog.Sure.bind ((sure_enqueueBlobs _).mono ?_)
    rintro _ l₂ ⟨rfl, hqueues⟩
    refine ⟨(), rfl, _, rfl, done, rfl, ?_, hqueues.world.trans hworld, hlength, ?_⟩
    · refine ⟨htaken.nodup, htaken.due, fun id hid => ?_, fun e he => ?_, fun k => ?_,
        fun r hu hg => ?_⟩
      · exact (hqueues.rest (.upload id) Table.noConfusion).trans (htaken.rows id hid)
      · exact (hqueues.rest (.upload e.1) Table.noConfusion).trans (htaken.taken e he)
      · rw [hqueues.queued k]
        congr 1
        exact htaken.rest (.gc k.1 k.2) Table.noConfusion
      · exact (hqueues.rest r hg).trans (htaken.rest r hu)
    · intro hshort id hid
      exact hall hshort ((hids id).mpr hid)
  · rintro r s' ⟨batch, rfl, l', halone, done, rfl, hrest⟩
    exact ⟨done, l', rfl, halone, hrest⟩

/-- What a claim of GC entries does to a store that is left alone. -/
theorem sure_claimGcBatch {limit : Nat} (h : Alone s l) :
    (claimGcBatch now limit).Sure (store.effect t (Calm ok)) (fun r s' =>
      ∃ done l', r = .ok (done.map fun e => {
          blobBackend := e.1.1, blobRef := e.1.2, attempts := e.2.attempts }) ∧ Alone s' l' ∧
        Taken Db.gcEntry (GcRow.leased now) .gc
          (fun k g => g.notBefore ≤ now ∧ Db.pointsTo l.db k = false) l.db l'.db done ∧
        l'.world = l.world ∧ done.length ≤ limit ∧
          (done.length < limit → ∀ k, DueGc now l.db k → k ∈ done.map Prod.fst)) s := by
  refine (Alone.sure_transaction h ?_ (P := fun batch l' => ∃ done,
    batch = done.map (fun e => {
      blobBackend := e.1.1, blobRef := e.1.2, attempts := e.2.attempts }) ∧
      Taken Db.gcEntry (GcRow.leased now) .gc
        (fun k g => g.notBefore ≤ now ∧ Db.pointsTo l.db k = false) l.db l'.db done ∧
      l'.world = l.world ∧ done.length ≤ limit ∧
        (done.length < limit → ∀ k, DueGc now l.db k → k ∈ done.map Prod.fst))).mono ?_
  · refine Prog.Sure.bind (sure_dueGc fun ks hnodup hks => ⟨ks, rfl, ?_⟩)
    refine (sure_claimEach takesRow_claimGc (by decide) hnodup
      fun k hk => (hks k).mp hk).mono ?_
    rintro _ l₁ ⟨done, rfl, htaken, _, hworld, hlength, _, hall⟩
    exact ⟨_, rfl, done, rfl, htaken, hworld, hlength, fun hshort k hk =>
      hall hshort ((hks k).mpr hk)⟩
  · rintro r s' ⟨batch, rfl, l', halone, done, rfl, hrest⟩
    exact ⟨done, l', rfl, halone, hrest⟩

end Store

/-! ## The provider -/

section Provider

variable {app : AppState} {now : Time}

/-- A request to the provider; it may fail in whatever way. -/
theorem sure_providerCall {label : Label} {effect : Env → World → World} {answer : Env → α}
    (h : Alone s l) :
    (providerCall label (fun _ _ => true) effect answer).Sure (store.effect t (Calm ok))
      (fun r s' => ∃ e, ok e ∧ ∃ w, Alone s' { l with world := w } ∧
        ((r = .ok (answer e) ∧ w = effect e l.world) ∨
          (r = .error providerFailed ∧ (w = l.world ∨ w = effect e l.world)))) s := by
  unfold providerCall outside
  refine Prog.Sure.bind ((h.sure_world (Q := fun r l' => ∃ e, ok e ∧ ∃ x, r = .ok x ∧
    l'.db = l.db ∧ l'.seq = l.seq ∧ ((x = .ok (answer e) ∧ l'.world = effect e l.world) ∨
      (x = .error providerFailed ∧ (l'.world = l.world ∨ l'.world = effect e l.world)))) ?_).mono ?_)
  · intro e he
    cases hfault : e.fault with
    | none => exact ⟨.ok (answer e), effect e l.world, by simp [hfault], e, he, _, rfl, rfl, rfl,
        .inl ⟨rfl, rfl⟩⟩
    | failed => exact ⟨.error providerFailed, l.world, by simp [hfault], e, he, _, rfl, rfl, rfl,
        .inr ⟨rfl, .inl rfl⟩⟩
    | lost => exact ⟨.error providerFailed, effect e l.world, by simp [hfault], e, he, _, rfl, rfl,
        rfl, .inr ⟨rfl, .inr rfl⟩⟩
  · rintro _ s' ⟨⟨db, seq, w⟩, halone, e, he, x, rfl, rfl, rfl, hx⟩
    refine ⟨x, rfl, Prog.sure_ofExcept ?_⟩
    exact ⟨e, he, w, halone, hx⟩

/-- Aborting uploads at the provider leaves the rows alone. -/
theorem sure_abortEach (uploads : List UploadRecord) (h : Alone s l) :
    (abortEach app uploads).Sure (store.effect t (Calm ok)) (fun r s' => r = .ok () ∧
      ∃ w, Alone s' { l with world := w } ∧ w.deleted = l.world.deleted) s := by
  induction uploads generalizing s l with
  | nil => exact ⟨rfl, l.world, h, rfl⟩
  | cons upload uploads ih =>
    refine Prog.Sure.bind (Prog.Sure.mono (Prog.Sure.attempt (Q := fun _ s' => ∃ w,
      Alone s' { l with world := w } ∧ w.deleted = l.world.deleted) ?_) ?_)
    · unfold blobStore require
      by_cases hbackend : upload.row.blobBackend = app.backendId
      · rw [if_pos hbackend]
        show (abortProviderUpload _ _).Sure _ _ s
        unfold abortProviderUpload
        cases upload.row.providerUploadId with
        | none => exact ⟨l.world, h, rfl⟩
        | some id =>
          refine (sure_providerCall h).mono ?_
          rintro r s' ⟨e, _, w, halone, ⟨_, hw⟩ | ⟨_, hw | hw⟩⟩
          · exact ⟨w, halone, by rw [hw]; rfl⟩
          · exact ⟨w, halone, by rw [hw]⟩
          · exact ⟨w, halone, by rw [hw]; rfl⟩
      · rw [if_neg hbackend]
        exact ⟨l.world, h, rfl⟩
    · rintro _ s₁ ⟨r, rfl, w, halone, hw⟩
      refine ⟨r, rfl, (ih halone).mono ?_⟩
      rintro _ s' ⟨rfl, w', halone', hw'⟩
      exact ⟨rfl, w', halone', hw'.trans hw⟩

/-! ## Collecting a batch -/

/-- What becomes of a claimed entry: it is deleted with its blob, comes again
later, or waits out its lease where nobody can delete the blob. -/
inductive GcOutcome (app : AppState) (now : Time) (w : World) (k : String × String) (g : GcRow) :
    Option GcRow → Prop
  | deleted (hbackend : k.1 = app.backendId) (hdeleted : k ∈ w.deleted) :
      GcOutcome app now w k g none
  | failed (hbackend : k.1 = app.backendId) :
      GcOutcome app now w k g (some {
        notBefore := now + backoff g.attempts
        attempts := g.attempts + 1
        lastError := some "COS request failed" })
  | skipped (hbackend : k.1 ≠ app.backendId) : GcOutcome app now w k g (some (g.leased now))

/-- The entries `done` are dealt with and nothing else has changed. -/
structure Collects (app : AppState) (now : Time) (done : List ((String × String) × GcRow))
    (l l' : Rows) : Prop where
  settled : ∀ e ∈ done, GcOutcome app now l'.world e.1 e.2 (Db.gcEntry l'.db e.1)
  others : ∀ k, k ∉ done.map Prod.fst → Db.gcEntry l'.db k = Db.gcEntry l.db k
  rest : ∀ r : Row, r.table ≠ .gc → l'.db.lookup r = l.db.lookup r
  only : ∀ k ∈ l'.world.deleted,
    k ∈ l.world.deleted ∨ k ∈ done.map Prod.fst ∧ k.1 = app.backendId
  kept : ∀ k ∈ l.world.deleted, k ∈ l'.world.deleted

/-- How many of the entries are gone from the queue, and how many still there. -/
def countGone (db : Db) (done : List ((String × String) × GcRow)) : Nat :=
  done.countP fun e => (db.gcEntry e.1).isNone

def countLeft (db : Db) (done : List ((String × String) × GcRow)) : Nat :=
  done.countP fun e => (db.gcEntry e.1).isSome

theorem countGone_add_countLeft (db : Db) (done : List ((String × String) × GcRow)) :
    countGone db done + countLeft db done = done.length := by
  unfold countGone countLeft
  rw [List.length_eq_countP_add_countP fun e => (Db.gcEntry db e.1).isNone]
  congr 2
  funext e
  cases Db.gcEntry db e.1 with
  | none => rfl
  | some g => rfl

theorem GcOutcome.mono {w w' : World} {k : String × String} {g : GcRow} {o : Option GcRow}
    (h : GcOutcome app now w k g o) (hw : ∀ k ∈ w.deleted, k ∈ w'.deleted) :
    GcOutcome app now w' k g o := by
  cases h with
  | deleted hbackend hdeleted => exact .deleted hbackend (hw k hdeleted)
  | failed hbackend => exact .failed hbackend
  | skipped hbackend => exact .skipped hbackend

theorem Collects.nil : Collects app now [] l l :=
  ⟨fun _ he => absurd he List.not_mem_nil, fun _ _ => rfl, fun _ _ => rfl, fun _ hk => .inl hk,
    fun _ hk => hk⟩

/-- One batch after another. -/
theorem Collects.append {done done' : List ((String × String) × GcRow)} {l₁ : Rows}
    (h : Collects app now done l l₁) (h' : Collects app now done' l₁ l')
    (hdisjoint : ∀ e ∈ done, e.1 ∉ done'.map Prod.fst) : Collects app now (done ++ done') l l' where
  settled := by
    refine List.forall_mem_append.mpr ⟨fun e he => ?_, h'.settled⟩
    rw [h'.others e.1 (hdisjoint e he)]
    exact (h.settled e he).mono h'.kept
  others := by
    intro k hk
    rw [List.map_append, List.mem_append, not_or] at hk
    exact (h'.others k hk.2).trans (h.others k hk.1)
  rest r hr := (h'.rest r hr).trans (h.rest r hr)
  only := by
    intro k hk
    rw [List.map_append, List.mem_append]
    rcases h'.only k hk with hk | ⟨hk, hbackend⟩
    · rcases h.only k hk with hk | ⟨hk, hbackend⟩
      · exact .inl hk
      · exact .inr ⟨.inl hk, hbackend⟩
    · exact .inr ⟨.inr hk, hbackend⟩
  kept k hk := h'.kept k (h.kept k hk)

theorem sure_dequeue {label : Label} {k : String × String} {g : GcRow} {l : Rows}
    (hg : Db.gcEntry l.db k = some g) :
    (run (dequeueBlobGc label k.1 k.2)).Sure (lone ok) (fun r l' => r = .ok () ∧
      l' = { l with db := put l.db ⟨.gc k.1 k.2, none⟩ }) l := by
  refine sure_run ?_
  intro rank
  refine ⟨{ result := (), writes := [⟨.gc k.1 k.2, none⟩] }, ?_, ?_, rfl, rfl⟩
  · have hrow := show Db.gc l.db k.1 k.2 = some g from hg
    unfold dequeueBlobGc statement
    simp only [hrow]
  · intro w hw
    rw [List.mem_singleton.mp hw]
    exact Table.noConfusion

theorem sure_failGc {k : String × String} {g : GcRow} {attempts : Nat} {error : String}
    {retryAt : Time} {l : Rows} (hg : Db.gcEntry l.db k = some g) :
    (failGc ⟨k.1, k.2, attempts⟩ error retryAt).Sure (lone ok) (fun r l' => r = .ok () ∧
      l' = { l with db := put l.db ⟨.gc k.1 k.2, some {
        notBefore := retryAt, attempts := g.attempts + 1, lastError := some error }⟩ }) l := by
  refine sure_run ?_
  intro rank
  refine ⟨{ result := (), writes := [⟨.gc k.1 k.2, some {
    notBefore := retryAt, attempts := g.attempts + 1, lastError := some error }⟩] }, ?_, ?_, rfl,
    rfl⟩
  · have hrow := show Db.gc l.db k.1 k.2 = some g from hg
    unfold statement
    simp only [hrow]
  · intro w hw
    rw [List.mem_singleton.mp hw]
    exact Table.noConfusion

/-- One entry whose row has been rewritten for the last time. -/
theorem Collects.single {k : String × String} {g : GcRow} {v : Option GcRow} {w : World}
    (hv : GcOutcome app now w k g v)
    (honly : ∀ x ∈ w.deleted, x ∈ l.world.deleted ∨ x = k ∧ k.1 = app.backendId)
    (hkept : ∀ x ∈ l.world.deleted, x ∈ w.deleted) :
    Collects app now [(k, g)] l { l with db := put l.db ⟨.gc k.1 k.2, v⟩, world := w } where
  settled := by
    intro e he
    rw [List.mem_singleton.mp he]
    show GcOutcome app now w k g ((put l.db ⟨.gc k.1 k.2, v⟩).lookup (.gc k.1 k.2))
    rw [lookup_put_self]
    exact hv
  others := by
    intro x hx
    have hne : x ≠ k := List.mem_singleton.not.mp hx
    exact lookup_put_ne l.db (w := ⟨.gc k.1 k.2, v⟩) (gcRow_ne hne)
  rest := by
    intro r hr
    refine lookup_put_ne l.db (w := ⟨.gc k.1 k.2, v⟩) ?_
    rintro rfl
    exact hr rfl
  only := by
    intro x hx
    rcases honly x hx with hx | ⟨rfl, hbackend⟩
    · exact .inl hx
    · exact .inr ⟨List.mem_singleton_self _, hbackend⟩
  kept := hkept

theorem countGone_cons {db : Db} (e : (String × String) × GcRow)
    (done : List ((String × String) × GcRow)) (h : db.gcEntry e.1 = none) :
    countGone db (e :: done) = countGone db done + 1 ∧
      countLeft db (e :: done) = countLeft db done :=
  ⟨List.countP_cons_of_pos (by rw [h]; rfl), List.countP_cons_of_neg (by rw [h]; decide)⟩

theorem countLeft_cons {db : Db} (e : (String × String) × GcRow) {g : GcRow}
    (done : List ((String × String) × GcRow)) (h : db.gcEntry e.1 = some g) :
    countGone db (e :: done) = countGone db done ∧
      countLeft db (e :: done) = countLeft db done + 1 :=
  ⟨List.countP_cons_of_neg (by rw [h]; exact Bool.false_ne_true),
    List.countP_cons_of_pos (by rw [h]; rfl)⟩

/-- The provider may fail at every entry. -/
theorem sure_collectEach (done : List ((String × String) × GcRow)) (h : Alone s l)
    (hnodup : (done.map Prod.fst).Nodup)
    (hleased : ∀ e ∈ done, Db.gcEntry l.db e.1 = some (e.2.leased now)) :
    (collectEach app now (done.map fun e => {
        blobBackend := e.1.1, blobRef := e.1.2, attempts := e.2.attempts })).Sure
      (store.effect t (Calm ok)) (fun r s' => ∃ l', Alone s' l' ∧
        r = .ok (countGone l'.db done, countLeft l'.db done) ∧ Collects app now done l l') s := by
  induction done generalizing s l with
  | nil => exact ⟨l, h, rfl, .nil⟩
  | cons e done ih =>
    obtain ⟨k, g⟩ := e
    obtain ⟨hk, hnodup⟩ := List.nodup_cons.mp hnodup
    obtain ⟨hrow, hleased⟩ := List.forall_mem_cons.mp hleased
    -- the head is dealt with; the others are as they were
    have htail : ∀ l₁ : Rows, Collects app now [(k, g)] l l₁ →
        ∀ e ∈ done, Db.gcEntry l₁.db e.1 = some (e.2.leased now) := by
      intro l₁ h₁ e he
      have hne : e.1 ∉ [(k, g)].map Prod.fst := by
        rw [List.map_singleton, List.mem_singleton]
        rintro heq
        exact hk (heq ▸ List.mem_map_of_mem he)
      rw [h₁.others e.1 hne]
      exact hleased e he
    have hdisjoint : ∀ e ∈ [(k, g)], e.1 ∉ done.map Prod.fst := by
      intro e he
      rw [List.mem_singleton.mp he]
      exact hk
    show (if k.1 = app.backendId then _ else _ : Store (Nat × Nat)).Sure _ _ s
    by_cases hbackend : k.1 = app.backendId
    · rw [if_pos hbackend]
      refine Prog.Sure.bind ((Prog.Sure.attempt (sure_providerCall h)).mono ?_)
      rintro _ s₁ ⟨r, rfl, env, _, w, h₁, hr⟩
      refine ⟨r, rfl, ?_⟩
      have honly : ∀ x ∈ w.deleted, x ∈ l.world.deleted ∨ x = k ∧ k.1 = app.backendId := by
        intro x hx
        rcases hr with ⟨_, rfl⟩ | ⟨_, rfl | rfl⟩
        · exact (List.mem_cons.mp hx).symm.imp_right fun h => ⟨h, hbackend⟩
        · exact .inl hx
        · exact (List.mem_cons.mp hx).symm.imp_right fun h => ⟨h, hbackend⟩
      have hkept : ∀ x ∈ l.world.deleted, x ∈ w.deleted := by
        intro x hx
        rcases hr with ⟨_, rfl⟩ | ⟨_, rfl | rfl⟩
        · exact List.mem_cons_of_mem _ hx
        · exact hx
        · exact List.mem_cons_of_mem _ hx
      rcases hr with ⟨rfl, hw⟩ | ⟨rfl, _⟩
      · have hdeleted : k ∈ w.deleted := by
          rw [hw]
          exact List.mem_cons_self ..
        refine Prog.Sure.bind ((h₁.sure_query (sure_dequeue hrow)).mono ?_)
        rintro _ s₂ ⟨l₂, h₂, rfl, rfl⟩
        refine ⟨(), rfl, ?_⟩
        have hhead := @Collects.single l app now k g none w (.deleted hbackend hdeleted) honly hkept
        refine Prog.Sure.bind ((ih h₂ hnodup (htail _ hhead)).mono ?_)
        rintro _ s' ⟨l', h', rfl, hrest⟩
        have hgone : Db.gcEntry l'.db k = none := (hrest.others k hk).trans (lookup_put_self ..)
        obtain ⟨hcount, hcount'⟩ := countGone_cons (k, g) done hgone
        exact ⟨_, rfl, l', h', by rw [hcount, hcount'], hhead.append hrest hdisjoint⟩
      · refine Prog.Sure.bind ((h₁.sure_query (sure_failGc hrow)).mono ?_)
        rintro _ s₂ ⟨l₂, h₂, rfl, rfl⟩
        refine ⟨(), rfl, ?_⟩
        have hhead := @Collects.single l app now k g _ w (.failed hbackend) honly hkept
        refine Prog.Sure.bind ((ih h₂ hnodup (htail _ hhead)).mono ?_)
        rintro _ s' ⟨l', h', rfl, hrest⟩
        have hleft := (hrest.others k hk).trans (lookup_put_self ..)
        obtain ⟨hcount, hcount'⟩ := countLeft_cons (k, g) done hleft
        exact ⟨_, rfl, l', h', by rw [hcount, hcount'], hhead.append hrest hdisjoint⟩
    · rw [if_neg hbackend]
      have hhead : Collects app now [(k, g)] l l := by
        refine ⟨fun e he => ?_, fun _ _ => rfl, fun _ _ => rfl, fun _ hx => .inl hx, fun _ hx => hx⟩
        rw [List.mem_singleton.mp he, hrow]
        exact .skipped hbackend
      refine Prog.Sure.bind ((ih h hnodup hleased).mono ?_)
      rintro _ s' ⟨l', h', rfl, hrest⟩
      have hleft := (hrest.others k hk).trans hrow
      obtain ⟨hcount, hcount'⟩ := countLeft_cons (k, g) done hleft
      exact ⟨_, rfl, l', h', by rw [hcount, hcount'], hhead.append hrest hdisjoint⟩

end Provider

/-! ## Purges -/

section Purges

variable {now olderThan : Time} {due : (r : Row) → r.Val → Bool}

/-- How many rows are due. -/
def Db.count (db : Db) (due : (r : Row) → r.Val → Bool) : Nat :=
  db.keys.countP fun r => (db.lookup r).any (due r)

def recordDue (now : Time) : (r : Row) → r.Val → Bool
  | .idempotency .., r => r.expiresAt ≤ now
  | _, _ => false

def cursorDue (now : Time) : (r : Row) → r.Val → Bool
  | .cursor _, c => c.expiresAt ≤ now
  | _, _ => false

def changeDue (olderThan : Time) : (r : Row) → r.Val → Bool
  | .change _, c => c.changedAt < olderThan
  | _, _ => false

theorem sure_deleteEach {row : κ → Row} (hrow : Function.Injective row) {ks : List κ}
    (hnodup : ks.Nodup) (hks : ∀ k ∈ ks, (l.db.lookup (row k)).any (due (row k)))
    (hobject : ∀ k, (row k).table ≠ .objects) :
    (deleteEach (fun k => deleteRow (row k) (due (row k))) ks).Sure (lone ok) (fun r l' =>
      r = .ok ks ∧ (∀ k ∈ ks, l'.db.lookup (row k) = none) ∧
        (∀ x, x ∉ ks.map row → l'.db.lookup x = l.db.lookup x) ∧ l'.world = l.world) l := by
  induction ks generalizing l with
  | nil => exact ⟨rfl, fun _ hk => absurd hk List.not_mem_nil, fun _ _ => rfl, rfl⟩
  | cons k ks ih =>
    obtain ⟨hk, hnodup⟩ := List.nodup_cons.mp hnodup
    obtain ⟨hdue, hks⟩ := List.forall_mem_cons.mp hks
    refine Prog.Sure.bind (sure_run ?_)
    intro rank
    refine ⟨{ result := true, writes := [⟨row k, none⟩] }, if_pos hdue, ?_, true, rfl, ?_⟩
    · intro w hw
      rw [List.mem_singleton.mp hw]
      exact hobject k
    -- the rows of the other keys are still there
    have hks' : ∀ x ∈ ks, ((put l.db ⟨row k, none⟩).lookup (row x)).any (due (row x)) := by
      intro x hx
      have hne : row x ≠ row k := fun he => hk (hrow he ▸ hx)
      rw [lookup_put_ne l.db (w := ⟨row k, none⟩) hne]
      exact hks x hx
    refine Prog.Sure.bind ((ih hnodup hks').mono ?_)
    rintro _ l' ⟨rfl, hgone, hothers, hworld⟩
    refine ⟨_, rfl, rfl, ?_, ?_, hworld⟩
    · refine List.forall_mem_cons.mpr ⟨?_, hgone⟩
      have hmem : row k ∉ ks.map row := by
        rintro hmem
        obtain ⟨x, hx, he⟩ := List.mem_map.mp hmem
        exact hk (hrow he ▸ hx)
      rw [hothers _ hmem]
      exact lookup_put_self l.db (row k) none
    · intro x hx
      rw [List.map_cons, List.mem_cons, not_or] at hx
      rw [hothers x hx.2]
      exact lookup_put_ne l.db (w := ⟨row k, none⟩) hx.1

/-- The rows that were due are gone. -/
structure PurgesRows (due : (r : Row) → r.Val → Bool) (l l' : Rows) : Prop where
  rows : ∀ r : Row, l'.db.lookup r = (l.db.lookup r).filter fun v => !due r v
  world : l'.world = l.world

theorem sure_purge (row : κ → Row) (due : (r : Row) → r.Val → Bool) {ks : List κ}
    (hrow : Function.Injective row) (hnodup : ks.Nodup) (hks : ∀ r, r ∈ ks.map row ↔ (l.db.lookup r).any (due r) = true)
    (hobject : ∀ k, (row k).table ≠ .objects) :
    (deleteEach (fun k => deleteRow (row k) (due (row k))) ks).Sure (lone ok) (fun r l' =>
      r = .ok ks ∧ ks.length = Db.count l.db due ∧ PurgesRows due l l') l := by
  refine (sure_deleteEach hrow hnodup (fun k hk => (hks _).mp (List.mem_map_of_mem hk))
    hobject).mono ?_
  rintro _ l' ⟨rfl, hgone, hothers, hworld⟩
  refine ⟨rfl, ?_, ?_, hworld⟩
  · have hperm : (ks.map row).Perm (l.db.keys.filter fun r => (l.db.lookup r).any (due r)) := by
      refine (List.perm_ext_iff_of_nodup (hnodup.map hrow) (l.db.nodupKeys.filter _)).mpr ?_
      intro r
      rw [hks, List.mem_filter]
      constructor
      · intro h
        refine ⟨?_, h⟩
        obtain ⟨v, hv, _⟩ := (Option.any_eq_true ..).mp h
        exact AList.lookup_isSome.mp (by rw [hv]; rfl)
      · exact fun h => h.2
    unfold Db.count
    rw [List.countP_eq_length_filter, ← hperm.length_eq, List.length_map]
  · intro r
    by_cases hr : r ∈ ks.map row
    · obtain ⟨k, hk, rfl⟩ := List.mem_map.mp hr
      obtain ⟨v, hv, hdue⟩ := (Option.any_eq_true ..).mp ((hks _).mp hr)
      rw [hgone k hk, hv]
      show none = if (!due (row k) v) = true then some v else none
      rw [hdue]
      rfl
    · rw [hothers r hr]
      have hnot := mt (hks r).mpr hr
      cases hv : l.db.lookup r with
      | none => rfl
      | some v =>
        rw [hv] at hnot
        have hdue : due r v = false := Bool.eq_false_iff.mpr hnot
        show some v = if (!due r v) = true then some v else none
        rw [hdue]
        rfl

theorem Db.mem_keys_of_any {db : Db} {r : Row} (h : (db.lookup r).any (due r) = true) :
    r ∈ db.keys := by
  obtain ⟨v, hv, _⟩ := (Option.any_eq_true ..).mp h
  exact AList.lookup_isSome.mp (by rw [hv]; rfl)

theorem not_due {r : Row} {o : Option r.Val} (h : due r = fun _ => false) :
    ¬ o.any (due r) = true := by
  rw [h]
  cases o with
  | none => exact Bool.false_ne_true
  | some v => exact Bool.false_ne_true

theorem sure_purgeIdempotencyRecords (h : Alone s l) :
    (purgeIdempotencyRecords now).Sure (store.effect t (Calm ok)) (fun r s' => ∃ l',
      Alone s' l' ∧ r = .ok (Db.count l.db (recordDue now)) ∧ PurgesRows (recordDue now) l l') s := by
  refine (Alone.sure_transaction h ?_ (P := fun n l' =>
    n = Db.count l.db (recordDue now) ∧ PurgesRows (recordDue now) l l')).mono ?_
  · refine Prog.Sure.bind (sure_run ?_)
    intro rank
    refine ⟨_, rfl, fun _ hw => absurd hw List.not_mem_nil, _, rfl, ?_⟩
    refine Prog.Sure.bind ((sure_purge
      (fun k : PrincipalId × String × IdempotencyKey => .idempotency k.1 k.2.1 k.2.2)
      (recordDue now) ?_ ?_ ?_ fun _ => Table.noConfusion).mono ?_)
    · rintro ⟨p, o, k⟩ ⟨p', o', k'⟩ he
      obtain ⟨rfl, rfl, rfl⟩ := Row.idempotency.inj he
      rfl
    · refine List.Nodup.filterMap (fun r r' k hr hr' => ?_) l.db.nodupKeys
      cases r <;> cases r' <;> simp_all
      obtain ⟨_, rfl⟩ := hr
      simp_all
    · intro r
      rw [List.mem_map]
      constructor
      · rintro ⟨k, hk, rfl⟩
        obtain ⟨r, _, hr⟩ := List.mem_filterMap.mp hk
        cases r with
        | idempotency p o k' =>
          obtain ⟨hdue, hkey⟩ := Option.ite_none_right_eq_some.mp hr
          obtain rfl := Option.some.inj hkey
          exact hdue
        | _ => cases hr
      · intro hdue
        cases r with
        | idempotency p o k =>
          refine ⟨(p, o, k), List.mem_filterMap.mpr ⟨_, Db.mem_keys_of_any hdue, ?_⟩, rfl⟩
          exact if_pos hdue
        | _ => exact absurd hdue (not_due rfl)
    · rintro _ l' ⟨rfl, hlength, hpurges⟩
      exact ⟨_, rfl, _, rfl, hlength, hpurges⟩
  · rintro r s' ⟨n, rfl, l', halone, rfl, hpurges⟩
    exact ⟨l', halone, rfl, hpurges⟩

theorem sure_purgeChangeCursors (h : Alone s l) :
    (purgeChangeCursors now).Sure (store.effect t (Calm ok)) (fun r s' => ∃ l',
      Alone s' l' ∧ r = .ok (Db.count l.db (cursorDue now)) ∧ PurgesRows (cursorDue now) l l') s := by
  refine (Alone.sure_transaction h ?_ (P := fun n l' =>
    n = Db.count l.db (cursorDue now) ∧ PurgesRows (cursorDue now) l l')).mono ?_
  · refine Prog.Sure.bind (sure_run ?_)
    intro rank
    refine ⟨_, rfl, fun _ hw => absurd hw List.not_mem_nil, _, rfl, ?_⟩
    refine Prog.Sure.bind ((sure_purge (fun id : CursorId => .cursor id)
      (cursorDue now) (fun _ _ he => Row.cursor.inj he) ?_ ?_
        fun _ => Table.noConfusion).mono ?_)
    · refine List.Nodup.filterMap (fun r r' k hr hr' => ?_) l.db.nodupKeys
      cases r <;> cases r' <;> simp_all
    · intro r
      rw [List.mem_map]
      constructor
      · rintro ⟨id, hid, rfl⟩
        obtain ⟨r, _, hr⟩ := List.mem_filterMap.mp hid
        cases r with
        | cursor id' =>
          obtain ⟨hdue, hkey⟩ := Option.ite_none_right_eq_some.mp hr
          obtain rfl := Option.some.inj hkey
          exact hdue
        | _ => cases hr
      · intro hdue
        cases r with
        | cursor id =>
          refine ⟨id, List.mem_filterMap.mpr ⟨_, Db.mem_keys_of_any hdue, ?_⟩, rfl⟩
          exact if_pos hdue
        | _ => exact absurd hdue (not_due rfl)
    · rintro _ l' ⟨rfl, hlength, hpurges⟩
      exact ⟨_, rfl, _, rfl, hlength, hpurges⟩
  · rintro r s' ⟨n, rfl, l', halone, rfl, hpurges⟩
    exact ⟨l', halone, rfl, hpurges⟩

/-- The Changes that a purge deletes. -/
def Db.dueSeqs (db : Db) (olderThan : Time) : List Nat :=
  db.seqs.filter fun seq => (db.change seq).any fun c => c.changedAt < olderThan

theorem sure_purgeChanges (h : Alone s l) :
    (purgeChanges olderThan).Sure (store.effect t (Calm ok)) (fun r s' => ∃ l',
      Alone s' l' ∧ r = .ok (Db.count l.db (changeDue olderThan)) ∧
      (∀ x : Row, x ≠ .retention → l'.db.lookup x =
        (l.db.lookup x).filter fun v => !changeDue olderThan x v) ∧
      Db.purgedThrough l'.db = (Db.purgedThrough l.db).map
        (fun w => max w ((Db.dueSeqs l.db olderThan).max?.getD 0)) ∧
      l'.world = l.world) s := by
  refine (Alone.sure_transaction h ?_ (P := fun n l' =>
    n = Db.count l.db (changeDue olderThan) ∧
      (∀ x : Row, x ≠ .retention → l'.db.lookup x =
        (l.db.lookup x).filter fun v => !changeDue olderThan x v) ∧
      Db.purgedThrough l'.db = (Db.purgedThrough l.db).map
        (fun w => max w ((Db.dueSeqs l.db olderThan).max?.getD 0)) ∧
      l'.world = l.world)).mono ?_
  · refine Prog.Sure.bind (sure_run ?_)
    intro rank
    refine ⟨_, rfl, fun _ hw => absurd hw List.not_mem_nil, _, rfl, ?_⟩
    refine Prog.Sure.bind ((@sure_purge _ _ l (fun seq : Nat => .change seq)
      (changeDue olderThan) (Db.dueSeqs l.db olderThan) (fun _ _ he => Row.change.inj he) ?_ ?_
        fun _ => Table.noConfusion).mono ?_)
    · refine List.Nodup.filter _ (List.Nodup.filterMap (fun r r' k hr hr' => ?_) l.db.nodupKeys)
      cases r <;> cases r' <;> simp_all
    · intro r
      rw [List.mem_map]
      constructor
      · rintro ⟨seq, hseq, rfl⟩
        exact (List.mem_filter.mp hseq).2
      · intro hdue
        cases r with
        | change seq =>
          refine ⟨seq, List.mem_filter.mpr ⟨?_, hdue⟩, rfl⟩
          exact List.mem_filterMap.mpr ⟨_, Db.mem_keys_of_any hdue, rfl⟩
        | _ => exact absurd hdue (not_due rfl)
    · rintro _ l₁ ⟨rfl, hlength, hpurges⟩
      refine ⟨_, rfl, ?_⟩
      have hmark : Db.purgedThrough l₁.db = Db.purgedThrough l.db := by
        refine (hpurges.rows .retention).trans ?_
        show (l.db.lookup Row.retention).filter (fun _ => !false) = l.db.lookup Row.retention
        cases l.db.lookup Row.retention with
        | none => rfl
        | some w => rfl
      unfold whenever
      by_cases hnil : Db.dueSeqs l.db olderThan = []
      · rw [if_neg (not_not.mpr hnil)]
        refine ⟨_, rfl, hlength, fun x _ => hpurges.rows x, ?_, hpurges.world⟩
        rw [hmark, hnil]
        cases Db.purgedThrough l.db with
        | none => rfl
        | some w => exact congrArg some (Nat.max_zero w).symm
      · rw [if_pos hnil]
        refine Prog.Sure.bind (sure_run ?_)
        intro rank
        cases hw : Db.purgedThrough l.db with
        | none =>
          refine ⟨{ result := () }, ?_, fun _ hw => absurd hw List.not_mem_nil, (), rfl, _, rfl,
            hlength, fun x _ => hpurges.rows x, hmark.trans hw, hpurges.world⟩
          unfold raiseWatermark statement
          simp only [hmark.trans hw]
        | some w =>
          refine ⟨{ result := (), writes := [⟨.retention, some (max w
            ((Db.dueSeqs l.db olderThan).max?.getD 0))⟩] }, ?_, ?_, (), rfl, _, rfl, hlength,
            fun x hx => ?_, ?_, hpurges.world⟩
          · unfold raiseWatermark statement
            simp only [hmark.trans hw]
          · intro w hw
            rw [List.mem_singleton.mp hw]
            exact Table.noConfusion
          · refine Eq.trans ?_ (hpurges.rows x)
            exact lookup_put_ne l₁.db (w := ⟨.retention, some (max w _)⟩) hx
          · exact lookup_put_self l₁.db .retention (some (max w _))
  · rintro r s' ⟨n, rfl, l', halone, rfl, hrest⟩
    exact ⟨l', halone, rfl, hrest⟩

end Purges

end AnyStore
