import AnyStore.Spec.Feed

/-!
# Pages and cursors

A cursor stands for a position in the feed. Its first read builds a page and
binds it to the cursor for good (`Kept`), and the page of a cursor is a window
of the feed: it has everything that was ever committed between where the cursor
stands and the end of the page, because what is committed later comes after.
-/

namespace AnyStore

open ReadCommitted

variable {S : Setting} {w : World} {wal wal₁ wal₂ wal' : Journal} {db db' : Db} {label : Label}

/-! ## Windows -/

theorem window_append {l : List (Nat × ChangeRecord)} (hl : l.Pairwise fun a b => a.1 < b.1)
    {lo mid hi : Nat} (hlo : lo ≤ mid) (hhi : mid ≤ hi) :
    window lo mid l ++ window mid hi l = window lo hi l := by
  have : Std.Antisymm fun a b : Nat × ChangeRecord => a.1 < b.1 := ⟨fun a b h h' => absurd h h'.asymm⟩
  have : Std.Irrefl fun a b : Nat × ChangeRecord => a.1 < b.1 := ⟨fun a h => absurd h (lt_irrefl _)⟩
  refine List.Pairwise.eq_of_mem_iff (r := fun a b : Nat × ChangeRecord => a.1 < b.1)
    (List.pairwise_append.mpr ⟨hl.filter _, hl.filter _, fun a ha b hb => ?_⟩) (hl.filter _)
    fun r => ?_
  · have ha := of_decide_eq_true (List.mem_filter.mp ha).2
    have hb := of_decide_eq_true (List.mem_filter.mp hb).2
    omega
  · simp only [window, List.mem_append, List.mem_filter, decide_eq_true_eq]
    constructor
    · rintro (⟨hr, h₁, h₂⟩ | ⟨hr, h₁, h₂⟩)
      · exact ⟨hr, h₁, h₂.trans hhi⟩
      · exact ⟨hr, by omega, h₂⟩
    · rintro ⟨hr, h₁, h₂⟩
      rcases Nat.lt_or_ge mid r.1 with h | h
      · exact .inr ⟨hr, h, h₂⟩
      · exact .inl ⟨hr, h₁, h⟩

theorem window_self (lo : Nat) (l : List (Nat × ChangeRecord)) : window lo lo l = [] := by
  refine List.filter_eq_nil_iff.mpr fun r _ => ?_
  simp only [decide_eq_true_eq]
  omega

/-- The end of a page that is not empty is the number of its last record. -/
theorem pageEnd_eq {items : List (Nat × ChangeRecord)} {after : Nat}
    (hs : items.Pairwise fun a b => a.1 < b.1) :
    (items = [] ∧ pageEnd items after = after) ∨ ∃ r ∈ items, pageEnd items after = r.1 ∧
      ∀ r' ∈ items, r'.1 ≤ r.1 := by
  rcases List.eq_nil_or_concat items with rfl | ⟨front, r, rfl⟩
  · exact .inl ⟨rfl, rfl⟩
  · refine .inr ⟨r, by simp, by simp [pageEnd], fun r' hr' => ?_⟩
    rw [List.concat_eq_append] at hs hr'
    rcases List.mem_append.mp hr' with h | h
    · exact ((List.pairwise_append.mp hs).2.2 r' h r (List.mem_singleton_self _)).le
    · rw [List.mem_singleton.mp h]

/-- A page is all that is there up to its end. -/
theorem Db.changesBetween_pageEnd (lo hi n : Nat) :
    db.changesBetween lo (pageEnd ((db.changesBetween lo hi).take n) lo) =
      (db.changesBetween lo hi).take n := by
  have : Std.Antisymm fun a b : Nat × ChangeRecord => a.1 < b.1 := ⟨fun a b h h' => absurd h h'.asymm⟩
  have : Std.Irrefl fun a b : Nat × ChangeRecord => a.1 < b.1 := ⟨fun a h => absurd h (lt_irrefl _)⟩
  have hsorted := db.changesBetween_sorted lo hi
  have htake : ((db.changesBetween lo hi).take n).Pairwise fun a b => a.1 < b.1 :=
    hsorted.sublist (List.take_sublist ..)
  refine (db.changesBetween_sorted _ _).eq_of_mem_iff htake fun r => ?_
  rw [Db.mem_changesBetween]
  rcases @pageEnd_eq _ lo htake with ⟨hnil, hend⟩ | ⟨last, hlast, hend, hmax⟩
  · rw [hend, hnil]
    simp only [List.not_mem_nil, iff_false]
    omega
  · rw [hend]
    have hlast' := Db.mem_changesBetween.mp (List.mem_of_mem_take hlast)
    constructor
    · rintro ⟨hlo, hle, hc⟩
      have hr : r ∈ db.changesBetween lo hi :=
        Db.mem_changesBetween.mpr ⟨hlo, hle.trans hlast'.2.1, hc⟩
      -- what was cut off comes after the last record
      rw [← List.take_append_drop n (db.changesBetween lo hi)] at hr hsorted
      rcases List.mem_append.mp hr with hr | hr
      · exact hr
      · exact absurd ((List.pairwise_append.mp hsorted).2.2 last hlast r hr) (by omega)
    · intro hr
      obtain ⟨hlo, _, hc⟩ := Db.mem_changesBetween.mp (List.mem_of_mem_take hr)
      exact ⟨hlo, hmax r hr, hc⟩

/-- A position from which the feed has reached another. -/
def Reached (wal : Journal) (after e : Nat) : Prop :=
  after ≤ e ∧ (e ≤ after ∨ ∃ r ∈ feed wal, e ≤ r.1)

theorem Reached.mono {after e : Nat} (h : Reached wal after e) (hp : wal <+: wal') :
    Reached wal' after e :=
  ⟨h.1, h.2.imp_right fun ⟨r, hr, he⟩ => ⟨r, (feed_mono hp).subset hr, he⟩⟩

/-- What is committed later comes after a position that was reached. -/
theorem Serial.window_final (h : Serial S w wal') (hp : wal <+: wal') {after e : Nat}
    (he : Reached wal after e) : window after e (feed wal') = window after e (feed wal) := by
  obtain ⟨rest, hrest⟩ := feed_mono hp
  have hsorted := h.feedInv.pairwise
  rw [← hrest] at hsorted ⊢
  rw [window, List.filter_append]
  have hnil : rest.filter (fun r => after < r.1 ∧ r.1 ≤ e) = [] := by
    refine List.filter_eq_nil_iff.mpr fun r hr => ?_
    simp only [decide_eq_true_eq]
    rcases he.2 with he | ⟨last, hlast, he⟩
    · omega
    · have := (List.pairwise_append.mp hsorted).2.2 last hlast r hr
      omega
  rw [hnil, List.append_nil]
  rfl

/-! ## Built pages -/

theorem BuiltBetween.mono {wal₀ : Journal} {after limit : Nat} {built : BuiltPage}
    (h : BuiltBetween S wal₀ wal after limit built) (hp : wal <+: wal') :
    BuiltBetween S wal₀ wal' after limit built := by
  obtain ⟨w₁, w₂, w₃, h₀, h₁, h₂, h₃, hrest⟩ := h
  exact ⟨w₁, w₂, w₃, h₀, h₁, h₂, h₃.trans hp, hrest⟩

/-- A page of the store: the records between two positions as one statement
saw them, after the purge watermark was read. -/
def PageOf (S : Setting) (wal₀ wal : Journal) (after e : Nat)
    (items : List (Nat × ChangeRecord)) : Prop :=
  ∃ wal₂, wal₀ <+: wal₂ ∧ wal₂ <+: wal ∧ S.rule (.page after) (S.rows wal₂) ∧
    Reached wal₂ after e ∧ items = (S.rows wal₂).changesBetween after e

theorem PageOf.mono {wal₀ : Journal} {after e : Nat} {items : List (Nat × ChangeRecord)}
    (h : PageOf S wal₀ wal after e items) (hp : wal <+: wal') :
    PageOf S wal₀ wal' after e items := by
  obtain ⟨wal₂, h₀, h₂, hrest⟩ := h
  exact ⟨wal₂, h₀, h₂.trans hp, hrest⟩

/-- The page ends where it starts or at one of its records. -/
theorem reached_pageEnd (h : Serial S w wal) (lo hi n : Nat) :
    Reached wal lo (pageEnd (((S.rows wal).changesBetween lo hi).take n) lo) := by
  have hsorted : (((S.rows wal).changesBetween lo hi).take n).Pairwise fun a b => a.1 < b.1 :=
    (Db.changesBetween_sorted lo hi).sublist (List.take_sublist ..)
  rcases @pageEnd_eq _ lo hsorted with ⟨_, hend⟩ | ⟨r, hr, hend, _⟩
  · exact ⟨hend.ge, .inl hend.le⟩
  · obtain ⟨hlo, _, hc⟩ := Db.mem_changesBetween.mp (List.mem_of_mem_take hr)
    exact ⟨hend ▸ hlo.le, .inr ⟨r, h.feedInv.present r.1 r.2 hc, hend.le⟩⟩

theorem BuiltBetween.page {wal₀ : Journal} {after limit : Nat} {built : BuiltPage}
    (h : BuiltBetween S wal₀ wal after limit built) (hserial : Serial S w wal) :
    PageOf S wal₀ wal after built.pageEndSeq built.items := by
  obtain ⟨w₁, w₂, w₃, h₀, h₁, h₂, h₃, _, hrule, hitems, hend, _⟩ := h
  refine ⟨w₂, h₀.trans h₁, h₂.trans h₃, hrule, ?_, ?_⟩
  · rw [hend, hitems]
    exact reached_pageEnd (hserial.of_prefix (h₂.trans h₃)) ..
  · rw [hend, hitems, Db.changesBetween_pageEnd]

/-- The snapshot of a page reaches every Change that is there. -/
theorem Db.le_snapshotMaxSeq {seq : Nat} {c : ChangeRecord} (h : db.change seq = some c)
    (after : Nat) : seq ≤ db.snapshotMaxSeq after := by
  have hseq : seq ∈ db.seqs := Db.mem_seqs.mpr (by rw [h]; rfl)
  obtain ⟨m, hm⟩ := Option.isSome_iff_exists.mp (List.isSome_max?_of_mem hseq)
  have hmax : seq ≤ m := (List.max?_eq_some_iff.mp hm).2 _ hseq
  rw [Db.snapshotMaxSeq, hm, Option.getD_some]
  omega

/-- A page that was built while a Change was there has the Change, if it starts
below it, or is full before it gets there. -/
theorem BuiltBetween.covers {wal₀ : Journal} {after limit : Nat} {built : BuiltPage}
    (h : BuiltBetween S wal₀ wal after limit built) {r : Nat × ChangeRecord}
    (hrows : ∀ wal', wal₀ <+: wal' → wal' <+: wal → (S.rows wal').change r.1 = some r.2)
    (hlt : after < r.1) :
    r ∈ built.items ∨ built.items.length = limit ∧ built.pageEndSeq < r.1 := by
  obtain ⟨w₁, w₂, w₃, h₀, h₁, h₂, h₃, hsnapshot, _, hitems, hend, _⟩ := h
  have hw₂ : w₂ <+: wal := h₂.trans h₃
  have hle : r.1 ≤ built.snapshotMaxSeq := by
    rw [hsnapshot]
    exact Db.le_snapshotMaxSeq (hrows w₁ h₀ (h₁.trans hw₂)) after
  have hmem : r ∈ (S.rows w₂).changesBetween after built.snapshotMaxSeq :=
    Db.mem_changesBetween.mpr ⟨hlt, hle, hrows w₂ (h₀.trans h₁) hw₂⟩
  have hsorted := (S.rows w₂).changesBetween_sorted after built.snapshotMaxSeq
  rw [← List.take_append_drop limit ((S.rows w₂).changesBetween after built.snapshotMaxSeq),
    ← hitems] at hmem hsorted
  rcases List.mem_append.mp hmem with hin | hout
  · exact .inl hin
  right
  -- what was cut off comes after the page
  obtain ⟨hpage, _, hacross⟩ := List.pairwise_append.mp hsorted
  constructor
  · rw [hitems, List.length_take]
    have := List.length_pos_of_mem hout
    rw [List.length_drop] at this
    omega
  · rcases @pageEnd_eq _ after hpage with ⟨_, he⟩ | ⟨last, hlast, he, _⟩
    · omega
    · have := hacross last hlast r hout
      omega

/-- A page that was built after a Change was committed has a Change, if it
starts below that one. -/
theorem BuiltBetween.progress {wal₀ : Journal} {after limit : Nat} {built : BuiltPage}
    (h : BuiltBetween S wal₀ wal after limit built) (hlimit : 1 ≤ limit)
    {r : Nat × ChangeRecord}
    (hrows : ∀ wal', wal₀ <+: wal' → wal' <+: wal → (S.rows wal').change r.1 = some r.2)
    (hlt : after < r.1) : built.items ≠ [] := by
  intro hnil
  rcases h.covers hrows hlt with hmem | ⟨hlen, _⟩
  · rw [hnil] at hmem
    exact absurd hmem List.not_mem_nil
  · rw [hnil, List.length_nil] at hlen
    omega

/-- A page ends where it starts, or at a record of the feed. -/
theorem BuiltBetween.end_eq {wal₀ : Journal} {after limit : Nat} {built : BuiltPage}
    (h : BuiltBetween S wal₀ wal after limit built) (hserial : Serial S w wal) :
    built.items = [] ∧ built.pageEndSeq = after ∨
      ∃ r ∈ feed wal, after < r.1 ∧ built.pageEndSeq = r.1 := by
  obtain ⟨w₁, w₂, w₃, h₀, h₁, h₂, h₃, _, _, hitems, hend, _⟩ := h
  have hw₂ : w₂ <+: wal := h₂.trans h₃
  have hsorted : built.items.Pairwise fun a b => a.1 < b.1 := by
    rw [hitems]
    exact ((S.rows w₂).changesBetween_sorted _ _).sublist (List.take_sublist ..)
  rcases @pageEnd_eq _ after hsorted with ⟨hnil, he⟩ | ⟨last, hlast, he, _⟩
  · exact .inl ⟨hnil, hend.trans he⟩
  · rw [hitems] at hlast
    obtain ⟨hlt, _, hrow⟩ := Db.mem_changesBetween.mp (List.mem_of_mem_take hlast)
    have hmem := (hserial.of_prefix hw₂).feedInv.present last.1 last.2 hrow
    exact .inr ⟨last, (feed_mono hw₂).subset hmem, hlt, hend.trans he⟩

/-! ## Cursors -/

/-- The cursor was handed out for this position. -/
def Issued (S : Setting) (wal : Journal) (id : CursorId) (e : Nat) : Prop :=
  ∃ wal₁ c, wal₁ <+: wal ∧ (S.rows wal₁).cursor id = some c ∧ c.afterSeq = e

theorem Issued.mono {id : CursorId} {e : Nat} (h : Issued S wal id e) (hp : wal <+: wal') :
    Issued S wal' id e := by
  obtain ⟨wal₁, c, hwal, hc⟩ := h
  exact ⟨wal₁, c, hwal.trans hp, hc⟩

/-- The position of a cursor is fixed, and so is its page once it has one. -/
def Kept (c c' : CursorRow) : Prop :=
  c'.afterSeq = c.afterSeq ∧ (c.materialized = true → c' = c)

theorem Kept.refl (c : CursorRow) : Kept c c := ⟨rfl, fun _ => rfl⟩

theorem Kept.trans {c₁ c₂ c₃ : CursorRow} (h : Kept c₁ c₂) (h' : Kept c₂ c₃) : Kept c₁ c₃ := by
  refine ⟨h'.1.trans h.1, fun hm => ?_⟩
  obtain rfl := h.2 hm
  exact h'.2 hm

/-- There was a time when one cursor existed and the other did not. -/
def Older (S : Setting) (wal : Journal) (id id' : CursorId) : Prop :=
  ∃ wal₁, wal₁ <+: wal ∧ ((S.rows wal₁).cursor id).isSome ∧ (S.rows wal₁).cursor id' = none

theorem Older.mono {id id' : CursorId} (h : Older S wal id id') (hp : wal <+: wal') :
    Older S wal' id id' := by
  obtain ⟨wal₁, hwal, h⟩ := h
  exact ⟨wal₁, hwal.trans hp, h⟩

/-- The page that a cursor is bound to. -/
structure Bound (S : Setting) (wal : Journal) (id : CursorId) (c : CursorRow) : Prop where
  built : ∃ wal₀ c₀ built limit next, (S.rows wal₀).cursor id = some c₀ ∧ c₀.materialized = false ∧
    BuiltBetween S wal₀ wal c.afterSeq limit built ∧ c = c₀.materialize limit built next ∧
    Issued S wal next built.pageEndSeq ∧ Older S wal id next

theorem Bound.mono {id : CursorId} {c : CursorRow} (h : Bound S wal id c) (hp : wal <+: wal') :
    Bound S wal' id c := by
  obtain ⟨wal₀, c₀, built, limit, next, hc₀, hm, hb, hc, hi, ho⟩ := h
  exact ⟨wal₀, c₀, built, limit, next, hc₀, hm, hb.mono hp, hc, hi.mono hp, ho.mono hp⟩

/-- The journal entry is a purge that takes this cursor. -/
def Expires (id : CursorId) (e : Label × List Write) : Prop :=
  (∃ now, e.1 = .purgeChangeCursors now) ∧ written e.2 (.cursor id) ≠ none

/-- What a commit that leads to the journal `wal` does to a cursor. -/
inductive CursorStep (S : Setting) (wal : Journal) (expires : Prop) (id : CursorId) :
    Option CursorRow → Option CursorRow → Prop
  | same (c) : CursorStep S wal expires id c c
  | issued {c} (hc : c.materialized = false) : CursorStep S wal expires id none (some c)
  | bound {c} {built : BuiltPage} {limit : Nat} {next : CursorId} (hc : c.materialized = false)
      (hbound : Bound S wal id (c.materialize limit built next)) :
      CursorStep S wal expires id (some c) (some (c.materialize limit built next))
  | expired {c} (h : expires) : CursorStep S wal expires id c none

theorem CursorStep.of_written {expires : Prop} {id : CursorId} {ws : List Write}
    (h : ∀ w ∈ ws, w.1.table ≠ .cursors) :
    CursorStep S wal expires id (db.cursor id) (Db.cursor (replay ws db) id) := by
  have hnone : written ws (.cursor id) = none := by
    rw [written_eq_none_iff, List.mem_map]
    rintro ⟨w, hw, he⟩
    exact h w hw (by rw [he]; rfl)
  rw [cursor_replay, hnone]
  exact .same _

theorem OnTable.cursorStep {T : Table} {expires : Prop} {id : CursorId} {ws : List Write}
    (h : OnTable T ws) (hT : T ≠ .cursors) :
    CursorStep S wal expires id (db.cursor id) (Db.cursor (replay ws db) id) :=
  .of_written (h.ne hT)

theorem written_cursor (id : CursorId) (c : Option CursorRow) (ws : List Write) (x : CursorId) :
    written (⟨.cursor id, c⟩ :: ws) (.cursor x) =
      if id = x then (written ws (.cursor x)).or (some c) else written ws (.cursor x) := by
  split
  · next hx =>
    subst hx
    exact written_cons_self _ _ _
  · next hx => exact written_cons_ne (fun he => hx (Row.cursor.inj he)) _ _

/-- **Step.** -/
theorem Commits.cursorStep {ws : List Write} (h : Commits S w wal (S.rows wal) label ws)
    (id : CursorId) : CursorStep S (wal ++ [(label, ws)]) (Expires id (label, ws)) id
      ((S.rows wal).cursor id) (Db.cursor (replay ws (S.rows wal)) id) := by
  have hfin : ∀ {fin : List Write}, OnTable .idempotency fin → ∀ {records},
      ∀ w ∈ changeWrites records ++ fin, w.1.table ≠ .cursors := fun h _ =>
    List.forall_mem_append.mpr ⟨(onTable_changeWrites _).ne (by decide), h.ne (by decide)⟩
  have hgcs : ∀ blobs notBefore, ∀ w ∈ enqueues blobs notBefore, w.1.table ≠ .cursors :=
    fun blobs notBefore => (onTable_enqueues blobs notBefore).ne (by decide)
  cases h with
  | createObject cmd hfresh hparent hfolder hrecords hfinal =>
    exact .of_written (List.forall_mem_cons.mpr ⟨by simp, hfin hfinal.onTable⟩)
  | patchObject cmd hlive hheld hmatch hroot htarget hchanged hdestination hwalk hrecords hfinal =>
    exact .of_written (List.forall_mem_cons.mpr ⟨by simp, hfin hfinal.onTable⟩)
  | @deleteObject cmd current targets rows records fin hlive hmatch hself hroot hnodup hclosed
      hbelow hordered hrows hdistinct hrecords hfinal =>
    exact .of_written (List.forall_mem_append.mpr ⟨(onTable_objects _ _ _).ne (by decide),
      List.forall_mem_append.mpr ⟨hgcs _ _, hfin hfinal.onTable⟩⟩)
  | @commitContent cmd upload current records fin hupload hstate htarget hblob hlive hfile
      hmatch hrecords hfinal =>
    exact .of_written (List.forall_mem_cons.mpr ⟨by simp, List.forall_mem_append.mpr
      ⟨hgcs _ _, List.forall_mem_cons.mpr ⟨by simp, hfin hfinal.onTable⟩⟩⟩)
  | unpatched cmd _ _ hfinal | uncommitted cmd _ _ _ _ _ _ _ hfinal => exact hfinal.onTable.cursorStep (by decide)
  | complete req hfinal => exact hfinal.onTable.cursorStep (by decide)
  | createUploadRecord | updateUploadState | finishGc | failGc | claim | steal | release =>
    exact .of_written (by simp [gcWrite, idempotencyWrite])
  | abortUploadRecord cmd hupload hstate hgc =>
    rcases hgc with rfl | ⟨rfl, _⟩
    · exact .of_written (List.forall_mem_cons.mpr ⟨by simp, hgcs _ _⟩)
    · exact .of_written (by simp)
  | @claimGcBatch now limit entries hentries =>
    exact (OnTable.map entries (fun e => .gc e.1.1 e.1.2) (fun e => some e.2)
      fun _ => rfl).cursorStep (by decide)
  | @claimExpiredUploads now limit uploads huploads hdistinct =>
    exact .of_written (List.forall_mem_append.mpr ⟨(OnTable.map uploads (fun e => .upload e.1)
      (fun e => some e.2.expired) fun _ => rfl).ne (by decide), hgcs _ _⟩)
  | @purgeIdempotencyRecords now keys =>
    exact (OnTable.map keys (fun k => .idempotency k.1 k.2.1 k.2.2) (fun _ => none)
      fun _ => rfl).cursorStep (by decide)
  | purgeChanges olderThan => exact .of_written (purge_table_ne (by decide) (by decide))
  | @firstRead req next row hfresh hrow =>
    rw [cursor_replay, written_cursor]
    split
    · next hid =>
      subst hid
      rw [hfresh]
      exact .issued hrow
    · exact .same _
  | @nextRead req cursor next c row built wal₀ hcursor hc hfresh hrow hend hissued hbuilt =>
    have hne : next ≠ cursor := by
      rintro rfl
      rw [hfresh] at hcursor
      cases hcursor
    have hnew : (S.rows (wal ++ [(.readChanges req, [⟨.cursor next, some row⟩, ⟨.cursor cursor,
        some (c.materialize req.limit built next)⟩])])).cursor next = some row := by
      rw [Setting.rows_snoc, cursor_replay, written_cursor, if_pos rfl, written_cursor,
        if_neg (Ne.symm hne)]
      rfl
    rw [cursor_replay, written_cursor, written_cursor]
    by_cases hid : cursor = id
    · subst hid
      rw [if_neg hne, if_pos rfl, hcursor]
      exact .bound hc ⟨wal₀, c, built, req.limit, next, hissued, hc,
        hbuilt.mono (List.prefix_append ..), rfl, ⟨_, row, List.prefix_rfl, hnew, hend⟩,
        wal, List.prefix_append .., by rw [hcursor]; rfl, hfresh⟩
    · rw [if_neg hid]
      by_cases hid' : next = id
      · subst hid'
        rw [if_pos rfl, hfresh]
        exact .issued hrow
      · rw [if_neg hid']
        exact .same _
  | @purgeChangeCursors now ids =>
    rw [cursor_replay]
    cases hw : written (ids.map fun id => (⟨.cursor id, none⟩ : Write)) (.cursor id) with
    | none => exact .same _
    | some c =>
      obtain ⟨k, _, he⟩ := List.mem_map.mp (mem_of_written hw)
      have hnone := congrArg (fun w : Write => w.2.isSome) he
      obtain rfl : c = none := by
        cases c with
        | none => rfl
        | some c => cases hnone
      exact .expired ⟨⟨now, rfl⟩, by rw [hw]; simp⟩

/-! ## Runs -/

/-- Every cursor that was read is bound to its page. -/
theorem Serial.bound (h : Serial S w wal) {id : CursorId} {c : CursorRow}
    (hc : (S.rows wal).cursor id = some c) (hm : c.materialized = true) : Bound S wal id c := by
  induction h generalizing c with
  | nil =>
    rw [Setting.rows_nil, Db.cursor, lookup_initialDb _ (by simp) (by simp)] at hc
    cases hc
  | @snoc wal label ws _ hcommit ih =>
    have hstep := hcommit.cursorStep id
    rw [← Setting.rows_snoc S wal label ws, hc] at hstep
    generalize hold : (S.rows wal).cursor id = old at hstep
    cases hstep with
    | same => exact (ih hold hm).mono (List.prefix_append ..)
    | issued hn =>
      rw [hn] at hm
      cases hm
    | bound _ hbound => exact hbound

/-- No purge in the journal takes the cursor. -/
def Unexpired (id : CursorId) (wal : Journal) : Prop := ∀ e ∈ wal, ¬ Expires id e

/-- **Run.** A cursor keeps its position and its page. -/
theorem Serial.kept (h : Serial S w wal') (hp : wal <+: wal') {id : CursorId} {c : CursorRow}
    (hc : (S.rows wal).cursor id = some c) (hexpires : Unexpired id wal') :
    ∃ c', (S.rows wal').cursor id = some c' ∧ Kept c c' := by
  induction h with
  | nil => exact ⟨c, List.prefix_nil.mp hp ▸ hc, .refl c⟩
  | @snoc wal₁ label ws _ hcommit ih =>
    rcases List.prefix_concat_iff.mp hp with rfl | hp
    · exact ⟨c, hc, .refl c⟩
    · obtain ⟨c₁, hc₁, hkept⟩ := ih hp fun e he => hexpires e (List.mem_append_left _ he)
      have hstep := hcommit.cursorStep id
      rw [hc₁] at hstep
      rw [Setting.rows_snoc]
      generalize Db.cursor (replay ws (S.rows wal₁)) id = new at hstep
      cases hstep with
      | same => exact ⟨c₁, rfl, hkept⟩
      | bound hm _ =>
        refine ⟨_, rfl, hkept.trans ⟨rfl, fun h => ?_⟩⟩
        rw [hm] at h
        cases h
      | expired h => exact absurd h (hexpires _ (List.mem_append_right _ (List.mem_singleton_self _)))

/-- An age is an order on the cursors that are not purged. -/
theorem Serial.older_trans (h : Serial S w wal) {id id' id'' : CursorId}
    (hexpires : Unexpired id wal) (hexpires' : Unexpired id' wal) (ho : Older S wal id id')
    (ho' : Older S wal id' id'') : Older S wal id id'' := by
  obtain ⟨wal₁, h₁, hid, hnone⟩ := ho
  obtain ⟨wal₂, h₂, hid', hnone'⟩ := ho'
  obtain ⟨c, hc⟩ := Option.isSome_iff_exists.mp hid
  obtain ⟨c', hc'⟩ := Option.isSome_iff_exists.mp hid'
  rcases List.prefix_or_prefix_of_prefix h₁ h₂ with hp | hp
  · -- the oldest of the three is still there
    obtain ⟨c₂, hc₂, _⟩ := (h.of_prefix h₂).kept hp hc fun e he => hexpires e (h₂.subset he)
    exact ⟨wal₂, h₂, by rw [hc₂]; rfl, hnone'⟩
  · obtain ⟨c₂, hc₂, _⟩ := (h.of_prefix h₁).kept hp hc' fun e he => hexpires' e (h₁.subset he)
    rw [hnone] at hc₂
    cases hc₂

theorem Older.irrefl {id : CursorId} (h : Older S wal id id) : False := by
  obtain ⟨wal₁, _, hid, hnone⟩ := h
  rw [hnone] at hid
  cases hid

/-- Two rows of one cursor, at whatever time they were seen. -/
theorem Serial.cursor_agree (h : Serial S w wal) {id : CursorId} {c₁ c₂ : CursorRow}
    (h₁ : wal₁ <+: wal) (h₂ : wal₂ <+: wal) (hc₁ : (S.rows wal₁).cursor id = some c₁)
    (hc₂ : (S.rows wal₂).cursor id = some c₂) (hexpires : Unexpired id wal) :
    c₁.afterSeq = c₂.afterSeq ∧
      (c₁.materialized = true → c₂.materialized = true → c₁ = c₂) := by
  obtain ⟨c, hc, hkept₁⟩ := h.kept h₁ hc₁ hexpires
  obtain ⟨c', hc', hkept₂⟩ := h.kept h₂ hc₂ hexpires
  obtain rfl : c = c' := Option.some.inj (hc.symm.trans hc')
  exact ⟨hkept₁.1.symm.trans hkept₂.1, fun hm hm' => (hkept₁.2 hm).symm.trans (hkept₂.2 hm')⟩

end AnyStore
