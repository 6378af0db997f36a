import AnyStore.Refinement.Maintenance

/-!
# Reading the feed

A read takes the watermark first, then the cursor's row lock, then the page.
The row lock makes the first read of a cursor the only one that builds a page.
-/

namespace AnyStore

open ReadCommitted

variable {S : Setting} {t : Nat} {s s₁ s₂ s₃ : DbState} {sess : Session Row.Val Label} {α : Type}
variable {F : DomainError → DbState → Prop}

/-! ## Outside -/

/-- A step of the world is progress. -/
theorem Onward.move {w : World} (hgrows : s.world.Grows w) : Onward t s (s.move t w) :=
  ⟨.move hgrows, .of_same rfl, fun sess hs =>
    ⟨.of_same sess rfl rfl, sess, hs, fun _ h => h, id⟩⟩

/-- A step of the world inside a transaction. -/
theorem txp_outside {label : Label} {f : Env → World → Option (α × World)}
    {P : α → DbState → Prop} (hs : s.session t = some sess)
    (h : ∀ s₁ e a w, StoreInv S s₁ → f e s₁.world = some (a, w) →
      s₁.world.Grows w ∧ WorldInv S s₁.wal w ∧
      (Reaches S t sess s [] sess (s₁.move t w) → P a (s₁.move t w))) :
    txpOr (contract S) t F (outside label f) P s := by
  intro s₁ hr hi _ ch a s₂ he
  have he : exec liveNameUq t ch (.world ⟨label, f⟩) s₁ = some (a, s₂) := he
  obtain ⟨w, hf, rfl⟩ := exec_world he
  obtain ⟨hgrows, hw, hp⟩ := h s₁ ch.world a w hi hf
  have hi₂ : StoreInv S (s₁.move t w) := hi.move hgrows hw
  refine ⟨.world w hgrows rfl, hi₂, hp ⟨hr.onward.trans (.move hgrows), hi₂, ?_, rfl,
    (List.append_nil _).symm⟩⟩
  exact hr.session.trans hs

/-- Session `t` has drawn the id, and no row has it yet. -/
structure FreshCursor (t : Nat) (id : CursorId) (s : DbState) : Prop where
  owned : OwnsCursor t id s
  unused : Db.cursor s.db id = none

/-- A fresh cursor stays fresh while its id is unused, -/
theorem FreshCursor.mono {id : CursorId} (h : FreshCursor t id s) (hunused : Unused t s s')
    (hl : Later s s') : FreshCursor t id s' :=
  ⟨h.owned.mono hl.moves, hunused id h.owned h.unused⟩

/-- and so it does for the transaction that drew it. -/
theorem FreshCursor.onward {id : CursorId} (h : FreshCursor t id s) (hon : Onward t s s') :
    FreshCursor t id s' := h.mono hon.unused hon.later

/-- A ULID is drawn once. -/
theorem ulid_draws {use : Option TokenUse} {wal : Journal} {w w' : World} {e : Env} {id : String}
    (h : (if e.fresh ≠ "" ∧ e.fresh ∉ w.ulids.map Prod.fst then
      some (e.fresh, { w with ulids := (e.fresh, use) :: w.ulids }) else none) = some (id, w'))
    (hw : WorldInv S wal w) :
    w.Grows w' ∧ WorldInv S wal w' ∧ (id, use) ∈ w'.ulids ∧ ¬ w.Drew id := by
  split at h
  · next hfresh =>
    cases h
    refine ⟨⟨fun x hx => List.mem_cons_of_mem _ hx, fun _ hb => hb, fun _ hid => hid⟩,
      ⟨?_, hw.deleted, hw.signed, hw.completions⟩, List.mem_cons_self .., hfresh.2⟩
    exact List.nodup_cons.mpr ⟨hfresh.2, hw.ulids⟩
  · cases h

/-- A new ULID names no cursor. -/
theorem StoreInv.freshCursor (hi : StoreInv S s) {use : Option TokenUse} {w : World} {id : String}
    (hnew : ¬ s.world.Drew id) (hmem : (id, use) ∈ w.ulids) :
    FreshCursor t (CursorId.pre ++ id) (s.move t w) := by
  refine ⟨⟨⟨t, s.world, w⟩, List.mem_cons_self .., id, rfl, rfl, hnew, List.mem_map_of_mem hmem⟩, ?_⟩
  show Db.cursor s.db (CursorId.pre ++ id) = none
  rw [← Option.not_isSome_iff_eq_none]
  intro hrow
  -- the id of a cursor was drawn before
  obtain ⟨u, m, hm, ulid, _, hid, _, hafter⟩ := hi.cursors _ hrow
  obtain rfl : id = ulid := (String.append_right_inj _).mp hid
  exact hnew (hafter.mono (hi.ledger.below m hm))

/-- The id that was drawn is fresh. -/
theorem txp_ulid {use : Option TokenUse} {P : String → DbState → Prop}
    (hs : s.session t = some sess) (h : ∀ id s₂, Reaches S t sess s [] sess s₂ →
      FreshCursor t (CursorId.pre ++ id) s₂ → P id s₂) :
    txpOr (contract S) t F (ulid use) P s := by
  refine txp_outside hs fun s₁ e id w hi hf => ?_
  obtain ⟨hgrows, hw, hmem, hnew⟩ := ulid_draws hf hi.world
  exact ⟨hgrows, hw, fun hr => h id _ hr (hi.freshCursor hnew hmem)⟩

/-- The id that was drawn is fresh, outside of transactions, too. -/
theorem serves_ulid {use : Option TokenUse} {P : String → DbState → Prop}
    (hs : s.session t = none)
    (h : ∀ id s₂, Later s s₂ → s₂.session t = none → (id, use) ∈ s₂.world.ulids →
      FreshCursor t (CursorId.pre ++ id) s₂ → P id s₂) :
    Serves S t (ulid use) P s := by
  refine serves_outside hs fun s₁ e id w hl hi hs₁ hf => ?_
  obtain ⟨hgrows, hw, hmem, hnew⟩ := ulid_draws hf hi.world
  exact ⟨hgrows, hw, h id _ (hl.trans (.move hgrows)) hs₁ hmem (hi.freshCursor hnew hmem)⟩

/-! ## Building -/

variable {a : Adapter}

/-- **Page.** A page is built between the beginning and the end of its statements. -/
theorem txp_buildPage {after limit : Nat} {P : BuiltPage → DbState → Prop}
    (hs : s.session t = some sess) (hlog : sess.log = [])
    (h : ∀ built s₂, Reaches S t sess s [] sess s₂ →
      BuiltBetween S s.wal s₂.wal after limit built → P built s₂) :
    txpOr (contract S) t F (a.buildPage after limit) P s := by
  -- the driver asks in four statements with four snapshots, the procedure in one
  cases a with
  | sqlx =>
    refine txp_seq (txp_select hs fun s₁ hr₁ => ?_)
    rw [hlog, replay_nil]
    refine txp_seq (txp_read hr₁.session (fun _ _ => rfl) fun s₂ hr₂ hrule => ?_)
    rw [hlog, replay_nil]
    refine txp_seq (txp_select hr₂.session fun s₃ hr₃ => ?_)
    rw [hlog, replay_nil]
    refine txp_seq (txp_select hr₃.session fun s₄ hr₄ => ?_)
    refine h _ s₄ (((hr₁.trans hr₂).trans hr₃).trans hr₄) ⟨s₁.wal, s₂.wal, s₃.wal,
      hr₁.onward.later.wal, hr₂.onward.later.wal, hr₃.onward.later.wal, hr₄.onward.later.wal, ?_, ?_,
      ?_, rfl, ?_⟩
    · rw [hr₁.inv.db]
    · rw [← hr₂.inv.db]
      exact hrule
    · rw [hr₂.inv.db]
    · rw [← hr₃.inv.db]
  | rpc =>
    refine txp_read hs (fun _ _ => rfl) fun s₁ hr₁ hrule => ?_
    rw [hlog, replay_nil]
    refine h _ s₁ hr₁ ⟨s₁.wal, s₁.wal, s₁.wal, hr₁.onward.later.wal, List.prefix_rfl,
      List.prefix_rfl, List.prefix_rfl, ?_, ?_, ?_, rfl, ?_⟩
    · rw [hr₁.inv.db]
    · rw [← hr₁.inv.db]
      exact hrule
    · rw [hr₁.inv.db]
    · rw [hr₁.inv.db]

/-- The id of the next cursor: the one that was given, or a new one. -/
theorem txp_cursorId {given : Option CursorId} {P : CursorId → DbState → Prop}
    (hs : s.session t = some sess) (hi : StoreInv S s) (hgiven : ∀ id ∈ given, FreshCursor t id s)
    (h : ∀ id s₂, Reaches S t sess s [] sess s₂ → FreshCursor t id s₂ → P id s₂) :
    txpOr (contract S) t F (cursorId given) P s := by
  cases given with
  | some id => exact h id s (.refl hs hi) (hgiven id rfl)
  | none => exact txp_seq (txp_ulid hs fun id s₂ hr hfresh => h _ s₂ hr hfresh)

/-- Why a read is refused although no call of it failed. -/
inductive ReadRefused (S : Setting) (wal₀ wal : Journal) (req : ReadChanges) : DomainError → Prop
  | malformed (cursor : CursorId) (hcursor : req.cursor = some cursor)
      (hform : CursorId.isWellFormed cursor = false) :
      ReadRefused S wal₀ wal req (.invalidRequest "Invalid cursor.")
  /-- The cursor has U+0000 in it. -/
  | unbindable (cursor : CursorId) (hcursor : req.cursor = some cursor)
      (htext : isText cursor = false) : ReadRefused S wal₀ wal req (mapSqlx .other)
  | gone (cursor : CursorId) (wal₁ : Journal) (hcursor : req.cursor = some cursor)
      (h₀ : wal₀ <+: wal₁) (h₁ : wal₁ <+: wal) (hrow : (S.rows wal₁).cursor cursor = none) :
      ReadRefused S wal₀ wal req .changesCursorExpired
  /-- Its time has passed, or it stands behind the watermark. -/
  | expired (cursor : CursorId) (wal₁ wal₂ : Journal) (c : CursorRow) (mark : Nat)
      (hcursor : req.cursor = some cursor) (h₀ : wal₀ <+: wal₁) (h₁ : wal₁ <+: wal₂)
      (h₂ : wal₂ <+: wal) (hmark : (S.rows wal₁).purgedThrough = some mark)
      (hrow : (S.rows wal₂).cursor cursor = some c)
      (hexpired : c.expiresAt ≤ req.now ∨ c.afterSeq < mark) :
      ReadRefused S wal₀ wal req .changesCursorExpired
  | otherLimit (cursor : CursorId) (wal₁ : Journal) (c : CursorRow)
      (hcursor : req.cursor = some cursor) (h₀ : wal₀ <+: wal₁) (h₁ : wal₁ <+: wal)
      (hrow : (S.rows wal₁).cursor cursor = some c) (hm : c.materialized = true)
      (hlimit : c.pageLimit ≠ some req.limit) :
      ReadRefused S wal₀ wal req
        (.invalidRequest "This cursor was already read with a different limit.")

/-- A refusal is justified later, too, -/
theorem ReadRefused.mono {wal₀ wal wal' : Journal} {req : ReadChanges} {e : DomainError}
    (h : ReadRefused S wal₀ wal req e) (hp : wal <+: wal') : ReadRefused S wal₀ wal' req e := by
  cases h with
  | malformed cursor hcursor hform => exact .malformed cursor hcursor hform
  | unbindable cursor hcursor htext => exact .unbindable cursor hcursor htext
  | gone cursor wal₁ hcursor h₀ h₁ hrow => exact .gone cursor wal₁ hcursor h₀ (h₁.trans hp) hrow
  | expired cursor wal₁ wal₂ c mark hcursor h₀ h₁ h₂ hmark hrow hexpired =>
    exact .expired cursor wal₁ wal₂ c mark hcursor h₀ h₁ (h₂.trans hp) hmark hrow hexpired
  | otherLimit cursor wal₁ c hcursor h₀ h₁ hrow hm hlimit =>
    exact .otherLimit cursor wal₁ c hcursor h₀ (h₁.trans hp) hrow hm hlimit

/-- A refused read was refused later, too. -/
theorem ReadRefused.of_prefix {wal₀ wal₁ wal : Journal} {req : ReadChanges} {e : DomainError}
    (h : ReadRefused S wal₁ wal req e) (hp : wal₀ <+: wal₁) : ReadRefused S wal₀ wal req e := by
  cases h with
  | malformed cursor hcursor hform => exact .malformed cursor hcursor hform
  | unbindable cursor hcursor htext => exact .unbindable cursor hcursor htext
  | gone cursor wal₂ hcursor h₀ h₁ hrow => exact .gone cursor wal₂ hcursor (hp.trans h₀) h₁ hrow
  | expired cursor wal₂ wal₃ c mark hcursor h₀ h₁ h₂ hmark hrow hexpired =>
    exact .expired cursor wal₂ wal₃ c mark hcursor (hp.trans h₀) h₁ h₂ hmark hrow hexpired
  | otherLimit cursor wal₂ c hcursor h₀ h₁ hrow hm hlimit =>
    exact .otherLimit cursor wal₂ c hcursor (hp.trans h₀) h₁ hrow hm hlimit

/-- The reasons of a read that began at `wal₀`. -/
abbrev Refusal (S : Setting) (wal₀ : Journal) (req : ReadChanges) (e : DomainError) (s : DbState) :
    Prop :=
  ReadRefused S wal₀ s.wal req e

/-- A page and the cursor at its end, whose id nobody else has. -/
theorem txp_freshPage {req : ReadChanges} {given : Option CursorId} {after : Nat} {wal₀ : Journal}
    {P : BuiltPage × CursorId → DbState → Prop} (hs : s.session t = some sess)
    (hlog : sess.log = []) (hgiven : ∀ id ∈ given, FreshCursor t id s)
    (h : ∀ built next row sess₂ s₂, Reaches S t sess s [⟨.cursor next, some row⟩] sess₂ s₂ →
      BuiltBetween S s.wal s₂.wal after req.limit built → row.afterSeq = built.pageEndSeq →
      row.materialized = false → FreshCursor t next s₂ → P (built, next) s₂) :
    txpOr (contract S) t (Refusal S wal₀ req) (freshPage a req given after) P s := by
  refine txp_seq (txp_buildPage hs hlog fun built s₁ hr₁ hbuilt => ?_)
  refine txp_seq (txp_cursorId hr₁.session hr₁.inv
    (fun id hid => (hgiven id hid).onward hr₁.onward) fun next s₂ hr₂ hfresh => ?_)
  refine txp_seq (txpOr_run hr₂.session (fun s₃ scan ans hr₃ _ ha => ?_) fun s₃ e hr₃ he => ?_)
  swap
  · -- only a row in its place would make the insert fail
    obtain ⟨scan, herror⟩ := refuses_run he fun scan ans ha w hw => by
      simp only [insertCursor, statement] at ha
      split at ha
      · cases ha
      · obtain rfl := Except.ok.inj ha
        obtain rfl := List.mem_singleton.mp hw
        intro h
        cases h
    simp only [insertCursor, statement, hlog, replay_nil] at herror
    rw [(hfresh.onward hr₃.onward).unused] at herror
    cases herror
  simp only [insertCursor, statement, hlog, replay_nil] at ha
  rw [(hfresh.onward hr₃.onward).unused] at ha
  obtain rfl := Except.ok.inj ha
  exact h built next _ _ s₃ ((hr₁.trans hr₂).trans hr₃)
    (hbuilt.mono (hr₂.onward.later.wal.trans hr₃.onward.later.wal)) rfl rfl
    (hfresh.onward hr₃.onward)

/-! ## Reading -/

/-- What an answered read has returned: a page of the store, behind what was
purged when it began, with the cursor at its end. A read with a cursor returns
the page that the cursor is bound to. -/
def ReadSpec (S : Setting) (wal₀ wal : Journal) (req : ReadChanges) (page : ChangePage) : Prop :=
  ∃ wal₁ mark after e items, wal₀ <+: wal₁ ∧ (S.rows wal₁).purgedThrough = some mark ∧
    mark ≤ after ∧ PageOf S wal₁ wal after e items ∧ page.items = items.map Prod.snd ∧
    Issued S wal page.nextCursor e ∧
    match req.cursor with
    | none => after = mark ∧ ∃ built, BuiltBetween S wal₁ wal after req.limit built ∧
        built.pageEndSeq = e ∧ built.items = items ∧ built.hasMore = page.hasMore
    | some cursor => ∃ wal₂ c, wal₂ <+: wal ∧ (S.rows wal₂).cursor cursor = some c ∧
        c.materialized = true ∧ c.afterSeq = after ∧ c.pageLimit = some req.limit ∧
        c.pageEndSeq = some e ∧ c.hasMore = some page.hasMore ∧
        c.nextCursorId = some page.nextCursor

/-- and so is a page. -/
theorem ReadSpec.mono {wal₀ wal wal' : Journal} {req : ReadChanges} {page : ChangePage}
    (h : ReadSpec S wal₀ wal req page) (hp : wal <+: wal') : ReadSpec S wal₀ wal' req page := by
  obtain ⟨wal₁, mark, after, e, items, h₀, hmark, hle, hpage, hitems, hissued, hrest⟩ := h
  refine ⟨wal₁, mark, after, e, items, h₀, hmark, hle, hpage.mono hp, hitems, hissued.mono hp, ?_⟩
  cases hc : req.cursor with
  | none =>
    rw [hc] at hrest
    obtain ⟨he, built, hb, hbuilt⟩ := hrest
    exact ⟨he, built, hb.mono hp, hbuilt⟩
  | some cursor =>
    rw [hc] at hrest
    obtain ⟨wal₂, c, hwal, hrow⟩ := hrest
    exact ⟨wal₂, c, hwal.trans hp, hrow⟩

/-- The page of a cursor that was read before. -/
theorem txp_materializedPage {req : ReadChanges} {cursor : CursorId} {c : CursorRow} {mark : Nat}
    {wal₀ wal₁ : Journal} {P : ChangePage → DbState → Prop} (hs : s.session t = some sess)
    (hi : StoreInv S s) (hlog : sess.log = []) (hcursor : req.cursor = some cursor)
    (hwal₀ : wal₀ <+: wal₁) (hwal₁ : wal₁ <+: s.wal)
    (hmark : (S.rows wal₁).purgedThrough = some mark) (hle : mark ≤ c.afterSeq)
    (hrow : (S.rows s.wal).cursor cursor = some c) (hm : c.materialized = true)
    (h : ∀ page s₂, Reaches S t sess s [] sess s₂ → ReadSpec S wal₀ s₂.wal req page → P page s₂) :
    txpOr (contract S) t (Refusal S wal₀ req) (materializedPage req c) P s := by
  -- the row was bound to a page, so nothing of it is missing
  obtain ⟨_, _, built, limit, next', _, _, hbuilt, hbound, hnext', _⟩ :=
    (hi.serial.bound hrow hm).built
  have hend : c.pageEndSeq = some built.pageEndSeq := by
    rw [hbound]
    rfl
  have hmore : c.hasMore = some built.hasMore := by
    rw [hbound]
    rfl
  have hnextId : c.nextCursorId = some next' := by
    rw [hbound]
    rfl
  refine txp_seq (txpOr_require hs (fun hlimit => ?_) fun hlimit => ?_)
  swap
  · exact .otherLimit cursor s.wal c hcursor (hwal₀.trans hwal₁) List.prefix_rfl hrow hm hlimit
  refine txp_seq (txpOr_orFail hs (fun e he => ?_) fun he => ?_)
  swap
  · rw [hend] at he
    cases he
  refine txp_seq (txpOr_orFail hs (fun hasMore hhas => ?_) fun hhas => ?_)
  swap
  · rw [hmore] at hhas
    cases hhas
  refine txp_seq (txpOr_orFail hs (fun next hnext => ?_) fun hnext => ?_)
  swap
  · rw [hnextId] at hnext
    cases hnext
  refine txp_seq (txp_read hs (fun _ _ => rfl) fun s₂ hr₂ hrule => ?_)
  rw [hlog, replay_nil]
  refine txp_seq (txp_select hr₂.session fun s₃ hr₃ => ?_)
  have hwal₂ : s.wal <+: s₂.wal := hr₂.onward.later.wal
  have hwal₃ : s₂.wal <+: s₃.wal := hr₃.onward.later.wal
  -- the page was built before, and the cursor at its end was issued with it
  have hissued : Issued S s₃.wal next e ∧ Reached s₂.wal c.afterSeq e := by
    obtain ⟨w₂, _, hw₂, _, hreached, _⟩ := hbuilt.page hi.serial
    obtain rfl : built.pageEndSeq = e := Option.some.inj (hend.symm.trans he)
    obtain rfl : next' = next := Option.some.inj (hnextId.symm.trans hnext)
    exact ⟨hnext'.mono (hwal₂.trans hwal₃), hreached.mono (hw₂.trans hwal₂)⟩
  refine h _ s₃ (hr₂.trans hr₃) ⟨wal₁, mark, c.afterSeq, e, _, hwal₀, hmark, hle,
    ⟨s₂.wal, hwal₁.trans hwal₂, hwal₃, ?_, hissued.2, rfl⟩, ?_, hissued.1, ?_⟩
  · rw [← hr₂.inv.db]
    exact hrule
  · rw [← hr₂.inv.db]
  · rw [hcursor]
    exact ⟨s.wal, c, hwal₂.trans hwal₃, hrow, hm, rfl, hlimit, he, hhas, hnext⟩

/-- What comes of a read that began at `wal₀`: a page, or the reason for having
none, which is a failed call or one of `ReadRefused`. -/
def ReadResult (S : Setting) (t : Nat) (wal₀ : Journal) (req : ReadChanges) :
    Except DomainError ChangePage → DbState → Prop :=
  Results (fun page s' => ReadSpec S wal₀ s'.wal req page)
    fun e s' => t ∈ s'.failed ∨ ReadRefused S wal₀ s'.wal req e

/-- **Read.** It ends in a page or in a refusal that is justified. -/
theorem ends_readPage {req : ReadChanges} {given : Option CursorId} (hs : s.session t = none)
    (hgiven : ∀ id ∈ given, FreshCursor t id s) :
    Ends S t (readPage a req given) (ReadResult S t s.wal req) s := by
  refine servesOr_transaction hs (fun e s₁ s₂ hl h => h.mono hl.wal) fun s₁ hl hunused hi hs₁ => ?_
  refine txp_seq (txp_select hs₁ fun s₂ hr₂ => ?_)
  rw [replay_nil]
  have hgiven₂ : ∀ id ∈ given, FreshCursor t id s₂ :=
    fun id hid => ((hgiven id hid).mono hunused hl).onward hr₂.onward
  have hwal₂ : s.wal <+: s₂.wal := hl.wal.trans hr₂.onward.later.wal
  refine txp_seq (txpOr_orFail hr₂.session (fun mark hmark => ?_) fun hnone => ?_)
  swap
  · obtain ⟨mark, hmark⟩ := hr₂.inv.serial.purgedThrough
    rw [hr₂.inv.db, hmark] at hnone
    cases hnone
  rw [hr₂.inv.db] at hmark
  cases hcursor : req.cursor with
  | none =>
    refine txp_seq (txp_freshPage hr₂.session rfl hgiven₂
      fun built next row sess₃ s₃ hr₃ hbuilt hend hrow hfresh => ?_)
    have hlog : sess₃.log = [⟨.cursor next, some row⟩] := (hr₂.trans hr₃).log
    refine txp_ret (committable_of_reading hr₃.session (hr₂.trans hr₃).label (by rw [hlog]; simp)
      (by rw [hlog]; rfl) (fun id row' hw s₄ hsince _ => ?_) (fun s₄ hsince _ _ => ?_)
      fun s₄ s₅ hsince _ hi₅ _ hwal => ?_)
    · rw [hlog, written_cursor] at hw
      split at hw
      · next hid =>
        subst hid
        exact (hfresh.onward hsince.onward).owned
      · cases hw
    · rw [hlog]
      exact .firstRead req (hfresh.onward hsince.onward).unused hrow
    · rw [entry, if_neg (by rw [hlog]; simp), hlog] at hwal
      have hwal₃ : s₃.wal <+: s₅.wal := by
        rw [hwal]
        exact hsince.later.wal.trans (List.prefix_append ..)
      have hbuilt' := hbuilt.mono hwal₃
      have hnext₅ : (S.rows s₅.wal).cursor next = some row := by
        rw [hwal, Setting.rows_snoc, cursor_replay, written_cons_self]
        rfl
      refine ⟨s₂.wal, mark, mark, built.pageEndSeq, built.items, hwal₂, hmark, le_rfl,
        hbuilt'.page hi₅.serial, rfl, ⟨s₅.wal, row, List.prefix_rfl, hnext₅, hend⟩, ?_⟩
      rw [hcursor]
      exact ⟨rfl, built, hbuilt', rfl, rfl, rfl⟩
  | some cursor =>
    refine txp_seq (txpOr_require hr₂.session (fun _ => ?_) fun hform => ?_)
    swap
    · exact .malformed cursor hcursor (by simpa using hform)
    refine txp_seq (txpOr_require hr₂.session (fun _ => ?_) fun htext => ?_)
    swap
    · exact .unbindable cursor hcursor (by simpa using htext)
    refine txp_seq (txpOr_run hr₂.session (fun s₃ scan ans hr₃ _ ha => ?_) fun s₃ e _ he => ?_)
    swap
    · obtain ⟨scan, herror⟩ := refuses_run he fun scan ans ha w hw => by
        obtain rfl := Except.ok.inj ha
        exact absurd hw List.not_mem_nil
      cases herror
    obtain rfl := Except.ok.inj ha
    rw [replay_nil] at hr₃ ⊢
    have hwal₃ : s.wal <+: s₃.wal := hwal₂.trans hr₃.onward.later.wal
    refine txp_seq (txpOr_orFail hr₃.session (fun c hc => ?_) fun hnone => ?_)
    swap
    · have hnone : Db.cursor s₃.db cursor = none := hnone
      rw [hr₃.inv.db] at hnone
      exact .gone cursor s₃.wal hcursor hwal₃ List.prefix_rfl hnone
    have hc : Db.cursor s₃.db cursor = some c := hc
    refine txp_seq (txpOr_require hr₃.session (fun hvalid => ?_) fun hexpired => ?_)
    swap
    · rw [hr₃.inv.db] at hc
      exact .expired cursor s₂.wal s₃.wal c mark hcursor hwal₂ hr₃.onward.later.wal List.prefix_rfl
        hmark hc (not_not.mp hexpired)
    have hle : mark ≤ c.afterSeq := Nat.le_of_not_lt fun hlt => hvalid (.inr hlt)
    have hrow₃ : (S.rows s₃.wal).cursor cursor = some c := by
      rw [← hr₃.inv.db]
      exact hc
    have hlocked : ∀ s', Onward t s₃ s' → Db.cursor s'.db cursor = some c := fun s' hon => by
      refine (hon.lookup hr₃.session (m := .update) ?_ (by decide)).trans hc
      rw [if_pos (by rw [hc]; rfl)]
      exact List.mem_append_right _ (List.mem_append_left _ (List.mem_singleton_self _))
    have hlog₃ := (hr₂.trans hr₃).log
    have hlabel₃ := (hr₂.trans hr₃).label
    split
    · next hm =>
      refine txp_mono (txp_materializedPage hr₃.session hr₃.inv hlog₃ hcursor hwal₂
        hr₃.onward.later.wal hmark hle hrow₃ hm (P := Committable S t (.readChanges req)
          fun page s' => ReadSpec S s.wal s'.wal req page) fun page s₄ hr₄ hspec => ?_)
        fun _ _ h => h
      have hlog₄ := hr₄.log
      rw [hlog₃] at hlog₄
      refine committable_of_quiet hr₄.session (hr₄.label.trans hlabel₃) (by rw [hlog₃]; simp)
        (by rw [hlog₃]; rfl) (fun _ _ _ hne => absurd hlog₃ hne) fun s₅ s₆ hsince _ _ hl₆ _ => ?_
      exact hspec.mono (hsince.later.wal.trans hl₆.wal)
    · next hm =>
      have hm : c.materialized = false := by simpa using hm
      refine txp_seq (txp_freshPage hr₃.session hlog₃
        (fun id hid => (hgiven₂ id hid).onward hr₃.onward)
        fun built next row sess₄ s₄ hr₄ hbuilt hend hrow hfresh => ?_)
      have hlog₄ : sess₄.log = [⟨.cursor next, some row⟩] := by rw [hr₄.log, hlog₃]; rfl
      refine txp_seq (txpOr_run hr₄.session (fun s₅ scan ans hr₅ _ ha => ?_) fun s₅ e _ he => ?_)
      swap
      · obtain ⟨scan, herror⟩ := refuses_run he fun scan ans ha w hw => by
          simp only [materializeCursor, statement] at ha
          split at ha
          · obtain rfl := Except.ok.inj ha
            exact absurd hw List.not_mem_nil
          · obtain rfl := Except.ok.inj ha
            obtain rfl := List.mem_singleton.mp hw
            intro h
            cases h
        simp only [materializeCursor, statement] at herror
        split at herror <;> cases herror
      have hne : next ≠ cursor := by
        rintro rfl
        have := hlocked s₄ hr₄.onward
        rw [hfresh.unused] at this
        cases this
      have hview : Db.cursor (replay sess₄.log s₅.db) cursor = some c := by
        rw [hlog₄, cursor_replay, written_cursor, if_neg hne]
        exact hlocked s₅ (hr₄.onward.trans hr₅.onward)
      simp only [materializeCursor, statement, hview] at ha
      obtain rfl := Except.ok.inj ha
      have hlog₅ := hr₅.log
      rw [hlog₄] at hlog₅
      have hwal₅ : s₃.wal <+: s₅.wal := (hr₄.onward.trans hr₅.onward).later.wal
      refine txp_ret (committable_of_reading hr₅.session (hr₅.label.trans (hr₄.label.trans hlabel₃))
        (by rw [hlog₅]; simp) (by rw [hlog₅]; rfl) (fun id row' hw s₆ hsince hnone => ?_)
        (fun s₆ hsince hi₆ _ => ?_) fun s₆ s₇ hsince _ hi₇ _ hwal => ?_)
      · have hon := hr₅.onward.trans hsince.onward
        by_cases hid : next = id
        · subst hid
          exact (hfresh.onward hon).owned
        -- the other row was there before
        · rw [hlog₅, List.cons_append, List.nil_append, written_cursor, if_neg hid,
            written_cursor] at hw
          split at hw
          · next hid' =>
            subst hid'
            rw [hlocked s₆ (hr₄.onward.trans hon)] at hnone
            cases hnone
          · cases hw
      · rw [hlog₅]
        have hon := hr₅.onward.trans hsince.onward
        exact .nextRead req (hlocked s₆ (hr₄.onward.trans hon)) hm (hfresh.onward hon).unused hrow
          hend hrow₃ (hbuilt.mono hon.later.wal)
      · rw [entry, if_neg (by rw [hlog₅]; simp), hlog₅] at hwal
        have hwal₇ : s₅.wal <+: s₇.wal := by
          rw [hwal]
          exact hsince.later.wal.trans (List.prefix_append ..)
        have hbuilt' := hbuilt.mono (hr₅.onward.later.wal.trans hwal₇)
        obtain ⟨w₂, h₂, h₂', hpage⟩ := hbuilt'.page hi₇.serial
        have hcursor₇ : (S.rows s₇.wal).cursor cursor =
            some (c.materialize req.limit built next) := by
          rw [hwal, Setting.rows_snoc, cursor_replay]
          simp only [List.cons_append, List.nil_append]
          rw [written_cursor, if_neg hne, written_cursor, if_pos rfl]
          rfl
        have hnext₇ : (S.rows s₇.wal).cursor next = some row := by
          rw [hwal, Setting.rows_snoc, cursor_replay]
          simp only [List.cons_append, List.nil_append]
          rw [written_cursor, if_pos rfl, written_cursor, if_neg (Ne.symm hne)]
          rfl
        refine ⟨s₂.wal, mark, c.afterSeq, built.pageEndSeq, built.items, hwal₂, hmark, hle,
          ⟨w₂, hr₃.onward.later.wal.trans h₂, h₂', hpage⟩, rfl,
          ⟨s₇.wal, row, List.prefix_rfl, hnext₇, hend⟩, ?_⟩
        rw [hcursor]
        exact ⟨s₇.wal, _, List.prefix_rfl, hcursor₇, rfl, rfl, rfl, rfl, rfl, rfl⟩

/-- Either is so later, too, -/
theorem ReadResult.mono {wal₀ : Journal} {req : ReadChanges} {r : Except DomainError ChangePage}
    {s' : DbState} (h : ReadResult S t wal₀ req r s) (hl : Later s s') :
    ReadResult S t wal₀ req r s' := by
  cases r with
  | ok page => exact ReadSpec.mono h hl.wal
  | error e => exact h.imp (fun hfailed => hl.failed hfailed) fun hrefused => hrefused.mono hl.wal

/-- and for a call that has begun before. -/
theorem ReadResult.of_prefix {wal₀ wal₁ : Journal} {req : ReadChanges}
    {r : Except DomainError ChangePage} (h : ReadResult S t wal₁ req r s) (hp : wal₀ <+: wal₁) :
    ReadResult S t wal₀ req r s := by
  cases r with
  | ok page =>
    obtain ⟨wal₂, mark, after, e, items, h₁, hrest⟩ := h
    exact ⟨wal₂, mark, after, e, items, hp.trans h₁, hrest⟩
  | error e => exact h.imp_right fun h => h.of_prefix hp

/-- **Changes.** Either adapter ends in a page or in a refusal that is justified. -/
theorem ends_readChanges {req : ReadChanges} (hs : s.session t = none) :
    Ends S t (readChanges a req) (ReadResult S t s.wal req) s := by
  -- the procedure is given the id of the next cursor: it is drawn before the cursor is looked
  -- at
  cases a with
  | sqlx => exact ends_readPage hs fun _ hid => by cases hid
  | rpc =>
    refine ends_seq (ends_require hs (fun _ => ?_) fun hform => ?_)
    · have hul : Ends S t (ulid none)
          (fun r s' => ∃ id, r = .ok id ∧ FreshCursor t (CursorId.pre ++ id) s') s :=
        Ends.mono (Serves.ends (F := fun _ => False)
          (serves_ulid (P := fun id s' => FreshCursor t (CursorId.pre ++ id) s') hs
            fun _ _ _ _ _ hfresh => hfresh) fun _ => trivial) fun r _ _ _ h => by
            cases r with
            | ok id => exact ⟨id, rfl, h⟩
            | error e => exact h.elim
      refine ends_seq (ends_seq (hul.mono fun r s₁ hs₁ hl hr => ?_))
      obtain ⟨id, rfl, hfresh⟩ := hr
      refine ends_ret hs₁ ((ends_readPage hs₁ fun id' hid => ?_).mono
        fun r s₂ _ _ h => h.of_prefix hl.wal)
      obtain rfl := Option.some.inj hid
      exact hfresh
    · push Not at hform
      obtain ⟨cursor, hcursor, hform⟩ := hform
      exact .inr (.malformed cursor hcursor (by simpa using hform))

end AnyStore
