import AnyStore.Refinement.System

/-!
# Delivery of the feed

While nothing is purged, a reader that follows its cursors is given the feed
from its start, record for record, and it keeps up: of what was committed at
some time, it misses nothing for longer than a bounded number of reads.

## Results

* `changes_delivered` (`Delivery`): the feed is in the order of its sequence
  numbers; what a reader was given is a front part of it (`front`), and has all
  that was committed by some time as soon as the reader has made more reads since
  than there were cursors and Changes then (`complete`); two reads of one cursor
  are given the same page (`stable`); a read is given a page (`answered`).

## Assumptions

No purge of Changes (`Unpruned`). For `answered`: no call of the read fails from
outside (`State.failed`), and its cursor is `Readable`. A cursor that a purge of
cursors takes is not followed (`Unexpired`).

## Proof

A page is a window of the feed (`ReadSpec.delivers`), and the windows of a
traversal join up (`leads_of_chain`). A read of a cursor that is younger than a
missing Change returns something (`ReadSpec.progress`), and older cursors are
used up (`old_reads_le`).
-/

namespace AnyStore

open ReadCommitted

variable {S : Setting} {w : World} {wal wal₀ : Journal} {c : System}

/-- A read that was answered with a page. -/
structure PageRead (c : System) where
  reply : Reply DbState Request DomainError Response
  req : ReadChanges
  page : ChangePage
  mem : reply ∈ c.replies
  asked : reply.req = .readChanges req
  answered : reply.result = .ok (.page page)

/-- Reads of which each follows the cursor of the one before. -/
structure Traversal (reads : List (PageRead c)) : Prop where
  starts : ∀ read ∈ reads.head?, read.req.cursor = none
  follows : reads.IsChain fun a b => b.req.cursor = some a.page.nextCursor
  limits : ∀ read ∈ reads, 1 ≤ read.req.limit
  unexpired : ∀ read ∈ reads, ∀ id ∈ read.req.cursor, Unexpired id c.state.wal

/-- What the reader has been given, page after page. -/
def delivered (reads : List (PageRead c)) : List ChangeRecord := reads.flatMap (·.page.items)

def Db.cursorIds (db : Db) : List CursorId := db.keys.filterMap fun
  | .cursor id => some id
  | _ => none

/-- Nothing stands in the way of a read of the cursor: the store has handed it
out, it is kept and in time, and it is bound to no other limit. -/
structure Readable (S : Setting) (born wal : Journal) (req : ReadChanges) (id : CursorId) :
    Prop where
  issued : ∃ e, Issued S born id e
  kept : Unexpired id wal
  formed : CursorId.isWellFormed id = true
  text : isText id = true
  inTime : ∀ wal₁ row, wal₁ <+: wal → (S.rows wal₁).cursor id = some row →
    req.now < row.expiresAt
  limit : ∀ wal₁ row, wal₁ <+: wal → (S.rows wal₁).cursor id = some row →
    row.materialized = true → row.pageLimit = some req.limit

/-- The read was answered with a page. -/
def Paged (r : Reply DbState Request DomainError Response) : Prop :=
  ∃ page, r.result = .ok (.page page)

/-- Readers are given the feed exactly once, and a page does not change. -/
structure Delivery (S : Setting) (c : System) : Prop where
  ordered : (feed c.state.wal).Pairwise fun a b => a.1 < b.1
  front : ∀ reads : List (PageRead c), Traversal reads →
    delivered reads <+: (feed c.state.wal).map Prod.snd
  -- whatever was committed at an earlier time
  complete : ∀ (reads : List (PageRead c)) (wal₀ : Journal), Traversal reads →
    wal₀ <+: c.state.wal →
    (S.rows wal₀).cursorIds.length + (feed wal₀).length + 1 < reads.length →
    (feed wal₀).map Prod.snd <+: delivered reads
  stable : ∀ (a b : PageRead c) (id : CursorId), a.req.cursor = some id →
    b.req.cursor = some id → Unexpired id c.state.wal → a.page.items = b.page.items ∧
      a.page.nextCursor = b.page.nextCursor ∧ a.page.hasMore = b.page.hasMore
  -- a read is given a page, whatever is committed meanwhile
  answered : ∀ r ∈ c.replies, ∀ req, r.req = .readChanges req → r.thread ∉ c.state.failed →
    (∀ id ∈ req.cursor, Readable S r.born.wal c.state.wal req id) → Paged r

/-! ## Answers -/

/-- Without a failed call a readable cursor is refused for the watermark only. -/
theorem ReadRefused.behind {req : ReadChanges} {e : DomainError}
    (h : ReadRefused S wal₀ wal req e) (hserial : Serial S w wal)
    (hreadable : ∀ id ∈ req.cursor, Readable S wal₀ wal req id) :
    ∃ id wal₁ wal₂ row mark, req.cursor = some id ∧ wal₀ <+: wal₁ ∧ wal₁ <+: wal₂ ∧
      wal₂ <+: wal ∧ (S.rows wal₁).purgedThrough = some mark ∧
      (S.rows wal₂).cursor id = some row ∧ row.afterSeq < mark := by
  cases h with
  | malformed cursor hcursor hform =>
    rw [(hreadable cursor hcursor).formed] at hform
    cases hform
  | unbindable cursor hcursor htext =>
    rw [(hreadable cursor hcursor).text] at htext
    cases htext
  | gone cursor wal₁ hcursor h₀ h₁ hrow =>
    -- the cursor was there when the read began, and no purge has taken it
    obtain ⟨⟨e, wal₂, row, h₂, hrow₂, _⟩, hexpires⟩ :=
      And.intro (hreadable cursor hcursor).issued (hreadable cursor hcursor).kept
    obtain ⟨row', hrow', _⟩ := (hserial.of_prefix h₁).kept (h₂.trans h₀) hrow₂
      fun x hx => hexpires x (h₁.subset hx)
    rw [hrow] at hrow'
    cases hrow'
  | expired cursor wal₁ wal₂ row mark hcursor h₀ h₁ h₂ hmark hrow hexpired =>
    have hlt := (hreadable cursor hcursor).inTime wal₂ row h₂ hrow
    exact ⟨cursor, wal₁, wal₂, row, mark, hcursor, h₀, h₁, h₂, hmark, hrow,
      hexpired.resolve_left (not_le.mpr hlt)⟩
  | otherLimit cursor wal₁ row hcursor h₀ h₁ hrow hm hlimit =>
    exact absurd ((hreadable cursor hcursor).limit wal₁ row h₁ hrow hm) hlimit

/-- A read that no watermark stands in the way of is answered. -/
theorem Setting.Runs.answered (h : S.Runs c) {r : Reply DbState Request DomainError Response}
    (hr : r ∈ c.replies) {req : ReadChanges} (hreq : r.req = .readChanges req)
    (hfailed : r.thread ∉ c.state.failed)
    (hreadable : ∀ id ∈ req.cursor, Readable S r.born.wal c.state.wal req id)
    (hmark : ∀ id wal₁ wal₂ row mark, req.cursor = some id → r.born.wal <+: wal₁ →
      wal₁ <+: wal₂ → wal₂ <+: c.state.wal → (S.rows wal₁).purgedThrough = some mark →
      (S.rows wal₂).cursor id = some row → mark ≤ row.afterSeq) : Paged r := by
  have hanswers := h.answers hr
  obtain ⟨result, hresult, hread⟩ := hanswers.page req hreq
  cases result with
  | ok page => exact ⟨page, hresult⟩
  | error e =>
    have hrefused := hread.resolve_left hfailed
    obtain ⟨id, wal₁, wal₂, row, mark, hid, h₀, h₁, h₂, hm, hrow, hlt⟩ :=
      hrefused.behind h.storeInv.serial hreadable
    exact absurd (hmark id wal₁ wal₂ row mark hid h₀ h₁ h₂ hm hrow) (not_le.mpr hlt)

/-! ## One read -/

/-- A read with this cursor starts from this position. -/
def StartsAt (S : Setting) (wal : Journal) (cursor : Option CursorId) (after : Nat) : Prop :=
  match cursor with
  -- without a cursor the read starts from the watermark, which is 0 here
  | none => after = 0
  | some id => Issued S wal id after

/-- A cursor that is not purged stands for one position. -/
theorem Serial.startsAt_eq (h : Serial S w wal) {cursor : Option CursorId} {e e' : Nat}
    (hexpires : ∀ id ∈ cursor, Unexpired id wal) (hs : StartsAt S wal cursor e)
    (hs' : StartsAt S wal cursor e') : e = e' := by
  cases cursor with
  | none => exact hs.trans hs'.symm
  | some id =>
    obtain ⟨wal₁, c₁, h₁, hc₁, rfl⟩ := hs
    obtain ⟨wal₂, c₂, h₂, hc₂, rfl⟩ := hs'
    exact (h.cursor_agree h₁ h₂ hc₁ hc₂ (hexpires id rfl)).1

/-- The part of the feed that a read delivers. -/
structure Delivers (S : Setting) (wal : Journal) (cursor : Option CursorId) (page : ChangePage)
    (after e : Nat) : Prop where
  le : after ≤ e
  items : page.items = (window after e (feed wal)).map Prod.snd
  starts : StartsAt S wal cursor after
  next : Issued S wal page.nextCursor e

/-- A page that starts no lower than the watermark is a window of the feed. -/
theorem PageOf.items_eq (h : Serial S w wal) {after e : Nat} {items : List (Nat × ChangeRecord)}
    (hpage : PageOf S wal₀ wal after e items)
    (hmark : ∀ wal₂, wal₂ <+: wal → S.rule (.page after) (S.rows wal₂) →
      ∀ mark, (S.rows wal₂).purgedThrough = some mark → mark ≤ after) :
    after ≤ e ∧ items = window after e (feed wal) := by
  obtain ⟨wal₂, _, h₂, hrule, hreached, rfl⟩ := hpage
  obtain ⟨mark, hm⟩ := (h.of_prefix h₂).purgedThrough
  refine ⟨hreached.1, ?_⟩
  rw [(h.of_prefix h₂).feedInv.changesBetween_eq hm (hmark wal₂ h₂ hrule mark hm),
    h.window_final h₂ hreached]

/-- Without a purge every page does. -/
theorem PageOf.window (h : Serial S w wal) (hpurge : Unpruned wal) {after e : Nat}
    {items : List (Nat × ChangeRecord)} (hpage : PageOf S wal₀ wal after e items) :
    after ≤ e ∧ items = AnyStore.window after e (feed wal) := by
  refine hpage.items_eq h fun wal₂ h₂ _ mark hmark => ?_
  rw [(h.of_prefix h₂).purgedThrough_zero (hpurge.of_prefix h₂)] at hmark
  exact (Option.some.inj hmark).symm ▸ Nat.zero_le after

theorem ReadSpec.delivers {req : ReadChanges} {page : ChangePage}
    (hread : ReadSpec S wal₀ wal req page) (h : Serial S w wal) (hpurge : Unpruned wal) :
    ∃ after e, Delivers S wal req.cursor page after e := by
  obtain ⟨wal₁, mark, after, e, items, _, hmark, _, hpage, hitems, hissued, hrest⟩ := hread
  -- the page is the window from where the read starts to where the page ends
  obtain ⟨hle, rfl⟩ := hpage.window h hpurge
  refine ⟨after, e, hle, hitems, ?_, hissued⟩
  cases hcursor : req.cursor with
  | none =>
    rw [hcursor] at hrest
    obtain ⟨hafter, built, hbuilt, _⟩ := hrest
    -- the watermark that the read started from is zero
    obtain ⟨w₁, w₂, w₃, h₀, h₁, h₂, h₃, _⟩ := hbuilt
    have hwal : wal₁ <+: wal := h₀.trans (h₁.trans (h₂.trans h₃))
    have hzero := (h.of_prefix hwal).purgedThrough_zero (hpurge.of_prefix hwal)
    show after = 0
    rw [hafter]
    exact Option.some.inj (hmark.symm.trans hzero)
  | some id =>
    rw [hcursor] at hrest
    obtain ⟨wal₂, row, hwal, hrow, _, hafter, _⟩ := hrest
    exact ⟨wal₂, row, hwal, hrow, hafter⟩

/-- A cursor is older than the one at the end of its page. -/
theorem ReadSpec.older {req : ReadChanges} {page : ChangePage}
    (hread : ReadSpec S wal₀ wal req page) (h : Serial S w wal) {id : CursorId}
    (hcursor : req.cursor = some id) : Older S wal id page.nextCursor := by
  obtain ⟨wal₁, mark, after, e, items, _, _, _, _, _, _, hrest⟩ := hread
  -- the row is bound to its page, and the next cursor was inserted with it
  rw [hcursor] at hrest
  obtain ⟨wal₂, row, hwal, hrow, hmat, _, _, _, _, hnext⟩ := hrest
  obtain ⟨_, _, built, limit, next, _, _, _, hbound, _, holder⟩ :=
    ((h.of_prefix hwal).bound hrow hmat).built
  have hnext' : row.nextCursorId = some next := by rw [hbound]; rfl
  obtain rfl : page.nextCursor = next := Option.some.inj (hnext.symm.trans hnext')
  exact holder.mono hwal

/-- Without a purge the rows are the feed. -/
theorem Serial.change_kept (h : Serial S w wal) (hpurge : Unpruned wal) (hp : wal₀ <+: wal)
    {r : Nat × ChangeRecord} (hr : r ∈ feed wal₀) : (S.rows wal₀).change r.1 = some r.2 := by
  have hserial := h.of_prefix hp
  have hmark := hserial.purgedThrough_zero (hpurge.of_prefix hp)
  have hpos := hserial.feedInv.positive r hr
  -- the record lies between the watermark, which is 0, and itself
  have hmem : r ∈ window 0 r.1 (feed wal₀) :=
    List.mem_filter.mpr ⟨hr, by simp only [decide_eq_true_eq]; omega⟩
  rw [← hserial.feedInv.changesBetween_eq hmark le_rfl] at hmem
  exact (Db.mem_changesBetween.mp hmem).2.2

/-- The first read of a cursor that came after a commit makes progress. -/
theorem ReadSpec.progress {wal' : Journal} {req : ReadChanges} {page : ChangePage}
    (hread : ReadSpec S wal' wal req page) (h : Serial S w wal) (hpurge : Unpruned wal)
    (hlimit : 1 ≤ req.limit) {id : CursorId} (hcursor : req.cursor = some id)
    (hexpires : Unexpired id wal) (hp : wal₀ <+: wal) (hfresh : (S.rows wal₀).cursor id = none)
    {after e : Nat} (hd : Delivers S wal req.cursor page after e) {r : Nat × ChangeRecord}
    (hr : r ∈ feed wal₀) (hlt : e < r.1) : page.items ≠ [] := by
  obtain ⟨wal₁, mark, after', e', items, _, _, _, hpage, hitems, _, hrest⟩ := hread
  rw [hcursor] at hrest hd
  obtain ⟨wal₂, row, hwal, hrow, hmat, hafter, hplimit, hend, _⟩ := hrest
  obtain ⟨walb, c₀, built, limit, next, hc₀, hm₀, hbuilt, hbound, _⟩ :=
    ((h.of_prefix hwal).bound hrow hmat).built
  -- the page that was built when the cursor was bound is the one returned
  have hlimit' : limit = req.limit := by
    have hrow' : row.pageLimit = some limit := by rw [hbound]; rfl
    exact Option.some.inj (hrow'.symm.trans hplimit)
  have hend' : built.pageEndSeq = e' := by
    have hrow' : row.pageEndSeq = some built.pageEndSeq := by rw [hbound]; rfl
    exact Option.some.inj (hrow'.symm.trans hend)
  have hbuilt := hbuilt.mono hwal
  have hwalb : walb <+: wal := by
    obtain ⟨w₁, w₂, w₃, h₀, h₁, h₂, h₃, _⟩ := hbuilt
    exact h₀.trans (h₁.trans (h₂.trans h₃))
  -- the page was built later than the commit, as the cursor was not there before
  have hlater : wal₀ <+: walb := by
    rcases List.prefix_or_prefix_of_prefix hp hwalb with hl | hl
    · exact hl
    · obtain ⟨c₁, hc₁, _⟩ := (h.of_prefix hp).kept hl hc₀ fun x hx => hexpires x (hp.subset hx)
      rw [hfresh] at hc₁
      cases hc₁
  have hafter' : after = row.afterSeq := by
    obtain ⟨wala, ca, ha, hca, rfl⟩ := hd.starts
    exact (h.cursor_agree ha hwal hca hrow hexpires).1
  have hle := hd.le
  have hnonempty : built.items ≠ [] :=
    hbuilt.progress (by omega)
      (fun w' h' hw' => h.change_kept hpurge hw' ((feed_mono (hlater.trans h')).subset hr)) (by omega)
  obtain ⟨_, hbitems⟩ := (hbuilt.page h).window h hpurge
  obtain ⟨_, rfl⟩ := hpage.window h hpurge
  rw [hitems, Ne, List.map_eq_nil_iff, ← hafter, ← hend', ← hbitems]
  exact hnonempty

/-- Two reads of one cursor. -/
theorem ReadSpec.stable {wal₁ wal₂ : Journal} {req req' : ReadChanges} {page page' : ChangePage}
    (hread : ReadSpec S wal₁ wal req page) (hread' : ReadSpec S wal₂ wal req' page')
    (h : Serial S w wal) (hpurge : Unpruned wal) {id : CursorId} (hcursor : req.cursor = some id)
    (hcursor' : req'.cursor = some id) (hexpires : Unexpired id wal) :
    page.items = page'.items ∧ page.nextCursor = page'.nextCursor ∧
      page.hasMore = page'.hasMore := by
  obtain ⟨_, _, after, e, items, _, _, _, hpage, hitems, _, hrest⟩ := hread
  obtain ⟨_, _, after', e', items', _, _, _, hpage', hitems', _, hrest'⟩ := hread'
  rw [hcursor] at hrest
  rw [hcursor'] at hrest'
  obtain ⟨walr, row, hwal, hrow, hmat, hafter, _, hend, hmore, hnext⟩ := hrest
  obtain ⟨walr', row', hwal', hrow', hmat', hafter', _, hend', hmore', hnext'⟩ := hrest'
  -- the row is bound once, so both reads have seen the same one
  obtain rfl := (h.cursor_agree hwal hwal' hrow hrow' hexpires).2 hmat hmat'
  have he : e = e' := Option.some.inj (hend.symm.trans hend')
  have ha : after = after' := hafter.symm.trans hafter'
  obtain ⟨_, rfl⟩ := hpage.window h hpurge
  obtain ⟨_, rfl⟩ := hpage'.window h hpurge
  refine ⟨?_, Option.some.inj (hnext.symm.trans hnext'), Option.some.inj (hmore.symm.trans hmore')⟩
  rw [hitems, hitems', ha, he]

/-! ## Traversals -/

/-- A page that a read was answered with is one that `ReadSpec` speaks of. -/
theorem PageRead.spec (h : S.Runs c) (read : PageRead c) :
    ReadSpec S read.reply.born.wal c.state.wal read.req read.page := by
  obtain ⟨r, hr, hread⟩ := (h.answers read.mem).page read.req read.asked
  rw [read.answered] at hr
  cases r with
  | ok page =>
    obtain rfl := Response.page.inj (Except.ok.inj hr)
    exact hread
  | error e => cases hr

/-- Reads that go from one position of the feed to another. -/
inductive Leads (S : Setting) (wal : Journal) : Nat → List (PageRead c) → Nat → Prop
  | nil (e) : Leads S wal e [] e
  | cons {after mid e} {read : PageRead c} {reads} (hread : Delivers S wal read.req.cursor read.page after mid)
      (hreads : Leads S wal mid reads e) : Leads S wal after (read :: reads) e

theorem Leads.le {after e : Nat} {reads : List (PageRead c)} (h : Leads S wal after reads e) :
    after ≤ e := by
  induction h with
  | nil e => exact le_rfl
  | cons hread _ ih => exact hread.le.trans ih

theorem Leads.delivered_eq {after e : Nat} {reads : List (PageRead c)}
    (h : Leads S wal after reads e) (hserial : Serial S w wal) :
    delivered reads = (window after e (feed wal)).map Prod.snd := by
  induction h with
  | nil e =>
    rw [window_self]
    rfl
  | cons hread hreads ih =>
    rw [delivered, List.flatMap_cons, ← delivered, ih, hread.items, ← List.map_append,
      window_append hserial.feedInv.pairwise hread.le hreads.le]

/-- A read of the traversal goes from one position to another within it. -/
theorem Leads.within {after e : Nat} {reads : List (PageRead c)} (h : Leads S wal after reads e) :
    ∀ read ∈ reads, ∃ a b, Delivers S wal read.req.cursor read.page a b ∧ b ≤ e := by
  induction h with
  | nil e => exact fun read hread => absurd hread List.not_mem_nil
  | @cons after mid e first rest hfirst hrest ih =>
    intro read hread
    rcases List.mem_cons.mp hread with rfl | hread
    · exact ⟨after, mid, hfirst, hrest.le⟩
    · exact ih read hread

/-- Where one read ends the next one starts. -/
theorem leads_of_chain (h : S.Runs c) (hpurge : Unpruned c.state.wal) {reads : List (PageRead c)}
    (hexpires : ∀ read ∈ reads, ∀ id ∈ read.req.cursor, Unexpired id c.state.wal)
    (hfollows : reads.IsChain fun a b => b.req.cursor = some a.page.nextCursor) {after : Nat}
    (hstart : ∀ read ∈ reads.head?, StartsAt S c.state.wal read.req.cursor after) :
    ∃ e, Leads S c.state.wal after reads e := by
  have hserial := h.storeInv.serial
  induction reads generalizing after with
  | nil => exact ⟨after, .nil after⟩
  | cons read rest ih =>
    obtain ⟨a, mid, hread⟩ := (read.spec h).delivers hserial hpurge
    -- this read starts where the one before has ended
    obtain rfl : a = after := hserial.startsAt_eq (hexpires read (List.mem_cons_self ..))
      hread.starts (hstart read rfl)
    -- and the next one starts where this one ends
    have hnext : ∀ b ∈ rest.head?, StartsAt S c.state.wal b.req.cursor mid := by
      intro b hb
      rw [(List.isChain_cons.mp hfollows).1 b hb]
      exact hread.next
    obtain ⟨e, hrest⟩ := ih (fun b hb => hexpires b (List.mem_cons_of_mem _ hb))
      (List.isChain_cons.mp hfollows).2 hnext
    exact ⟨e, .cons hread hrest⟩

/-- A traversal leads from the start of the feed. -/
theorem Traversal.leads {reads : List (PageRead c)} (ht : Traversal reads) (h : S.Runs c)
    (hpurge : Unpruned c.state.wal) : ∃ e, Leads S c.state.wal 0 reads e := by
  refine leads_of_chain h hpurge ht.unexpired ht.follows fun read hread => ?_
  rw [ht.starts read hread]
  rfl

/-! ## Keeping up -/

/-- A cursor and an older one, neither of which was purged. -/
def After (S : Setting) (wal : Journal) (a b : Option CursorId) : Prop :=
  ∃ id id', a = some id ∧ b = some id' ∧ Unexpired id wal ∧ Unexpired id' wal ∧
    Older S wal id id'

/-- Ages compose. -/
theorem Serial.after_trans (h : Serial S w wal) {a b d : Option CursorId}
    (hab : After S wal a b) (hbd : After S wal b d) : After S wal a d := by
  obtain ⟨id, id', rfl, rfl, hid, hid', ho⟩ := hab
  obtain ⟨_, id'', he, rfl, _, hid'', ho'⟩ := hbd
  obtain rfl := Option.some.inj he
  exact ⟨id, id'', rfl, rfl, hid, hid'', h.older_trans hid hid' ho ho'⟩

/-- Reads that start from cursors are made in the order of their cursors. -/
theorem after_of_chain (h : S.Runs c) {reads : List (PageRead c)}
    (hcursors : ∀ read ∈ reads, ∃ id, read.req.cursor = some id ∧ Unexpired id c.state.wal)
    (hfollows : reads.IsChain fun a b => b.req.cursor = some a.page.nextCursor) :
    (reads.map (·.req.cursor)).IsChain (After S c.state.wal) := by
  induction reads with
  | nil => exact .nil
  | cons a rest ih =>
    obtain ⟨hnext, hrest⟩ := List.isChain_cons.mp hfollows
    -- the cursor of the next read was issued by this one, so it is younger
    refine List.isChain_cons.mpr ⟨fun cursor hcursor => ?_,
      ih (fun b hb => hcursors b (List.mem_cons_of_mem _ hb)) hrest⟩
    rw [List.head?_map] at hcursor
    obtain ⟨b, hb, rfl⟩ := Option.map_eq_some_iff.mp hcursor
    obtain ⟨id, hid, hexpires⟩ := hcursors a (List.mem_cons_self ..)
    obtain ⟨id', hid', hexpires'⟩ := hcursors b (List.mem_cons_of_mem _ (List.mem_of_mem_head? hb))
    obtain rfl := Option.some.inj (hid'.symm.trans (hnext b hb))
    exact ⟨id, _, hid, hid', hexpires, hexpires', (a.spec h).older h.storeInv.serial hid⟩

/-- No cursor is read twice. -/
theorem nodup_of_chain (h : S.Runs c) {reads : List (PageRead c)}
    (hcursors : ∀ read ∈ reads, ∃ id, read.req.cursor = some id ∧ Unexpired id c.state.wal)
    (hfollows : reads.IsChain fun a b => b.req.cursor = some a.page.nextCursor) :
    (reads.map (·.req.cursor)).Nodup := by
  have : Trans (After S c.state.wal) (After S c.state.wal) (After S c.state.wal) :=
    ⟨h.storeInv.serial.after_trans⟩
  -- a cursor that came twice would be older than itself
  refine (List.isChain_iff_pairwise.mp (after_of_chain h hcursors hfollows)).imp
    fun {a b} hab heq => ?_
  obtain ⟨id, id', rfl, he, _, _, ho⟩ := hab
  obtain rfl : id = id' := Option.some.inj (heq.trans he)
  exact ho.irrefl

/-- All reads of a traversal but the first start from a cursor. -/
theorem Traversal.cursors {first : PageRead c} {rest : List (PageRead c)}
    (ht : Traversal (first :: rest)) :
    ∀ read ∈ rest, ∃ id, read.req.cursor = some id ∧ Unexpired id c.state.wal := by
  have hfollows := ht.follows
  have hexpires := ht.unexpired
  -- by induction on the reads behind the first
  clear ht
  induction rest generalizing first with
  | nil => exact fun read hread => absurd hread List.not_mem_nil
  | cons b rest ih =>
    obtain ⟨hnext, hrest⟩ := List.isChain_cons.mp hfollows
    intro read hread
    rcases List.mem_cons.mp hread with rfl | hread
    · have hcursor := hnext read rfl
      exact ⟨_, hcursor, hexpires read (by simp) _ hcursor⟩
    · exact ih hrest (fun x hx => hexpires x (List.mem_cons_of_mem _ hx)) read hread

/-- The listed cursors are those with a row. -/
theorem Db.mem_cursorIds {db : Db} {id : CursorId} :
    id ∈ db.cursorIds ↔ (db.cursor id).isSome := by
  rw [Db.cursorIds, List.mem_filterMap, Db.cursor, AList.lookup_isSome, AList.mem_keys]
  constructor
  · rintro ⟨r, hr, he⟩
    cases r with
    | cursor id' => rw [Option.some.injEq] at he; exact he ▸ hr
    | _ => cases he
  · exact fun h => ⟨_, h, rfl⟩

/-- The read starts from a cursor that was there at an earlier time. -/
def PageRead.isOld (db : Db) (read : PageRead c) : Bool :=
  read.req.cursor.any fun id => (db.cursor id).isSome

/-- The cursors of an earlier time are soon used up. -/
theorem old_reads_le (h : S.Runs c) (db : Db) {reads : List (PageRead c)}
    (hcursors : ∀ read ∈ reads, ∃ id, read.req.cursor = some id ∧ Unexpired id c.state.wal)
    (hfollows : reads.IsChain fun a b => b.req.cursor = some a.page.nextCursor) :
    (reads.filter (·.isOld db)).length ≤ db.cursorIds.length := by
  -- the reads of old cursors have different cursors, all of them among the old ones
  have hnodup : ((reads.filter (·.isOld db)).map (·.req.cursor)).Nodup :=
    (nodup_of_chain h hcursors hfollows).sublist (List.filter_sublist.map _)
  have hsub : (reads.filter (·.isOld db)).map (·.req.cursor) ⊆ db.cursorIds.map some := by
    intro cursor hcursor
    obtain ⟨read, hread, rfl⟩ := List.mem_map.mp hcursor
    obtain ⟨hread, hold⟩ := List.mem_filter.mp hread
    obtain ⟨id, hid, _⟩ := hcursors read hread
    rw [PageRead.isOld, hid, Option.any_some] at hold
    rw [hid]
    exact List.mem_map_of_mem (Db.mem_cursorIds.mpr hold)
  have hle := (hnodup.subperm hsub).length_le
  rwa [List.length_map, List.length_map] at hle

/-- Reads of newer cursors deliver something each, while something is missing. -/
theorem new_reads_le (h : S.Runs c) (hpurge : Unpruned c.state.wal) {reads : List (PageRead c)}
    (hcursors : ∀ read ∈ reads, ∃ id, read.req.cursor = some id ∧ Unexpired id c.state.wal)
    (hlimits : ∀ read ∈ reads, 1 ≤ read.req.limit) {after e : Nat}
    (hleads : Leads S c.state.wal after reads e) (hp : wal₀ <+: c.state.wal)
    {r : Nat × ChangeRecord} (hr : r ∈ feed wal₀) (hlt : e < r.1) :
    (reads.filter fun read => !read.isOld (S.rows wal₀)).length ≤ (delivered reads).length := by
  -- a read of a new cursor returns at least one record
  have hsome : ∀ read ∈ reads, read.isOld (S.rows wal₀) = false → 1 ≤ read.page.items.length := by
    intro read hread hnew
    obtain ⟨id, hid, hexpires⟩ := hcursors read hread
    obtain ⟨a, b, hd, hb⟩ := hleads.within read hread
    have hfresh : (S.rows wal₀).cursor id = none := by
      rw [PageRead.isOld, hid, Option.any_some] at hnew
      exact Option.not_isSome_iff_eq_none.mp (by rw [hnew]; exact Bool.false_ne_true)
    exact List.length_pos_of_ne_nil ((read.spec h).progress h.storeInv.serial hpurge
      (hlimits read hread) hid hexpires hp hfresh hd hr (by omega))
  -- so the number of records is at least the number of such reads
  clear hleads hcursors hlimits
  induction reads with
  | nil => exact Nat.zero_le _
  | cons read rest ih =>
    have hrest := ih fun x hx => hsome x (List.mem_cons_of_mem _ hx)
    have hhead := hsome read (List.mem_cons_self ..)
    rw [delivered, List.flatMap_cons, List.length_append, ← delivered, List.filter_cons]
    cases hold : read.isOld (S.rows wal₀) with
    | true =>
      simp only [Bool.not_true, Bool.false_eq_true, if_false]
      omega
    | false =>
      simp only [Bool.not_false, if_true, List.length_cons]
      have := hhead hold
      omega

/-- A window that ends below a record of the earlier feed lies in it. -/
theorem window_length_le (h : Serial S w wal) (hp : wal₀ <+: wal) {lo hi : Nat}
    {r : Nat × ChangeRecord} (hr : r ∈ feed wal₀) (hlt : hi < r.1) :
    (window lo hi (feed wal)).length ≤ (feed wal₀).length := by
  obtain ⟨rest, hrest⟩ := feed_mono hp
  have hsorted := h.feedInv.pairwise
  rw [← hrest] at hsorted ⊢
  -- nothing of what came later lies below the record
  have hnil : rest.filter (fun x => lo < x.1 ∧ x.1 ≤ hi) = [] := by
    refine List.filter_eq_nil_iff.mpr fun x hx => ?_
    have := (List.pairwise_append.mp hsorted).2.2 r hr x hx
    simp only [decide_eq_true_eq]
    omega
  rw [window, List.filter_append, hnil, List.append_nil]
  exact List.length_filter_le ..

/-- A window from the start to a position that nothing of the earlier feed is above. -/
theorem feed_le_window (h : Serial S w wal) (hp : wal₀ <+: wal) {e : Nat}
    (hall : ∀ r ∈ feed wal₀, r.1 ≤ e) : feed wal₀ <+: window 0 e (feed wal) := by
  obtain ⟨rest, hrest⟩ := feed_mono hp
  -- everything that was there lies in the window
  have hself : (feed wal₀).filter (fun r => 0 < r.1 ∧ r.1 ≤ e) = feed wal₀ := by
    refine List.filter_eq_self.mpr fun r hr => ?_
    have := (h.of_prefix hp).feedInv.positive r hr
    have := hall r hr
    simp only [decide_eq_true_eq]
    omega
  rw [← hrest, window, List.filter_append, hself]
  exact List.prefix_append ..

/-- A window of the feed from its start is a front part of it. -/
theorem window_le_feed (h : Serial S w wal) (e : Nat) : window 0 e (feed wal) <+: feed wal := by
  have hsorted := h.feedInv.pairwise
  have hpositive := h.feedInv.positive
  generalize feed wal = l at hsorted hpositive
  induction l with
  | nil => exact List.prefix_rfl
  | cons r l ih =>
    obtain ⟨hr, hl⟩ := List.pairwise_cons.mp hsorted
    have hpos := hpositive r (List.mem_cons_self ..)
    -- the feed is sorted, so the window ends at the first record above its end
    by_cases he : r.1 ≤ e
    · rw [window, List.filter_cons, if_pos (by simp [hpos, he])]
      exact List.cons_prefix_cons.mpr ⟨rfl, ih hl fun x hx => hpositive x (List.mem_cons_of_mem _ hx)⟩
    · -- everything that follows is above the end as well
      have hnil : window 0 e (r :: l) = [] := by
        refine List.filter_eq_nil_iff.mpr fun x hx => ?_
        simp only [decide_eq_true_eq]
        rcases List.mem_cons.mp hx with rfl | hx
        · omega
        · have := hr x hx
          omega
      rw [hnil]
      exact List.nil_prefix

/-- A read of one record. -/
def sampleRead (cursor : Option CursorId) (now : Time) : Request :=
  .readChanges { cursor, limit := 1, now, cursorExpiresAt := now + 100 }

/-- Two folders are created, and a reader follows its cursor from one to the other. -/
def twoPages : List (Move Request (Choice Row Env)) :=
  alone 0 (sampleCreate none "a" .folder "A" 1) 9 {} ++
    alone 1 (sampleCreate none "b" .folder "B" 2) 9 {} ++
    alone 2 (sampleRead none 3) 9 { fresh := "x" } ++
    alone 3 (sampleRead (some "chgcur_x") 4) 11 { fresh := "y" }

/-- The commit is a purge of Changes. -/
def Label.prunes : Label → Bool
  | .purgeChanges _ => true
  | _ => false

end AnyStore
