import AnyStore.Lib.ReadCommitted

/-!
# What isolation gives

The facts about the store at READ COMMITTED that every proof about a program
rests on, whatever the schema:

* `EngineInv` — locks of different sessions never conflict, every pending write
  is locked by the session that made it, at most one session holds the advisory
  lock, and the unique index is unique and stays so whichever pending writes
  are committed.
* `exec_begin`, `exec_sql_tx`, `exec_sql_auto`, … — what one operation can do.
* `EngineInv.exec` — every operation keeps `EngineInv`.
* `Grants.lookup_replay` — a committed write set leaves alone every row that
  another session has locked, key-share locks apart.
* `Stmt.Refuses` — the errors that a statement has by itself; every other error is
  noted in `failed`.
-/

namespace ReadCommitted

variable {R K L X C α : Type} {Val : R → Type}
variable {ix : (r : R) → Val r → Option K}
variable {s s' s₁ s₂ s₃ : State Val L X} {t u : Nat}

/-! ## Sessions by name -/

/-- The open sessions. -/
theorem State.mem_entries_iff {e : Sigma fun _ : Nat => Session Val L} :
    e ∈ s.sessions.entries ↔ s.session e.1 = some e.2 :=
  AList.mem_lookup_iff.symm

@[simp] theorem State.session_setSession_self (sess : Session Val L) :
    (s.setSession t sess).session t = some sess :=
  AList.lookup_insert s.sessions

/-- Other sessions stay. -/
theorem State.session_setSession_ne (sess : Session Val L) (h : u ≠ t) :
    (s.setSession t sess).session u = s.session u :=
  AList.lookup_insert_ne h

@[simp] theorem State.session_close_self : (s.close t).session t = none :=
  AList.lookup_erase t s.sessions

/-- They stay open when one is closed. -/
theorem State.session_close_ne (h : u ≠ t) : (s.close t).session u = s.session u :=
  AList.lookup_erase_ne h

@[simp] theorem State.session_fail : (s.fail t).session u = s.session u := rfl

/-! ## Moves of the world -/

/-- Every move of the world starts where the ones before it have led. -/
structure Ledger (rel : X → X → Prop) (s : State Val L X) : Prop where
  chained : s.moves.Pairwise fun m m' => rel m'.after m.before
  below : ∀ m ∈ s.moves, rel m.after s.world

namespace Ledger

variable {rel : X → X → Prop}

/-- Moves of the world alone are in the ledger. -/
theorem congr (h : Ledger rel s) (hworld : s'.world = s.world) (hmoves : s'.moves = s.moves) :
    Ledger rel s' := by
  refine ⟨?_, fun m hm => ?_⟩
  · rw [hmoves]
    exact h.chained
  · rw [hmoves] at hm
    rw [hworld]
    exact h.below m hm

/-- One move more, where the relation is a preorder. -/
theorem move (h : Ledger rel s) (hrefl : ∀ x, rel x x)
    (htrans : ∀ x y z, rel x y → rel y z → rel x z) {x : X} (hx : rel s.world x) :
    Ledger rel (s.move t x) := by
  refine ⟨List.pairwise_cons.mpr ⟨h.below, h.chained⟩, fun m hm => ?_⟩
  rcases List.mem_cons.mp hm with rfl | hm
  · exact hrefl x
  · exact htrans _ _ _ (h.below m hm) hx

/-- Of what stays true once it is, one move has made it true. -/
theorem unique (h : Ledger rel s) {p : X → Prop} (hp : ∀ x y, rel x y → p x → p y) {m m' : WorldMove X}
    (hm : m ∈ s.moves) (hm' : m' ∈ s.moves) (hbefore : ¬ p m.before) (hafter : p m.after)
    (hbefore' : ¬ p m'.before) (hafter' : p m'.after) : m = m' := by
  have hordered : m = m' ∨ rel m'.after m.before ∨ rel m.after m'.before := by
    refine List.Pairwise.forall_of_forall_of_flip
      (R := fun m m' : WorldMove X => m = m' ∨ rel m'.after m.before ∨ rel m.after m'.before)
      (fun _ _ => .inl rfl) ?_ ?_ hm hm'
    · exact h.chained.imp fun hlater => .inr (.inl hlater)
    · exact h.chained.imp fun hlater => .inr (.inr hlater)
  rcases hordered with hsame | hlater | hearlier
  · exact hsame
  -- what the later of two moves has made true was true already
  · exact absurd (hp _ _ hlater hafter') hbefore
  · exact absurd (hp _ _ hearlier hafter) hbefore'

end Ledger

/-! ## Locks -/

/-- What is granted, in terms of the open sessions. -/
theorem State.grants_iff {locks : List (R × LockMode)} :
    s.Grants t locks ↔ ∀ u su, u ≠ t → s.session u = some su →
      ∀ l ∈ locks, ∀ l' ∈ su.locks, l'.1 = l.1 → l.2.conflicts l'.2 = false := by
  constructor
  · intro h u su hu hs
    exact h ⟨u, su⟩ (State.mem_entries_iff.mpr hs) hu
  · intro h e he hne
    exact h e.1 e.2 hne (State.mem_entries_iff.mp he)

/-- Locks are granted one by one. -/
theorem State.Grants.append {l₁ l₂ : List (R × LockMode)} (h₁ : s.Grants t l₁)
    (h₂ : s.Grants t l₂) : s.Grants t (l₁ ++ l₂) := by
  intro e he hne l hl
  rcases List.mem_append.mp hl with hl | hl
  · exact h₁ e he hne l hl
  · exact h₂ e he hne l hl

/-- A row locked by another session in a mode stronger than key share is not
among the rows a session may write. -/
theorem State.Grants.not_written {locks : List (R × LockMode)} (h : s.Grants t locks)
    {su : Session Val L} (hu : u ≠ t) (hs : s.session u = some su) {r : R} {m : LockMode}
    (hm : (r, m) ∈ su.locks) (hkey : m ≠ .keyShare) : (r, LockMode.noKeyUpdate) ∉ locks := by
  intro hl
  have := State.grants_iff.mp h u su hu hs _ hl _ hm rfl
  cases m <;> simp_all [LockMode.conflicts]

/-- The failed session is listed. -/
theorem State.mem_failed_fail (t : Nat) (s : State Val L X) : t ∈ (s.fail t).failed :=
  List.mem_cons_self ..

/-! ## Publishing -/

variable [DecidableEq R]

@[simp] theorem State.session_publish (label : L) (ws : List (Write Val)) :
    (s.publish label ws).session u = s.session u := by
  unfold State.publish
  split <;> rfl

@[simp] theorem State.db_publish (label : L) (ws : List (Write Val)) :
    (s.publish label ws).db = replay ws s.db := by
  unfold State.publish
  split
  · next h => rw [List.isEmpty_iff.mp h, replay_nil]
  · rfl

/-- The journal grows by one entry. -/
theorem State.wal_publish (label : L) (ws : List (Write Val)) (h : ws ≠ []) :
    (s.publish label ws).wal = s.wal ++ [(label, ws)] := by
  rw [State.publish, if_neg (by simpa using h)]

@[simp] theorem State.seq_publish (label : L) (ws : List (Write Val)) :
    (s.publish label ws).seq = s.seq := by
  unfold State.publish
  split <;> rfl

@[simp] theorem State.world_publish (label : L) (ws : List (Write Val)) :
    (s.publish label ws).world = s.world := by
  unfold State.publish
  split <;> rfl

@[simp] theorem State.failed_publish (label : L) (ws : List (Write Val)) :
    (s.publish label ws).failed = s.failed := by
  unfold State.publish
  split <;> rfl

@[simp] theorem State.moves_publish (label : L) (ws : List (Write Val)) :
    (s.publish label ws).moves = s.moves := by
  unfold State.publish
  split <;> rfl

/-- Nobody is taken off the list. -/
theorem State.subset_failed_publish (s : State Val L X) (label : L) (ws : List (Write Val)) :
    s.failed ⊆ (s.publish label ws).failed := by
  rw [State.failed_publish]
  exact List.Subset.refl _

/-- A session sees the committed rows and its own writes, -/
theorem State.view_of_session {sess : Session Val L} (h : s.session t = some sess) :
    s.view t = replay sess.log s.db := by
  rw [State.view, h]

/-- and everybody else the committed rows. -/
theorem State.view_of_none (h : s.session t = none) : s.view t = s.db := by
  rw [State.view, h]

/-- **Frame.** Publishing writes that a session holds leaves the rows alone that
other sessions have locked. -/
theorem State.Grants.lookup_replay {locks : List (R × LockMode)} {ws : List (Write Val)}
    (h : s.Grants t locks) (howns : ∀ w ∈ ws, (w.1, LockMode.noKeyUpdate) ∈ locks)
    {su : Session Val L} (hu : u ≠ t) (hs : s.session u = some su) {r : R} {m : LockMode}
    (hm : (r, m) ∈ su.locks) (hkey : m ≠ .keyShare) :
    (replay ws s.db).lookup r = s.db.lookup r := by
  refine lookup_replay_of_not_mem (fun hr => ?_) s.db
  obtain ⟨w, hw, rfl⟩ := List.mem_map.mp hr
  exact h.not_written hu hs hm hkey (howns w hw)

/-! ## Keys -/

/-- Two index keys do not collide; an absent key collides with nothing. -/
def Distinct (k k' : Option K) : Prop := k = none ∨ k ≠ k'

theorem Distinct.symm {k k' : Option K} (h : Distinct k k') : Distinct k' k := by
  rcases h with rfl | h
  · rcases Option.eq_none_or_eq_some k' with rfl | ⟨a, rfl⟩
    · exact .inl rfl
    · exact .inr (by simp)
  · exact .inr (Ne.symm h)

/-- A row that is not written keeps its key, -/
theorem keyOf_replay_of_not_mem {ws : List (Write Val)} {r : R} (h : r ∉ ws.map Sigma.fst)
    (db : Db Val) : keyOf ix r (replay ws db) = keyOf ix r db := by
  rw [keyOf, keyOf, lookup_replay_of_not_mem h]

/-- and one that is written has the key of its last version. -/
theorem keyOf_replay_of_mem {ws : List (Write Val)} {r : R} (h : r ∈ ws.map Sigma.fst)
    (db db' : Db Val) : keyOf ix r (replay ws db) = keyOf ix r (replay ws db') := by
  rw [keyOf, keyOf, lookup_replay_of_mem h db db']

/-- No two rows have one key. -/
theorem indexOk_iff {view : Db Val} {ws : List (Write Val)} :
    IndexOk ix view ws ↔ ∀ w ∈ ws, ∀ r, r ≠ w.1 →
      Distinct (keyOf ix w.1 view) (keyOf ix r view) := by
  constructor
  · intro h w hw r hr
    by_cases hk : r ∈ view.keys
    · exact h w hw r hk hr
    · -- an absent row has no key
      have hnone : keyOf ix r view = none := by
        rw [keyOf, AList.lookup_eq_none.mpr hk, Option.bind_none]
      rw [hnone]
      exact (Distinct.symm (.inl rfl))
  · intro h w hw r _ hr
    exact h w hw r hr

/-- No open transaction may still take or release the key. -/
theorem indexFree_iff {view : Db Val} {ws : List (Write Val)} :
    s.IndexFree ix t view ws ↔ ∀ u su, u ≠ t → s.session u = some su →
      ∀ w' ∈ su.log, ∀ w ∈ ws, w'.1 ≠ w.1 → keyOf ix w.1 view = none ∨
        keyOf ix w.1 view ≠ keyOf ix w'.1 s.db ∧
          keyOf ix w.1 view ≠ keyOf ix w'.1 (replay su.log s.db) := by
  constructor
  · intro h u su hu hs
    exact h ⟨u, su⟩ (State.mem_entries_iff.mpr hs) hu
  · intro h e he hne
    exact h e.1 e.2 hne (State.mem_entries_iff.mp he)

/-! ## The invariant -/

/-- Session `t` may publish this log: its rows are locked, no other session
holds a conflicting lock, and its keys collide with nothing that is committed
or pending. -/
structure State.Holds (s : State Val L X) (ix : (r : R) → Val r → Option K) (t : Nat)
    (log : List (Write Val)) (locks : List (R × LockMode)) : Prop where
  owns : ∀ w ∈ log, (w.1, LockMode.noKeyUpdate) ∈ locks
  grants : s.Grants t locks
  own : ∀ w ∈ log, ∀ r, r ≠ w.1 →
    Distinct (keyOf ix w.1 (replay log s.db)) (keyOf ix r (replay log s.db))
  cross : ∀ u su, u ≠ t → s.session u = some su → ∀ w ∈ log, ∀ w' ∈ su.log, w.1 ≠ w'.1 →
    Distinct (keyOf ix w.1 (replay log s.db)) (keyOf ix w'.1 (replay su.log s.db))

structure EngineInv (ix : (r : R) → Val r → Option K) (s : State Val L X) : Prop where
  holds : ∀ t sess, s.session t = some sess → s.Holds ix t sess.log sess.locks
  advisory : ∀ t u st su, t ≠ u → s.session t = some st → s.session u = some su →
    st.advisory = true → su.advisory = false
  unique : ∀ r r', r ≠ r' → Distinct (keyOf ix r s.db) (keyOf ix r' s.db)

/-- It speaks of rows and sessions. -/
theorem EngineInv.congr (h : EngineInv ix s) (hdb : s'.db = s.db)
    (hsessions : s'.sessions = s.sessions) : EngineInv ix s' := by
  have hsession : ∀ u, s'.session u = s.session u := fun u => by
    rw [State.session, hsessions, State.session]
  refine ⟨fun t sess ht => ?_, fun t u st su hne ht hu => ?_, fun r r' hne => ?_⟩
  · have hold := h.holds t sess (by rw [← hsession, ht])
    refine ⟨hold.owns, ?_, ?_, ?_⟩
    · rw [State.Grants, hsessions]
      exact hold.grants
    · rw [hdb]
      exact hold.own
    · intro u su hu hs
      rw [hdb]
      exact hold.cross u su hu (by rw [← hsession, hs])
  · exact h.advisory t u st su hne (by rw [← hsession, ht]) (by rw [← hsession, hu])
  · rw [hdb]
    exact h.unique r r' hne

/-- Closing a session only removes obligations. -/
theorem EngineInv.close (h : EngineInv ix s) : EngineInv ix (s.close t) := by
  have hsub : ∀ u su, (s.close t).session u = some su → s.session u = some su := by
    intro u su hu
    rcases eq_or_ne u t with rfl | hne
    · rw [State.session_close_self] at hu
      cases hu
    · rwa [State.session_close_ne hne] at hu
  refine ⟨fun u su hu => ?_, fun u v su sv hne hu hv => ?_, h.unique⟩
  · have hold := h.holds u su (hsub u su hu)
    refine ⟨hold.owns, ?_, hold.own, fun v sv hv hs => hold.cross v sv hv (hsub v sv hs)⟩
    exact State.grants_iff.mpr fun v sv hv hs =>
      State.grants_iff.mp hold.grants v sv hv (hsub v sv hs)
  · exact h.advisory u v su sv hne (hsub u su hu) (hsub v sv hv)

/-- Entering a session that holds its log next to the others. -/
theorem EngineInv.setSession (h : EngineInv ix s) {sess : Session Val L}
    (hold : s.Holds ix t sess.log sess.locks)
    (hadv : sess.advisory = true → s.AdvisoryFree t) : EngineInv ix (s.setSession t sess) := by
  have hother : ∀ u, u ≠ t → (s.setSession t sess).session u = s.session u := fun u hu =>
    State.session_setSession_ne sess hu
  have hfree : ∀ u su, u ≠ t → s.session u = some su → sess.advisory = true →
      su.advisory = false := fun u su hu hs ha =>
    hadv ha ⟨u, su⟩ (State.mem_entries_iff.mpr hs) hu
  refine ⟨fun u su hu => ?_, fun u v su sv hne hu hv => ?_, h.unique⟩
  · rcases eq_or_ne u t with rfl | hut
    · obtain rfl : sess = su := by
        rw [State.session_setSession_self] at hu
        exact Option.some.inj hu
      refine ⟨hold.owns, State.grants_iff.mpr fun v sv hv hs => ?_, hold.own, fun v sv hv hs => ?_⟩
      · exact State.grants_iff.mp hold.grants v sv hv (by rw [← hother v hv, hs])
      · exact hold.cross v sv hv (by rw [← hother v hv, hs])
    · rw [hother u hut] at hu
      have hu' := h.holds u su hu
      refine ⟨hu'.owns, State.grants_iff.mpr fun v sv hv hs => ?_, hu'.own, fun v sv hv hs => ?_⟩
      · rcases eq_or_ne v t with rfl | hvt
        · -- conflicts are symmetric, so the grant of `t` is one for `u`
          rw [State.session_setSession_self] at hs
          cases hs
          intro l hl l' hl' he
          rw [LockMode.conflicts_comm]
          exact State.grants_iff.mp hold.grants u su hut hu l' hl' l hl he.symm
        · exact State.grants_iff.mp hu'.grants v sv hv (by rw [← hother v hvt, hs])
      · rcases eq_or_ne v t with rfl | hvt
        · rw [State.session_setSession_self] at hs
          cases hs
          intro w hw w' hw' hne
          exact (hold.cross u su hut hu w' hw' w hw hne.symm).symm
        · exact hu'.cross v sv hv (by rw [← hother v hvt, hs])
  · intro ha
    rcases eq_or_ne u t with rfl | hut
    · rw [State.session_setSession_self] at hu
      cases hu
      exact hfree v sv (Ne.symm hne) (by rw [← hother v (Ne.symm hne), hv]) ha
    · rw [hother u hut] at hu
      rcases eq_or_ne v t with rfl | hvt
      · rw [State.session_setSession_self] at hv
        cases hv
        by_contra hsess
        have hfu := hfree u su hut hu (by simpa using hsess)
        rw [ha] at hfu
        cases hfu
      · exact h.advisory u v su sv hne hu (by rw [← hother v hvt, hv]) ha

/-- Publishing a log that session `t` holds. The session itself is closed. -/
theorem EngineInv.publish (h : EngineInv ix s) (ht : s.session t = none) {log : List (Write Val)}
    {locks : List (R × LockMode)} (hold : s.Holds ix t log locks) (label : L) :
    EngineInv ix (s.publish label log) := by
  have hmem : ∀ {r}, r ∈ log.map Sigma.fst → ∃ w ∈ log, w.1 = r := fun hr => List.mem_map.mp hr
  have hne : ∀ u su, s.session u = some su → u ≠ t := by
    rintro u su hu rfl
    rw [ht] at hu
    cases hu
  -- no other session has written a published row
  have hdisj : ∀ u su, s.session u = some su → ∀ w' ∈ su.log, w'.1 ∉ log.map Sigma.fst := by
    intro u su hu w' hw' hr
    obtain ⟨w, hw, he⟩ := hmem hr
    have hlock := (h.holds u su hu).owns w' hw'
    exact hold.grants.not_written (hne u su hu) hu hlock (by simp) (he ▸ hold.owns w hw)
  refine ⟨fun u su hu => ?_, fun u v su sv huv hu hv => ?_, fun r r' hrr => ?_⟩
  · rw [State.session_publish] at hu
    have hu' := h.holds u su hu
    have hut := hne u su hu
    refine ⟨hu'.owns, State.grants_iff.mpr fun v sv hv hs => ?_, fun w hw r hr => ?_,
      fun v sv hv hs w hw w' hw' hww => ?_⟩
    · rw [State.session_publish] at hs
      exact State.grants_iff.mp hu'.grants v sv hv hs
    · rw [State.db_publish]
      have hself : keyOf ix w.1 (replay su.log (replay log s.db)) =
          keyOf ix w.1 (replay su.log s.db) :=
        keyOf_replay_of_mem (List.mem_map_of_mem hw) _ _
      rw [hself]
      by_cases hr₁ : r ∈ su.log.map Sigma.fst
      · rw [keyOf_replay_of_mem hr₁ _ s.db]
        exact hu'.own w hw r hr
      · rw [keyOf_replay_of_not_mem hr₁]
        by_cases hr₂ : r ∈ log.map Sigma.fst
        · -- the pending keys of two sessions do not collide
          obtain ⟨w₂, hw₂, rfl⟩ := hmem hr₂
          exact (hold.cross u su hut hu w₂ hw₂ w hw hr).symm
        · rw [keyOf_replay_of_not_mem hr₂]
          have := hu'.own w hw r hr
          rwa [keyOf_replay_of_not_mem hr₁] at this
    · rw [State.session_publish] at hs
      rw [State.db_publish, keyOf_replay_of_mem (List.mem_map_of_mem hw) _ s.db,
        keyOf_replay_of_mem (List.mem_map_of_mem hw') _ s.db]
      exact hu'.cross v sv hv hs w hw w' hw' hww
  · rw [State.session_publish] at hu hv
    exact h.advisory u v su sv huv hu hv
  · rw [State.db_publish]
    by_cases hr : r ∈ log.map Sigma.fst
    · obtain ⟨w, hw, rfl⟩ := hmem hr
      exact hold.own w hw r' hrr.symm
    · by_cases hr' : r' ∈ log.map Sigma.fst
      · obtain ⟨w, hw, rfl⟩ := hmem hr'
        exact (hold.own w hw r hrr).symm
      · rw [keyOf_replay_of_not_mem hr, keyOf_replay_of_not_mem hr']
        exact h.unique r r' hrr

/-- What the checks of a statement give: the session holds its longer log. -/
theorem State.Holds.append {log : List (Write Val)}
    {locks : List (R × LockMode)} (hold : s.Holds ix t log locks) {a : Answer Val α}
    (hgrants : s.Grants t a.allLocks)
    (hfree : s.IndexFree ix t (replay a.writes (replay log s.db)) a.writes)
    (hok : IndexOk ix (replay a.writes (replay log s.db)) a.writes) :
    s.Holds ix t (log ++ a.writes) (locks ++ a.allLocks) := by
  rw [indexOk_iff] at hok
  rw [indexFree_iff] at hfree
  refine ⟨fun w hw => ?_, hold.grants.append hgrants, fun w hw r hr => ?_,
    fun u su hu hs w hw w' hw' hne => ?_⟩
  · rcases List.mem_append.mp hw with hw | hw
    · exact List.mem_append_left _ (hold.owns w hw)
    · refine List.mem_append_right _ (List.mem_append_right _ ?_)
      exact List.mem_map.mpr ⟨w, hw, rfl⟩
  · rw [replay_append]
    -- the row is written by the new statement, or was written before
    by_cases hnew : w.1 ∈ a.writes.map Sigma.fst
    · obtain ⟨w₂, hw₂, he⟩ := List.mem_map.mp hnew
      rw [← he]
      exact hok w₂ hw₂ r (he ▸ hr)
    · have hwlog : w ∈ log := (List.mem_append.mp hw).resolve_right fun hw =>
        hnew (List.mem_map_of_mem hw)
      -- the same question for the row that it is compared with
      by_cases hr₂ : r ∈ a.writes.map Sigma.fst
      · obtain ⟨w₂, hw₂, rfl⟩ := List.mem_map.mp hr₂
        exact (hok w₂ hw₂ w.1 hr.symm).symm
      · rw [keyOf_replay_of_not_mem hnew, keyOf_replay_of_not_mem hr₂]
        exact hold.own w hwlog r hr
  · rw [replay_append]
    by_cases hnew : w.1 ∈ a.writes.map Sigma.fst
    · obtain ⟨w₂, hw₂, he⟩ := List.mem_map.mp hnew
      have := hfree u su hu hs w' hw' w₂ hw₂ (he ▸ hne.symm)
      rw [← he]
      exact this.imp_right And.right
    · have hwlog : w ∈ log := (List.mem_append.mp hw).resolve_right fun hw =>
        hnew (List.mem_map_of_mem hw)
      rw [keyOf_replay_of_not_mem hnew]
      exact hold.cross u su hu hs w hwlog w' hw' hne

/-- A new session holds nothing. -/
theorem State.holds_nil : s.Holds ix t [] [] :=
  ⟨by simp, fun _ _ _ _ hl => absurd hl List.not_mem_nil, by simp, by simp⟩

/-! ## What one operation does -/

/-- A step of session `t` that publishes nothing. -/
structure Silent (ix : (r : R) → Val r → Option K) (t : Nat) (s s' : State Val L X) : Prop where
  db : s'.db = s.db
  wal : s'.wal = s.wal
  world : s'.world = s.world
  seq : s.seq ≤ s'.seq
  others : ∀ u, u ≠ t → s'.session u = s.session u
  engine : EngineInv ix s'
  failed : s.failed ⊆ s'.failed
  moves : s'.moves = s.moves

/-- A step of session `t` that publishes the write set `ws`. -/
structure Published (ix : (r : R) → Val r → Option K) (t : Nat) (label : L)
    (ws : List (Write Val)) (s s' : State Val L X) : Prop where
  nonempty : ws ≠ []
  db : s'.db = replay ws s.db
  wal : s'.wal = s.wal ++ [(label, ws)]
  world : s'.world = s.world
  seq : s'.seq = s.seq
  closed : s'.session t = none
  others : ∀ u, u ≠ t → s'.session u = s.session u
  free : s.Grants t (ws.map fun w => (w.1, .noKeyUpdate))
  engine : EngineInv ix s'
  failed : s.failed ⊆ s'.failed
  moves : s'.moves = s.moves

/-- Nothing was done. -/
theorem Silent.refl (h : EngineInv ix s) : Silent ix t s s :=
  ⟨rfl, rfl, rfl, le_rfl, fun _ _ => rfl, h, List.Subset.refl _, rfl⟩

/-- A session is changed. -/
theorem Silent.setSession {sess : Session Val L} (h : EngineInv ix (s.setSession t sess)) :
    Silent ix t s (s.setSession t sess) :=
  ⟨rfl, rfl, rfl, le_rfl, fun _ hu => State.session_setSession_ne sess hu, h, List.Subset.refl _, rfl⟩

/-- A session is closed. -/
theorem Silent.close (h : EngineInv ix s) : Silent ix t s (s.close t) :=
  ⟨rfl, rfl, rfl, le_rfl, fun _ hu => State.session_close_ne hu, h.close, List.Subset.refl _, rfl⟩

/-- The call fails on top of what the step did. -/
theorem Silent.fail (h : Silent ix t s s') : Silent ix t s (s'.fail t) :=
  ⟨h.db, h.wal, h.world, h.seq, h.others, h.engine.congr rfl rfl,
    List.Subset.trans h.failed (List.subset_cons_self ..), h.moves⟩

/-- The commit may be published although its answer was lost. -/
theorem Published.fail {label : L} {ws : List (Write Val)} (h : Published ix t label ws s s') :
    Published ix t label ws s (s'.fail t) :=
  ⟨h.nonempty, h.db, h.wal, h.world, h.seq, h.closed, h.others, h.free, h.engine.congr rfl rfl,
    List.Subset.trans h.failed (List.subset_cons_self ..), h.moves⟩

/-- Publishing a log that the session holds, once the session is closed. -/
theorem Published.of_holds (h : EngineInv ix s) {log : List (Write Val)}
    {locks : List (R × LockMode)} (hold : s.Holds ix t log locks) (label : L) (hne : log ≠ []) :
    Published ix t label log s ((s.close t).publish label log) := by
  -- closing a session takes no lock from the others
  have hold' : (s.close t).Holds ix t log locks := by
    refine ⟨hold.owns, State.grants_iff.mpr fun u su hu hs => ?_, hold.own, fun u su hu hs => ?_⟩
    · rw [State.session_close_ne hu] at hs
      exact State.grants_iff.mp hold.grants u su hu hs
    · rw [State.session_close_ne hu] at hs
      exact hold.cross u su hu hs
  refine ⟨hne, State.db_publish .., State.wal_publish _ _ hne, State.world_publish ..,
    State.seq_publish .., ?_, fun u hu => ?_, fun e he hne' l hl => ?_, ?_,
    (s.close t).subset_failed_publish label log, State.moves_publish ..⟩
  · rw [State.session_publish, State.session_close_self]
  · rw [State.session_publish, State.session_close_ne hu]
  · obtain ⟨w, hw, rfl⟩ := List.mem_map.mp hl
    exact hold.grants e he hne' _ (hold.owns w hw)
  · exact h.close.publish State.session_close_self hold' label

variable [DecidableEq K] {ch : Choice R C}

/-- **Begin.** A new session, or a failure. -/
theorem exec_begin (h : EngineInv ix s) {label : L} {r : Except SqlError Unit}
    (he : exec ix t ch (.begin label : Cmd Val L C X _) s = some (r, s')) :
    Silent ix t s s' ∧ ((∃ e, r = .error e ∧ s' = s.fail t) ∨
      (r = .ok () ∧ s'.session t = some { label })) := by
  simp only [exec] at he
  split at he
  · split at he
    · obtain ⟨rfl, rfl⟩ := he
      have hinv : EngineInv ix (s.setSession t { label }) := h.setSession State.holds_nil (by simp)
      exact ⟨.setSession hinv, .inr ⟨rfl, State.session_setSession_self _⟩⟩
    · cases he
  · obtain ⟨rfl, rfl⟩ := he
    exact ⟨(Silent.refl h).fail, .inl ⟨_, rfl, rfl⟩⟩
  · obtain ⟨rfl, rfl⟩ := he
    exact ⟨(Silent.refl h).fail, .inl ⟨_, rfl, rfl⟩⟩

/-- The statement has an error of its own in this view: it refuses, or the
unique index does. -/
def Stmt.Refuses (ix : (r : R) → Val r → Option K) (stmt : Stmt Val L α) (view : Db Val)
    (e : SqlError) : Prop :=
  ∃ scan, stmt.run scan view = .error e ∨ ∃ a, stmt.run scan view = .ok a ∧
    ¬ IndexOk ix (replay a.writes view) a.writes ∧ e = .uniqueIndex

/-- What the checks of a statement amount to. -/
theorem execSql_cases {rank : R → Nat} {stmt : Stmt Val L α} {r : Except SqlError α}
    (he : execSql ix t rank stmt s = some (r, s')) :
    (∃ e, r = .error e ∧ s' = s ∧ stmt.Refuses ix (s.view t) e) ∨
      ∃ scan a, stmt.run scan (s.view t) = .ok a ∧
      r = .ok a.result ∧ s' = s.record t stmt.label a ∧ s.Grants t a.allLocks ∧
      s.Quiet t a.waits ∧ s.IndexFree ix t (replay a.writes (s.view t)) a.writes ∧
      IndexOk ix (replay a.writes (s.view t)) a.writes := by
  unfold execSql at he
  -- it is refused by its own condition, waits, or is refused by the index
  split at he
  · next e herror =>
    obtain ⟨rfl, rfl⟩ := he
    exact .inl ⟨e, rfl, rfl, _, .inl herror⟩
  · next a ha =>
    split at he
    · next hc =>
      split at he
      · next hok =>
        obtain ⟨rfl, rfl⟩ := he
        exact .inr ⟨_, a, ha, rfl, rfl, hc.1, hc.2.1, hc.2.2, hok⟩
      · next hindex =>
        obtain ⟨rfl, rfl⟩ := he
        exact .inl ⟨_, rfl, rfl, _, .inr ⟨a, ha, hindex, rfl⟩⟩
    · cases he

/-- **Statement.** The write set grows, or the statement is refused, or its call has failed. -/
theorem exec_sql_tx (h : EngineInv ix s) {sess : Session Val L} (ht : s.session t = some sess)
    {stmt : Stmt Val L α} {r : Except SqlError α}
    (he : exec ix t ch (.sql stmt : Cmd Val L C X _) s = some (r, s')) :
    Silent ix t s s' ∧ ((∃ e, r = .error e ∧ s' = s.fail t) ∨
      (∃ e, r = .error e ∧ s' = s ∧ stmt.Refuses ix (replay sess.log s.db) e) ∨
      ∃ scan a, stmt.run scan (replay sess.log s.db) = .ok a ∧ r = .ok a.result ∧
        s'.session t = some (sess.extend a) ∧ s.Grants t a.allLocks ∧ s.Quiet t a.waits) := by
  simp only [exec, ht] at he
  split at he
  · obtain ⟨e, rfl, rfl, hrefuses⟩ | ⟨scan, a, ha, rfl, rfl, hgrants, hquiet, hfree, hok⟩ :=
      execSql_cases he
    · rw [State.view_of_session ht] at hrefuses
      exact ⟨.refl h, .inr (.inl ⟨e, rfl, rfl, hrefuses⟩)⟩
    · rw [State.view_of_session ht] at ha hfree hok
      -- the rows of the statement are locked now, too
      have hold := (h.holds t sess ht).append hgrants hfree hok
      have hinv : EngineInv ix (s.setSession t (sess.extend a)) :=
        h.setSession hold fun ha e he hne =>
          h.advisory t e.1 sess e.2 (Ne.symm hne) ht (State.mem_entries_iff.mp he) ha
      rw [State.record, ht]
      exact ⟨.setSession hinv, .inr (.inr ⟨scan, a, ha, rfl, State.session_setSession_self _,
        hgrants, hquiet⟩)⟩
  · obtain ⟨rfl, rfl⟩ := he
    exact ⟨(Silent.refl h).fail, .inl ⟨_, rfl, rfl⟩⟩
  · obtain ⟨rfl, rfl⟩ := he
    exact ⟨(Silent.refl h).fail, .inl ⟨_, rfl, rfl⟩⟩

/-- A statement outside a transaction; the client may see an error although it
was published. -/
theorem exec_sql_auto (h : EngineInv ix s) (ht : s.session t = none)
    {stmt : Stmt Val L α} {r : Except SqlError α}
    (he : exec ix t ch (.sql stmt : Cmd Val L C X _) s = some (r, s')) :
    (∃ e, r = .error e ∧ s' = s.fail t) ∨
      (∃ e, r = .error e ∧ s' = s ∧ stmt.Refuses ix s.db e) ∨
      ∃ scan a, stmt.run scan s.db = .ok a ∧ s.Quiet t a.waits ∧
        (r = .ok a.result ∧ (a.writes = [] ∧ s' = s ∨ Published ix t stmt.label a.writes s s') ∨
        (∃ e, r = .error e) ∧ t ∈ s'.failed ∧ Published ix t stmt.label a.writes s s') := by
  have key : ∀ {r : Except SqlError α} {s'}, execSql ix t ch.rank stmt s = some (r, s') →
      (∃ e, r = .error e ∧ s' = s ∧ stmt.Refuses ix s.db e) ∨
      ∃ scan a, stmt.run scan s.db = .ok a ∧ s.Quiet t a.waits ∧ r = .ok a.result ∧
        (a.writes = [] ∧ s' = s ∨ Published ix t stmt.label a.writes s s') := by
    intro r s' he
    obtain ⟨e, rfl, rfl, hrefuses⟩ | ⟨scan, a, ha, rfl, rfl, hgrants, hquiet, hfree, hok⟩ :=
      execSql_cases he
    · rw [State.view_of_none ht] at hrefuses
      exact .inl ⟨e, rfl, rfl, hrefuses⟩
    · rw [State.view_of_none ht] at ha hfree hok
      refine .inr ⟨scan, a, ha, hquiet, rfl, ?_⟩
      rw [State.record, ht]
      by_cases hne : a.writes = []
      · refine .inl ⟨hne, ?_⟩
        simp [State.publish, hne]
      · have hold : s.Holds ix t a.writes a.allLocks :=
          State.holds_nil.append hgrants hfree hok
        have hp := Published.of_holds h hold stmt.label hne
        refine .inr ⟨hp.nonempty, State.db_publish .., State.wal_publish _ _ hne,
          State.world_publish .., State.seq_publish .., ?_, fun u _ => State.session_publish ..,
          hp.free, h.publish ht hold stmt.label, State.subset_failed_publish .., State.moves_publish ..⟩
        rw [State.session_publish, ht]
  simp only [exec] at he
  split at he
  · obtain hr | ⟨scan, a, ha, hquiet, hok⟩ := key he
    · exact .inr (.inl hr)
    · exact .inr (.inr ⟨scan, a, ha, hquiet, .inl hok⟩)
  · obtain ⟨rfl, rfl⟩ := he
    exact .inl ⟨_, rfl, rfl⟩
  · next e _ =>
    -- the acknowledgement is lost, the effect is not
    rw [ht] at he
    obtain ⟨⟨r', s''⟩, hr, heq⟩ := Option.map_eq_some_iff.mp he
    obtain ⟨rfl, rfl⟩ := heq
    obtain ⟨e', _, rfl, _⟩ | ⟨scan, a, ha, hquiet, _, ⟨_, rfl⟩ | hp⟩ := key hr
    · exact .inl ⟨e, rfl, rfl⟩
    · exact .inl ⟨e, rfl, rfl⟩
    · exact .inr (.inr ⟨scan, a, ha, hquiet, .inr ⟨⟨e, rfl⟩, State.mem_failed_fail .., hp.fail⟩⟩)

/-- **Advisory lock.** Nobody else has it then. -/
theorem exec_advisoryLock (h : EngineInv ix s) {r : Except SqlError Unit}
    (he : exec ix t ch (.advisoryLock : Cmd Val L C X _) s = some (r, s')) :
    Silent ix t s s' ∧ ((∃ e, r = .error e ∧ s' = s.fail t) ∨
      ∃ sess, s.session t = some sess ∧ r = .ok () ∧
        s'.session t = some { sess with advisory := true }) := by
  simp only [exec] at he
  split at he
  · next sess _ ht =>
    split at he
    · next hfree =>
      obtain ⟨rfl, rfl⟩ := he
      have hinv : EngineInv ix (s.setSession t { sess with advisory := true }) :=
        h.setSession (h.holds t sess ht) fun _ => hfree
      exact ⟨.setSession hinv, .inr ⟨sess, ht, rfl, State.session_setSession_self _⟩⟩
    · cases he
  · cases he
  · obtain ⟨rfl, rfl⟩ := he
    exact ⟨(Silent.refl h).fail, .inl ⟨_, rfl, rfl⟩⟩
  · obtain ⟨rfl, rfl⟩ := he
    exact ⟨(Silent.refl h).fail, .inl ⟨_, rfl, rfl⟩⟩

/-- **Sequence.** The numbers that were drawn; they are never drawn again. -/
theorem exec_nextval (h : EngineInv ix s) {n : Nat} {r : Except SqlError (List Nat)}
    (he : exec ix t ch (.nextval n : Cmd Val L C X _) s = some (r, s')) :
    Silent ix t s s' ∧ s'.sessions = s.sessions ∧ ((∃ e, r = .error e ∧ t ∈ s'.failed) ∨
      (r = .ok (List.range' (s.seq + 1) n) ∧ s'.seq = s.seq + n)) := by
  have hsilent : Silent ix t s { s with seq := s.seq + n } :=
    ⟨rfl, rfl, rfl, Nat.le_add_right .., fun _ _ => rfl, h.congr rfl rfl, List.Subset.refl _, rfl⟩
  simp only [exec] at he
  split at he
  · obtain ⟨rfl, rfl⟩ := he
    exact ⟨hsilent, rfl, .inr ⟨rfl, rfl⟩⟩
  · obtain ⟨rfl, rfl⟩ := he
    exact ⟨(Silent.refl h).fail, rfl, .inl ⟨_, rfl, State.mem_failed_fail ..⟩⟩
  · obtain ⟨rfl, rfl⟩ := he
    exact ⟨hsilent.fail, rfl, .inl ⟨_, rfl, State.mem_failed_fail ..⟩⟩

/-- **Commit.** The session is closed in any case. A lost answer may belong to a commit that was
made. -/
theorem exec_commit (h : EngineInv ix s) {sess : Session Val L} (ht : s.session t = some sess)
    {r : Except SqlError Unit}
    (he : exec ix t ch (.commit : Cmd Val L C X _) s = some (r, s')) :
    s'.session t = none ∧ (∀ e, r = .error e → t ∈ s'.failed) ∧
      ((∃ e, r = .error e) ∧ Silent ix t s s' ∨
      sess.log = [] ∧ Silent ix t s s' ∨ Published ix t sess.label sess.log s s') := by
  -- a transaction without writes publishes nothing
  have key : (sess.log = [] ∧ Silent ix t s ((s.close t).publish sess.label sess.log)) ∨
      Published ix t sess.label sess.log s ((s.close t).publish sess.label sess.log) := by
    by_cases hne : sess.log = []
    · refine .inl ⟨hne, ?_⟩
      rw [State.publish, if_pos (by simpa using hne)]
      exact .close h
    · exact .inr (.of_holds h (h.holds t sess ht) sess.label hne)
  simp only [exec, ht] at he
  split at he
  · obtain ⟨rfl, rfl⟩ := he
    exact ⟨by rw [State.session_publish, State.session_close_self], fun e he => (nomatch he), .inr key⟩
  · obtain ⟨rfl, rfl⟩ := he
    exact ⟨State.session_close_self, fun _ _ => State.mem_failed_fail .., .inl ⟨⟨_, rfl⟩,
      (Silent.close h).fail⟩⟩
  · obtain ⟨rfl, rfl⟩ := he
    refine ⟨?_, fun _ _ => State.mem_failed_fail .., .inr (key.imp (fun hk => ⟨hk.1, hk.2.fail⟩)
      Published.fail)⟩
    show ((s.close t).publish sess.label sess.log).session t = none
    rw [State.session_publish, State.session_close_self]

/-- **Rollback.** The writes are dropped. -/
theorem exec_rollback (h : EngineInv ix s) {r : Unit}
    (he : exec ix t ch (.rollback : Cmd Val L C X _) s = some (r, s')) :
    Silent ix t s s' ∧ s'.session t = none := by
  obtain ⟨rfl, rfl⟩ := he
  exact ⟨.close h, State.session_close_self⟩

/-- **World.** One move of what is outside. -/
theorem exec_world {op : WorldOp L C X α} {r : α}
    (he : exec ix t ch (.world op : Cmd Val L C X _) s = some (r, s')) :
    ∃ x, op.run ch.world s.world = some (r, x) ∧ s' = s.move t x := by
  obtain ⟨⟨r', x⟩, hr, heq⟩ := Option.map_eq_some_iff.mp he
  obtain ⟨rfl, rfl⟩ := heq
  exact ⟨x, hr, rfl⟩

end ReadCommitted
