import AnyStore.Properties.Blobs
import AnyStore.Refinement.Requests

/-!
# Conditional mutations

Of the mutations of an object that expect one revision at most one has an
effect, none succeeds once the object has moved on, and one that fails leaves
nothing behind.

## Results

* `conditional_writes` (`Linearizable`): the committed rows are those of the
  commits one after the other (`committed`); a conditional mutation is committed
  on the newest revision of its object (`matched`), at most one of them with an
  effect (`once`); a success says that the revision was there during the call, or
  replays a success that was (`answered`); a failure has committed nothing but
  steps of its idempotency record, unless the answer to the commit was lost
  (`failed`).

## Assumptions

Every run under either adapter. What a process has committed, and whether it was
told, is the ghost log of `Setting.Wrote`.
-/

namespace AnyStore

open ReadCommitted

variable {S : Setting} {c c' : System} {t : Nat}

/-! ## What a process has committed -/

/-- The answer to the operation arrives. -/
def Choice.arrives (ch : Choice Row Env) : Bool :=
  match ch.outcome with
  | .ok => true
  | _ => false

/-- What process `t` has committed in the run so far, and whether it was told. -/
inductive Setting.Wrote (S : Setting) (t : Nat) :
    System → List ((Label × List Write) × Bool) → Prop
  | init : S.Wrote t (.initial (initialState S.migratedAt)) []
  | own {c c' : System} {log} (ch : Choice Row Env) (h : S.Wrote t c log)
      (hG : S.regime.allows (.exec t ch) c)
      (hs : step? store (serve S.app) (.exec t ch) c = some c') :
      S.Wrote t c' (log ++ (c'.state.wal.drop c.state.wal.length).map (·, Choice.arrives ch))
  | other {c c' : System} {log} (m : Move Request (Choice Row Env)) (hm : ∀ ch, m ≠ .exec t ch)
      (h : S.Wrote t c log) (hG : S.regime.allows m c)
      (hs : step? store (serve S.app) m c = some c') : S.Wrote t c' log

/-- No mutation was committed with the knowledge of the process. -/
def Unmutated (log : List ((Label × List Write) × Bool)) : Prop :=
  ∀ e ∈ log, e.2 = true → e.1.1.mutates = false

/-- What the commits of a process say of it. -/
structure Setting.Written (S : Setting) (t : Nat) (c : System)
    (log : List ((Label × List Write) × Bool)) : Prop where
  runs : S.Runs c
  recorded : ∀ e ∈ log, e.1 ∈ c.state.wal
  unborn : c.threads t = .unborn → log = [] ∧ ∀ r ∈ c.replies, r.thread ≠ t
  running : ∀ req born p, c.threads t = .running req born p → (∀ e ∈ log, req.Utters S.app e.1.1) ∧
    (Unmutated log ∨ ∃ a, p = .ret a) ∧ ∀ r ∈ c.replies, r.thread ≠ t
  replied : ∀ r ∈ c.replies, r.thread = t → (∀ e ∈ log, r.req.Utters S.app e.1.1) ∧
    ∀ e, r.result = .error e → Unmutated log

/-- Once its mutation is committed a program can only answer. -/
theorem obeys_done {L : Label → Prop} {p : Prog Op DomainError Response}
    (h : p.Obeys (discipline L) Concludes .done) : ∃ a, p = .ret a := by
  cases p with
  | ret a => exact ⟨a, rfl⟩
  | fail e =>
    rcases h with h | ⟨_, a, h⟩
    · cases h
    · cases h
  -- no operation is allowed any more
  | call op k =>
    exfalso
    cases op <;> exact h.1

/-- **Step.** The process itself moves. -/
theorem Setting.Written.own {log} (h : S.Written t c log) {ch : Choice Row Env}
    (hG : S.regime.allows (.exec t ch) c) (hs : step? store (serve S.app) (.exec t ch) c = some c') :
    S.Written t c'
      (log ++ (c'.state.wal.drop c.state.wal.length).map (·, Choice.arrives ch)) := by
  obtain ⟨_, _, hm, _⟩ | ⟨u, ch', req, born, β, op, k, b, s, hm, ht, he, hc'⟩ |
    ⟨_, _, _, _, hm, _⟩ | ⟨_, _, _, _, hm, _⟩ := step?_cases hs
  · cases hm
  · obtain ⟨rfl, rfl⟩ := Move.exec.inj hm
    obtain ⟨hutters, hpast, hreplies⟩ := h.running req born _ ht
    -- an operation is left to do, so no mutation is committed yet
    have hpast : Unmutated log := hpast.resolve_right fun ⟨a, ha⟩ => by cases ha
    have hthread : c'.threads t = .running req born (k b) := by
      rw [hc']
      exact Function.update_self ..
    have hsame : c'.replies = c.replies := by rw [hc']; rfl
    -- what the step adds fits the request, and ends it if it is the mutation
    have hnew : c.state.wal <+: c'.state.wal ∧ ∀ e ∈ c'.state.wal.drop c.state.wal.length,
        req.Utters S.app e.1 ∧ (Choice.arrives ch = true → e.1.mutates = true →
          ∃ a, k b = .ret a) := by
      -- a step adds at most one commit, and its label fits the request
      rcases Setting.Runs.adds h.runs hs with ⟨_, hwal⟩ | ⟨u, ch', req', born', p, x, hm, ht', _, hp, hadds⟩
      · rw [hwal, List.drop_length]
        exact ⟨List.prefix_rfl, fun e he => absurd he List.not_mem_nil⟩
      · obtain ⟨rfl, rfl⟩ := Move.exec.inj hm
        obtain ⟨rfl, _, rfl⟩ := Thread.running.inj (hthread.symm.trans ht')
        cases hadds with
        | nothing _ hwal =>
          rw [hwal, List.drop_length]
          exact ⟨List.prefix_rfl, fun e he => absurd he List.not_mem_nil⟩
        | commit label ws hwal hlabel hdone =>
          rw [hwal, List.drop_left]
          refine ⟨List.prefix_append .., fun e he => ?_⟩
          obtain rfl := List.mem_singleton.mp he
          refine ⟨hlabel, fun harrives hmutates => ?_⟩
          -- a mutation that was acknowledged is the last operation of the program
          rcases hdone hmutates with rfl | ⟨e, hlost⟩
          · exact obeys_done hp
          · rw [Choice.arrives, hlost] at harrives
            cases harrives
    obtain ⟨hgrows, hnew⟩ := hnew
    have hmem : ∀ {P : (Label × List Write) × Bool → Prop}, (∀ e ∈ log, P e) →
        (∀ e ∈ c'.state.wal.drop c.state.wal.length, P (e, Choice.arrives ch)) →
        ∀ e ∈ log ++ (c'.state.wal.drop c.state.wal.length).map (·, Choice.arrives ch), P e := by
      intro P hold hadded e he
      rcases List.mem_append.mp he with he | he
      · exact hold e he
      · obtain ⟨e', he', rfl⟩ := List.mem_map.mp he
        exact hadded e' he'
    refine ⟨.step _ h.runs hG hs, hmem (fun e he => hgrows.subset (h.recorded e he))
      fun e he => List.mem_of_mem_drop he, fun hu => ?_, fun req' born' p hr => ?_,
      fun r hr hrt => ?_⟩
    · rw [hthread] at hu
      cases hu
    · obtain ⟨rfl, _, rfl⟩ := Thread.running.inj (hthread.symm.trans hr)
      refine ⟨hmem hutters fun e he => (hnew e he).1, ?_, hsame ▸ hreplies⟩
      -- the program is about to answer, or has committed no mutation that it knows of
      by_cases hend : ∃ a, k b = .ret a
      · exact .inr hend
      · refine .inl (hmem hpast fun e he harrives => ?_)
        rw [Bool.eq_false_iff]
        exact fun hmutates => hend ((hnew e he).2 harrives hmutates)
    · exact absurd hrt (hreplies r (hsame ▸ hr))
  · cases hm
  · cases hm

/-- **Step.** The scheduler does something else. -/
theorem Setting.Written.other {log} (h : S.Written t c log) {m : Move Request (Choice Row Env)}
    (hm : ∀ ch, m ≠ .exec t ch) (hG : S.regime.allows m c)
    (hs : step? store (serve S.app) m c = some c') : S.Written t c' log := by
  have hruns : S.Runs c' := .step _ h.runs hG hs
  have hrecorded : ∀ e ∈ log, e.1 ∈ c'.state.wal := by
    intro e he
    have hgrows : c.state.wal <+: c'.state.wal := by
      rcases Setting.Runs.guar h.runs hG hs with heq | ⟨u, hguar⟩ | ⟨u, heq⟩
      · rw [heq]
      · exact hguar.later.wal
      · rw [heq]
        exact List.prefix_rfl
    exact hgrows.subset (h.recorded e he)
  obtain ⟨u, req, rfl, hu, rfl⟩ | ⟨u, ch, req, born, β, op, k, b, s, rfl, hu, he, rfl⟩ |
    ⟨u, req, born, r, rfl, hu, rfl⟩ | ⟨u, req, born, p, rfl, hu, rfl⟩ := step?_cases hs
  · rcases eq_or_ne t u with rfl | hne
    · -- the request comes in
      obtain ⟨rfl, hreplies⟩ := h.unborn hu
      refine ⟨hruns, hrecorded, fun _ => ⟨rfl, hreplies⟩, fun _ _ _ _ => ⟨?_, .inl ?_, hreplies⟩,
        fun r hr hrt => absurd hrt (hreplies r hr)⟩ <;> exact fun _ he => absurd he List.not_mem_nil
    · -- another request comes in
      have hself : (c.update u (.running req c.state (serve S.app req)) c.state).threads t =
          c.threads t := Function.update_of_ne hne ..
      exact ⟨hruns, hrecorded, fun ht => h.unborn (hself ▸ ht), fun _ _ _ ht =>
        h.running _ _ _ (hself ▸ ht), h.replied⟩
  · -- another process moves
    have hne : t ≠ u := by
      rintro rfl
      exact hm ch rfl
    have hself : (c.update u (.running req born (k b)) s).threads t = c.threads t :=
      Function.update_of_ne hne ..
    exact ⟨hruns, hrecorded, fun ht => h.unborn (hself ▸ ht), fun _ _ _ ht =>
      h.running _ _ _ (hself ▸ ht), h.replied⟩
  · rcases eq_or_ne t u with rfl | hne
    · -- the answer is given
      obtain ⟨hutters, hend, hreplies⟩ := h.running req born _ hu
      have hself : ((c.update t .ended c.state).answer ⟨t, req, born, r⟩).threads t = .ended :=
        Function.update_self ..
      refine ⟨hruns, hrecorded, fun ht => ?_, fun _ _ _ ht => ?_, fun r' hr' hrt => ?_⟩
      · rw [hself] at ht
        cases ht
      · rw [hself] at ht
        cases ht
      · rcases List.mem_append.mp hr' with hr' | hr'
        · exact absurd hrt (hreplies r' hr')
        · obtain rfl := List.mem_singleton.mp hr'
          refine ⟨hutters, fun e he => hend.resolve_right fun ⟨a, ha⟩ => ?_⟩
          have he : r = .error e := he
          rw [he] at ha
          cases ha
    · have hself : ((c.update u .ended c.state).answer ⟨u, req, born, r⟩).threads t = c.threads t :=
        Function.update_of_ne hne ..
      have hreply : (∀ r ∈ c.replies, r.thread ≠ t) → ∀ r' ∈ c.replies ++
          [(⟨u, req, born, r⟩ : Reply DbState Request DomainError Response)], r'.thread ≠ t := by
        intro hreplies r' hr'
        rcases List.mem_append.mp hr' with hr' | hr'
        · exact hreplies r' hr'
        · obtain rfl := List.mem_singleton.mp hr'
          exact hne.symm
      refine ⟨hruns, hrecorded, fun ht => ?_, fun req' born' p ht => ?_, fun r' hr' hrt => ?_⟩
      · obtain ⟨hlog, hreplies⟩ := h.unborn (hself ▸ ht)
        exact ⟨hlog, hreply hreplies⟩
      · obtain ⟨hutters, hend, hreplies⟩ := h.running req' born' p (hself ▸ ht)
        exact ⟨hutters, hend, hreply hreplies⟩
      · rcases List.mem_append.mp hr' with hr' | hr'
        · exact h.replied r' hr' hrt
        · obtain rfl := List.mem_singleton.mp hr'
          exact absurd hrt.symm hne
  · rcases eq_or_ne t u with rfl | hne
    · have hself : (c.update t .ended (store.crash t c.state)).threads t = .ended :=
        Function.update_self ..
      refine ⟨hruns, hrecorded, fun ht => ?_, fun _ _ _ ht => ?_, h.replied⟩ <;>
      · rw [hself] at ht
        cases ht
    · have hself : (c.update u .ended (store.crash u c.state)).threads t = c.threads t :=
        Function.update_of_ne hne ..
      exact ⟨hruns, hrecorded, fun ht => h.unborn (hself ▸ ht), fun _ _ _ ht =>
        h.running _ _ _ (hself ▸ ht), h.replied⟩

/-- **Run.** -/
theorem Setting.Wrote.written {log} (h : S.Wrote t c log) : S.Written t c log := by
  induction h with
  | init =>
    have hunborn : (Config.initial (initialState S.migratedAt) : System).threads t = .unborn := rfl
    refine ⟨.init, fun e he => absurd he List.not_mem_nil, fun _ =>
      ⟨rfl, fun r hr => absurd hr List.not_mem_nil⟩, fun _ _ _ ht => ?_,
      fun r hr => absurd hr List.not_mem_nil⟩
    rw [hunborn] at ht
    cases ht
  | own ch _ hG hs ih => exact ih.own hG hs
  | other m hm _ hG hs ih => exact ih.other hm hG hs

/-! ## Conditional mutations -/

/-- The request mutates the object if it has this revision. -/
def Request.Expects (S : Setting) (wal : Journal) (req : Request) (id : ObjectId)
    (expected : Revision) : Prop :=
  match req with
  | .mutate _ m => m.subject = some (id, some expected)
  | .completeUpload uploadId _ ctx => ctx.ifMatch = some expected ∧
      ∃ u, (S.rows wal).upload uploadId = some u ∧ u.objectId = id
  | _ => False

/-- The object is live with this revision, and never had a later one. -/
def UpToDate (S : Setting) (wal : Journal) (id : ObjectId) (expected : Revision) : Prop :=
  (∃ o, (S.rows wal).live id = some o ∧ o.revision = expected) ∧
    ∀ wal₀, wal₀ <+: wal → ∀ o, (S.rows wal₀).object id = some o → o.revision ≤ expected

/-- What the process has committed are the steps of its attempt around the
mutation, or the mutation itself without the process being told. -/
def LeftNothing (req : Request) (e : (Label × List Write) × Bool) : Prop :=
  e.1.1.mutates = true ∧ e.2 = false ∨ e.1.1.mutates = false ∧ ∀ ctx m, req = .mutate ctx m →
    ctx.Claims e.1.1 ∧ ∀ w ∈ e.1.2, w.1.table = .idempotency

/-- Conditional mutations take effect one after the other. -/
structure Linearizable (S : Setting) (c : System) : Prop where
  committed : c.state.db = S.rows c.state.wal
  matched : ∀ wal e, wal ++ [e] <+: c.state.wal → ∀ id expected,
    e.1.subject = some (id, some expected) → UpToDate S wal id expected
  -- after an effect no other one succeeds
  once : ∀ wal e wal' e', wal ++ [e] <+: wal' → wal' ++ [e'] <+: c.state.wal → ∀ id expected,
    e.1.subject = some (id, some expected) → e'.1.subject = some (id, some expected) →
    ¬ Effects e.2
  answered : ∀ r ∈ c.replies, ∀ response, r.result = .ok (.stored response) → ∀ id expected,
    r.req.Expects S c.state.wal id expected →
    (∃ wal, r.born.wal <+: wal ∧ wal <+: c.state.wal ∧ UpToDate S wal id expected) ∨
    ∃ ctx key, r.req.context = some ctx ∧ ctx.idempotencyKey = some key ∧
      Replays S r.born.wal c.state.wal (ctx.recordKey key) ctx.requestHash response
  failed : ∀ r ∈ c.replies, ∀ error, r.result = .error error → ∀ log, S.Wrote r.thread c log →
    ∀ e ∈ log, LeftNothing r.req e

/-- A live object has the largest revision it ever had. -/
theorem Serial.upToDate {w : World} {wal : Journal} (h : Serial S w wal) {id : ObjectId}
    {o : ObjectRow} {expected : Revision} (hlive : (S.rows wal).live id = some o)
    (hmatch : expected = o.revision) : UpToDate S wal id expected := by
  refine ⟨⟨o, hlive, hmatch.symm⟩, fun wal₀ hp o₀ ho₀ => ?_⟩
  -- revisions only grow
  obtain ⟨o', ho', hle⟩ := h.revision_le hp ho₀
  obtain rfl : o' = o := Option.some.inj (ho'.symm.trans (Db.live_eq_some.mp hlive).1)
  rw [hmatch]
  exact hle

/-- A revision that was checked was the newest at that time. -/
theorem Matched.upToDate {w : World} {wal₀ wal : Journal} (hserial : Serial S w wal)
    {id : ObjectId} {expected : Revision} (h : Matched S wal₀ wal id (some expected)) :
    ∃ wal₁, wal₀ <+: wal₁ ∧ wal₁ <+: wal ∧ UpToDate S wal₁ id expected := by
  obtain ⟨wal₁, o, h₀, h₁, hlive, hmatch⟩ := h
  exact ⟨wal₁, h₀, h₁, (hserial.of_prefix h₁).upToDate hlive (hmatch expected rfl)⟩

/-- Claims and releases are about the record alone. -/
theorem Commits.claims {w : World} {wal : Journal} {db : Db} {label : Label} {ws : List Write}
    {ctx : RequestContext} (h : Commits S w wal db label ws) (hclaims : ctx.Claims label) :
    ∀ w ∈ ws, w.1.table = .idempotency := by
  have hwrite : ∀ (ictx : IdempotencyContext) (r : Option IdempotencyRow),
      ∀ w ∈ [idempotencyWrite ictx r], w.1.table = .idempotency := by
    intro ictx r w hw
    rw [List.mem_singleton.mp hw]
    rfl
  obtain ⟨i, _, rfl | ⟨req, _, rfl | ⟨createdAt, rfl⟩⟩⟩ := hclaims
  · cases h with
    | steal req hlabel => rcases hlabel with hlabel | hlabel <;> cases hlabel
    | release => exact hwrite _ _
  · cases h with
    | claim => exact hwrite _ _
    | steal => exact hwrite _ _
  · cases h with
    | steal => exact hwrite _ _

/-- Statements without a command of their own write nothing. -/
theorem Commits.ne_other {w : World} {wal : Journal} {db : Db} {label : Label} {ws : List Write}
    (h : Commits S w wal db label ws) : label ≠ .other := by
  rintro rfl
  cases h with
  | steal req hlabel => rcases hlabel with hlabel | hlabel <;> cases hlabel

/-- What a failed call has left behind. -/
theorem Setting.Written.leftNothing {log} (h : S.Written t c log)
    {r : Reply DbState Request DomainError Response} (hr : r ∈ c.replies) (ht : r.thread = t)
    {error : DomainError} (hresult : r.result = .error error) : ∀ e ∈ log, LeftNothing r.req e := by
  intro e he
  obtain ⟨hutters, hfailed⟩ := h.replied r hr ht
  cases hmutates : e.1.1.mutates with
  -- a mutation of which the process was told would have been answered with a success
  | true =>
    refine .inl ⟨hmutates, Bool.eq_false_iff.mpr fun harrived => ?_⟩
    rw [hfailed error hresult e he harrived] at hmutates
    cases hmutates
  -- the rest are the steps of its attempt
  | false =>
    refine .inr ⟨hmutates, fun ctx m hreq => ?_⟩
    obtain ⟨wal, rest, hsplit⟩ := List.append_of_mem (h.recorded e he)
    have hwal : wal ++ [e.1] <+: c.state.wal := ⟨rest, by rw [hsplit, List.append_assoc]; rfl⟩
    have hcommits := h.runs.storeInv.serial.commits hwal
    have hutters := hutters e he
    rw [hreq] at hutters
    rcases hutters with hother | hclaims | ⟨ictx, _, hlabel⟩
    · exact absurd hother hcommits.ne_other
    · exact ⟨hclaims, hcommits.claims hclaims⟩
    · rw [hlabel] at hmutates
      cases m <;> cases hmutates

/-- The revision that the request expects was there between the two points. -/
def Request.Met (S : Setting) (wal₀ wal : Journal) : Request → Prop
  | .mutate _ m => ∀ id ifMatch, m.subject = some (id, ifMatch) → Matched S wal₀ wal id ifMatch
  | .completeUpload uploadId _ ctx => ∃ wal₁ u, wal₁ <+: wal ∧
      (S.rows wal₁).upload uploadId = some u ∧ Matched S wal₀ wal u.objectId ctx.ifMatch
  | _ => True

/-- What was met stays met. -/
theorem Request.Met.mono {wal₀ wal wal' : Journal} {req : Request} (h : req.Met S wal₀ wal)
    (hp : wal <+: wal') : req.Met S wal₀ wal' := by
  cases req with
  | mutate ctx m => exact fun id ifMatch he => (h id ifMatch he).mono hp
  | completeUpload uploadId parts ctx =>
    obtain ⟨wal₁, u, h₁, hu, hmatched⟩ := h
    exact ⟨wal₁, u, h₁.trans hp, hu, hmatched.mono hp⟩
  | _ => trivial

/-- What a success says. -/
theorem Setting.Runs.met (h : S.Runs c) {r : Reply DbState Request DomainError Response}
    (hr : r ∈ c.replies) {ctx : RequestContext} (hctx : r.req.context = some ctx)
    {response : StoredResponse} (hresult : r.result = .ok (.stored response)) :
    Settled S r.born.wal ctx (fun _ wal => r.req.Met S r.born.wal wal) (.ok response) c.state := by
  refine h.replied (P := fun req born result s => ∀ ctx response, req.context = some ctx →
    result = .ok (.stored response) → Settled S born.wal ctx (fun _ wal => req.Met S born.wal wal)
      (.ok response) s) (fun t req s hadmits hs => ?_)
    (fun req born result s s' hl hp ctx response hctx hres => ?_) hr ctx response hctx hresult
  · -- the service wraps the response; the reason for it stays the same
    have hstored : ∀ {p : Store StoredResponse} {ctx : RequestContext} {s : DbState} {met},
        Ends S t p (fun r s' => Settled S s.wal ctx met r s') s →
        Ends S t (p >>= fun response => pure (Response.stored response)) (fun r s' =>
          ∀ response, r = .ok (.stored response) → Settled S s.wal ctx met (.ok response) s') s := by
      intro p ctx s met h
      refine ends_seq (h.mono fun r s₁ hs₁ hl hsettled => ?_)
      cases r with
      | error e =>
        intro response he
        cases he
      | ok response =>
        refine ends_ret hs₁ fun response' he => ?_
        obtain rfl := Response.stored.inj (Except.ok.inj he)
        exact hsettled
    cases req with
    | mutate ctx m =>
      refine (hstored ((ends_mutate hs).mono fun _ _ _ _ h => h.2)).mono
        fun r s' _ _ h ctx' response hctx hres => ?_
      obtain rfl := Option.some.inj hctx
      exact h response hres
    | completeUpload id parts ctx =>
      refine (hstored ((ends_completeUploadSession hs).mono fun _ _ _ _ h => h.2)).mono
        fun r s' _ _ h ctx' response hctx hres => ?_
      obtain rfl := Option.some.inj hctx
      exact h response hres
    | _ => exact wp_mono (ends_serve hs hadmits) fun _ _ h =>
        ⟨h.1, h.2.1, fun _ _ _ _ _ _ => .inl trivial⟩
  · exact (hp ctx response hctx hres).mono (fun _ _ _ hpre h => h.mono hpre) hl

/-- What the request has met is the revision that it expects. -/
theorem Request.Met.expects {w : World} {wal₀ wal : Journal} (hserial : Serial S w wal)
    {req : Request} (h : req.Met S wal₀ wal) {id : ObjectId} {expected : Revision}
    (hexpects : req.Expects S wal id expected) : Matched S wal₀ wal id (some expected) := by
  cases req with
  | mutate ctx m => exact h id (some expected) hexpects
  | completeUpload uploadId parts ctx =>
    obtain ⟨hifMatch, u, hu, rfl⟩ := hexpects
    obtain ⟨wal₁, u₁, h₁, hu₁, hmatched⟩ := h
    -- an upload keeps its target
    obtain ⟨u', hu', _, hsame, _⟩ := hserial.upload_mono h₁ hu₁
    obtain rfl : u = u' := Option.some.inj (hu.symm.trans hu')
    rw [hifMatch] at hmatched
    exact hsame ▸ hmatched
  | _ => exact hexpects.elim

/-- **Conditional writes.** Every run. -/
theorem conditional_writes (h : S.Runs c) : Linearizable S c where
  committed := h.storeInv.db
  -- the commit has checked the revision on the rows it was made on
  matched wal e hp id expected hsubject := by
    have hserial := h.storeInv.serial
    obtain ⟨o, hlive, hmatch, _⟩ := (hserial.commits hp).subject hsubject
    exact (hserial.of_prefix ((List.prefix_append ..).trans hp)).upToDate hlive (hmatch expected rfl)
  once wal e wal' e' hp hp' id expected hsubject hsubject' heffects := by
    have hserial := h.storeInv.serial
    have hwal' : wal' <+: c.state.wal := (List.prefix_append ..).trans hp'
    obtain ⟨o, _, hmatch, hmoves⟩ := (hserial.commits (hp.trans hwal')).subject hsubject
    obtain ⟨o₁, ho₁, hrevision⟩ := hmoves heffects
    obtain ⟨o', hlive', hmatch', _⟩ := (hserial.commits hp').subject hsubject'
    -- the effect has moved the revision on before the other one
    rw [← Setting.rows_snoc] at ho₁
    obtain ⟨o₂, ho₂, hle⟩ := (hserial.of_prefix hwal').revision_le hp ho₁
    obtain rfl : o₂ = o' := Option.some.inj (ho₂.symm.trans (Db.live_eq_some.mp hlive').1)
    have h₁ : expected = o.revision := hmatch expected rfl
    have h₂ : expected = o₂.revision := hmatch' expected rfl
    rw [hrevision, ← h₁, ← h₂] at hle
    exact Nat.not_succ_le_self _ hle
  -- a success has met its condition, or was stored by a call that had
  answered r hr response hresult id expected hexpects := by
    have hctx : ∃ ctx, r.req.context = some ctx := by
      generalize r.req = req at hexpects
      cases req with
      | mutate ctx m => exact ⟨ctx, rfl⟩
      | completeUpload id parts ctx => exact ⟨ctx, rfl⟩
      | _ => exact hexpects.elim
    obtain ⟨ctx, hctx⟩ := hctx
    rcases h.met hr hctx hresult response rfl with hmet | ⟨key, hkey, hreplays⟩
    · have hserial := h.storeInv.serial
      exact .inl ((hmet.expects hserial hexpects).upToDate hserial)
    · exact .inr ⟨ctx, key, hctx, hkey, hreplays⟩
  failed r hr error hresult log hlog := hlog.written.leftNothing hr rfl hresult

/-- Two patches expect the first revision, and overlap. -/
def patchedTogether : List (Move Request (Choice Row Env)) :=
  alone 0 (sampleCreate none "a" .folder "A" 1) 9 {} ++
    [.spawn 1 (samplePatch "a" (some 1) none 2), .spawn 2 (samplePatch "a" (some 1) none 2)] ++
    steps 1 4 {} ++ steps 2 1 {} ++ steps 1 5 {} ++ [.finish 1] ++ steps 2 2 {} ++ [.finish 2]

/-- The revisions that replies conflict with. -/
def conflicts (c : System) : List (Option Revision) := c.replies.map fun r =>
  match r.result with
  | .error (.revisionConflict current) => some current
  | _ => none

/-- Of the two patches in `patchedTogether` one conflicts with the revision of the other. -/
theorem conditional_writes_patchedTogether : ∃ c, (Setting.free (sampleApp .rpc) 0).Runs c ∧
    conflicts c = [none, none, some 2] ∧ Linearizable (.free (sampleApp .rpc) 0) c := by
  obtain ⟨c, hc, hconflicts⟩ := Setting.free_runs (sampleApp .rpc) 0 patchedTogether conflicts
    (a := [none, none, some 2]) (by decide +kernel)
  exact ⟨c, hc, hconflicts, conditional_writes hc⟩

end AnyStore
