import AnyStore.Lib.Program

/-!
# Rely-guarantee reasoning for interleaved programs

A `Contract` splits the work of proving a property of all interleavings. Each
process is verified alone: `wp K t p Q s` says that from the state `s`, with
steps of other processes in between that satisfy the rely of `t`, every step
of the program `p` keeps the invariant and the guarantee of `t`, and `Q` holds
when `p` is done. `Contract.sound` puts the processes together: in every
reachable configuration the invariant holds, every running program still meets
its `wp`, and every reply meets its postcondition.

The rules are `wp_call` (one operation), `wp_bind`, `wp_attempt`, `wp_mono` and
`wp_rely` (a `wp` survives interference). `wp_fails` and `wp_later` add what the
text of a program and the contract say by themselves.
-/

variable {Op : Type → Type 1} {C S Req ε ε' α β : Type}

/-- What a process may assume and has to keep. -/
structure Contract (Op : Type → Type 1) (C S : Type) where
  machine : Machine Op C S
  /-- Holds in every state. -/
  inv : S → Prop
  /-- What the other processes may have done between two steps of process `t`. -/
  rely : Nat → S → S → Prop
  /-- What one step of process `t` does. -/
  guar : Nat → S → S → Prop
  /-- The states in which an operation is run, see `Regime`. -/
  permits : Nat → ∀ {β : Type}, Op β → S → Prop

/-- The laws under which processes that meet their parts of the contract can
run together. -/
structure Contract.Lawful (K : Contract Op C S) : Prop where
  rely_refl : ∀ t s, K.rely t s s
  rely_trans : ∀ t s₁ s₂ s₃, K.rely t s₁ s₂ → K.rely t s₂ s₃ → K.rely t s₁ s₃
  rely_of_guar : ∀ t t' s s', t' ≠ t → K.inv s → K.inv s' → K.guar t' s s' → K.rely t s s'
  crash_inv : ∀ t s, K.inv s → K.inv (K.machine.crash t s)
  rely_of_crash : ∀ t t' s, t' ≠ t → K.inv s → K.rely t s (K.machine.crash t' s)

/-- The weakest precondition of a program of process `t` under a contract. -/
def wp (K : Contract Op C S) (t : Nat) :
    Prog Op ε α → (Except ε α → S → Prop) → S → Prop
  | .ret a, Q, s => Q (.ok a) s
  | .fail e, Q, s => Q (.error e) s
  | .call op k, Q, s => ∀ s', K.rely t s s' → K.inv s' → K.permits t op s' →
      ∀ ch b s'', K.machine.exec t ch op s' = some (b, s'') →
        K.guar t s' s'' ∧ K.inv s'' ∧ wp K t (k b) Q s''

section Rules

variable {K : Contract Op C S} {t : Nat} {Q Q' : Except ε α → S → Prop} {s s' : S}

@[simp] theorem wp_ret (a : α) : wp K t (.ret a) Q s ↔ Q (.ok a) s := Iff.rfl

@[simp] theorem wp_fail (e : ε) : wp K t (.fail e) Q s ↔ Q (.error e) s := Iff.rfl

/-- **Operation.** Others may move first; then the operation is run. -/
theorem wp_call {op : Op β} {k : β → Prog Op ε α}
    (h : ∀ s', K.rely t s s' → K.inv s' → K.permits t op s' →
      ∀ ch b s'', K.machine.exec t ch op s' = some (b, s'') →
        K.guar t s' s'' ∧ K.inv s'' ∧ wp K t (k b) Q s'') :
    wp K t (.call op k) Q s := h

/-- A weaker end. -/
theorem wp_mono {p : Prog Op ε α} (hp : wp K t p Q s) (hQ : ∀ r s, Q r s → Q' r s) :
    wp K t p Q' s := by
  induction p generalizing s with
  | ret a => exact hQ _ _ hp
  | fail e => exact hQ _ _ hp
  | call op k ih =>
    intro s' hr hi hpm ch b s'' he
    obtain ⟨hg, hi', hw⟩ := hp s' hr hi hpm ch b s'' he
    exact ⟨hg, hi', ih b hw⟩

/-- What holds when the first part of a sequence is done is what the rest needs. -/
theorem wp_bind {p : Prog Op ε β} {f : β → Prog Op ε α} :
    wp K t (p.bind f) Q s ↔
      wp K t p (fun r s => match r with
        | .ok a => wp K t (f a) Q s
        | .error e => Q (.error e) s) s := by
  induction p generalizing s with
  | ret a => exact Iff.rfl
  | fail e => exact Iff.rfl
  | call op k ih => simp only [Prog.call_bind, wp, ih]

/-- An attempt goes on after an error. -/
theorem wp_attempt {p : Prog Op ε β} {Q : Except ε' (Except ε β) → S → Prop} :
    wp K t (p.attempt) Q s ↔ wp K t p (fun r s => Q (.ok r) s) s := by
  induction p generalizing s with
  | ret a => exact Iff.rfl
  | fail e => exact Iff.rfl
  | call op k ih => simp only [Prog.attempt, wp, ih]

/-- A precondition survives the steps of other processes. -/
theorem wp_rely (hK : K.Lawful) {p : Prog Op ε α} (hQ : ∀ r s s', K.rely t s s' → Q r s → Q r s')
    (hp : wp K t p Q s) (hr : K.rely t s s') : wp K t p Q s' := by
  cases p with
  | ret a => exact hQ _ _ _ hr hp
  | fail e => exact hQ _ _ _ hr hp
  | call op k => exact fun s₂ hr₂ => hp s₂ (hK.rely_trans _ _ _ _ hr hr₂)

/-- A failure is one of those in the text of the program. -/
theorem wp_fails {p : Prog Op ε α} {P : ε → Prop} (hp : wp K t p Q s) (h : p.Fails P) :
    wp K t p (fun r s => Q r s ∧ ∀ e, r = .error e → P e) s := by
  induction p generalizing s with
  | ret a => exact ⟨hp, fun e he => nomatch he⟩
  | fail e => exact ⟨hp, fun e' he => Except.error.inj he ▸ h⟩
  | call op k ih =>
    intro s' hr hi hpm ch b s'' he
    obtain ⟨hg, hi', hw⟩ := hp s' hr hi hpm ch b s'' he
    exact ⟨hg, hi', ih b hw (h b)⟩

/-- What every step and all interference respect relates the states before and
after a program. -/
theorem wp_later {M : S → S → Prop} (hrefl : ∀ s, M s s)
    (htrans : ∀ s₁ s₂ s₃, M s₁ s₂ → M s₂ s₃ → M s₁ s₃) (hrely : ∀ s s', K.rely t s s' → M s s')
    (hguar : ∀ s s', K.inv s → K.guar t s s' → M s s') {p : Prog Op ε α} (hp : wp K t p Q s) :
    wp K t p (fun r s' => Q r s' ∧ M s s') s := by
  induction p generalizing s with
  | ret a => exact ⟨hp, hrefl s⟩
  | fail e => exact ⟨hp, hrefl s⟩
  | call op k ih =>
    intro s' hr hi hpm ch b s'' he
    obtain ⟨hg, hi', hw⟩ := hp s' hr hi hpm ch b s'' he
    refine ⟨hg, hi', wp_mono (ih b hw) fun r s₃ h => ⟨h.1, ?_⟩⟩
    exact htrans _ _ _ (hrely _ _ hr) (htrans _ _ _ (hguar _ _ hi hg) h.2)

end Rules

/-! ## Putting the processes together -/

/-- The postcondition of a request, given the process that serves it and the
state it was born in. -/
abbrev Post (S Req ε α : Type) := Nat → Req → S → Except ε α → S → Prop

/-- What holds of a configuration when every process meets its part. -/
structure Contract.Meets (K : Contract Op C S) (idle : Nat → S → Prop)
    (post : Post S Req ε α) (c : Config Op S Req ε α) : Prop where
  inv : K.inv c.state
  unborn : ∀ t, c.threads t = .unborn → idle t c.state
  running : ∀ t req born p, c.threads t = .running req born p →
    wp K t p (post t req born) c.state
  replied : ∀ r ∈ c.replies, c.threads r.thread = .ended ∧
    post r.thread r.req r.born r.result c.state

/-- Replacing process `t` keeps `Meets` when the new state is interference that
every other process allows. -/
theorem Contract.Meets.update {K : Contract Op C S} (hK : K.Lawful) {idle : Nat → S → Prop}
    {post : Post S Req ε α}
    (hidle : ∀ t s s', K.rely t s s' → idle t s → idle t s')
    (hpost : ∀ t req born r s s', K.rely t s s' → post t req born r s → post t req born r s')
    {c : Config Op S Req ε α} (h : K.Meets idle post c) {t : Nat} {th : Thread Op S Req ε α} {s : S}
    (ht : c.threads t ≠ .ended) (hi : K.inv s) (hrely : ∀ u, u ≠ t → K.rely u c.state s)
    (hborn : th ≠ .unborn)
    (hrun : ∀ req born p, th = .running req born p → wp K t p (post t req born) s) :
    K.Meets idle post (c.update t th s) := by
  have hother : ∀ u, u ≠ t → (c.update t th s).threads u = c.threads u := fun u hu =>
    Function.update_of_ne hu ..
  have hself : (c.update t th s).threads t = th := Function.update_self ..
  refine ⟨hi, fun u hu => ?_, fun u req born p hu => ?_, fun r hr => ?_⟩
  · have hne : u ≠ t := by
      rintro rfl
      exact hborn (hself.symm.trans hu)
    exact hidle u _ _ (hrely u hne) (h.unborn u (by rw [← hother u hne, hu]))
  · rcases eq_or_ne u t with rfl | hne
    · exact hrun req born p (hself.symm.trans hu)
    · exact wp_rely hK (fun r s s' => hpost u req born r s s')
        (h.running u req born p (by rw [← hother u hne, hu])) (hrely u hne)
  · obtain ⟨hend, hp⟩ := h.replied r hr
    have hne : r.thread ≠ t := fun he => ht (he ▸ hend)
    exact ⟨by rw [hother _ hne, hend], hpost _ _ _ _ _ _ (hrely _ hne) hp⟩

/-- Every step of the system keeps `Meets` and is one that the contract allows. -/
theorem Contract.Meets.step {K : Contract Op C S} (hK : K.Lawful)
    {serve : Req → Prog Op ε α} {G : Regime Op S Req} {idle : Nat → S → Prop}
    {post : Post S Req ε α}
    (hpermits : ∀ t {β : Type} (op : Op β) s, G.permits t op s → K.permits t op s)
    (hidle : ∀ t s s', K.rely t s s' → idle t s → idle t s')
    (hpost : ∀ t req born r s s', K.rely t s s' → post t req born r s → post t req born r s')
    (hserve : ∀ t req s, G.admits req → K.inv s → idle t s →
      wp K t (serve req) (post t req s) s)
    {m : Move Req C} {c c' : Config Op S Req ε α}
    (h : K.Meets idle post c) (hG : G.allows m c)
    (hs : step? K.machine serve m c = some c') :
    K.Meets idle post c' ∧ (c'.state = c.state ∨ (∃ t, K.guar t c.state c'.state) ∨
      ∃ t, c'.state = K.machine.crash t c.state) := by
  obtain ⟨t, req, rfl, ht, rfl⟩ | ⟨t, ch, req, born, β, op, k, b, s, rfl, ht, he, rfl⟩ |
    ⟨t, req, born, r, rfl, ht, rfl⟩ | ⟨t, req, born, p, rfl, ht, rfl⟩ := step?_cases hs
  · -- spawn: the state stays, the new process starts with its own precondition
    have hw := hserve t req c.state hG h.inv (h.unborn t ht)
    refine ⟨h.update hK hidle hpost (by simp [ht]) h.inv (fun u _ => hK.rely_refl u _)
      (by simp) fun req' born' p' he => ?_, .inl rfl⟩
    cases he
    exact hw
  · -- one operation: the guarantee of `t` is within the rely of every other process
    have hpm : K.permits t op c.state := by
      refine hpermits t op c.state ?_
      simpa only [Regime.allows, ht] using hG
    obtain ⟨hg, hi, hw⟩ := h.running t req born _ ht c.state (hK.rely_refl t _) h.inv hpm ch b s he
    refine ⟨h.update hK hidle hpost (by simp [ht]) hi
      (fun u hu => hK.rely_of_guar u t _ _ (Ne.symm hu) h.inv hi hg) (by simp)
      fun req' born' p' he => ?_, .inr (.inl ⟨t, hg⟩)⟩
    cases he
    exact hw
  · -- finish: the postcondition holds of the answer
    have hp : post t req born r c.state := by
      have := h.running t req born _ ht
      cases r <;> exact this
    have hm : K.Meets idle post (c.update t .ended c.state) :=
      h.update hK hidle hpost (by simp [ht]) h.inv (fun u _ => hK.rely_refl u _) (by simp) (by simp)
    refine ⟨⟨hm.inv, hm.unborn, hm.running, fun r' hr => ?_⟩, .inl rfl⟩
    rcases List.mem_append.mp hr with hr | hr
    · exact hm.replied r' hr
    · obtain rfl := List.mem_singleton.mp hr
      exact ⟨Function.update_self .., hp⟩
  · -- crash: the others see it as interference
    exact ⟨h.update hK hidle hpost (by simp [ht]) (hK.crash_inv t _ h.inv)
      (fun u hu => hK.rely_of_crash u t _ (Ne.symm hu) h.inv) (by simp) (by simp),
      .inr (.inr ⟨t, rfl⟩)⟩

/-- **Soundness.** When every served program meets its `wp`, every reachable
configuration meets the contract. -/
theorem Contract.sound {K : Contract Op C S} (hK : K.Lawful)
    {serve : Req → Prog Op ε α} {G : Regime Op S Req} {idle : Nat → S → Prop}
    {post : Post S Req ε α} {s₀ : S}
    (hpermits : ∀ t {β : Type} (op : Op β) s, G.permits t op s → K.permits t op s)
    (hidle : ∀ t s s', K.rely t s s' → idle t s → idle t s')
    (hpost : ∀ t req born r s s', K.rely t s s' → post t req born r s → post t req born r s')
    (hserve : ∀ t req s, G.admits req → K.inv s → idle t s →
      wp K t (serve req) (post t req s) s)
    (hinit : K.inv s₀) (hinit' : ∀ t, idle t s₀)
    {c : Config Op S Req ε α} (h : Reachable K.machine serve G s₀ c) :
    K.Meets idle post c := by
  induction h with
  | init => exact ⟨hinit, fun t _ => hinit' t, by simp [Config.initial], by simp [Config.initial]⟩
  | step m _ hG hs ih => exact (ih.step hK hpermits hidle hpost hserve hG hs).1
