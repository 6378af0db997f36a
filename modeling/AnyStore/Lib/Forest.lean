import Mathlib.Logic.Relation
import Mathlib.Data.List.Nodup
import Mathlib.Data.Finite.Defs
import Mathlib.Order.WellFounded
import Mathlib.Data.Fintype.Order

/-!
# Forests as parent relations

A relation `R a b`, read as "the parent of `a` is `b`", that is acyclic and
gives every element at most one parent. The two facts that algorithms on such
forests rest on: hanging a node elsewhere creates no cycle when the node is not
above its new parent (`Acyclic.move`), and a node lies at one distance below
each node above it (`Forest.ascends_unique`). In a finite one every path upwards
ends (`Acyclic.reaches`).
-/

open Relation

variable {α : Type*} {R R' : α → α → Prop} {a b x y : α} {k l : Nat}

/-- No way leads from an element to itself. -/
def Acyclic (R : α → α → Prop) : Prop := ∀ a, ¬ TransGen R a a

/-- Moving `x` below `d` keeps the relation acyclic unless `x` lies above `d`
once it has moved. -/
theorem Acyclic.move (h : Acyclic R) {d : α} (hsub : ∀ a b, R' a b → R a b ∨ a = x ∧ b = d)
    (hd : ¬ ReflTransGen R' d x) : Acyclic R' := by
  -- a path of the new relation is an old one or passes the new edge
  have hpath : ∀ a b, TransGen R' a b →
      TransGen R a b ∨ ReflTransGen R' a x ∧ ReflTransGen R' d b := by
    intro a b hab
    induction hab with
    | single hR =>
      rcases hsub _ _ hR with hR | ⟨rfl, rfl⟩
      · exact .inl (.single hR)
      · exact .inr ⟨.refl, .refl⟩
    | tail hab hR ih =>
      rcases ih with ih | ⟨hax, hdb⟩
      · rcases hsub _ _ hR with hR' | ⟨rfl, rfl⟩
        · exact .inl (ih.tail hR')
        · exact .inr ⟨hab.to_reflTransGen, .refl⟩
      · exact .inr ⟨hax, hdb.tail hR⟩
  intro a haa
  rcases hpath a a haa with ha | ⟨hax, hda⟩
  · exact h a ha
  · exact hd (hda.trans hax)

/-- With fewer edges there are fewer cycles. -/
theorem Acyclic.mono (h : Acyclic R) (hsub : ∀ a b, R' a b → R a b) : Acyclic R' :=
  fun a ha => h a (TransGen.mono hsub a a ha)

/-- Going up from node to node in a finite set leads to the only node without
a next one. -/
theorem Acyclic.reaches (h : Acyclic R) {s : Set α} (hs : s.Finite) {root : α}
    (hup : ∀ a ∈ s, a = root ∨ ∃ b ∈ s, R a b) : ∀ a ∈ s, ReflTransGen R a root := by
  have := hs.to_subtype
  let above : s → s → Prop := fun b a => TransGen R a b
  have : IsTrans s above := ⟨fun _ _ _ hab hbc => hbc.trans hab⟩
  have : Std.Irrefl above := ⟨fun a => h a⟩
  have hwf : WellFounded above := Finite.wellFounded_of_trans_of_irrefl above
  intro a ha
  induction hx : (⟨a, ha⟩ : s) using hwf.induction generalizing a with
  | _ x ih =>
    subst hx
    rcases hup a ha with rfl | ⟨b, hb, hab⟩
    · exact .refl
    · exact .head hab (ih ⟨b, hb⟩ (.single hab) b hb rfl)

/-- `b` lies `k` steps above `a`. -/
inductive Ascends (R : α → α → Prop) : Nat → α → α → Prop
  | zero (a : α) : Ascends R 0 a a
  | succ {k : Nat} {a b c : α} : Ascends R k a b → R b c → Ascends R (k + 1) a c

/-- One step in front. -/
theorem Ascends.head {b c : α} (hab : R a b) (h : Ascends R k b c) : Ascends R (k + 1) a c := by
  induction h with
  | zero => exact .succ (.zero a) hab
  | succ _ hbc ih => exact .succ (ih hab) hbc

/-- The first step of a way. -/
theorem Ascends.cases_head {c : α} (h : Ascends R k a c) :
    k = 0 ∧ a = c ∨ ∃ l b, k = l + 1 ∧ R a b ∧ Ascends R l b c := by
  induction h with
  | zero => exact .inl ⟨rfl, rfl⟩
  | succ _ hbc ih =>
    right
    rcases ih with ⟨rfl, rfl⟩ | ⟨l, b, rfl, hab, hb⟩
    · exact ⟨0, _, rfl, hbc, .zero _⟩
    · exact ⟨l + 1, b, rfl, hab, .succ hb hbc⟩

/-- A way of some length is a way. -/
theorem Ascends.reflTransGen (h : Ascends R k a b) : ReflTransGen R a b := by
  induction h with
  | zero => exact .refl
  | succ _ hR ih => exact ih.tail hR

/-- A way has a length. -/
theorem Ascends.of_reflTransGen (h : ReflTransGen R a b) : ∃ k, Ascends R k a b := by
  induction h with
  | refl => exact ⟨0, .zero a⟩
  | tail _ hR ih =>
    obtain ⟨k, hk⟩ := ih
    exact ⟨k + 1, .succ hk hR⟩

/-- Two ways, one after the other. -/
theorem Ascends.trans {c : α} (hab : Ascends R k a b) (hbc : Ascends R l b c) :
    Ascends R (k + l) a c := by
  induction hbc with
  | zero => exact hab
  | succ _ hR ih => exact .succ (ih hab) hR

/-- Without cycles, the nodes of a path before its end are as many as its steps. -/
theorem Ascends.nodes {c : α} (hR : Acyclic R) (h : Ascends R k a c) :
    ∃ path : List α, path.Nodup ∧ path.length = k ∧ ∀ x ∈ path, TransGen R x c := by
  induction h with
  | zero => exact ⟨[], List.nodup_nil, rfl, fun _ hx => absurd hx List.not_mem_nil⟩
  | @succ k a b c _ hbc ih =>
    obtain ⟨path, hnodup, hlength, hpath⟩ := ih
    -- `b` lies behind all of them, so it is none of them
    have hb : b ∉ path := fun hmem => hR b (hpath b hmem)
    refine ⟨b :: path, List.nodup_cons.mpr ⟨hb, hnodup⟩, congrArg (· + 1) hlength, ?_⟩
    intro x hx
    rcases List.mem_cons.mp hx with rfl | hx
    · exact .single hbc
    · exact (hpath x hx).tail hbc

/-- A path to `x` does not pass `x` before its end, or ends earlier. -/
theorem reflTransGen_of_agree (hR : ∀ a b, a ≠ x → R' a b → R a b) (h : ReflTransGen R' a x) :
    ReflTransGen R a x := by
  induction h using ReflTransGen.head_induction_on with
  | refl => exact .refl
  | @head a b hab _ ih =>
    by_cases ha : a = x
    · rw [ha]
    · exact .head (hR a b ha hab) ih

/-- A path that does not pass `x` before its end is still there when `x` alone
has got another parent. -/
theorem Ascends.transfer {c : α} (hR : ∀ a b, a ≠ x → R a b → R' a b) (h : Ascends R k a c)
    (hx : ∀ b, ReflTransGen R a b → TransGen R b c → b ≠ x) : Ascends R' k a c := by
  induction h with
  | zero => exact .zero _
  | succ hk hbc ih =>
    have hb := hx _ hk.reflTransGen (.single hbc)
    exact .succ (ih fun b hab hbc' => hx b hab (hbc'.tail hbc)) (hR _ _ hb hbc)

/-- An acyclic relation in which every element has at most one parent. -/
structure Forest (R : α → α → Prop) : Prop where
  acyclic : Acyclic R
  functional : ∀ a b c, R a b → R a c → b = c

namespace Forest

/-- In a forest the length of a way determines its end. -/
theorem ascends_eq (h : Forest R) {b c : α} (hb : Ascends R k a b) (hc : Ascends R k a c) : b = c := by
  induction hb generalizing c with
  | zero => cases hc; rfl
  | succ _ hR ih =>
    cases hc with
    | succ hc hR' => exact h.functional _ _ _ hR (ih hc ▸ hR')

/-- Past a node that lies `k` steps above `a`, the path goes on from that node. -/
theorem ascends_split (h : Forest R) {b c : α} (hb : Ascends R k a b) (hc : Ascends R l a c) (hkl : k < l) :
    TransGen R b c := by
  induction hc with
  | zero => omega
  | succ hc hR ih =>
    rcases Nat.lt_succ_iff_lt_or_eq.mp hkl with hlt | rfl
    · exact (ih hb hlt).tail hR
    · exact .single (h.ascends_eq hb hc ▸ hR)

/-- The end determines the length. -/
theorem ascends_unique (h : Forest R) (hk : Ascends R k a b) (hl : Ascends R l a b) : k = l := by
  rcases Nat.lt_trichotomy k l with hlt | heq | hlt
  · exact absurd (h.ascends_split hk hl hlt) (h.acyclic b)
  · exact heq
  · exact absurd (h.ascends_split hl hk hlt) (h.acyclic b)

end Forest
