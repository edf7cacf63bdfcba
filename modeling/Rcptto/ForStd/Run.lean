import Mathlib.Data.List.Induction

/-!
# Runs of a labelled transition relation

A system is a relation `step s l s'`; a `Run` is a finite sequence of its steps
together with the list of labels it went through. The lemmas here are the
induction rules that safety proofs use: a predicate kept by every step holds at
the end of a run (`Run.invariant`), a relation between the labels seen so far and
the state holds at the end of a run (`Run.history`), and a run of a larger system
projects to a run of a component (`Run.project`).
-/

universe u v

/-- `Run step s ls s'`: the system goes from `s` to `s'` through the labels `ls`. -/
inductive Run {S : Type u} {L : Type v} (step : S → L → S → Prop) : S → List L → S → Prop
  | nil (s : S) : Run step s [] s
  | cons {s t u : S} {l : L} {ls : List L} :
      step s l t → Run step t ls u → Run step s (l :: ls) u

namespace Run

variable {S : Type u} {L : Type v} {step : S → L → S → Prop} {s t u : S} {l : L}
  {ls ms : List L}

/-! ## Composition and decomposition -/

@[simp] theorem nil_iff : Run step s [] t ↔ t = s := by
  constructor
  · intro h; cases h; rfl
  · intro h; subst h; exact .nil _

/-- A run begins with its first step. -/
theorem cons_iff : Run step s (l :: ls) u ↔ ∃ t, step s l t ∧ Run step t ls u := by
  constructor
  · intro h
    cases h with
    | cons hstep hrun => exact ⟨_, hstep, hrun⟩
  · rintro ⟨t, hstep, hrun⟩
    exact .cons hstep hrun

/-- A run from a step on, whatever it leads to. -/
theorem exists_cons (hl : step s l t) (h : ∃ u, Run step t ls u) : ∃ u, Run step s (l :: ls) u := by
  obtain ⟨u, hls⟩ := h
  exact ⟨u, .cons hl hls⟩

theorem singleton_iff : Run step s [l] t ↔ step s l t := by
  simp [cons_iff]

/-- A run over `ls ++ ms` is a run over `ls` followed by one over `ms`. -/
theorem append_iff :
    Run step s (ls ++ ms) u ↔ ∃ t, Run step s ls t ∧ Run step t ms u := by
  induction ls generalizing s with
  | nil => simp
  | cons l ls ih =>
    simp only [List.cons_append, cons_iff, ih]
    constructor
    · rintro ⟨t, hl, t', hls, hms⟩
      exact ⟨t', ⟨t, hl, hls⟩, hms⟩
    · rintro ⟨t', ⟨t, hl, hls⟩, hms⟩
      exact ⟨t, hl, t', hls, hms⟩

theorem append (h : Run step s ls t) (h' : Run step t ms u) : Run step s (ls ++ ms) u :=
  append_iff.mpr ⟨t, h, h'⟩

theorem snoc_iff : Run step s (ls ++ [l]) u ↔ ∃ t, Run step s ls t ∧ step t l u := by
  simp only [append_iff, singleton_iff]

/-- The runs of a partial function are its iterations. -/
theorem iff_foldlM {f : S → L → Option S} :
    Run (fun a l b => f a l = some b) s ls t ↔ ls.foldlM f s = some t := by
  induction ls generalizing s with
  | nil => simp [eq_comm]
  | cons l ls ih =>
    rw [cons_iff, List.foldlM_cons]
    simp only [ih, Option.bind_eq_bind, Option.bind_eq_some_iff]

/-- The state in which the label `l` of a run is taken, and the one it leads to. -/
theorem split_cons (h : Run step s (ls ++ l :: ms) u) :
    ∃ t t', Run step s ls t ∧ step t l t' ∧ Run step t' ms u := by
  obtain ⟨t, hls, hrest⟩ := append_iff.mp h
  obtain ⟨t', hl, hms⟩ := cons_iff.mp hrest
  exact ⟨t, t', hls, hl, hms⟩

/-- The last output of a run, if each label `l` outputs the list `f l`: the step that makes
    it, after which nothing is output. -/
theorem split_output {B : Type*} {f : L → List B} {xs : List B} {x : B} (h : Run step s ls u)
    (hout : ls.flatMap f = xs ++ [x]) : ∃ ls₁ l ls₂ ys t t', ls = ls₁ ++ l :: ls₂ ∧
      f l = ys ++ [x] ∧ xs = ls₁.flatMap f ++ ys ∧ (∀ l' ∈ ls₂, f l' = []) ∧
      Run step s ls₁ t ∧ step t l t' ∧ Run step t' ls₂ u := by
  induction ls using List.reverseRecOn generalizing u with
  | nil => exact absurd hout (by simp)
  | append_singleton ls l ih =>
    rw [List.flatMap_append, List.flatMap_singleton] at hout
    obtain ⟨v, hrun, hstep⟩ := snoc_iff.mp h
    -- the last label outputs nothing, or its last output is the one in question
    rcases List.eq_nil_or_concat (f l) with hnil | ⟨ys, y, hys⟩
    · rw [hnil, List.append_nil] at hout
      obtain ⟨ls₁, l', ls₂, ys, t, t', rfl, hl', hxs, hrest, hrun₁, hstep', hrun₂⟩ := ih hrun hout
      refine ⟨ls₁, l', ls₂ ++ [l], ys, t, t', by simp, hl', hxs, ?_, hrun₁, hstep',
        snoc_iff.mpr ⟨v, hrun₂, hstep⟩⟩
      simpa [or_imp, forall_and] using ⟨hrest, hnil⟩
    · rw [hys, List.concat_eq_append, ← List.append_assoc] at hout
      obtain ⟨rfl, hyx⟩ := List.append_inj' hout rfl
      obtain rfl : y = x := by simpa using hyx
      exact ⟨ls, l, [], ys, v, u, rfl, by rw [hys, List.concat_eq_append], rfl, by simp, hrun,
        hstep, .nil u⟩

/-- A run of a relation is a run of every weaker one. -/
theorem mono {step' : S → L → S → Prop} (hle : ∀ a l b, step a l b → step' a l b)
    (h : Run step s ls t) : Run step' s ls t := by
  induction h with
  | nil => exact .nil _
  | cons hl _ ih => exact .cons (hle _ _ _ hl) ih

/-! ## Induction rules -/

/-- A predicate kept by every step whose label occurs in the run holds at its end. -/
theorem invariant {P : S → Prop} (h : Run step s ls t) (hs : P s)
    (hstep : ∀ a l b, l ∈ ls → P a → step a l b → P b) : P t := by
  induction h with
  | nil => exact hs
  | cons hl _ ih =>
    exact ih (hstep _ _ _ (by simp) hs hl)
      (fun a l b hmem => hstep a l b (List.mem_cons_of_mem _ hmem))

/-- A run whose steps all have a property is a run of the relation restricted to it. -/
theorem restrict {Q : S → L → S → Prop} (h : Run step s ls t)
    (hQ : ∀ a l b, l ∈ ls → step a l b → Q a l b) :
    Run (fun a l b => Q a l b ∧ step a l b) s ls t := by
  induction h with
  | nil => exact .nil _
  | cons hl _ ih =>
    exact .cons ⟨hQ _ _ _ List.mem_cons_self hl, hl⟩
      (ih fun a l b hmem => hQ a l b (List.mem_cons_of_mem _ hmem))

/-- Two restrictions of a relation that agree wherever an invariant holds have the same runs. The
    steps of the first one have to keep the invariant. -/
theorem restrict_iff {P : S → Prop} {Q Q' : S → L → S → Prop} (hs : P s)
    (hstep : ∀ a l b, P a → Q a l b → step a l b → P b)
    (hQ : ∀ a l b, P a → step a l b → (Q a l b ↔ Q' a l b)) :
    Run (fun a l b => Q a l b ∧ step a l b) s ls t ↔
      Run (fun a l b => Q' a l b ∧ step a l b) s ls t := by
  -- the invariant goes along, so the two relations agree at every step
  induction ls generalizing s with
  | nil => simp
  | cons l ls ih =>
    rw [cons_iff, cons_iff]
    apply exists_congr
    intro u
    constructor
    · rintro ⟨⟨hq, hl⟩, hrest⟩
      exact ⟨⟨(hQ s l u hs hl).mp hq, hl⟩, (ih (hstep s l u hs hq hl)).mp hrest⟩
    · rintro ⟨⟨hq, hl⟩, hrest⟩
      have hq' := (hQ s l u hs hl).mpr hq
      exact ⟨⟨hq', hl⟩, (ih (hstep s l u hs hq' hl)).mpr hrest⟩

/-- A relation between the labels seen so far and the state, which holds at the
    start and is kept when one more step is taken, holds at the end of a run. -/
theorem history {I : List L → S → Prop} (h : Run step s ls t) (hs : I [] s)
    (hstep : ∀ hist a l b, Run step s hist a → I hist a → step a l b → I (hist ++ [l]) b) :
    I ls t := by
  induction ls using List.reverseRecOn generalizing t with
  | nil => rw [nil_iff] at h; subst h; exact hs
  | append_singleton ls l ih =>
    obtain ⟨a, hrun, hl⟩ := snoc_iff.mp h
    exact hstep ls a l t hrun (ih hrun) hl

/-- Projection: when each step of the system either leaves the component alone or
    is a step of the component, a run of the system is a run of the component. -/
theorem project {T M : Type*} {cstep : T → M → T → Prop} (proj : S → T) (lab : L → Option M)
    (hnone : ∀ a l b, step a l b → lab l = none → proj b = proj a)
    (hsome : ∀ a l b m, step a l b → lab l = some m → cstep (proj a) m (proj b))
    (h : Run step s ls t) : Run cstep (proj s) (ls.filterMap lab) (proj t) := by
  induction h with
  | nil => exact .nil _
  | @cons a b c l ls hl _ ih =>
    cases hlab : lab l with
    | none =>
      rw [List.filterMap_cons_none hlab, ← hnone a l b hl hlab]
      exact ih
    | some m =>
      rw [List.filterMap_cons_some hlab]
      exact .cons (hsome a l b m hl hlab) ih

end Run
