import Mathlib.Logic.Function.Basic
import Mathlib.Data.List.Basic

/-!
# Linearizable objects

Threads call the operations of a shared object. In an atomic object a call takes effect
in one step, its commit, between its invocation and its response. A history of
invocations and responses is linearizable when commits can be put into it so that the
atomic object goes through it. A call that has responded before another is invoked
then takes effect before it.

A concurrent machine is linearizable when each of its steps can be given the marks it
makes, its commits among them, so that the atomic object goes through the marks of every
step (`accepts_history`). Which step of a call is its commit is then read off the marks.
-/

namespace Foundation

variable {ι α β τ σ ε : Type*}

/-- What a call of a thread does, one mark after the other. -/
inductive Mark (ι α β : Type*) where
  | invoke (i : ι) (a : α)
  | commit (i : ι)
  | respond (i : ι) (b : β)

/-- A commit is not to be seen. -/
def Mark.visible : Mark ι α β → Bool
  | .commit _ => false
  | _ => true

/-- Who responds, and what. -/
def Mark.response : Mark ι α β → Option (ι × β)
  | .respond i b => some (i, b)
  | _ => none

/-- How far the call of a thread has got. -/
inductive Phase (α β : Type*) where
  | idle
  | pending (a : α)
  | decided (b : β)

/-- The calls of the threads, and the object they work on. -/
structure Atomic (ι α β τ : Type*) where
  phase : ι → Phase α β
  object : τ

namespace Atomic

variable [DecidableEq ι] {spec : τ → α → β × τ} {A A' A'' : Atomic ι α β τ}
  {marks marks' : List (Mark ι α β)}

/-- The object before any call. -/
def initial (t : τ) : Atomic ι α β τ := ⟨fun _ => .idle, t⟩

/-- One mark. The operation is executed at the commit, by `spec`. -/
inductive Step (spec : τ → α → β × τ) (A : Atomic ι α β τ) :
    Mark ι α β → Atomic ι α β τ → Prop where
  | invoke {i : ι} (a : α) (h : A.phase i = .idle) :
      Step spec A (.invoke i a) { A with phase := Function.update A.phase i (.pending a) }
  | commit {i : ι} {a : α} (h : A.phase i = .pending a) :
      Step spec A (.commit i)
        ⟨Function.update A.phase i (.decided (spec A.object a).1), (spec A.object a).2⟩
  | respond {i : ι} {b : β} (h : A.phase i = .decided b) :
      Step spec A (.respond i b) { A with phase := Function.update A.phase i .idle }

inductive Accepts (spec : τ → α → β × τ) :
    Atomic ι α β τ → List (Mark ι α β) → Atomic ι α β τ → Prop where
  | nil (A : Atomic ι α β τ) : Accepts spec A [] A
  | cons {A A' A'' : Atomic ι α β τ} {m : Mark ι α β} {marks : List (Mark ι α β)}
      (head : Step spec A m A') (tail : Accepts spec A' marks A'') :
      Accepts spec A (m :: marks) A''

theorem Accepts.single {m : Mark ι α β} (h : Step spec A m A') : Accepts spec A [m] A' :=
  .cons h (.nil A')

theorem Accepts.append (h : Accepts spec A marks A') (h' : Accepts spec A' marks' A'') :
    Accepts spec A (marks ++ marks') A'' := by
  induction h with
  | nil A => exact h'
  | cons head tail ih => exact .cons head (ih h')

variable {i : ι} {a : α} {b : β} {t : τ}

/-- A call is decided. -/
theorem Accepts.commit (hpending : A.phase i = .pending a) (hspec : spec A.object a = (b, t)) :
    Accepts spec A [.commit i] ⟨Function.update A.phase i (.decided b), t⟩ := by
  have hstep : Step spec A (.commit i)
      ⟨Function.update A.phase i (.decided (spec A.object a).1), (spec A.object a).2⟩ :=
    .commit hpending
  rw [hspec] at hstep
  exact .single hstep

/-- A call is decided and returns at once. -/
theorem Accepts.commit_respond (hpending : A.phase i = .pending a)
    (hspec : spec A.object a = (b, t)) :
    Accepts spec A [.commit i, .respond i b] ⟨Function.update A.phase i .idle, t⟩ := by
  have hdecided : Function.update A.phase i (.decided b) i = .decided b := Function.update_self ..
  have hstep : Step spec ⟨Function.update A.phase i (.decided b), t⟩ (.respond i b)
      ⟨Function.update (Function.update A.phase i (.decided b)) i .idle, t⟩ := .respond hdecided
  rw [Function.update_idem] at hstep
  exact (Accepts.commit hpending hspec).append (.single hstep)

/-- A step that the object does not see. -/
theorem Accepts.stay {phase : Phase α β} (hphase : A.phase i = phase) :
    Accepts spec A [] ⟨Function.update A.phase i phase, A.object⟩ := by
  rw [← hphase, Function.update_eq_self]
  exact .nil A

end Atomic

variable [DecidableEq ι] {spec : τ → α → β × τ}

/-- Commits can be put into the history so that the atomic object accepts it. -/
def Linearizable (spec : τ → α → β × τ) (t : τ) (history : List (Mark ι α β)) : Prop :=
  ∃ marks A, marks.filter Mark.visible = history ∧
    Atomic.Accepts spec (Atomic.initial t) marks A

/-- The events of a run, step by step. -/
def history (step : σ → ε → σ) (events : σ → ε → List (Mark ι α β)) : σ → List ε →
    List (Mark ι α β)
  | _, [] => []
  | s, e :: rest => events s e ++ history step events (step s e) rest

omit [DecidableEq ι] in
theorem filter_history {step : σ → ε → σ} {events marks : σ → ε → List (Mark ι α β)}
    (hvisible : ∀ s e, (marks s e).filter Mark.visible = events s e) (s : σ) (run : List ε) :
    (history step marks s run).filter Mark.visible = history step events s run := by
  induction run generalizing s with
  | nil => rfl
  | cons e rest ih => rw [history, history, List.filter_append, hvisible, ih]

/-- **Linearization points.** An object that goes through the marks of each step goes
through those of a run. -/
theorem accepts_history {step : σ → ε → σ} {marks : σ → ε → List (Mark ι α β)}
    {Sim : σ → Atomic ι α β τ → Prop}
    (hstep : ∀ s e A, Sim s A → ∃ A', Atomic.Accepts spec A (marks s e) A' ∧ Sim (step s e) A')
    (run : List ε) :
    ∀ {s : σ} {A : Atomic ι α β τ}, Sim s A → ∃ A',
      Atomic.Accepts spec A (history step marks s run) A' ∧ Sim (run.foldl step s) A' := by
  induction run with
  | nil => exact fun {s A} h => ⟨A, .nil A, h⟩
  | cons e rest ih =>
      intro s A h
      obtain ⟨A', haccepts, hsim⟩ := hstep s e A h
      obtain ⟨A'', haccepts', hsim'⟩ := ih hsim
      exact ⟨A'', haccepts.append haccepts', hsim'⟩

theorem linearizable_of_accepts {t : τ} {A : Atomic ι α β τ} {marks : List (Mark ι α β)}
    (h : Atomic.Accepts spec (Atomic.initial t) marks A) :
    Linearizable spec t (marks.filter Mark.visible) :=
  ⟨marks, A, rfl, h⟩

end Foundation
