/-
# Runs of a state machine

A deterministic state machine is a step function; a run folds it over a list of
events.  The rules here are the ones an invariant, a guarded invariant, a
simulation and a pair of interleaved event streams are proved with:

* `run_history`: what holds at the start and is carried along by every step
  holds after every run, with the events so far at hand;
* `run_related`: two machines whose steps keep a relation stay related;
* `always_iff_guarded`: when a step keeps a property exactly if it meets a
  guard, the property holds all along a run exactly if every step meets it;
* `always_of_step`: a guarded invariant relative to another property of the states;
* `run_ledger`, `run_balance`: an account that every step keeps up to a loss is
  kept by a run up to the total loss;
* `exists_run_potential`: steps that may fail do not fail along an invariant, and a
  potential that a step raises by at most its gain is raised by at most all gains;
* `run_lastWrite`: when every step writes an observation or leaves it, a run
  shows what was written last;
* `run_tells`: when only one value is ever written, the order does not matter;
* `run_iff_since`: a property that some events establish and others end holds
  after a run exactly if one established it and none has ended it since;
* `Interleaving.related`: a machine that runs on an interleaving of two streams
  stays related to one that runs on the first stream alone, when the events of
  the second stream do not disturb the relation.
-/
import Mathlib

namespace Runs

variable {σ τ ε : Type} (step : σ → ε → σ)

/-! ## Runs -/

/-- The state after the events `es`. -/
def run (s : σ) (es : List ε) : σ := es.foldl step s

@[simp] theorem run_nil (s : σ) : run step s [] = s := rfl

@[simp] theorem run_cons (s : σ) (e : ε) (es : List ε) :
    run step s (e :: es) = run step (step s e) es := rfl

theorem run_append (s : σ) (es fs : List ε) :
    run step s (es ++ fs) = run step (run step s es) fs :=
  List.foldl_append

theorem run_concat (s : σ) (es : List ε) (e : ε) :
    run step s (es ++ [e]) = step (run step s es) e := by
  rw [run_append, run_cons, run_nil]

variable {step}

/-- Induction along a run, with the events so far at hand. -/
theorem run_history {I : List ε → σ → Prop} {s : σ} (h0 : I [] s)
    (hstep : ∀ es t e, I es t → I (es ++ [e]) (step t e)) (es : List ε) :
    I es (run step s es) := by
  induction es using List.reverseRecOn with
  | nil => exact h0
  | append_singleton es e ih =>
      rw [run_concat]
      exact hstep es _ e ih

/-- Two machines whose steps keep a relation stay related. -/
theorem run_related {step' : τ → ε → τ} {R : σ → τ → Prop}
    (hstep : ∀ s t e, R s t → R (step s e) (step' t e)) {s : σ} {t : τ} (h0 : R s t)
    (es : List ε) : R (run step s es) (run step' t es) := by
  induction es generalizing s t with
  | nil => exact h0
  | cons e es ih => exact ih (hstep s t e h0)

/-! ## Guarded invariants -/

variable (step) in
/-- Every state of the run from `s` satisfies `P`, the first and the last included. -/
def Always (P : σ → Prop) (s : σ) (es : List ε) : Prop :=
  ∀ pre, pre <+: es → P (run step s pre)

variable (step) in
/-- Every step of the run from `s` meets the guard `C` in the state it is taken in. -/
def Guarded (C : σ → ε → Prop) (s : σ) (es : List ε) : Prop :=
  ∀ pre e, pre ++ [e] <+: es → C (run step s pre) e

theorem always_nil {P : σ → Prop} {s : σ} : Always step P s [] ↔ P s := by
  constructor
  · exact fun h => h [] List.nil_prefix
  · intro hs pre hpre
    rw [List.prefix_nil.1 hpre]
    exact hs

theorem guarded_nil {C : σ → ε → Prop} {s : σ} : Guarded step C s [] := by
  intro pre e hpre
  exact absurd (List.prefix_nil.1 hpre) (by simp)

theorem always_cons {P : σ → Prop} {s : σ} {e : ε} {es : List ε} :
    Always step P s (e :: es) ↔ P s ∧ Always step P (step s e) es := by
  constructor
  · intro h
    refine ⟨h [] List.nil_prefix, fun pre hpre => ?_⟩
    exact h (e :: pre) (List.cons_prefix_cons.2 ⟨rfl, hpre⟩)
  · rintro ⟨hs, h⟩ pre hpre
    cases pre with
    | nil => exact hs
    | cons e' pre =>
        obtain ⟨rfl, htail⟩ := List.cons_prefix_cons.1 hpre
        exact h pre htail

theorem guarded_cons {C : σ → ε → Prop} {s : σ} {e : ε} {es : List ε} :
    Guarded step C s (e :: es) ↔ C s e ∧ Guarded step C (step s e) es := by
  constructor
  · intro h
    refine ⟨h [] e (List.cons_prefix_cons.2 ⟨rfl, List.nil_prefix⟩), fun pre e' hpre => ?_⟩
    exact h (e :: pre) e' (List.cons_prefix_cons.2 ⟨rfl, hpre⟩)
  · rintro ⟨he, h⟩ pre e' hpre
    cases pre with
    | nil =>
        obtain ⟨rfl, -⟩ := List.cons_prefix_cons.1 hpre
        exact he
    | cons e'' pre =>
        obtain ⟨rfl, htail⟩ := List.cons_prefix_cons.1 hpre
        exact h pre e' htail

/-- A property that a step keeps exactly if it meets the guard holds all along a
run exactly if every step of the run meets the guard. -/
theorem always_iff_guarded {P : σ → Prop} {C : σ → ε → Prop}
    (hstep : ∀ s e, P s → (P (step s e) ↔ C s e)) {s : σ} (h0 : P s) (es : List ε) :
    Always step P s es ↔ Guarded step C s es := by
  induction es generalizing s with
  | nil => exact iff_of_true (always_nil.2 h0) guarded_nil
  | cons e es ih =>
      rw [always_cons, guarded_cons]
      constructor
      · rintro ⟨-, h⟩
        have hnext : P (step s e) := h [] List.nil_prefix
        exact ⟨(hstep s e h0).1 hnext, (ih hnext).1 h⟩
      · rintro ⟨hC, h⟩
        exact ⟨h0, (ih ((hstep s e h0).2 hC)).2 h⟩

/-- A property that a guarded step carries along between states with `Q` holds
all along a guarded run through such states. -/
theorem always_of_step {P Q : σ → Prop} {C : σ → ε → Prop}
    (hstep : ∀ s e, P s → Q s → C s e → Q (step s e) → P (step s e)) {s : σ} (h0 : P s)
    {es : List ε} (hQ : Always step Q s es) (hC : Guarded step C s es) :
    Always step P s es := by
  induction es generalizing s with
  | nil => exact always_nil.2 h0
  | cons e es ih =>
      rw [always_cons] at hQ ⊢
      rw [guarded_cons] at hC
      have hnext : Q (step s e) := hQ.2 [] List.nil_prefix
      exact ⟨h0, ih (hstep s e h0 hQ.1 hC.1 hnext) hQ.2 hC.2⟩

/-! ## Ledgers -/

variable (step) in
/-- The total of an amount `f` over the steps of a run. -/
def total (f : σ → ε → ℕ) : σ → List ε → ℕ
  | _, [] => 0
  | s, e :: es => f s e + total f (step s e) es

/-- When every step moves what it adds to the debit side to the credit side, up
to a loss, the two sides of a run differ by the total loss. -/
theorem run_ledger {credit debit : σ → ℕ} {loss : σ → ε → ℕ}
    (hstep : ∀ s e, credit (step s e) + loss s e + debit s = credit s + debit (step s e))
    (s : σ) (es : List ε) :
    credit (run step s es) + total step loss s es + debit s
      = credit s + debit (run step s es) := by
  induction es generalizing s with
  | nil => rfl
  | cons e es ih =>
      have hhead := hstep s e
      have htail := ih (step s e)
      rw [run_cons, total]
      omega

/-- When every step credits what it gains, up to a loss, a run credits its total
gain, up to its total loss. -/
theorem run_balance {credit : σ → ℕ} {loss gain : σ → ε → ℕ}
    (hstep : ∀ s e, credit (step s e) + loss s e = credit s + gain s e) (s : σ) (es : List ε) :
    credit (run step s es) + total step loss s es = credit s + total step gain s es := by
  induction es generalizing s with
  | nil => rfl
  | cons e es ih =>
      have hhead := hstep s e
      have htail := ih (step s e)
      rw [run_cons, total, total]
      omega

/-- Amounts that are added up step by step. -/
theorem total_add (f g : σ → ε → ℕ) (s : σ) (es : List ε) :
    total step (fun s e => f s e + g s e) s es = total step f s es + total step g s es := by
  induction es generalizing s with
  | nil => rfl
  | cons e es ih =>
      rw [total, total, total, ih]
      omega

/-- An amount that the states do not matter for. -/
theorem total_const (f : ε → ℕ) (s : σ) (es : List ε) :
    total step (fun _ e => f e) s es = (es.map f).sum := by
  induction es generalizing s with
  | nil => rfl
  | cons e es ih => rw [total, ih, List.map_cons, List.sum_cons]

/-- A total of multiples is a multiple. -/
theorem dvd_total {f : σ → ε → ℕ} {n : ℕ} (h : ∀ s e, n ∣ f s e) (s : σ) (es : List ε) :
    n ∣ total step f s es := by
  induction es generalizing s with
  | nil => exact dvd_zero n
  | cons e es ih => exact (h s e).add (ih (step s e))

/-- Nothing is lost in total exactly if no step loses anything. -/
theorem total_eq_zero_iff {f : σ → ε → ℕ} {s : σ} {es : List ε} :
    total step f s es = 0 ↔ Guarded step (fun s e => f s e = 0) s es := by
  induction es generalizing s with
  | nil => exact iff_of_true rfl guarded_nil
  | cons e es ih => rw [total, guarded_cons, Nat.add_eq_zero_iff, ih]

/-- When every step from a state with the invariant gets to such a state, and raises
a potential by no more than its gain, a run does so by no more than all its gains. -/
theorem exists_run_potential {step : σ → ε → Option σ} {I : σ → Prop} {potential : σ → ℕ}
    {gain : ε → ℕ}
    (hstep : ∀ s e, I s → ∃ t, step s e = some t ∧ I t ∧ potential t ≤ potential s + gain e)
    {s : σ} (h0 : I s) (es : List ε) :
    ∃ t, es.foldlM step s = some t ∧ I t ∧ potential t ≤ potential s + (es.map gain).sum := by
  induction es generalizing s with
  | nil => exact ⟨s, rfl, h0, Nat.le_add_right _ _⟩
  | cons e es ih =>
      obtain ⟨t, ht, hI, hle⟩ := hstep s e h0
      obtain ⟨u, hu, hI', hle'⟩ := ih hI
      refine ⟨u, ?_, hI', ?_⟩
      · rw [List.foldlM_cons, ht]
        exact hu
      · rw [List.map_cons, List.sum_cons]
        omega

/-! ## Last writes -/

/-- What the last of the events that write something writes. -/
def lastWrite {β : Type} (write : ε → Option β) (es : List ε) : Option β :=
  es.reverse.findSome? write

theorem lastWrite_append {β : Type} (write : ε → Option β) (es fs : List ε) :
    lastWrite write (es ++ fs) = (lastWrite write fs).or (lastWrite write es) := by
  rw [lastWrite, List.reverse_append, List.findSome?_append, ← lastWrite, ← lastWrite]

@[simp] theorem lastWrite_singleton {β : Type} (write : ε → Option β) (e : ε) :
    lastWrite write [e] = write e := by
  show List.findSome? write [e] = write e
  rw [List.findSome?_cons]
  cases write e <;> rfl

/-- Nothing is written exactly if no event writes. -/
theorem lastWrite_eq_none_iff {β : Type} {write : ε → Option β} {es : List ε} :
    lastWrite write es = none ↔ ∀ e ∈ es, write e = none := by
  rw [lastWrite, List.findSome?_eq_none_iff]
  simp only [List.mem_reverse]

/-- What is written last is written by some event. -/
theorem exists_of_lastWrite_eq_some {β : Type} {write : ε → Option β} {es : List ε} {b : β}
    (h : lastWrite write es = some b) : ∃ e ∈ es, write e = some b := by
  obtain ⟨e, he, hb⟩ := List.exists_of_findSome?_eq_some h
  exact ⟨e, List.mem_reverse.1 he, hb⟩

/-- When every step of a run writes an observation of the state or leaves it as it
is, the run shows what was written last. -/
theorem run_lastWrite_of_mem {β : Type} (obs : σ → Option β) {write : ε → Option β} (s : σ)
    {es : List ε} (hstep : ∀ e ∈ es, ∀ s, obs (step s e) = (write e).or (obs s)) :
    obs (run step s es) = (lastWrite write es).or (obs s) := by
  induction es using List.reverseRecOn with
  | nil => rfl
  | append_singleton es e ih =>
      rw [run_concat, hstep e (List.mem_append_right _ (List.mem_singleton_self e)),
        ih fun e' he' => hstep e' (List.mem_append_left _ he'), lastWrite_append,
        lastWrite_singleton, Option.or_assoc]

/-- When every step writes an observation of the state or leaves it as it is, a
run shows what was written last. -/
theorem run_lastWrite {β : Type} (obs : σ → Option β) {write : ε → Option β}
    (hstep : ∀ s e, obs (step s e) = (write e).or (obs s)) (s : σ) (es : List ε) :
    obs (run step s es) = (lastWrite write es).or (obs s) :=
  run_lastWrite_of_mem obs s fun e _ s => hstep s e

/-- A run that writes only one value, and does so if there is one, shows it at the
end, whatever the order of its events. -/
theorem run_tells {β : Type} (obs : σ → Option β) {write : ε → Option β} {s : σ} {es : List ε}
    {target : Option β} (hstep : ∀ e ∈ es, ∀ s, obs (step s e) = (write e).or (obs s))
    (hnone : obs s = none) (hsound : ∀ e ∈ es, ∀ b, write e = some b → target = some b)
    (hcomplete : ∀ b, target = some b → ∃ e ∈ es, write e = some b) :
    obs (run step s es) = target := by
  rw [run_lastWrite_of_mem obs s hstep, hnone, Option.or_none]
  cases hlast : lastWrite write es with
  | some b =>
      obtain ⟨e, he, hb⟩ := exists_of_lastWrite_eq_some hlast
      exact (hsound e he b hb).symm
  | none =>
      cases htarget : target with
      | none => rfl
      | some b =>
          obtain ⟨e, he, hb⟩ := hcomplete b htarget
          rw [lastWrite_eq_none_iff.1 hlast e he] at hb
          cases hb

/-! ## Since -/

/-- Some event establishes a property, and none after it ends the property. -/
def Since (born ends : ε → Prop) (es : List ε) : Prop :=
  ∃ pre e post, es = pre ++ e :: post ∧ born e ∧ ∀ e' ∈ post, ¬ ends e'

theorem not_since_nil {born ends : ε → Prop} : ¬ Since born ends [] := by
  rintro ⟨pre, e, post, heq, -⟩
  exact absurd heq (by simp)

/-- One more event establishes the property, or leaves it established. -/
theorem since_concat {born ends : ε → Prop} {es : List ε} {e : ε} :
    Since born ends (es ++ [e]) ↔ born e ∨ Since born ends es ∧ ¬ ends e := by
  constructor
  · rintro ⟨pre, b, post, heq, hb, hpost⟩
    rcases List.eq_nil_or_concat post with rfl | ⟨post, x, rfl⟩
    · obtain ⟨-, hlast⟩ := List.append_inj' heq rfl
      rw [List.singleton_inj.1 hlast]
      exact Or.inl hb
    · rw [List.concat_eq_append] at heq hpost
      rw [← List.cons_append, ← List.append_assoc] at heq
      obtain ⟨hes, hlast⟩ := List.append_inj' heq rfl
      obtain rfl : e = x := List.singleton_inj.1 hlast
      right
      refine ⟨⟨pre, b, post, hes, hb, fun e' he' => ?_⟩, ?_⟩
      · exact hpost e' (List.mem_append_left _ he')
      · exact hpost e (List.mem_append_right _ (List.mem_singleton_self e))
  · rintro (hb | ⟨⟨pre, b, post, rfl, hb, hpost⟩, hends⟩)
    · exact ⟨es, e, [], rfl, hb, fun e' he' => absurd he' List.not_mem_nil⟩
    · refine ⟨pre, b, post ++ [e], by rw [List.append_assoc, List.cons_append], hb, fun e' he' => ?_⟩
      rcases List.mem_append.1 he' with he' | he'
      · exact hpost e' he'
      · rw [List.mem_singleton.1 he']
        exact hends

/-- A property that an event establishes, ends or leaves alone holds after a run
exactly if it was established and has not been ended since. -/
theorem run_iff_since {P : σ → Prop} {born ends : ε → Prop}
    (hstep : ∀ s e, P (step s e) ↔ born e ∨ P s ∧ ¬ ends e) {s : σ} (h0 : ¬ P s) (es : List ε) :
    P (run step s es) ↔ Since born ends es := by
  induction es using List.reverseRecOn with
  | nil => exact iff_of_false h0 not_since_nil
  | append_singleton es e ih => rw [run_concat, hstep, since_concat, ih]

/-! ## Interleavings -/

/-- `Interleaving xs ys zs`: the events of `zs` are those of `xs` and those of
`ys`, each stream in its own order. -/
inductive Interleaving {α : Type} : List α → List α → List α → Prop
  | nil : Interleaving [] [] []
  | left {x : α} {xs ys zs : List α} :
      Interleaving xs ys zs → Interleaving (x :: xs) ys (x :: zs)
  | right {y : α} {xs ys zs : List α} :
      Interleaving xs ys zs → Interleaving xs (y :: ys) (y :: zs)

namespace Interleaving

theorem symm {α : Type} {xs ys zs : List α} (h : Interleaving xs ys zs) :
    Interleaving ys xs zs := by
  induction h with
  | nil => exact nil
  | left _ ih => exact right ih
  | right _ ih => exact left ih

/-- One stream may run before the other. -/
theorem append {α : Type} (xs ys : List α) : Interleaving xs ys (xs ++ ys) := by
  induction xs with
  | nil =>
      induction ys with
      | nil => exact nil
      | cons y ys ih => exact right ih
  | cons x xs ih => exact left ih

/-- A relation that the first stream carries along and the second stream does
not disturb holds between a run on an interleaving and a run on the first
stream alone. -/
theorem related {step' : τ → ε → τ} {R : σ → τ → Prop} {xs ys zs : List ε}
    (h : Interleaving xs ys zs)
    (hleft : ∀ x ∈ xs, ∀ s t, R s t → R (step s x) (step' t x))
    (hright : ∀ y ∈ ys, ∀ s t, R s t → R (step s y) t) {s : σ} {t : τ} (h0 : R s t) :
    R (run step s zs) (run step' t xs) := by
  induction h generalizing s t with
  | nil => exact h0
  | @left x xs ys zs _ ih =>
      have hnext : R (step s x) (step' t x) := hleft x List.mem_cons_self s t h0
      exact ih (fun x' hx' => hleft x' (List.mem_cons_of_mem _ hx')) hright hnext
  | @right y xs ys zs _ ih =>
      have hnext : R (step s y) t := hright y List.mem_cons_self s t h0
      exact ih hleft (fun y' hy' => hright y' (List.mem_cons_of_mem _ hy')) hnext

end Interleaving

/-! ## Since the last reset -/

/-- The part of a list after its last element that satisfies `reset`. -/
def sinceLast {α : Type} (reset : α → Bool) (l : List α) : List α :=
  (l.reverse.takeWhile fun x => !reset x).reverse

/-- One more element either resets or is added at the end. -/
theorem sinceLast_concat {α : Type} (reset : α → Bool) (l : List α) (x : α) :
    sinceLast reset (l ++ [x]) = if reset x then [] else sinceLast reset l ++ [x] := by
  rw [sinceLast, List.reverse_append, List.reverse_singleton, List.singleton_append,
    List.takeWhile_cons]
  cases reset x
  · simp [sinceLast]
  · simp

/-- One update of a counter that some elements reset and some add to. -/
def resetCounter {α M : Type} [Zero M] [Add M] (reset : α → Bool) (amount : α → Option M)
    (c : Option M) (x : α) : Option M :=
  if reset x then none
  else
    match amount x with
    | some a => some (c.getD 0 + a)
    | none => c

/-- After a list such a counter is absent when nothing was added since the last
reset, and else the sum of what was. -/
theorem foldl_resetCounter {α M : Type} [Zero M] [Add M] (reset : α → Bool)
    (amount : α → Option M) (l : List α) :
    l.foldl (resetCounter reset amount) none
      = (if (sinceLast reset l).filterMap amount = [] then none
        else some (((sinceLast reset l).filterMap amount).foldl (· + ·) 0)) := by
  induction l using List.reverseRecOn with
  | nil => rfl
  | append_singleton l x ih =>
      rw [List.foldl_concat, ih, sinceLast_concat, resetCounter]
      cases hreset : reset x with
      | true => simp
      | false =>
          cases hamount : amount x with
          | none => simp [hamount]
          | some a =>
              by_cases hnil : (sinceLast reset l).filterMap amount = []
              · simp [hamount, hnil]
              · simp [hamount, hnil]

end Runs
