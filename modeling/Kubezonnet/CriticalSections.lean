/-
# Calls under a mutex

Threads call procedures that share a state and one mutex.  A procedure is a
program of atomic steps, with the operations on the mutex where the code has
them; nothing makes a thread that works on the state hold the mutex, and an
unlock of a free mutex is a fatal error.

A program is disciplined if on every path it works on the state only between one
lock and one unlock, or returns without either.  Then no interleaving of such
programs can be told from running them one after another, in the order in which
they took the mutex (`consistent_run`): the state, the results and the order of
calls that do not overlap are as there.  And no call is ever stuck
(`exists_returned`).
-/
import Kubezonnet.Runs

namespace Critical

/-! ## Programs -/

/-- A program on a shared state: it returns, locks or unlocks the mutex, or
updates the state and goes on depending on the state that it found. -/
inductive Prog (σ α : Type) : Type where
  | ret (result : α) : Prog σ α
  | lock (rest : Prog σ α) : Prog σ α
  | unlock (rest : Prog σ α) : Prog σ α
  | step (update : σ → σ) (rest : σ → Prog σ α) : Prog σ α

namespace Prog

variable {σ α β : Type}

/-- One program after another. -/
def bind : Prog σ α → (α → Prog σ β) → Prog σ β
  | ret result, f => f result
  | lock rest, f => lock (rest.bind f)
  | unlock rest, f => unlock (rest.bind f)
  | step update rest, f => step update fun s => (rest s).bind f

instance : Monad (Prog σ) where
  pure := ret
  bind := bind

/-- Reading something of the state. -/
def read (f : σ → α) : Prog σ α := step id fun s => ret (f s)

/-- Changing the state. -/
def modify (f : σ → σ) : Prog σ Unit := step f fun _ => ret ()

/-- `mutex.Lock()`. -/
def acquire : Prog σ Unit := lock (ret ())

/-- `mutex.Unlock()`. -/
def release : Prog σ Unit := unlock (ret ())

/-- The result and the state after a program that nothing interferes with. -/
def exec : Prog σ α → σ → α × σ
  | ret result, s => (result, s)
  | lock rest, s => rest.exec s
  | unlock rest, s => rest.exec s
  | step update rest, s => (rest s).exec (update s)

@[simp] theorem exec_pure (a : α) (s : σ) : exec (pure a : Prog σ α) s = (a, s) := rfl

@[simp] theorem exec_read (f : σ → α) (s : σ) : (read f).exec s = (f s, s) := rfl

@[simp] theorem exec_modify (f : σ → σ) (s : σ) : (modify f).exec s = ((), f s) := rfl

@[simp] theorem exec_acquire (s : σ) : (acquire : Prog σ Unit).exec s = ((), s) := rfl

@[simp] theorem exec_release (s : σ) : (release : Prog σ Unit).exec s = ((), s) := rfl

@[simp] theorem exec_bind (p : Prog σ α) (f : α → Prog σ β) (s : σ) :
    (p >>= f).exec s = (f (p.exec s).1).exec (p.exec s).2 := by
  show (p.bind f).exec s = _
  induction p generalizing s with
  | ret result => rfl
  | lock rest ih => exact ih s
  | unlock rest ih => exact ih s
  | step update rest ih => exact ih s (update s)

/-- A loop runs its body once for each element. -/
theorem exec_foldlM {γ : Type} (body : α → γ → Prog σ α) (xs : List γ) (a : α) (s : σ) :
    (xs.foldlM body a).exec s = xs.foldl (fun p x => (body p.1 x).exec p.2) (a, s) := by
  induction xs generalizing a s with
  | nil => rfl
  | cons x xs ih => rw [List.foldlM_cons, exec_bind, ih, List.foldl_cons]

/-- A loop without a result of its own. -/
def forEach {γ : Type} (xs : List γ) (body : γ → Prog σ Unit) : Prog σ Unit :=
  xs.foldlM (fun _ x => body x) ()

@[simp] theorem exec_forEach {γ : Type} (xs : List γ) (body : γ → Prog σ Unit) (s : σ) :
    (forEach xs body).exec s = ((), xs.foldl (fun s x => ((body x).exec s).2) s) := by
  unfold forEach
  rw [exec_foldlM]
  induction xs generalizing s with
  | nil => rfl
  | cons x xs ih => exact ih ((body x).exec s).2

/-! ## Discipline -/

/-- Where a thread is with respect to its critical section. -/
inductive Stage : Type where
  | before : Stage
  | inside : Stage
  | after : Stage
  deriving DecidableEq

/-- On every path the program gets from one stage to another, and works on the
state only inside. -/
def Goes : Prog σ α → Stage → Stage → Prop
  | ret _, a, b => a = b
  | lock rest, a, b => a = .before ∧ rest.Goes .inside b
  | unlock rest, a, b => a = .inside ∧ rest.Goes .after b
  | step _ rest, a, b => a = .inside ∧ ∀ s, (rest s).Goes .inside b

/-- The program returns at once, or it has one critical section on every path. -/
def Disciplined (p : Prog σ α) : Prop := (∃ result, p = ret result) ∨ p.Goes .before .after

theorem goes_pure (x : α) (a : Stage) : (pure x : Prog σ α).Goes a a := rfl

theorem goes_read (f : σ → α) : (read f).Goes .inside .inside := ⟨rfl, fun _ => rfl⟩

theorem goes_modify (f : σ → σ) : (modify f).Goes .inside .inside := ⟨rfl, fun _ => rfl⟩

theorem goes_acquire : (acquire : Prog σ Unit).Goes .before .inside := ⟨rfl, rfl⟩

theorem goes_release : (release : Prog σ Unit).Goes .inside .after := ⟨rfl, rfl⟩

/-- One program after another. -/
theorem goes_bind {p : Prog σ α} {f : α → Prog σ β} {a b c : Stage} (hp : p.Goes a b)
    (hf : ∀ x, (f x).Goes b c) : (p >>= f).Goes a c := by
  show (p.bind f).Goes a c
  induction p generalizing a with
  | ret result =>
      obtain rfl : a = b := hp
      exact hf result
  | lock rest ih => exact ⟨hp.1, ih hp.2⟩
  | unlock rest ih => exact ⟨hp.1, ih hp.2⟩
  | step update rest ih => exact ⟨hp.1, fun s => ih s (hp.2 s)⟩

/-- A loop whose body stays at a stage stays there. -/
theorem goes_foldlM {γ : Type} {body : α → γ → Prog σ α} {a : Stage}
    (hbody : ∀ x y, (body x y).Goes a a) (xs : List γ) (x : α) :
    (xs.foldlM body x).Goes a a := by
  induction xs generalizing x with
  | nil => exact goes_pure x a
  | cons y xs ih =>
      rw [List.foldlM_cons]
      exact goes_bind (hbody x y) ih

theorem goes_forEach {γ : Type} {body : γ → Prog σ Unit} {a : Stage}
    (hbody : ∀ x, (body x).Goes a a) (xs : List γ) : (forEach xs body).Goes a a :=
  goes_foldlM (fun _ x => hbody x) xs ()

/-- A test between two ways to go on. -/
theorem goes_ite {p q : Prog σ α} {c : Prop} [Decidable c] {a b : Stage} (hp : p.Goes a b)
    (hq : q.Goes a b) : (if c then p else q).Goes a b := by
  split_ifs
  · exact hp
  · exact hq

end Prog

/-! ## Threads -/

open Prog

variable {ι σ α : Type}

/-- The state of some threads: what they share, the holder of the mutex, what is
left of each program, and the history of the mutex: who took it, in order. -/
structure Threads (ι σ α : Type) : Type where
  shared : σ
  holder : Option ι
  progs : ι → Prog σ α
  order : List ι

/-- Before any thread has taken a step. -/
def Threads.start (calls : ι → Prog σ α) (s : σ) : Threads ι σ α where
  shared := s
  holder := none
  progs := calls
  order := []

/-- A step of a thread.  A thread that cannot lock the mutex waits, and one that
has returned does nothing.  Unlocking a free mutex is a fatal error. -/
def Threads.step [DecidableEq ι] (t : Threads ι σ α) (i : ι) : Option (Threads ι σ α) :=
  match t.progs i with
  | .ret _ => some t
  | .lock rest =>
      match t.holder with
      | some _ => some t
      | none =>
          some { t with
            holder := some i
            progs := Function.update t.progs i rest
            order := t.order ++ [i] }
  | .unlock rest =>
      match t.holder with
      | some _ => some { t with holder := none, progs := Function.update t.progs i rest }
      | none => none
  | .step update rest =>
      some { t with
        shared := update t.shared
        progs := Function.update t.progs i (rest t.shared) }

/-- The state after the threads of a schedule have taken a step each. -/
def Threads.run [DecidableEq ι] (t : Threads ι σ α) (schedule : List ι) : Option (Threads ι σ α) :=
  schedule.foldlM Threads.step t

/-! ## One call after another -/

/-- The state after some calls, one after another. -/
def serial (calls : ι → Prog σ α) : σ → List ι → σ :=
  Runs.run fun s i => ((calls i).exec s).2

variable {calls : ι → Prog σ α} {s₀ : σ}

/-- What a thread has done, seen from the order in which the mutex was taken. -/
inductive Agrees (calls : ι → Prog σ α) (s₀ : σ) (t : Threads ι σ α) (i : ι) : Prop
  /-- It returned without the mutex, or has not taken it yet. -/
  | outside (hnew : i ∉ t.order) (hprog : t.progs i = calls i)
  /-- It holds the mutex and is on the way to what its call does in its place. -/
  | inside (pre : List ι) (horder : t.order = pre ++ [i]) (hholder : t.holder = some i)
      (p : Prog σ α) (hprog : t.progs i = p) (hgoes : p.Goes .inside .after)
      (hexec : p.exec t.shared = (calls i).exec (serial calls s₀ pre))
  /-- It returned what its call returns in its place. -/
  | returned (pre post : List ι) (horder : t.order = pre ++ i :: post)
      (hprog : t.progs i = .ret ((calls i).exec (serial calls s₀ pre)).1)

/-- The threads are where they would be had they run one after another. -/
structure Consistent (calls : ι → Prog σ α) (s₀ : σ) (t : Threads ι σ α) : Prop where
  nodup : t.order.Nodup
  agrees : ∀ i, Agrees calls s₀ t i
  free : t.holder = none → t.shared = serial calls s₀ t.order
  held : ∀ i, t.holder = some i → (t.progs i).Goes .inside .after

/-! ## One step -/

variable {t t' : Threads ι σ α} {i j : ι}

/-- A disciplined program that does not return at once takes the mutex first. -/
theorem exists_lock {p : Prog σ α} (h : p.Goes .before .after) :
    ∃ rest, p = .lock rest ∧ rest.Goes .inside .after := by
  cases p with
  | ret result => exact absurd (show Stage.before = Stage.after from h) (by decide)
  | lock rest => exact ⟨rest, rfl, h.2⟩
  | unlock rest => exact absurd h.1 (by decide)
  | step update rest => exact absurd h.1 (by decide)

/-- After its critical section a program only returns. -/
theorem exists_ret {p : Prog σ α} (h : p.Goes .after .after) : ∃ result, p = .ret result := by
  cases p with
  | ret result => exact ⟨result, rfl⟩
  | lock rest => exact absurd h.1 (by decide)
  | unlock rest => exact absurd h.1 (by decide)
  | step update rest => exact absurd h.1 (by decide)

/-- A thread that does not move agrees as before, if it does not hold the mutex. -/
theorem Agrees.of_other (h : Agrees calls s₀ t j) (hholder : t.holder ≠ some j)
    (hprog : t'.progs j = t.progs j) {later : List ι} (horder : t'.order = t.order ++ later)
    (hlater : j ∉ later) : Agrees calls s₀ t' j := by
  cases h with
  | outside hnew hcall =>
      refine Agrees.outside ?_ (hprog.trans hcall)
      rw [horder, List.mem_append]
      exact not_or.2 ⟨hnew, hlater⟩
  | inside pre hpre hheld => exact absurd hheld hholder
  | returned pre post hpost hret =>
      refine Agrees.returned pre (post ++ later) ?_ (hprog.trans hret)
      rw [horder, hpost, List.append_assoc, List.cons_append]

/-- At the start no call has taken the mutex. -/
theorem consistent_start (calls : ι → Prog σ α) (s₀ : σ) :
    Consistent calls s₀ (Threads.start calls s₀) where
  nodup := List.nodup_nil
  agrees _ := Agrees.outside List.not_mem_nil rfl
  free _ := rfl
  held _ h := absurd h (by simp [Threads.start])

/-- When all calls have returned, nobody holds the mutex. -/
theorem Consistent.holder_eq_none (h : Consistent calls s₀ t)
    (hdone : ∀ i, ∃ result, t.progs i = .ret result) : t.holder = none := by
  cases hholder : t.holder with
  | none => rfl
  | some i =>
      obtain ⟨result, hret⟩ := hdone i
      have hgoes := h.held i hholder
      rw [hret] at hgoes
      exact absurd (show Stage.inside = Stage.after from hgoes) (by decide)

variable [DecidableEq ι]

/-- A thread that takes the mutex. -/
theorem Consistent.take (h : Consistent calls s₀ t) (hnew : i ∉ t.order) {rest : Prog σ α}
    (hcall : calls i = .lock rest) (hgoes : rest.Goes .inside .after) (hfree : t.holder = none) :
    Consistent calls s₀ { t with
      holder := some i
      progs := Function.update t.progs i rest
      order := t.order ++ [i] } where
  nodup := h.nodup.append (List.nodup_singleton i) (List.disjoint_singleton.2 hnew)
  agrees j := by
    by_cases hj : j = i
    · subst hj
      refine Agrees.inside t.order rfl rfl rest (Function.update_self ..) hgoes ?_
      rw [hcall, ← h.free hfree]
      rfl
    · refine (h.agrees j).of_other ?_ (Function.update_of_ne hj _ _) rfl ?_
      · rw [hfree]
        exact nofun
      · exact fun hmem => hj (List.mem_singleton.1 hmem)
  free hnone := absurd hnone (by simp)
  held j hj := by
    obtain rfl : i = j := Option.some.inj hj
    show (Function.update t.progs i rest i).Goes .inside .after
    rw [Function.update_self]
    exact hgoes

/-- A thread that works on the state inside its critical section. -/
theorem Consistent.work (h : Consistent calls s₀ t) {pre : List ι} (horder : t.order = pre ++ [i])
    (hholder : t.holder = some i) {update : σ → σ} {rest : σ → Prog σ α}
    (hgoes : ∀ s, (rest s).Goes .inside .after)
    (hexec : (rest t.shared).exec (update t.shared) = (calls i).exec (serial calls s₀ pre)) :
    Consistent calls s₀ { t with
      shared := update t.shared
      progs := Function.update t.progs i (rest t.shared) } where
  nodup := h.nodup
  agrees j := by
    by_cases hj : j = i
    · subst hj
      exact Agrees.inside pre horder hholder (rest t.shared) (Function.update_self ..)
        (hgoes t.shared) hexec
    · refine (h.agrees j).of_other ?_ (Function.update_of_ne hj _ _) (List.append_nil _).symm
        List.not_mem_nil
      rw [hholder]
      exact fun heq => hj (Option.some.inj heq).symm
  free hnone := by
    have hnone' : t.holder = none := hnone
    rw [hholder] at hnone'
    cases hnone'
  held j hj := by
    obtain rfl : i = j := Option.some.inj (hholder.symm.trans hj)
    show (Function.update t.progs i (rest t.shared) i).Goes .inside .after
    rw [Function.update_self]
    exact hgoes t.shared

/-- A thread that gives the mutex back. -/
theorem Consistent.give (h : Consistent calls s₀ t) {pre : List ι} (horder : t.order = pre ++ [i])
    (hholder : t.holder = some i) {result : α}
    (hexec : (result, t.shared) = (calls i).exec (serial calls s₀ pre)) :
    Consistent calls s₀ { t with
      holder := none
      progs := Function.update t.progs i (.ret result) } where
  nodup := h.nodup
  agrees j := by
    by_cases hj : j = i
    · subst hj
      refine Agrees.returned pre [] horder ?_
      rw [← hexec]
      exact Function.update_self ..
    · refine (h.agrees j).of_other ?_ (Function.update_of_ne hj _ _) (List.append_nil _).symm
        List.not_mem_nil
      rw [hholder]
      exact fun heq => hj (Option.some.inj heq).symm
  free _ := by
    show t.shared = serial calls s₀ t.order
    rw [horder, serial, Runs.run_concat, ← serial, ← hexec]
  held j hj := absurd hj (by simp)

/-- A step is never a fatal error, keeps the threads consistent and adds no other
thread than its own to the history of the mutex. -/
theorem Consistent.exists_step (hcalls : ∀ i, (calls i).Disciplined)
    (h : Consistent calls s₀ t) (i : ι) :
    ∃ t', t.step i = some t' ∧ Consistent calls s₀ t'
      ∧ (∃ later, t'.order = t.order ++ later ∧ ∀ j ∈ later, j = i)
      ∧ ∀ j, j ≠ i → t'.progs j = t.progs j := by
  have hsame : ∃ later, t.order = t.order ++ later ∧ ∀ j ∈ later, j = i :=
    ⟨[], (List.append_nil _).symm, fun j hj => absurd hj List.not_mem_nil⟩
  unfold Threads.step
  cases h.agrees i with
  | outside hnew hcall =>
      rw [hcall]
      rcases hcalls i with ⟨result, hret⟩ | hgoes
      · rw [hret]
        exact ⟨t, rfl, h, hsame, fun _ _ => rfl⟩
      · obtain ⟨rest, hlock, hrest⟩ := exists_lock hgoes
        rw [hlock]
        cases hholder : t.holder with
        | some j => exact ⟨t, rfl, h, hsame, fun _ _ => rfl⟩
        | none =>
            exact ⟨_, rfl, h.take hnew hlock hrest hholder, ⟨[i], rfl, fun j hj => List.mem_singleton.1 hj⟩,
              fun j hj => Function.update_of_ne hj _ _⟩
  | inside pre horder hholder p hprog hgoes hexec =>
      rw [hprog]
      cases p with
      | ret result => exact absurd (show Stage.inside = Stage.after from hgoes) (by decide)
      | lock rest => exact absurd hgoes.1 (by decide)
      | unlock rest =>
          obtain ⟨result, rfl⟩ := exists_ret hgoes.2
          rw [hholder]
          exact ⟨_, rfl, h.give horder hholder hexec, hsame,
            fun j hj => Function.update_of_ne hj _ _⟩
      | step update rest =>
          exact ⟨_, rfl, h.work horder hholder hgoes.2 hexec, hsame,
            fun j hj => Function.update_of_ne hj _ _⟩
  | returned pre post horder hprog =>
      rw [hprog]
      exact ⟨t, rfl, h, hsame, fun _ _ => rfl⟩

/-! ## Whole schedules -/

/-- Any schedule from a consistent state. -/
theorem Consistent.exists_run (hcalls : ∀ i, (calls i).Disciplined) (h : Consistent calls s₀ t)
    (schedule : List ι) :
    ∃ t', t.run schedule = some t' ∧ Consistent calls s₀ t'
      ∧ ∃ later, t'.order = t.order ++ later ∧ ∀ j ∈ later, j ∈ schedule := by
  induction schedule generalizing t with
  | nil => exact ⟨t, rfl, h, [], (List.append_nil _).symm, fun j hj => hj⟩
  | cons i schedule ih =>
      obtain ⟨t₁, hstep, hcons, ⟨now, hnow, hmem⟩, -⟩ := h.exists_step hcalls i
      obtain ⟨t', hrun, hcons', later, hlater, hmem'⟩ := ih hcons
      refine ⟨t', ?_, hcons', now ++ later, ?_, fun j hj => ?_⟩
      · rw [Threads.run, List.foldlM_cons, hstep]
        exact hrun
      · rw [hlater, hnow, List.append_assoc]
      · rcases List.mem_append.1 hj with hj | hj
        · rw [hmem j hj]
          exact List.mem_cons_self
        · exact List.mem_cons_of_mem i (hmem' j hj)

/-- Any schedule of disciplined calls leaves the threads where they would be had
they run one after another. -/
theorem consistent_run (hcalls : ∀ i, (calls i).Disciplined) (s₀ : σ) (schedule : List ι) :
    ∃ t, (Threads.start calls s₀).run schedule = some t ∧ Consistent calls s₀ t
      ∧ ∀ j ∈ t.order, j ∈ schedule := by
  obtain ⟨t, hrun, hcons, later, hlater, hmem⟩ :=
    (consistent_start calls s₀).exists_run hcalls schedule
  refine ⟨t, hrun, hcons, fun j hj => hmem j ?_⟩
  rwa [hlater] at hj

theorem run_append {schedule schedule' : List ι} (hrun : t.run schedule = some t') :
    t.run (schedule ++ schedule') = t'.run schedule' := by
  unfold Threads.run at hrun ⊢
  rw [List.foldlM_append, hrun]
  rfl

/-- A call that has taken the mutex comes before any call that has not. -/
theorem Consistent.precedes (hcalls : ∀ i, (calls i).Disciplined) (h : Consistent calls s₀ t)
    (hi : i ∈ t.order) (hj : j ∉ t.order) {schedule : List ι} (hrun : t.run schedule = some t')
    (hj' : j ∈ t'.order) : ∃ pre mid post, t'.order = pre ++ i :: mid ++ j :: post := by
  obtain ⟨t'', hrun', -, later, hlater, -⟩ := h.exists_run hcalls schedule
  obtain rfl : t'' = t' := Option.some.inj (hrun'.symm.trans hrun)
  obtain ⟨pre, mid, hpre⟩ := List.mem_iff_append.1 hi
  rw [hlater, List.mem_append] at hj'
  obtain ⟨mid', post, hpost⟩ := List.mem_iff_append.1 (hj'.resolve_left hj)
  refine ⟨pre, mid ++ mid', post, ?_⟩
  rw [hlater, hpre, hpost]
  simp only [List.append_assoc, List.cons_append]

/-! ## No call is stuck -/

/-- The holder of the mutex gives it back when it is scheduled often enough. -/
theorem Consistent.exists_release (hcalls : ∀ i, (calls i).Disciplined)
    (h : Consistent calls s₀ t) (hholder : t.holder = some i) :
    ∃ schedule t', t.run schedule = some t' ∧ Consistent calls s₀ t' ∧ t'.holder = none
      ∧ (∃ result, t'.progs i = .ret result) ∧ ∀ j, j ≠ i → t'.progs j = t.progs j := by
  have hgoes := h.held i hholder
  -- by induction on what is left of the program
  generalize hprog : t.progs i = p at hgoes
  induction p generalizing t with
  | ret result => exact absurd (show Stage.inside = Stage.after from hgoes) (by decide)
  | lock rest => exact absurd hgoes.1 (by decide)
  | unlock rest =>
      obtain ⟨t₁, hstep, hcons, -, hprogs⟩ := h.exists_step hcalls i
      obtain ⟨result, rfl⟩ := exists_ret hgoes.2
      have hmove : t.step i = some { t with
          holder := none
          progs := Function.update t.progs i (.ret result) } := by
        simp only [Threads.step, hprog, hholder]
      obtain rfl := Option.some.inj (hmove.symm.trans hstep)
      refine ⟨[i], _, ?_, hcons, rfl, ⟨result, Function.update_self ..⟩, hprogs⟩
      simp only [Threads.run, List.foldlM_cons, hmove, List.foldlM_nil]
      rfl
  | step update rest ih =>
      obtain ⟨t₁, hstep, hcons, -, hprogs⟩ := h.exists_step hcalls i
      have hmove : t.step i = some { t with
          shared := update t.shared
          progs := Function.update t.progs i (rest t.shared) } := by
        simp only [Threads.step, hprog]
      obtain rfl := Option.some.inj (hmove.symm.trans hstep)
      obtain ⟨schedule, t', hrun, hcons', hfree, hret, hprogs'⟩ :=
        ih t.shared hcons hholder (Function.update_self ..) (hgoes.2 t.shared)
      refine ⟨i :: schedule, t', ?_, hcons', hfree, hret, fun j hj => ?_⟩
      · rw [Threads.run, List.foldlM_cons, hmove]
        exact hrun
      · exact (hprogs' j hj).trans (hprogs j hj)

/-- Every call can be brought to return, whatever has happened so far. -/
theorem Consistent.exists_returned (hcalls : ∀ i, (calls i).Disciplined)
    (h : Consistent calls s₀ t) (i : ι) :
    ∃ schedule t', t.run schedule = some t' ∧ Consistent calls s₀ t'
      ∧ ∃ result, t'.progs i = .ret result := by
  -- the mutex is free, or its holder gives it back first
  have hfree : ∃ schedule t₁, t.run schedule = some t₁ ∧ Consistent calls s₀ t₁
      ∧ t₁.holder = none := by
    cases hholder : t.holder with
    | none => exact ⟨[], t, rfl, h, hholder⟩
    | some j =>
        obtain ⟨schedule, t₁, hrun, hcons, hnone, -⟩ := h.exists_release hcalls hholder
        exact ⟨schedule, t₁, hrun, hcons, hnone⟩
  obtain ⟨schedule, t₁, hrun, hcons, hnone⟩ := hfree
  cases hcons.agrees i with
  | returned pre post horder hprog => exact ⟨schedule, t₁, hrun, hcons, _, hprog⟩
  | inside pre horder hholder =>
      rw [hnone] at hholder
      cases hholder
  | outside hnew hcall =>
      rcases hcalls i with ⟨result, hret⟩ | hgoes
      · exact ⟨schedule, t₁, hrun, hcons, result, hcall.trans hret⟩
      · -- the call takes the mutex and then gives it back
        obtain ⟨rest, hlock, hrest⟩ := exists_lock hgoes
        have hmove : t₁.step i = some { t₁ with
            holder := some i
            progs := Function.update t₁.progs i rest
            order := t₁.order ++ [i] } := by
          simp only [Threads.step, hcall, hlock, hnone]
        obtain ⟨schedule', t', hrun', hcons', -, hret, -⟩ :=
          (hcons.take hnew hlock hrest hnone).exists_release hcalls rfl
        refine ⟨schedule ++ i :: schedule', t', ?_, hcons', hret⟩
        rw [run_append hrun, Threads.run, List.foldlM_cons, hmove]
        exact hrun'

/-- A call that has returned stays as it is. -/
theorem Consistent.returned_run (hcalls : ∀ i, (calls i).Disciplined)
    (h : Consistent calls s₀ t) {result : α} (hret : t.progs i = .ret result) {schedule : List ι}
    (hrun : t.run schedule = some t') : t'.progs i = .ret result := by
  induction schedule generalizing t with
  | nil =>
      obtain rfl : t = t' := Option.some.inj hrun
      exact hret
  | cons j schedule ih =>
      obtain ⟨t₁, hstep, hcons, -, hprogs⟩ := h.exists_step hcalls j
      rw [Threads.run, List.foldlM_cons, hstep] at hrun
      refine ih hcons ?_ hrun
      by_cases hj : i = j
      · subst hj
        rw [Threads.step, hret] at hstep
        rw [← Option.some.inj hstep]
        exact hret
      · rw [hprogs i hj]
        exact hret

/-- Any calls can be brought to return, whatever has happened so far. -/
theorem Consistent.exists_all_returned (hcalls : ∀ i, (calls i).Disciplined)
    (h : Consistent calls s₀ t) (is : List ι) :
    ∃ schedule t', t.run schedule = some t' ∧ Consistent calls s₀ t'
      ∧ ∀ i ∈ is, ∃ result, t'.progs i = .ret result := by
  induction is with
  | nil => exact ⟨[], t, rfl, h, fun i hi => absurd hi List.not_mem_nil⟩
  | cons j is ih =>
      obtain ⟨schedule, t₁, hrun, hcons, hrest⟩ := ih
      obtain ⟨schedule', t', hrun', hcons', result, hret⟩ := hcons.exists_returned hcalls j
      refine ⟨schedule ++ schedule', t', (run_append hrun).trans hrun', hcons', fun i hi => ?_⟩
      rcases List.mem_cons.1 hi with rfl | hi
      · exact ⟨result, hret⟩
      · obtain ⟨result', hret'⟩ := hrest i hi
        exact ⟨result', hcons.returned_run hcalls hret' hrun'⟩

end Critical
