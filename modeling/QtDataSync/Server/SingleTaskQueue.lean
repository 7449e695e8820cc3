import Mathlib.Order.Lattice
import QtDataSync.Lib.Transition

/-!
# Server.SingleTaskQueue — the tasks of a connection, one after the other

A step is a locked section of the queue, a call of `QThreadPool::start`, or the body of a task; any number of threads
take them in any order.  `nextTask` releases the lock before it calls `start`, and other sections may come in between.
A task is the object that `enqueue` has created, known by its number.  At any time at most the head of the queue is
under way (`Inv.underWay`): it is started by the section that has made it the head, and stays until it is completed.
-/

namespace QtDataSync.Server

/-- `_tasks`, and where the tasks are that `nextTask` has taken: with the thread that is about to call `start`, in the
thread pool, or returned from their body.  `created` is the number of tasks. -/
structure SingleTaskQueue where
  created : ℕ
  tasks : List ℕ
  starting : List ℕ
  pool : List ℕ
  returned : List ℕ
deriving DecidableEq, Repr

namespace SingleTaskQueue

/-- The head is started, after the lock has been released. -/
def nextTask (q : SingleTaskQueue) : SingleTaskQueue := { q with starting := q.starting ++ q.tasks.head?.toList }

def enqueueTask (q : SingleTaskQueue) (task : ℕ) : SingleTaskQueue :=
  let q := { q with tasks := q.tasks ++ [task] }
  if q.tasks.length = 1 then q.nextTask else q

def isFinished (q : SingleTaskQueue) : Bool := q.tasks.isEmpty

/-- The head is kept, as running tasks cannot be removed. -/
def clear (q : SingleTaskQueue) : SingleTaskQueue × Bool :=
  let q :=
    match q.tasks with
    | [] => q
    | head :: _ => { q with tasks := [head] }
  (q, q.isFinished)

/-- The head is dequeued, whatever task has completed; the warning is logged if it is another one. -/
def completeTask (q : SingleTaskQueue) (task : ℕ) : SingleTaskQueue × Bool :=
  (nextTask { q with tasks := q.tasks.tail }, q.tasks.head? != some task)

/-- The steps of all threads. -/
inductive Step where
  | enqueueTask
  | clear
  | start (task : ℕ)
  | safeRun (task : ℕ)
  | completeTask (task : ℕ)
deriving DecidableEq, Repr

def next (q : SingleTaskQueue) : Step → Option SingleTaskQueue
  | .enqueueTask => some (enqueueTask { q with created := q.created + 1 } q.created)
  | .clear => some q.clear.1
  | .start task =>
    if task ∈ q.starting then some { q with starting := q.starting.erase task, pool := q.pool ++ [task] } else none
  | .safeRun task =>
    if task ∈ q.pool then some { q with pool := q.pool.erase task, returned := q.returned ++ [task] } else none
  | .completeTask task =>
    if task ∈ q.returned then some ({ q with returned := q.returned.erase task }.completeTask task).1 else none

def empty : SingleTaskQueue := ⟨0, [], [], [], []⟩

def lts : LTS SingleTaskQueue Step := LTS.ofStep (· = empty) next

/-- What has happened to the tasks, in this order; `mismatched` are the completions with a warning. -/
structure History where
  started : List ℕ
  removed : List ℕ
  ran : List ℕ
  completed : List ℕ
  mismatched : List ℕ
deriving DecidableEq, Repr

/-- A task is started by the section whose `nextTask` has taken it. -/
def record (h : History) (q : SingleTaskQueue) (a : Step) (t : SingleTaskQueue) : History :=
  match a with
  | .enqueueTask => { h with started := h.started ++ t.starting.drop q.starting.length }
  | .clear => { h with removed := h.removed ++ q.tasks.drop 1 }
  | .start _ => h
  | .safeRun task => { h with ran := h.ran ++ [task] }
  | .completeTask task => { h with
      started := h.started ++ t.starting.drop q.starting.length
      completed := h.completed ++ [task]
      mismatched := if (q.completeTask task).2 then h.mismatched ++ [task] else h.mismatched }

def system : LTS (SingleTaskQueue × History) Step := lts.withHistory ⟨[], [], [], [], []⟩ record

/-- A step of the thread pool: what is left to do for the tasks that have been enqueued. -/
def Step.works : Step → Bool
  | .start _ => true
  | .safeRun _ => true
  | .completeTask _ => true
  | _ => false

/-- The tasks are run one after the other. -/
structure Serialised (q : SingleTaskQueue) (h : History) : Prop where
  /-- At most one task is started and not completed. -/
  single : (h.started.filter (· ∉ h.completed)).length ≤ 1
  /-- The tasks run in the order of `enqueueTask`, none of them twice. -/
  ordered : h.ran.Pairwise (· < ·)
  /-- A task that has been removed has not been started, and is never run. -/
  removed : h.removed.Nodup ∧ ∀ task ∈ h.removed, task ∉ h.started ∧ task ∉ h.ran ∧ task ∉ q.tasks
  /-- No task is lost. -/
  kept : ∀ task, task < q.created ↔ task ∈ h.ran ∨ task ∈ h.removed ∨ task ∈ q.tasks
  /-- The head is started and not completed, and is in the thread pool once `start` has been called. -/
  head : ∀ task, q.tasks.head? = some task → task ∈ h.started ∧ task ∉ h.completed ∧
    (q.starting = [] → task ∈ q.pool ∨ task ∈ q.returned)
  /-- A task is run only when it is started, and completed only after it has run. -/
  runs : ∀ task ∈ h.ran, task ∈ h.started
  completes : ∀ task ∈ h.completed, task ∈ h.ran
  matched : h.mismatched = []
  /-- If the thread pool has nothing left to do, every task has been run or removed. -/
  finished : (∀ a, a.works = true → q.next a = none) → ∀ task < q.created, task ∈ h.ran ∨ task ∈ h.removed

/-- The invariant of the runs. -/
structure Inv (q : SingleTaskQueue) (h : History) : Prop where
  underWay : q.starting ++ q.pool ++ q.returned = q.tasks.take 1
  ascending : (h.completed ++ q.tasks).Pairwise (· < ·)
  created : ∀ task ∈ h.completed ++ q.tasks, task < q.created
  started : h.started = h.completed ++ q.tasks.take 1
  ran : h.ran = h.completed ++ q.returned
  nodup : h.removed.Nodup
  removed : ∀ task ∈ h.removed, task < q.created ∧ task ∉ h.completed ++ q.tasks
  kept : ∀ task < q.created, task ∈ h.completed ++ q.tasks ∨ task ∈ h.removed
  matched : h.mismatched = []

variable {q t : SingleTaskQueue} {h : History}

theorem toList_head? (l : List ℕ) : l.head?.toList = l.take 1 := by
  rcases l with - | ⟨a, l⟩ <;> rfl

theorem clear_fst (q : SingleTaskQueue) : q.clear.1 = { q with tasks := q.tasks.take 1 } := by
  rcases q with ⟨created, - | ⟨head, tasks⟩, starting, pool, returned⟩ <;> rfl

/-- Only a head that is the first task is started. -/
theorem enqueueTask_eq (q : SingleTaskQueue) (task : ℕ) : q.enqueueTask task =
    { q with
      tasks := q.tasks ++ [task]
      starting := q.starting ++ if q.tasks = [] then [task] else [] } := by
  rcases htasks : q.tasks with - | ⟨head, tasks⟩
  · simp [enqueueTask, nextTask, htasks]
  · simp [enqueueTask, htasks]

/-- The only task that is under way is the head. -/
theorem Inv.head_of_mem (hI : Inv q h) {task : ℕ} (htask : task ∈ q.starting ++ q.pool ++ q.returned) :
    ∃ rest, q.tasks = task :: rest ∧ q.starting ++ q.pool ++ q.returned = [task] := by
  rw [hI.underWay] at htask ⊢
  rcases htasks : q.tasks with - | ⟨head, rest⟩
  · rw [htasks] at htask
    cases htask
  · rw [htasks, List.take_succ_cons, List.take_zero, List.mem_singleton] at htask
    subst htask
    exact ⟨rest, rfl, rfl⟩

theorem Inv.of_mem_starting (hI : Inv q h) {task : ℕ} (htask : task ∈ q.starting) :
    ∃ rest, q.tasks = task :: rest ∧ q.starting = [task] ∧ q.pool = [] ∧ q.returned = [] := by
  obtain ⟨rest, htasks, hway⟩ := hI.head_of_mem (List.mem_append_left _ (List.mem_append_left _ htask))
  obtain ⟨a, l, hstarting⟩ := List.exists_cons_of_ne_nil (List.ne_nil_of_mem htask)
  rw [hstarting] at hway htask ⊢
  simp only [List.cons_append, List.cons.injEq, List.append_eq_nil_iff] at hway
  obtain ⟨rfl, ⟨rfl, hpool⟩, hreturned⟩ := hway
  exact ⟨rest, htasks, rfl, hpool, hreturned⟩

theorem Inv.of_mem_pool (hI : Inv q h) {task : ℕ} (htask : task ∈ q.pool) :
    ∃ rest, q.tasks = task :: rest ∧ q.starting = [] ∧ q.pool = [task] ∧ q.returned = [] := by
  obtain ⟨rest, htasks, hway⟩ := hI.head_of_mem (List.mem_append_left _ (List.mem_append_right _ htask))
  rcases hstarting : q.starting with - | ⟨a, l⟩
  · obtain ⟨b, l, hpool⟩ := List.exists_cons_of_ne_nil (List.ne_nil_of_mem htask)
    rw [hstarting, hpool] at hway
    simp only [List.nil_append, List.cons_append, List.cons.injEq, List.append_eq_nil_iff] at hway
    obtain ⟨rfl, rfl, hreturned⟩ := hway
    exact ⟨rest, htasks, rfl, hpool, hreturned⟩
  · rw [hstarting] at hway
    simp only [List.cons_append, List.cons.injEq, List.append_eq_nil_iff] at hway
    rw [hway.2.1.2] at htask
    cases htask

theorem Inv.of_mem_returned (hI : Inv q h) {task : ℕ} (htask : task ∈ q.returned) :
    ∃ rest, q.tasks = task :: rest ∧ q.starting = [] ∧ q.pool = [] ∧ q.returned = [task] := by
  obtain ⟨rest, htasks, hway⟩ := hI.head_of_mem (List.mem_append_right _ htask)
  rcases hbefore : q.starting ++ q.pool with - | ⟨a, l⟩
  · rw [hbefore, List.nil_append] at hway
    obtain ⟨hstarting, hpool⟩ := List.append_eq_nil_iff.mp hbefore
    exact ⟨rest, htasks, hstarting, hpool, hway⟩
  · rw [hbefore] at hway
    simp only [List.cons_append, List.cons.injEq, List.append_eq_nil_iff] at hway
    rw [hway.2.2] at htask
    cases htask

theorem Inv.enqueueTask (hI : Inv q h) (ht : t = SingleTaskQueue.enqueueTask { q with created := q.created + 1 } q.created) :
    Inv t (record h q .enqueueTask t) := by
  rw [enqueueTask_eq] at ht
  subst ht
  have hstarting : (q.starting ++ if q.tasks = [] then [q.created] else []).drop q.starting.length =
      if q.tasks = [] then [q.created] else [] := List.drop_left
  have htake : (q.tasks ++ [q.created]).take 1 = q.tasks.take 1 ++ if q.tasks = [] then [q.created] else [] := by
    rcases q.tasks with - | ⟨head, tasks⟩ <;> simp
  have hnew : q.created ∉ h.completed ++ q.tasks := fun hmem => absurd (hI.created _ hmem) (lt_irrefl _)
  refine ⟨?_, ?_, ?_, ?_, hI.ran, hI.nodup, ?_, ?_, hI.matched⟩
  · show q.starting ++ _ ++ q.pool ++ q.returned = _
    rw [htake, ← hI.underWay]
    split_ifs with hempty
    · have hnone := hI.underWay
      rw [hempty, List.take_nil, List.append_eq_nil_iff, List.append_eq_nil_iff] at hnone
      rw [hnone.1.1, hnone.1.2, hnone.2]
      rfl
    · simp
  · rw [← List.append_assoc]
    refine List.pairwise_append.mpr ⟨hI.ascending, List.pairwise_singleton _ _, fun a ha b hb => ?_⟩
    rw [List.mem_singleton.mp hb]
    exact hI.created a ha
  · intro task htask
    rw [← List.append_assoc] at htask
    rcases List.mem_append.mp htask with htask | htask
    · exact (hI.created task htask).trans (Nat.lt_succ_self _)
    · rw [List.mem_singleton.mp htask]
      exact Nat.lt_succ_self _
  · show h.started ++ List.drop _ _ = h.completed ++ List.take 1 _
    rw [hstarting, htake, hI.started, List.append_assoc]
  · intro task htask
    obtain ⟨hlt, hnot⟩ := hI.removed task htask
    refine ⟨hlt.trans (Nat.lt_succ_self _), ?_⟩
    rw [← List.append_assoc, List.mem_append, List.mem_singleton]
    rintro (hmem | rfl)
    · exact hnot hmem
    · exact absurd hlt (lt_irrefl _)
  · intro task htask
    rw [← List.append_assoc, List.mem_append, List.mem_singleton]
    rcases Nat.lt_succ_iff_lt_or_eq.mp htask with hlt | rfl
    · exact (hI.kept task hlt).imp_left Or.inl
    · exact Or.inl (Or.inr rfl)

theorem Inv.clear (hI : Inv q h) : Inv q.clear.1 (record h q .clear q.clear.1) := by
  rw [clear_fst]
  have hsublist : (h.completed ++ q.tasks.take 1).Sublist (h.completed ++ q.tasks) :=
    (List.take_sublist 1 q.tasks).append_left _
  have hsplit : (h.completed ++ q.tasks).Nodup := hI.ascending.imp fun hlt => hlt.ne
  rw [← List.take_append_drop 1 q.tasks, ← List.append_assoc, List.nodup_append] at hsplit
  obtain ⟨-, hdrop, hdisjoint⟩ := hsplit
  refine ⟨?_, hI.ascending.sublist hsublist, fun task htask => hI.created task (hsublist.subset htask), ?_, hI.ran, ?_, ?_,
    ?_, hI.matched⟩
  · show q.starting ++ q.pool ++ q.returned = _
    rw [hI.underWay, List.take_take, min_self]
  · show h.started = _
    rw [hI.started, List.take_take, min_self]
    rfl
  · refine List.nodup_append.mpr ⟨hI.nodup, hdrop, fun a ha b hb hab => ?_⟩
    subst hab
    exact (hI.removed a ha).2 (List.mem_append_right _ (List.mem_of_mem_drop hb))
  · intro task htask
    rcases List.mem_append.mp htask with htask | htask
    · exact ⟨(hI.removed task htask).1, fun hmem => (hI.removed task htask).2 (hsublist.subset hmem)⟩
    · exact ⟨hI.created task (List.mem_append_right _ (List.mem_of_mem_drop htask)),
        fun hmem => hdisjoint task hmem task htask rfl⟩
  · intro task htask
    show _ ∨ task ∈ h.removed ++ q.tasks.drop 1
    rcases hI.kept task htask with hmem | hmem
    · rw [← List.take_append_drop 1 q.tasks, ← List.append_assoc] at hmem
      exact (List.mem_append.mp hmem).imp_right (List.mem_append_right _)
    · exact Or.inr (List.mem_append_left _ hmem)

/-- **One step**. -/
theorem Inv.next (hI : Inv q h) {a : Step} (hnext : q.next a = some t) : Inv t (record h q a t) := by
  cases a with
  | enqueueTask => exact hI.enqueueTask (Option.some.inj hnext).symm
  | clear =>
    cases hnext
    exact hI.clear
  | start task =>
    obtain ⟨hmem, ht⟩ := Option.ite_none_right_eq_some.mp hnext
    cases ht
    obtain ⟨rest, htasks, hstarting, hpool, hreturned⟩ := hI.of_mem_starting hmem
    refine { hI with underWay := ?_ }
    show q.starting.erase task ++ (q.pool ++ [task]) ++ q.returned = q.tasks.take 1
    rw [hstarting, hpool, hreturned, htasks]
    simp
  | safeRun task =>
    obtain ⟨hmem, ht⟩ := Option.ite_none_right_eq_some.mp hnext
    cases ht
    obtain ⟨rest, htasks, hstarting, hpool, hreturned⟩ := hI.of_mem_pool hmem
    refine { hI with underWay := ?_, ran := ?_ }
    · show q.starting ++ q.pool.erase task ++ (q.returned ++ [task]) = q.tasks.take 1
      rw [hstarting, hpool, hreturned, htasks]
      simp
    · show h.ran ++ [task] = h.completed ++ (q.returned ++ [task])
      rw [hI.ran, List.append_assoc]
  | completeTask task =>
    obtain ⟨hmem, ht⟩ := Option.ite_none_right_eq_some.mp hnext
    cases ht
    obtain ⟨rest, htasks, hstarting, hpool, hreturned⟩ := hI.of_mem_returned hmem
    have hsame : (h.completed ++ [task]) ++ rest = h.completed ++ q.tasks := by
      rw [htasks, List.append_assoc, List.singleton_append]
    have hstart : (q.starting ++ rest.head?.toList).drop q.starting.length = rest.take 1 := by
      rw [List.drop_left, toList_head?]
    simp only [completeTask, SingleTaskQueue.nextTask, record, htasks, List.tail_cons, List.head?_cons, bne_self_eq_false,
      Bool.false_eq_true, if_false, hstart]
    refine ⟨?_, hsame ▸ hI.ascending, fun a ha => hI.created a (hsame ▸ ha), ?_, ?_, hI.nodup,
      fun a ha => ⟨(hI.removed a ha).1, fun hmem => (hI.removed a ha).2 (hsame ▸ hmem)⟩,
      fun a ha => (hI.kept a ha).imp_left fun hmem => hsame.symm ▸ hmem, hI.matched⟩
    · show q.starting ++ rest.head?.toList ++ q.pool ++ q.returned.erase task = rest.take 1
      rw [hstarting, hpool, hreturned, toList_head?]
      simp
    · show h.started ++ rest.take 1 = h.completed ++ [task] ++ rest.take 1
      rw [hI.started, htasks, List.take_succ_cons, List.take_zero]
    · show h.ran = h.completed ++ [task] ++ q.returned.erase task
      rw [hI.ran, hreturned]
      simp

theorem Inv.nodup_tasks (hI : Inv q h) : (h.completed ++ q.tasks).Nodup := hI.ascending.imp fun hlt => hlt.ne

/-- What has run is what has been completed, and maybe the head. -/
theorem Inv.ran_sublist (hI : Inv q h) : h.ran.Sublist (h.completed ++ q.tasks) := by
  rw [hI.ran]
  refine List.Sublist.append_left ?_ _
  have hway := List.sublist_append_right (q.starting ++ q.pool) q.returned
  rw [hI.underWay] at hway
  exact hway.trans (List.take_sublist 1 q.tasks)

theorem Inv.started_sublist (hI : Inv q h) : h.started.Sublist (h.completed ++ q.tasks) := by
  rw [hI.started]
  exact (List.take_sublist 1 q.tasks).append_left _

theorem Inv.single (hI : Inv q h) : (h.started.filter (· ∉ h.completed)).length ≤ 1 := by
  have hcompleted : h.completed.filter (· ∉ h.completed) = [] :=
    List.filter_eq_nil_iff.mpr fun task htask => by simpa using htask
  rw [hI.started, List.filter_append, hcompleted, List.nil_append]
  have hlength := List.length_filter_le (fun task => decide (task ∉ h.completed)) (q.tasks.take 1)
  rw [List.length_take] at hlength
  omega

theorem Inv.head (hI : Inv q h) {task : ℕ} (htask : q.tasks.head? = some task) :
    task ∈ h.started ∧ task ∉ h.completed ∧ (q.starting = [] → task ∈ q.pool ∨ task ∈ q.returned) := by
  obtain ⟨rest, htasks⟩ := List.head?_eq_some_iff.mp htask
  have hway := hI.underWay
  have hnodup := hI.nodup_tasks
  rw [htasks, List.take_succ_cons, List.take_zero] at hway
  rw [htasks, List.nodup_append] at hnodup
  refine ⟨?_, fun hmem => hnodup.2.2 task hmem task List.mem_cons_self rfl, fun hnone => ?_⟩
  · rw [hI.started, htasks]
    exact List.mem_append_right _ List.mem_cons_self
  · rw [hnone, List.nil_append] at hway
    have hmem : task ∈ q.pool ++ q.returned := by
      rw [hway]
      exact List.mem_singleton_self _
    exact List.mem_append.mp hmem

/-- A queue with nothing left to do is empty. -/
theorem Inv.tasks_eq_nil (hI : Inv q h) (hidle : ∀ a, a.works = true → q.next a = none) : q.tasks = [] := by
  have hnone : ∀ {l : List ℕ} (a : ℕ → Step), (∀ task, (a task).works = true) →
      (∀ task ∈ l, q.next (a task) ≠ none) → l = [] := by
    intro l a hworks hnext
    rw [List.eq_nil_iff_forall_not_mem]
    exact fun task htask => hnext task htask (hidle _ (hworks task))
  have hstarting : q.starting = [] :=
    hnone .start (fun _ => rfl) fun task htask => by simp [SingleTaskQueue.next, htask]
  have hpool : q.pool = [] := hnone .safeRun (fun _ => rfl) fun task htask => by simp [SingleTaskQueue.next, htask]
  have hreturned : q.returned = [] :=
    hnone .completeTask (fun _ => rfl) fun task htask => by simp [SingleTaskQueue.next, htask]
  have hway := hI.underWay
  rw [hstarting, hpool, hreturned] at hway
  rcases htasks : q.tasks with - | ⟨task, rest⟩
  · rfl
  · rw [htasks] at hway
    cases hway

theorem Inv.serialised (hI : Inv q h) : Serialised q h where
  single := hI.single
  ordered := hI.ascending.sublist hI.ran_sublist
  removed := by
    refine ⟨hI.nodup, fun task htask => ?_⟩
    have hnot := (hI.removed task htask).2
    exact ⟨fun hmem => hnot (hI.started_sublist.subset hmem), fun hmem => hnot (hI.ran_sublist.subset hmem),
      fun hmem => hnot (List.mem_append_right _ hmem)⟩
  kept := by
    refine fun task => ⟨fun htask => ?_, ?_⟩
    · rcases hI.kept task htask with hmem | hmem
      · rcases List.mem_append.mp hmem with hmem | hmem
        · exact Or.inl (hI.ran ▸ List.mem_append_left _ hmem)
        · exact Or.inr (Or.inr hmem)
      · exact Or.inr (Or.inl hmem)
    · rintro (hmem | hmem | hmem)
      · exact hI.created task (hI.ran_sublist.subset hmem)
      · exact (hI.removed task hmem).1
      · exact hI.created task (List.mem_append_right _ hmem)
  head := fun task => hI.head
  runs := by
    intro task htask
    have hreturned : task ∈ q.returned → task ∈ q.tasks.take 1 := by
      rw [← hI.underWay]
      exact List.mem_append_right _
    rw [hI.ran, List.mem_append] at htask
    rw [hI.started, List.mem_append]
    exact htask.imp_right hreturned
  completes := by
    intro task htask
    rw [hI.ran]
    exact List.mem_append_left _ htask
  matched := hI.matched
  finished := by
    intro hidle task htask
    have hempty := hI.tasks_eq_nil hidle
    have hkept := hI.kept task htask
    rw [hempty, List.append_nil] at hkept
    rw [hI.ran]
    exact hkept.imp_left (List.mem_append_left _)

/-! ### Runs -/

theorem Inv.step {x y : SingleTaskQueue × History} {a : Step} (hI : Inv x.1 x.2) (hst : system.step x a y) :
    Inv y.1 y.2 := by
  obtain ⟨hnext, hh⟩ := hst
  have hrecord : y.2 = record x.2 x.1 a y.1 := hh
  rw [hrecord]
  exact hI.next hnext

theorem inv_of_reachable {x : SingleTaskQueue × History} (hx : system.Reachable LTS.free x) : Inv x.1 x.2 := by
  refine LTS.Reachable.invariant (I := fun x => Inv x.1 x.2) ?_ (fun x a y _ hI _ hst => hI.step hst) hx
  rintro ⟨q, h⟩ ⟨hq, hh⟩
  cases hq
  cases hh
  exact ⟨rfl, List.Pairwise.nil, nofun, rfl, rfl, List.nodup_nil, nofun, nofun, rfl⟩

/-- What is left to do for the tasks of the queue. -/
def work (q : SingleTaskQueue) : ℕ := 3 * q.tasks.length - q.pool.length - 2 * q.returned.length

/-- A step of the thread pool does some of the work, and no step but `enqueueTask` makes more of it. -/
theorem Inv.work_next (hI : Inv q h) {a : Step} (ha : a ≠ .enqueueTask) (hnext : q.next a = some t) :
    t.work + (if a.works then 1 else 0) ≤ q.work := by
  cases a with
  | enqueueTask => exact absurd rfl ha
  | clear =>
    cases hnext
    rw [clear_fst, work, work, List.length_take]
    show 3 * min 1 q.tasks.length - q.pool.length - 2 * q.returned.length + 0 ≤ _
    omega
  | start task =>
    obtain ⟨hmem, ht⟩ := Option.ite_none_right_eq_some.mp hnext
    cases ht
    obtain ⟨rest, htasks, hstarting, hpool, hreturned⟩ := hI.of_mem_starting hmem
    simp only [work, Step.works, htasks, hpool, hreturned, List.nil_append, List.length_cons, List.length_nil, if_true]
    omega
  | safeRun task =>
    obtain ⟨hmem, ht⟩ := Option.ite_none_right_eq_some.mp hnext
    cases ht
    obtain ⟨rest, htasks, hstarting, hpool, hreturned⟩ := hI.of_mem_pool hmem
    simp only [work, Step.works, htasks, hpool, hreturned, List.erase_cons_head, List.nil_append, List.length_cons,
      List.length_nil, if_true]
    omega
  | completeTask task =>
    obtain ⟨hmem, ht⟩ := Option.ite_none_right_eq_some.mp hnext
    cases ht
    obtain ⟨rest, htasks, hstarting, hpool, hreturned⟩ := hI.of_mem_returned hmem
    simp only [work, Step.works, completeTask, SingleTaskQueue.nextTask, htasks, hpool, hreturned, List.erase_cons_head,
      List.tail_cons, List.head?_cons, bne_self_eq_false, List.length_cons, List.length_nil, if_true]
    omega

/-- **The tasks are serialised** in every run, and only `enqueueTask` makes new work: whatever else happens, the thread
pool takes at most three steps for each task of the queue. -/
theorem serialised_of_reachable {x : SingleTaskQueue × History} (hx : system.Reachable LTS.free x) :
    Serialised x.1 x.2 ∧ ∀ tr y, LTS.Run system (fun _ a => a ≠ .enqueueTask) x tr y →
      tr.countP (fun z => z.2.1.works) ≤ 3 * x.1.tasks.length := by
  have hI := inv_of_reachable hx
  refine ⟨hI.serialised, fun tr y hr => ?_⟩
  have hcount := hr.countP_add_le (I := fun x => Inv x.1 x.2) (fun x a y hI _ hst => hI.step hst) (fun z => z.2.1.works) (fun x => x.1.work)
    (fun x a y hI ha hst => Inv.work_next (h := x.2) hI ha hst.1) hI
  have hwork : x.1.work ≤ 3 * x.1.tasks.length := by
    unfold work
    omega
  omega

/-- Three tasks are enqueued, and two of them are removed while the first one is started; one more follows it. -/
theorem serialised_cleared : ∃ x : SingleTaskQueue × History, Serialised x.1 x.2 ∧
    x = (⟨4, [3], [], [3], []⟩, ⟨[0, 3], [1, 2], [0], [0], []⟩) := by
  have hreach : system.Reachable LTS.free (⟨4, [3], [], [3], []⟩, ⟨[0, 3], [1, 2], [0], [0], []⟩) :=
    LTS.exec_withHistory (fun _ _ _ => trivial) rfl (rfl : LTS.exec _ (fun _ _ => true) _ ([.enqueueTask, .enqueueTask,
      .enqueueTask, .clear, .start 0, .safeRun 0, .enqueueTask, .completeTask 0, .start 3] : List Step) = _)
  exact ⟨_, (serialised_of_reachable hreach).1, rfl⟩

end SingleTaskQueue

end QtDataSync.Server
