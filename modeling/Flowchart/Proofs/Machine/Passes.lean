import Flowchart.Proofs.Machine.Faults

/-!
# Passes of loops

Iterations are counted along paths: what follows a block keeps the count of the path, and a pass
through the body of a loop raises it by one. So the ceiling bounds the passes of every loop, from
the count at which it was entered, whatever the body does.
-/

namespace Flowchart.Machine

open Flowchart.Graph

variable {records : List Record} {p : Program} {s₀ s s' : State} {t u v : Task}
  {rest ts vs xs : List Task} {n : Node} {j i depth : Nat}

/-! ## Counts of tasks -/

/-- The count of the task is within reach; the step of a loop is not taken beyond the ceiling. -/
def Reached (p : Program) (t : Task) : Prop :=
  t.iteration ≤ p.limits.maxIterations + 1 ∧
    (t.activity = .step → t.iteration ≤ p.limits.maxIterations)

theorem reached_of_mem_visits {h : Option Handle} {count : Nat} {stop : Option Handle}
    (hcount : count ≤ p.limits.maxIterations + 1) (hv : v ∈ visits h count stop) : Reached p v := by
  cases h with
  | none => simp [visits] at hv
  | some node =>
    obtain rfl : v = _ := by simpa [visits] using hv
    exact ⟨hcount, by simp⟩

theorem Scheduled.reached (h : Scheduled p t n depth vs) (ht : Reached p t) :
    ∀ v ∈ vs, Reached p v := by
  intro v hv
  cases h with
  | ended => cases hv
  | plain => exact reached_of_mem_visits ht.1 hv
  | left => exact reached_of_mem_visits ht.1 hv
  | again _ _ _ hlimit =>
    simp only [List.mem_cons, List.not_mem_nil, or_false] at hv
    rcases hv with rfl | rfl
    · exact ⟨by simp only; omega, by simp⟩
    · exact ⟨by simp only; omega, by simp⟩
  | opened =>
    obtain rfl := List.mem_singleton.mp hv
    exact ⟨ht.1, by simp⟩
  | repeated _ hlimit =>
    rcases List.mem_append.mp hv with hv | hv
    · exact reached_of_mem_visits (by omega) hv
    · obtain rfl := List.mem_singleton.mp hv
      exact ⟨ht.1, fun _ => hlimit⟩
  | advanced hstep =>
    obtain rfl := List.mem_singleton.mp hv
    have hlimit := ht.2 hstep
    exact ⟨by simp only; omega, by simp⟩
  | called =>
    rcases List.mem_append.mp hv with hv | hv
    · exact reached_of_mem_visits (by omega) hv
    · obtain rfl := List.mem_singleton.mp hv
      exact ⟨ht.1, by simp⟩

theorem GivesUp.reached (h : GivesUp p rest ts) (hrest : ∀ v ∈ rest, Reached p v) :
    ∀ v ∈ ts, Reached p v := by
  cases h with
  | all => simp
  | call hcall _ =>
    obtain ⟨above, rfl, -, -⟩ := innermostCall_some hcall
    intro v hv
    rcases List.mem_append.mp hv with hv | hv
    · exact reached_of_mem_visits (hrest _ (by simp)).1 hv
    · exact hrest v (by simp [hv])

theorem reached_of_next (hload : Loads records p s₀) (hs : Reaches p s₀ s) (hnext : Next p s s')
    (h : ∀ v ∈ s.tasks, Reached p v) : ∀ v ∈ s'.tasks, Reached p v := by
  cases stepped_of_next hload hs hnext with
  | carriedOut ht hn hperform =>
    obtain ⟨vs, hvs, htasks, -⟩ := perform_carriedOut hn hperform
    rw [ht, List.forall_mem_cons] at h
    rw [htasks, List.forall_mem_append]
    exact ⟨hvs.reached h.1, h.2⟩
  | gaveUp ht hn hx habandon =>
    rw [ht, List.forall_mem_cons] at h
    have hgives := (abandon_eq_ok hn habandon).1
    rw [hx.untouched.1] at hgives
    exact hgives.reached h.2

theorem reached_of_reaches (hload : Loads records p s₀) (hs : Reaches p s₀ s) :
    ∀ v ∈ s.tasks, Reached p v := by
  induction hs with
  | refl =>
    cases hload with
    | mk _ _ _ _ => simp [State.initial, Reached]
  | tail hs hnext ih => exact reached_of_next hload hs hnext ih

/-! ## The run of a loop -/

/-- In `entry` the loop `n` is about to be visited, at a count that the ceiling allows. -/
structure Enters (p : Program) (entry : State) (t : Task) (rest : List Task) (n : Node) : Prop where
  tasks : entry.tasks = t :: rest
  visit : t.activity = .visit
  block : p.graph.node t.node = .ok n
  loop : n.kind = .whileLoop ∨ n.kind = .forLoop
  count : t.iteration ≤ p.limits.maxIterations

/-- The run has come from `entry` to a state in which the loop is not left: one task of the loop is
on top of `rest`, and the tasks of its body are above that. Passes count when they begin, steps when
they have been made. -/
inductive Runs (p : Program) (rest : List Task) (entry : State) :
    (passes steps : Nat) → State → Prop
  | entered : Runs p rest entry 0 0 entry
  /-- The loop goes on from one of its own tasks to another. -/
  | turned {j i : Nat} {s s' : State} {u u' : Task} (hs : Runs p rest entry j i s)
      (hu : s.tasks = u :: rest) (hnext : Next p s s') (hu' : s'.tasks = u' :: rest)
      (hown : u'.activity ≠ .visit) :
      Runs p rest entry j (if u.activity = .step then i + 1 else i) s'
  | begun {j i : Nat} {s s' : State} {u u' b : Task} (hs : Runs p rest entry j i s)
      (hu : s.tasks = u :: rest) (hnext : Next p s s') (hb : s'.tasks = b :: u' :: rest) :
      Runs p rest entry (j + 1) i s'
  /-- The body does something. -/
  | within {j i : Nat} {s s' : State} {x u : Task} {xs ys : List Task}
      (hs : Runs p rest entry j i s) (hu : s.tasks = x :: xs ++ u :: rest) (hnext : Next p s s')
      (hys : s'.tasks = ys ++ u :: rest) :
      Runs p rest entry j i s'

/-- The next step is refused at the ceiling: it records one failure, at the block `id`, and gives up
the path on top of `rest`. -/
def Refuses (p : Program) (rest : List Task) (s : State) (id : String) : Prop :=
  ∃ s' f, Next p s s' ∧ s'.failures = s.failures.push f ∧ f.kind = .iterationLimit ∧ f.node = id ∧
    f.source = "" ∧ s'.output = s.output ∧ GivesUp p rest s'.tasks

theorem Runs.reaches {entry : State} (h : Runs p rest entry j i s) : Reaches p entry s := by
  induction h with
  | entered => exact .refl p entry
  | turned _ _ hnext _ _ ih => exact ih.trans hnext.reaches
  | begun _ _ hnext _ ih => exact ih.trans hnext.reaches
  | within _ _ hnext _ ih => exact ih.trans hnext.reaches

/-! ## The tasks of a loop -/

def passTask (t : Task) (body : Handle) (j : Nat) : Task :=
  { activity := .visit, node := body, iteration := t.iteration + j, stop := t.stop }

/-- A task of the loop itself, when `j` passes have begun and `i` steps have been made. -/
inductive Own (p : Program) (n : Node) (t : Task) : (j i : Nat) → Task → Prop
  | visit {j : Nat} {u : Task} (hact : u.activity = .visit) (hcount : u.iteration = t.iteration + j)
      (hj : j = 0 ∨ n.kind = .whileLoop ∧ n.onTrue ≠ none) : Own p n t j 0 u
  | check {j i : Nat} {u : Task} (hact : u.activity = .check)
      (hcount : u.iteration = t.iteration + i) (hj : j = if n.onTrue.isSome then i else 0)
      (hlimit : u.iteration ≤ p.limits.maxIterations + 1) : Own p n t j i u
  | step {j i : Nat} {u : Task} (hact : u.activity = .step) (hcount : u.iteration = t.iteration + i)
      (hj : j = if n.onTrue.isSome then i + 1 else 0)
      (hlimit : u.iteration ≤ p.limits.maxIterations) : Own p n t j i u

/-- `u` is the pending task of the loop, and `xs` are those of its body. Beyond the ceiling there is
only the task that begins a pass. -/
structure InLoop (p : Program) (n : Node) (t : Task) (j i : Nat) (xs : List Task)
    (u : Task) : Prop where
  node : u.node = t.node
  stop : u.stop = t.stop
  own : Own p n t j i u
  body : n.onTrue = none → xs = []
  count : t.iteration + j ≤ p.limits.maxIterations ∨
    t.iteration + j = p.limits.maxIterations + 1 ∧ ∃ body, n.onTrue = some body ∧
    xs = [passTask t body j]

theorem Own.not_leave (h : Own p n t j i u) : u.activity ≠ .leave := by
  cases h <;> simp [*]

theorem length_visits (h : Option Handle) (count : Nat) (stop : Option Handle) :
    (visits h count stop).length ≤ 1 := by
  cases h <;> simp [visits]

theorem GivesUp.length_le (h : GivesUp p rest ts) : ts.length ≤ rest.length := by
  cases h with
  | all => simp
  | @call ret below m hcall _ =>
    obtain ⟨above, rfl, -, -⟩ := innermostCall_some hcall
    have hone := length_visits m.next ret.iteration ret.stop
    simp only [List.length_append, List.length_cons]
    omega

theorem GivesUp.of_cons (hu : u.activity ≠ .leave) (h : GivesUp p (u :: rest) ts) :
    GivesUp p rest ts := by
  have hsame : innermostCall (u :: rest) = innermostCall rest := by simp [innermostCall, hu]
  cases h with
  | all hnone => exact .all (hsame ▸ hnone)
  | call hcall hm => exact .call (hsame ▸ hcall) hm

theorem GivesUp.inside (hu : u.activity ≠ .leave) (h : GivesUp p (xs ++ u :: rest) ts) :
    (∃ ys, ts = ys ++ u :: rest) ∨ GivesUp p rest ts := by
  induction xs with
  | nil => exact Or.inr (h.of_cons hu)
  | cons x xs ih =>
    by_cases hx : x.activity = .leave
    · have hfound : innermostCall (x :: xs ++ u :: rest) = some (x, xs ++ u :: rest) := by
        simp [innermostCall, hx]
      cases h with
      | all hnone => cases hfound.symm.trans hnone
      | @call ret below m hcall hm =>
        cases hfound.symm.trans hcall
        exact Or.inl ⟨visits m.next x.iteration x.stop ++ xs, by rw [List.append_assoc]⟩
    · exact ih (h.of_cons hx)

theorem InLoop.count_of_nil (h : InLoop p n t j i [] u) :
    t.iteration + j ≤ p.limits.maxIterations := by
  rcases h.count with hcount | ⟨-, body, -, hxs⟩
  · exact hcount
  · cases hxs

theorem InLoop.within {ys : List Task} {x : Task} (h : InLoop p n t j i (x :: xs) u)
    (hcount : t.iteration + j ≤ p.limits.maxIterations) : InLoop p n t j i ys u where
  node := h.node
  stop := h.stop
  own := h.own
  body hnone := by cases h.body hnone
  count := Or.inl hcount

theorem InLoop.begun {body : Handle} (hbody : n.onTrue = some body) (hnode : u.node = t.node)
    (hstop : u.stop = t.stop) (hown : Own p n t (j + 1) i u)
    (hlimit : t.iteration + j ≤ p.limits.maxIterations) :
    InLoop p n t (j + 1) i [passTask t body (j + 1)] u where
  node := hnode
  stop := hstop
  own := hown
  body hnone := by simp [hbody] at hnone
  count := by
    by_cases hmax : t.iteration + (j + 1) ≤ p.limits.maxIterations
    · exact Or.inl hmax
    · exact Or.inr ⟨by omega, body, hbody, rfl⟩

/-- What a step makes of the tasks of a loop. -/
inductive Goes (p : Program) (n : Node) (t : Task) (rest : List Task) (j i : Nat) (u : Task) :
    (xs ts : List Task) → Prop
  | left {ts : List Task} (hleft : ts = rest ∨ ts = visits n.onFalse u.iteration u.stop ++ rest) :
      Goes p n t rest j i u [] ts
  | gaveUp {xs ts : List Task} (hgives : GivesUp p rest ts) : Goes p n t rest j i u xs ts
  | turned {u' : Task} (hown : u'.activity ≠ .visit)
      (hloop : InLoop p n t j (if u.activity = .step then i + 1 else i) [] u') :
      Goes p n t rest j i u [] (u' :: rest)
  | begun {body : Handle} {u' : Task} (hbody : n.onTrue = some body)
      (hloop : InLoop p n t (j + 1) i [passTask t body (j + 1)] u') :
      Goes p n t rest j i u [] (passTask t body (j + 1) :: u' :: rest)
  | within {x : Task} {xs ys : List Task} (hloop : InLoop p n t j i ys u) :
      Goes p n t rest j i u (x :: xs) (ys ++ u :: rest)

/-- A task of the loop leaves it, goes on to another, or begins a pass. -/
theorem InLoop.goes_of_scheduled (hkind : n.kind = .whileLoop ∨ n.kind = .forLoop)
    (h : InLoop p n t j i [] u) (hvs : Scheduled p u n depth vs) :
    Goes p n t rest j i u [] (vs ++ rest) := by
  have hnode := h.node
  have hstop := h.stop
  have hcount := h.count_of_nil
  cases hvs with
  | ended => exact .left (Or.inl rfl)
  | plain _ hact =>
    rcases hact with hact | ⟨-, hwhile, hfor⟩
    · exact absurd hact h.own.not_leave
    · rcases hkind with hkind | hkind
      · exact absurd hkind hwhile
      · exact absurd hkind hfor
  | left => exact .left (Or.inr rfl)
  | @again body hact hwhile hbody hlimit =>
    cases h.own with
    | visit _ hiteration _ =>
      have hsucc : u.iteration + 1 = t.iteration + (j + 1) := by omega
      rw [hsucc, hstop, hnode]
      exact .begun hbody (.begun hbody rfl rfl (.visit rfl rfl (Or.inr ⟨hwhile, by simp [hbody]⟩))
        hcount)
    | check hcheck => simp [hcheck] at hact
    | step hstep => simp [hstep] at hact
  | opened hact hfor hlimit =>
    cases h.own with
    | visit _ hiteration hj =>
      have hzero : j = 0 := by simpa [hfor] using hj
      subst hzero
      refine .turned (by simp) ⟨hnode, hstop, ?_, by simp, Or.inl hcount⟩
      simp only [hact, reduceCtorEq, if_false]
      exact .check rfl hiteration (by simp) (by simp only; omega)
    | check hcheck => simp [hcheck] at hact
    | step hstep => simp [hstep] at hact
  | repeated hact hlimit =>
    cases h.own with
    | check _ hiteration hj _ =>
      cases hbody : n.onTrue with
      | none =>
        refine .turned (by simp) ⟨hnode, hstop, ?_, by simp, Or.inl hcount⟩
        simp only [hact, reduceCtorEq, if_false]
        exact .step rfl hiteration (by simpa [hbody] using hj) hlimit
      | some body =>
        have hij : j = i := by simpa [hbody] using hj
        have hsucc : u.iteration + 1 = t.iteration + (j + 1) := by omega
        have hown : Own p n t (j + 1) i { u with activity := .step } :=
          .step rfl hiteration (by simp [hbody, hij]) hlimit
        have hvisits : visits (some body) (u.iteration + 1) u.stop = [passTask t body (j + 1)] := by
          simp [visits, passTask, hsucc, hstop]
        rw [hvisits]
        exact .begun hbody (.begun hbody hnode hstop hown hcount)
    | visit hvisit => simp [hvisit] at hact
    | step hstep => simp [hstep] at hact
  | advanced hact =>
    cases h.own with
    | step _ hiteration hj hlimit =>
      refine .turned (by simp) ⟨hnode, hstop, ?_, by simp, Or.inl hcount⟩
      simp only [hact, if_true]
      exact .check rfl (by simp only; omega) hj (by simp only; omega)
    | visit hvisit => simp [hvisit] at hact
    | check hcheck => simp [hcheck] at hact
  | called _ _ _ hcall => simp [hcall] at hkind

theorem iteration_le_of_perform (hn : p.graph.node t.node = .ok n) (ht : t.activity = .visit)
    (h : perform p s t = .ok (s', none)) : t.iteration ≤ p.limits.maxIterations := by
  simp only [perform, ht, visit, hn, bind, Except.bind] at h
  split_ifs at h with hlimit
  · cases h
  all_goals omega

theorem InLoop.goes (hload : Loads records p s₀) (hs : Reaches p s₀ s)
    (hn : p.graph.node t.node = .ok n) (hkind : n.kind = .whileLoop ∨ n.kind = .forLoop)
    (h : InLoop p n t j i xs u) (htasks : s.tasks = xs ++ u :: rest) (hnext : Next p s s') :
    Goes p n t rest j i u xs s'.tasks := by
  cases stepped_of_next hload hs hnext with
  | @carriedOut y ts m ht hm hperform =>
    obtain ⟨vs, hvs, hafter, -⟩ := perform_carriedOut hm hperform
    have hafter : s'.tasks = vs ++ ts := hafter
    rw [hafter]
    cases xs with
    | nil =>
      cases ht.symm.trans htasks
      rw [h.node, hn] at hm
      cases hm
      exact h.goes_of_scheduled hkind hvs
    | cons x xs =>
      cases ht.symm.trans htasks
      have hcount : t.iteration + j ≤ p.limits.maxIterations := by
        rcases h.count with hcount | ⟨-, body, -, hx⟩
        · exact hcount
        · cases hx
          exact iteration_le_of_perform hm rfl hperform
      have happend : vs ++ (xs ++ u :: rest) = (vs ++ xs) ++ u :: rest :=
        (List.append_assoc ..).symm
      exact happend ▸ .within (h.within hcount)
  | @gaveUp y ts m s1 path x ht hm hx habandon =>
    have hgives := (abandon_eq_ok hm habandon).1
    rw [hx.untouched.1] at hgives
    cases xs with
    | nil =>
      cases ht.symm.trans htasks
      exact .gaveUp hgives
    | cons y xs =>
      cases ht.symm.trans htasks
      rcases h.count with hcount | ⟨-, body, -, hxs⟩
      · rcases GivesUp.inside h.own.not_leave hgives with ⟨ys, hys⟩ | hgives
        · rw [hys]
          exact .within (h.within hcount)
        · exact .gaveUp hgives
      · cases hxs
        exact .gaveUp (GivesUp.of_cons h.own.not_leave hgives)

/-! ## Runs keep to the loop -/

theorem GivesUp.ne_append (h : GivesUp p rest ts) (xs : List Task) (u : Task) :
    ts ≠ xs ++ u :: rest := by
  intro hts
  have hlength := h.length_le
  simp only [hts, List.length_append, List.length_cons] at hlength
  omega

theorem Goes.of_turned {u' : Task} (h : Goes p n t rest j i u [] (u' :: rest))
    (hown : u'.activity ≠ .visit) :
    InLoop p n t j (if u.activity = .step then i + 1 else i) [] u' := by
  generalize hts : u' :: rest = ts at h
  cases h with
  | left hleft =>
    rcases hleft with hleft | hleft
    · simp [← hts] at hleft
    · have hv : [u'] = visits n.onFalse u.iteration u.stop :=
        List.append_cancel_right (hts.trans hleft)
      exact absurd (activity_of_mem_visits (hv ▸ List.mem_singleton_self u')) hown
  | gaveUp hgives => exact absurd hts.symm (hgives.ne_append [] u')
  | turned _ hloop =>
    cases hts
    exact hloop
  | begun => simpa using congrArg List.length hts

theorem Goes.of_begun {u' b : Task} (h : Goes p n t rest j i u [] (b :: u' :: rest)) :
    ∃ body, n.onTrue = some body ∧ b = passTask t body (j + 1) ∧ InLoop p n t (j + 1) i [b] u' := by
  generalize hts : b :: u' :: rest = ts at h
  cases h with
  | left hleft =>
    have hone := length_visits n.onFalse u.iteration u.stop
    rcases hleft with hleft | hleft
    · have hlength := congrArg List.length (hts.trans hleft)
      simp only [List.length_cons] at hlength
      omega
    · have hlength := congrArg List.length (hts.trans hleft)
      simp only [List.length_append, List.length_cons] at hlength
      omega
  | gaveUp hgives => exact absurd hts.symm (hgives.ne_append [b] u')
  | turned => simpa using congrArg List.length hts
  | @begun body _ hbody hloop =>
    cases hts
    exact ⟨body, hbody, rfl, hloop⟩

theorem Goes.of_within {x : Task} {ys : List Task}
    (h : Goes p n t rest j i u (x :: xs) (ys ++ u :: rest)) :
    InLoop p n t j i ys u := by
  generalize hts : ys ++ u :: rest = ts at h
  cases h with
  | gaveUp hgives => exact absurd hts.symm (hgives.ne_append ys u)
  | within hloop =>
    cases List.append_cancel_right hts
    exact hloop

theorem InLoop.of_tasks (h : ∃ xs u, s.tasks = xs ++ u :: rest ∧ InLoop p n t j i xs u)
    (htasks : s.tasks = xs ++ u :: rest) :
    InLoop p n t j i xs u := by
  obtain ⟨ys, v, hys, hloop⟩ := h
  obtain ⟨rfl, hv⟩ := List.append_inj' (htasks.symm.trans hys) rfl
  cases hv
  exact hloop

theorem Runs.inLoop {entry : State} (hload : Loads records p s₀) (hs : Reaches p s₀ entry)
    (henters : Enters p entry t rest n) (h : Runs p rest entry j i s) :
    ∃ xs u, s.tasks = xs ++ u :: rest ∧ InLoop p n t j i xs u := by
  induction h with
  | entered =>
    have hown : Own p n t 0 0 t := .visit henters.visit rfl (Or.inl rfl)
    exact ⟨[], t, henters.tasks, ⟨rfl, rfl, hown, fun _ => rfl, Or.inl henters.count⟩⟩
  | @turned j i s s' u u' hrun hu hnext hu' hown ih =>
    have hloop : InLoop p n t j i [] u := .of_tasks ih hu
    have hgoes := hloop.goes hload (hs.trans hrun.reaches) henters.block henters.loop hu hnext
    rw [hu'] at hgoes
    exact ⟨[], u', hu', hgoes.of_turned hown⟩
  | @begun j i s s' u u' b hrun hu hnext hb ih =>
    have hloop : InLoop p n t j i [] u := .of_tasks ih hu
    have hgoes := hloop.goes hload (hs.trans hrun.reaches) henters.block henters.loop hu hnext
    rw [hb] at hgoes
    obtain ⟨body, -, -, hloop'⟩ := hgoes.of_begun
    exact ⟨[b], u', hb, hloop'⟩
  | @within j i s s' x u xs ys hrun hu hnext hys ih =>
    have hgoes :=
      (InLoop.of_tasks ih hu).goes hload (hs.trans hrun.reaches) henters.block henters.loop hu hnext
    rw [hys] at hgoes
    exact ⟨ys, u, hys, hgoes.of_within⟩

/-! ## The ceiling -/

theorem refuses_of_fault {s1 : State} (hload : Loads records p s₀) (hs : Reaches p s₀ s)
    (ht : s.tasks = t :: ts) (hn : p.graph.node t.node = .ok n)
    (hx : TaskFault p { s with tasks := ts } t n s1 []
      { cause := .run (.iterationsExceeded p.limits.maxIterations) })
    (hrest : ∀ ts', GivesUp p ts ts' → GivesUp p rest ts') : Refuses p rest s n.id := by
  obtain ⟨s', habandon, hnext⟩ := next_of_fault hload hs ht hn hx
  obtain ⟨htasks, -, houtput, hfailures⟩ := hx.untouched
  obtain ⟨hgives, hrecorded, hkept⟩ := abandon_eq_ok hn habandon
  rw [htasks] at hgives
  rw [hfailures] at hrecorded
  exact ⟨s', _, hnext, hrecorded, rfl, rfl, rfl, hkept.trans houtput, hrest _ hgives⟩

section

variable {entry s1 s2 : State} {body : Handle} {b u' : Task}

/-- A step from inside of a loop stays there, leaves it, or gives up its path. -/
theorem Runs.next (hload : Loads records p s₀) (hs : Reaches p s₀ entry)
    (henters : Enters p entry t rest n) (hrun : Runs p rest entry j i s1) (hnext : Next p s1 s2) :
    (∃ j' i', Runs p rest entry j' i' s2) ∨
    (∃ u, s1.tasks = u :: rest ∧
      (s2.tasks = rest ∨ s2.tasks = visits n.onFalse u.iteration u.stop ++ rest)) ∨
    GivesUp p rest s2.tasks := by
  obtain ⟨xs, u, htasks, hloop⟩ := hrun.inLoop hload hs henters
  have hgoes := hloop.goes hload (hs.trans hrun.reaches) henters.block henters.loop htasks hnext
  generalize hts : s2.tasks = ts at hgoes
  cases hgoes with
  | left hleft => exact Or.inr (Or.inl ⟨u, htasks, hleft⟩)
  | gaveUp hgives => exact Or.inr (Or.inr hgives)
  | turned hown _ => exact Or.inl ⟨_, _, .turned hrun htasks hnext hts hown⟩
  | begun => exact Or.inl ⟨_, _, .begun hrun htasks hnext hts⟩
  | within => exact Or.inl ⟨_, _, .within hrun htasks hnext hts⟩

theorem Runs.begins (hload : Loads records p s₀) (hs : Reaches p s₀ entry)
    (henters : Enters p entry t rest n) (hbody : n.onTrue = some body)
    (hrun : Runs p rest entry j i s1) (hu : s1.tasks = u :: rest) (hnext : Next p s1 s2)
    (hb : s2.tasks = b :: u' :: rest) : b = passTask t body (j + 1) := by
  have hloop : InLoop p n t j i [] u := .of_tasks (hrun.inLoop hload hs henters) hu
  have hgoes := hloop.goes hload (hs.trans hrun.reaches) henters.block henters.loop hu hnext
  rw [hb] at hgoes
  obtain ⟨body', hbody', hpass, -⟩ := hgoes.of_begun
  cases hbody.symm.trans hbody'
  exact hpass

theorem Runs.passes (hload : Loads records p s₀) (hs : Reaches p s₀ entry)
    (henters : Enters p entry t rest n) (hbody : n.onTrue = some body)
    (hrun : Runs p rest entry j i s1) :
    t.iteration + j ≤ p.limits.maxIterations ∨
    t.iteration + j = p.limits.maxIterations + 1 ∧ ∃ b, p.graph.node body = .ok b ∧
    Refuses p rest s1 b.id := by
  have hreached := hs.trans hrun.reaches
  obtain ⟨xs, u, htasks, hloop⟩ := hrun.inLoop hload hs henters
  rcases hloop.count with hcount | ⟨hbeyond, body', hbody', rfl⟩
  · exact Or.inl hcount
  · cases hbody.symm.trans hbody'
    obtain ⟨b, hb, -⟩ := hload.topmost hreached htasks
    have hlimit : p.limits.maxIterations < (passTask t body j).iteration := by
      simp only [passTask]
      omega
    exact Or.inr ⟨hbeyond, b, hb, refuses_of_fault hload hreached htasks hb (.ceiling rfl hlimit)
      fun _ hgives => GivesUp.of_cons hloop.own.not_leave hgives⟩

theorem Runs.steps (hload : Loads records p s₀) (hs : Reaches p s₀ entry)
    (henters : Enters p entry t rest n) (hnone : n.onTrue = none)
    (hrun : Runs p rest entry j i s1) :
    j = 0 ∧ t.iteration + i ≤ p.limits.maxIterations + 1 ∧
    (t.iteration + i = p.limits.maxIterations + 1 → Refuses p rest s1 n.id) := by
  have hreached := hs.trans hrun.reaches
  obtain ⟨xs, u, htasks, hloop⟩ := hrun.inLoop hload hs henters
  obtain rfl := hloop.body hnone
  have hcount := henters.count
  cases hloop.own with
  | visit _ _ hj =>
    have hzero : j = 0 := by simpa [hnone] using hj
    exact ⟨hzero, by omega, by omega⟩
  | check hact hiteration hj hlimit =>
    refine ⟨by simpa [hnone] using hj, by omega, fun hbeyond => ?_⟩
    have hn : p.graph.node u.node = .ok n := hloop.node ▸ henters.block
    exact refuses_of_fault hload hreached htasks hn (.checkCeiling hact (by omega)) fun _ hgives =>
      hgives
  | step _ hiteration hj hlimit => exact ⟨by simpa [hnone] using hj, by omega, by omega⟩

end

/-- Every count is at most one beyond the ceiling. A loop that is entered at a count `k` within the
ceiling runs until it is left or its path is given up; its pass `j` begins at `k + j`, and one that
begins beyond the ceiling is refused at the first block of the body. Without a body the steps are
bounded instead, and the loop itself is refused. -/
theorem loops_stop_at_the_ceiling (records : List Record) (p : Program) (s₀ s : State)
    (hload : Loads records p s₀) (hs : Reaches p s₀ s) :
    (∀ t ∈ s.tasks, t.iteration ≤ p.limits.maxIterations + 1) ∧
    ∀ t rest n, Enters p s t rest n →
      (∀ j i s1 s2, Runs p rest s j i s1 → Next p s1 s2 →
        (∃ j' i', Runs p rest s j' i' s2) ∨
        (∃ u, s1.tasks = u :: rest ∧
          (s2.tasks = rest ∨ s2.tasks = visits n.onFalse u.iteration u.stop ++ rest)) ∨
        GivesUp p rest s2.tasks) ∧
      (∀ body, n.onTrue = some body → ∀ j i s1, Runs p rest s j i s1 →
        (t.iteration + j ≤ p.limits.maxIterations ∨
          t.iteration + j = p.limits.maxIterations + 1 ∧
            ∃ b, p.graph.node body = .ok b ∧ Refuses p rest s1 b.id) ∧
        ∀ s2 u b u', s1.tasks = u :: rest → Next p s1 s2 → s2.tasks = b :: u' :: rest →
          b = passTask t body (j + 1)) ∧
      (n.onTrue = none → ∀ j i s1, Runs p rest s j i s1 →
        j = 0 ∧ t.iteration + i ≤ p.limits.maxIterations + 1 ∧
          (t.iteration + i = p.limits.maxIterations + 1 → Refuses p rest s1 n.id)) := by
  refine ⟨fun t ht => (reached_of_reaches hload hs t ht).1, fun t rest n henters => ⟨?_, ?_, ?_⟩⟩
  · intro j i s1 s2 hrun hnext
    exact hrun.next hload hs henters hnext
  · intro body hbody j i s1 hrun
    refine ⟨hrun.passes hload hs henters hbody, ?_⟩
    intro s2 u b u' hu hnext hb
    exact hrun.begins hload hs henters hbody hu hnext hb
  · intro hnone j i s1 hrun
    exact hrun.steps hload hs henters hnone

def endlessLoop : List Record :=
  [{ id := "start", type := "start", next := "loop" },
   { id := "loop", type := "while", onTrue := "body", data := { condition := "1 < 2" } },
   { id := "body", type := "output", data := { expression := "1" } }]

theorem loops_stop_at_the_ceiling_endlessLoop :
    ∃ p s₀ s t n s1, Loads endlessLoop p s₀ ∧ Reaches p s₀ s ∧ Enters p s t [] n ∧
      Runs p [] s 3 0 s1 ∧ t.iteration = 0 ∧ p.limits.maxIterations = 2 ∧
      Refuses p [] s1 "body" := by
  obtain ⟨p, s₀, s, t, n, body, b, s1, hload, hs, henters, hrun, hcount, hmax, hbody, hb, hid⟩ :
      ∃ p s₀ s t n body b s1, Loads endlessLoop p s₀ ∧ Reaches p s₀ s ∧ Enters p s t [] n ∧
        Runs p [] s 3 0 s1 ∧ t.iteration = 0 ∧ p.limits.maxIterations = 2 ∧
        n.onTrue = some body ∧ p.graph.node body = .ok b ∧ b.id = "body" := by
    exact ⟨_, _, _, _, _, _, _, _, .mk rfl rfl rfl ⟨2, 5⟩, .tail .refl (by rfl),
      ⟨rfl, rfl, rfl, Or.inl rfl, by decide⟩, .begun
        (.within
          (.begun
            (.within (.begun .entered (by rfl) (by rfl) (by rfl))
              (show _ = _ :: [] ++ _ :: [] by rfl) (by rfl) (show _ = [] ++ _ :: [] by rfl))
            (by rfl) (by rfl) (by rfl))
          (show _ = _ :: [] ++ _ :: [] by rfl) (by rfl) (show _ = [] ++ _ :: [] by rfl))
        (by rfl) (by rfl) (by rfl),
      rfl, rfl, rfl, rfl, rfl⟩
  obtain ⟨-, hloops⟩ := loops_stop_at_the_ceiling endlessLoop p s₀ s hload hs
  obtain ⟨-, hpasses, -⟩ := hloops t [] n henters
  rcases (hpasses body hbody 3 0 s1 hrun).1 with hwithin | ⟨-, b', hb', hrefuses⟩
  · omega
  · cases hb.symm.trans hb'
    exact ⟨p, s₀, s, t, n, s1, hload, hs, henters, hrun, hcount, hmax, hid ▸ hrefuses⟩

end Flowchart.Machine
