import Loadpace.Lib.Run
import Mathlib.Data.List.MinMax
import Mathlib.Data.List.Perm.Basic
import Mathlib.Order.Monotone.Basic

/-!
# A queue in front of several servers

A job that arrives waits for a server in the order of the arrivals, and occupies it from then on until `serve` of that
instant. `schedule` says when each job begins and finishes: it serves the arrivals in turn from the `line` of the servers,
in the order in which they come free.

* `Step`: a pool of servers as an array of the instants at which they come free, of which a job takes the first that is
  free first. A run of the pool is a schedule (`run_schedule`).
* `busy_le`: no more jobs are being served than there are servers.
* `busy_of_waiting`: a job waits only while every server is busy.
-/

namespace Systems.Servers

section

variable {α : Type*} [LinearOrder α]

structure Job (α : Type*) where
  arrival : α
  begins : α
  finish : α

/-- What is seen of a job from outside. -/
def Job.times (j : Job α) : α × α := (j.arrival, j.finish)

/-- The arrivals are served in turn; the list says when the servers come free, in this order. -/
def schedule (serve : α → α) : List α → List α → List (Job α)
  | _, [] => []
  | [], _ :: _ => []
  | free :: line, arrival :: rest =>
    let begins := max free arrival
    { arrival, begins, finish := serve begins } :: schedule serve (line ++ [serve begins]) rest

/-- The jobs that are being served. -/
def busy (jobs : List (Job α)) (t : α) : ℕ := jobs.countP fun j => j.begins ≤ t ∧ t < j.finish

/-- A job, by its arrival and its finish, goes to the first of the servers that come free first. -/
def Step (serve : α → α) (pool : List α) (job : α × α) (pool' : List α) : Prop :=
  ∃ free server, pool.zipIdx.argmin Prod.fst = some (free, server) ∧ job.2 = serve (max free job.1) ∧
    pool' = pool.set server job.2

variable {serve : α → α} {free arrival start now t : α} {line pool pool' arrivals : List α} {job : α × α}
variable {jobs : List (α × α)} {j : Job α} {c : ℕ}

theorem schedule_nil (line : List α) : schedule serve line [] = [] := by cases line <;> rfl

theorem schedule_arrivals (h : line ≠ []) : (schedule serve line arrivals).map Job.arrival = arrivals := by
  induction arrivals generalizing line with
  | nil => rw [schedule_nil, List.map_nil]
  | cons arrival rest ih =>
    cases line with
    | nil => exact absurd rfl h
    | cons free line =>
      rw [schedule, List.map_cons, ih]
      simp

/-! ## The line of the servers -/

/-- The servers come free in this order, and the last of them before a job that begins now or later is done. -/
structure Ready (serve : α → α) (line : List α) (now : α) : Prop where
  sorted : line.Pairwise (· ≤ ·)
  bounded : ∀ free ∈ line.head?, ∀ x ∈ line, x ≤ serve (max free now)

theorem ready_replicate (hserve : ∀ x, x ≤ serve x) (c : ℕ) (start now : α) :
    Ready serve (List.replicate c start) now := by
  refine ⟨List.pairwise_replicate.mpr (Or.inr le_rfl), fun free hfree x hx => ?_⟩
  obtain rfl := List.eq_of_mem_replicate hx
  obtain rfl := List.eq_of_mem_replicate (List.mem_of_mem_head? hfree)
  exact (le_max_left _ _).trans (hserve _)

/-- The next job goes to the head of the line. -/
theorem Ready.next (h : Ready serve (free :: line) now) (hmono : Monotone serve) (hserve : ∀ x, x ≤ serve x)
    (hnow : now ≤ arrival) : Ready serve (line ++ [serve (max free arrival)]) arrival := by
  obtain ⟨hsorted, hbounded⟩ := h
  obtain ⟨hfirst, hline⟩ := List.pairwise_cons.mp hsorted
  have hlast (x : α) (hx : x ∈ line) : x ≤ serve (max free arrival) :=
    (hbounded free rfl x (List.mem_cons_of_mem _ hx)).trans (hmono (max_le_max le_rfl hnow))
  have hfree (x : α) (hx : x ∈ line ++ [serve (max free arrival)]) : free ≤ x := by
    rcases List.mem_append.mp hx with hx | hx
    · exact hfirst x hx
    · rw [List.mem_singleton.mp hx]
      exact (le_max_left _ _).trans (hserve _)
  constructor
  · rw [List.pairwise_append]
    refine ⟨hline, List.pairwise_singleton _ _, fun x hx y hy => ?_⟩
    rw [List.mem_singleton.mp hy]
    exact hlast x hx
  · intro next hnext x hx
    have hle : serve (max free arrival) ≤ serve (max next arrival) :=
      hmono (max_le_max (hfree next (List.mem_of_mem_head? hnext)) le_rfl)
    rcases List.mem_append.mp hx with hx | hx
    · exact (hlast x hx).trans hle
    · rw [List.mem_singleton.mp hx]
      exact hle

/-! ## Pools -/

/-- What a job does to a pool, whichever server it takes. -/
theorem step_line (h : Step serve pool job pool') (hperm : pool.Perm (free :: line))
    (hsorted : (free :: line).Pairwise (· ≤ ·)) :
    job.2 = serve (max free job.1) ∧ pool'.Perm (line ++ [serve (max free job.1)]) := by
  obtain ⟨first, server, hmin, hfinish, rfl⟩ := h
  have hget : pool[server]? = some first := List.mem_zipIdx_iff_getElem?.mp (List.argmin_mem hmin)
  obtain ⟨hlt, hat⟩ := List.getElem?_eq_some_iff.mp hget
  obtain rfl : first = free := by
    apply le_antisymm
    · obtain ⟨k, hk⟩ := List.mem_iff_getElem?.mp (hperm.mem_iff.mpr List.mem_cons_self)
      exact List.le_of_mem_argmin (List.mem_zipIdx_iff_getElem?.mpr hk : (free, k) ∈ pool.zipIdx) hmin
    · rcases List.mem_cons.mp (hperm.mem_iff.mp (List.mem_of_getElem? hget)) with rfl | hmem
      · exact le_rfl
      · exact (List.pairwise_cons.mp hsorted).1 first hmem
  refine ⟨hfinish, ?_⟩
  have hrest : (pool.eraseIdx server).Perm line := by
    have hcons := List.getElem_cons_eraseIdx_perm hlt
    rw [hat] at hcons
    exact (hcons.trans hperm).cons_inv
  rw [← hfinish]
  exact (List.set_perm_cons_eraseIdx hlt job.2).trans ((hrest.cons _).trans (List.perm_append_singleton _ _).symm)

/-- **A pool serves its jobs in turn.** -/
theorem run_schedule (hmono : Monotone serve) (hserve : ∀ x, x ≤ serve x) (h : Run (Step serve) pool jobs pool')
    (hperm : pool.Perm line) (hready : Ready serve line now) (hnow : ∀ job ∈ jobs, now ≤ job.1)
    (hsorted : (jobs.map Prod.fst).Pairwise (· ≤ ·)) :
    jobs = (schedule serve line (jobs.map Prod.fst)).map Job.times := by
  induction jobs generalizing pool line now with
  | nil => rw [List.map_nil, schedule_nil, List.map_nil]
  | cons job rest ih =>
    obtain ⟨m, hstep, hrest⟩ := h.cons_inv
    obtain ⟨hfirst, hrestSorted⟩ := List.pairwise_cons.mp hsorted
    have hnext : ∀ x ∈ rest, job.1 ≤ x.1 := fun x hx => hfirst x.1 (List.mem_map_of_mem hx)
    cases line with
    | nil =>
      obtain ⟨_, _, hmin, -, -⟩ := hstep
      rw [hperm.eq_nil, List.zipIdx_nil, List.argmin_nil] at hmin
      cases hmin
    | cons free line =>
      obtain ⟨hfinish, hperm'⟩ := step_line hstep hperm hready.sorted
      have hready' := hready.next hmono hserve (hnow job List.mem_cons_self)
      rw [List.map_cons, schedule, List.map_cons, ← ih hrest hperm' hready' hnext hrestSorted]
      exact congrArg (· :: rest) (Prod.ext rfl hfinish)

/-! ## Schedules -/

/-- The servers come free in turn. -/
theorem schedule_sorted (hmono : Monotone serve) (hserve : ∀ x, x ≤ serve x) (hready : Ready serve line now)
    (hnow : ∀ a ∈ arrivals, now ≤ a) (hsorted : arrivals.Pairwise (· ≤ ·)) :
    (line ++ (schedule serve line arrivals).map Job.finish).Pairwise (· ≤ ·) := by
  induction arrivals generalizing line now with
  | nil =>
    rw [schedule_nil, List.map_nil, List.append_nil]
    exact hready.sorted
  | cons arrival rest ih =>
    cases line with
    | nil => exact List.Pairwise.nil
    | cons free line =>
      obtain ⟨hfirst, hrest⟩ := List.pairwise_cons.mp hsorted
      have hready' := hready.next hmono hserve (hnow arrival List.mem_cons_self)
      have htail := ih hready' hfirst hrest
      rw [List.append_assoc, List.singleton_append] at htail
      rw [schedule, List.map_cons, List.cons_append]
      refine List.pairwise_cons.mpr ⟨fun x hx => ?_, htail⟩
      rcases List.mem_append.mp hx with hx | hx
      · exact (List.pairwise_cons.mp hready.sorted).1 x hx
      · have hfree : free ≤ serve (max free arrival) := (le_max_left _ _).trans (hserve _)
        rcases List.mem_cons.mp hx with rfl | hx
        · exact hfree
        · exact hfree.trans ((List.pairwise_cons.mp (List.pairwise_append.mp htail).2.1).1 x hx)

theorem schedule_begins_le (hserve : ∀ x, x ≤ serve x) (hj : j ∈ schedule serve line arrivals) : j.begins ≤ j.finish := by
  induction arrivals generalizing line with
  | nil =>
    rw [schedule_nil] at hj
    cases hj
  | cons arrival rest ih =>
    cases line with
    | nil => cases hj
    | cons free line =>
      rw [schedule] at hj
      rcases List.mem_cons.mp hj with rfl | hj
      · exact hserve _
      · exact ih hj

/-- A job begins when a server has come free. -/
theorem begun_le (serve : α → α) (line arrivals : List α) (t : α) : (schedule serve line arrivals).countP (fun j => j.begins ≤ t) ≤
    (line ++ (schedule serve line arrivals).map Job.finish).countP (· ≤ t) := by
  induction arrivals generalizing line with
  | nil => simp [schedule_nil]
  | cons arrival rest ih =>
    cases line with
    | nil => simp [schedule]
    | cons free line =>
      have htail := ih (line ++ [serve (max free arrival)])
      rw [List.append_assoc, List.singleton_append] at htail
      rw [schedule, List.map_cons, List.cons_append, List.countP_cons, List.countP_cons]
      refine Nat.add_le_add htail ?_
      by_cases hb : max free arrival ≤ t
      · rw [if_pos (decide_eq_true hb), if_pos (decide_eq_true ((le_max_left free arrival).trans hb))]
      · rw [if_neg (by rw [decide_eq_true_iff]; exact hb)]
        exact Nat.zero_le _

/-- While a job waits, every server that has come free was taken. -/
theorem begun_of_waiting (hmono : Monotone serve) (hserve : ∀ x, x ≤ serve x) (hready : Ready serve line now)
    (hnow : ∀ a ∈ arrivals, now ≤ a) (hsorted : arrivals.Pairwise (· ≤ ·)) (hj : j ∈ schedule serve line arrivals)
    (harrived : j.arrival ≤ t) (hwaits : t < j.begins) : (schedule serve line arrivals).countP (fun j => j.begins ≤ t) =
      (line ++ (schedule serve line arrivals).map Job.finish).countP (· ≤ t) := by
  induction arrivals generalizing line now with
  | nil =>
    rw [schedule_nil] at hj
    cases hj
  | cons arrival rest ih =>
    cases line with
    | nil => cases hj
    | cons free line =>
      obtain ⟨hfirst, hrest⟩ := List.pairwise_cons.mp hsorted
      have hready' := hready.next hmono hserve (hnow arrival List.mem_cons_self)
      by_cases hfree : free ≤ t
      · -- the job that waits is a later one
        have hlater : j ∈ schedule serve (line ++ [serve (max free arrival)]) rest := by
          rw [schedule] at hj
          rcases List.mem_cons.mp hj with rfl | hj
          · exact absurd (max_le hfree harrived) (not_le.mpr hwaits)
          · exact hj
        have harrival : arrival ≤ t := by
          have hmem := List.mem_map_of_mem (f := Job.arrival) hlater
          rw [schedule_arrivals (by simp)] at hmem
          exact (hfirst _ hmem).trans harrived
        have htail := ih hready' hfirst hrest hlater
        rw [List.append_assoc, List.singleton_append] at htail
        rw [schedule, List.map_cons, List.cons_append, List.countP_cons, List.countP_cons, htail]
        simp [hfree, harrival]
      · -- no server comes free by then
        have hall := schedule_sorted hmono hserve hready hnow hsorted
        have hzero : (free :: line ++ (schedule serve (free :: line) (arrival :: rest)).map Job.finish).countP (· ≤ t) = 0 := by
          rw [List.countP_eq_zero]
          intro x hx hle
          rcases List.mem_cons.mp hx with rfl | hx
          · exact hfree (of_decide_eq_true hle)
          · exact hfree (((List.pairwise_cons.mp hall).1 x hx).trans (of_decide_eq_true hle))
        rw [hzero]
        exact Nat.le_zero.mp (hzero ▸ begun_le serve (free :: line) (arrival :: rest) t)

/-- The jobs that are being served have begun and are not finished. -/
theorem busy_add (hserve : ∀ x, x ≤ serve x) (line arrivals : List α) (t : α) :
    busy (schedule serve line arrivals) t + (schedule serve line arrivals).countP (fun j => j.finish ≤ t) =
      (schedule serve line arrivals).countP fun j => j.begins ≤ t := by
  have hle : ∀ j ∈ schedule serve line arrivals, j.begins ≤ j.finish := fun j => schedule_begins_le hserve
  unfold busy
  generalize schedule serve line arrivals = jobs at hle
  induction jobs with
  | nil => rfl
  | cons j rest ih =>
    have hrest := ih fun x hx => hle x (List.mem_cons_of_mem _ hx)
    have hj := hle j List.mem_cons_self
    simp only [List.countP_cons, Bool.decide_and] at hrest ⊢
    by_cases hf : j.finish ≤ t
    · simp only [hj.trans hf, hf, not_lt.mpr hf, decide_true, decide_false, Bool.and_false, if_true, Bool.false_eq_true,
        if_false]
      omega
    · by_cases hb : j.begins ≤ t
      · simp only [hb, hf, not_le.mp hf, decide_true, decide_false, Bool.and_true, if_true, Bool.false_eq_true, if_false]
        omega
      · simp only [hb, hf, decide_false, Bool.false_and, Bool.false_eq_true, if_false]
        exact hrest

/-- **No more jobs are being served than there are servers.** -/
theorem busy_le (hserve : ∀ x, x ≤ serve x) (line arrivals : List α) (t : α) :
    busy (schedule serve line arrivals) t ≤ line.length := by
  have hbusy := busy_add hserve line arrivals t
  have hbegun := begun_le serve line arrivals t
  have hline := List.countP_le_length (p := fun x => decide (x ≤ t)) (l := line)
  rw [List.countP_append, List.countP_map] at hbegun
  simp only [Function.comp_def] at hbegun
  omega

/-- **A job waits only while every server is busy.** -/
theorem busy_of_waiting (hmono : Monotone serve) (hserve : ∀ x, x ≤ serve x) (hnow : ∀ a ∈ arrivals, start ≤ a)
    (hsorted : arrivals.Pairwise (· ≤ ·)) (hj : j ∈ schedule serve (List.replicate c start) arrivals)
    (harrived : j.arrival ≤ t) (hwaits : t < j.begins) :
    busy (schedule serve (List.replicate c start) arrivals) t = c := by
  have hready := ready_replicate hserve c start start
  have hbusy := busy_add hserve (List.replicate c start) arrivals t
  have hbegun := begun_of_waiting hmono hserve hready hnow hsorted hj harrived hwaits
  have hstart : start ≤ t := by
    have hc : List.replicate c start ≠ [] := by
      intro hnil
      rw [hnil] at hj
      cases arrivals <;> cases hj
    have hmem := List.mem_map_of_mem (f := Job.arrival) hj
    rw [schedule_arrivals hc] at hmem
    exact (hnow _ hmem).trans harrived
  have hline : (List.replicate c start).countP (fun x => decide (x ≤ t)) = c := by
    rw [List.countP_replicate, if_pos (decide_eq_true hstart)]
  rw [List.countP_append, List.countP_map, hline] at hbegun
  simp only [Function.comp_def] at hbegun
  omega

end

end Systems.Servers
