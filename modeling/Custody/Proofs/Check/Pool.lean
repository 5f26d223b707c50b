import Custody.Check.Pool
import Custody.Proofs.Except
import Mathlib.Algebra.GroupWithZero.Nat
import Mathlib.Data.List.Nodup
import Mathlib.Data.List.Perm.Subperm

/-!
# A pool of workers answers as one worker does

Whatever the schedule, each place below the counter is with exactly one worker: it is
busy with the item of that place, or has its result. One turn keeps that
(`Accounted.turn`), and so does a run (`Accounted.run`). When all workers have stopped,
the results are those of all items, each once, and sorting puts them in order.

That a pool stops at all is counted with `Pool.ahead`, which every turn of a worker that
has not ended makes smaller.

## Why places are counted

That each place is with exactly one worker is two statements, that none is lost and that
none is handled twice. `Accounted.once` is both in one equation, about the number of
times a place occurs in the list of all places. A turn changes one worker, so it changes
this number by what it changes it for that worker (`count_places_advance`), and workers
need not be compared with each other.

## What is not assumed of a schedule

A schedule is any list of turns, for workers that exist and that do not, ended or not.
It need not be fair. Fairness would be needed to say that a schedule which goes on for
ever lets the pool stop; here it is said that turns which are not wasted are bounded in
number (`length_le_ahead`), and that from everywhere some turns lead to the end
(`exists_finished`).

Breakdowns are excluded where the answer is concerned (`t.panics = false`), and allowed
where it is only a matter of coming to an end.
-/

set_option autoImplicit false

namespace Custody

namespace Pool

variable {α ρ ε β : Type} {items : List α} {work : α → ρ} {pool : Pool α ρ}

/-! ## One turn -/

theorem split_of_getElem? {workers : List (Worker α ρ)} {i : Nat} {worker : Worker α ρ}
    (h : workers[i]? = some worker) :
    ∃ before after, workers = before ++ worker :: after ∧
      ∀ other, workers.set i other = before ++ other :: after := by
  obtain ⟨hlt, rfl⟩ := List.getElem?_eq_some_iff.1 h
  refine ⟨workers.take i, workers.drop (i + 1), ?_, fun other => ?_⟩
  · rw [List.getElem_cons_drop, List.take_append_drop]
  · rw [List.set_eq_take_append_cons_drop, if_pos hlt]

theorem turn_cases (items : List α) (work : α → ρ) (pool : Pool α ρ) (t : Turn) :
    (pool.workers[t.worker]? = none ∧ pool.turn items work t = pool) ∨
      ∃ before worker after, pool.workers[t.worker]? = some worker ∧
        pool.workers = before ++ worker :: after ∧
        pool.turn items work t = ⟨(advance items work t.panics pool.next worker).1,
          before ++ (advance items work t.panics pool.next worker).2 :: after⟩ := by
  cases hworker : pool.workers[t.worker]? with
  | none => exact .inl ⟨rfl, by simp [turn, hworker]⟩
  | some worker =>
    obtain ⟨before, after, hsplit, hset⟩ := split_of_getElem? hworker
    exact .inr ⟨before, worker, after, rfl, hsplit, by simp [turn, hworker, hset]⟩

theorem length_workers_run (items : List α) (work : α → ρ) (pool : Pool α ρ)
    (schedule : List Turn) :
    (pool.run items work schedule).workers.length = pool.workers.length := by
  induction schedule generalizing pool with
  | nil => rfl
  | cons t schedule ih =>
    refine (ih _).trans ?_
    rcases turn_cases items work pool t with ⟨-, hsame⟩ |
      ⟨before, worker, after, -, hsplit, hturn⟩
    · rw [hsame]
    · simp [hturn, hsplit]

/-! ## Every place is with one worker -/

/-- The places that are with a worker: those it has done and the one it is at. A worker
that broke down has none, and with it its places are lost. -/
def places (worker : Worker α ρ) : List Nat :=
  worker.done.map (·.1) ++
    match worker.phase with
    | .busy place _ => [place]
    | _ => []

/-- What a worker has is right, as far as the counter has come. A worker that has
stopped did so because there was nothing left. -/
structure Honest (items : List α) (work : α → ρ) (next : Nat) (worker : Worker α ρ) :
    Prop where
  done : ∀ place result, (place, result) ∈ worker.done →
    items[place]?.map work = some result
  busy : ∀ place item, worker.phase = .busy place item → items[place]? = some item
  stopped : worker.phase = .stopped → items.length ≤ next
  unbroken : worker.phase ≠ .panicked

/-- No place below the counter is lost, and none is with two workers. Places from the
counter on are with nobody. The counter may be past the end, since workers find out by
asking. -/
structure Accounted (items : List α) (work : α → ρ) (pool : Pool α ρ) : Prop where
  once : ∀ place, (pool.workers.flatMap places).count place
    = if place < min pool.next items.length then 1 else 0
  honest : ∀ worker ∈ pool.workers, Honest items work pool.next worker

theorem accounted_start (items : List α) (work : α → ρ) (size : Nat) :
    Accounted items work (start size) where
  once := by
    intro place
    have hplaces : (List.replicate size ({} : Worker α ρ)).flatMap places = [] := by
      simp [List.flatMap_eq_nil_iff, places]
    simp [start, hplaces]
  honest := by
    intro worker hmem
    obtain ⟨-, rfl⟩ := List.mem_replicate.1 hmem
    constructor <;> simp

theorem Honest.mono {next next' : Nat} {worker : Worker α ρ}
    (h : Honest items work next worker) (hle : next ≤ next') :
    Honest items work next' worker :=
  ⟨h.done, h.busy, fun hstopped => Nat.le_trans (h.stopped hstopped) hle, h.unbroken⟩

theorem le_advance (items : List α) (work : α → ρ) (panics : Bool) (next : Nat)
    (worker : Worker α ρ) :
    next ≤ (advance items work panics next worker).1 := by
  unfold advance
  split
  · split <;> simp
  · split <;> simp
  all_goals simp

theorem Honest.advance {next : Nat} {worker : Worker α ρ}
    (h : Honest items work next worker) :
    Honest items work (Pool.advance items work false next worker).1
      (Pool.advance items work false next worker).2 := by
  unfold Pool.advance
  split
  case h_1 hphase =>
    split
    case h_1 item hitem =>
      exact ⟨h.done, by rintro place item ⟨⟩; exact hitem, by simp, by simp⟩
    case h_2 hnone => exact ⟨h.done, by simp, fun _ => by simp at hnone ⊢; omega, by simp⟩
  case h_2 place item hphase =>
    refine ⟨fun place' result hmem => ?_, by simp, by simp, by simp⟩
    rcases List.mem_append.1 hmem with hold | hnew
    · exact h.done place' result hold
    · obtain ⟨rfl, rfl⟩ := Prod.mk.inj (List.mem_singleton.1 hnew)
      simp [h.busy _ _ hphase]
  all_goals exact h

/-- A turn adds the place that the counter gives to those of the worker, if there is
one, and no other. -/
theorem count_places_advance (items : List α) (work : α → ρ) (next : Nat)
    (worker : Worker α ρ) (place : Nat) :
    (places (advance items work false next worker).2).count place +
        (if place < min next items.length then 1 else 0) =
      (places worker).count place +
        (if place < min (advance items work false next worker).1 items.length
          then 1 else 0) := by
  unfold advance
  split
  case h_1 hphase =>
    split
    case h_1 item hitem =>
      have hlt : next < items.length := (List.getElem?_eq_some_iff.1 hitem).1
      simp only [places, hphase, List.count_append, List.count_singleton,
        List.count_nil, beq_iff_eq]
      grind
    case h_2 hnone =>
      have hle : items.length ≤ next := List.getElem?_eq_none_iff.1 hnone
      simp only [places, hphase, Nat.min_eq_right hle,
        Nat.min_eq_right (Nat.le_succ_of_le hle)]
  case h_2 place' item hphase => simp [places, hphase]
  all_goals rfl

theorem Accounted.turn {t : Turn} (h : Accounted items work pool) (ht : t.panics = false) :
    Accounted items work (pool.turn items work t) := by
  rcases turn_cases items work pool t with ⟨-, hsame⟩ |
    ⟨before, worker, after, -, hsplit, hturn⟩
  · rw [hsame]
    exact h
  rw [hturn, ht]
  have honest := h.honest
  rw [hsplit] at honest
  constructor
  · intro place
    have honce := h.once place
    have hadvance := count_places_advance items work pool.next worker place
    simp only [hsplit, List.flatMap_append, List.flatMap_cons, List.count_append] at honce ⊢
    omega
  · intro other hmem
    have hle := le_advance items work false pool.next worker
    rcases List.mem_append.1 hmem with hbefore | hrest
    · exact (honest other (by simp [hbefore])).mono hle
    rcases List.mem_cons.1 hrest with rfl | hafter
    · exact (honest worker (by simp)).advance
    · exact (honest other (by simp [hafter])).mono hle

theorem Accounted.run {schedule : List Turn} (h : Accounted items work pool)
    (hcalm : ∀ t ∈ schedule, t.panics = false) :
    Accounted items work (pool.run items work schedule) := by
  induction schedule generalizing pool with
  | nil => exact h
  | cons t schedule ih =>
    exact ih (h.turn (hcalm t (by simp))) fun other hmem => hcalm other (by simp [hmem])

/-! ## The results of a pool that has stopped -/

def outcomes (items : List α) (work : α → Except ε β) :
    List (Nat × Except (PoolError ε) β) :=
  items.mapIdx fun place item => (place, (work item).mapError .failed)

theorem map_fst_outcomes (items : List α) (work : α → Except ε β) :
    (outcomes items work).map (·.1) = List.range items.length := by
  apply List.ext_getElem? fun place => ?_
  by_cases hlt : place < items.length <;> simp [outcomes, hlt]

theorem map_snd_outcomes (items : List α) (work : α → Except ε β) :
    (outcomes items work).map (·.2)
      = items.map fun item => (work item).mapError .failed := by
  apply List.ext_getElem? fun place => ?_
  by_cases hlt : place < items.length <;> simp [outcomes, hlt]

/-- Results with the places of a list in order, and all in the list, are sorted into
it. -/
theorem sort_eq {γ : Type} {results ordered : List (Nat × γ)}
    (hsorted : (ordered.map (·.1)).Pairwise (· < ·))
    (hplaces : (results.map (·.1)).Perm (ordered.map (·.1)))
    (hmem : ∀ result ∈ results, result ∈ ordered) :
    (results.mergeSort fun a b => a.1 ≤ b.1) = ordered := by
  have hnodup : results.Nodup := by
    refine List.Nodup.of_map (·.1) (hplaces.nodup_iff.2 ?_)
    exact hsorted.imp Nat.ne_of_lt
  have hperm : results.Perm ordered := by
    refine (hnodup.subperm hmem).perm_of_length_le ?_
    simpa using Nat.le_of_eq hplaces.length_eq.symm
  have hlt : ordered.Pairwise fun a b => a.1 < b.1 := List.pairwise_map.1 hsorted
  have hmerged : (results.mergeSort fun a b => a.1 ≤ b.1).Pairwise fun a b =>
    decide (a.1 ≤ b.1) = true :=
    List.pairwise_mergeSort (fun a b c => by simpa using Nat.le_trans)
      (fun a b => by simpa using Nat.le_total _ _) results
  refine List.Perm.eq_of_pairwise ?_ hmerged
    (hlt.imp fun h => by simpa using Nat.le_of_lt h)
    ((List.mergeSort_perm results _).trans hperm)
  intro a b ha hb hab hba
  have ha' : a ∈ ordered := hmem a (List.mem_mergeSort.1 ha)
  exact List.inj_on_of_nodup_map (hsorted.imp Nat.ne_of_lt) ha' hb
    (Nat.le_antisymm (by simpa using hab) (by simpa using hba))

variable {work : α → Except ε β} {pool : Pool α (Except ε β)}

theorem Accounted.stopped (h : Accounted items work pool)
    (hfinished : pool.isFinished = true) :
    ∀ worker ∈ pool.workers, worker.phase = .stopped := by
  intro worker hmem
  have hended := List.all_eq_true.1 hfinished worker hmem
  have hunbroken := (h.honest worker hmem).unbroken
  cases hphase : worker.phase <;> simp_all [hasEnded]

theorem Accounted.places_left (h : Accounted items work pool)
    (hfinished : pool.isFinished = true) :
    (pool.workers.flatMap left).map (·.1) = pool.workers.flatMap places := by
  rw [List.map_flatMap]
  refine List.flatMap_congr fun worker hmem => ?_
  simp [left, places, h.stopped hfinished worker hmem, Function.comp_def]

theorem Accounted.mem_outcomes (h : Accounted items work pool)
    (hfinished : pool.isFinished = true) :
    ∀ result ∈ pool.workers.flatMap left, result ∈ outcomes items work := by
  intro result hmem
  obtain ⟨worker, hworker, hleft⟩ := List.mem_flatMap.1 hmem
  simp only [left, h.stopped hfinished worker hworker, List.mem_map] at hleft
  obtain ⟨⟨place, done⟩, hdone, rfl⟩ := hleft
  obtain ⟨item, hitem, rfl⟩ :=
    Option.map_eq_some_iff.1 ((h.honest worker hworker).done place done hdone)
  obtain ⟨hlt, rfl⟩ := List.getElem?_eq_some_iff.1 hitem
  exact List.mem_mapIdx.2 ⟨place, hlt, rfl⟩

/-- A pool that has stopped answers as one worker does that takes the items in order.
With several failures that is the one at the first place, whoever came to it first. -/
theorem Accounted.collect (h : Accounted items work pool)
    (hfinished : pool.isFinished = true) (hworkers : pool.workers ≠ []) :
    pool.collect = (items.mapM work).mapError .failed := by
  obtain ⟨worker, hworker⟩ := List.exists_mem_of_ne_nil _ hworkers
  have hnext : items.length ≤ pool.next :=
    (h.honest worker hworker).stopped (h.stopped hfinished worker hworker)
  have hplaces :
      ((pool.workers.flatMap left).map (·.1)).Perm
        ((outcomes items work).map (·.1)) := by
    rw [h.places_left hfinished, map_fst_outcomes, List.perm_iff_count]
    intro place
    rw [h.once, Nat.min_eq_right hnext, List.nodup_range.count]
    simp
  have hsorted : ((outcomes items work).map (·.1)).Pairwise (· < ·) := by
    rw [map_fst_outcomes]
    exact List.pairwise_lt_range
  rw [Pool.collect, sort_eq hsorted hplaces (h.mem_outcomes hfinished),
    map_snd_outcomes, ← mapM_mapError, List.mapM_map]
  rfl

/-! ## A pool stops -/

section Ahead

variable {ρ : Type} {work : α → ρ} {pool : Pool α ρ}

/-- How many turns a worker has ahead, apart from those for places that are still to be
taken. -/
def pending (worker : Worker α ρ) : Nat :=
  match worker.phase with
  | .idle => 1
  | .busy .. => 2
  | .stopped | .panicked => 0

/-- How many turns the workers have ahead: two for each place to be taken, and those
they are at. -/
def ahead (items : List α) (pool : Pool α ρ) : Nat :=
  2 * (items.length - pool.next) + (pool.workers.map pending).sum

theorem ahead_start (items : List α) (size : Nat) :
    ahead items (start size : Pool α ρ) = 2 * items.length + size := by
  simp [ahead, start, pending]

/-- A turn that a worker takes who has not ended. Other turns change nothing. -/
def Taken (pool : Pool α ρ) (t : Turn) : Prop :=
  ∃ worker, pool.workers[t.worker]? = some worker ∧ hasEnded worker = false

theorem pending_advance_lt (items : List α) (work : α → ρ) (panics : Bool) (next : Nat)
    {worker : Worker α ρ} (h : hasEnded worker = false) :
    2 * (items.length - (advance items work panics next worker).1) +
        pending (advance items work panics next worker).2 <
      2 * (items.length - next) + pending worker := by
  unfold advance
  split
  case h_1 hphase =>
    split
    case h_1 item hitem =>
      have hlt : next < items.length := (List.getElem?_eq_some_iff.1 hitem).1
      simp only [pending, hphase]
      omega
    case h_2 =>
      simp only [pending, hphase]
      omega
  case h_2 place item hphase =>
    split <;> simp [pending, hphase]
  all_goals simp_all [hasEnded]

theorem ahead_turn_lt (items : List α) (work : α → ρ) {t : Turn} (h : pool.Taken t) :
    ahead items (pool.turn items work t) < ahead items pool := by
  obtain ⟨worker, hworker, hended⟩ := h
  rcases turn_cases items work pool t with ⟨hnone, -⟩ |
    ⟨before, other, after, hother, hsplit, hturn⟩
  · simp [hnone] at hworker
  obtain rfl : other = worker := Option.some.inj (hother.symm.trans hworker)
  have hlt := pending_advance_lt items work t.panics pool.next hended
  simp only [ahead, hturn, hsplit, List.map_append, List.map_cons, List.sum_append,
    List.sum_cons]
  omega

def Brisk (items : List α) (work : α → ρ) : Pool α ρ → List Turn → Prop
  | _, [] => True
  | pool, t :: schedule => pool.Taken t ∧ Brisk items work (pool.turn items work t) schedule

theorem length_le_ahead {schedule : List Turn} (h : Brisk items work pool schedule) :
    schedule.length ≤ ahead items pool := by
  induction schedule generalizing pool with
  | nil => simp
  | cons t schedule ih =>
    have hrest := ih h.2
    have hlt := ahead_turn_lt items work h.1
    simp only [List.length_cons]
    omega

theorem exists_taken (h : pool.isFinished = false) : ∃ i, pool.Taken ⟨i, false⟩ := by
  obtain ⟨worker, hmem, hended⟩ := List.all_eq_false.1 h
  obtain ⟨i, hi⟩ := List.mem_iff_getElem?.1 hmem
  exact ⟨i, worker, hi, by simpa using hended⟩

/-- From everywhere, a pool can be brought to its end, with turns that are not wasted
and without a breakdown. -/
theorem exists_finished (items : List α) (work : α → ρ) (pool : Pool α ρ) :
    ∃ schedule, (∀ t ∈ schedule, t.panics = false) ∧ Brisk items work pool schedule ∧
      (pool.run items work schedule).isFinished = true := by
  -- by induction on the turns ahead
  induction hahead : ahead items pool using Nat.strongRecOn generalizing pool with
  | ind n ih =>
    cases hfinished : pool.isFinished with
    | true => exact ⟨[], by simp, trivial, hfinished⟩
    | false =>
      obtain ⟨i, htaken⟩ := exists_taken hfinished
      obtain ⟨schedule, hcalm, hbrisk, hend⟩ :=
        ih _ (hahead ▸ ahead_turn_lt items work htaken) _ rfl
      exact ⟨⟨i, false⟩ :: schedule, by simpa using hcalm, ⟨htaken, hbrisk⟩, hend⟩

end Ahead

end Pool

theorem Settings.workerCount_pos (settings : Settings) (available units : Nat) :
    0 < settings.workerCount available units := by
  unfold workerCount
  omega

/-! ## The units of a program -/

namespace Table

theorem runUnits_eq (table : Table) (severity : Severity) {units : List SourceUnit}
    {size : Nat} {schedule : List Turn} (hsize : 0 < size)
    (hcalm : ∀ t ∈ schedule, t.panics = false)
    (hfinished : ((Pool.start size).run units (table.analyzeUnit severity)
      schedule).isFinished = true) :
    table.runUnits severity size schedule units =
      (units.mapM (table.analyzeUnit severity)).mapError .failed := by
  unfold runUnits
  split
  · rfl
  · refine ((Pool.accounted_start units _ size).run hcalm).collect hfinished ?_
    rw [← List.length_pos_iff, Pool.length_workers_run]
    simpa [Pool.start] using hsize

/-- However many workers analyze the units and whatever their schedule, if none breaks
down the answer is that of one worker who takes the units in order: the outcomes of all
units in their order, or else the error of the first unit that has one. A schedule that
wastes no turns is bounded, every schedule can be brought to an end, and the workers
that settings ask for are a case of this. -/
theorem runUnits_any_schedule (table : Table) (severity : Severity)
    (units : List SourceUnit) (size : Nat) (hsize : 0 < size) :
    let analyze := table.analyzeUnit severity
    (∀ schedule, (∀ t ∈ schedule, t.panics = false) →
      ((Pool.start size).run units analyze schedule).isFinished = true →
        table.runUnits severity size schedule units =
          (units.mapM analyze).mapError .failed ∧
        (∀ outcomes, table.runUnits severity size schedule units = .ok outcomes ↔
          units.map analyze = outcomes.map .ok) ∧
        ∀ error, table.runUnits severity size schedule units = .error error ↔
          ∃ before unit after failure, units = before ++ unit :: after ∧
            analyze unit = .error failure ∧ error = .failed failure ∧
            ∀ earlier ∈ before, ∃ outcome, analyze earlier = .ok outcome) ∧
      (∀ schedule, Pool.Brisk units analyze (Pool.start size) schedule →
        schedule.length ≤ 2 * units.length + size) ∧
      (∀ schedule, ∃ more, (∀ t ∈ more, t.panics = false) ∧
        ((Pool.start size).run units analyze (schedule ++ more)).isFinished = true) ∧
      ∀ (settings : Settings) (available : Nat) (schedule : List Turn),
        let analyze := table.analyzeUnit (.ofPolicy settings.treatAsFatal)
        (∀ t ∈ schedule, t.panics = false) →
        ((Pool.start (settings.workerCount available units.length)).run units analyze
          schedule).isFinished = true →
          settings.runUnits available schedule table units =
            (units.mapM analyze).mapError .failed := by
  intro analyze
  refine ⟨fun schedule hcalm hfinished => ?_, fun schedule hbrisk => ?_, fun schedule => ?_,
    fun settings available schedule hcalm hfinished => ?_⟩
  · -- Several workers come to what one comes to; the rest is about one that goes
    -- through a list.
    rw [runUnits_eq table severity hsize hcalm hfinished]
    refine ⟨rfl, fun outcomes => ?_, fun error => ?_⟩
    · rw [mapError_eq_ok_iff, mapM_eq_ok_iff]
    · simp only [mapError_eq_error_iff, mapM_eq_error_iff]
      constructor
      · rintro ⟨failure, ⟨before, unit, after, hsplit, hfails, hbefore⟩, rfl⟩
        exact ⟨before, unit, after, failure, hsplit, hfails, rfl, hbefore⟩
      · rintro ⟨before, unit, after, failure, hsplit, hfails, rfl, hbefore⟩
        exact ⟨failure, ⟨before, unit, after, hsplit, hfails, hbefore⟩, rfl⟩
  · rw [← Pool.ahead_start units size]
    exact Pool.length_le_ahead hbrisk
  · -- Whatever has happened by then, there is a way to the end.
    obtain ⟨more, hcalm, -, hfinished⟩ :=
      Pool.exists_finished units analyze ((Pool.start size).run units analyze schedule)
    refine ⟨more, hcalm, ?_⟩
    rwa [Pool.run, List.foldl_append]
  · exact runUnits_eq table _ (settings.workerCount_pos available units.length) hcalm
      hfinished

/-- A unit with a function of one block, and an entry that may be missing. -/
def unitWithEntry (name : String) (entry : Nat) : SourceUnit :=
  ⟨name, true, [], [], [], [],
    [⟨"run", false, false, [], [], [], some ⟨entry, [⟨[], .leave none⟩]⟩⟩]⟩

/-- The second worker finishes two units, both malformed, before the first has finished
the one before them. -/
theorem runUnits_any_schedule_overtaken :
    let units := [unitWithEntry "a.c" 0, unitWithEntry "b.c" 7, unitWithEntry "c.c" 8]
    let schedule :=
      [⟨0, false⟩, ⟨1, false⟩, ⟨1, false⟩, ⟨1, false⟩, ⟨1, false⟩, ⟨1, false⟩,
        ⟨0, false⟩, ⟨0, false⟩]
    ((Pool.start 2).run units (analyzeUnit default .warning) schedule).isFinished = true ∧
      runUnits default .warning 2 schedule units =
        .error (.failed (.missingEntry "b.c" "run" 7)) := by
  intro units schedule
  have hfinished :
      ((Pool.start 2).run units (analyzeUnit default .warning) schedule).isFinished =
        true := by
    decide +kernel
  obtain ⟨hanswer, -⟩ := runUnits_any_schedule default .warning units 2 (by decide)
  obtain ⟨-, -, herror⟩ := hanswer schedule (by decide) hfinished
  refine ⟨hfinished,
    (herror _).2 ⟨[unitWithEntry "a.c" 0], unitWithEntry "b.c" 7,
    [unitWithEntry "c.c" 8], .missingEntry "b.c" "run" 7, rfl, ?_, rfl, ?_⟩⟩
  · decide +kernel
  · intro earlier hmem
    obtain rfl := List.mem_singleton.1 hmem
    exact ⟨⟨[], 1⟩, by decide +kernel⟩

end Table

end Custody
