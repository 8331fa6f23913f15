import Mathlib.Algebra.GroupWithZero.Nat
import Mathlib.Data.List.Forall2
import ScriptAtlas.Proofs.DependencyList

/-! # Work on many files at once

Files are worked on in chunks. All workers of a chunk are started before the first is joined, they
end in any order, and they are joined in the order of their start (`Pool.move?`). A run is a list of
moves that some scheduler chooses. `Pool.Accounted` says where every file is at each moment and
holds along every run, so that what a finished pool has collected does not tell how it was scheduled
(`results_of_run`). -/

namespace ScriptAtlas.Workers

variable {α β : Type}

/-- The number of files that are worked on at once. -/
def chunkSize : Nat := 8

/-- A worker with its file and, once the work has ended, what came of it. -/
structure Worker (α β : Type) where
  file : α
  result : Option β := none
deriving DecidableEq, Repr

/-- Files on the way to their results. -/
structure Pool (α β : Type) where
  /-- The files behind the chunk at hand. -/
  waiting : List α := []
  /-- The files of the chunk that have no worker yet. -/
  chunk : List α := []
  /-- The workers of the chunk that are not joined yet, in the order of their start. -/
  workers : List (Worker α β) := []
  /-- What the workers joined so far have brought. -/
  results : List β := []
  /-- The files whose work has ended, in that order. -/
  ended : List α := []
deriving DecidableEq, Repr

/-- What can happen in a pool. -/
inductive Move where
  | takeChunk
  /-- The next file of the chunk gets a worker. -/
  | start
  /-- The work of a worker ends. -/
  | finish (i : Nat)
  /-- The result of the first worker is taken. -/
  | join
deriving DecidableEq, Repr

namespace Pool

variable (work : α → β)

/-- The pool after a move, if that can happen now. -/
def move? (p : Pool α β) : Move → Option (Pool α β)
  | .takeChunk =>
    match p.waiting, p.chunk, p.workers with
    | a :: as, [], [] =>
      some { p with
        waiting := (a :: as).drop chunkSize
        chunk := (a :: as).take chunkSize }
    | _, _, _ => none
  | .start =>
    match p.chunk with
    | a :: as => some { p with chunk := as, workers := p.workers ++ [⟨a, none⟩] }
    | [] => none
  | .finish i =>
    match p.workers[i]? with
    | some ⟨a, none⟩ =>
      some { p with
        workers := p.workers.set i ⟨a, some (work a)⟩
        ended := p.ended ++ [a] }
    | _ => none
  | .join =>
    match p.chunk, p.workers with
    | [], ⟨_, some b⟩ :: ws => some { p with workers := ws, results := p.results ++ [b] }
    | _, _ => none

/-- The pool after some moves, if those can happen one after another. -/
def run? (p : Pool α β) (moves : List Move) : Option (Pool α β) := moves.foldlM (move? work) p

/-- The pool for some files. A single file is worked on at once, without a worker. -/
def ofFiles (files : List α) : Pool α β :=
  if files.length ≤ 1 then { results := files.map work, ended := files }
  else { waiting := files }

/-- Is nothing left to do? -/
def isFinished (p : Pool α β) : Bool :=
  p.waiting.isEmpty && p.chunk.isEmpty && p.workers.isEmpty

/-! ### Moves -/

variable {work} {p q : Pool α β} {files joined : List α}

/-- What one move does. -/
inductive Step (work : α → β) (p : Pool α β) : Pool α β → Prop
  | takeChunk (hwaiting : p.waiting ≠ []) (hchunk : p.chunk = []) (hworkers : p.workers = []) :
      Step work p
        { p with waiting := p.waiting.drop chunkSize, chunk := p.waiting.take chunkSize }
  | start {a : α} {as : List α} (hchunk : p.chunk = a :: as) :
      Step work p { p with chunk := as, workers := p.workers ++ [⟨a, none⟩] }
  | finish {a : α} {us vs : List (Worker α β)} (hworkers : p.workers = us ++ ⟨a, none⟩ :: vs) :
      Step work p
        { p with workers := us ++ ⟨a, some (work a)⟩ :: vs, ended := p.ended ++ [a] }
  | join {a : α} {b : β} {ws : List (Worker α β)} (hchunk : p.chunk = [])
      (hworkers : p.workers = ⟨a, some b⟩ :: ws) :
      Step work p { p with workers := ws, results := p.results ++ [b] }

theorem step_of_move? {m : Move} (h : p.move? work m = some q) : Step work p q := by
  cases m with
  | takeChunk =>
    simp only [move?] at h
    split at h
    · next a as hwaiting hchunk hworkers =>
      cases h
      rw [← hwaiting]
      exact .takeChunk (by simp [hwaiting]) hchunk hworkers
    · cases h
  | start =>
    simp only [move?] at h
    split at h
    · next hchunk => cases h; exact .start hchunk
    · cases h
  | finish i =>
    simp only [move?] at h
    split at h
    · next a hi =>
      cases h
      obtain ⟨hlt, hget⟩ := List.getElem?_eq_some_iff.mp hi
      rw [List.set_eq_take_append_cons_drop, if_pos hlt]
      refine .finish ?_
      rw [← hget, List.getElem_cons_drop, List.take_append_drop]
    · cases h
  | join =>
    simp only [move?] at h
    split at h
    · next hchunk hworkers => cases h; exact .join hchunk hworkers
    · cases h

theorem exists_move?_of_step (h : Step work p q) : ∃ m, p.move? work m = some q := by
  cases h with
  | takeChunk hwaiting hchunk hworkers =>
    obtain ⟨a, as, hcons⟩ := List.exists_cons_of_ne_nil hwaiting
    exact ⟨.takeChunk, by simp [move?, hchunk, hworkers, hcons]⟩
  | start hchunk => exact ⟨.start, by simp [move?, hchunk]⟩
  | @finish a us vs hworkers => exact ⟨.finish us.length, by simp [move?, hworkers]⟩
  | join hchunk hworkers => exact ⟨.join, by simp [move?, hchunk, hworkers]⟩

theorem isFinished_iff :
    p.isFinished = true ↔ p.waiting = [] ∧ p.chunk = [] ∧ p.workers = [] := by
  simp [isFinished, and_assoc]

/-- A pool that is not finished can move. -/
theorem exists_step (h : p.isFinished = false) : ∃ q, Step work p q := by
  match hchunk : p.chunk, hworkers : p.workers with
  | a :: as, _ => exact ⟨_, .start hchunk⟩
  | [], ⟨a, none⟩ :: ws => exact ⟨_, .finish (hworkers.trans (List.nil_append _).symm)⟩
  | [], ⟨a, some b⟩ :: ws => exact ⟨_, .join hchunk hworkers⟩
  | [], [] =>
    have hwaiting : p.waiting ≠ [] := fun hnil => by
      simp [isFinished_iff.mpr ⟨hnil, hchunk, hworkers⟩] at h
    exact ⟨_, .takeChunk hwaiting hchunk hworkers⟩

/-! ### The end of a run -/

/-- The moves that a worker still needs: the end of its work, and being joined. -/
def effortOf (w : Worker α β) : Nat := if w.result.isSome then 1 else 2

theorem effortOf_none (a : α) : effortOf (⟨a, none⟩ : Worker α β) = 2 := rfl

theorem effortOf_some (a : α) (b : β) : effortOf (⟨a, some b⟩ : Worker α β) = 1 := rfl

/-- A bound on the moves to come: a file that waits is taken, gets a worker, is worked on and
joined. -/
def effort (p : Pool α β) : Nat :=
  4 * p.waiting.length + 3 * p.chunk.length + (p.workers.map effortOf).sum

theorem Step.effort_lt (h : Step work p q) : q.effort < p.effort := by
  cases h with
  | takeChunk hwaiting hchunk hworkers =>
    have hpos := List.length_pos_iff.mpr hwaiting
    simp only [effort, hchunk, hworkers, List.length_drop, List.length_take, List.length_nil,
      chunkSize]
    omega
  | start hchunk =>
    simp only [effort, hchunk, List.length_cons, List.map_append, List.sum_append, List.map_cons,
      List.map_nil, List.sum_cons, List.sum_nil, effortOf_none]
    omega
  | finish hworkers =>
    simp only [effort, hworkers, List.map_append, List.sum_append, List.map_cons, List.sum_cons,
      effortOf_none, effortOf_some]
    omega
  | join hchunk hworkers =>
    simp only [effort, hworkers, List.map_cons, List.sum_cons, effortOf_some]
    omega

theorem run?_cons {m : Move} {moves : List Move} :
    p.run? work (m :: moves) = some q ↔
      ∃ p', p.move? work m = some p' ∧ p'.run? work moves = some q := by
  simp [run?, Option.bind_eq_some_iff]

theorem length_add_effort_le {moves : List Move} (h : p.run? work moves = some q) :
    moves.length + q.effort ≤ p.effort := by
  induction moves generalizing p with
  | nil =>
    obtain rfl : p = q := by simpa [run?] using h
    simp
  | cons m moves ih =>
    obtain ⟨p', hmove, hrun⟩ := run?_cons.mp h
    have hlt := (step_of_move? hmove).effort_lt
    have hle := ih hrun
    rw [List.length_cons]
    omega

theorem effort_ofFiles_le (work : α → β) (files : List α) :
    (ofFiles work files).effort ≤ 4 * files.length := by
  unfold ofFiles
  split <;> simp [effort]

/-! ### Where the files are -/

/-- The files of the workers whose work has ended. -/
def endedIn (ws : List (Worker α β)) : List α := (ws.filter (·.result.isSome)).map Worker.file

theorem endedIn_append (us vs : List (Worker α β)) :
    endedIn (us ++ vs) = endedIn us ++ endedIn vs := by
  simp [endedIn]

theorem endedIn_cons_none (a : α) (ws : List (Worker α β)) :
    endedIn (⟨a, none⟩ :: ws) = endedIn ws := rfl

theorem endedIn_cons_some (a : α) (b : β) (ws : List (Worker α β)) :
    endedIn (⟨a, some b⟩ :: ws) = a :: endedIn ws := rfl

/-- What a worker brings is the work on its file. -/
def Honest (work : α → β) (ws : List (Worker α β)) : Prop :=
  ∀ w ∈ ws, ∀ b ∈ w.result, b = work w.file

theorem Honest.finish {a : α} {us vs : List (Worker α β)}
    (h : Honest work (us ++ ⟨a, none⟩ :: vs)) : Honest work (us ++ ⟨a, some (work a)⟩ :: vs) := by
  intro w hw b hb
  rcases List.mem_append.mp hw with hw | hw
  · exact h w (List.mem_append_left _ hw) b hb
  · rcases List.mem_cons.mp hw with rfl | hw
    · exact (Option.mem_some.mp hb).symm
    · exact h w (List.mem_append_right _ (List.mem_cons_of_mem _ hw)) b hb

/-- The files are those joined, those with a worker and those without, in this order; what was
brought is the work on those joined, and the work has ended on them and on those of the workers that
say so. -/
structure Accounted (work : α → β) (files joined : List α) (p : Pool α β) : Prop where
  files_eq : files = joined ++ p.workers.map Worker.file ++ p.chunk ++ p.waiting
  results_eq : p.results = joined.map work
  ended_perm : p.ended.Perm (joined ++ endedIn p.workers)
  honest : Honest work p.workers

theorem accounted_ofFiles (work : α → β) (files : List α) :
    ∃ joined, Accounted work files joined (ofFiles work files) := by
  unfold ofFiles
  split
  · exact ⟨files, by simp, rfl, by simp [endedIn], by simp [Honest]⟩
  · exact ⟨[], by simp, rfl, by simp [endedIn], by simp [Honest]⟩

theorem Accounted.step (h : Accounted work files joined p) (hstep : Step work p q) :
    ∃ joined', Accounted work files joined' q := by
  obtain ⟨hfiles, hhonests, hended, hhonest⟩ := h
  cases hstep with
  | takeChunk hwaiting hchunk hworkers =>
    refine ⟨joined, ?_, hhonests, hended, hhonest⟩
    simp [hfiles, hchunk, List.take_append_drop]
  | start hchunk =>
    refine ⟨joined, ?_, hhonests, ?_, ?_⟩
    · simp [hfiles, hchunk]
    · rw [endedIn_append, endedIn_cons_none]
      simpa [endedIn] using hended
    · intro w hw b hb
      rcases List.mem_append.mp hw with hw | hw
      · exact hhonest w hw b hb
      · obtain rfl := List.mem_singleton.mp hw
        cases hb
  | @finish a us vs hworkers =>
    rw [hworkers] at hfiles hended hhonest
    refine ⟨joined, ?_, hhonests, ?_, ?_⟩
    · simpa using hfiles
    · rw [endedIn_append, endedIn_cons_none, ← List.append_assoc] at hended
      rw [endedIn_append, endedIn_cons_some, ← List.append_assoc]
      calc List.Perm (p.ended ++ [a]) (a :: p.ended) := List.perm_append_singleton a p.ended
        List.Perm _ (a :: (joined ++ endedIn us ++ endedIn vs)) := hended.cons a
        List.Perm _ (joined ++ endedIn us ++ a :: endedIn vs) := List.perm_middle.symm
    · exact hhonest.finish
  | @join a b ws hchunk hworkers =>
    rw [hworkers] at hfiles hended hhonest
    obtain ⟨hb, hrest⟩ := List.forall_mem_cons.mp hhonest
    obtain rfl : b = work a := hb b rfl
    refine ⟨joined ++ [a], ?_, ?_, ?_, hrest⟩
    · simpa using hfiles
    · simp [hhonests]
    · simpa [endedIn_cons_some] using hended

theorem Accounted.run? {moves : List Move} (h : Accounted work files joined p)
    (hrun : p.run? work moves = some q) : ∃ joined', Accounted work files joined' q := by
  induction moves generalizing p joined with
  | nil =>
    obtain rfl : p = q := by simpa [Pool.run?] using hrun
    exact ⟨joined, h⟩
  | cons m moves ih =>
    obtain ⟨p', hmove, hrest⟩ := run?_cons.mp hrun
    obtain ⟨joined', h'⟩ := h.step (step_of_move? hmove)
    exact ih h' hrest

theorem results_of_run {moves : List Move} (hrun : (ofFiles work files).run? work moves = some p)
    (hfinished : p.isFinished = true) : p.results = files.map work ∧ p.ended.Perm files := by
  obtain ⟨_, hstart⟩ := accounted_ofFiles work files
  obtain ⟨joined, hend⟩ := hstart.run? hrun
  obtain ⟨hwaiting, hchunk, hworkers⟩ := isFinished_iff.mp hfinished
  obtain rfl : files = joined := by simpa [hwaiting, hchunk, hworkers] using hend.files_eq
  exact ⟨hend.results_eq, by simpa [hworkers, endedIn] using hend.ended_perm⟩

/-! ### Every order of completion occurs -/

/-- Some moves lead from one pool to the other. -/
def Reaches (work : α → β) (p q : Pool α β) : Prop := ∃ moves, p.run? work moves = some q

theorem Reaches.refl (p : Pool α β) : Reaches work p p := ⟨[], rfl⟩

theorem Step.reaches {r : Pool α β} (h : Step work p q) (hrest : Reaches work q r) :
    Reaches work p r := by
  obtain ⟨m, hmove⟩ := exists_move?_of_step h
  obtain ⟨moves, hrun⟩ := hrest
  exact ⟨m :: moves, run?_cons.mpr ⟨q, hmove, hrun⟩⟩

theorem Reaches.trans {r : Pool α β} (h : Reaches work p q) (hrest : Reaches work q r) :
    Reaches work p r := by
  obtain ⟨moves, hrun⟩ := h
  obtain ⟨moves', hrun'⟩ := hrest
  refine ⟨moves ++ moves', ?_⟩
  unfold Pool.run? at hrun ⊢
  rw [List.foldlM_append, hrun]
  exact hrun'

section Chunk

variable {waiting chunk ended order : List α} {results : List β} {ws : List (Worker α β)}

theorem reaches_started :
    Reaches work ⟨waiting, chunk, ws, results, ended⟩
      ⟨waiting, [], ws ++ chunk.map (⟨·, none⟩), results, ended⟩ := by
  induction chunk generalizing ws with
  | nil => simpa using Reaches.refl _
  | cons a chunk ih =>
    rw [List.map_cons, List.append_cons]
    exact Step.reaches (.start rfl) ih

/-- The files of the workers that are still at work. -/
def busyIn (ws : List (Worker α β)) : List α := (ws.filter (·.result.isNone)).map Worker.file

theorem busyIn_append (us vs : List (Worker α β)) :
    busyIn (us ++ vs) = busyIn us ++ busyIn vs := by
  simp [busyIn]

theorem busyIn_cons_none (a : α) (ws : List (Worker α β)) :
    busyIn (⟨a, none⟩ :: ws) = a :: busyIn ws := rfl

theorem busyIn_cons_some (a : α) (b : β) (ws : List (Worker α β)) :
    busyIn (⟨a, some b⟩ :: ws) = busyIn ws := rfl

theorem busyIn_map_none (files : List α) :
    busyIn (files.map fun a => (⟨a, none⟩ : Worker α β)) = files := by
  induction files with
  | nil => rfl
  | cons a files ih => rw [List.map_cons, busyIn_cons_none, ih]

theorem exists_of_mem_busyIn {a : α} (h : a ∈ busyIn ws) :
    ∃ us vs, ws = us ++ ⟨a, none⟩ :: vs := by
  obtain ⟨⟨a', _ | b⟩, hw, rfl⟩ := List.mem_map.mp h
  · exact List.append_of_mem (List.mem_filter.mp hw).1
  · simp at hw

/-- The worker with its work ended. -/
def complete (work : α → β) (w : Worker α β) : Worker α β := ⟨w.file, some (work w.file)⟩

theorem map_complete_of_busyIn_eq_nil (hhonest : Honest work ws)
    (hbusy : busyIn ws = []) : ws.map (complete work) = ws := by
  refine (List.map_congr_left fun w hw => ?_).trans (List.map_id ws)
  obtain ⟨a, _ | b⟩ := w
  · have hmem : a ∈ busyIn ws := List.mem_map.mpr ⟨⟨a, none⟩, by simpa using hw, rfl⟩
    rw [hbusy] at hmem
    cases hmem
  · rw [hhonest _ hw b rfl]
    rfl

theorem reaches_ended (hhonest : Honest work ws)
    (horder : order.Perm (busyIn ws)) :
    Reaches work ⟨waiting, chunk, ws, results, ended⟩
      ⟨waiting, chunk, ws.map (complete work), results, ended ++ order⟩ := by
  induction order generalizing ws ended with
  | nil =>
    rw [map_complete_of_busyIn_eq_nil hhonest horder.symm.eq_nil, List.append_nil]
    exact .refl _
  | cons a order ih =>
    obtain ⟨us, vs, rfl⟩ := exists_of_mem_busyIn (horder.subset List.mem_cons_self)
    have hrest : order.Perm (busyIn (us ++ ⟨a, some (work a)⟩ :: vs)) := by
      rw [busyIn_append, busyIn_cons_none] at horder
      rw [busyIn_append, busyIn_cons_some]
      exact List.Perm.cons_inv (horder.trans List.perm_middle)
    have hmap : (us ++ ⟨a, none⟩ :: vs).map (complete work) =
        (us ++ ⟨a, some (work a)⟩ :: vs).map (complete work) := by
      simp [complete]
    rw [hmap, List.append_cons ended a order]
    exact Step.reaches (.finish rfl) (ih hhonest.finish hrest)

theorem reaches_joined {files : List α} :
    Reaches work ⟨waiting, [], files.map fun a => ⟨a, some (work a)⟩, results, ended⟩
      ⟨waiting, [], [], results ++ files.map work, ended⟩ := by
  induction files generalizing results with
  | nil => simpa using Reaches.refl _
  | cons a files ih =>
    have happend : results ++ (a :: files).map work = results ++ [work a] ++ files.map work := by
      simp
    rw [happend]
    exact Step.reaches (.join rfl rfl) ih

/-- A chunk in which the work ends in a given order. -/
theorem reaches_chunk (horder : order.Perm chunk) :
    Reaches work ⟨waiting, chunk, [], results, ended⟩
      ⟨waiting, [], [], results ++ chunk.map work, ended ++ order⟩ := by
  have hbusy : order.Perm (busyIn (chunk.map fun a => (⟨a, none⟩ : Worker α β))) := by
    rwa [busyIn_map_none]
  have hhonest : Honest work (chunk.map fun a => (⟨a, none⟩ : Worker α β)) := by
    simp [Honest]
  have hmap : (chunk.map fun a => (⟨a, none⟩ : Worker α β)).map (complete work) =
      chunk.map fun a => ⟨a, some (work a)⟩ := by
    simp [complete]
  refine reaches_started.trans ((reaches_ended hhonest hbusy).trans ?_)
  rw [hmap]
  exact reaches_joined

end Chunk

/-- The chunks in which files are taken. -/
def chunks (files : List α) : List (List α) :=
  match files with
  | [] => []
  | a :: as => (a :: as).take chunkSize :: chunks ((a :: as).drop chunkSize)
termination_by files.length
decreasing_by
  have hsize : 0 < chunkSize := by decide
  rw [List.length_drop, List.length_cons]
  omega

theorem reaches_chunks {waiting ended : List α} {results : List β} {orders : List (List α)}
    (horders : List.Forall₂ List.Perm orders (chunks waiting)) :
    Reaches work ⟨waiting, [], [], results, ended⟩
      ⟨[], [], [], results ++ waiting.map work, ended ++ orders.flatten⟩ := by
  induction waiting using chunks.induct generalizing orders results ended with
  | case1 =>
    rw [chunks] at horders
    cases horders
    simpa using Reaches.refl _
  | case2 a as ih =>
    rw [chunks] at horders
    cases horders with
    | @cons order _ orders _ horder horders =>
      refine Step.reaches (.takeChunk (List.cons_ne_nil a as) rfl rfl) ?_
      refine (reaches_chunk horder).trans ?_
      have hmap : (a :: as).map work =
          ((a :: as).take chunkSize).map work ++ ((a :: as).drop chunkSize).map work := by
        rw [← List.map_append, List.take_append_drop]
      rw [List.flatten_cons, hmap, ← List.append_assoc, ← List.append_assoc]
      exact ih horders

theorem exists_run_of_orders (work : α → β) {orders : List (List α)}
    (horders : List.Forall₂ List.Perm orders (chunks files)) :
    ∃ moves p, (ofFiles work files).run? work moves = some p ∧ p.isFinished = true ∧
      p.ended = orders.flatten := by
  unfold ofFiles
  split
  · next hshort =>
    refine ⟨[], _, rfl, rfl, ?_⟩
    match files, hshort with
    | [], _ =>
      rw [chunks] at horders
      cases horders
      rfl
    | [a], _ =>
      have hchunks : chunks [a] = [[a]] := by simp [chunks, chunkSize]
      rw [hchunks, List.forall₂_cons_right_iff] at horders
      obtain ⟨order, rest, horder, hrest, rfl⟩ := horders
      rw [List.forall₂_nil_right_iff] at hrest
      rw [hrest, List.perm_singleton.mp horder]
      rfl
  · have hreaches : Reaches work { waiting := files }
        ⟨[], [], [], [] ++ files.map work, [] ++ orders.flatten⟩ := reaches_chunks horders
    obtain ⟨moves, hrun⟩ := hreaches
    exact ⟨moves, _, hrun, rfl, List.nil_append _⟩

end Pool

open Pool

/-- **Nobody can tell how the work was scheduled.** Every run has at most four moves for each file,
and a pool that is not finished can move on. A finished one has the work on each file in the order
of the files, and the work has ended once for each. The work on the files of each chunk may end in
every order. -/
theorem results_of_every_run (work : α → β) (files : List α) :
    (∀ moves p, (ofFiles work files).run? work moves = some p →
      moves.length ≤ 4 * files.length ∧
      (p.isFinished = true → p.results = files.map work ∧ p.ended.Perm files) ∧
      (p.isFinished = false → ∃ m q, p.move? work m = some q)) ∧
    ∀ orders, List.Forall₂ List.Perm orders (chunks files) →
      ∃ moves p, (ofFiles work files).run? work moves = some p ∧ p.isFinished = true ∧
        p.ended = orders.flatten := by
  refine ⟨fun moves p hrun => ⟨?_, fun hfinished => ?_, fun hrest => ?_⟩, fun orders horders => ?_⟩
  · have hmoves := length_add_effort_le hrun
    have hfiles := effort_ofFiles_le work files
    omega
  · exact results_of_run hrun hfinished
  · obtain ⟨q, hstep⟩ : ∃ q, Step work p q := exists_step hrest
    obtain ⟨m, hmove⟩ := exists_move?_of_step hstep
    exact ⟨m, q, hmove⟩
  · exact exists_run_of_orders work horders

/-- Ten files, in two chunks; the work on each chunk ends from its last file to its first. -/
def reversedMoves : List Move :=
  [.takeChunk] ++ List.replicate 8 .start ++ [7, 6, 5, 4, 3, 2, 1, 0].map .finish ++
    List.replicate 8 .join ++ [.takeChunk, .start, .finish 0, .start, .finish 1, .join, .join]

theorem results_of_every_run_reversed :
    let files := List.range 10
    let work (n : Nat) := n * n
    let p : Pool Nat Nat :=
      { results := [0, 1, 4, 9, 16, 25, 36, 49, 64, 81], ended := [7, 6, 5, 4, 3, 2, 1, 0, 8, 9] }
    (ofFiles work files).run? work reversedMoves = some p ∧ p.isFinished = true ∧
      p.results = files.map work ∧ p.ended.Perm files := by
  intro files work p
  have hrun : (ofFiles work files).run? work reversedMoves = some p := by decide +kernel
  obtain ⟨-, hfinished, -⟩ := (results_of_every_run work files).1 reversedMoves p hrun
  exact ⟨hrun, rfl, hfinished rfl⟩

/-- The functions of files are found from indexes made at the same time. -/
theorem namedByIndexes_of_run {files : List SourceFile} {moves : List Move}
    {p : Pool SourceFile (Option Function.Index)}
    (hrun : (ofFiles Function.Index.ofFile? files).run? Function.Index.ofFile? moves = some p)
    (hfinished : p.isFinished = true) :
    Function.namedByIndexes files p.results = Function.namedInAll files := by
  rw [(results_of_run hrun hfinished).1, Function.namedByIndexes_map]

end ScriptAtlas.Workers
