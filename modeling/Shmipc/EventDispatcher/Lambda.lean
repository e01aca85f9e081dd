import Shmipc.Common.GoSlice
import Shmipc.Common.Trans

/-!
# Functions posted to the event loop

`epollDispatcher.post` (event_dispatcher_linux.go:286-290) appends a function to
`pendingLambda`. `runLambda` (303-314), which only the event loop calls, swaps the slices
`pendingLambda` and `runningLambda`, runs the functions of the latter and cuts it to length 0.
Both take `lambdaLock`, `runLambda` for the swap only: the functions are read from the array of
`runningLambda` while others, and the functions themselves, write to that of `pendingLambda`,
and the two arrays change places in every round.

Any number of goroutines post. A step is one access to the lock, a field or an array; what a
function does is left open, it may post any number of times before it returns. Every function is
logged with the number of rounds that had begun when it was posted, and when it was run.

Results:
* `facts_step`: what a step keeps; `facts_reachable`: in every run without `shutdown`.
* `left_step`: the steps that the event loop is from the last of the functions posted so far, which
  nobody else's steps change; `left_run`: in every interleaving.
* `posted_run_once_in_order`: the functions run in the order in which they were posted, each once,
  in the round after the one in which they were posted; and all that were posted have run once the
  event loop has gone on calling `runLambda`.
-/

namespace Shmipc.EventDispatcher.Lambda

open Common
open Common.GoSlice (Slice Heap Holds)

/-! ## The model -/

/-- Where a call of `post` is. A constructor stands for the step taken next. -/
inductive PostPc (F : Type*)
  | idle
  /-- `d.lambdaLock.Lock()`. -/
  | lock (f : F)
  /-- The load of `d.pendingLambda`. -/
  | load (f : F)
  | append (f : F) (pending : Slice)
  /-- The store of the result to `d.pendingLambda`. -/
  | store (f : F) (pending : Slice)
  | unlock

/-- Where the event loop is. -/
inductive LoopPc (F : Type*)
  /-- Outside of `runLambda`. -/
  | idle
  /-- The lock is taken: the loads of the two slices. -/
  | load
  /-- The store to `d.runningLambda`. -/
  | storeRunning (running pending : Slice)
  /-- The store to `d.pendingLambda`. -/
  | storePending (running : Slice)
  | unlock
  /-- `range d.runningLambda`: the header is loaded once. -/
  | range
  /-- The head of the loop over `fs`. -/
  | next (fs : Slice) (i : ℕ)
  /-- `if d.isShutdown`, with the function of this iteration. -/
  | check (fs : Slice) (i : ℕ) (f : F)
  /-- The function runs, and is at `pc` of a `post`. -/
  | task (fs : Slice) (i : ℕ) (pc : PostPc F)
  /-- `d.runningLambda = d.runningLambda[:0]`. -/
  | truncate
  /-- The call of a cell that was never written. -/
  | panicked

/-- The dispatcher, the goroutines `G` that post and the event loop. -/
structure State (G F : Type*) where
  heap : Heap F
  pendingLambda : Slice
  runningLambda : Slice
  /-- The holder: a goroutine, or `none` for the event loop. -/
  lambdaLock : Option (Option G)
  isShutdown : Bool
  poster : G → PostPc F
  loop : LoopPc F
  /-- What was posted, with the number of rounds begun by then. -/
  posted : List (F × ℕ)
  /-- What was run, with the number of the round. -/
  ran : List (F × ℕ)
  rounds : ℕ

inductive Act (G F : Type*)
  /-- A goroutine calls `post`. -/
  | post (g : G) (f : F)
  | goroutine (g : G)
  /-- The event loop calls `runLambda` and gets the lock. -/
  | runLambda
  | loop
  /-- The function that runs calls `post`. -/
  | taskPost (f : F)
  | taskReturn
  | shutdown
deriving DecidableEq

variable {G F : Type*}

/-- A step of a `post` by `who`. -/
def postStep (grow : ℕ → ℕ) (who : Option G) (s : State G F) :
    PostPc F → Option (State G F × PostPc F)
  | .idle => none
  | .lock f =>
    if s.lambdaLock.isNone then some ({ s with lambdaLock := some who }, .load f) else none
  | .load f => some (s, .append f s.pendingLambda)
  | .append f p =>
    let r := GoSlice.append grow s.heap p f
    some ({ s with heap := r.1 }, .store f r.2)
  | .store f p =>
    some ({ s with pendingLambda := p, posted := s.posted ++ [(f, s.rounds)] }, .unlock)
  | .unlock => some ({ s with lambdaLock := none }, .idle)

/-- A step of the event loop. -/
def loopStep (grow : ℕ → ℕ) (s : State G F) : LoopPc F → Option (State G F)
  | .idle | .panicked => none
  | .load => some { s with loop := .storeRunning s.runningLambda s.pendingLambda }
  | .storeRunning r p =>
    some { s with runningLambda := p, rounds := s.rounds + 1, loop := .storePending r }
  | .storePending r => some { s with pendingLambda := r, loop := .unlock }
  | .unlock => some { s with lambdaLock := none, loop := .range }
  | .range => some { s with loop := .next s.runningLambda 0 }
  | .next fs i =>
    if i < fs.len then
      match fs.get s.heap i with
      | some f => some { s with loop := .check fs i f }
      | none => some { s with loop := .panicked }
    else some { s with loop := .truncate }
  | .check fs i f =>
    if s.isShutdown then some { s with loop := .idle }
    else some { s with loop := .task fs i .idle, ran := s.ran ++ [(f, s.rounds)] }
  | .task fs i pc => (postStep grow none s pc).map fun r => { r.1 with loop := .task fs i r.2 }
  | .truncate => some { s with runningLambda := s.runningLambda.clear, loop := .idle }

def State.setPoster [DecidableEq G] (s : State G F) (g : G) (pc : PostPc F) : State G F :=
  { s with poster := Function.update s.poster g pc }

def step [DecidableEq G] (grow : ℕ → ℕ) (s : State G F) : Act G F → Option (State G F)
  | .post g f =>
    match s.poster g with
    | .idle => some (s.setPoster g (.lock f))
    | _ => none
  | .goroutine g => (postStep grow (some g) s (s.poster g)).map fun r => r.1.setPoster g r.2
  | .runLambda =>
    match s.loop with
    | .idle =>
      if s.lambdaLock.isNone then some { s with lambdaLock := some none, loop := .load } else none
    | _ => none
  | .loop => loopStep grow s s.loop
  | .taskPost f =>
    match s.loop with
    | .task fs i .idle => some { s with loop := .task fs i (.lock f) }
    | _ => none
  | .taskReturn =>
    match s.loop with
    | .task fs i .idle => some { s with loop := .next fs (i + 1) }
    | _ => none
  | .shutdown => some { s with isShutdown := true }

/-- `newEpollDispatcher`: two slices of capacity 32. -/
def initial (G F : Type*) : State G F :=
  let pending : Heap F × Slice := GoSlice.make [] 32
  let running := GoSlice.make pending.1 32
  { heap := running.1
    pendingLambda := pending.2
    runningLambda := running.2
    lambdaLock := none
    isShutdown := false
    poster := fun _ => .idle
    loop := .idle
    posted := []
    ran := []
    rounds := 0 }

/-- `grow` is how `append` chooses a new capacity. -/
def machine (G F : Type*) [DecidableEq G] (grow : ℕ → ℕ) : Sys (State G F) (Act G F) where
  init s := s = initial G F
  next := step grow

section Inversion

variable [DecidableEq G] {grow : ℕ → ℕ} {s t : State G F} {g : G} {f : F}

/-! What the steps that are no access are taken from, and what they do. -/

theorem step_post (hs : step grow s (.post g f) = some t) :
    s.poster g = .idle ∧ t = s.setPoster g (.lock f) := by
  simp only [step] at hs
  split at hs
  · rename_i hpc
    cases hs
    exact ⟨hpc, rfl⟩
  · cases hs

theorem step_runLambda (hs : step grow s .runLambda = some t) :
    s.loop = .idle ∧ s.lambdaLock = none ∧
      t = { s with lambdaLock := some none, loop := .load } := by
  simp only [step] at hs
  split at hs
  · rename_i hpc
    split_ifs at hs with hfree
    cases hs
    exact ⟨hpc, Option.isNone_iff_eq_none.mp hfree, rfl⟩
  · cases hs

theorem step_taskPost (hs : step grow s (.taskPost f) = some t) :
    ∃ fs i, s.loop = .task fs i .idle ∧ t = { s with loop := .task fs i (.lock f) } := by
  simp only [step] at hs
  split at hs
  · rename_i fs i hpc
    cases hs
    exact ⟨fs, i, hpc, rfl⟩
  · cases hs

theorem step_taskReturn (hs : step grow s .taskReturn = some t) :
    ∃ fs i, s.loop = .task fs i .idle ∧ t = { s with loop := .next fs (i + 1) } := by
  simp only [step] at hs
  split at hs
  · rename_i fs i hpc
    cases hs
    exact ⟨fs, i, hpc, rfl⟩
  · cases hs

end Inversion

/-! ## The invariant -/

/-- What holds of a `post` at `pc`, with `ps` pending: `array` is that of `runningLambda`. -/
def PostOk (heap : Heap F) (pending : Slice) (array : ℕ) (ps : List F) (locked : Prop) :
    PostPc F → Prop
  | .idle | .lock _ => True
  | .load _ | .unlock => locked
  | .append _ p => locked ∧ p = pending
  | .store f p => locked ∧ Holds heap p (ps ++ [f]) ∧ p.array ≠ array

/-- What holds of the event loop at `pc`, with `ps` pending, `rs` in `runningLambda` and `todo`
    of these not called yet. -/
def LoopOk (s : State G F) (ps rs todo : List F) : LoopPc F → Prop
  | .idle => rs = [] ∧ todo = []
  | .load => s.lambdaLock = some none ∧ rs = [] ∧ todo = []
  | .storeRunning r p => s.lambdaLock = some none ∧ r = s.runningLambda ∧ p = s.pendingLambda ∧
      rs = [] ∧ todo = []
  | .storePending _ | .unlock => s.lambdaLock = some none ∧ todo = rs
  | .range => todo = rs
  | .next fs i => fs = s.runningLambda ∧ i ≤ rs.length ∧ todo = rs.drop i
  | .check fs i f => fs = s.runningLambda ∧ rs[i]? = some f ∧ todo = rs.drop i
  | .task fs i pc => fs = s.runningLambda ∧ i < rs.length ∧ todo = rs.drop (i + 1) ∧
      PostOk s.heap s.pendingLambda s.runningLambda.array ps (s.lambdaLock = some none) pc
  | .truncate => todo = []
  | .panicked => False

/-- The slice that the next `post` appends to: in the middle of the swap no field has it. -/
def State.pending (s : State G F) : Slice :=
  match s.loop with
  | .storePending r => r
  | _ => s.pendingLambda

/-- The logs: what has run, what is left of the round, and what is pending. -/
def Log (s : State G F) (ps todo : List F) : Prop :=
  ∃ old n, s.posted = old ++ (todo.map (·, n) ++ ps.map (·, s.rounds)) ∧
    s.ran = old.map (fun p => (p.1, p.2 + 1)) ∧ (todo ≠ [] → n + 1 = s.rounds)

/-- The call holds the lock. -/
def PostPc.Inside : PostPc F → Prop
  | .idle | .lock _ => False
  | .load _ | .append .. | .store .. | .unlock => True

def LoopPc.Inside : LoopPc F → Prop
  | .load | .storeRunning .. | .storePending _ | .unlock => True
  | .task _ _ pc => pc.Inside
  | .idle | .range | .next .. | .check .. | .truncate | .panicked => False

def State.Inside (s : State G F) : Option G → Prop
  | none => s.loop.Inside
  | some g => (s.poster g).Inside

structure Facts (s : State G F) (ps rs todo : List F) : Prop where
  pending : Holds s.heap s.pending ps
  running : Holds s.heap s.runningLambda rs
  apart : s.pending.array ≠ s.runningLambda.array
  loop : LoopOk s ps rs todo s.loop
  posters : ∀ g, PostOk s.heap s.pendingLambda s.runningLambda.array ps
    (s.lambdaLock = some (some g)) (s.poster g)
  log : Log s ps todo
  holder : ∀ who, s.lambdaLock = some who → s.Inside who
  up : s.isShutdown = false

section Steps

variable {grow : ℕ → ℕ} {s t : State G F} {ps ps' rs todo : List F}

/-- A `post` without the lock depends on nothing. -/
theorem PostOk.of_not_locked {heap heap' : Heap F} {p p' : Slice} {a a' : ℕ} {locked locked' : Prop}
    {pc : PostPc F} (h : PostOk heap p a ps locked pc) (hl : ¬locked) :
    PostOk heap' p' a' ps' locked' pc := by
  cases pc with
  | idle | lock f => trivial
  | load f | unlock => exact absurd h hl
  | append f p | store f p => exact absurd h.1 hl

/-- The event loop without the lock depends on `runningLambda` only. -/
theorem LoopOk.of_not_locked {pc : LoopPc F} (h : LoopOk s ps rs todo pc)
    (hl : s.lambdaLock ≠ some none) (hr : t.runningLambda = s.runningLambda) :
    LoopOk t ps' rs todo pc := by
  cases pc with
  | idle | range | truncate | panicked => exact h
  | load | storeRunning r p | storePending r | unlock => exact absurd h.1 hl
  | next fs i | check fs i f => exact ⟨h.1.trans hr.symm, h.2⟩
  | task fs i pc =>
    obtain ⟨hfs, hi, htodo, hpost⟩ := h
    exact ⟨hfs.trans hr.symm, hi, htodo, hpost.of_not_locked hl⟩

theorem LoopOk.pending_eq (h : LoopOk s ps rs todo s.loop) (hl : s.lambdaLock ≠ some none) :
    s.pending = s.pendingLambda := by
  unfold State.pending
  cases hpc : s.loop with
  | storePending r =>
    rw [hpc] at h
    exact absurd h.1 hl
  | idle | load | storeRunning _ _ | unlock | range | next _ _ | check _ _ _ | task _ _ _
  | truncate | panicked => rfl

/-- A step of a `post` is taken with the lock, or when it is free. -/
theorem PostOk.lock_free {heap : Heap F} {p : Slice} {a : ℕ} {who : Option G} {pc pc' : PostPc F}
    (h : PostOk heap p a ps (s.lambdaLock = some who) pc)
    (hs : postStep grow who s pc = some (t, pc')) :
    s.lambdaLock = none ∨ s.lambdaLock = some who := by
  cases pc with
  | idle => cases hs
  | lock f =>
    simp only [postStep] at hs
    split_ifs at hs with hfree
    exact .inl (Option.isNone_iff_eq_none.mp hfree)
  | load f | unlock => exact .inr h
  | append f p | store f p => exact .inr h.1

/-- How many steps a `post` is from its return. -/
def PostPc.left : PostPc F → ℕ
  | .idle => 0
  | .lock _ => 5
  | .load _ => 4
  | .append .. => 3
  | .store .. => 2
  | .unlock => 1

/-- What a step of a `post` by `who` leaves alone, in any state. -/
structure PostFrame (who : Option G) (s t : State G F) (pc pc' : PostPc F) : Prop where
  runningLambda : t.runningLambda = s.runningLambda
  loop : t.loop = s.loop
  poster : t.poster = s.poster
  isShutdown : t.isShutdown = s.isShutdown
  ran : t.ran = s.ran
  posted : s.posted <+: t.posted
  lock : ∀ w, t.lambdaLock = some w → s.lambdaLock = some w ∨ w = who
  left : pc'.left + 1 = pc.left

theorem postStep_frame {who : Option G} {pc pc' : PostPc F}
    (hs : postStep grow who s pc = some (t, pc')) : PostFrame who s t pc pc' := by
  cases pc with
  | idle => cases hs
  | lock f =>
    simp only [postStep] at hs
    split_ifs at hs
    cases hs
    exact ⟨rfl, rfl, rfl, rfl, rfl, List.prefix_rfl, fun w hw => .inr (Option.some.inj hw).symm, rfl⟩
  | load f | append f p =>
    cases hs
    exact ⟨rfl, rfl, rfl, rfl, rfl, List.prefix_rfl, fun w hw => .inl hw, rfl⟩
  | store f p =>
    cases hs
    exact ⟨rfl, rfl, rfl, rfl, rfl, List.prefix_append _ _, fun w hw => .inl hw, rfl⟩
  | unlock =>
    cases hs
    exact ⟨rfl, rfl, rfl, rfl, rfl, List.prefix_rfl, fun w hw => (nomatch hw), rfl⟩

/-- What a step of a `post` by `who` comes to. -/
structure PostEffect (who : Option G) (t : State G F) (pc' : PostPc F) (ps' rs todo : List F) :
    Prop where
  pending : Holds t.heap t.pendingLambda ps'
  running : Holds t.heap t.runningLambda rs
  apart : t.pendingLambda.array ≠ t.runningLambda.array
  log : Log t ps' todo
  post : PostOk t.heap t.pendingLambda t.runningLambda.array ps' (t.lambdaLock = some who) pc'
  after : ∀ w, t.lambdaLock = some w → w = who ∧ pc'.Inside

theorem Log.store (h : Log s ps todo) (f : F) (p : Slice) :
    Log { s with pendingLambda := p, posted := s.posted ++ [(f, s.rounds)] } (ps ++ [f]) todo := by
  obtain ⟨old, n, hposted, hran, hn⟩ := h
  refine ⟨old, n, ?_, hran, hn⟩
  simp only [hposted, List.map_append, List.append_assoc]
  rfl

/-- **Step of a `post`.** -/
theorem postStep_effect (hgrow : ∀ c, c < grow c) {who : Option G} {pc pc' : PostPc F}
    (hpend : Holds s.heap s.pendingLambda ps) (hrun : Holds s.heap s.runningLambda rs)
    (hap : s.pendingLambda.array ≠ s.runningLambda.array) (hlog : Log s ps todo)
    (hok : PostOk s.heap s.pendingLambda s.runningLambda.array ps (s.lambdaLock = some who) pc)
    (hs : postStep grow who s pc = some (t, pc')) :
    ∃ ps', PostEffect who t pc' ps' rs todo := by
  cases pc with
  | idle => cases hs
  | lock f =>
    simp only [postStep] at hs
    split_ifs at hs with hfree
    cases hs
    refine ⟨ps, hpend, hrun, hap, hlog, rfl, fun w hw => ?_⟩
    exact ⟨(Option.some.inj hw).symm, trivial⟩
  | load f =>
    cases hs
    refine ⟨ps, hpend, hrun, hap, hlog, ⟨hok, rfl⟩, fun w hw => ?_⟩
    exact ⟨Option.some.inj (hw.symm.trans hok), trivial⟩
  | append f p =>
    obtain ⟨hl, rfl⟩ := hok
    cases hs
    refine ⟨ps, hpend.append_self f, hrun.append_of_ne hap f, hap, hlog,
      ⟨hl, hpend.append (hgrow _) f, GoSlice.append_array_ne hrun hap f⟩, fun w hw => ?_⟩
    exact ⟨Option.some.inj (hw.symm.trans hl), trivial⟩
  | store f p =>
    obtain ⟨hl, hp, hpa⟩ := hok
    cases hs
    refine ⟨ps ++ [f], hp, hrun, hpa, hlog.store f p, hl, fun w hw => ?_⟩
    exact ⟨Option.some.inj (hw.symm.trans hl), trivial⟩
  | unlock =>
    cases hs
    exact ⟨ps, hpend, hrun, hap, hlog, trivial, fun w hw => (nomatch hw)⟩

/-- The event loop goes from one position to another, and neither is in the middle of the swap. -/
theorem Facts.goto {pc : LoopPc F} (h : Facts s ps rs todo) (hpend : s.pending = s.pendingLambda)
    (hpc : State.pending { s with loop := pc } = s.pendingLambda) (hok : LoopOk s ps rs todo pc)
    (hin : s.lambdaLock = some none → pc.Inside) : Facts { s with loop := pc } ps rs todo where
  pending := by rw [hpc, ← hpend]; exact h.pending
  running := h.running
  apart := by rw [hpc, ← hpend]; exact h.apart
  loop := by
    cases pc <;> exact hok
  posters := h.posters
  log := h.log
  holder := by
    rintro (_ | g) hw
    · exact hin hw
    · exact h.holder (some g) hw
  up := h.up

/-- **Step.** The function that runs is in `post`. -/
theorem facts_task {fs : Slice} {i : ℕ} {pc : PostPc F} (hgrow : ∀ c, c < grow c)
    (h : Facts s ps rs todo) (hpc : s.loop = .task fs i pc)
    (hs : loopStep grow s (.task fs i pc) = some t) : ∃ ps', Facts t ps' rs todo := by
  obtain ⟨⟨u, pc'⟩, hpost, rfl⟩ := Option.map_eq_some_iff.mp hs
  have hloop := h.loop
  rw [hpc] at hloop
  obtain ⟨hfs, hi, htodo, hok⟩ := hloop
  have hfree := hok.lock_free hpost
  have hframe := postStep_frame hpost
  have hpend : s.pending = s.pendingLambda := by rw [State.pending, hpc]
  obtain ⟨ps', e⟩ := postStep_effect hgrow (hpend ▸ h.pending) h.running (hpend ▸ h.apart) h.log hok
    hpost
  refine ⟨ps', e.pending, e.running, e.apart,
    ⟨hfs.trans hframe.runningLambda.symm, hi, htodo, e.post⟩, fun g => ?_, e.log, fun who hw => ?_,
    hframe.isShutdown.trans h.up⟩
  · simp only [hframe.poster]
    refine (h.posters g).of_not_locked fun he => ?_
    rcases hfree with hfree | hfree
    · exact absurd (hfree.symm.trans he) (by simp)
    · exact absurd (hfree.symm.trans he) (by simp)
  · obtain ⟨rfl, hin⟩ := e.after who hw
    exact hin

/-- The event loop holds the lock: no goroutine is inside `post`. -/
theorem Facts.posters_of_locked (h : Facts s ps rs todo) (hl : s.lambdaLock = some none)
    (heap : Heap F) (p : Slice) (a : ℕ) (ps' : List F) (locked : G → Prop) (g : G) :
    PostOk heap p a ps' (locked g) (s.poster g) :=
  (h.posters g).of_not_locked fun he => absurd (hl.symm.trans he) (by simp)

/-- **Step.** The event loop takes the lock. -/
theorem facts_runLambda (h : Facts s ps rs todo) (hpc : s.loop = .idle) (hfree : s.lambdaLock = none) :
    Facts { s with lambdaLock := some none, loop := .load } ps rs todo := by
  have hloop := h.loop
  rw [hpc] at hloop
  have hpend : s.pending = s.pendingLambda := by rw [State.pending, hpc]
  refine ⟨hpend ▸ h.pending, h.running, hpend ▸ h.apart, ⟨rfl, hloop⟩, fun g => ?_, h.log,
    fun who hw => ?_, h.up⟩
  · exact (h.posters g).of_not_locked fun he => absurd (hfree.symm.trans he) (by simp)
  · cases hw
    trivial

/-- **Step.** The swap: what was pending is to be run in the new round. -/
theorem facts_storeRunning {r p : Slice} (h : Facts s ps rs todo) (hpc : s.loop = .storeRunning r p) :
    Facts { s with runningLambda := p, rounds := s.rounds + 1, loop := .storePending r } [] ps ps := by
  have hloop := h.loop
  rw [hpc] at hloop
  obtain ⟨hl, rfl, rfl, rfl, rfl⟩ := hloop
  have hpend : s.pending = s.pendingLambda := by rw [State.pending, hpc]
  obtain ⟨old, n, hposted, hran, -⟩ := h.log
  refine ⟨h.running, hpend ▸ h.pending, (hpend ▸ h.apart).symm, ⟨hl, rfl⟩,
    h.posters_of_locked hl _ _ _ _ _, ⟨old, s.rounds, ?_, hran, fun _ => rfl⟩, fun who hw => ?_, h.up⟩
  · simpa using hposted
  · cases hl.symm.trans hw
    trivial

/-- **Step.** A function of the round is called. -/
theorem facts_call {fs : Slice} {i : ℕ} {f : F} (h : Facts s ps rs todo)
    (hpc : s.loop = .check fs i f) :
    Facts { s with loop := .task fs i .idle, ran := s.ran ++ [(f, s.rounds)] } ps rs
      (rs.drop (i + 1)) := by
  have hloop := h.loop
  rw [hpc] at hloop
  obtain ⟨hfs, hf, rfl⟩ := hloop
  have hpend : s.pending = s.pendingLambda := by rw [State.pending, hpc]
  obtain ⟨hi, hget⟩ := List.getElem?_eq_some_iff.mp hf
  have hdrop : rs.drop i = f :: rs.drop (i + 1) := by
    rw [List.drop_eq_getElem_cons hi, hget]
  obtain ⟨old, n, hposted, hran, hn⟩ := h.log
  rw [hdrop] at hposted hn
  have hround : n + 1 = s.rounds := hn (List.cons_ne_nil _ _)
  refine ⟨hpend ▸ h.pending, h.running, hpend ▸ h.apart, ⟨hfs, hi, rfl, trivial⟩, h.posters,
    ⟨old ++ [(f, n)], n, ?_, ?_, fun _ => hround⟩, ?_, h.up⟩
  · simpa using hposted
  · simp [hran, hround]
  · rintro (_ | g) hw
    · have := h.holder none hw
      rw [State.Inside, hpc] at this
      exact this.elim
    · exact h.holder (some g) hw

/-- **Step.** The function that runs goes on from where it does not post. -/
theorem facts_leave {fs : Slice} {i : ℕ} {pc : LoopPc F} (h : Facts s ps rs todo)
    (hpc : s.loop = .task fs i .idle)
    (hok : LoopOk s ps rs todo (.task fs i .idle) → LoopOk s ps rs todo pc)
    (hpend : State.pending { s with loop := pc } = s.pendingLambda) :
    Facts { s with loop := pc } ps rs todo := by
  refine h.goto ?_ hpend (hok (hpc ▸ h.loop)) fun hl => ?_
  · rw [State.pending, hpc]
  · have hin := h.holder none hl
    rw [State.Inside, hpc] at hin
    exact hin.elim

/-- **Step of the event loop.** -/
theorem facts_loop (hgrow : ∀ c, c < grow c) (h : Facts s ps rs todo)
    (hs : loopStep grow s s.loop = some t) : ∃ ps' rs' todo', Facts t ps' rs' todo' := by
  have hloop := h.loop
  have hnot : ¬s.loop.Inside → ¬s.lambdaLock = some none := fun hin hl => hin (h.holder none hl)
  cases hpc : s.loop with
  | idle | panicked =>
    rw [hpc] at hs
    cases hs
  | load =>
    rw [hpc] at hs hloop
    cases hs
    have hpend : s.pending = s.pendingLambda := by rw [State.pending, hpc]
    exact ⟨ps, rs, todo, h.goto hpend rfl ⟨hloop.1, rfl, rfl, hloop.2⟩ fun _ => trivial⟩
  | storeRunning r p =>
    rw [hpc] at hs
    cases hs
    exact ⟨[], ps, ps, facts_storeRunning h hpc⟩
  | storePending r =>
    rw [hpc] at hs hloop
    cases hs
    have hpend : s.pending = r := by rw [State.pending, hpc]
    refine ⟨ps, rs, todo, hpend ▸ h.pending, h.running, hpend ▸ h.apart, hloop,
      h.posters_of_locked hloop.1 _ _ _ _ _, h.log, fun who hw => ?_, h.up⟩
    cases hloop.1.symm.trans hw
    trivial
  | unlock =>
    rw [hpc] at hs hloop
    cases hs
    have hpend : s.pending = s.pendingLambda := by rw [State.pending, hpc]
    exact ⟨ps, rs, todo, hpend ▸ h.pending, h.running, hpend ▸ h.apart, hloop.2,
      h.posters_of_locked hloop.1 _ _ _ _ _, h.log, fun who hw => (nomatch hw), h.up⟩
  | range =>
    rw [hpc] at hs hloop hnot
    cases hs
    have hpend : s.pending = s.pendingLambda := by rw [State.pending, hpc]
    exact ⟨ps, rs, todo, h.goto hpend rfl ⟨rfl, Nat.zero_le _, hloop⟩ fun hl => absurd hl (hnot id)⟩
  | next fs i =>
    rw [hpc] at hs hloop hnot
    obtain ⟨rfl, hi, rfl⟩ := hloop
    have hpend : s.pending = s.pendingLambda := by rw [State.pending, hpc]
    have hlen := h.running.len
    simp only [loopStep] at hs
    by_cases hlt : i < s.runningLambda.len
    · have hf := List.getElem?_eq_getElem (hlen ▸ hlt)
      rw [if_pos hlt, h.running.get hf] at hs
      cases hs
      exact ⟨ps, rs, rs.drop i, h.goto hpend rfl ⟨rfl, hf, rfl⟩ fun hl => absurd hl (hnot id)⟩
    · rw [if_neg hlt] at hs
      cases hs
      have hnil : rs.drop i = [] := List.drop_of_length_le (by omega)
      exact ⟨ps, rs, rs.drop i, h.goto hpend rfl hnil fun hl => absurd hl (hnot id)⟩
  | check fs i f =>
    rw [hpc, loopStep, if_neg (by rw [h.up]; simp)] at hs
    cases hs
    exact ⟨ps, rs, rs.drop (i + 1), facts_call h hpc⟩
  | task fs i pc =>
    rw [hpc] at hs
    obtain ⟨ps', h'⟩ := facts_task hgrow h hpc hs
    exact ⟨ps', rs, todo, h'⟩
  | truncate =>
    rw [hpc] at hs hloop hnot
    cases hs
    have hpend : s.pending = s.pendingLambda := by rw [State.pending, hpc]
    refine ⟨ps, [], todo, hpend ▸ h.pending, h.running.clear, hpend ▸ h.apart, ⟨rfl, hloop⟩, h.posters,
      h.log, ?_, h.up⟩
    rintro (_ | g) hw
    · exact absurd hw (hnot id)
    · exact h.holder (some g) hw

end Steps

section Goroutines

variable [DecidableEq G] {grow : ℕ → ℕ} {s t : State G F} {ps rs todo : List F} {g : G}

@[simp] theorem State.poster_setPoster (s : State G F) (g : G) (pc : PostPc F) :
    (s.setPoster g pc).poster g = pc := Function.update_self ..

theorem State.poster_setPoster_of_ne (s : State G F) {g g' : G} (pc : PostPc F) (hne : g' ≠ g) :
    (s.setPoster g pc).poster g' = s.poster g' := Function.update_of_ne hne ..

/-- **Step.** A goroutine in `post`. -/
theorem facts_goroutine (hgrow : ∀ c, c < grow c) (h : Facts s ps rs todo)
    (hs : step grow s (.goroutine g) = some t) : ∃ ps', Facts t ps' rs todo := by
  obtain ⟨⟨u, pc'⟩, hpost, rfl⟩ := Option.map_eq_some_iff.mp hs
  have hfree := (h.posters g).lock_free hpost
  have hframe := postStep_frame hpost
  have hl : ∀ w, w ≠ some g → s.lambdaLock ≠ some w := by
    rintro w hw he
    rcases hfree with hfree | hfree
    · exact absurd (hfree.symm.trans he) (by simp)
    · exact hw (Option.some.inj (he.symm.trans hfree))
  have hpend := h.loop.pending_eq (hl none (by simp))
  obtain ⟨ps', e⟩ := postStep_effect hgrow (hpend ▸ h.pending) h.running (hpend ▸ h.apart) h.log
    (h.posters g) hpost
  have hloop : LoopOk (u.setPoster g pc') ps' rs todo (u.setPoster g pc').loop := by
    rw [show (u.setPoster g pc').loop = s.loop from hframe.loop]
    exact h.loop.of_not_locked (hl none (by simp)) hframe.runningLambda
  have hpend' : (u.setPoster g pc').pending = u.pendingLambda :=
    hloop.pending_eq fun he => absurd (e.after none he).1 (by simp)
  refine ⟨ps', ?_, e.running, ?_, hloop, fun g' => ?_, e.log, fun who hw => ?_, ?_⟩
  · rw [hpend']
    exact e.pending
  · rw [hpend']
    exact e.apart
  · by_cases hg : g' = g
    · rw [hg, State.poster_setPoster]
      exact e.post
    · rw [State.poster_setPoster_of_ne _ _ hg, hframe.poster]
      exact (h.posters g').of_not_locked (hl (some g') (by simpa using hg))
  · obtain ⟨rfl, hin⟩ := e.after who hw
    rw [State.Inside, State.poster_setPoster]
    exact hin
  · exact hframe.isShutdown.trans h.up

/-- **Step.** A goroutine calls `post`. -/
theorem facts_post (h : Facts s ps rs todo) (hpc : s.poster g = .idle) (f : F) :
    Facts (s.setPoster g (.lock f)) ps rs todo := by
  refine ⟨h.pending, h.running, h.apart, ?_, fun g' => ?_, h.log, fun who hw => ?_, h.up⟩
  · have hloop := h.loop
    show LoopOk _ ps rs todo s.loop
    cases hl : s.loop <;> rw [hl] at hloop <;> exact hloop
  · by_cases hg : g' = g
    · rw [hg, State.poster_setPoster]
      trivial
    · rw [State.poster_setPoster_of_ne _ _ hg]
      exact h.posters g'
  · have hin := h.holder who hw
    rcases who with _ | g'
    · exact hin
    · by_cases hg : g' = g
      · rw [State.Inside, hg, hpc] at hin
        exact hin.elim
      · rw [State.Inside, State.poster_setPoster_of_ne _ _ hg]
        exact hin

/-- The functions are in order. -/
def Inv (s : State G F) : Prop := ∃ ps rs todo, Facts s ps rs todo

/-- **Step.** -/
theorem facts_step {a : Act G F} (hgrow : ∀ c, c < grow c) (h : Inv s) (ha : a ≠ .shutdown)
    (hs : step grow s a = some t) : Inv t := by
  obtain ⟨ps, rs, todo, h⟩ := h
  cases a with
  | post g f =>
    obtain ⟨hpc, rfl⟩ := step_post hs
    exact ⟨ps, rs, todo, facts_post h hpc f⟩
  | goroutine g =>
    obtain ⟨ps', h'⟩ := facts_goroutine hgrow h hs
    exact ⟨ps', rs, todo, h'⟩
  | runLambda =>
    obtain ⟨hpc, hfree, rfl⟩ := step_runLambda hs
    exact ⟨ps, rs, todo, facts_runLambda h hpc hfree⟩
  | loop => exact facts_loop hgrow h hs
  | taskPost f =>
    obtain ⟨fs, i, hpc, rfl⟩ := step_taskPost hs
    exact ⟨ps, rs, todo, facts_leave h hpc (fun hok => ⟨hok.1, hok.2.1, hok.2.2.1, trivial⟩) rfl⟩
  | taskReturn =>
    obtain ⟨fs, i, hpc, rfl⟩ := step_taskReturn hs
    exact ⟨ps, rs, todo, facts_leave h hpc (fun hok => ⟨hok.1, hok.2.1, hok.2.2.1⟩) rfl⟩
  | shutdown => exact absurd rfl ha

theorem facts_initial (G F : Type*) : Facts (initial G F) [] [] [] where
  pending := (GoSlice.holds_make [] 32).concat _
  running := GoSlice.holds_make _ 32
  apart := Nat.zero_ne_one
  loop := ⟨rfl, rfl⟩
  posters _ := trivial
  log := ⟨[], 0, rfl, rfl, fun h => absurd rfl h⟩
  holder _ h := nomatch h
  up := rfl

/-- **Run.** -/
theorem facts_reachable (hgrow : ∀ c, c < grow c)
    (hr : (machine G F grow).ReachableWhen (fun _ a => a ≠ .shutdown) s) : Inv s := by
  apply hr.invariant Inv
  · rintro s rfl
    exact ⟨[], [], [], facts_initial G F⟩
  · intro s a t h ha hs
    exact facts_step hgrow h ha hs

end Goroutines

/-! ## Order and rounds -/

/-- What has run is what was posted first, in that order, each in the round after the one in
    which it was posted; the others were posted in this round or the one before. -/
structure InOrder (s : State G F) : Prop where
  ran : s.ran = (s.posted.take s.ran.length).map fun p => (p.1, p.2 + 1)
  waiting : ∀ p ∈ s.posted.drop s.ran.length, p.2 ≤ s.rounds ∧ s.rounds ≤ p.2 + 1
  no_panic : s.loop ≠ .panicked

section Progress

variable {grow : ℕ → ℕ} {s t : State G F} {ps rs todo : List F} {N : ℕ}

theorem Facts.inOrder (h : Facts s ps rs todo) : InOrder s := by
  obtain ⟨old, n, hposted, hran, hn⟩ := h.log
  have hlen : s.ran.length = old.length := by rw [hran, List.length_map]
  refine ⟨?_, fun p hp => ?_, fun hpc => ?_⟩
  · rw [hlen, hposted, List.take_left' rfl, hran]
  · rw [hlen, hposted, List.drop_left' rfl, List.mem_append, List.mem_map, List.mem_map] at hp
    rcases hp with ⟨f, hf, rfl⟩ | ⟨f, -, rfl⟩
    · have hround := hn (List.ne_nil_of_mem hf)
      exact ⟨by omega, by omega⟩
    · exact ⟨Nat.le_refl _, Nat.le_succ _⟩
  · have hloop := h.loop
    rw [hpc] at hloop
    exact hloop

theorem Facts.length_posted (h : Facts s ps rs todo) :
    s.posted.length = s.ran.length + todo.length + ps.length := by
  obtain ⟨old, n, hposted, hran, -⟩ := h.log
  rw [hposted, hran]
  simp [Nat.add_assoc]

/-! ## Progress -/

/-- How many steps the event loop is from the next call of a function, or from the end of the
    round; `len` is the length of `runningLambda`. -/
def LoopPc.left (len : ℕ) : LoopPc F → ℕ
  | .panicked => 0
  | .check .. => 1
  | .next fs i => if i < fs.len then 2 else 10
  | .range => if 0 < len then 3 else 11
  | .unlock => if 0 < len then 4 else 12
  | .storePending _ => if 0 < len then 5 else 13
  | .storeRunning .. => 6
  | .load => 7
  | .idle => 8
  | .truncate => 9
  | .task _ _ pc => 11 + pc.left

/-- How many steps the event loop takes at most until `N` functions have run, if these post
    nothing. -/
def State.left (N : ℕ) (s : State G F) : ℕ :=
  11 * (N - s.ran.length) + s.loop.left s.runningLambda.len

/-- A step of the event loop, other than the call of `post` by a function. -/
def Act.ofLoop : Act G F → Bool
  | .runLambda | .loop | .taskReturn => true
  | .post .. | .goroutine _ | .taskPost _ | .shutdown => false

def Act.ofTask : Act G F → Bool
  | .taskPost _ => true
  | .post .. | .goroutine _ | .runLambda | .loop | .taskReturn | .shutdown => false

theorem LoopPc.left_le (pc : LoopPc F) (len : ℕ) : pc.left len ≤ 16 := by
  cases pc with
  | task fs i pc => cases pc <;> simp [LoopPc.left, PostPc.left]
  | next fs i | range | unlock | storePending r =>
    simp only [LoopPc.left]
    split_ifs <;> omega
  | panicked | check fs i f | storeRunning r p | load | idle | truncate => simp [LoopPc.left]

/-- **Step of the event loop**, before `N` functions have run. -/
theorem left_loop (h : Facts s ps rs todo) (hran : s.ran.length < N) (hN : N ≤ s.posted.length)
    (hs : loopStep grow s s.loop = some t) : t.left N + 1 ≤ s.left N := by
  have hloop := h.loop
  unfold State.left
  cases hpc : s.loop with
  | idle | panicked =>
    rw [hpc] at hs
    cases hs
  | load | truncate =>
    rw [hpc] at hs
    cases hs
    simp only [LoopPc.left]
    omega
  | storePending r | unlock | range =>
    rw [hpc] at hs
    cases hs
    simp only [LoopPc.left]
    split_ifs <;> omega
  | storeRunning r p =>
    rw [hpc] at hs hloop
    cases hs
    obtain ⟨-, -, rfl, rfl, rfl⟩ := hloop
    -- something waits, and it can only be in `pendingLambda`
    have hpend : s.pending = s.pendingLambda := by rw [State.pending, hpc]
    have hpos : 0 < s.pendingLambda.len := by
      have hlen := h.pending.len
      have htotal := h.length_posted
      rw [hpend] at hlen
      simp only [List.length_nil] at htotal
      omega
    simp only [LoopPc.left, if_pos hpos]
    omega
  | next fs i =>
    rw [hpc] at hs
    simp only [loopStep] at hs
    by_cases hlt : i < fs.len
    · rw [if_pos hlt] at hs
      split at hs <;> cases hs <;> simp only [LoopPc.left, if_pos hlt] <;> omega
    · rw [if_neg hlt] at hs
      cases hs
      simp only [LoopPc.left, if_neg hlt]
      omega
  | check fs i f =>
    rw [hpc, loopStep, if_neg (by rw [h.up]; simp)] at hs
    cases hs
    simp only [LoopPc.left, PostPc.left, List.length_append, List.length_singleton]
    omega
  | task fs i pc =>
    rw [hpc] at hs
    obtain ⟨⟨u, pc'⟩, hpost, rfl⟩ := Option.map_eq_some_iff.mp hs
    have hframe := postStep_frame hpost
    have hleft := hframe.left
    simp only [LoopPc.left, hframe.ran]
    omega

/-- What a step of the event loop leaves to the goroutines, in any state. -/
structure LoopFrame (s t : State G F) : Prop where
  poster : t.poster = s.poster
  posted : s.posted <+: t.posted
  ran : s.ran <+: t.ran
  lock : ∀ g, t.lambdaLock = some (some g) → s.lambdaLock = some (some g)

theorem loopStep_frame {pc : LoopPc F} (hs : loopStep grow s pc = some t) : LoopFrame s t := by
  cases pc with
  | idle | panicked => cases hs
  | load | storeRunning r p | storePending r | range | truncate =>
    cases hs
    exact ⟨rfl, List.prefix_rfl, List.prefix_rfl, fun _ h => h⟩
  | unlock =>
    cases hs
    exact ⟨rfl, List.prefix_rfl, List.prefix_rfl, fun _ h => (nomatch h)⟩
  | next fs i =>
    simp only [loopStep] at hs
    split_ifs at hs
    · split at hs <;> cases hs <;> exact ⟨rfl, List.prefix_rfl, List.prefix_rfl, fun _ h => h⟩
    · cases hs
      exact ⟨rfl, List.prefix_rfl, List.prefix_rfl, fun _ h => h⟩
  | check fs i f =>
    simp only [loopStep] at hs
    split_ifs at hs
    · cases hs
      exact ⟨rfl, List.prefix_rfl, List.prefix_rfl, fun _ h => h⟩
    · cases hs
      exact ⟨rfl, List.prefix_rfl, List.prefix_append _ _, fun _ h => h⟩
  | task fs i pc =>
    obtain ⟨⟨u, pc'⟩, hpost, rfl⟩ := Option.map_eq_some_iff.mp hs
    have hframe := postStep_frame hpost
    refine ⟨hframe.poster, hframe.posted, hframe.ran ▸ List.prefix_rfl, fun g hg => ?_⟩
    exact (hframe.lock _ hg).resolve_right (by simp)

/-- A `post` that has the lock can go on. -/
theorem PostPc.Inside.go {pc : PostPc F} (h : pc.Inside) (who : Option G) :
    ∃ r, postStep grow who s pc = some r := by
  cases pc with
  | idle | lock f => exact h.elim
  | load f | append f p | store f p | unlock => exact ⟨_, rfl⟩

variable [DecidableEq G]

/-- **Step**, of anybody, before `N` functions have run. -/
theorem left_step {a : Act G F} (h : Inv s) (hran : s.ran.length < N) (hN : N ≤ s.posted.length)
    (hs : step grow s a = some t) :
    t.left N + (if a.ofLoop then 1 else 0) ≤ s.left N + 5 * (if a.ofTask then 1 else 0) := by
  obtain ⟨ps, rs, todo, h⟩ := h
  cases a with
  | post g f =>
    obtain ⟨-, rfl⟩ := step_post hs
    exact Nat.le_refl _
  | goroutine g =>
    obtain ⟨⟨u, pc'⟩, hpost, rfl⟩ := Option.map_eq_some_iff.mp hs
    have hframe := postStep_frame hpost
    show State.left N u ≤ State.left N s
    rw [State.left, State.left, hframe.ran, hframe.loop, hframe.runningLambda]
  | runLambda =>
    obtain ⟨hpc, -, rfl⟩ := step_runLambda hs
    simp [State.left, hpc, LoopPc.left, Act.ofLoop, Act.ofTask]
  | loop => simpa [Act.ofLoop, Act.ofTask] using left_loop h hran hN hs
  | taskPost f =>
    obtain ⟨fs, i, hpc, rfl⟩ := step_taskPost hs
    simp [State.left, hpc, LoopPc.left, PostPc.left, Act.ofLoop, Act.ofTask]
  | taskReturn =>
    obtain ⟨fs, i, hpc, rfl⟩ := step_taskReturn hs
    simp only [State.left, hpc, LoopPc.left, PostPc.left, Act.ofLoop, Act.ofTask]
    split_ifs <;> simp
  | shutdown =>
    cases hs
    exact Nat.le_refl _

theorem step_frame {a : Act G F} (ha : a.ofLoop = true) (hs : step grow s a = some t) :
    LoopFrame s t := by
  cases a with
  | post g f | goroutine g | taskPost f | shutdown => cases ha
  | runLambda =>
    obtain ⟨-, -, rfl⟩ := step_runLambda hs
    exact ⟨rfl, List.prefix_rfl, List.prefix_rfl, fun _ h => (nomatch h)⟩
  | loop => exact loopStep_frame hs
  | taskReturn =>
    obtain ⟨fs, i, -, rfl⟩ := step_taskReturn hs
    exact ⟨rfl, List.prefix_rfl, List.prefix_rfl, fun _ h => h⟩

/-- The logs only grow. -/
theorem logs_step {a : Act G F} (hs : step grow s a = some t) :
    s.posted <+: t.posted ∧ s.ran <+: t.ran := by
  cases a with
  | runLambda | loop | taskReturn =>
    have hframe := step_frame rfl hs
    exact ⟨hframe.posted, hframe.ran⟩
  | goroutine g =>
    obtain ⟨⟨u, pc'⟩, hpost, rfl⟩ := Option.map_eq_some_iff.mp hs
    have hframe := postStep_frame hpost
    exact ⟨hframe.posted, hframe.ran ▸ List.prefix_rfl⟩
  | post g f =>
    obtain ⟨-, rfl⟩ := step_post hs
    exact ⟨List.prefix_rfl, List.prefix_rfl⟩
  | taskPost f =>
    obtain ⟨fs, i, -, rfl⟩ := step_taskPost hs
    exact ⟨List.prefix_rfl, List.prefix_rfl⟩
  | shutdown =>
    cases hs
    exact ⟨List.prefix_rfl, List.prefix_rfl⟩

/-- **Run.** The event loop cannot go on for longer than `left` among the steps of others, with
    five more for every call of `post` by a function, before `N` functions have run. -/
theorem left_run (hgrow : ∀ c, c < grow c) {as : List (Act G F)} (h : Inv s)
    (hN : N ≤ s.posted.length) (has : ∀ a ∈ as, a ≠ .shutdown)
    (hr : (machine G F grow).run s as = some t) :
    N ≤ t.ran.length ∨ t.left N + as.countP Act.ofLoop ≤ s.left N + 5 * as.countP Act.ofTask := by
  refine Sys.run_budget (State.left N) 5 (fun u => Inv u ∧ N ≤ u.posted.length)
    (fun u => N ≤ u.ran.length) ?_ ?_ ?_ ⟨h, hN⟩ has hr
  · intro u a v hu ha hv
    exact ⟨facts_step hgrow hu.1 ha hv, hu.2.trans (logs_step hv).1.length_le⟩
  · intro u a v hu hv
    exact hu.trans (logs_step hv).2.length_le
  · intro u a v hu hran _ hv
    exact left_step hu.1 (Nat.lt_of_not_le hran) hu.2 hv

/-- The steps of the event loop, and those of the goroutine that has the lock in `s`. -/
def Advances (s : State G F) : Act G F → Prop
  | .runLambda | .loop | .taskReturn => True
  | .goroutine g => s.lambdaLock = some (some g)
  | .post .. | .taskPost _ | .shutdown => False

/-- Nobody waits for a lock that nobody gives back. -/
theorem Facts.advances (h : Facts s ps rs todo) : ∃ a t, Advances s a ∧ step grow s a = some t := by
  by_cases hg : ∃ g, s.lambdaLock = some (some g)
  · obtain ⟨g, hg⟩ := hg
    obtain ⟨r, hr⟩ := (h.holder _ hg).go (some g)
    exact ⟨.goroutine g, _, hg, by rw [step, hr]; rfl⟩
  · have hfree : ¬s.loop.Inside → s.lambdaLock.isNone = true := by
      intro hin
      rcases hl : s.lambdaLock with _ | _ | g
      · rfl
      · exact absurd (h.holder none hl) hin
      · exact absurd ⟨g, hl⟩ hg
    have hloop := h.loop
    cases hpc : s.loop with
    | idle =>
      rw [hpc] at hfree
      exact ⟨.runLambda, _, trivial, by rw [step, hpc]; exact if_pos (hfree id)⟩
    | panicked =>
      rw [hpc] at hloop
      exact hloop.elim
    | load | storeRunning r p | storePending r | unlock | range | truncate =>
      exact ⟨.loop, _, trivial, by rw [step, hpc, loopStep]⟩
    | next fs i =>
      by_cases hlt : i < fs.len
      · cases hf : fs.get s.heap i with
        | none | some f => exact ⟨.loop, _, trivial, by rw [step, hpc, loopStep, if_pos hlt, hf]⟩
      · exact ⟨.loop, _, trivial, by rw [step, hpc, loopStep, if_neg hlt]⟩
    | check fs i f =>
      exact ⟨.loop, _, trivial, by rw [step, hpc, loopStep, if_neg (by rw [h.up]; simp)]⟩
    | task fs i pc =>
      cases pc with
      | idle => exact ⟨.taskReturn, _, trivial, by rw [step, hpc]⟩
      | lock f =>
        rw [hpc] at hfree
        exact ⟨.loop, _, trivial,
          by rw [step, hpc, loopStep, postStep, if_pos (hfree id), Option.map_some]⟩
      | load f | append f p | store f p | unlock =>
        exact ⟨.loop, _, trivial, by rw [step, hpc, loopStep, postStep, Option.map_some]⟩

/-- How many steps the goroutine that had the lock is from the return of its `post`. -/
def State.holderLeft (lock : Option (Option G)) (s : State G F) : ℕ :=
  match lock with
  | some (some g) => (s.poster g).left
  | some none | none => 0

/-- **Step** of the event loop, or of the goroutine that had the lock in `s₀`. -/
theorem advances_step {s₀ : State G F} {a : Act G F} (h : Inv s) (hran : s.ran.length < N)
    (hN : N ≤ s.posted.length)
    (hl : ∀ g, s.lambdaLock = some (some g) → s₀.lambdaLock = some (some g))
    (ha : Advances s₀ a) (hs : step grow s a = some t) :
    (∀ g, t.lambdaLock = some (some g) → s₀.lambdaLock = some (some g)) ∧
    t.left N + t.holderLeft s₀.lambdaLock < s.left N + s.holderLeft s₀.lambdaLock := by
  have hleft := left_step h hran hN hs
  cases a with
  | post g f | taskPost f | shutdown => exact ha.elim
  | goroutine g =>
    obtain ⟨⟨u, pc'⟩, hpost, rfl⟩ := Option.map_eq_some_iff.mp hs
    have hframe := postStep_frame hpost
    refine ⟨fun g' hg' => ?_, ?_⟩
    · rcases hframe.lock _ hg' with hg | hg
      · exact hl g' hg
      · exact hg ▸ ha
    · have hpc := hframe.left
      have ha' : s₀.lambdaLock = some (some g) := ha
      simp only [Act.ofLoop, Act.ofTask] at hleft
      simp only [ha', State.holderLeft, State.poster_setPoster]
      simp only [Bool.false_eq_true, if_false] at hleft
      omega
  | runLambda | loop | taskReturn =>
    have hframe := step_frame rfl hs
    refine ⟨fun g hg => hl g (hframe.lock g hg), ?_⟩
    simp only [State.holderLeft, hframe.poster]
    exact Nat.add_lt_add_right (Nat.lt_of_succ_le hleft) _

/-- **Main theorem.** In every run without `shutdown`, the functions run in the order in which they
    were posted, each once, in the round after the one in which they were posted. From any state of
    such a run, every function posted by then has run once the event loop has taken the number of
    steps given, however others post meanwhile; and the event loop and the goroutine that has the
    lock can always go on to there. -/
theorem posted_run_once_in_order (hgrow : ∀ c, c < grow c)
    (hr : (machine G F grow).ReachableWhen (fun _ a => a ≠ .shutdown) s) :
    InOrder s ∧
    (∀ as t, (machine G F grow).run s as = some t → (∀ a ∈ as, a ≠ .shutdown) →
      11 * (s.posted.length - s.ran.length) + 5 * as.countP Act.ofTask + 16 < as.countP Act.ofLoop →
      s.posted.length ≤ t.ran.length) ∧
    (machine G F grow).Inevitable (Advances s) (fun t => s.posted.length ≤ t.ran.length) s := by
  obtain ⟨ps, rs, todo, h⟩ := facts_reachable hgrow hr
  have hinv : Inv s := ⟨ps, rs, todo, h⟩
  refine ⟨h.inOrder, fun as t hrun has hlong => ?_, ?_⟩
  · refine (left_run hgrow hinv (Nat.le_refl _) has hrun).resolve_right fun hleft => ?_
    have hle := s.loop.left_le s.runningLambda.len
    rw [State.left, State.left] at hleft
    omega
  · refine Sys.inevitable_of_decreasing
      (fun t => t.left s.posted.length + t.holderLeft s.lambdaLock)
      (fun t => Inv t ∧ s.posted.length ≤ t.posted.length ∧
        ∀ g, t.lambdaLock = some (some g) → s.lambdaLock = some (some g))
      (fun t ht => .inr ?_) (fun t a u ht hnot ha hu => ?_) ⟨hinv, Nat.le_refl _, fun _ hg => hg⟩
    · obtain ⟨⟨ps, rs, todo, h⟩, -, hl⟩ := ht
      obtain ⟨a, u, ha, hu⟩ := h.advances
      refine ⟨a, u, ?_, hu⟩
      cases a with
      | goroutine g => exact hl g ha
      | post g f | taskPost f | shutdown | runLambda | loop | taskReturn => exact ha
    · obtain ⟨hinv, hN, hl⟩ := ht
      obtain ⟨hl', hlt⟩ := advances_step hinv (Nat.lt_of_not_le hnot) hN hl ha hu
      have hup : a ≠ .shutdown := by
        rintro rfl
        exact ha
      exact ⟨⟨facts_step hgrow hinv hup hu, hN.trans (logs_step hu).1.length_le, hl'⟩, hlt⟩

/-- A goroutine posts 7, which posts 8 when it runs. -/
def nestedRun : List (Act Unit ℕ) :=
  Act.post () 7 :: List.replicate 5 (Act.goroutine ()) ++ Act.runLambda :: List.replicate 7 Act.loop ++
    Act.taskPost 8 :: List.replicate 5 Act.loop

theorem posted_run_once_in_order_nested :
    ∃ s, (machine Unit ℕ fun c => 2 * c + 1).ReachableWhen (fun _ a => a ≠ .shutdown) s ∧
      s.posted = [(7, 0), (8, 1)] ∧ s.ran = [(7, 1)] ∧ InOrder s ∧
      (machine Unit ℕ fun c => 2 * c + 1).Inevitable (Advances s) (fun t => 2 ≤ t.ran.length) s := by
  obtain ⟨s, hs, hposted, hran⟩ := (machine Unit ℕ fun c => 2 * c + 1).exists_reachableWhen_of_run
    (fun _ a => a ≠ .shutdown) (initial Unit ℕ) nestedRun
    (fun s => s.posted = [(7, 0), (8, 1)] ∧ s.ran = [(7, 1)]) rfl (by decide) (by decide)
  obtain ⟨hord, -, hprog⟩ := posted_run_once_in_order (fun c => by omega) hs
  rw [hposted] at hprog
  exact ⟨s, hs, hposted, hran, hord, hprog⟩

end Progress

end Shmipc.EventDispatcher.Lambda
