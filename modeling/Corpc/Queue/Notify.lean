/-
# A queue that wakes its consumer

`Co_MPSC_NoLockQueue` in `corpc_queue.h` with a consumer like `Sender::taskQueueRoutine`.  A
producer pushes its item and then writes a byte to a pipe that does not block: a byte that finds
the pipe full is dropped.
-/

import Corpc.Queue.Refinement

namespace Corpc.Queue

open Corpc.Basis Function Option State

structure Pipe where
  capacity : ℕ
  capacity_pos : 0 < capacity
  bytes : ℕ
  bytes_le : bytes ≤ capacity

/-- `pipe(queuePipe_.pipefd)`. -/
def Pipe.new (capacity : ℕ) (h : 0 < capacity) : Pipe := ⟨capacity, h, 0, Nat.zero_le _⟩

/-- `write(getWriteFd(), &buf, 1)`, which fails if the pipe is full. -/
def Pipe.write (p : Pipe) : Pipe :=
  if h : p.bytes < p.capacity then { p with bytes := p.bytes + 1, bytes_le := h } else p

/-- A read of `n` bytes. -/
def Pipe.read (p : Pipe) (n : ℕ) : Pipe :=
  { p with bytes := p.bytes - n, bytes_le := Nat.le_trans (Nat.sub_le _ _) p.bytes_le }

theorem Pipe.bytes_write_pos (p : Pipe) : 0 < p.write.bytes := by
  unfold Pipe.write
  split
  · exact Nat.succ_pos _
  · have hpos := p.capacity_pos
    omega

/-- Where the loop of `taskQueueRoutine` is. -/
inductive Reader
  /-- `read(readFd, &buf[0], 1024)`, suspended until the pipe is readable. -/
  | read
  /-- `queue.pop()` until null. -/
  | pop
  deriving DecidableEq

/-- The queue with its pipe.  `notifying p` says that producer `p` is back from
`MPSC_NoLockQueue::push` and has not written its byte. -/
structure CoQueue (ι A α : Type) where
  queue : State ι A α
  notifying : ι → Bool
  pipe : Pipe
  reader : Reader

/-- `Co_MPSC_NoLockQueue()`, with the consumer at its first read. -/
def CoQueue.init (ι A α : Type) (capacity : ℕ) (h : 0 < capacity) : CoQueue ι A α :=
  ⟨State.init ι A α, fun _ => false, Pipe.new capacity h, .read⟩

inductive CoAction (ι A α : Type)
  /-- A producer enters `push(v)`. -/
  | push (p : ι) (v : α)
  /-- `new Node` returns `a`. -/
  | new (p : ι) (a : A) (cell : Cell A (Option α))
  /-- The next statement of a producer in `MPSC_NoLockQueue::push`. -/
  | produce (p : ι) (spurious : Bool)
  | write (p : ι)
  /-- The consumer reads `n` bytes. -/
  | read (n : ℕ)
  /-- The read returns -1: with `EAGAIN` it is done again, with another error the queue is
  popped. -/
  | readError (again : Bool)
  | pop
  /-- The next statement of the consumer in `pop`. -/
  | consume (spurious : Bool) (moved : Option α)

section Step

variable {ι A α : Type} [DecidableEq ι] [DecidableEq A] [DecidableEq α]

def CoQueue.step (s : CoQueue ι A α) : CoAction ι A α → Option (CoQueue ι A α)
  | .push p v =>
    if s.notifying p then none
    else (s.queue.step (.push p (some v))).map fun q => { s with queue := q }
  | .new p a cell => (s.queue.step (.new p a cell)).map fun q => { s with queue := q }
  | .produce p spurious => (s.queue.step (.produce p spurious)).map fun q =>
    { s with
      queue := q
      notifying := if s.queue.producer p = .done then update s.notifying p true
        else s.notifying }
  | .write p =>
    if s.notifying p then
      some { s with notifying := update s.notifying p false, pipe := s.pipe.write }
    else none
  | .read n =>
    if s.reader = .read ∧ 0 < n ∧ n ≤ 1024 ∧ n ≤ s.pipe.bytes then
      some { s with pipe := s.pipe.read n, reader := .pop }
    else none
  | .readError again =>
    if s.reader = .read then some (if again then s else { s with reader := .pop }) else none
  | .pop =>
    if s.reader = .pop then (s.queue.step .pop).map fun q => { s with queue := q } else none
  | .consume spurious moved => (s.queue.step (.consume spurious moved)).map fun q =>
    -- the loop ends when `pop` returns null
    { s with
      queue := q
      reader := if s.queue.consumer = .done none then .read else s.reader }

end Step

variable {ι A α : Type}

def CoQueue.Between (s : CoQueue ι A α) (p : ι) : Prop :=
  s.queue.producer p = .done ∨ s.notifying p = true

def CoQueue.Attended (s : CoQueue ι A α) : Prop := 0 < s.pipe.bytes ∨ ∃ p, s.Between p

def CoQueue.Quiet (s : CoQueue ι A α) : Prop :=
  s.reader = .read ∨ s.queue.consumer = .take true ∨ s.queue.consumer = .done none

/-- What `pop` has taken and will return. -/
def Consumer.holding : Consumer A α → Option (Option α)
  | .unlink ret | .delete ret _ => some ret
  | _ => none

theorem access_eq_of_running {s t : State ι A α} {a : A} {f : Cell A (Option α) → State ι A α}
    (ht : s.access a f = t) (hrunning : t.fault = false) :
    ∃ cell, s.heap a = some cell ∧ f cell = t := by
  unfold access at ht
  split at ht
  · subst ht
    cases hrunning
  · rename_i cell hcell
    exact ⟨cell, hcell, ht⟩

variable [DecidableEq ι]

/-- A statement of `push`. -/
inductive State.Pushes (s : State ι A α) (p : ι) (t : State ι A α) : Prop
  | prepare {v : Option α} {pc : Producer A α} (hpc : (s.producer p).phase = .called (.push v))
      (hnext : pc.phase = .called (.push v)) (ht : t.producer = update s.producer p pc)
      (hhead : t.head = s.head) (hlog : t.log = s.log)
  | insert {v : Option α} (hpc : (s.producer p).phase = .called (.push v))
      (ht : t.producer = update s.producer p .done)
      (hlog : t.log = s.log ++ [.effect (some p) (.push v) none])
  | finish (hpc : s.producer p = .done) (ht : t.producer = update s.producer p .idle)
      (hhead : t.head = s.head) (hlog : t.log = s.log ++ [.ret (some p) none])

/-- A statement of `pop`. -/
inductive State.Pops (s t : State ι A α) : Prop
  | search (hholding : t.consumer.holding = none) (htake : t.consumer ≠ .take true)
      (hdone : t.consumer ≠ .done none) (hidle : s.consumer ≠ .done none) (hlog : t.log = s.log)
  /-- `head_` is null. -/
  | miss (hc : s.consumer = .testHead) (hhead : t.head = none) (hout : t.outqueue = s.outqueue)
      (hnext : t.consumer = .take true) (hlog : t.log = s.log ++ [.effect none .pop none])
  | giveUp {effected : Bool} (hc : s.consumer = .take effected) (hnone : s.outqueue = none)
      (hhead : t.head = s.head) (hout : t.outqueue = s.outqueue) (hnext : t.consumer = .done none)
      (hlog : t.log = s.log)
  | take {effected : Bool} {a : A} {v : Option α} (hc : s.consumer = .take effected)
      (hsome : s.outqueue = some a) (hnext : t.consumer = .unlink v)
      (hlog : t.log = s.log ++ [.effect none .pop v])
  | unlink {v : Option α} {a : A} (hc : s.consumer = .unlink v) (hnext : t.consumer = .delete v a)
      (hlog : t.log = s.log)
  | delete {v : Option α} {a : A} (hc : s.consumer = .delete v a) (hnext : t.consumer = .done v)
      (hlog : t.log = s.log)
  | finish {v : Option α} (hc : s.consumer = .done v) (hhead : t.head = s.head)
      (hout : t.outqueue = s.outqueue) (hnext : t.consumer = .idle)
      (hlog : t.log = s.log ++ [.ret none v])

variable [DecidableEq A]

theorem pushes_of_produce {s t : State ι A α} {p : ι} {spurious : Bool}
    (hs : s.produce p spurious = some t) (hrunning : t.fault = false) :
    s.Pushes p t ∧ t.outqueue = s.outqueue ∧ t.consumer = s.consumer := by
  unfold State.produce at hs
  cases hpc : s.producer p with
  | idle | new v => simp only [hpc] at hs; cases hs
  | setValue v a | setNext v a =>
    simp only [hpc] at hs
    obtain ⟨cell, -, rfl⟩ := access_eq_of_running (some.inj hs) hrunning
    exact ⟨.prepare (v := v) (by rw [hpc]; rfl) rfl rfl rfl rfl, rfl, rfl⟩
  | exchange v a =>
    simp only [hpc] at hs
    obtain ⟨cell, -, ht⟩ := access_eq_of_running (some.inj hs) hrunning
    split at ht
    · subst ht
      exact ⟨.insert (v := v) (by rw [hpc]; rfl) rfl rfl, rfl, rfl⟩
    · subst ht
      have hsame : s.producer = update s.producer p (.exchange v a) := by
        rw [← hpc, update_eq_self]
      exact ⟨.prepare (v := v) (by rw [hpc]; rfl) rfl hsame rfl rfl, rfl, rfl⟩
  | done =>
    simp only [hpc] at hs
    cases hs
    exact ⟨.finish hpc rfl rfl rfl, rfl, rfl⟩

omit [DecidableEq ι] in
theorem pops_of_consume {s t : State ι A α} {spurious : Bool} {moved : Option α}
    (hs : s.consume spurious moved = some t) (hrunning : t.fault = false) :
    s.Pops t ∧ t.producer = s.producer := by
  unfold State.consume at hs
  cases hc : s.consumer with
  | idle => simp only [hc] at hs; cases hs
  | start | detach =>
    simp only [hc] at hs
    cases hs
    split <;> exact ⟨.search rfl (by nofun) (by nofun) (by rw [hc]; nofun) rfl, rfl⟩
  | testHead =>
    simp only [hc] at hs
    cases hs
    split
    · rename_i hhead
      exact ⟨.miss hc hhead rfl rfl rfl, rfl⟩
    · exact ⟨.search rfl (by nofun) (by nofun) (by rw [hc]; nofun) rfl, rfl⟩
  | loadHead | detached | advance n1 n2 =>
    simp only [hc] at hs
    cases hs
    exact ⟨.search rfl (by nofun) (by nofun) (by rw [hc]; nofun) rfl, rfl⟩
  | reverse n1 =>
    cases n1 with
    | none =>
      simp only [hc] at hs
      cases hs
      exact ⟨.search rfl (by nofun) (by nofun) (by rw [hc]; nofun) rfl, rfl⟩
    | some n1 =>
      simp only [hc] at hs
      obtain ⟨cell, -, rfl⟩ := access_eq_of_running (some.inj hs) hrunning
      exact ⟨.search rfl (by nofun) (by nofun) (by rw [hc]; nofun) rfl, rfl⟩
  | relink n1 n2 =>
    simp only [hc] at hs
    obtain ⟨cell, -, rfl⟩ := access_eq_of_running (some.inj hs) hrunning
    exact ⟨.search rfl (by nofun) (by nofun) (by rw [hc]; nofun) rfl, rfl⟩
  | take effected =>
    simp only [hc] at hs
    split at hs
    · rename_i hout
      cases hs
      exact ⟨.giveUp hc hout rfl rfl rfl rfl, rfl⟩
    · rename_i a hout
      obtain ⟨cell, -, rfl⟩ := access_eq_of_running (some.inj hs) hrunning
      exact ⟨.take hc hout rfl rfl, rfl⟩
  | unlink v =>
    simp only [hc] at hs
    split at hs
    · cases hs
      cases hrunning
    · obtain ⟨cell, -, rfl⟩ := access_eq_of_running (some.inj hs) hrunning
      exact ⟨.unlink hc rfl rfl, rfl⟩
  | delete v tnode =>
    simp only [hc] at hs
    obtain ⟨cell, -, rfl⟩ := access_eq_of_running (some.inj hs) hrunning
    exact ⟨.delete hc rfl rfl, rfl⟩
  | done v =>
    simp only [hc] at hs
    cases hs
    exact ⟨.finish hc rfl rfl rfl rfl, rfl⟩

section Pushed

omit [DecidableEq ι] [DecidableEq A]

variable {log : List (Event (Option ι) (Op α) (Option α))}

theorem pushed_effects_insert (p : ι) (v : Option α) :
    pushed (effects (log ++ [.effect (some p) (.push v) none])) = pushed (effects log) ++ [v] := by
  rw [effects_append, pushed, List.filterMap_append]
  rfl

theorem pushed_effects_append {e : Event (Option ι) (Op α) (Option α)}
    (he : pushed (effects [e]) = []) : pushed (effects (log ++ [e])) = pushed (effects log) := by
  rw [effects_append, pushed, List.filterMap_append]
  exact (congrArg _ he).trans (List.append_nil _)

end Pushed

variable [DecidableEq α]

/-- **The invariant.**  No null is in the queue or on its way into or out of it, and a consumer
that will not look into the queue again before it has read is attended to. -/
structure CoQueue.Notified (s : CoQueue ι A α) : Prop where
  shape : ∃ inn rest out, Shape s.queue inn rest out
  args : ∀ p, (s.queue.producer p).phase ≠ .called (.push none)
  pushed : none ∉ pushed (effects s.queue.log)
  holding : s.queue.consumer.holding ≠ some none
  waiting : s.reader = .read → s.queue.consumer = .idle
  quiet : s.Quiet → s.queue.outqueue = none ∧ (s.queue.head ≠ none → s.Attended)

omit [DecidableEq A] in
theorem Shape.none_not_mem {s : State ι A α} {inn rest out : List (A × Option α)}
    (h : Shape s inn rest out) (hpushed : none ∉ pushed (effects s.log)) :
    none ∉ s.contents inn rest out := by
  have hsplit := Fifo.returned_append h.lin.effects
  rw [List.nil_append] at hsplit
  rw [hsplit, List.mem_append, not_or] at hpushed
  exact hpushed.2

omit [DecidableEq A] in
theorem Shape.taken_ne_none {s t : State ι A α} {inn rest out inn' rest' out' : List (A × Option α)}
    (h : Shape s inn rest out) (h' : Shape t inn' rest' out')
    (hpushed : none ∉ pushed (effects s.log)) {effected : Bool} (hc : s.consumer = .take effected)
    {a : A} (hout : s.outqueue = some a) {v : Option α}
    (hlog : t.log = s.log ++ [.effect none .pop v]) : v ≠ none := by
  have hchain := h.chain_out
  simp only [State.out, hc, hout] at hchain
  obtain ⟨w, q, cells, -, rfl, -⟩ := chain_some.1 hchain
  have hrun := h'.lin.effects
  rw [hlog, effects_append, run_append, h.lin.effects, bind_some, effects_cons_effect,
    run_cons] at hrun
  obtain ⟨c, hpop, -⟩ := bind_eq_some_iff.1 hrun
  rintro rfl
  rcases Fifo.step_pop_null hpop with hnil | ⟨others, hcons⟩
  · -- the node is one of the queue
    simp [contents, taken, hc] at hnil
  · refine h.none_not_mem hpushed ?_
    rw [hcons]
    exact List.mem_cons_self

namespace CoQueue.Notified

variable {s : CoQueue ι A α} {q : State ι A α} {p : ι}

omit [DecidableEq A] in
theorem init (capacity : ℕ) (h : 0 < capacity) : (CoQueue.init ι A α capacity h).Notified where
  shape := ⟨[], [], [], shape_init⟩
  args := fun _ => nofun
  pushed := nofun
  holding := nofun
  waiting := fun _ => rfl
  quiet := fun _ => ⟨rfl, fun hhead => absurd rfl hhead⟩

omit [DecidableEq A] in
theorem running (h : s.Notified) : s.queue.fault = false := by
  obtain ⟨inn, rest, out, hshape⟩ := h.shape
  exact hshape.fault

theorem shape_step (h : s.Notified) {act : Action ι A α} (hq : s.queue.step act = some q) :
    ∃ inn rest out, Shape q inn rest out := by
  obtain ⟨inn, rest, out, hshape⟩ := h.shape
  exact hshape.step hq

omit [DecidableEq A] in
/-- **A producer goes on.**  If its byte is still to come, that stays so; and if it puts a node
into the queue, its byte is to come. -/
theorem producer_step (h : s.Notified) (hshape : ∃ inn rest out, Shape q inn rest out)
    {pc : Producer A α} {notifying : ι → Bool}
    (hproducer : q.producer = update s.queue.producer p pc)
    (hpc : pc.phase ≠ .called (.push none)) (hpushed : none ∉ Queue.pushed (effects q.log))
    (hconsumer : q.consumer = s.queue.consumer) (hout : q.outqueue = s.queue.outqueue)
    (hhead : q.head = s.queue.head ∨ pc = .done)
    (hnotifying : ∀ p', s.notifying p' = true → notifying p' = true)
    (hbetween : s.queue.producer p = .done → notifying p = true) :
    { s with queue := q, notifying := notifying }.Notified := by
  refine ⟨hshape, fun p' => ?_, hpushed, ?_, fun hread => ?_, fun hquiet => ?_⟩
  · rw [hproducer]
    by_cases hp : p' = p
    · rw [hp, update_self]
      exact hpc
    · rw [update_of_ne hp]
      exact h.args p'
  · rw [hconsumer]
    exact h.holding
  · exact hconsumer.trans (h.waiting hread)
  · have hquiet' : s.Quiet := by
      rcases hquiet with hread | htake
      · exact .inl hread
      · exact .inr (hconsumer ▸ htake)
    obtain ⟨hnone, hatt⟩ := h.quiet hquiet'
    refine ⟨hout.trans hnone, fun hne => ?_⟩
    rcases hhead with hhead | rfl
    · rcases hatt (hhead ▸ hne) with hbytes | ⟨p', hdone | hnotify⟩
      · exact .inl hbytes
      · by_cases hp : p' = p
        · exact .inr ⟨p, .inr (hbetween (hp ▸ hdone))⟩
        · refine .inr ⟨p', .inl ?_⟩
          rw [hproducer, update_of_ne hp]
          exact hdone
      · exact .inr ⟨p', .inr (hnotifying p' hnotify)⟩
    · refine .inr ⟨p, .inl ?_⟩
      rw [hproducer, update_self]

theorem push (h : s.Notified) {v : α} (hq : s.queue.step (.push p (some v)) = some q) :
    { s with queue := q }.Notified := by
  have hshape := h.shape_step hq
  simp only [State.step, h.running, Bool.false_eq_true, if_false] at hq
  obtain ⟨hidle, rfl⟩ := Option.ite_some_none_eq_some.1 hq
  refine h.producer_step hshape rfl (by nofun) ?_ rfl rfl (.inl rfl) (fun _ => id) fun hdone => ?_
  · show none ∉ Queue.pushed (effects (s.queue.log ++ [_]))
    rw [pushed_effects_append rfl]
    exact h.pushed
  · rw [hidle] at hdone
    cases hdone

theorem new (h : s.Notified) {a : A} {cell : Cell A (Option α)}
    (hq : s.queue.step (.new p a cell) = some q) : { s with queue := q }.Notified := by
  have hshape := h.shape_step hq
  simp only [State.step, h.running, Bool.false_eq_true, if_false] at hq
  split at hq
  · rename_i v hnew
    obtain ⟨-, rfl⟩ := Option.ite_some_none_eq_some.1 hq
    have hphase : (s.queue.producer p).phase = .called (.push v) := by rw [hnew]; rfl
    refine h.producer_step hshape rfl ?_ h.pushed rfl rfl (.inl rfl) (fun _ => id) fun hdone => ?_
    · show Phase.called (Op.push v) ≠ _
      exact hphase ▸ h.args p
    · rw [hnew] at hdone
      cases hdone
  · cases hq

theorem produce (h : s.Notified) {spurious : Bool}
    (hq : s.queue.step (.produce p spurious) = some q) :
    ({ s with
      queue := q
      notifying := if s.queue.producer p = .done then update s.notifying p true
        else s.notifying } : CoQueue ι A α).Notified := by
  have hshape := h.shape_step hq
  have hfault : q.fault = false := by
    obtain ⟨inn, rest, out, hshape⟩ := hshape
    exact hshape.fault
  simp only [State.step, h.running, Bool.false_eq_true, if_false] at hq
  obtain ⟨hpushes, hout, hconsumer⟩ := pushes_of_produce hq hfault
  cases hpushes with
  | prepare hpc hnext ht hhead hlog =>
    have hdone : s.queue.producer p ≠ .done := by
      intro hdone
      rw [hdone] at hpc
      cases hpc
    rw [if_neg hdone]
    refine h.producer_step hshape ht ?_ (hlog ▸ h.pushed) hconsumer hout (.inl hhead)
      (fun _ => id) fun hd => absurd hd hdone
    rw [hnext, ← hpc]
    exact h.args p
  | @insert v hpc ht hlog =>
    have hdone : s.queue.producer p ≠ .done := by
      intro hdone
      rw [hdone] at hpc
      cases hpc
    rw [if_neg hdone]
    refine h.producer_step hshape ht (by nofun) ?_ hconsumer hout (.inr rfl) (fun _ => id)
      fun hd => absurd hd hdone
    have hv : none ≠ v := by
      rintro rfl
      exact h.args p hpc
    rw [hlog, pushed_effects_insert, List.mem_append, List.mem_singleton, not_or]
    exact ⟨h.pushed, hv⟩
  | finish hdone ht hhead hlog =>
    rw [if_pos hdone]
    refine h.producer_step hshape ht (by nofun) ?_ hconsumer hout (.inl hhead) (fun p' hp' => ?_)
      fun _ => update_self ..
    · rw [hlog, pushed_effects_append rfl]
      exact h.pushed
    · by_cases hp : p' = p
      · rw [hp, update_self]
      · rw [update_of_ne hp]
        exact hp'

omit [DecidableEq A] in
theorem write (h : s.Notified) (p : ι) :
    ({ s with
      notifying := update s.notifying p false
      pipe := s.pipe.write } : CoQueue ι A α).Notified :=
  { h with quiet := fun hquiet => ⟨(h.quiet hquiet).1, fun _ => .inl s.pipe.bytes_write_pos⟩ }

omit [DecidableEq A] in
theorem resume (h : s.Notified) (hread : s.reader = .read) (pipe : Pipe) :
    { s with pipe := pipe, reader := .pop }.Notified := by
  have hidle := h.waiting hread
  refine { h with waiting := nofun, quiet := fun hquiet => ?_ }
  rcases hquiet with hread | htake | hdone
  · cases hread
  · exact absurd (hidle.symm.trans htake) (by nofun)
  · exact absurd (hidle.symm.trans hdone) (by nofun)

theorem pop (h : s.Notified) (hpop : s.reader = .pop) (hq : s.queue.step .pop = some q) :
    { s with queue := q }.Notified := by
  have hshape := h.shape_step hq
  simp only [State.step, h.running, Bool.false_eq_true, if_false] at hq
  obtain ⟨hidle, rfl⟩ := Option.ite_some_none_eq_some.1 hq
  refine ⟨hshape, h.args, ?_, by nofun, fun hread => ?_, fun hquiet => ?_⟩
  · show none ∉ Queue.pushed (effects (s.queue.log ++ [_]))
    rw [pushed_effects_append rfl]
    exact h.pushed
  · rw [hpop] at hread
    cases hread
  · rcases hquiet with hread | htake | hdone
    · rw [hpop] at hread
      cases hread
    · cases htake
    · cases hdone

omit [DecidableEq A] in
/-- **The consumer goes on.**  It will not look into the queue again if it has just found `head_`
null, or if that was so before. -/
theorem consumer_step (h : s.Notified) (hshape : ∃ inn rest out, Shape q inn rest out)
    {reader : Reader} (hproducer : q.producer = s.queue.producer)
    (hpushed : Queue.pushed (effects q.log) = Queue.pushed (effects s.queue.log))
    (hholding : q.consumer.holding ≠ some none) (hwaiting : reader = .read → q.consumer = .idle)
    (hquiet : reader = .read ∨ q.consumer = .take true ∨ q.consumer = .done none →
      q.outqueue = none ∧ (q.head = none ∨ q.head = s.queue.head ∧ s.Quiet)) :
    { s with queue := q, reader := reader }.Notified := by
  refine ⟨hshape, ?_, ?_, hholding, hwaiting, fun hnow => ?_⟩
  · rw [hproducer]
    exact h.args
  · rw [hpushed]
    exact h.pushed
  · obtain ⟨hout, hhead⟩ := hquiet hnow
    refine ⟨hout, fun hne => ?_⟩
    rcases hhead with hnone | ⟨hhead, hbefore⟩
    · exact absurd hnone hne
    · rcases (h.quiet hbefore).2 (hhead ▸ hne) with hbytes | ⟨p, hdone | hnotify⟩
      · exact .inl hbytes
      · exact .inr ⟨p, .inl (hproducer ▸ hdone)⟩
      · exact .inr ⟨p, .inr hnotify⟩

omit [DecidableEq A] in
theorem busy_step (h : s.Notified) (hshape : ∃ inn rest out, Shape q inn rest out)
    (hproducer : q.producer = s.queue.producer)
    (hpushed : Queue.pushed (effects q.log) = Queue.pushed (effects s.queue.log))
    (hholding : q.consumer.holding ≠ some none) (hread : s.reader ≠ .read)
    (htake : q.consumer ≠ .take true) (hdone : q.consumer ≠ .done none) :
    { s with queue := q }.Notified := by
  refine h.consumer_step hshape hproducer hpushed hholding (fun hr => absurd hr hread) ?_
  rintro (hr | ht | hd)
  · exact absurd hr hread
  · exact absurd ht htake
  · exact absurd hd hdone

theorem consume (h : s.Notified) {spurious : Bool} {moved : Option α}
    (hq : s.queue.step (.consume spurious moved) = some q) :
    ({ s with
      queue := q
      reader := if s.queue.consumer = .done none then .read else s.reader } :
        CoQueue ι A α).Notified := by
  have hshape := h.shape_step hq
  obtain ⟨inn', rest', out', hs'⟩ := h.shape_step hq
  obtain ⟨inn, rest, out, hs⟩ := h.shape
  simp only [State.step, h.running, Bool.false_eq_true, if_false] at hq
  have hread : s.reader ≠ .read := by
    intro hread
    rw [State.consume, h.waiting hread] at hq
    cases hq
  obtain ⟨hpops, hproducer⟩ := pops_of_consume hq hs'.fault
  cases hpops with
  | search hholding htake hdone hne hlog =>
    rw [if_neg hne]
    exact h.busy_step hshape hproducer (by rw [hlog]) (by rw [hholding]; rintro ⟨⟩)
      hread htake hdone
  | miss hc hhead hout hnext hlog =>
    -- `pop` came here because `outqueue_` is null
    have hlocal := hs.consumer
    simp only [Local, hc] at hlocal
    rw [if_neg (by rw [hc]; rintro ⟨⟩)]
    refine h.consumer_step hshape hproducer ?_ (by rw [hnext]; rintro ⟨⟩)
      (fun hr => absurd hr hread) fun _ => ⟨hout.trans hlocal, .inl hhead⟩
    rw [hlog, pushed_effects_append rfl]
  | giveUp hc hnone hhead hout hnext hlog =>
    have hlocal := hs.consumer
    simp only [Local, hc] at hlocal
    rw [hlocal.2 hnone] at hc
    rw [if_neg (by rw [hc]; rintro ⟨⟩)]
    exact h.consumer_step hshape hproducer (by rw [hlog]) (by rw [hnext]; rintro ⟨⟩)
      (fun hr => absurd hr hread) fun _ => ⟨hout.trans hnone, .inr ⟨hhead, .inr (.inl hc)⟩⟩
  | take hc hsome hnext hlog =>
    have hv := hs.taken_ne_none hs' h.pushed hc hsome hlog
    rw [if_neg (by rw [hc]; rintro ⟨⟩)]
    refine h.busy_step hshape hproducer ?_ ?_ hread
      (by rw [hnext]; rintro ⟨⟩) (by rw [hnext]; rintro ⟨⟩)
    · rw [hlog, pushed_effects_append rfl]
    · rw [hnext]
      exact fun hnone => hv (some.inj hnone)
  | unlink hc hnext hlog =>
    have hholding := h.holding
    rw [hc] at hholding
    rw [if_neg (by rw [hc]; rintro ⟨⟩)]
    exact h.busy_step hshape hproducer (by rw [hlog]) (by rw [hnext]; exact hholding) hread
      (by rw [hnext]; rintro ⟨⟩) (by rw [hnext]; rintro ⟨⟩)
  | delete hc hnext hlog =>
    have hholding := h.holding
    rw [hc] at hholding
    rw [if_neg (by rw [hc]; rintro ⟨⟩)]
    refine h.busy_step hshape hproducer (by rw [hlog]) (by rw [hnext]; rintro ⟨⟩) hread
      (by rw [hnext]; rintro ⟨⟩) fun hdone => ?_
    rw [hnext] at hdone
    cases hdone
    exact absurd rfl hholding
  | finish hc hhead hout hnext hlog =>
    refine h.consumer_step hshape hproducer ?_ (by rw [hnext]; rintro ⟨⟩) (fun _ => hnext) ?_
    · rw [hlog, pushed_effects_append rfl]
    · rw [hnext]
      rintro (hr | ht | hd)
      · -- the loop ends only at a null
        split at hr
        · rename_i hdone
          have hbefore : s.Quiet := .inr (.inr hdone)
          exact ⟨hout.trans (h.quiet hbefore).1, .inr ⟨hhead, hbefore⟩⟩
        · exact absurd hr hread
      · cases ht
      · cases hd

theorem step (h : s.Notified) {a : CoAction ι A α} {s' : CoQueue ι A α}
    (hs : s.step a = some s') : s'.Notified := by
  cases a with
  | push p v =>
    obtain ⟨-, hs⟩ := ite_none_left_eq_some.1 hs
    obtain ⟨q, hq, rfl⟩ := map_eq_some_iff.1 hs
    exact h.push hq
  | new p a cell =>
    obtain ⟨q, hq, rfl⟩ := map_eq_some_iff.1 hs
    exact h.new hq
  | produce p spurious =>
    obtain ⟨q, hq, rfl⟩ := map_eq_some_iff.1 hs
    exact h.produce hq
  | write p =>
    obtain ⟨-, rfl⟩ := ite_some_none_eq_some.1 hs
    exact h.write p
  | read n =>
    obtain ⟨⟨hread, -⟩, rfl⟩ := ite_some_none_eq_some.1 hs
    exact h.resume hread (s.pipe.read n)
  | readError again =>
    obtain ⟨hread, rfl⟩ := ite_some_none_eq_some.1 hs
    split
    · exact h
    · exact h.resume hread s.pipe
  | pop =>
    obtain ⟨hpop, hs⟩ := ite_none_right_eq_some.1 hs
    obtain ⟨q, hq, rfl⟩ := map_eq_some_iff.1 hs
    exact h.pop hpop hq
  | consume spurious moved =>
    obtain ⟨q, hq, rfl⟩ := map_eq_some_iff.1 hs
    exact h.consume hq

end CoQueue.Notified

/-- **No wake-up of the consumer is lost**, with any number of producers and a pipe of any
capacity. -/
theorem no_notification_lost {capacity : ℕ} {hcapacity : 0 < capacity}
    {acts : List (CoAction ι A α)} {s : CoQueue ι A α}
    (h : run CoQueue.step (CoQueue.init ι A α capacity hcapacity) acts = some s)
    (hread : s.reader = .read) {items : List (Option α)}
    (hitems : run Fifo.step [] (effects s.queue.log) = some items) (hne : items ≠ []) :
    0 < s.pipe.bytes ∨ ∃ p, s.Between p := by
  have hinv : s.Notified := run_invariant (fun _ _ _ hI hs => CoQueue.Notified.step hI hs)
    (CoQueue.Notified.init capacity hcapacity) h
  obtain ⟨inn, rest, out, hshape⟩ := hinv.shape
  obtain ⟨hnone, hatt⟩ := hinv.quiet (.inl hread)
  refine hatt fun hhead => hne ?_
  obtain rfl := some.inj (hitems.symm.trans hshape.lin.effects)
  -- without a node there is no item
  have hinn := hshape.chain_inn
  have hrest := hshape.chain_rest
  have hout := hshape.chain_out
  simp only [State.rest, State.out, hinv.waiting hread, hnone, hhead] at hinn hrest hout
  obtain rfl := chain_none.1 hinn
  obtain rfl := chain_none.1 hrest
  obtain rfl := chain_none.1 hout
  simp [State.contents]

/-- A pipe of one byte: the byte of the second producer is dropped, the consumer reads the first
one and pops both items, and a third item comes in after `pop` has found `head_` null. -/
theorem no_notification_lost_dropped :
    ∃ (acts : List (CoAction (Fin 3) ℕ ℕ)) (s : CoQueue (Fin 3) ℕ ℕ),
      run CoQueue.step (CoQueue.init (Fin 3) ℕ ℕ 1 Nat.one_pos) acts = some s ∧
      s.reader = .read ∧ run Fifo.step [] (effects s.queue.log) = some [some 9] ∧
      s.pipe.bytes = 0 ∧ ∃ p, s.Between p := by
  let push (p : Fin 3) (a v : ℕ) : List (CoAction (Fin 3) ℕ ℕ) :=
    [CoAction.push p v, .new p a ⟨none, none⟩] ++ List.replicate 4 (CoAction.produce p false)
  let acts : List (CoAction (Fin 3) ℕ ℕ) :=
    push 0 0 7 ++ push 1 1 8 ++ [CoAction.write 0, .write 1, .read 1] ++
      CoAction.pop :: List.replicate 16 (CoAction.consume false none) ++
      CoAction.pop :: List.replicate 5 (CoAction.consume false none) ++
      CoAction.pop :: List.replicate 2 (CoAction.consume false none) ++ push 2 0 9 ++
      List.replicate 2 (CoAction.consume false none)
  refine ⟨acts, exists_run_of_imp (P := fun s => s.reader = .read ∧
    run Fifo.step [] (effects s.queue.log) = some [some 9] ∧ s.pipe.bytes = 0)
    (by decide +kernel) fun s hs ⟨hread, hitems, hbytes⟩ => ⟨hread, hitems, hbytes, ?_⟩⟩
  rcases no_notification_lost hs hread hitems (by nofun) with hpos | hbetween
  · omega
  · exact hbetween

end Corpc.Queue
