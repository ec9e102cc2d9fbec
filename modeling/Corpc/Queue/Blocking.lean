/-
# The queue that blocks

`MPMC_NoLockBlockQueue` in `corpc_queue.h`.  `push` appends its value to the list under
`queueMutex_` and then posts a permit; `pop` waits for a permit and then takes the first value of
the list under `queueMutex_`.  It does not test whether there is one.

`InnerRpcChannel::CallMethod` adds the time-out of a call before it pushes, so `timeoutRoutine` may
activate a coroutine that waits for `queueMutex_` in `push`.
-/

import Corpc.Lock.MutexInvariant
import Corpc.Lock.MutexStages
import Corpc.Lock.SemaphoreInvariant

namespace Corpc.Queue

open Corpc.Basis Function Option

namespace Block

inductive Op (α : Type)
  | push (v : α)
  | pop
  deriving DecidableEq

/-- **The specification:** a first-in-first-out queue without a `pop` while it is empty. -/
def spec {α : Type} [DecidableEq α] : List α → Op α × Option α → Option (List α)
  | q, (.push v, none) => some (q ++ [v])
  | v :: q, (.pop, some r) => if r = v then some q else none
  | _, _ => none

def inserted {α : Type} (es : List (Op α × Option α)) : List α :=
  es.filterMap fun e =>
    match e.1 with
    | .push v => some v
    | .pop => none

def taken {α : Type} (es : List (Op α × Option α)) : List α :=
  es.filterMap fun e =>
    match e.1 with
    | .push _ => none
    | .pop => e.2

inductive Pc (α : Type)
  | idle
  /-- in `queueMutex_.lock()` of `push`, and then before `queue_.push_back` -/
  | pushLock (v : α)
  /-- in `queueMutex_.unlock()` -/
  | pushUnlock
  /-- in `sem_.post()` -/
  | pushPost
  /-- in `sem_.wait()` -/
  | popWait
  /-- in `queueMutex_.lock()` of `pop`, and then before `queue_.front()` -/
  | popLock
  /-- before `queue_.pop_front()` -/
  | popErase (ret : α)
  /-- in `queueMutex_.unlock()` -/
  | popUnlock (ret : α)
  deriving DecidableEq

end Block

/-- `MPMC_NoLockBlockQueue`, with its coroutines and its history.  `fault` says that `front` was
called on an empty list. -/
structure BlockQueue (ι α : Type) where
  sem : Lock.Sem.State ι
  queueMutex : Lock.Mutex ι
  queue : List α
  pcs : ι → Block.Pc α
  fault : Bool
  log : List (Event ι (Block.Op α) (Option α))

namespace BlockQueue

open Block

/-- `MPMC_NoLockBlockQueue()`. -/
def init (ι α : Type) : BlockQueue ι α :=
  ⟨Lock.Sem.State.init ι 0, Lock.Mutex.init, [], fun _ => .idle, false, []⟩

inductive Action (ι α : Type)
  /-- The coroutine calls `push(v)`. -/
  | push (c : ι) (v : α)
  | pop (c : ι)
  /-- The next statement of the coroutine in `push` or `pop`. -/
  | next (c : ι)
  | sem (a : Lock.Sem.Action ι)
  | mutex (a : Lock.Action ι)
  deriving DecidableEq

variable {ι α : Type} [DecidableEq ι]

def goto (s : BlockQueue ι α) (c : ι) (pc : Pc α) : BlockQueue ι α :=
  { s with pcs := update s.pcs c pc }

def record (s : BlockQueue ι α) (e : Event ι (Op α) (Option α)) : BlockQueue ι α :=
  { s with log := s.log ++ [e] }

/-- The calls of the semaphore are made and left by `push` and `pop`. -/
def semStep (s : BlockQueue ι α) : Lock.Sem.Action ι → Bool
  | .wait _ | .post _ => false
  | .next c _ => match s.sem.pcs c with
      | .returning _ => false
      | _ => true
  | .resume _ => true

/-- The mutex is locked and unlocked by `push` and `pop`. -/
def mutexStep (s : BlockQueue ι α) : Lock.Action ι → Bool
  | .lock c _ => match s.pcs c with
      | .pushLock _ | .popLock => true
      | _ => false
  | .unlock c => match s.pcs c with
      | .pushUnlock | .popUnlock _ => true
      | _ => false
  | .activate c => match s.pcs c with
      | .pushLock _ => true
      | _ => false
  | _ => true

/-- `sem_.wait()` or `sem_.post()` returns. -/
def semReturn (s : BlockQueue ι α) (c : ι) : Option (Lock.Sem.State ι) :=
  match s.sem.pcs c with
  | .returning _ => s.sem.step (.next c false)
  | _ => none

/-- The next statement of `push` or `pop`. -/
def next (s : BlockQueue ι α) (c : ι) : Option (BlockQueue ι α) :=
  match s.pcs c with
  | .idle => none
  | .pushLock v =>
    if s.queueMutex.pcs c = .inside then
      some <| ({ s with queue := s.queue ++ [v] }.goto c .pushUnlock).record
        (.effect c (.push v) none)
    else none
  | .pushUnlock =>
    if s.queueMutex.pcs c = .outside then
      (s.sem.step (.post c)).map fun m => { s with sem := m }.goto c .pushPost
    else none
  | .pushPost =>
    (s.semReturn c).map fun m => ({ s with sem := m }.goto c .idle).record (.ret c none)
  | .popWait => (s.semReturn c).map fun m => { s with sem := m }.goto c .popLock
  | .popLock =>
    if s.queueMutex.pcs c = .inside then
      match s.queue with
      | [] => some { s with fault := true }
      | v :: _ => some (s.goto c (.popErase v))
    else none
  | .popErase ret =>
    some <| ({ s with queue := s.queue.tail }.goto c (.popUnlock ret)).record
      (.effect c .pop (some ret))
  | .popUnlock ret =>
    if s.queueMutex.pcs c = .outside then
      some ((s.goto c .idle).record (.ret c (some ret)))
    else none

def step [DecidableEq α] (s : BlockQueue ι α) : Action ι α → Option (BlockQueue ι α)
  | .push c v =>
    if s.pcs c = .idle then some ((s.goto c (.pushLock v)).record (.call c (.push v))) else none
  | .pop c =>
    if s.pcs c = .idle then
      (s.sem.step (.wait c)).map fun m =>
        ({ s with sem := m }.goto c .popWait).record (.call c .pop)
    else none
  | .next c => s.next c
  | .sem a => if s.semStep a then (s.sem.step a).map fun m => { s with sem := m } else none
  | .mutex a =>
    if s.mutexStep a then (s.queueMutex.step a).map fun m => { s with queueMutex := m } else none

/-- No coroutine that waits for `queueMutex_` is resumed but by a `post` of it. -/
def wokenByPost (s : BlockQueue ι α) : Action ι α → Bool
  | .mutex a => s.queueMutex.wokenByPost a
  | _ => true

end BlockQueue

namespace Block.Pc

variable {α : Type}

def phase : Pc α → Phase (Op α) (Option α)
  | .idle => .idle
  | .pushLock v => .called (.push v)
  | .pushUnlock | .pushPost => .effected none
  | .popWait | .popLock | .popErase _ => .called .pop
  | .popUnlock ret => .effected (some ret)

def call : Pc α → Option Lock.Sem.Call
  | .popWait => some .wait
  | .pushPost => some .post
  | _ => none

def unposted : Pc α → ℕ
  | .pushUnlock => 1
  | _ => 0

def owns : Pc α → ℕ
  | .popLock | .popErase _ => 1
  | _ => 0

end Block.Pc

namespace BlockQueue

open Block

variable {ι α : Type}

def phase (s : BlockQueue ι α) (c : ι) : Phase (Op α) (Option α) := (s.pcs c).phase

variable [DecidableEq ι] [DecidableEq α] [Fintype ι]

structure Inv (s : BlockQueue ι α) : Prop where
  mutex : s.queueMutex.Inv
  sem : s.sem.Inv 0
  running : s.fault = false
  lin : Linearizes spec [] s.log s.queue s.phase
  calls : ∀ c, (s.sem.pcs c).call = (s.pcs c).call
  erasing : ∀ {c v}, s.pcs c = .popErase v →
    s.queueMutex.pcs c = .inside ∧ ∃ rest, s.queue = v :: rest
  permits : s.queue.length + Lock.Sem.completed s.sem.log =
    Lock.Sem.postCalls s.sem.log + tally Pc.unposted s.pcs + tally Pc.owns s.pcs

namespace Inv

variable {s t : BlockQueue ι α} {c : ι}

theorem init : (BlockQueue.init ι α).Inv where
  mutex := Lock.Mutex.inv_init
  sem := Lock.Sem.State.Inv.init 0
  running := rfl
  lin := linearizes_nil _ _
  calls := fun _ => rfl
  erasing := nofun
  permits := by
    have hunposted : tally Pc.unposted (BlockQueue.init ι α).pcs = 0 := tally_const rfl
    have howns : tally Pc.owns (BlockQueue.init ι α).pcs = 0 := tally_const rfl
    rw [hunposted, howns]
    rfl

/-- **The list is not empty** when a coroutine with a permit looks at it: the semaphore gives no
more permits than were posted. -/
theorem queue_ne_nil (h : s.Inv) (hc : s.pcs c = .popLock) : s.queue ≠ [] := by
  intro hnil
  have hpermits := h.permits
  have hcompleted := h.sem.completed_le
  have hcalls := h.sem.balanced.calls
  have howns := le_tally Pc.owns s.pcs c
  rw [hc] at howns
  simp only [Pc.owns] at howns
  rw [hnil, List.length_nil] at hpermits
  omega

/-- **A coroutine goes on.**  It changes the list only while it is inside the mutex. -/
theorem goto (h : s.Inv) {pc pc' : Pc α} (hc : s.pcs c = pc)
    (ht : t.pcs = update s.pcs c pc') (hmutex : t.queueMutex = s.queueMutex)
    (hsem : t.sem.Inv 0) (hrunning : t.fault = false)
    (hlin : Linearizes spec [] t.log t.queue (update s.phase c pc'.phase))
    (hcall : (t.sem.pcs c).call = pc'.call) (hothers : ∀ d, d ≠ c → t.sem.pcs d = s.sem.pcs d)
    (herase : ∀ v, pc' = .popErase v → s.queueMutex.pcs c = .inside ∧ ∃ rest, t.queue = v :: rest)
    (hqueue : t.queue = s.queue ∨ s.queueMutex.pcs c = .inside)
    (hpermits : t.queue.length + Lock.Sem.completed t.sem.log + Lock.Sem.postCalls s.sem.log +
        pc.unposted + pc.owns =
      s.queue.length + Lock.Sem.completed s.sem.log + Lock.Sem.postCalls t.sem.log +
        pc'.unposted + pc'.owns) : t.Inv := by
  have hself : t.pcs c = pc' := by rw [ht, update_self]
  have hother : ∀ {d}, d ≠ c → t.pcs d = s.pcs d := by
    intro d hd
    rw [ht, update_of_ne hd]
  refine ⟨hmutex ▸ h.mutex, hsem, hrunning, ?_, fun d => ?_, fun {d v} hd => ?_, ?_⟩
  · have hphase : t.phase = update s.phase c pc'.phase := by
      funext d
      show (t.pcs d).phase = _
      rw [ht]
      exact Function.apply_update (fun _ => Pc.phase) s.pcs c pc' d
    rw [hphase]
    exact hlin
  · by_cases hdc : d = c
    · rw [hdc, hself, hcall]
    · rw [hother hdc, hothers d hdc]
      exact h.calls d
  · rw [hmutex]
    by_cases hdc : d = c
    · rw [hdc] at hd ⊢
      exact herase v (hself.symm.trans hd)
    · rw [hother hdc] at hd
      obtain ⟨hinside, hfirst⟩ := h.erasing hd
      refine ⟨hinside, ?_⟩
      rcases hqueue with hsame | hc'
      · rw [hsame]
        exact hfirst
      · -- two coroutines are not inside together
        exact absurd (h.mutex.exclusive hinside hc') hdc
  · have hunposted := tally_update Pc.unposted s.pcs c pc'
    have howns := tally_update Pc.owns s.pcs c pc'
    have hbefore := h.permits
    rw [hc] at hunposted howns
    rw [ht]
    omega

variable {m : Lock.Sem.State ι}

omit [DecidableEq α] [Fintype ι] in
theorem semReturn_eq_some (hm : s.semReturn c = some m) :
    ∃ r, s.sem.pcs c = .returning r ∧ m = (s.sem.goto c .idle).record (.ret c r) := by
  unfold semReturn at hm
  split at hm
  · rename_i r hr
    refine ⟨r, hr, ?_⟩
    simp only [Lock.Sem.State.step, Lock.Sem.State.next, hr] at hm
    exact (some.inj hm).symm
  · cases hm

theorem push (h : s.Inv) (hc : s.pcs c = .idle) (v : α) :
    ((s.goto c (.pushLock v)).record (.call c (.push v))).Inv := by
  refine h.goto hc rfl rfl h.sem h.running (h.lin.call ?_ _) ?_ (fun _ _ => rfl) (by nofun)
    (.inl rfl) rfl
  · rw [BlockQueue.phase, hc]
    rfl
  · exact (h.calls c).trans (by rw [hc]; rfl)

theorem pop (h : s.Inv) (hc : s.pcs c = .idle) (hm : s.sem.step (.wait c) = some m) :
    (({ s with sem := m }.goto c .popWait).record (.call c .pop)).Inv := by
  have hinv := h.sem.step hm
  have hothers : ∀ d, d ≠ c → m.pcs d = s.sem.pcs d :=
    fun d hd => (Lock.Sem.move_of_step hm).pcs_of_ne hd
  obtain ⟨-, rfl⟩ := ite_some_none_eq_some.1 hm
  refine h.goto hc rfl rfl hinv h.running (h.lin.call ?_ _) ?_ hothers (by nofun) (.inl rfl) ?_
  · rw [BlockQueue.phase, hc]
    rfl
  · show (update s.sem.pcs c .waitLoad c).call = some .wait
    rw [update_self]
    rfl
  · simp [BlockQueue.record, BlockQueue.goto, Lock.Sem.State.record, Lock.Sem.State.goto,
      Lock.Sem.completed, Lock.Sem.postCalls, Pc.unposted, Pc.owns]

theorem lin_silent (h : s.Inv) {pc : Pc α} (hphase : pc.phase = (s.pcs c).phase) :
    Linearizes spec [] s.log s.queue (update s.phase c pc.phase) := by
  have hsame : update s.phase c ((s.pcs c).phase) = s.phase :=
    update_eq_self ..
  rw [hphase, hsame]
  exact h.lin

theorem next (h : s.Inv) (hs : s.next c = some t) : t.Inv := by
  unfold BlockQueue.next at hs
  have hcalls := h.calls c
  cases hc : s.pcs c with
  | idle => simp only [hc] at hs; cases hs
  | pushLock v =>
    simp only [hc] at hs hcalls
    obtain ⟨hinside, rfl⟩ := ite_some_none_eq_some.1 hs
    refine h.goto hc rfl rfl h.sem h.running
      (h.lin.effect (by rw [BlockQueue.phase, hc]; rfl) rfl) hcalls (fun _ _ => rfl)
      (by rintro _ ⟨⟩) (.inr hinside) ?_
    simp [BlockQueue.record, BlockQueue.goto, Pc.unposted, Pc.owns]
    omega
  | pushUnlock =>
    simp only [hc] at hs
    obtain ⟨-, hs⟩ := ite_none_right_eq_some.1 hs
    obtain ⟨m, hm, rfl⟩ := map_eq_some_iff.1 hs
    have hinv := h.sem.step hm
    have hothers : ∀ d, d ≠ c → m.pcs d = s.sem.pcs d :=
      fun d hd => (Lock.Sem.move_of_step hm).pcs_of_ne hd
    obtain ⟨-, rfl⟩ := ite_some_none_eq_some.1 hm
    refine h.goto hc rfl rfl hinv h.running (h.lin_silent (by rw [hc]; rfl)) ?_ hothers
      (by rintro _ ⟨⟩) (.inl rfl) ?_
    · show (update s.sem.pcs c .postLoad c).call = some .post
      rw [update_self]
      rfl
    · simp [BlockQueue.goto, Lock.Sem.State.record, Lock.Sem.State.goto, Lock.Sem.completed,
        Lock.Sem.postCalls, Pc.unposted, Pc.owns]
      omega
  | pushPost =>
    simp only [hc] at hs hcalls
    obtain ⟨m, hm, rfl⟩ := map_eq_some_iff.1 hs
    obtain ⟨r, hr, rfl⟩ := semReturn_eq_some hm
    have hmove : s.sem.Move c ((s.sem.goto c .idle).record (.ret c r)) := .ret hr
    -- what returns is the call of `post`
    obtain ⟨d, rfl⟩ : ∃ d, r = .posted d := by
      cases r with
      | waited now => rw [hr] at hcalls; cases hcalls
      | posted d => exact ⟨d, rfl⟩
    refine h.goto hc rfl rfl (h.sem.move hmove) h.running
      (h.lin.ret (by rw [BlockQueue.phase, hc]; rfl)) ?_ (fun d hd => hmove.pcs_of_ne hd)
      (by rintro _ ⟨⟩) (.inl rfl) ?_
    · show (update s.sem.pcs c .idle c).call = none
      rw [update_self]
      rfl
    · simp [BlockQueue.goto, BlockQueue.record, Lock.Sem.State.record, Lock.Sem.State.goto,
        Lock.Sem.completed, Lock.Sem.postCalls, Pc.unposted, Pc.owns]
  | popWait =>
    simp only [hc] at hs hcalls
    obtain ⟨m, hm, rfl⟩ := map_eq_some_iff.1 hs
    obtain ⟨r, hr, rfl⟩ := semReturn_eq_some hm
    have hmove : s.sem.Move c ((s.sem.goto c .idle).record (.ret c r)) := .ret hr
    -- what returns is the call of `wait`, with a permit
    obtain ⟨now, rfl⟩ : ∃ now, r = .waited now := by
      cases r with
      | waited now => exact ⟨now, rfl⟩
      | posted d => rw [hr] at hcalls; cases hcalls
    refine h.goto hc rfl rfl (h.sem.move hmove) h.running (h.lin_silent (by rw [hc]; rfl)) ?_
      (fun d hd => hmove.pcs_of_ne hd) (by rintro _ ⟨⟩) (.inl rfl) ?_
    · show (update s.sem.pcs c .idle c).call = none
      rw [update_self]
      rfl
    · simp [BlockQueue.goto, Lock.Sem.State.record, Lock.Sem.State.goto, Lock.Sem.completed,
        Lock.Sem.postCalls, Pc.unposted, Pc.owns]
      omega
  | popLock =>
    simp only [hc] at hs hcalls
    obtain ⟨hinside, hs⟩ := ite_none_right_eq_some.1 hs
    split at hs
    · rename_i hnil
      exact absurd hnil (h.queue_ne_nil hc)
    · rename_i v rest hq
      cases hs
      refine h.goto hc rfl rfl h.sem h.running (h.lin_silent (by rw [hc]; rfl)) hcalls
        (fun _ _ => rfl) ?_ (.inl rfl) rfl
      intro w hw
      cases hw
      exact ⟨hinside, rest, hq⟩
  | popErase ret =>
    simp only [hc] at hs hcalls
    cases hs
    obtain ⟨hinside, rest, hq⟩ := h.erasing hc
    have htake : spec s.queue (.pop, some ret) = some s.queue.tail := by
      rw [hq]
      exact if_pos rfl
    refine h.goto hc rfl rfl h.sem h.running
      (h.lin.effect (by rw [BlockQueue.phase, hc]; rfl) htake) hcalls (fun _ _ => rfl)
      (by rintro _ ⟨⟩) (.inr hinside) ?_
    simp [BlockQueue.goto, BlockQueue.record, Pc.unposted, Pc.owns, hq]
    omega
  | popUnlock ret =>
    simp only [hc] at hs hcalls
    obtain ⟨-, rfl⟩ := ite_some_none_eq_some.1 hs
    exact h.goto hc rfl rfl h.sem h.running (h.lin.ret (by rw [BlockQueue.phase, hc]; rfl)) hcalls
      (fun _ _ => rfl) (by rintro _ ⟨⟩) (.inl rfl) rfl

theorem semStep (h : s.Inv) {a : Lock.Sem.Action ι} (ha : s.semStep a = true)
    (hm : s.sem.step a = some m) : { s with sem := m }.Inv := by
  have hwithin : s.sem.pcs a.coroutine ≠ .idle ∧ ∀ r, s.sem.pcs a.coroutine ≠ .returning r := by
    cases a with
    | wait c | post c => cases ha
    | next c spurious =>
      constructor
      · intro hidle
        simp only [Lock.Sem.Action.coroutine] at hidle
        simp only [Lock.Sem.State.step, Lock.Sem.State.next, hidle] at hm
        cases hm
      · intro r hr
        simp only [Lock.Sem.Action.coroutine] at hr
        simp only [BlockQueue.semStep, hr] at ha
        cases ha
    | resume c =>
      obtain ⟨⟨hc, -⟩, -⟩ := ite_none_right_eq_some.1 hm
      have hc : s.sem.pcs (Lock.Sem.Action.resume c).coroutine = .suspended := hc
      rw [hc]
      exact ⟨by rintro ⟨⟩, by rintro _ ⟨⟩⟩
  have hmove := Lock.Sem.move_of_step hm
  obtain ⟨hcall, hcompleted, hposts⟩ := hmove.within hwithin.1 hwithin.2
  refine { h with sem := h.sem.step hm, calls := fun c => ?_, permits := ?_ }
  · by_cases hc : c = a.coroutine
    · rw [hc]
      exact hcall.trans (h.calls _)
    · show (m.pcs c).call = _
      rw [hmove.pcs_of_ne hc]
      exact h.calls c
  · show s.queue.length + Lock.Sem.completed m.log = Lock.Sem.postCalls m.log + _ + _
    rw [hcompleted, hposts]
    exact h.permits

theorem mutexStep (h : s.Inv) {a : Lock.Action ι} (ha : s.mutexStep a = true)
    (hwoken : s.queueMutex.wokenByPost a = true) {m : Lock.Mutex ι}
    (hm : s.queueMutex.step a = some m) : { s with queueMutex := m }.Inv := by
  refine { h with mutex := h.mutex.step hwoken hm, erasing := fun {c v} hc => ?_ }
  obtain ⟨hinside, hfirst⟩ := h.erasing hc
  refine ⟨Lock.Mutex.inside_of_step hm hinside ?_, hfirst⟩
  rintro rfl
  simp only [BlockQueue.mutexStep] at ha
  rw [show s.pcs c = .popErase v from hc] at ha
  cases ha

theorem step (h : s.Inv) {a : Action ι α} (hwoken : s.wokenByPost a = true)
    (hs : s.step a = some t) : t.Inv := by
  cases a with
  | push c v =>
    obtain ⟨hc, rfl⟩ := ite_some_none_eq_some.1 hs
    exact h.push hc v
  | pop c =>
    obtain ⟨hc, hs⟩ := ite_none_right_eq_some.1 hs
    obtain ⟨m, hm, rfl⟩ := map_eq_some_iff.1 hs
    exact h.pop hc hm
  | next c => exact h.next hs
  | sem a =>
    obtain ⟨ha, hs⟩ := ite_none_right_eq_some.1 hs
    obtain ⟨m, hm, rfl⟩ := map_eq_some_iff.1 hs
    exact h.semStep ha hm
  | mutex a =>
    obtain ⟨ha, hs⟩ := ite_none_right_eq_some.1 hs
    obtain ⟨m, hm, rfl⟩ := map_eq_some_iff.1 hs
    exact h.mutexStep ha hwoken hm

end Inv

end BlockQueue

theorem Block.taken_append {α : Type} [DecidableEq α] {q q' : List α}
    {es : List (Block.Op α × Option α)} (h : run Block.spec q es = some q') :
    q ++ Block.inserted es = Block.taken es ++ q' := by
  induction es generalizing q with
  | nil =>
    cases h
    simp [Block.inserted, Block.taken]
  | cons e es ih =>
    rw [run_cons] at h
    obtain ⟨t, ht, hrest⟩ := bind_eq_some_iff.1 h
    have hnext := ih hrest
    rcases e with ⟨v | _, r⟩
    · cases r with
      | none =>
        cases ht
        rw [List.append_assoc] at hnext
        exact hnext
      | some r => cases q <;> cases ht
    · cases q with
      | nil => cases r <;> cases ht
      | cons v q =>
        cases r with
        | none => cases ht
        | some r =>
          obtain ⟨hr, rfl⟩ := ite_some_none_eq_some.1 ht
          subst hr
          exact congrArg (r :: ·) hnext

/-- **What the queue is for.** -/
structure BlockQueue.Delivers {ι α : Type} [DecidableEq ι] [DecidableEq α] (s : BlockQueue ι α) :
    Prop where
  /-- There is a value when `pop` executes `front()`. -/
  nonempty : ∀ c, s.pcs c = .popLock → s.queueMutex.pcs c = .inside → s.queue ≠ []
  running : s.fault = false
  /-- Each `push` inserts its value once, and each `pop` returns a value that it took. -/
  history : Linearizes Block.spec [] s.log s.queue s.phase
  /-- The values inserted are those taken and those still in the list, in this order. -/
  order : Block.inserted (effects s.log) = Block.taken (effects s.log) ++ s.queue

theorem BlockQueue.delivers_of_run {ι α : Type} [DecidableEq ι] [DecidableEq α] [Fintype ι]
    {acts : List (BlockQueue.Action ι α)} {s : BlockQueue ι α}
    (h : run (restrict BlockQueue.wokenByPost BlockQueue.step) (BlockQueue.init ι α) acts =
      some s) : s.Delivers := by
  have hinv : s.Inv :=
    run_restrict_invariant (fun _ _ _ hI hwoken hs => hI.step hwoken hs) BlockQueue.Inv.init h
  exact {
    nonempty := fun c hc _ => hinv.queue_ne_nil hc
    running := hinv.running
    history := hinv.lin
    order := Block.taken_append hinv.lin.effects }

/-- **The semaphore conserves its permits, and the queue on it never pops from an empty list**, as
long as coroutines that wait for its mutex are woken by a `post` of it only. -/
theorem permits_conserved_and_delivered {ι α : Type} [DecidableEq ι] [DecidableEq α] [Fintype ι] :
    (∀ (num : ℕ) (acts : List (Lock.Sem.Action ι)) (s : Lock.Sem.State ι),
      run Lock.Sem.State.step (Lock.Sem.State.init ι num) acts = some s → s.Conserves num) ∧
    ∀ (acts : List (BlockQueue.Action ι α)) (s : BlockQueue ι α),
      run (restrict BlockQueue.wokenByPost BlockQueue.step) (BlockQueue.init ι α) acts = some s →
        s.Delivers :=
  ⟨fun _ _ _ h => Lock.Sem.conserves_of_run h, fun _ _ h => BlockQueue.delivers_of_run h⟩

/-- A coroutine is given a permit by `post` before it has yielded: at a semaphore without permits,
and in a `pop` that is called before the `push`. -/
theorem permits_conserved_and_delivered_early :
    (∃ (acts : List (Lock.Sem.Action (Fin 2))) (s : Lock.Sem.State (Fin 2)),
      run Lock.Sem.State.step (Lock.Sem.State.init (Fin 2) 0) acts = some s ∧
      Lock.Sem.completed s.log = 1 ∧ s.Conserves 0) ∧
    ∃ (acts : List (BlockQueue.Action (Fin 2) ℕ)) (s : BlockQueue (Fin 2) ℕ),
      run (restrict BlockQueue.wokenByPost BlockQueue.step) (BlockQueue.init (Fin 2) ℕ) acts =
        some s ∧
      Block.taken (effects s.log) = [7] ∧ s.Delivers := by
  constructor
  · let acts : List (Lock.Sem.Action (Fin 2)) :=
      List.flatten [[.wait 0], List.replicate 4 (.next 0 false), [.post 1],
        List.replicate 6 (.next 1 false), [.next 0 false, .resume 0, .next 0 false]]
    exact ⟨acts, exists_run_and (by decide +kernel) fun s hs _ =>
      (permits_conserved_and_delivered (ι := Fin 2) (α := ℕ)).1 0 acts s hs⟩
  · let acts : List (BlockQueue.Action (Fin 2) ℕ) :=
      List.flatten [[.pop 0], List.replicate 4 (.sem (.next 0 false)),
        [.push 1 7, .mutex (.lock 1 false), .next 1, .mutex (.unlock 1), .next 1],
        List.replicate 5 (.sem (.next 1 false)),
        [.next 1, .sem (.next 0 false), .sem (.resume 0), .next 0, .mutex (.lock 0 false), .next 0,
          .next 0, .mutex (.unlock 0), .next 0]]
    exact ⟨acts, exists_run_and (by decide +kernel) fun s hs _ =>
      permits_conserved_and_delivered.2 acts s hs⟩

/-- Coroutine 0 pushes, 1 pushes with a time-out, 2 and 3 pop.  In starvation mode the mutex is left
to 2, and 1 is activated; each takes the mutex over, which clears the locked bit, and 3 gets it. -/
def expiredPush : List (BlockQueue.Action (Fin 4) ℕ) :=
  let push (v n : ℕ) : List (BlockQueue.Action (Fin 4) ℕ) :=
    List.flatten [[.push 0 v, .mutex (.lock 0 false), .next 0, .mutex (.unlock 0), .next 0],
      List.replicate n (.sem (.next 0 false)), [.next 0]]
  let pop (c : Fin 4) : List (BlockQueue.Action (Fin 4) ℕ) :=
    [.pop c, .sem (.next c false), .sem (.next c false), .next c]
  let mutex (as : List (Lock.Action (Fin 4))) : List (BlockQueue.Action (Fin 4) ℕ) := as.map .mutex
  List.flatten [push 10 4, push 11 2, pop 2, pop 3, [.push 0 12, .mutex (.lock 0 false)],
    mutex (Lock.fallAsleep 2), [.push 1 13], mutex (Lock.fallAsleep 1), [.next 0],
    mutex [.unlock 0, .unlockLoop 0 false, .post 0], [.next 0],
    List.replicate 4 (.sem (.next 0 false)), [.next 0, .push 0 14],
    mutex [.lock 0 false, .load 0, .loop 0 false false, .resume 2, .wake 2 true,
      .loop 2 false false, .load 2, .loop 2 false false, .load 2, .loop 2 false false, .load 2,
      .loop 2 false false, .load 2, .loop 2 false false, .wait 2], [.next 0],
    mutex [.unlock 0, .post 0, .activate 1, .resume 2, .wake 2 false, .wake 1 false, .takeOver 2,
      .takeOver 1, .lock 3 false, .load 3, .loop 3 false false],
    [.next 2, .next 3, .next 2, .next 3, .mutex (.unlock 2), .mutex (.unlockLoop 2 false), .next 2,
      .next 0, .sem (.next 0 false), .sem (.next 0 false), .next 0, .push 0 15],
    mutex [.lock 0 false, .load 0, .loop 0 false false, .unlock 3, .unlockLoop 3 false], [.next 3]]

/-- **A time-out makes the queue return a value twice**, and lose the next one. -/
theorem expired_push_duplicates : ∃ s,
    run BlockQueue.step (BlockQueue.init (Fin 4) ℕ) expiredPush = some s ∧
      ((Event.ret 2 (some 10) ∈ s.log ∧ Event.ret 3 (some 10) ∈ s.log) ∧
        Block.inserted (effects s.log) = [10, 11, 12, 14] ∧
        Block.taken (effects s.log) = [10, 10] ∧ s.queue = [12, 14]) ∧ ¬s.Delivers := by
  refine exists_run_and (by decide +kernel) fun s _ hp hd => ?_
  have horder := hd.order
  rw [hp.2.1, hp.2.2.1, hp.2.2.2] at horder
  exact absurd horder (by decide)

end Corpc.Queue
