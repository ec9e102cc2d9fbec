/-
# The mutex is one, and loses no wake-up

The bits of `state_` balance what the coroutines do (`Balance`).  The locked bit is the number of
coroutines inside.
-/

import Corpc.Lock.Mutex

namespace Corpc.Lock

open Corpc.Basis Function Pc Mutex Option

section Stores

variable {v : ℤ}

theorem mayWake_iff : Mutex.mayWake v = true ↔
    waiters v ≠ 0 ∧ locked v = 0 ∧ woken v = 0 ∧ starving v = 0 := by
  simp [mayWake, and_assoc]

theorem bits_delta (l : Locals) (oldV : ℤ) (hl : locked v = 0) (hw : woken v = 0)
    (hs : starving v = 1) : locked (v + Mutex.delta l oldV) = 1 ∧
      woken (v + Mutex.delta l oldV) = 0 ∧ waiters (v + Mutex.delta l oldV) = waiters v - 1 := by
  unfold delta
  split_ifs <;> (unfold locked woken starving waiters at *; omega)

@[simp]
theorem woken_newState (l : Locals) : woken (Mutex.newState l v) = woken v := by
  unfold newState
  split_ifs <;> simp

theorem newState_of_free (l : Locals) (hl : locked v = 0) (hs : starving v = 0) :
    Mutex.newState l v = setLocked v := by
  simp [newState, hl, hs]

theorem bits_newState (l : Locals) (hne : locked v = 1 ∨ starving v = 1) :
    locked (Mutex.newState l v) = locked v ∧ waiters (Mutex.newState l v) = waiters v + 1 ∧
      starving (Mutex.newState l v) =
        if l.starving = true ∧ locked v = 1 then 1 else starving v := by
  simp only [newState, if_pos hne]
  by_cases hs : starving v = 0
  · have hl : locked v = 1 := by omega
    by_cases hst : l.starving = true
    · simp [hs, hl, hst]
    · simp [hs, hl, hst]
  · by_cases hst : l.starving = true ∧ locked v = 1
    · simp [hs, hst]
    · simp [hs, hst]

end Stores

inductive Mutex.Move {ι : Type} [DecidableEq ι] (s : Mutex ι) : Mutex ι → Prop where
  | lock {c : ι} (hc : s.pcs c = .outside) (spurious : Bool) : s.Move (s.lock c spurious)
  | load {c : ι} {l : Locals} (hc : s.pcs c = .loading l) :
      s.Move (s.goto c (.looping l s.state))
  | reload {c : ι} (hc : s.pcs c = .unlockLoading) : s.Move (s.goto c (.unlocking s.state))
  | loop {c : ι} {l : Locals} {oldV : ℤ} (hc : s.pcs c = .looping l oldV)
      (spurious late : Bool) : s.Move (s.loop c l oldV spurious late)
  | wait {c : ι} {l : Locals} (hc : s.pcs c = .waiting l) : s.Move (s.wait c l)
  | resume {c : ι} {l : Locals} (hc : s.pcs c = .popped l) : s.Move (s.goto c (.awake l))
  | wake {c : ι} {l : Locals} (hc : s.pcs c = .awake l) (late : Bool) : s.Move (s.wake c l late)
  | takeOver {c : ι} {l : Locals} {oldV : ℤ} (hc : s.pcs c = .handed l oldV) :
      s.Move (s.takeOver c l oldV)
  | unlock {c : ι} (hc : s.pcs c = .inside) : s.Move (s.unlock c)
  | unlockLoop {c : ι} {oldV : ℤ} (hc : s.pcs c = .unlocking oldV) (spurious : Bool) :
      s.Move (s.unlockLoop c oldV spurious)
  | post {c : ι} (hc : s.pcs c = .posting) : s.Move (s.post c)

theorem Mutex.move_of_step {ι : Type} [DecidableEq ι] {s s' : Mutex ι} {a : Action ι}
    (ha : s.wokenByPost a = true) (hs : s.step a = some s') : s.Move s' := by
  unfold step at hs
  split at hs
  · cases hs
  · cases a with
    | lock c spurious =>
      dsimp only at hs
      split at hs
      · rename_i hc
        exact some.inj hs ▸ .lock hc spurious
      · cases hs
    | load c =>
      dsimp only at hs
      split at hs
      · rename_i l hc
        exact some.inj hs ▸ .load hc
      · rename_i hc
        exact some.inj hs ▸ .reload hc
      · cases hs
    | loop c spurious late =>
      dsimp only at hs
      split at hs
      · rename_i l oldV hc
        exact some.inj hs ▸ .loop hc spurious late
      · cases hs
    | wait c =>
      dsimp only at hs
      split at hs
      · rename_i l hc
        exact some.inj hs ▸ .wait hc
      · cases hs
    | resume c =>
      dsimp only at hs
      split at hs
      · rename_i l hc
        exact some.inj hs ▸ .resume hc
      · cases hs
    | activate c => cases ha
    | wake c late =>
      dsimp only at hs
      split at hs
      · rename_i l hc
        exact some.inj hs ▸ .wake hc late
      · cases hs
    | takeOver c =>
      dsimp only at hs
      split at hs
      · rename_i l oldV hc
        exact some.inj hs ▸ .takeOver hc
      · cases hs
    | unlock c =>
      dsimp only at hs
      split at hs
      · rename_i hc
        exact some.inj hs ▸ .unlock hc
      · cases hs
    | unlockLoop c spurious =>
      dsimp only at hs
      split at hs
      · rename_i oldV hc
        exact some.inj hs ▸ .unlockLoop hc spurious
      · cases hs
    | post c =>
      dsimp only at hs
      split at hs
      · rename_i hc
        exact some.inj hs ▸ .post hc
      · cases hs

namespace Pc

def holds : Pc → ℕ
  | .inside => 1
  | _ => 0

/-- In the loop of `lockSlow`, and what the woken bit stands for. -/
def awakes : Pc → ℕ
  | .loading l | .looping l _ => l.awoke.toNat
  | _ => 0

def tokens : Pc → ℕ
  | .posting | .popped _ | .awake _ => 1
  | _ => 0

def hands : Pc → ℕ
  | .handed _ _ => 1
  | _ => 0

/-- In `wait`, or back from it and not through with `state_`. -/
def sleeps : Pc → ℕ
  | .waiting _ | .queued _ | .popped _ | .awake _ | .handed _ _ => 1
  | _ => 0

end Pc

/-- The bits of `state_` balance the coroutines inside (`h`), in the loop with `awoke` (`a`), the
tokens (`t`), their receivers that have the mutex (`f`) and the coroutines in `wait` (`n`). -/
structure Balance (v : ℤ) (h a t f n : ℕ) : Prop where
  holds : (h : ℤ) = locked v
  normal : starving v = 0 → (a + t : ℤ) = woken v ∧ f = 0 ∧ waiters v + t = n
  starved : starving v = 1 → a = 0 ∧ woken v = 0 ∧ (t + f : ℤ) = 1 - locked v ∧ waiters v = n

namespace Balance

variable {v : ℤ} {h a t f n : ℕ}

theorem token_le (hb : Balance v h a t f n) : t + f ≤ 1 := by
  have hl := locked_cases v
  have hw := woken_cases v
  rcases starving_cases v with hs | hs
  · have := hb.normal hs
    omega
  · have := hb.starved hs
    omega

theorem holds_le (hb : Balance v h a t f n) : h ≤ 1 := by
  have hl := locked_cases v
  have := hb.holds
  omega

theorem of_awoke (hb : Balance v h a t f n) (ha : 0 < a) :
    starving v = 0 ∧ woken v = 1 ∧ a = 1 ∧ t = 0 := by
  have hw := woken_cases v
  rcases starving_cases v with hs | hs
  · have := hb.normal hs
    omega
  · have := hb.starved hs
    omega

end Balance

namespace Mutex

variable {ι : Type} [Fintype ι] {s s' : Mutex ι} {c : ι}

/-- What the local variables of `lockSlow` say. -/
def localsOk : Pc → Prop
  | .loading l => l.starving = true → l.awoke = true
  | .looping l oldV => (l.starving = true → l.awoke = true) ∧ (l.awoke = true → woken oldV = 1)
  | _ => True

structure Inv (s : Mutex ι) : Prop where
  running : s.aborted = false
  balance : Balance s.state (tally Pc.holds s.pcs) (tally Pc.awakes s.pcs)
    (tally Pc.tokens s.pcs + s.dontWait.toNat) (tally Pc.hands s.pcs) (tally Pc.sleeps s.pcs)
  locals : ∀ c, localsOk (s.pcs c)
  queue : ∀ c, c ∈ s.waitRoutines → ∃ l, s.pcs c = .queued l
  nodup : s.waitRoutines.Nodup

theorem inv_init : (init : Mutex ι).Inv where
  running := rfl
  balance := by
    have hzero : ∀ f : Pc → ℕ, f .outside = 0 → tally f (init : Mutex ι).pcs = 0 :=
      fun f hf => tally_const hf
    rw [hzero _ rfl, hzero _ rfl, hzero _ rfl, hzero _ rfl, hzero _ rfl]
    exact ⟨rfl, fun _ => ⟨rfl, rfl, rfl⟩, fun hs => absurd hs (by show ¬starving 0 = 1; decide)⟩
  locals := fun _ => trivial
  queue := fun _ hc => absurd hc List.not_mem_nil
  nodup := List.nodup_nil

namespace Inv

variable {l : Locals} {oldV : ℤ}

theorem of_awoke (h : s.Inv) (hc : s.pcs c = .looping l oldV)
    (hawoke : l.awoke = true) : starving s.state = 0 ∧ woken s.state = 1 ∧
      tally Pc.awakes s.pcs = 1 ∧ tally Pc.tokens s.pcs + s.dontWait.toNat = 0 := by
  refine h.balance.of_awoke ?_
  have hle := le_tally awakes s.pcs c
  rw [hc, awakes, hawoke] at hle
  exact hle

theorem dontWait_of_posting (h : s.Inv) (hc : s.pcs c = .posting) : s.dontWait = false := by
  have hle := h.balance.token_le
  have htoken := le_tally tokens s.pcs c
  rw [hc] at htoken
  simp only [tokens] at htoken
  cases hdont : s.dontWait with
  | false => rfl
  | true =>
    rw [hdont, Bool.toNat_true] at hle
    omega

variable [DecidableEq ι]

section

variable (h : s.Inv)
include h

/-- **One coroutine takes a step.**  It comes from `pc` and is not in the queue. -/
theorem goto {t : Mutex ι} {pc pc' : Pc} (hc : s.pcs c = pc) (hpcs : t.pcs = s.pcs)
    (hqueued : ∀ l, pc ≠ .queued l) (hrunning : t.aborted = false)
    (hqueue : ∀ d, d ∈ t.waitRoutines → d ∈ s.waitRoutines ∨ d = c ∧ ∃ l, pc' = .queued l)
    (hnodup : t.waitRoutines.Nodup) (hlocals : localsOk pc')
    (hbalance : ∀ h a t' f n : ℕ, h + pc.holds = tally Pc.holds s.pcs + pc'.holds →
      a + pc.awakes = tally Pc.awakes s.pcs + pc'.awakes →
      t' + pc.tokens = tally Pc.tokens s.pcs + pc'.tokens →
      f + pc.hands = tally Pc.hands s.pcs + pc'.hands →
      n + pc.sleeps = tally Pc.sleeps s.pcs + pc'.sleeps →
      Balance t.state h a (t' + t.dontWait.toNat) f n) : (t.goto c pc').Inv := by
  have htally : ∀ f : Pc → ℕ, tally f (t.goto c pc').pcs + f pc = tally f s.pcs + f pc' := by
    intro f
    rw [← hc, ← hpcs]
    exact tally_update f t.pcs c pc'
  refine ⟨hrunning, hbalance _ _ _ _ _ (htally _) (htally _) (htally _) (htally _) (htally _),
    fun d => ?_, fun d hd => ?_, hnodup⟩
  · show localsOk (update t.pcs c pc' d)
    by_cases hdc : d = c
    · rw [hdc, update_self]
      exact hlocals
    · rw [update_of_ne hdc, hpcs]
      exact h.locals d
  · show ∃ l, update t.pcs c pc' d = .queued l
    rcases hqueue d hd with hd | ⟨rfl, hq⟩
    · obtain ⟨l, hl⟩ := h.queue d hd
      have hdc : d ≠ c := by
        rintro rfl
        exact hqueued l (hc.symm.trans hl)
      rw [update_of_ne hdc, hpcs]
      exact ⟨l, hl⟩
    · rw [update_self]
      exact hq

theorem goto_state {pc pc' : Pc} {v : ℤ} {lastco : Option ι} (hc : s.pcs c = pc)
    (hqueued : ∀ l, pc ≠ .queued l) (hlocals : localsOk pc')
    (hbalance : ∀ h a t' f n : ℕ, h + pc.holds = tally Pc.holds s.pcs + pc'.holds →
      a + pc.awakes = tally Pc.awakes s.pcs + pc'.awakes →
      t' + pc.tokens = tally Pc.tokens s.pcs + pc'.tokens →
      f + pc.hands = tally Pc.hands s.pcs + pc'.hands →
      n + pc.sleeps = tally Pc.sleeps s.pcs + pc'.sleeps →
      Balance v h a (t' + s.dontWait.toNat) f n) :
    ({ s with state := v, lastco := lastco }.goto c pc').Inv :=
  h.goto (t := { s with state := v, lastco := lastco }) hc rfl hqueued h.running
    (fun _ hd => .inl hd) h.nodup hlocals hbalance

theorem goto_same {pc pc' : Pc} (hc : s.pcs c = pc) (hqueued : ∀ l, pc ≠ .queued l)
    (hlocals : localsOk pc') (hholds : pc'.holds = pc.holds) (hawakes : pc'.awakes = pc.awakes)
    (htokens : pc'.tokens = pc.tokens) (hhands : pc'.hands = pc.hands)
    (hsleeps : pc'.sleeps = pc.sleeps) : (s.goto c pc').Inv := by
  refine h.goto_state hc hqueued hlocals fun h' a t f n hh ha ht hf hn => ?_
  rw [hholds, Nat.add_right_cancel_iff] at hh
  rw [hawakes, Nat.add_right_cancel_iff] at ha
  rw [htokens, Nat.add_right_cancel_iff] at ht
  rw [hhands, Nat.add_right_cancel_iff] at hf
  rw [hsleeps, Nat.add_right_cancel_iff] at hn
  rw [hh, ha, ht, hf, hn]
  exact h.balance

theorem lock (hc : s.pcs c = .outside) (spurious : Bool) :
    (s.lock c spurious).Inv := by
  unfold Mutex.lock
  split
  · rename_i hstate
    refine h.goto_state hc nofun trivial fun h' a t f n hh ha ht hf hn => ?_
    have hb := h.balance
    rw [hstate.1] at hb
    simp only [holds, awakes, tokens, hands, sleeps] at hh ha ht hf hn
    obtain ⟨hlocked, hnormal, -⟩ := hb
    have hnormal := hnormal (by decide)
    have h0 : locked 0 = 0 ∧ woken 0 = 0 ∧ waiters 0 = 0 := by decide
    have h1 : locked 1 = 1 ∧ woken 1 = 0 ∧ starving 1 = 0 ∧ waiters 1 = 0 := by decide
    constructor
    · omega
    · intro _
      omega
    · intro hs
      omega
  · exact h.goto_same hc nofun nofun rfl rfl rfl rfl rfl

theorem load (hc : s.pcs c = .loading l) :
    (s.goto c (.looping l s.state)).Inv := by
  have hlocals : l.starving = true → l.awoke = true := by
    have := h.locals c
    rwa [hc] at this
  refine h.goto_same hc nofun ⟨hlocals, fun hawoke => ?_⟩ rfl rfl rfl rfl rfl
  refine (h.balance.of_awoke ?_).2.1
  have hle := le_tally awakes s.pcs c
  rw [hc, awakes, hawoke] at hle
  exact hle

theorem spin (hc : s.pcs c = .looping l s.state)
    (hawoke : l.awoke = false) (hw : woken s.state = 0) (hs : starving s.state = 0) :
    ({ s with state := setWoken s.state }.goto c
      (.loading { l with awoke := true, iter := l.iter + 1 })).Inv := by
  refine h.goto_state hc nofun (fun _ => rfl) fun h' a t f n hh ha ht hf hn => ?_
  simp only [holds, awakes, tokens, hands, sleeps, hawoke, Bool.toNat_true,
    Bool.toNat_false] at hh ha ht hf hn
  obtain ⟨hlocked, hnormal, -⟩ := h.balance
  have hnormal := hnormal hs
  constructor
  · rw [locked_setWoken]
    omega
  · intro _
    rw [woken_setWoken, waiters_setWoken]
    omega
  · intro hs'
    rw [starving_setWoken] at hs'
    omega

theorem acquire {lastco : Option ι} (hc : s.pcs c = .looping l s.state)
    (hl : locked s.state = 0) (hs : starving s.state = 0) :
    ({ s with
      state := if l.awoke then clearWoken (newState l s.state) else newState l s.state
      lastco := lastco }.goto c .inside).Inv := by
  refine h.goto_state hc nofun trivial fun h' a t f n hh ha ht hf hn => ?_
  simp only [holds, awakes, tokens, hands, sleeps] at hh ha ht hf hn
  rw [newState_of_free l hl hs]
  obtain ⟨hlocked, hnormal, -⟩ := h.balance
  have hnormal := hnormal hs
  cases hawoke : l.awoke with
  | false =>
    rw [hawoke, Bool.toNat_false] at ha
    simp only [Bool.false_eq_true, if_false]
    constructor
    · rw [locked_setLocked]
      omega
    · intro _
      rw [woken_setLocked, waiters_setLocked]
      omega
    · intro hs'
      rw [starving_setLocked] at hs'
      omega
  | true =>
    have hw := h.of_awoke hc hawoke
    rw [hawoke, Bool.toNat_true] at ha
    simp only [if_true]
    constructor
    · rw [locked_clearWoken, locked_setLocked]
      omega
    · intro _
      rw [woken_clearWoken, waiters_clearWoken, waiters_setLocked]
      omega
    · intro hs'
      rw [starving_clearWoken, starving_setLocked] at hs'
      omega

theorem enqueue (hc : s.pcs c = .looping l s.state)
    (hne : ¬(locked s.state = 0 ∧ starving s.state = 0)) :
    ({ s with
      state := if l.awoke then clearWoken (newState l s.state) else newState l s.state }.goto c
      (.waiting l)).Inv := by
  have hlcases := locked_cases s.state
  have hscases := starving_cases s.state
  obtain ⟨hl, hw, hst⟩ := bits_newState (v := s.state) l (by omega)
  have hlocals : localsOk (.looping l s.state) := hc ▸ h.locals c
  refine h.goto_state hc nofun trivial fun h' a t f n hh ha ht hf hn => ?_
  simp only [holds, awakes, tokens, hands, sleeps] at hh ha ht hf hn
  obtain ⟨hlocked, hnormal, hstarved⟩ := h.balance
  cases hawoke : l.awoke with
  | false =>
    -- it is not starving either, so only the count changes
    have hns : ¬(l.starving = true ∧ locked s.state = 1) := by
      rintro ⟨hstarving, -⟩
      exact absurd (hlocals.1 hstarving) (by rw [hawoke]; decide)
    rw [if_neg hns] at hst
    rw [hawoke, Bool.toNat_false] at ha
    simp only [Bool.false_eq_true, if_false]
    constructor
    · rw [hl]
      omega
    · intro hs'
      rw [hst] at hs'
      have hnormal := hnormal hs'
      rw [woken_newState, hw]
      omega
    · intro hs'
      rw [hst] at hs'
      have hstarved := hstarved hs'
      rw [woken_newState, hl, hw]
      omega
  | true =>
    -- the woken bit is reset, and no token is around
    obtain ⟨hs, hwoken, hone, htoken⟩ := h.of_awoke hc hawoke
    have hnormal := hnormal hs
    rw [hawoke, Bool.toNat_true] at ha
    simp only [if_true]
    constructor
    · rw [locked_clearWoken, hl]
      omega
    · intro _
      rw [woken_clearWoken, waiters_clearWoken, hw]
      omega
    · intro _
      rw [woken_clearWoken, waiters_clearWoken, locked_clearWoken, hl, hw]
      omega

/-- **One round of the loop** of `lockSlow`. -/
theorem loop (hc : s.pcs c = .looping l oldV)
    (spurious late : Bool) : (s.loop c l oldV spurious late).Inv := by
  have hlocals : localsOk (.looping l oldV) := hc ▸ h.locals c
  unfold Mutex.loop
  split
  · rename_i hspin
    split
    · rename_i hcas
      obtain ⟨hawoke, hw, -, rfl, -⟩ := hcas
      exact h.spin hc hawoke hw hspin.2.1
    · exact h.goto_same hc nofun hlocals.1 rfl rfl rfl rfl rfl
  · split
    · exact h
    · dsimp only
      split
      · -- the local copy has the woken bit
        rename_i habort
        have hw := hlocals.2 habort.1
        rw [woken_newState] at habort
        omega
      · split
        · rename_i hcas
          obtain ⟨rfl, -⟩ := hcas
          split
          · rename_i hfree
            exact h.acquire hc hfree.1 hfree.2
          · rename_i hne
            exact h.enqueue hc hne
        · exact h.goto_same hc nofun hlocals.1 rfl rfl rfl rfl rfl

theorem wait (hc : s.pcs c = .waiting l) : (s.wait c l).Inv := by
  unfold Mutex.wait
  split
  · -- the token in `dontWait_` is taken
    rename_i hdont
    refine h.goto (t := { s with dontWait := false }) hc rfl nofun h.running (fun _ hd => .inl hd)
      h.nodup trivial fun h' a t f n hh ha ht hf hn => ?_
    simp only [holds, awakes, tokens, hands, sleeps] at hh ha ht hf hn
    have hb := h.balance
    rw [hdont, Bool.toNat_true] at hb
    have ht' : t + false.toNat = tally tokens s.pcs + 1 := ht
    rw [ht']
    obtain ⟨rfl, rfl, rfl, rfl⟩ : h' = tally holds s.pcs ∧ a = tally awakes s.pcs ∧
      f = tally hands s.pcs ∧ n = tally sleeps s.pcs := by omega
    exact hb
  · have hnot : c ∉ s.waitRoutines := by
      intro hmem
      obtain ⟨l', hl'⟩ := h.queue c hmem
      rw [hc] at hl'
      cases hl'
    refine h.goto (t := { s with waitRoutines := if l.waited then c :: s.waitRoutines
      else s.waitRoutines ++ [c] }) hc rfl nofun h.running (fun d hd => ?_) ?_ trivial
      fun h' a t f n hh ha ht hf hn => ?_
    · have hmem : d = c ∨ d ∈ s.waitRoutines := by
        simp only at hd
        split at hd
        · exact List.mem_cons.1 hd
        · exact (List.mem_append.1 hd).symm.imp_left List.mem_singleton.1
      exact hmem.symm.imp_right fun hd => ⟨hd, _, rfl⟩
    · simp only
      split
      · exact List.nodup_cons.2 ⟨hnot, h.nodup⟩
      · exact (List.perm_append_singleton c _).nodup_iff.2 (List.nodup_cons.2 ⟨hnot, h.nodup⟩)
    · simp only [holds, awakes, tokens, hands, sleeps, Nat.add_right_cancel_iff,
        Nat.add_zero] at hh ha ht hf hn
      rw [hh, ha, ht, hf, hn]
      exact h.balance

theorem wake (hc : s.pcs c = .awake l) (late : Bool) :
    (s.wake c l late).Inv := by
  have hlcases := locked_cases s.state
  have htoken := le_tally tokens s.pcs c
  have hsleep := le_tally sleeps s.pcs c
  rw [hc] at htoken hsleep
  simp only [tokens, sleeps] at htoken hsleep
  obtain ⟨hlocked, hnormal, hstarved⟩ := h.balance
  unfold Mutex.wake
  dsimp only
  split
  · rename_i hs
    have hstarved := hstarved hs
    split
    · -- the mutex was left to it
      rename_i habort
      omega
    · refine h.goto_state hc nofun trivial fun h' a t f n hh ha ht hf hn => ?_
      simp only [holds, awakes, tokens, hands, sleeps] at hh ha ht hf hn
      constructor
      · omega
      · intro hs'
        omega
      · intro _
        omega
  · rename_i hs
    have hs : starving s.state = 0 := (starving_cases s.state).resolve_right hs
    have hnormal := hnormal hs
    have hw := woken_cases s.state
    have hwoken : woken s.state = 1 := by omega
    refine h.goto_state hc nofun ⟨fun _ => rfl, fun _ => hwoken⟩ fun h' a t f n hh ha ht hf hn => ?_
    simp only [holds, awakes, tokens, hands, sleeps, Bool.toNat_true]
      at hh ha ht hf hn
    constructor
    · omega
    · intro _
      omega
    · intro hs'
      omega

theorem takeOver (hc : s.pcs c = .handed l oldV) :
    (s.takeOver c l oldV).Inv := by
  have hhand := le_tally hands s.pcs c
  rw [hc] at hhand
  simp only [hands] at hhand
  have hlcases := locked_cases s.state
  obtain ⟨hlocked, hnormal, hstarved⟩ := h.balance
  have hs : starving s.state = 1 := by
    refine (starving_cases s.state).resolve_left fun hs => ?_
    have hnormal := hnormal hs
    omega
  have hstarved := hstarved hs
  obtain ⟨hl', hw', hn'⟩ := bits_delta l oldV (by omega) hstarved.2.1 hs
  refine h.goto_state hc nofun trivial fun h' a t f n hh ha ht hf hn => ?_
  simp only [holds, awakes, tokens, hands, sleeps] at hh ha ht hf hn
  constructor
  · rw [hl']
    omega
  · intro _
    rw [hw', hn']
    omega
  · intro _
    rw [hl', hw', hn']
    omega

theorem unlock (hc : s.pcs c = .inside) : (s.unlock c).Inv := by
  have hhold := le_tally holds s.pcs c
  rw [hc] at hhold
  simp only [holds] at hhold
  have hlcases := locked_cases s.state
  obtain ⟨hlocked, hnormal, hstarved⟩ := h.balance
  have hl : locked s.state = 1 := by omega
  obtain ⟨hl', hw', hs', hn'⟩ := bits_sub_one hl
  -- what the coroutine does next makes a difference only in starvation mode
  have hleave : ∀ pc : Pc, pc.holds = 0 → pc.awakes = 0 → pc.hands = 0 → pc.sleeps = 0 →
      localsOk pc → (pc.tokens : ℤ) = starving s.state →
      ({ s with state := s.state - 1 }.goto c pc).Inv := by
    intro pc h1 h2 h3 h4 h5 h6
    refine h.goto_state hc nofun h5 fun h' a t f n hh ha ht hf hn => ?_
    rw [h1] at hh
    rw [h2] at ha
    rw [h3] at hf
    rw [h4] at hn
    generalize pc.tokens = w at ht h6
    simp only [holds, awakes, tokens, hands, sleeps] at hh ha ht hf hn
    constructor
    · rw [hl']
      omega
    · intro hs
      rw [hs'] at hs
      have hnormal := hnormal hs
      rw [hw', hn']
      omega
    · intro hs
      rw [hs'] at hs
      have hstarved := hstarved hs
      rw [hl', hw', hn']
      omega
  unfold Mutex.unlock
  dsimp only
  split
  · rename_i hzero
    refine hleave .outside rfl rfl rfl rfl trivial ?_
    rw [← hs', hzero]
    rfl
  · split
    · rename_i habort
      rw [Int.sub_add_cancel, hl] at habort
      cases habort
    · split
      · rename_i hs
        refine hleave (.unlocking _) rfl rfl rfl rfl trivial ?_
        rw [← hs', hs]
        rfl
      · rename_i hs
        refine hleave .posting rfl rfl rfl rfl trivial ?_
        have := starving_cases (s.state - 1)
        rw [← hs', this.resolve_left hs]
        rfl

theorem unlockLoop (hc : s.pcs c = .unlocking oldV) (spurious : Bool) :
    (s.unlockLoop c oldV spurious).Inv := by
  unfold Mutex.unlockLoop
  split
  · rename_i hmay
    split
    · rename_i hcas
      obtain ⟨rfl, -⟩ := hcas
      obtain ⟨hne, hl, hw, hs⟩ := mayWake_iff.1 hmay
      obtain ⟨hl', hw', hs', hn'⟩ := bits_sub_eight (v := s.state)
      obtain ⟨hlocked, hnormal, -⟩ := h.balance
      have hnormal := hnormal hs
      refine h.goto_state hc nofun trivial fun h' a t f n hh ha ht hf hn => ?_
      simp only [holds, awakes, tokens, hands, sleeps] at hh ha ht hf hn
      constructor
      · rw [locked_setWoken, hl']
        omega
      · intro _
        rw [woken_setWoken, waiters_setWoken, hn']
        omega
      · intro hs''
        rw [starving_setWoken, hs'] at hs''
        omega
    · exact h.goto_same hc nofun trivial rfl rfl rfl rfl rfl
  · exact h.goto_same hc nofun trivial rfl rfl rfl rfl rfl

theorem pop {d : ι} {rest : List ι} (hc : s.pcs c = .posting)
    (hqueue : s.waitRoutines = d :: rest) (hl : s.pcs d = .queued l) :
    (({ s with waitRoutines := rest }.goto c .outside).goto d (.popped l)).Inv := by
  have hnodup := h.nodup
  rw [hqueue] at hnodup
  obtain ⟨hd, hrest⟩ := List.nodup_cons.1 hnodup
  have hdc : d ≠ c := by
    rintro rfl
    rw [hc] at hl
    cases hl
  have htally : ∀ f : Pc → ℕ,
      tally f (({ s with waitRoutines := rest }.goto c .outside).goto d (.popped l)).pcs +
        f .posting + f (.queued l) = tally f s.pcs + f .outside + f (.popped l) := by
    intro f
    rw [← hc, ← hl]
    exact tally_update_update f s.pcs hdc .outside (.popped l)
  have hh := htally holds
  have ha := htally awakes
  have ht := htally tokens
  have hf := htally hands
  have hn := htally sleeps
  simp only [holds, awakes, tokens, hands, sleeps, Nat.add_zero,
    Nat.add_right_cancel_iff] at hh ha ht hf hn
  refine ⟨h.running, ?_, fun e => ?_, fun e he => ?_, hrest⟩
  · rw [hh, ha, ht, hf, hn]
    exact h.balance
  · show localsOk (update (update s.pcs c .outside) d (.popped l) e)
    by_cases hed : e = d
    · rw [hed, update_self]
      trivial
    · rw [update_of_ne hed]
      by_cases hec : e = c
      · rw [hec, update_self]
        trivial
      · rw [update_of_ne hec]
        exact h.locals e
  · show ∃ l', update (update s.pcs c .outside) d (.popped l) e = .queued l'
    obtain ⟨l', he'⟩ := h.queue e (by rw [hqueue]; exact List.mem_cons_of_mem _ he)
    have hed : e ≠ d := ne_of_mem_of_not_mem he hd
    have hec : e ≠ c := by
      rintro rfl
      rw [hc] at he'
      cases he'
    rw [update_of_ne hed, update_of_ne hec]
    exact ⟨l', he'⟩

theorem post (hc : s.pcs c = .posting) : (s.post c).Inv := by
  unfold Mutex.post
  split
  · -- the token goes to `dontWait_`
    have hb := h.balance
    rw [h.dontWait_of_posting hc, Bool.toNat_false, Nat.add_zero] at hb
    refine h.goto (t := { s with dontWait := true }) hc rfl nofun h.running (fun _ hd => .inl hd)
      h.nodup trivial fun h' a t f n hh ha ht hf hn => ?_
    simp only [holds, awakes, tokens, hands, sleeps, Nat.add_zero] at hh ha ht hf hn
    have ht' : t + true.toNat = tally tokens s.pcs := ht
    rw [hh, ha, ht', hf, hn]
    exact hb
  · rename_i d rest hqueue
    obtain ⟨l, hl⟩ := h.queue d (by rw [hqueue]; exact List.mem_cons_self)
    have hdc : d ≠ c := by
      rintro rfl
      rw [hc] at hl
      cases hl
    have hl' : ({ s with waitRoutines := rest }.goto c .outside).pcs d = .queued l := by
      show update s.pcs c .outside d = _
      rw [update_of_ne hdc, hl]
    dsimp only
    rw [hl']
    exact h.pop hc hqueue hl

theorem step {a : Action ι} (ha : s.wokenByPost a = true) (hs : s.step a = some s') : s'.Inv := by
  cases move_of_step ha hs with
  | lock hc spurious => exact h.lock hc spurious
  | load hc => exact h.load hc
  | reload hc | resume hc => exact h.goto_same hc nofun trivial rfl rfl rfl rfl rfl
  | loop hc spurious late => exact h.loop hc spurious late
  | wait hc => exact h.wait hc
  | wake hc late => exact h.wake hc late
  | takeOver hc => exact h.takeOver hc
  | unlock hc => exact h.unlock hc
  | unlockLoop hc spurious => exact h.unlockLoop hc spurious
  | post hc => exact h.post hc

theorem exclusive {d : ι} (hc : s.pcs c = .inside) (hd : s.pcs d = .inside) :
    c = d := by
  refine eq_of_tally_le_one (f := holds) h.balance.holds_le ?_ ?_
  · rw [hc]
    exact Nat.one_pos
  · rw [hd]
    exact Nat.one_pos

end

end Inv

theorem inv_of_run [DecidableEq ι] {as : List (Action ι)}
    (h : run (restrict wokenByPost Mutex.step) init as = some s) : s.Inv :=
  run_restrict_invariant (fun _ _ _ ht ha hs => ht.step ha hs) inv_init h

/-- With fewer than 2 ^ 28 coroutines `state_` does not overflow. -/
theorem Inv.state_bounds (h : s.Inv) (hcard : Fintype.card ι < 2 ^ 28) :
    -2 ^ 31 ≤ s.state ∧ s.state < 2 ^ 31 := by
  have hsleeps : tally sleeps s.pcs ≤ Fintype.card ι :=
    tally_le_card (fun pc => by cases pc <;> simp [sleeps]) s.pcs
  have htoken := h.balance.token_le
  have hwaiters : s.state = 8 * waiters s.state + s.state % 8 := by
    unfold waiters
    omega
  rcases starving_cases s.state with hs | hs
  · have hnormal := h.balance.normal hs
    omega
  · have hstarved := h.balance.starved hs
    omega

end Mutex

/-- **Mutual exclusion**, with any number of coroutines that lock and unlock, as long as each of
them is woken by a `post` only. -/
theorem mutex_exclusive {ι : Type} [Fintype ι] [DecidableEq ι] (as : List (Action ι))
    (s : Mutex ι) (h : run (restrict Mutex.wokenByPost Mutex.step) Mutex.init as = some s) :
    (∀ c d, s.pcs c = .inside → s.pcs d = .inside → c = d) ∧ s.aborted = false ∧
      (Fintype.card ι < 2 ^ 28 → -2 ^ 31 ≤ s.state ∧ s.state < 2 ^ 31) := by
  have hinv := inv_of_run h
  exact ⟨fun c d hc hd => hinv.exclusive hc hd, hinv.running, hinv.state_bounds⟩

/-- A coroutine waits while another one is inside, is woken late, loses the mutex to a third one,
sets the starvation bit, and is left the mutex. -/
def leftToWaiter : List (Action (Fin 3)) :=
  [.lock 0 false, .lock 1 true, .load 1, .loop 1 false false, .load 1, .loop 1 false false,
    .load 1, .loop 1 false false, .load 1, .loop 1 false false, .load 1, .loop 1 false false,
    .wait 1, .unlock 0, .unlockLoop 0 false, .post 0, .resume 1, .lock 2 true, .load 2,
    .loop 2 false false, .wake 1 true, .loop 1 false false, .load 1, .loop 1 false false,
    .load 1, .loop 1 false false, .load 1, .loop 1 false false, .load 1, .loop 1 false false,
    .wait 1, .unlock 2, .post 2, .resume 1, .wake 1 false, .takeOver 1]

theorem mutex_exclusive_leftToWaiter : ∃ s,
    run (restrict Mutex.wokenByPost Mutex.step) Mutex.init leftToWaiter = some s ∧
      s.pcs 1 = .inside ∧ (∀ c d, s.pcs c = .inside → s.pcs d = .inside → c = d) ∧
      s.aborted = false ∧ -2 ^ 31 ≤ s.state ∧ s.state < 2 ^ 31 := by
  refine exists_run_and (by decide +kernel) fun s hs _ => ?_
  obtain ⟨hone, hrunning, hbounds⟩ := mutex_exclusive leftToWaiter s hs
  exact ⟨hone, hrunning, hbounds (by decide)⟩

/-- A coroutine finds the mutex locked, spins and goes to sleep. -/
def fallAsleep {ι : Type} (c : ι) : List (Action ι) :=
  [.lock c true, .load c, .loop c false false, .load c, .loop c false false, .load c,
    .loop c false false, .load c, .loop c false false, .load c, .loop c false false, .wait c]

/-- The coroutine `d` sleeps while `c` is inside, and is activated. -/
def expiredWaiter {ι : Type} (c d : ι) : List (Action ι) :=
  List.flatten [[.lock c false], fallAsleep d,
    [.activate d, .wake d false, .loop d false false, .load d, .loop d false false, .load d,
      .loop d false false, .load d, .loop d false false, .load d, .loop d false false]]

/-- **A timed caller aborts the process**: it takes itself for woken, and the woken bit is not
set. -/
theorem activated_waiter_aborts : ∃ s,
    run Mutex.step Mutex.init (expiredWaiter (0 : Fin 2) 1) = some s ∧ s.pcs 0 = .inside ∧
      s.aborted = true := by
  exact exists_run_of_decide (by decide +kernel)

end Corpc.Lock
