/-
# A writer excludes everybody else

The counters of a `RWMutex` and the units of its semaphores balance what the coroutines do
(`Balanced`).  `readerCount_` is the number of readers, less 2 ^ 30 for a writer that has
announced itself.
-/

import Corpc.Lock.RWMutex

namespace Corpc.Lock

open Corpc.Basis List Option Nat Function

namespace Semaphore

variable {ι : Type} (m : Semaphore ι)

theorem wait_of_pos {m : Semaphore ι} (hm : 0 < m.res) (c : ι) :
    m.wait c = ({ m with res := m.res - 1 }, true) := by
  rw [wait, if_neg (by omega)]

theorem wait_of_zero {m : Semaphore ι} (hm : m.res = 0) (c : ι) :
    m.wait c = ({ m with waitRoutines := m.waitRoutines ++ [c] }, false) := by
  rw [wait, if_pos hm]

theorem post_cases : m.post = ({ m with res := m.res + 1 }, none) ∨
    ∃ d rest, m.waitRoutines = d :: rest ∧ m.post = ({ m with waitRoutines := rest }, some d) := by
  unfold post
  split
  · rename_i hm
    split
    · left
      rw [hm]
    · rename_i d rest hq
      exact .inr ⟨d, rest, hq, rfl⟩
  · exact .inl rfl

end Semaphore

namespace RWMutex

/-- The coroutines in the queue of a semaphore are at `pc`. -/
structure Parked {ι : Type} (pcs : ι → Pc) (pc : Pc) (m : Semaphore ι) : Prop where
  place : ∀ c, c ∈ m.waitRoutines → pcs c = pc
  nodup : m.waitRoutines.Nodup

namespace Parked

variable {ι : Type} {pcs : ι → Pc} {pc : Pc} {m : Semaphore ι} {c : ι}

theorem res (h : Parked pcs pc m) (n : ℕ) : Parked pcs pc { m with res := n } :=
  ⟨h.place, h.nodup⟩

variable [DecidableEq ι]

theorem update (h : Parked pcs pc m) (hc : pcs c ≠ pc) (pc' : Pc) :
    Parked (Function.update pcs c pc') pc m := by
  refine ⟨fun d hd => ?_, h.nodup⟩
  have hdc : d ≠ c := by
    rintro rfl
    exact hc (h.place d hd)
  rw [update_of_ne hdc]
  exact h.place d hd

theorem push (h : Parked pcs pc m) (hc : pcs c ≠ pc) :
    Parked (Function.update pcs c pc) pc
      { m with waitRoutines := m.waitRoutines ++ [c] } := by
  have hnot : c ∉ m.waitRoutines := fun hmem => hc (h.place c hmem)
  constructor
  · intro d hd
    rcases mem_append.1 hd with hd | hd
    · exact (h.update hc pc).place d hd
    · rw [mem_singleton.1 hd, update_self]
  · exact (perm_append_singleton c _).nodup_iff.2 (nodup_cons.2 ⟨hnot, h.nodup⟩)

theorem pop (h : Parked pcs pc m) {rest : List ι} (hq : m.waitRoutines = c :: rest) (pc' : Pc) :
    Parked (Function.update pcs c pc') pc { m with waitRoutines := rest } := by
  have hnodup := h.nodup
  rw [hq, nodup_cons] at hnodup
  refine ⟨fun d hd => ?_, hnodup.2⟩
  have hdc : d ≠ c := by
    rintro rfl
    exact hnodup.1 hd
  rw [update_of_ne hdc]
  exact h.place d (by rw [hq]; exact mem_cons_of_mem c hd)

end Parked

inductive Kind where
  /-- counted by `readerCount_` -/
  | readers
  | reads
  | leaves
  | posts
  | locks
  | counts
  /-- what a writer will add to `readerWait_` -/
  | owes
  | awaits
  | writes
  | lets
  /-- the calls of `readerSem_.post()` to come -/
  | units

def Pc.weight : Pc → Kind → ℕ
  | .readWait, .readers => 1
  | .readParked, .readers => 1
  | .reading, .readers => 1
  | .reading, .reads => 1
  | .readLeaving, .leaves => 1
  | .readPosting, .posts => 1
  | .writeLocked, .locks => 1
  | .writeCounting _, .counts => 1
  | .writeCounting r, .owes => r.toNat
  | .writeWait, .awaits => 1
  | .writeParked, .awaits => 1
  | .writing, .writes => 1
  | .writePosting _, .lets => 1
  | .writePosting posts, .units => posts
  | _, _ => 0

theorem Kind.forall {P : Kind → Prop} (h : ∀ k, P k) : P .readers ∧ P .reads ∧ P .leaves ∧
    P .posts ∧ P .locks ∧ P .counts ∧ P .owes ∧ P .awaits ∧ P .writes ∧ P .lets ∧ P .units :=
  ⟨h _, h _, h _, h _, h _, h _, h _, h _, h _, h _, h _⟩

/-- How far a writer is, and what follows for the counters and the units of the semaphores. -/
inductive Phase (T : Kind → ℕ) (readerCount readerWait : ℤ) (readerRes writerRes : ℕ) : Prop where
  | unannounced (writer : T .counts = 0 ∧ T .awaits = 0 ∧ T .writes = 0)
      (count : readerCount = T .readers ∧ T .readers = T .reads + readerRes + T .units)
      (wait : readerWait = 0 ∧ T .leaves = 0 ∧ T .posts = 0 ∧ writerRes = 0)
  | counting (writer : T .counts = 1 ∧ T .awaits = 0 ∧ T .writes = 0)
      (count : readerCount = T .readers - 2 ^ 30 ∧ T .reads + readerRes + T .leaves ≤ T .owes)
      (wait : readerWait = T .reads + readerRes + T .leaves - T .owes ∧ T .posts = 0 ∧
        writerRes = 0)
  | awaiting (writer : T .counts = 0 ∧ T .awaits = 1 ∧ T .writes = 0)
      (count : readerCount = T .readers - 2 ^ 30 ∧ readerWait = T .reads + readerRes + T .leaves)
      (wait : (readerWait = 0 ∧ T .posts + writerRes = 1) ∨
        (readerWait ≠ 0 ∧ T .posts + writerRes = 0))
  | writing (writer : T .counts = 0 ∧ T .awaits = 0 ∧ T .writes = 1)
      (count : readerCount = T .readers - 2 ^ 30 ∧ T .reads + readerRes = 0)
      (wait : readerWait = 0 ∧ T .leaves = 0 ∧ T .posts = 0 ∧ writerRes = 0)

theorem eq_of_weight_eq {S T : Kind → ℕ} {pc pc' : Pc}
    (hT : ∀ k, T k + pc.weight k = S k + pc'.weight k) (hw : pc.weight = pc'.weight) : T = S := by
  funext k
  have hk := hT k
  rw [hw] at hk
  exact add_right_cancel hk

/-- The counters, the units of the semaphores and `wlock_` balance the tallies. -/
structure Balanced (T : Kind → ℕ) (readerCount readerWait : ℤ) (readerRes writerRes : ℕ)
    (held : Bool) : Prop where
  held : T .locks + T .counts + T .awaits + T .writes + T .lets = held.toNat
  few : T .readers < 2 ^ 30
  phase : Phase T readerCount readerWait readerRes writerRes

variable {ι : Type} [Fintype ι]

def tallies (s : RWMutex ι) (k : Kind) : ℕ := tally (Pc.weight · k) s.pcs

theorem tallies_eq_zero (s : RWMutex ι) : (s.tallies .counts = 0 → s.tallies .owes = 0) ∧
    (s.tallies .lets = 0 → s.tallies .units = 0) := by
  unfold tallies
  simp only [tally_eq_zero_iff]
  constructor
  · intro h i
    have hi := h i
    cases hpc : s.pcs i <;> simp_all [Pc.weight]
  · intro h i
    have hi := h i
    cases hpc : s.pcs i <;> simp_all [Pc.weight]

structure Inv (s : RWMutex ι) : Prop where
  running : s.aborted = false
  balanced : Balanced s.tallies s.readerCount s.readerWait s.readerSem.res s.writerSem.res
    s.wlock.isSome
  counting : ∀ c r, s.pcs c = .writeCounting r → 0 ≤ r
  readers : Parked s.pcs .readParked s.readerSem
  writers : Parked s.pcs .writeParked s.writerSem

def fewReaders (s : RWMutex ι) : Action ι → Bool
  | .rlock _ => s.tallies .readers + 1 < 2 ^ 30
  | _ => true

theorem inv_init : (init : RWMutex ι).Inv := by
  have hzero : (init : RWMutex ι).tallies = fun _ => 0 :=
    funext fun k => tally_const (by cases k <;> rfl)
  refine ⟨rfl, ?_, nofun, ⟨nofun, nodup_nil⟩, ⟨nofun, nodup_nil⟩⟩
  show Balanced (init : RWMutex ι).tallies 0 0 0 0 false
  rw [hzero]
  exact ⟨rfl, by decide, .unannounced ⟨rfl, rfl, rfl⟩ ⟨rfl, rfl⟩ ⟨rfl, rfl, rfl, rfl⟩⟩

namespace Inv

variable {s : RWMutex ι} {c : ι}

theorem weight_le (s : RWMutex ι) {pc : Pc} (hc : s.pcs c = pc) (k : Kind) :
    pc.weight k ≤ s.tallies k := by
  rw [← hc]
  exact le_tally (Pc.weight · k) s.pcs c

variable [DecidableEq ι]

theorem tallies_goto (s : RWMutex ι) {pc : Pc} (hc : s.pcs c = pc) (pc' : Pc) (k : Kind) :
    (s.goto c pc').tallies k + pc.weight k = s.tallies k + pc'.weight k := by
  rw [← hc]
  exact tally_update (Pc.weight · k) s.pcs c pc'

section

variable (h : s.Inv)
include h

theorem goto {t : RWMutex ι} {pc pc' : Pc} (hc : s.pcs c = pc) (hpcs : t.pcs = s.pcs)
    (hrunning : t.aborted = false) (hcounting : ∀ r, pc' = .writeCounting r → 0 ≤ r)
    (hreaders : Parked (Function.update s.pcs c pc') .readParked t.readerSem)
    (hwriters : Parked (Function.update s.pcs c pc') .writeParked t.writerSem)
    (hbalanced : ∀ T : Kind → ℕ, (∀ k, T k + pc.weight k = s.tallies k + pc'.weight k) →
      Balanced T t.readerCount t.readerWait t.readerSem.res t.writerSem.res t.wlock.isSome) :
    (t.goto c pc').Inv := by
  have hupdate : (t.goto c pc').pcs = Function.update s.pcs c pc' := by
    rw [← hpcs]
    rfl
  refine ⟨hrunning, hbalanced _ (fun k => ?_), fun d r hd => ?_, ?_, ?_⟩
  · unfold tallies
    rw [hupdate, ← hc]
    exact tally_update (Pc.weight · k) s.pcs c pc'
  · rw [hupdate] at hd
    by_cases hdc : d = c
    · rw [hdc, update_self] at hd
      exact hcounting r hd
    · rw [update_of_ne hdc] at hd
      exact h.counting d r hd
  · rw [hupdate]
    exact hreaders
  · rw [hupdate]
    exact hwriters

theorem goto_counters {pc pc' : Pc} (hc : s.pcs c = pc) (hr : pc ≠ .readParked)
    (hw : pc ≠ .writeParked) (hcounting : ∀ r, pc' = .writeCounting r → 0 ≤ r)
    (wlock : Option ι) (readerCount readerWait : ℤ)
    (hbalanced : ∀ T : Kind → ℕ, (∀ k, T k + pc.weight k = s.tallies k + pc'.weight k) →
      Balanced T readerCount readerWait s.readerSem.res s.writerSem.res wlock.isSome) :
    ({ s with wlock := wlock, readerCount := readerCount, readerWait := readerWait }.goto c
      pc').Inv := by
  refine h.goto hc rfl h.running hcounting (h.readers.update ?_ pc') (h.writers.update ?_ pc')
    hbalanced
  · rw [hc]
    exact hr
  · rw [hc]
    exact hw

theorem goto_readerSem {pc pc' : Pc} {res : ℕ} {q : List ι} (hc : s.pcs c = pc)
    (hw : pc ≠ .writeParked) (hcounting : ∀ r, pc' = .writeCounting r → 0 ≤ r)
    (hreaders : Parked (Function.update s.pcs c pc') .readParked ⟨res, q⟩)
    (hbalanced : ∀ T : Kind → ℕ, (∀ k, T k + pc.weight k = s.tallies k + pc'.weight k) →
      Balanced T s.readerCount s.readerWait res s.writerSem.res s.wlock.isSome) :
    ({ s with readerSem := ⟨res, q⟩ }.goto c pc').Inv := by
  refine h.goto (t := { s with readerSem := ⟨res, q⟩ }) hc rfl h.running hcounting hreaders
    (h.writers.update ?_ pc') hbalanced
  rw [hc]
  exact hw

theorem goto_writerSem {pc pc' : Pc} {res : ℕ} {q : List ι} (hc : s.pcs c = pc)
    (hr : pc ≠ .readParked) (hcounting : ∀ r, pc' = .writeCounting r → 0 ≤ r)
    (hwriters : Parked (Function.update s.pcs c pc') .writeParked ⟨res, q⟩)
    (hbalanced : ∀ T : Kind → ℕ, (∀ k, T k + pc.weight k = s.tallies k + pc'.weight k) →
      Balanced T s.readerCount s.readerWait s.readerSem.res res s.wlock.isSome) :
    ({ s with writerSem := ⟨res, q⟩ }.goto c pc').Inv := by
  refine h.goto (t := { s with writerSem := ⟨res, q⟩ }) hc rfl h.running hcounting
    (h.readers.update ?_ pc') hwriters hbalanced
  rw [hc]
  exact hr

theorem goto_goto {d : ι} {pc pc' p p' : Pc} {q q' : List ι} (hc : s.pcs c = pc)
    (hd : s.pcs d = p) (hne : pc ≠ p) (hcounting : ∀ r, pc' ≠ .writeCounting r)
    (hcounting' : ∀ r, p' ≠ .writeCounting r)
    (hreaders : Parked (Function.update (Function.update s.pcs c pc') d p') .readParked
      ⟨s.readerSem.res, q⟩)
    (hwriters : Parked (Function.update (Function.update s.pcs c pc') d p') .writeParked
      ⟨s.writerSem.res, q'⟩) (hbalanced : ∀ T : Kind → ℕ,
      (∀ k, T k + pc.weight k + p.weight k = s.tallies k + pc'.weight k + p'.weight k) →
      Balanced T s.readerCount s.readerWait s.readerSem.res s.writerSem.res s.wlock.isSome) :
    (({ s with
      readerSem := ⟨s.readerSem.res, q⟩
      writerSem := ⟨s.writerSem.res, q'⟩ }.goto c pc').goto d p').Inv := by
  have hdc : d ≠ c := by
    rintro rfl
    exact hne (hc.symm.trans hd)
  refine ⟨h.running, hbalanced _ fun k => ?_, fun e r he => ?_, hreaders, hwriters⟩
  · rw [← hc, ← hd]
    exact tally_update_update (Pc.weight · k) s.pcs hdc pc' p'
  · replace he : Function.update (Function.update s.pcs c pc') d p' e = .writeCounting r := he
    by_cases hed : e = d
    · rw [hed, update_self] at he
      exact absurd he (hcounting' r)
    · rw [update_of_ne hed] at he
      by_cases hec : e = c
      · rw [hec, update_self] at he
        exact absurd he (hcounting r)
      · rw [update_of_ne hec] at he
        exact h.counting e r he

theorem rlock (hc : s.pcs c = .outside) (hfew : s.tallies .readers + 1 < 2 ^ 30) :
    (s.rlock c).Inv := by
  unfold RWMutex.rlock maxReaders
  dsimp only
  split
  · rename_i habort
    cases h.balanced.phase <;> omega
  · have hheld := h.balanced.held
    split
    · refine h.goto_counters hc nofun nofun (by nofun) _ _ _ fun T hT => ?_
      have hT := Kind.forall hT
      simp only [Pc.weight, add_zero] at hT
      refine ⟨by omega, by omega, ?_⟩
      cases h.balanced.phase with
      | unannounced => omega
      | counting => exact .counting (by omega) (by omega) (by omega)
      | awaiting => exact .awaiting (by omega) (by omega) (by omega)
      | writing => exact .writing (by omega) (by omega) (by omega)
    · refine h.goto_counters hc nofun nofun (by nofun) _ _ _ fun T hT => ?_
      have hT := Kind.forall hT
      simp only [Pc.weight, add_zero] at hT
      refine ⟨by omega, by omega, ?_⟩
      cases h.balanced.phase with
      | unannounced => exact .unannounced (by omega) (by omega) (by omega)
      | counting | awaiting | writing => omega

theorem rlockWait (hc : s.pcs c = .readWait) : (s.rlockWait c).Inv := by
  have hr : s.pcs c ≠ .readParked := by
    rw [hc]
    nofun
  obtain ⟨hheld, hfew, hphase⟩ := h.balanced
  unfold RWMutex.rlockWait
  rcases Nat.eq_zero_or_pos s.readerSem.res with hm | hm
  · rw [Semaphore.wait_of_zero hm]
    show ({ s with readerSem := ⟨_, _⟩ }.goto c .readParked).Inv
    refine h.goto_readerSem hc nofun (by nofun) (h.readers.push hr) fun T hT => ?_
    rw [eq_of_weight_eq hT (funext fun k => by cases k <;> rfl)]
    exact h.balanced
  · rw [Semaphore.wait_of_pos hm]
    show ({ s with readerSem := ⟨_, _⟩ }.goto c .reading).Inv
    refine h.goto_readerSem hc nofun (by nofun) ((h.readers.update hr .reading).res _)
      fun T hT => ?_
    have hT := Kind.forall hT
    simp only [Pc.weight, add_zero] at hT
    refine ⟨by omega, by omega, ?_⟩
    cases hphase with
    | unannounced => exact .unannounced (by omega) (by omega) (by omega)
    | counting => exact .counting (by omega) (by omega) (by omega)
    | awaiting => exact .awaiting (by omega) (by omega) (by omega)
    | writing => omega

theorem runlock (hc : s.pcs c = .reading) : (s.runlock c).Inv := by
  obtain ⟨hheld, hfew, hphase⟩ := h.balanced
  have hreaders := weight_le s hc .readers
  have hreads := weight_le s hc .reads
  simp only [Pc.weight] at hreaders hreads
  unfold RWMutex.runlock maxReaders
  dsimp only
  split
  · split
    · rename_i habort
      cases hphase <;> omega
    · refine h.goto_counters hc nofun nofun (by nofun) _ _ _ fun T hT => ?_
      have hT := Kind.forall hT
      simp only [Pc.weight, add_zero] at hT
      refine ⟨by omega, by omega, ?_⟩
      cases hphase with
      | unannounced | writing => omega
      | counting => exact .counting (by omega) (by omega) (by omega)
      | awaiting => exact .awaiting (by omega) (by omega) (by omega)
  · refine h.goto_counters hc nofun nofun (by nofun) _ _ _ fun T hT => ?_
    have hT := Kind.forall hT
    simp only [Pc.weight, add_zero] at hT
    refine ⟨by omega, by omega, ?_⟩
    cases hphase with
    | unannounced => exact .unannounced (by omega) (by omega) (by omega)
    | counting | awaiting | writing => omega

theorem runlockLeave (hc : s.pcs c = .readLeaving) : (s.runlockLeave c).Inv := by
  obtain ⟨hheld, hfew, hphase⟩ := h.balanced
  have hle := weight_le s hc .leaves
  simp only [Pc.weight] at hle
  unfold RWMutex.runlockLeave
  split
  · -- the last of the readers that a writer waits for; one that is counting has not added them
    refine h.goto_counters hc nofun nofun (by nofun) _ _ _ fun T hT => ?_
    have hT := Kind.forall hT
    simp only [Pc.weight, add_zero] at hT
    refine ⟨by omega, by omega, ?_⟩
    cases hphase with
    | awaiting => exact .awaiting (by omega) (by omega) (by omega)
    | unannounced | counting | writing => omega
  · refine h.goto_counters hc nofun nofun (by nofun) _ _ _ fun T hT => ?_
    have hT := Kind.forall hT
    simp only [Pc.weight, add_zero] at hT
    refine ⟨by omega, by omega, ?_⟩
    cases hphase with
    | counting => exact .counting (by omega) (by omega) (by omega)
    | awaiting => exact .awaiting (by omega) (by omega) (by omega)
    | unannounced | writing => omega

theorem runlockPost (hc : s.pcs c = .readPosting) : (s.runlockPost c).Inv := by
  obtain ⟨hheld, hfew, hphase⟩ := h.balanced
  have hle := weight_le s hc .posts
  simp only [Pc.weight] at hle
  have hw : s.pcs c ≠ .writeParked := by
    rw [hc]
    nofun
  unfold RWMutex.runlockPost
  rcases s.writerSem.post_cases with hpost | ⟨d, rest, hq, hpost⟩
  · rw [hpost]
    refine h.goto_writerSem hc nofun (by nofun) ((h.writers.update hw .outside).res _)
      fun T hT => ?_
    have hT := Kind.forall hT
    simp only [Pc.weight, add_zero] at hT
    refine ⟨by omega, by omega, ?_⟩
    cases hphase with
    | awaiting => exact .awaiting (by omega) (by omega) (by omega)
    | unannounced | counting | writing => omega
  · rw [hpost]
    have hd : s.pcs d = .writeParked := h.writers.place d (by rw [hq]; exact mem_cons_self)
    refine h.goto_goto hc hd nofun nofun nofun ?_
      ((h.writers.update hw .outside).pop hq .writing) fun T hT => ?_
    · refine (h.readers.update ?_ _).update ?_ _
      · rw [hc]
        nofun
      · rw [update_of_ne (by rintro rfl; exact hw hd), hd]
        nofun
    have hT := Kind.forall hT
    simp only [Pc.weight, add_zero] at hT
    refine ⟨by omega, by omega, ?_⟩
    cases hphase with
    | awaiting => exact .writing (by omega) (by omega) (by omega)
    | unannounced | counting | writing => omega

theorem lockMutex (hc : s.pcs c = .writeLocking) (hfree : s.wlock = none) :
    ({ s with wlock := some c }.goto c .writeLocked).Inv := by
  obtain ⟨hheld, hfew, hphase⟩ := h.balanced
  rw [hfree, isSome_none, Bool.toNat_false] at hheld
  refine h.goto_counters hc nofun nofun (by nofun) _ _ _ fun T hT => ?_
  have hT := Kind.forall hT
  simp only [Pc.weight, add_zero] at hT
  rw [isSome_some]
  refine ⟨by rw [Bool.toNat_true]; omega, by omega, ?_⟩
  cases hphase with
  | unannounced => exact .unannounced (by omega) (by omega) (by omega)
  | counting | awaiting | writing => omega

theorem lockAnnounce (hc : s.pcs c = .writeLocked) : (s.lockAnnounce c).Inv := by
  obtain ⟨hheld, hfew, hphase⟩ := h.balanced
  obtain ⟨howes, hunits⟩ := tallies_eq_zero s
  have hone := s.wlock.isSome.toNat_le
  have hle := weight_le s hc .locks
  simp only [Pc.weight] at hle
  -- the mutex was its own, so no other writer has announced itself or still lets readers in
  obtain ⟨hwriter, hcount, hwait⟩ : (s.tallies .counts = 0 ∧ s.tallies .awaits = 0 ∧
      s.tallies .writes = 0) ∧ (s.readerCount = s.tallies .readers ∧
      s.tallies .readers = s.tallies .reads + s.readerSem.res) ∧ s.readerWait = 0 ∧
      s.tallies .leaves = 0 ∧ s.tallies .posts = 0 ∧ s.writerSem.res = 0 := by
    cases hphase <;> omega
  unfold RWMutex.lockAnnounce maxReaders
  dsimp only
  split
  · refine h.goto_counters hc nofun nofun (fun r hr => ?_) _ _ _ fun T hT => ?_
    · cases hr
      omega
    have hT := Kind.forall hT
    simp only [Pc.weight, add_zero] at hT
    refine ⟨by omega, by omega, .counting (by omega) (by omega) (by omega)⟩
  · refine h.goto_counters hc nofun nofun (by nofun) _ _ _ fun T hT => ?_
    have hT := Kind.forall hT
    simp only [Pc.weight, add_zero] at hT
    refine ⟨by omega, by omega, .writing (by omega) (by omega) (by omega)⟩

end

theorem owes_eq {r : ℤ} (hc : s.pcs c = .writeCounting r) (hone : s.tallies .counts ≤ 1) :
    s.tallies .owes = r.toNat := by
  have hT := Kind.forall (tallies_goto s hc .outside)
  have hzero := (tallies_eq_zero (s.goto c .outside)).1
  simp only [Pc.weight, add_zero] at hT
  omega

theorem lockCount (h : s.Inv) {r : ℤ} (hc : s.pcs c = .writeCounting r) :
    (s.lockCount c r).Inv := by
  obtain ⟨hheld, hfew, hphase⟩ := h.balanced
  have hr := h.counting c r hc
  have hone := s.wlock.isSome.toNat_le
  have howes := owes_eq hc (by omega)
  have hle := weight_le s hc .counts
  simp only [Pc.weight] at hle
  unfold RWMutex.lockCount
  split
  · refine h.goto_counters hc nofun nofun (by nofun) _ _ _ fun T hT => ?_
    have hT := Kind.forall hT
    simp only [Pc.weight, add_zero] at hT
    refine ⟨by omega, by omega, ?_⟩
    cases hphase with
    | counting => exact .awaiting (by omega) (by omega) (by omega)
    | unannounced | awaiting | writing => omega
  · refine h.goto_counters hc nofun nofun (by nofun) _ _ _ fun T hT => ?_
    have hT := Kind.forall hT
    simp only [Pc.weight, add_zero] at hT
    refine ⟨by omega, by omega, ?_⟩
    cases hphase with
    | counting => exact .writing (by omega) (by omega) (by omega)
    | unannounced | awaiting | writing => omega

theorem lockWait (h : s.Inv) (hc : s.pcs c = .writeWait) : (s.lockWait c).Inv := by
  have hw : s.pcs c ≠ .writeParked := by
    rw [hc]
    nofun
  obtain ⟨hheld, hfew, hphase⟩ := h.balanced
  have hone := s.wlock.isSome.toNat_le
  have hle := weight_le s hc .awaits
  simp only [Pc.weight] at hle
  unfold RWMutex.lockWait
  rcases Nat.eq_zero_or_pos s.writerSem.res with hm | hm
  · rw [Semaphore.wait_of_zero hm]
    show ({ s with writerSem := ⟨_, _⟩ }.goto c .writeParked).Inv
    refine h.goto_writerSem hc nofun (by nofun) (h.writers.push hw) fun T hT => ?_
    rw [eq_of_weight_eq hT (funext fun k => by cases k <;> rfl)]
    exact h.balanced
  · rw [Semaphore.wait_of_pos hm]
    show ({ s with writerSem := ⟨_, _⟩ }.goto c .writing).Inv
    refine h.goto_writerSem hc nofun (by nofun) ((h.writers.update hw .writing).res _)
      fun T hT => ?_
    have hT := Kind.forall hT
    simp only [Pc.weight, add_zero] at hT
    refine ⟨by omega, by omega, ?_⟩
    cases hphase with
    | awaiting => exact .writing (by omega) (by omega) (by omega)
    | unannounced | counting | writing => omega

theorem unlock (h : s.Inv) (hc : s.pcs c = .writing) : (s.unlock c).Inv := by
  obtain ⟨hheld, hfew, hphase⟩ := h.balanced
  have hunits := (tallies_eq_zero s).2
  have hone := s.wlock.isSome.toNat_le
  have hle := weight_le s hc .writes
  simp only [Pc.weight] at hle
  unfold RWMutex.unlock maxReaders
  dsimp only
  split
  · rename_i habort
    cases hphase <;> omega
  · refine h.goto_counters hc nofun nofun (by nofun) _ _ _ fun T hT => ?_
    have hT := Kind.forall hT
    simp only [Pc.weight, add_zero] at hT
    refine ⟨by omega, by omega, ?_⟩
    cases hphase with
    | writing => exact .unannounced (by omega) (by omega) (by omega)
    | unannounced | counting | awaiting => omega

theorem unlockPost (h : s.Inv) {posts : ℕ} (hc : s.pcs c = .writePosting (posts + 1)) :
    (s.unlockPost c posts).Inv := by
  obtain ⟨hheld, hfew, hphase⟩ := h.balanced
  have hone := s.wlock.isSome.toNat_le
  have hle := weight_le s hc .lets
  simp only [Pc.weight] at hle
  have hr : s.pcs c ≠ .readParked := by
    rw [hc]
    nofun
  unfold RWMutex.unlockPost
  rcases s.readerSem.post_cases with hpost | ⟨d, rest, hq, hpost⟩
  · rw [hpost]
    refine h.goto_readerSem hc nofun (by nofun) ((h.readers.update hr (.writePosting posts)).res _)
      fun T hT => ?_
    have hT := Kind.forall hT
    simp only [Pc.weight, add_zero] at hT
    refine ⟨by omega, by omega, ?_⟩
    cases hphase with
    | unannounced => exact .unannounced (by omega) (by omega) (by omega)
    | counting | awaiting | writing => omega
  · rw [hpost]
    have hd : s.pcs d = .readParked := h.readers.place d (by rw [hq]; exact mem_cons_self)
    refine h.goto_goto hc hd nofun nofun nofun ((h.readers.update hr (.writePosting posts)).pop hq
      .reading) ?_ fun T hT => ?_
    · refine (h.writers.update ?_ _).update ?_ _
      · rw [hc]
        nofun
      · rw [update_of_ne (by rintro rfl; exact hr hd), hd]
        nofun
    have hT := Kind.forall hT
    simp only [Pc.weight, add_zero] at hT
    refine ⟨by omega, by omega, ?_⟩
    cases hphase with
    | unannounced => exact .unannounced (by omega) (by omega) (by omega)
    | counting | awaiting | writing => omega

theorem unlockMutex (h : s.Inv) (hc : s.pcs c = .writePosting 0) :
    ({ s with wlock := none }.goto c .outside).Inv := by
  obtain ⟨hheld, hfew, hphase⟩ := h.balanced
  have hone := s.wlock.isSome.toNat_le
  have hle := weight_le s hc .lets
  simp only [Pc.weight] at hle
  refine h.goto_counters hc nofun nofun (by nofun) _ _ _ fun T hT => ?_
  have hT := Kind.forall hT
  simp only [Pc.weight, add_zero] at hT
  rw [isSome_none]
  refine ⟨by rw [Bool.toNat_false]; omega, by omega, ?_⟩
  cases hphase with
  | unannounced => exact .unannounced (by omega) (by omega) (by omega)
  | counting | awaiting | writing => omega

theorem lock (h : s.Inv) (hc : s.pcs c = .outside) : (s.goto c .writeLocking).Inv := by
  refine h.goto_counters hc nofun nofun (by nofun) _ _ _ fun T hT => ?_
  rw [eq_of_weight_eq hT (funext fun k => by cases k <;> rfl)]
  exact h.balanced

theorem step (h : s.Inv) {s' : RWMutex ι} {a : Action ι} (hfew : s.fewReaders a = true)
    (hs : s.step a = some s') : s'.Inv := by
  rw [RWMutex.step.eq_def, if_neg (by simp [h.running])] at hs
  cases a with
  | rlock c =>
    obtain ⟨hc, rfl⟩ := ite_some_none_eq_some.1 hs
    exact h.rlock hc (of_decide_eq_true hfew)
  | rlockWait c =>
    obtain ⟨hc, rfl⟩ := ite_some_none_eq_some.1 hs
    exact h.rlockWait hc
  | runlock c =>
    obtain ⟨hc, rfl⟩ := ite_some_none_eq_some.1 hs
    exact h.runlock hc
  | runlockLeave c =>
    obtain ⟨hc, rfl⟩ := ite_some_none_eq_some.1 hs
    exact h.runlockLeave hc
  | runlockPost c =>
    obtain ⟨hc, rfl⟩ := ite_some_none_eq_some.1 hs
    exact h.runlockPost hc
  | lock c =>
    obtain ⟨hc, rfl⟩ := ite_some_none_eq_some.1 hs
    exact h.lock hc
  | lockMutex c =>
    obtain ⟨⟨hc, hfree⟩, rfl⟩ := ite_some_none_eq_some.1 hs
    exact h.lockMutex hc hfree
  | lockAnnounce c =>
    obtain ⟨hc, rfl⟩ := ite_some_none_eq_some.1 hs
    exact h.lockAnnounce hc
  | lockCount c =>
    dsimp only at hs
    split at hs
    · rename_i r hc
      exact some.inj hs ▸ h.lockCount hc
    · cases hs
  | lockWait c =>
    obtain ⟨hc, rfl⟩ := ite_some_none_eq_some.1 hs
    exact h.lockWait hc
  | unlock c =>
    obtain ⟨hc, rfl⟩ := ite_some_none_eq_some.1 hs
    exact h.unlock hc
  | unlockPost c =>
    dsimp only at hs
    split at hs
    · rename_i posts hc
      exact some.inj hs ▸ h.unlockPost hc
    · cases hs
  | unlockMutex c =>
    obtain ⟨hc, rfl⟩ := ite_some_none_eq_some.1 hs
    exact h.unlockMutex hc

end Inv

theorem inv_of_run [DecidableEq ι] {as : List (Action ι)} {s : RWMutex ι}
    (hrun : run (restrict fewReaders step) init as = some s) : s.Inv :=
  run_restrict_invariant (fun _ _ _ h hfew hs => h.step hfew hs) inv_init hrun

namespace Inv

variable {s : RWMutex ι} {c d : ι}

theorem of_writing (h : s.Inv) (hc : s.pcs c = .writing) :
    s.tallies .writes = 1 ∧ s.tallies .reads = 0 := by
  have hle := weight_le s hc .writes
  simp only [Pc.weight] at hle
  cases h.balanced.phase <;> omega

theorem of_outside (h : s.Inv) (hout : ∀ c, s.pcs c = .outside) : s.readerCount = 0 ∧
    s.readerWait = 0 ∧ s.readerSem.res = 0 ∧ s.writerSem.res = 0 := by
  have hzero : ∀ k, s.tallies k = 0 := fun k =>
    tally_eq_zero_iff.2 fun c => by
      rw [hout c]
      cases k <;> rfl
  have hzero := Kind.forall hzero
  cases h.balanced.phase <;> omega

end Inv

/-- **No writer is inside with another writer or with a reader.**  The readers are fewer than 2 ^
30. -/
theorem rwmutex_exclusive [DecidableEq ι] (as : List (Action ι)) (s : RWMutex ι)
    (hrun : run (restrict fewReaders step) init as = some s) :
    (∀ c d, s.pcs c = .writing → s.pcs d = .writing → c = d) ∧
      (∀ c d, s.pcs c = .writing → s.pcs d ≠ .reading) ∧
      s.aborted = false ∧
      ((∀ c, s.pcs c = .outside) → s.readerCount = 0 ∧ s.readerWait = 0 ∧ s.readerSem.res = 0 ∧
        s.writerSem.res = 0) := by
  have h := inv_of_run hrun
  refine ⟨fun c d hc hd => ?_, fun c d hc hd => ?_, h.running, h.of_outside⟩
  · refine eq_of_tally_le_one (f := (Pc.weight · .writes)) (h.of_writing hc).1.le ?_ ?_
    · rw [hc]
      exact one_pos
    · rw [hd]
      exact one_pos
  · have hle := Inv.weight_le s hd .reads
    rw [(h.of_writing hc).2] at hle
    exact absurd hle (by decide)

/-- A writer waits for a reader, and another reader for the writer. -/
theorem rwmutex_exclusive_writerAfterReader :
    ∃ s, run (restrict fewReaders step) (init : RWMutex (Fin 3))
        [.rlock 0, .lock 1, .lockMutex 1, .lockAnnounce 1, .runlock 0, .lockCount 1, .rlock 2,
          .rlockWait 2, .lockWait 1, .runlockLeave 0, .runlockPost 0] = some s ∧
      (s.pcs 1 = .writing ∧ s.pcs 2 = .readParked) ∧
      ((∀ c d, s.pcs c = .writing → s.pcs d = .writing → c = d) ∧
        (∀ c d, s.pcs c = .writing → s.pcs d ≠ .reading) ∧
        s.aborted = false ∧
        ((∀ c, s.pcs c = .outside) → s.readerCount = 0 ∧ s.readerWait = 0 ∧ s.readerSem.res = 0 ∧
          s.writerSem.res = 0)) := by
  exact exists_run_and (by decide +kernel) fun s hs _ => rwmutex_exclusive _ s hs

/-- **The units balance who waits.**  Without an announced writer, the readers that wait are as
many as the units of `readerSem_` and the calls of `post` to come.  A writer that waits has its unit
of `writerSem_`, or a `post` of it to come, exactly when the last of its readers has left. -/
theorem rwmutex_wakeups_balance [DecidableEq ι] (as : List (Action ι)) (s : RWMutex ι)
    (hrun : run (restrict fewReaders step) init as = some s) :
    (0 ≤ s.readerCount → s.writerSem.res = 0 ∧
      s.tallies .readers = s.tallies .reads + s.readerSem.res + s.tallies .units) ∧
    (s.tallies .awaits = 1 → s.readerWait = s.tallies .reads + s.readerSem.res + s.tallies .leaves ∧
      s.tallies .posts + s.writerSem.res = if s.readerWait = 0 then 1 else 0) := by
  obtain ⟨-, hfew, hphase⟩ := (inv_of_run hrun).balanced
  constructor
  · intro hcount
    cases hphase <;> omega
  · intro hawaits
    cases hphase with
    | awaiting => split <;> omega
    | unannounced | counting | writing => omega

theorem rwmutex_wakeups_balance_leaving :
    ∃ s, run (restrict fewReaders step) (init : RWMutex (Fin 2))
        [.rlock 0, .lock 1, .lockMutex 1, .lockAnnounce 1, .lockCount 1, .runlock 0] = some s ∧
      (s.tallies .awaits = 1 ∧ s.readerWait = 1) ∧ s.tallies .posts + s.writerSem.res = 0 :=
  exists_run_and (by decide +kernel) fun s hs hp => by
    simpa [hp.2] using ((rwmutex_wakeups_balance _ s hs).2 hp.1).2

end RWMutex
end Corpc.Lock
