/-
# The accounts of a pool

`realConnectCount_` is changed in seven places, some of them on the two sides of a suspension.
-/

import Corpc.Pool.ConnectPool
import Mathlib.Data.List.Nodup

namespace Corpc.Pool

open Corpc.Basis Function List Option UInt32

theorem toNat_add_one_of_lt {n m : UInt32} (h : n < m) : (n + 1).toNat = n.toNat + 1 := by
  have hlt := UInt32.lt_iff_toNat_lt.1 h
  have hm := m.toNat_lt
  rw [UInt32.toNat_add, UInt32.toNat_one]
  omega

theorem toNat_sub_one_of_pos {n : UInt32} (h : 0 < n.toNat) : (n - 1).toNat = n.toNat - 1 := by
  refine UInt32.toNat_sub_of_le _ _ ?_
  rw [UInt32.le_iff_toNat_le, UInt32.toNat_one]
  exact h

theorem eraseP_of_find? {α : Type*} {p : α → Bool} {l : List α} {a : α} (h : l.find? p = some a) :
    ∃ l₁ l₂, p a ∧ l = l₁ ++ a :: l₂ ∧ l.eraseP p = l₁ ++ l₂ := by
  obtain ⟨ha, l₁, l₂, rfl, hl₁⟩ := List.find?_eq_some_iff_append.1 h
  refine ⟨l₁, l₂, ha, rfl, ?_⟩
  rw [eraseP_append_right _ fun b hb => by simpa using hl₁ b hb, eraseP_cons_of_pos ha]

namespace State

variable {d : Driver} {maxConnectNum : UInt32} {s s' : State}

def handles (s : State) : List ℕ := s.idleList.map (·.handle) ++ s.delivered.map (·.1)

theorem handles_deliver (k x : ℕ) : (s.deliver k x).handles.Perm (x :: s.handles) := by
  simp only [handles, deliver, map_append, map_cons, map_nil]
  rw [← append_assoc]
  exact perm_append_singleton _ _

theorem handles_keep (i : IdleHandle) :
    { s with idleList := s.idleList ++ [i] }.handles.Perm (i.handle :: s.handles) := by
  simp only [handles, map_append, map_cons, map_nil, append_assoc, singleton_append]
  exact perm_middle

variable {l : List IdleHandle} {i : IdleHandle}

theorem handles_deliver_back (hi : s.idleList = l ++ [i])
    (k : ℕ) : ({ s with idleList := l }.deliver k i.handle).handles.Perm s.handles := by
  refine (handles_deliver k i.handle).trans ?_
  have hkeep := handles_keep (s := { s with idleList := l }) i
  rw [← hi] at hkeep
  exact hkeep.symm

theorem handles_unlend {x : ℕ} {y : ℕ × ℕ} (hy : s.delivered.find? (·.1 = x) = some y) :
    (x :: (s.unlend x).handles).Perm s.handles := by
  obtain ⟨l₁, l₂, hx, hl, herase⟩ := eraseP_of_find? hy
  obtain rfl := of_decide_eq_true hx
  simp only [handles, unlend, herase]
  simp only [hl, map_append, map_cons, ← append_assoc]
  exact perm_middle.symm

theorem takeBack_of_nil (h : s.idleList = []) (k : ℕ) : s.takeBack k = none := by
  simp [takeBack, h]

theorem takeBack_of_concat (h : s.idleList = l ++ [i])
    (k : ℕ) : s.takeBack k = some ({ s with idleList := l }.deliver k i.handle) := by
  simp [takeBack, h]

theorem resumeTake_of_nil (h : s.idleList = []) (k : ℕ) :
    s.resumeTake d k = s.fail k d.waitFailure := by
  rw [resumeTake, takeBack_of_nil h, getD_none]

theorem resumeTake_of_concat (h : s.idleList = l ++ [i])
    (k : ℕ) : s.resumeTake d k = { s with idleList := l }.deliver k i.handle := by
  rw [resumeTake, takeBack_of_concat h, getD_some]

theorem opened_eq (owner : Opener) (inits : List Op) :
    s.opened d owner inits = { s with
      nextHandle := s.nextHandle + 1
      inits := update s.inits s.nextHandle inits }.deliver owner.call s.nextHandle := by
  cases owner with
  | take k => rfl
  | put k =>
    simp only [opened]
    rw [resumeTake_of_concat (l := s.idleList) rfl]
    rfl

variable {k : ℕ} {rest : List ℕ}

theorem putIdle_of_cons {h : ℕ} (hw : s.waitingList = k :: rest)
    (hi : s.idleList = []) : s.putIdle d h = { s with waitingList := rest }.deliver k h := by
  simp only [putIdle, hw, hi, nil_append, length_singleton, if_true]
  rw [resumeTake_of_concat (l := []) rfl]

theorem putIdle_of_nil {h : ℕ} (hw : s.waitingList = []) :
    s.putIdle d h = { s with idleList := s.idleList ++ [IdleHandle.mk h s.now] } := by
  simp only [putIdle, hw]

theorem putError_of_nil (hw : s.waitingList = []) : s.putError d maxConnectNum =
    { s with realConnectCount := s.realConnectCount - 1 } := by
  simp only [putError, hw]

theorem putError_of_cons (hw : s.waitingList = k :: rest)
    (hi : s.idleList = []) (hlt : s.realConnectCount - 1 < maxConnectNum) :
    s.putError d maxConnectNum = { s with
      waitingList := rest
      realConnectCount := s.realConnectCount - 1 + 1
      openings := s.openings ++ [⟨.put k, d.putOps, []⟩] } := by
  simp only [putError, hw, hi, hlt, if_true]

theorem resumeAll_of_nil (hw : s.waitingList = []) : s.resumeAll d = s := by
  cases s
  obtain rfl : _ = [] := hw
  rfl

/-- The account is right, no connection is in two places, and no assertion has failed. -/
structure Core (maxConnectNum : UInt32) (s : State) : Prop where
  count : s.realConnectCount.toNat = s.idleList.length + s.delivered.length + s.openings.length
  le : s.realConnectCount.toNat ≤ maxConnectNum.toNat
  nodup : s.handles.Nodup
  fresh : ∀ h ∈ s.handles, h < s.nextHandle
  running : s.aborted = false

structure Accounted (maxConnectNum : UInt32) (s : State) : Prop extends Core maxConnectNum s where
  waiting : s.waitingList ≠ [] → s.idleList = []
  served : 0 < maxConnectNum.toNat → s.waitingList ≠ [] → s.delivered ≠ [] ∨ s.openings ≠ []

namespace Core

theorem deliver_back (h : s.Core maxConnectNum) (hi : s.idleList = l ++ [i]) (k : ℕ) :
    ({ s with idleList := l }.deliver k i.handle).Core maxConnectNum := by
  have hperm := handles_deliver_back hi k
  refine ⟨?_, h.le, hperm.nodup_iff.2 h.nodup, fun x hx => h.fresh x (hperm.mem_iff.1 hx),
    h.running⟩
  have hcount := h.count
  rw [hi] at hcount
  simp only [deliver, length_append, length_singleton] at hcount ⊢
  omega

theorem openNew (h : s.Core maxConnectNum) (hlt : s.realConnectCount < maxConnectNum)
    (o : Opening) : { s with
      realConnectCount := s.realConnectCount + 1
      openings := s.openings ++ [o] }.Core maxConnectNum := by
  refine { h with count := ?_, le := ?_ }
  · show (s.realConnectCount + 1).toNat = _
    rw [toNat_add_one_of_lt hlt, h.count, length_append, length_singleton]
    rfl
  · show (s.realConnectCount + 1).toNat ≤ _
    rw [toNat_add_one_of_lt hlt]
    exact lt_iff_toNat_lt.1 hlt

theorem goOn (h : s.Core maxConnectNum) {owner : Opener} {o o' : Opening}
    (hf : s.openings.find? (·.owner = owner) = some o) : { s.unopen owner with
      openings := (s.unopen owner).openings ++ [o'] }.Core maxConnectNum := by
  obtain ⟨l₁, l₂, -, hl, herase⟩ := eraseP_of_find? hf
  refine { h with count := ?_ }
  have hcount := h.count
  rw [hl] at hcount
  simp only [unopen, herase, length_append, length_cons, length_nil] at hcount ⊢
  omega

theorem giveUp (h : s.Core maxConnectNum) {owner : Opener} {o : Opening}
    (hf : s.openings.find? (·.owner = owner) = some o) : { s.unopen owner with
      realConnectCount := s.realConnectCount - 1 }.Core maxConnectNum := by
  obtain ⟨l₁, l₂, -, hl, herase⟩ := eraseP_of_find? hf
  have hcount := h.count
  rw [hl] at hcount
  simp only [length_append, length_cons] at hcount
  have hsub : (s.realConnectCount - 1).toNat = s.realConnectCount.toNat - 1 :=
    toNat_sub_one_of_pos (by omega)
  refine { h with count := ?_, le := ?_ }
  · simp only [unopen, herase, hsub, length_append]
    omega
  · have hle := h.le
    rw [hsub]
    omega

end Core

/-- As `Core`, but one connection, `x`, is in no list. -/
structure Holding (maxConnectNum : UInt32) (x : ℕ) (s : State) : Prop where
  count : s.realConnectCount.toNat = s.idleList.length + s.delivered.length + s.openings.length + 1
  le : s.realConnectCount.toNat ≤ maxConnectNum.toNat
  nodup : (x :: s.handles).Nodup
  fresh : ∀ h ∈ x :: s.handles, h < s.nextHandle
  running : s.aborted = false

theorem Core.takeBackFrom (h : s.Core maxConnectNum) {x : ℕ} {y : ℕ × ℕ}
    (hf : s.delivered.find? (·.1 = x) = some y) :
    (s.unlend x).Holding maxConnectNum x := by
  obtain ⟨l₁, l₂, -, hl, herase⟩ := eraseP_of_find? hf
  have hperm := handles_unlend hf
  refine ⟨?_, h.le, hperm.nodup_iff.2 h.nodup, fun z hz => h.fresh z (hperm.mem_iff.1 hz),
    h.running⟩
  have hcount := h.count
  rw [hl] at hcount
  simp only [unlend, herase, length_append, length_cons] at hcount ⊢
  omega

variable {owner : Opener} {o : Opening}

theorem Core.create (h : s.Core maxConnectNum)
    (hf : s.openings.find? (·.owner = owner) = some o) (inits : ℕ → List Op) : { s.unopen owner with
      nextHandle := s.nextHandle + 1
      inits := inits }.Holding maxConnectNum s.nextHandle := by
  obtain ⟨l₁, l₂, -, hl, herase⟩ := eraseP_of_find? hf
  refine ⟨?_, h.le, ?_, ?_, h.running⟩
  · have hcount := h.count
    rw [hl] at hcount
    simp only [unopen, herase, length_append, length_cons] at hcount ⊢
    omega
  · exact List.nodup_cons.2 ⟨fun hx => Nat.lt_irrefl _ (h.fresh _ hx), h.nodup⟩
  · intro x hx
    rcases mem_cons.1 hx with rfl | hx
    · exact Nat.lt_succ_self _
    · exact Nat.lt_succ_of_lt (h.fresh x hx)

namespace Holding

variable {x : ℕ}

section

variable (h : s.Holding maxConnectNum x)
include h

theorem deliver (k : ℕ) : (s.deliver k x).Core maxConnectNum := by
  have hperm := handles_deliver (s := s) k x
  refine ⟨?_, h.le, hperm.nodup_iff.2 h.nodup, fun z hz => h.fresh z (hperm.mem_iff.1 hz),
    h.running⟩
  have hcount := h.count
  simp only [State.deliver, length_append, length_singleton] at hcount ⊢
  omega

theorem keep (time : ℕ) :
    { s with idleList := s.idleList ++ [IdleHandle.mk x time] }.Core maxConnectNum := by
  have hperm := handles_keep (s := s) (IdleHandle.mk x time)
  refine ⟨?_, h.le, hperm.nodup_iff.2 h.nodup, fun z hz => h.fresh z (hperm.mem_iff.1 hz),
    h.running⟩
  simp only [h.count, length_append, length_singleton]
  omega

theorem toNat_sub_one :
    (s.realConnectCount - 1).toNat = s.realConnectCount.toNat - 1 :=
  toNat_sub_one_of_pos (by have hcount := h.count; omega)

theorem close :
    { s with realConnectCount := s.realConnectCount - 1 }.Core maxConnectNum := by
  have hcount := h.count
  have hle := h.le
  refine ⟨?_, ?_, (nodup_cons.1 h.nodup).2, fun z hz => h.fresh z (mem_cons_of_mem _ hz), h.running⟩
  · simp only [h.toNat_sub_one]
    omega
  · simp only [h.toNat_sub_one]
    omega

theorem length_lt :
    s.idleList.length < maxConnectNum.toNat := by
  have hcount := h.count
  have hle := h.le
  omega

theorem sub_one_lt : s.realConnectCount - 1 < maxConnectNum := by
  have hcount := h.count
  have hle := h.le
  rw [lt_iff_toNat_lt, h.toNat_sub_one]
  omega

end

end Holding

namespace Accounted

theorem ofCore (h : s.Core maxConnectNum) (hw : s.waitingList = []) : s.Accounted maxConnectNum :=
  { h with
    waiting := fun hne => absurd hw hne
    served := fun _ hne => absurd hw hne }

theorem waitingList_eq_nil (h : s.Accounted maxConnectNum) (hi : s.idleList ≠ []) :
    s.waitingList = [] := by
  by_contra hne
  exact hi (h.waiting hne)

end Accounted

theorem resumeAll_eq (h : s.waitingList ≠ [] → s.idleList = []) :
    s.resumeAll d = { s with
      waitingList := []
      takes := fun k => if k ∈ s.waitingList then .failed d.waitFailure else s.takes k } := by
  have hfail : ∀ (ks : List ℕ) (t : State), (ks ≠ [] → t.idleList = []) →
      ks.foldl (resumeTake d) t = { t with
        takes := fun k => if k ∈ ks then .failed d.waitFailure else t.takes k } := by
    intro ks
    induction ks with
    | nil =>
      intro t _
      simp
    | cons k ks ih =>
      intro t ht
      have hnil := ht (cons_ne_nil k ks)
      rw [foldl_cons, resumeTake_of_nil hnil, ih (t.fail k d.waitFailure) fun _ => hnil]
      simp only [fail, mk.injEq, true_and, and_true]
      funext j
      by_cases hj : j = k
      · simp [hj]
      · simp [hj]
  exact hfail s.waitingList _ h

/-- What the actions do, where a coroutine waits only if no connection is idle. -/
inductive Move (d : Driver) (maxConnectNum : UInt32) (s : State) : Action → State → Prop
  | takeIdle {k : ℕ} {l : List IdleHandle} {i : IdleHandle} (hk : s.takes k = .unstarted)
      (hi : s.idleList = l ++ [i]) :
      s.Move d maxConnectNum (.take k) ({ s with idleList := l }.deliver k i.handle)
  | takeOpen {k : ℕ} (hk : s.takes k = .unstarted) (hi : s.idleList = [])
      (hlt : s.realConnectCount < maxConnectNum) :
      s.Move d maxConnectNum (.take k) { s with
        takes := update s.takes k .running
        realConnectCount := s.realConnectCount + 1
        openings := s.openings ++ [⟨.take k, d.takeOps, []⟩] }
  | takeWait {k : ℕ} (hk : s.takes k = .unstarted) (hi : s.idleList = [])
      (hlt : ¬s.realConnectCount < maxConnectNum) :
      s.Move d maxConnectNum (.take k) { s with
        takes := update s.takes k .running
        waitingList := s.waitingList ++ [k] }
  | putKeep {x : ℕ} {y : ℕ × ℕ} (hy : s.delivered.find? (·.1 = x) = some y)
      (hw : s.waitingList = []) :
      s.Move d maxConnectNum (.put x false) { s.unlend x with
        idleList := s.idleList ++ [⟨x, s.now⟩] }
  | putPass {x k : ℕ} {y : ℕ × ℕ} {rest : List ℕ} (hy : s.delivered.find? (·.1 = x) = some y)
      (hw : s.waitingList = k :: rest) (hi : s.idleList = []) :
      s.Move d maxConnectNum (.put x false) ({ s.unlend x with waitingList := rest }.deliver k x)
  | putClose {x : ℕ} {y : ℕ × ℕ} (hy : s.delivered.find? (·.1 = x) = some y)
      (hw : s.waitingList = []) :
      s.Move d maxConnectNum (.put x true) { s.unlend x with
        realConnectCount := s.realConnectCount - 1 }
  | putReopen {x k : ℕ} {y : ℕ × ℕ} {rest : List ℕ} (hy : s.delivered.find? (·.1 = x) = some y)
      (hw : s.waitingList = k :: rest) (hi : s.idleList = []) :
      s.Move d maxConnectNum (.put x true) { s.unlend x with
        waitingList := rest
        realConnectCount := s.realConnectCount - 1 + 1
        openings := s.openings ++ [⟨.put k, d.putOps, []⟩] }
  | refuse {owner : Opener} {outcome : Outcome} {o : Opening} {op : Op} {rest : List Op}
      {text text' : String} (ho : s.openings.find? (·.owner = owner) = some o)
      (hrest : o.rest = op :: rest) (hfail : d.failure op outcome = some text)
      (hi : s.waitingList ≠ [] → s.idleList = []) :
      s.Move d maxConnectNum (.returns owner outcome) { s.unopen owner with
        realConnectCount := s.realConnectCount - 1
        waitingList := []
        takes := fun k => if k ∈ s.waitingList then .failed d.waitFailure
          else update s.takes owner.call (.failed text') k }
  | refuseIdle {k : ℕ} {outcome : Outcome} {o : Opening} {op : Op} {rest : List Op} {text : String}
      {l : List IdleHandle} {i : IdleHandle}
      (ho : s.openings.find? (·.owner = .put k) = some o) (hrest : o.rest = op :: rest)
      (hfail : d.failure op outcome = some text) (hw : s.waitingList = [])
      (hi : s.idleList = l ++ [i]) :
      s.Move d maxConnectNum (.returns (.put k) outcome) ({ s.unopen (.put k) with
        realConnectCount := s.realConnectCount - 1
        idleList := l }.deliver k i.handle)
  | create {owner : Opener} {outcome : Outcome} {o : Opening} {op : Op}
      (ho : s.openings.find? (·.owner = owner) = some o) (hrest : o.rest = [op])
      (hok : d.failure op outcome = none) :
      s.Move d maxConnectNum (.returns owner outcome) ({ s.unopen owner with
        nextHandle := s.nextHandle + 1
        inits := update s.inits s.nextHandle
          (if outcome = Outcome.ok then o.inits ++ [op] else o.inits) }.deliver owner.call
            s.nextHandle)
  | goOn {owner : Opener} {outcome : Outcome} {o : Opening} {op : Op} {rest : List Op}
      (ho : s.openings.find? (·.owner = owner) = some o) (hrest : o.rest = op :: rest)
      (hok : d.failure op outcome = none) (hne : rest ≠ []) :
      s.Move d maxConnectNum (.returns owner outcome) { s.unopen owner with
        openings := (s.unopen owner).openings ++
          [⟨owner, rest, if outcome = .ok then o.inits ++ [op] else o.inits⟩] }
  | clearIdle : s.Move d maxConnectNum .clearIdle s.clearIdle
  | tick (n : ℕ) : s.Move d maxConnectNum (.tick n) { s with now := s.now + n }

theorem move_of_take (hs : s.take d maxConnectNum k = some s') :
    s.Move d maxConnectNum (.take k) s' := by
  unfold take at hs
  split at hs
  · rename_i hk
    rcases eq_nil_or_concat' s.idleList with hi | ⟨l, i, hi⟩
    · rw [takeBack_of_nil hi] at hs
      simp only at hs
      split at hs
      · rename_i hlt
        cases hs
        exact .takeOpen hk hi hlt
      · rename_i hlt
        cases hs
        exact .takeWait hk hi hlt
    · rw [takeBack_of_concat hi] at hs
      cases hs
      exact .takeIdle hk hi
  · cases hs

theorem move_of_put (h : s.Accounted maxConnectNum) {x : ℕ} {error : Bool}
    (hs : s.put d maxConnectNum x error = some s') : s.Move d maxConnectNum (.put x error) s' := by
  obtain ⟨y, hy, rfl⟩ := map_eq_some_iff.1 hs
  have hx := h.takeBackFrom hy
  rw [if_pos hx.length_lt]
  cases hw : s.waitingList with
  | nil =>
    cases error with
    | false =>
      rw [if_neg Bool.false_ne_true, putIdle_of_nil (s := s.unlend x) hw]
      exact .putKeep hy hw
    | true =>
      rw [if_pos rfl, putError_of_nil (s := s.unlend x) hw]
      exact .putClose hy hw
  | cons k rest =>
    have hi : s.idleList = [] := h.waiting (by simp [hw])
    cases error with
    | false =>
      rw [if_neg Bool.false_ne_true, putIdle_of_cons (s := s.unlend x) hw hi]
      exact .putPass hy hw hi
    | true =>
      rw [if_pos rfl, putError_of_cons (s := s.unlend x) hw hi hx.sub_one_lt]
      exact .putReopen hy hw hi

variable {outcome : Outcome}

theorem move_of_refused (h : s.Accounted maxConnectNum) {op : Op} {rest : List Op} {text : String}
    (ho : s.openings.find? (·.owner = owner) = some o) (hrest : o.rest = op :: rest)
    (hfail : d.failure op outcome = some text) :
    s.Move d maxConnectNum (.returns owner outcome) ((s.unopen owner).refused d owner text) := by
  cases owner with
  | take k =>
    simp only [refused]
    rw [resumeAll_eq]
    · exact .refuse ho hrest hfail h.waiting
    · exact h.waiting
  | put k =>
    simp only [refused]
    rcases eq_nil_or_concat' s.idleList with hi | ⟨l, i, hi⟩
    · rw [resumeTake_of_nil, resumeAll_eq]
      · exact .refuse ho hrest hfail h.waiting
      · exact h.waiting
      · exact hi
    · have hw : s.waitingList = [] := h.waitingList_eq_nil (by simp [hi])
      rw [resumeTake_of_concat, resumeAll_of_nil]
      · exact .refuseIdle ho hrest hfail hw hi
      · exact hw
      · exact hi

theorem move_of_returns (h : s.Accounted maxConnectNum) (hs : s.returns d owner outcome = some s') :
    s.Move d maxConnectNum (.returns owner outcome) s' := by
  obtain ⟨o, ho, hs⟩ := bind_eq_some_iff.1 hs
  simp only at hs
  split at hs
  · cases hs
  · rename_i op rest hrest
    split at hs
    · rename_i text hfail
      cases hs
      exact move_of_refused h ho hrest hfail
    · rename_i hok
      split at hs
      · rename_i hnil
        cases hs
        rw [opened_eq]
        exact .create ho (hnil ▸ hrest) hok
      · rename_i hne
        cases hs
        exact .goOn ho hrest hok hne

theorem move_of_step (h : s.Accounted maxConnectNum) {a : Action}
    (hs : s.step d maxConnectNum a = some s') : s.Move d maxConnectNum a s' := by
  rw [State.step.eq_def, if_neg (by simp [h.running])] at hs
  cases a with
  | take k => exact move_of_take hs
  | put x error => exact move_of_put h hs
  | returns owner outcome => exact move_of_returns h hs
  | clearIdle =>
    cases hs
    exact .clearIdle
  | tick n =>
    cases hs
    exact .tick n

theorem clearLoop_spec (now : ℕ) (l : List IdleHandle) (count : UInt32)
    (h : l.length ≤ count.toNat) : ∃ closed, l = closed ++ (clearLoop now l count).1 ∧
      (clearLoop now l count).2.toNat + closed.length = count.toNat := by
  induction l generalizing count with
  | nil => exact ⟨[], rfl, rfl⟩
  | cons i rest ih =>
    simp only [length_cons] at h
    unfold clearLoop
    split_ifs
    · have hsub : (count - 1).toNat = count.toNat - 1 := toNat_sub_one_of_pos (by omega)
      obtain ⟨closed, hl, hcount⟩ := ih (count - 1) (by omega)
      refine ⟨i :: closed, congrArg (i :: ·) hl, ?_⟩
      rw [length_cons]
      omega
    · exact ⟨[], rfl, rfl⟩

theorem handles_clearIdle (h : s.idleList.length ≤ s.realConnectCount.toNat) :
    s.clearIdle.handles.Sublist s.handles := by
  obtain ⟨closed, hl, -⟩ := clearLoop_spec s.now s.idleList s.realConnectCount h
  refine Sublist.append_right (Sublist.map _ ?_) _
  rw [clearIdle]
  conv_rhs => rw [hl]
  exact sublist_append_right _ _

namespace Accounted

theorem clearIdle (h : s.Accounted maxConnectNum) : s.clearIdle.Accounted maxConnectNum := by
  have hcount := h.count
  obtain ⟨closed, hl, hreal⟩ := clearLoop_spec s.now s.idleList s.realConnectCount (by omega)
  have hsub := handles_clearIdle (s := s) (by omega)
  refine ⟨⟨?_, ?_, h.nodup.sublist hsub, fun x hx => h.fresh x (hsub.subset hx), h.running⟩, ?_,
    h.served⟩
  · have hlen := congrArg List.length hl
    rw [length_append] at hlen
    simp only [State.clearIdle]
    omega
  · have hle := h.le
    simp only [State.clearIdle]
    omega
  · intro hne
    have hnil := h.waiting hne
    simp only [State.clearIdle, hnil]
    rfl

theorem ofMore (h : s.Core maxConnectNum) (hi : s.waitingList ≠ [] → s.idleList = [])
    (hmore : s.delivered ≠ [] ∨ s.openings ≠ []) : s.Accounted maxConnectNum :=
  { h with waiting := hi, served := fun _ _ => hmore }

theorem step (h : s.Accounted maxConnectNum) {a : Action}
    (hs : s.step d maxConnectNum a = some s') : s'.Accounted maxConnectNum := by
  have hlast : ∀ {α : Type} (l : List α) (a : α), l ++ [a] ≠ [] := by
    intro α l a
    simp
  cases move_of_step h hs with
  | takeIdle hk hi => exact ofCore (h.deliver_back hi _) (h.waitingList_eq_nil (by simp [hi]))
  | takeOpen hk hi hlt =>
    exact ofMore { h.openNew hlt _ with } h.waiting (.inr (hlast _ _))
  | takeWait hk hi hlt =>
    refine { h.toCore with waiting := fun _ => hi, served := fun hpos _ => ?_ }
    -- all connections there may be are lent or being opened
    have hcount := h.count
    rw [lt_iff_toNat_lt] at hlt
    rw [hi, List.length_nil, Nat.zero_add] at hcount
    by_contra hne
    obtain ⟨hdelivered, hopenings⟩ := not_or.1 hne
    rw [not_not.1 hdelivered, not_not.1 hopenings] at hcount
    simp only [length_nil] at hcount
    omega
  | putKeep hy hw => exact ofCore ((h.takeBackFrom hy).keep _) hw
  | putPass hy hw hi =>
    exact ofMore { (h.takeBackFrom hy).deliver _ with } (fun _ => hi) (.inl (hlast _ _))
  | putClose hy hw => exact ofCore (h.takeBackFrom hy).close hw
  | putReopen hy hw hi =>
    have hx := h.takeBackFrom hy
    exact ofMore { hx.close.openNew hx.sub_one_lt _ with } (fun _ => hi) (.inr (hlast _ _))
  | refuse ho hrest hfail hi => exact ofCore { h.giveUp ho with } rfl
  | refuseIdle ho hrest hfail hw hi => exact ofCore ((h.giveUp ho).deliver_back hi _) hw
  | create ho hrest hok =>
    exact ofMore ((h.create ho _).deliver _) h.waiting (.inl (hlast _ _))
  | goOn ho hrest hok hne => exact ofMore (h.goOn ho) h.waiting (.inr (hlast _ _))
  | clearIdle => exact h.clearIdle
  | tick n => exact { h with }

end Accounted

theorem accounted_init : init.Accounted maxConnectNum :=
  Accounted.ofCore ⟨rfl, Nat.zero_le _, nodup_nil, fun _ hx => absurd hx not_mem_nil, rfl⟩
    rfl

theorem waitingList_of_put (h : s.Accounted maxConnectNum) {x : ℕ} {error : Bool}
    (hw : s.waitingList = k :: rest) (hs : s.step d maxConnectNum (.put x error) = some s') :
    s'.waitingList = rest := by
  cases move_of_step h hs with
  | putKeep hy hnil | putClose hy hnil => simp [hw] at hnil
  | putPass hy hcons hi | putReopen hy hcons hi => exact (cons.inj (hcons.symm.trans hw)).2

theorem waitingList_of_failure (h : s.Accounted maxConnectNum)
    {op : Op} {ops : List Op} {text : String}
    (ho : s.openings.find? (·.owner = owner) = some o) (hops : o.rest = op :: ops)
    (hfail : d.failure op outcome = some text)
    (hs : s.step d maxConnectNum (.returns owner outcome) = some s') : s'.waitingList = [] := by
  cases move_of_step h hs with
  | refuse ho' hrest hfail' hi => rfl
  | refuseIdle ho' hrest hfail' hw hi => exact hw
  | create ho' hrest hok | goOn ho' hrest hok hne =>
    obtain rfl := some.inj (ho'.symm.trans ho)
    rw [hrest] at hops
    rw [(cons.inj hops).1, hfail] at hok
    cases hok

end State

/-- **The accounts of a pool.**  `realConnectCount_` is right, no connection is lent twice, and a
coroutine waits only while a connection is lent or being opened. -/
theorem connect_pool_accounts (pool : ConnectPool) (maxConnectNum : UInt32)
    (hmax : 1 ≤ maxConnectNum) (as : List Action) (s : State)
    (h : run (State.step pool.driver maxConnectNum) State.init as = some s) :
    s.realConnectCount.toNat = s.idleList.length + s.delivered.length + s.openings.length ∧
      s.realConnectCount ≤ maxConnectNum ∧
      (s.idleList.map (·.handle) ++ s.delivered.map (·.1)).Nodup ∧
      (s.waitingList ≠ [] → s.idleList = []) ∧
      s.aborted = false ∧
      (s.waitingList ≠ [] → s.delivered ≠ [] ∨ s.openings ≠ []) ∧
      (∀ k rest x error s', s.waitingList = k :: rest →
        s.step pool.driver maxConnectNum (.put x error) = some s' → s'.waitingList = rest) ∧
      ∀ owner outcome o op ops text s', s.openings.find? (·.owner = owner) = some o →
        o.rest = op :: ops → pool.driver.failure op outcome = some text →
        s.step pool.driver maxConnectNum (.returns owner outcome) = some s' →
        s'.waitingList = [] := by
  have hpos : 0 < maxConnectNum.toNat := le_iff_toNat_le.1 hmax
  have hacc := run_invariant (fun t a t' ht hs => State.Accounted.step ht hs)
    State.accounted_init h
  refine ⟨hacc.count, le_iff_toNat_le.2 hacc.le, hacc.nodup, hacc.waiting, hacc.running,
    hacc.served hpos, ?_, ?_⟩
  · intro k rest x error s' hw hs
    exact State.waitingList_of_put hacc hw hs
  · intro owner outcome o op ops text s' ho hops hfail hs
    exact State.waitingList_of_failure hacc ho hops hfail hs

/-- Three callers of a pool with one connection: the second waits until the first puts it back,
the third until the second puts it back with an error and a new one is opened. -/
def threeCallers : List Action :=
  [.take 0, .returns (.take 0) .ok, .returns (.take 0) .ok, .take 1, .take 2, .put 0 false,
    .put 0 true, .returns (.put 2) .ok]

theorem connect_pool_accounts_threeCallers : ∃ s,
    run (State.step ConnectPool.mysql.driver 1) State.init threeCallers = some s ∧
      (s.takes 1 = .delivered 0 ∧ s.openings.length = 1) ∧ s.realConnectCount.toNat =
        s.idleList.length + s.delivered.length + s.openings.length := by
  exact exists_run_and (by decide +kernel) fun s hs _ =>
    (connect_pool_accounts .mysql 1 (by decide) threeCallers s hs).1

end Corpc.Pool
