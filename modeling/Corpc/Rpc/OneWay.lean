/-
# The closure of a one-way call runs once

The task of the call is in one place at a time, and the four ways to run `done` belong to four
places: the front of `datas_` when it is encoded, a `DATA` task that comes after `isClosing_` was
set, `datas_` of a sender that ended, and the waiting list of a connection that could not be made.
-/

import Corpc.Rpc.Connections
import Corpc.Rpc.NetSteps

namespace Corpc.Rpc

open Corpc.Basis Io Function List State ConnectionPc

/-- An action that neither closes nor establishes a connection; it may make a new one. -/
structure State.Kept (s s' : State) : Prop where
  created : ∀ c, (s.conns c).created = true → (s'.conns c).created = true ∧
    (s'.conns c).st = (s.conns c).st ∧ (s'.conns c).added = (s.conns c).added
  added : ∀ c, (s.conns c).added = true → (s'.conns c).added = true
  connected : ∀ c, (s'.conns c).st = .connected → (s.conns c).st = .connected
  flags : ∀ c, (s'.conns c).ended = (s.conns c).ended ∧ (s'.conns c).cleared = (s.conns c).cleared
  closes : ∀ c, s'.connectionTasks.count (.close c) = s.connectionTasks.count (.close c)
  closing : ∀ c, s'.connection = .closing c ↔ s.connection = .closing c
  waits : ∀ c, (s.conns c).st = .connecting ∨ s.connection.drains c = true →
    (s'.conns c).st = .connecting ∨ s'.connection.drains c = true

namespace State.Kept

variable {s s' : State}

theorem of_conns (hconns : ∀ c, ∃ locked, s'.conns c = { s.conns c with locked })
    (htasks : s'.connectionTasks = s.connectionTasks)
    (hclosing : ∀ c, s'.connection = .closing c ↔ s.connection = .closing c)
    (hdrains : ∀ c, s'.connection.drains c = s.connection.drains c) : s.Kept s' where
  created c hc := by
    obtain ⟨locked, he⟩ := hconns c
    rw [he]
    exact ⟨hc, rfl, rfl⟩
  added c hc := by
    obtain ⟨locked, he⟩ := hconns c
    rw [he]
    exact hc
  connected c hc := by
    obtain ⟨locked, he⟩ := hconns c
    rw [he] at hc
    exact hc
  flags c := by
    obtain ⟨locked, he⟩ := hconns c
    rw [he]
    exact ⟨rfl, rfl⟩
  closes c := by rw [htasks]
  closing := hclosing
  waits c hc := by
    obtain ⟨locked, he⟩ := hconns c
    rw [he, hdrains]
    exact hc

theorem of_eq (hconns : s'.conns = s.conns) (htasks : s'.connectionTasks = s.connectionTasks)
    (hpc : s'.connection = s.connection) : s.Kept s' :=
  .of_conns (fun c => ⟨(s.conns c).locked, by rw [hconns]⟩) htasks (fun c => by rw [hpc])
    fun c => by rw [hpc]

theorem locked {c : ℕ} (b : Bool) {f : RpcClientTask → RpcClientTask} {j : ℕ} :
    s.Kept ((s.modify j f).modifyConn c fun d => { d with locked := b }) := by
  refine .of_conns (fun d => ?_) rfl (fun _ => Iff.rfl) fun _ => rfl
  simp only [modifyConn, modify, update_apply]
  split_ifs with hd
  · rw [hd]
    exact ⟨b, rfl⟩
  · exact ⟨_, rfl⟩

theorem trans {s'' : State} (h : s.Kept s') (h' : s'.Kept s'') : s.Kept s'' where
  created c hc := by
    obtain ⟨hc', hst, hadd⟩ := h.created c hc
    obtain ⟨hc'', hst', hadd'⟩ := h'.created c hc'
    exact ⟨hc'', hst'.trans hst, hadd'.trans hadd⟩
  added c hc := h'.added c (h.added c hc)
  connected c hc := h.connected c (h'.connected c hc)
  flags c := ⟨(h'.flags c).1.trans (h.flags c).1, (h'.flags c).2.trans (h.flags c).2⟩
  closes c := (h'.closes c).trans (h.closes c)
  closing c := (h'.closing c).trans (h.closing c)
  waits c hc := h'.waits c (h.waits c hc)

theorem newConnection {c : ℕ} (hc : (s.conns c).created = false) {chs : ℕ → ChannelCore} :
    s.Kept { s.modifyConn c (fun d => { d with created := true, st := .connecting }) with
      channels := chs, connectionTasks := s.connectionTasks ++ [.connect c] } := by
  refine ⟨fun d hd => ?_, fun d hd => ?_, fun d hd => ?_, fun d => ?_, fun d => ?_,
    fun d => Iff.rfl, fun d hd => ?_⟩
  · have hne : d ≠ c := fun he => by
      rw [he, hc] at hd
      cases hd
    simpa [modifyConn, update_of_ne hne] using hd
  · simp only [modifyConn, update_apply]
    split_ifs with he
    · rw [← he]
      exact hd
    · exact hd
  · simp only [modifyConn, update_apply] at hd
    split_ifs at hd
    exact hd
  · simp only [modifyConn, update_apply]
    split_ifs with he
    · rw [he]
      exact ⟨rfl, rfl⟩
    · exact ⟨rfl, rfl⟩
  · show (s.connectionTasks ++ [ConnectionTask.connect c]).count (.close d) = _
    rw [count_append, count_singleton, if_neg (by simp), Nat.add_zero]
  · refine hd.imp_left fun hst => ?_
    simp only [modifyConn, update_apply]
    split_ifs
    · rfl
    · exact hst

theorem getNextConnection {channel fresh : ℕ} {r : State × ℕ}
    (hr : s.getNextConnection channel fresh = some r) : s.Kept r.1 := by
  rcases getNextConnection_spec hr with ⟨chs, he, -⟩ | ⟨chs, hc, -, he⟩
  · rw [he]
    exact .of_eq rfl rfl rfl
  · rw [he]
    exact .newConnection hc

end State.Kept

/-- **The other actions keep the connections.** -/
theorem kept_of_step {s s' : State} {a : Action} (ha : a.changesConnections = false)
    (hs : s.step a = some s') : s.Kept s' := by
  cases a with
  | env a =>
    have hclient := (envStep_frame hs).client
    exact .of_eq (congrArg Client.conns hclient) (congrArg Client.connectionTasks hclient)
      (congrArg Client.connection hclient)
  | client a =>
    cases clientStep_step hs with
    | takeClose | takeConnect | clear | refuse | establish | drainDone | onClose => cases ha
    | takeTask _ _ hr hs =>
      refine (Kept.getNextConnection hr).trans ?_
      cases hs with
      | queue | drop | wait | submit => exact .of_eq rfl rfl rfl
    | drainWait hpc | drainLocked hpc =>
      refine .of_conns (fun c => ⟨_, rfl⟩) rfl (fun d => ?_) fun d => ?_
      · simp [hpc]
      · simp [hpc, drains]
    | lockMap c =>
      have hlocked := Kept.locked (s := s) (c := c) (j := 0) true (f := id)
      rwa [State.modify, id_eq, update_eq_self] at hlocked
    | miss => exact .locked false
    | complete => exact (Kept.locked false).trans (.of_eq rfl rfl rfl)
    | lockTask | drainDrop | drainSubmit | clearChannel | respond | expire | accept | serve =>
      exact .of_eq rfl rfl rfl

namespace Net

theorem moveOneWay_place (s : Net) (k : ℕ) (p : OneWayPlace) (j : ℕ) :
    ((s.moveOneWay k p).oneWays j).place = if j = k then p else (s.oneWays j).place := by
  simp only [moveOneWay, update_apply]
  split_ifs <;> rfl

def ran (s : Net) (k : ℕ) : ℕ :=
  match (s.oneWays k).place with
  | .taskQueue | .waitSend _ => 0
  | .refused _ => 1
  | .sent c =>
    (s.io c).encoded.count (.oneWay k) + (s.io c).cleaned.count (.oneWay k) +
      if (s.rpc.conns c).cleared then (s.io c).conn.datas.count (.oneWay k) else 0

section Ran

variable {s s' : Net} {k : ℕ}

theorem ran_of_sent {c : ℕ} (hp : (s.oneWays k).place = .sent c) :
    s.ran k = (s.io c).encoded.count (.oneWay k) + (s.io c).cleaned.count (.oneWay k) +
      if (s.rpc.conns c).cleared then (s.io c).conn.datas.count (.oneWay k) else 0 := by
  simp only [ran, hp]

theorem ran_congr (hp : (s'.oneWays k).place = (s.oneWays k).place)
    (hc : ∀ c, (s.oneWays k).place = .sent c → (s'.io c).encoded = (s.io c).encoded ∧
      (s'.io c).cleaned = (s.io c).cleaned ∧ (s'.io c).conn.datas = (s.io c).conn.datas ∧
        (s'.rpc.conns c).cleared = (s.rpc.conns c).cleared) :
    s'.ran k = s.ran k := by
  unfold ran
  rw [hp]
  split
  · rfl
  · rfl
  · rfl
  · rename_i c hsent
    obtain ⟨he, hcl, hd, hcleared⟩ := hc c hsent
    rw [he, hcl, hd, hcleared]

end Ran

structure Once (s : Net) : Prop where
  client : s.rpc.toClient.Sound
  io : ∀ c, (s.io c).Sound
  connected : ∀ c, (s.rpc.conns c).st = .connected → (s.rpc.conns c).added = true
  /-- a `CLOSE` task is queued by `onClose`, once -/
  closes : ∀ c, s.rpc.connectionTasks.count (.close c) +
    (if s.rpc.connection = .closing c then 1 else 0) + (s.rpc.conns c).cleared.toNat =
      (s.rpc.conns c).ended.toNat
  /-- the sender ended before -/
  ended : ∀ c, (s.rpc.conns c).ended = true → (s.io c).conn.sender = .done
  refused : ∀ c, s.refused c = true → (s.rpc.conns c).created = true ∧
    (s.rpc.conns c).st = .closed ∧ (s.rpc.conns c).added = false
  fresh : ∀ k, s.nextOneWay ≤ k → (s.oneWays k).place = .taskQueue
  waits : ∀ k c, (s.oneWays k).place = .waitSend c →
    (s.rpc.conns c).st = .connecting ∨ s.rpc.connection.drains c = true
  added : ∀ k c, (s.oneWays k).place = .sent c → (s.rpc.conns c).added = true
  /-- the task is given to one sender, once -/
  sent : ∀ k c, (items (s.io c).tasks).count (.oneWay k) =
    if (s.oneWays k).place = .sent c then 1 else 0
  dones : ∀ k, s.dones k = s.ran k

namespace Once

variable {s s' : Net} {c k : ℕ}

theorem count_eq (h : s.Once) (k c : ℕ) : (s.io c).encoded.count (.oneWay k) +
    (s.io c).conn.datas.count (.oneWay k) + (s.io c).cleaned.count (.oneWay k) +
      (items (s.io c).conn.queue).count (.oneWay k) =
    if (s.oneWays k).place = .sent c then 1 else 0 := by
  rw [← h.sent k c, (h.io c).fates]
  simp only [count_append]

theorem ended_of_cleared (h : s.Once) (hc : (s.rpc.conns c).cleared = true) :
    (s.rpc.conns c).ended = true := by
  have hcloses := h.closes c
  rw [hc, Bool.toNat_true] at hcloses
  by_contra hne
  rw [Bool.eq_false_iff.2 hne, Bool.toNat_false] at hcloses
  omega

variable {a : Io.Action Item}

theorem datas_of_cleared (h : s.Once) (hc : (s.rpc.conns c).cleared = true)
    {d : Delivery Item} (hd : (s.io c).step a = some d) :
    d.conn.datas = (s.io c).conn.datas :=
  ((h.io c).done_step (h.ended c (h.ended_of_cleared hc)) hd).2

variable {rpc : State}

theorem closes_congr (h : s.Once)
    (htasks : ∀ e, rpc.connectionTasks.count (.close e) = s.rpc.connectionTasks.count (.close e))
    (hclosing : ∀ e, rpc.connection = .closing e ↔ s.rpc.connection = .closing e)
    (hflags : ∀ e, (rpc.conns e).ended = (s.rpc.conns e).ended ∧
      (rpc.conns e).cleared = (s.rpc.conns e).cleared) (e : ℕ) :
    rpc.connectionTasks.count (.close e) + (if rpc.connection = .closing e then 1 else 0) +
      (rpc.conns e).cleared.toNat = (rpc.conns e).ended.toNat := by
  rw [htasks, (hflags e).1, (hflags e).2]
  simp only [hclosing e]
  exact h.closes e

theorem dones_congr (h : s.Once)
    (hflags : ∀ e, (rpc.conns e).cleared = (s.rpc.conns e).cleared) (j : ℕ) :
    s.dones j = { s with rpc }.ran j := by
  refine (h.dones j).trans (Eq.symm (ran_congr rfl fun e _ => ⟨rfl, rfl, rfl, ?_⟩))
  exact hflags e

theorem ofKept (h : s.Once) (hc : rpc.toClient.Sound) (hk : s.rpc.Kept rpc) :
    { s with rpc }.Once where
  client := hc
  io := h.io
  connected c hst := hk.added c (h.connected c (hk.connected c hst))
  closes := h.closes_congr hk.closes hk.closing hk.flags
  ended c hended := h.ended c ((hk.flags c).1.symm.trans hended)
  refused c hr := by
    obtain ⟨hcreated, hst, hadd⟩ := h.refused c hr
    obtain ⟨hcreated', hst', hadd'⟩ := hk.created c hcreated
    exact ⟨hcreated', hst'.trans hst, hadd'.trans hadd⟩
  fresh := h.fresh
  waits k c hp := hk.waits c (h.waits k c hp)
  added k c hp := hk.added c (h.added k c hp)
  sent := h.sent
  dones := h.dones_congr fun e => (hk.flags e).2

theorem count_queued {i : Item} (ha : a ≠ .send i) :
    (items a.queued).count i = 0 := by
  rw [count_eq_zero]
  intro hmem
  obtain ⟨task, htask, hitem⟩ := mem_filterMap.1 hmem
  cases a with
  | send d =>
    cases mem_singleton.1 htask
    exact ha (congrArg Io.Action.send (Option.some.inj hitem))
  | addSender | closePush | removeConnection =>
    cases mem_singleton.1 htask
    cases hitem
  | _ => exact not_mem_nil htask

/-- **An action of the IO** that is not the hand-over of a one-way call.  What it encodes and
cleans is what it adds to the history. -/
theorem ofIo (h : s.Once) (ha : ∀ k, a ≠ .send (.oneWay k))
    (hs : s.ioStep c a = some s') : s'.Once := by
  obtain ⟨d, hd, rfl⟩ := Option.map_eq_some_iff.1 hs
  obtain ⟨-, htasks, hencoded, hcleaned⟩ := Delivery.step_eq hd
  have hsound := (h.io c).step hd
  have hsent : ∀ k, (items d.tasks).count (.oneWay k) =
      if (s.oneWays k).place = .sent c then 1 else 0 := by
    intro k
    rw [htasks, items_append, count_append, count_queued (ha k), Nat.add_zero]
    exact h.sent k c
  refine ⟨h.client, fun e => ?_, h.connected, h.closes, fun e he => ?_, h.refused, h.fresh,
    h.waits, h.added, fun k e => ?_, fun k => ?_⟩
  · simp only [runDone, update_apply]
    split_ifs
    · exact hsound
    · exact h.io e
  · simp only [runDone, update_apply]
    split_ifs with hec
    · exact ((h.io c).done_step (h.ended c (hec ▸ he)) hd).1
    · exact h.ended e he
  · simp only [runDone, update_apply]
    by_cases hec : e = c
    · rw [if_pos hec, hec]
      exact hsent k
    · rw [if_neg hec]
      exact h.sent k e
  · have he := congrArg (List.count (Item.oneWay k)) hencoded
    have hcl := congrArg (List.count (Item.oneWay k)) hcleaned
    rw [count_append] at he hcl
    simp only [runDone, count_append, h.dones k]
    by_cases hp : (s.oneWays k).place = .sent c
    · rw [ran_of_sent hp]
      refine Eq.trans ?_ (Eq.symm (ran_of_sent (c := c) hp))
      simp only [update_self]
      split_ifs with hclear
      · rw [h.datas_of_cleared hclear hd]
        omega
      · omega
    · have hcount := congrArg (List.count (Item.oneWay k)) hsound.fates
      simp only [count_append, hsent k, if_neg hp] at hcount
      refine Eq.trans ?_ (Eq.symm (ran_congr (s := s) rfl fun e hpe => ?_))
      · omega
      · have hec : e ≠ c := by
          rintro rfl
          exact hp hpe
        simp only [update_of_ne hec, and_self]

theorem ran_eq_zero (hp : ∀ d, (s.oneWays k).place ≠ .sent d ∧ (s.oneWays k).place ≠ .refused d) :
    s.ran k = 0 := by
  unfold ran
  split
  · rfl
  · rfl
  · rename_i d hd
    exact absurd hd (hp d).2
  · rename_i d hd
    exact absurd hd (hp d).1

/-- **A one-way call is handed to a sender**, which has not had it. -/
theorem sendOneWay (h : s.Once) (hk : k < s.nextOneWay) (hadd : (s.rpc.conns c).added = true)
    (hp : ∀ d, (s.oneWays k).place ≠ .sent d ∧ (s.oneWays k).place ≠ .refused d)
    (hs : (s.moveOneWay k (.sent c)).ioStep c (.send (.oneWay k)) = some s') : s'.Once := by
  obtain ⟨d, hd, rfl⟩ := Option.map_eq_some_iff.1 hs
  obtain ⟨hconn, htasks, hencoded, hcleaned⟩ := Delivery.step_eq hd
  obtain ⟨-, hdatas, -, -, -⟩ := step_frame rfl hconn
  -- the sender gets the item, and nothing else happens to it
  replace hencoded : d.encoded = (s.io c).encoded := hencoded.trans (append_nil _)
  replace hcleaned : d.cleaned = (s.io c).cleaned := hcleaned.trans (append_nil _)
  replace hdatas : d.conn.datas = (s.io c).conn.datas := hdatas
  have hplace := s.moveOneWay_place k (.sent c)
  refine ⟨h.client, fun e => ?_, h.connected, h.closes, fun e he => ?_, h.refused,
    fun j hj => ?_, fun j e hje => ?_, fun j e hje => ?_, fun j e => ?_, fun j => ?_⟩
  · simp only [moveOneWay, runDone, update_apply]
    split_ifs
    · exact (h.io c).step hd
    · exact h.io e
  · simp only [moveOneWay, runDone, update_apply]
    split_ifs with hec
    · exact ((h.io c).done_step (h.ended c (hec ▸ he)) hd).1
    · exact h.ended e he
  · replace hj : s.nextOneWay ≤ j := hj
    exact (hplace j).trans ((if_neg (by omega)).trans (h.fresh j hj))
  · replace hje := (hplace j).symm.trans hje
    split_ifs at hje
    exact h.waits j e hje
  · replace hje := (hplace j).symm.trans hje
    split_ifs at hje
    · cases hje
      exact hadd
    · exact h.added j e hje
  · show (items (update s.io c d e).tasks).count (.oneWay j) = if
      ((s.moveOneWay k (.sent c)).oneWays j).place = .sent e then 1 else 0
    have hsent := h.sent j e
    rw [hplace j]
    by_cases hec : e = c
    · subst hec
      rw [update_self, htasks, items_append, count_append]
      show (items (s.io e).tasks).count (.oneWay j) + List.count (.oneWay j) [Item.oneWay k] = _
      rw [hsent, count_singleton]
      by_cases hjk : j = k
      · subst hjk
        simp [(hp e).1]
      · simp [hjk, Ne.symm hjk]
    · rw [update_of_ne hec, hsent]
      by_cases hjk : j = k
      · subst hjk
        simp [(hp e).1, Ne.symm hec]
      · rw [if_neg hjk]
  · show s.dones j + 0 = _
    rw [h.dones j]
    by_cases hjk : j = k
    · subst hjk
      have hcount := h.count_eq j c
      rw [if_neg (hp c).1] at hcount
      refine (ran_eq_zero hp).trans (Eq.symm ((ran_of_sent (c := c) ?_).trans ?_))
      · exact (hplace j).trans (if_pos rfl)
      · simp only [runDone, update_self]
        rw [hencoded, hcleaned, hdatas]
        split_ifs <;> omega
    · refine Eq.symm (ran_congr ?_ fun e _ => ?_)
      · exact (hplace j).trans (if_neg hjk)
      · by_cases hec : e = c
        · subst hec
          simp only [moveOneWay, runDone, update_self, hencoded, hcleaned, hdatas, and_self]
        · simp only [moveOneWay, runDone, update_of_ne hec, and_self]

theorem ofPlaces (h : s.Once) {n : ℕ} {w : ℕ → OneWay} {dones : ℕ → ℕ}
    (hsent : ∀ j e, (w j).place = .sent e ↔ (s.oneWays j).place = .sent e)
    (hfresh : ∀ j, n ≤ j → (w j).place = .taskQueue) (hwaits : ∀ j e, (w j).place = .waitSend e →
      (s.rpc.conns e).st = .connecting ∨ s.rpc.connection.drains e = true)
    (hdones : ∀ j, dones j = { s with oneWays := w }.ran j) :
    { s with nextOneWay := n, oneWays := w, dones }.Once where
  client := h.client
  io := h.io
  connected := h.connected
  closes := h.closes
  ended := h.ended
  refused := h.refused
  fresh := hfresh
  waits := hwaits
  added j e hje := h.added j e ((hsent j e).1 hje)
  sent j e := by
    simp only [hsent j e]
    exact h.sent j e
  dones := hdones

theorem oneWayCall (h : s.Once) {channel : ℕ} : { s with
    nextOneWay := s.nextOneWay + 1
    oneWays := update s.oneWays s.nextOneWay ⟨channel, .taskQueue⟩ }.Once := by
  have hplace : ∀ j, (update s.oneWays s.nextOneWay ⟨channel, .taskQueue⟩ j).place =
      (s.oneWays j).place := by
    intro j
    rw [update_apply]
    split_ifs with hj
    · rw [hj, h.fresh _ (Nat.le_refl _)]
    · rfl
  refine h.ofPlaces (fun j e => by rw [hplace]) (fun j hj => ?_) (fun j e hje => ?_) fun j => ?_
  · rw [hplace]
    exact h.fresh j (by omega)
  · exact h.waits j e ((hplace j).symm.trans hje)
  · exact (h.dones j).trans (Eq.symm (ran_congr (hplace j) fun e _ => ⟨rfl, rfl, rfl, rfl⟩))

theorem waitOneWay (h : s.Once) (hk : k < s.nextOneWay) (hp : (s.oneWays k).place = .taskQueue)
    (hst : (s.rpc.conns c).st = .connecting) : (s.moveOneWay k (.waitSend c)).Once := by
  have hplace := s.moveOneWay_place k (.waitSend c)
  refine h.ofPlaces (w := (s.moveOneWay k (.waitSend c)).oneWays) (fun j e => ?_)
    (fun j hj => ?_) (fun j e hje => ?_) fun j => ?_
  · rw [hplace]
    split_ifs with hjk
    · simp [hjk, hp]
    · rfl
  · rw [hplace, if_neg (by omega)]
    exact h.fresh j hj
  · rw [hplace] at hje
    split_ifs at hje
    · cases hje
      exact .inl hst
    · exact h.waits j e hje
  · rw [h.dones j]
    by_cases hjk : j = k
    · subst hjk
      rw [ran_eq_zero (by simp [hp])]
      refine Eq.symm (ran_eq_zero (s := s.moveOneWay j (.waitSend c)) fun d => ?_)
      rw [hplace, if_pos rfl]
      exact ⟨nofun, nofun⟩
    · refine Eq.symm (ran_congr ?_ fun e _ => ⟨rfl, rfl, rfl, rfl⟩)
      exact (hplace j).trans (if_neg hjk)

theorem update_field {β : Type} {conns : ℕ → Connection} {d : Connection} (g : Connection → β)
    (hg : g d = g (conns c)) (e : ℕ) : g (update conns c d e) = g (conns e) := by
  rw [update_apply]
  split_ifs with hec
  · rw [hec]
    exact hg
  · rfl

section

variable (h : s.Once)
include h

theorem ofConn {d : Connection} {refused : ℕ → Bool} {dones : ℕ → ℕ}
    (hc : rpc.toClient.Sound) (hconns : rpc.conns = update s.rpc.conns c d)
    (hconnected : d.st = .connected → d.added = true)
    (hcloses : ∀ e, rpc.connectionTasks.count (.close e) +
      (if rpc.connection = .closing e then 1 else 0) + (rpc.conns e).cleared.toNat =
        (rpc.conns e).ended.toNat) (hended : d.ended = true → (s.io c).conn.sender = .done)
    (hrefused : ∀ e, refused e = true → e ≠ c ∧ s.refused e = true ∨
      e = c ∧ d.created = true ∧ d.st = .closed ∧ d.added = false)
    (hwaits : ∀ j e, (s.oneWays j).place = .waitSend e →
      (rpc.conns e).st = .connecting ∨ rpc.connection.drains e = true)
    (hadded : (s.rpc.conns c).added = true → d.added = true)
    (hdones : ∀ j, dones j = { s with rpc }.ran j) :
    { s with rpc, refused, dones }.Once where
  client := hc
  io := h.io
  connected e he := by
    simp only [hconns, update_apply] at he ⊢
    split_ifs at he ⊢
    · exact hconnected he
    · exact h.connected e he
  closes := hcloses
  ended e he := by
    simp only [hconns, update_apply] at he
    split_ifs at he with hec
    · rw [hec]
      exact hended he
    · exact h.ended e he
  refused e he := by
    rcases hrefused e he with ⟨hec, hr⟩ | ⟨rfl, hd⟩
    · simp only [hconns, update_of_ne hec]
      exact h.refused e hr
    · simp only [hconns, update_self]
      exact hd
  fresh := h.fresh
  waits := hwaits
  added j e hje := by
    have hadd := h.added j e hje
    simp only [hconns, update_apply]
    split_ifs with hec
    · exact hadded (hec ▸ hadd)
    · exact hadd
  sent := h.sent
  dones := hdones

theorem takeClose {rest : List ConnectionTask} (hpc : s.rpc.connection = .idle)
    (ht : s.rpc.connectionTasks = .close c :: rest) :
    { s with rpc := { s.rpc.modifyConn c fun d => { d with st := .closed } with
      connectionTasks := rest, connection := .closing c } }.Once := by
  have hadd : (s.rpc.conns c).added = true := h.client.closing c (.inl (by simp [ht]))
  refine h.ofConn (h.client.takeClose hpc ht) rfl nofun (fun e => ?_) (h.ended c)
    (fun e he => ?_) (fun j e hje => ?_) id (h.dones_congr (update_field (·.cleared) (by rfl)))
  · have hcloses := h.closes e
    simp only [ht, hpc, count_cons] at hcloses
    simp only [modifyConn, update_apply]
    by_cases hec : e = c
    · subst hec
      simpa using hcloses
    · simpa [hec, Ne.symm hec] using hcloses
  · refine .inl ⟨?_, he⟩
    rintro rfl
    rw [(h.refused e he).2.2] at hadd
    cases hadd
  · rcases h.waits j e hje with hst | hdr
    · have hec : e ≠ c := by
        rintro rfl
        rw [h.client.notAdded e hst] at hadd
        cases hadd
      exact .inl (by simpa [modifyConn, update_of_ne hec] using hst)
    · rw [hpc] at hdr
      cases hdr

theorem takeConnect {rest : List ConnectionTask} (hpc : s.rpc.connection = .idle)
    (ht : s.rpc.connectionTasks = .connect c :: rest) :
    { s with rpc := { s.rpc with
      connectionTasks := rest, connection := .connecting c } }.Once := by
  refine h.ofKept (h.client.takeConnect hpc ht) ⟨fun d hd => ⟨hd, rfl, rfl⟩, fun _ => id,
    fun _ => id, fun _ => ⟨rfl, rfl⟩, fun d => ?_, fun d => ?_, fun d hd => ?_⟩
  · show rest.count (.close d) = _
    rw [ht, count_cons_of_ne (by simp)]
  · simp [hpc]
  · simpa [hpc, drains] using hd

/-- **The `CLOSE` task is processed**, once: the closures of the calls in `datas_` are run. -/
theorem clear (hc : rpc.toClient.Sound)
    (hpc : s.rpc.connection = .closing c) (htasks : rpc.connectionTasks = s.rpc.connectionTasks)
    (hidle : rpc.connection = .idle)
    (hconns : rpc.conns = update s.rpc.conns c { s.rpc.conns c with cleared := true }) :
    ({ s with rpc }.runDone (s.io c).conn.datas).Once := by
  have hended : (s.rpc.conns c).ended = true := h.client.ended c (.inr hpc)
  have hcloses := h.closes c
  rw [if_pos hpc, hended, Bool.toNat_true] at hcloses
  have hclear : (s.rpc.conns c).cleared = false := Bool.toNat_eq_zero.1 (by omega)
  refine h.ofConn hc hconns (h.connected c) (fun e => ?_) (h.ended c) (fun e he => ?_)
    (fun j e hje => ?_) id fun j => ?_
  · rw [htasks, hidle, hconns]
    by_cases hec : e = c
    · subst hec
      simp only [update_self, hended, Bool.toNat_true]
      simp
      omega
    · have hcloses' := h.closes e
      simpa [hpc, Ne.symm hec, update_of_ne hec] using hcloses'
  · by_cases hec : e = c
    · exact .inr ⟨hec, hec ▸ h.refused e he⟩
    · exact .inl ⟨hec, he⟩
  · rcases h.waits j e hje with hst | hdr
    · left
      rw [hconns]
      exact (update_field (·.st) (by rfl) e).trans hst
    · rw [hpc] at hdr
      cases hdr
  · show s.dones j + (s.io c).conn.datas.count (.oneWay j) = _
    rw [h.dones j]
    by_cases hp : (s.oneWays j).place = .sent c
    · rw [ran_of_sent hp]
      refine Eq.trans ?_ (Eq.symm (ran_of_sent (c := c) hp))
      simp only [hconns, update_self, hclear]
      simp
    · have hcount := h.count_eq j c
      rw [if_neg hp] at hcount
      refine Eq.trans ?_ (Eq.symm (ran_congr (s := s) rfl fun e hpe => ⟨rfl, rfl, rfl, ?_⟩))
      · omega
      · have hec : e ≠ c := by
          rintro rfl
          exact hp hpe
        simp only [hconns, update_of_ne hec]

/-- **The connection is not made**: the closures of the calls that wait for it are run. -/
theorem refuse (hc : rpc.toClient.Sound)
    (hpc : s.rpc.connection = .connecting c) (htasks : rpc.connectionTasks = s.rpc.connectionTasks)
    (hidle : rpc.connection = .idle)
    (hconns : rpc.conns = update s.rpc.conns c { s.rpc.conns c with st := .closed }) :
    ({ s with rpc }.refuse c).Once := by
  obtain ⟨hst, -⟩ := h.client.of_connecting hpc
  have hcreated : (s.rpc.conns c).created = true := by
    by_contra hne
    rw [(h.client.fresh c (Bool.eq_false_iff.2 hne)).1] at hst
    cases hst
  have hflags : ∀ e, (rpc.conns e).ended = (s.rpc.conns e).ended ∧
      (rpc.conns e).cleared = (s.rpc.conns e).cleared := by
    rw [hconns]
    exact fun e => ⟨update_field (·.ended) (by rfl) e, update_field (·.cleared) (by rfl) e⟩
  have hplace : ∀ j, (((s.refuse c).oneWays j).place = .refused c ∧
      (s.oneWays j).place = .waitSend c) ∨ (s.refuse c).oneWays j = s.oneWays j ∧
      (s.oneWays j).place ≠ .waitSend c := by
    intro j
    simp only [Net.refuse]
    split_ifs with hj
    · exact .inl ⟨rfl, hj⟩
    · exact .inr ⟨rfl, hj⟩
  have hmoved : { s with oneWays := (s.refuse c).oneWays, dones := (s.refuse c).dones }.Once := by
    refine h.ofPlaces (fun j e => ?_) (fun j hj => ?_) (fun j e hje => ?_) fun j => ?_
    · rcases hplace j with ⟨hj, hw⟩ | ⟨hj, -⟩
      · simp [hj, hw]
      · rw [hj]
    · rcases hplace j with ⟨-, hw⟩ | ⟨he, -⟩
      · rw [h.fresh j hj] at hw
        cases hw
      · rw [he]
        exact h.fresh j hj
    · rcases hplace j with ⟨hj, -⟩ | ⟨hj, -⟩
      · rw [hj] at hje
        cases hje
      · exact h.waits j e (hj ▸ hje)
    · show s.dones j + (if (s.oneWays j).place = .waitSend c then 1 else 0) = _
      rw [h.dones j]
      rcases hplace j with ⟨hj, hw⟩ | ⟨hj, hw⟩
      · simp only [ran, hj, hw, if_pos]
      · rw [if_neg hw]
        exact Eq.symm (ran_congr (congrArg _ hj) fun e _ => ⟨rfl, rfl, rfl, rfl⟩)
  refine hmoved.ofConn hc hconns nofun (h.closes_congr (by simp [htasks]) ?_ hflags) (h.ended c)
    (fun e he => ?_) (fun j e hje => ?_) id (hmoved.dones_congr fun e => (hflags e).2)
  · simp [hidle, hpc]
  · by_cases hec : e = c
    · exact .inr ⟨hec, hcreated, rfl, h.client.notAdded c hst⟩
    · refine .inl ⟨hec, ?_⟩
      replace he : update s.refused c true e = true := he
      rwa [update_of_ne hec] at he
  · rcases hplace j with ⟨hj, -⟩ | ⟨hj, hw⟩
    · rw [hj] at hje
      cases hje
    · rw [hj] at hje
      have hec : e ≠ c := by
        rintro rfl
        exact hw hje
      rw [hconns, update_of_ne hec, hidle]
      rcases h.waits j e hje with hst' | hdr
      · exact .inl hst'
      · rw [hpc] at hdr
        cases hdr

/-- **The connection is made** and given to the IO. -/
theorem establish (hpc : s.rpc.connection = .connecting c) :
    { s with rpc := { s.rpc.modifyConn c fun d => { d with st := .connected, added := true } with
      connection := .drain c } }.Once := by
  obtain ⟨hst, -⟩ := h.client.of_connecting hpc
  refine h.ofConn (h.client.establish hpc) rfl (fun _ => rfl)
    (h.closes_congr (fun _ => rfl) (by simp [hpc]) fun e =>
      ⟨update_field (·.ended) (by rfl) e, update_field (·.cleared) (by rfl) e⟩) (h.ended c)
    (fun e he => ?_) (fun j e hje => ?_) (fun _ => rfl)
    (h.dones_congr (update_field (·.cleared) (by rfl)))
  · refine .inl ⟨?_, he⟩
    rintro rfl
    rw [(h.refused e he).2.1] at hst
    cases hst
  · by_cases hec : e = c
    · exact .inr (by simp [hec, drains])
    · rcases h.waits j e hje with hst' | hdr
      · exact .inl (by simpa [modifyConn, update_of_ne hec] using hst')
      · rw [hpc] at hdr
        cases hdr

theorem drained (hpc : s.rpc.connection = .drain c) (hw : s.anyWaiting c = false) :
    { s with rpc := { s.rpc with connection := .idle } }.Once := by
  have hnone : ∀ j, (s.oneWays j).place ≠ .waitSend c := by
    intro j hj
    by_cases hlt : j < s.nextOneWay
    · have hall := any_eq_false.1 hw j (mem_range.2 hlt)
      exact hall (decide_eq_true hj)
    · rw [h.fresh j (by omega)] at hj
      cases hj
  refine h.ofConn (c := c) (h.client.withPc fun d => by simp [hpc, drains])
    (update_eq_self c _).symm (h.connected c)
    (h.closes_congr (fun _ => rfl) (by simp [hpc]) fun _ => ⟨rfl, rfl⟩) (h.ended c)
    (fun e he => ?_) (fun j e hje => ?_) id (h.dones_congr fun _ => rfl)
  · by_cases hec : e = c
    · exact .inr ⟨hec, hec ▸ h.refused e he⟩
    · exact .inl ⟨hec, he⟩
  · rcases h.waits j e hje with hst | hdr
    · exact .inl hst
    · rw [hpc] at hdr
      cases of_decide_eq_true hdr
      exact absurd hje (hnone j)

/-- **`onClose`** is called when the sender is done. -/
theorem close (hadd : (s.rpc.conns c).added = true)
    (hended : (s.rpc.conns c).ended = false) (hdone : (s.io c).conn.sender = .done) :
    { s with rpc := { s.rpc.modifyConn c fun d => { d with ended := true } with
      connectionTasks := s.rpc.connectionTasks ++ [ConnectionTask.close c] } }.Once := by
  refine h.ofConn (h.client.onClose hadd) rfl (h.connected c) (fun e => ?_) (fun _ => hdone)
    (fun e he => ?_) (fun j e hje => ?_) id
    (h.dones_congr (update_field (·.cleared) (by rfl)))
  · have hcloses := h.closes e
    simp only [count_append, modifyConn, update_apply]
    by_cases hec : e = c
    · subst hec
      simp [hended] at hcloses
      simp [hcloses]
    · rw [count_singleton, if_neg (by simpa using Ne.symm hec), if_neg hec]
      exact hcloses
  · by_cases hec : e = c
    · exact .inr ⟨hec, hec ▸ h.refused e he⟩
    · exact .inl ⟨hec, he⟩
  · exact (h.waits j e hje).imp_left (update_field (·.st) (by rfl) e).trans

theorem rest {q : List ℕ} {r : ℕ → Bool} {b : Bool} :
    { s with clearQueue := q, released := r, crashed := b }.Once :=
  { h with }

theorem rpcStep {a : Action} (ha : a.changesConnections = false)
    (hs : s.rpcStep a = some s') : s'.Once := by
  obtain ⟨rpc, hrpc, hs⟩ := Option.bind_eq_some_iff.1 hs
  have hkept := h.ofKept (sound_step h.client hrpc) (kept_of_step ha hrpc)
  split at hs
  · exact hkept.ofIo (by simp) hs
  · cases hs
    exact hkept

theorem onClose (hrpc : s.rpc.step (.client (.onClose c)) = some rpc)
    (hs : { s with rpc }.ioStep c .onClose = some s') : s'.Once := by
  obtain ⟨d, hd, -⟩ := Option.map_eq_some_iff.1 hs
  have hdone : (s.io c).conn.sender = .done := by
    have hconn := (Delivery.step_eq hd).1
    simp only [Io.Connection.step, Io.Connection.onClose] at hconn
    split_ifs at hconn with hending
    exact (h.io c).conn.done_of_waited (by rw [hending]; rfl)
  cases client_step hrpc with
  | onClose hadd hopen => exact (h.close hadd hopen hdone).ofIo (by simp) hs

theorem step {a : NetAction} (hs : s.step a = some s') : s'.Once := by
  cases step_step hs with
  | rpc ha _ _ _ hs => exact h.rpcStep ha hs
  | takeConnectionTask hrpc =>
    cases client_step hrpc with
    | takeClose hpc ht => exact h.takeClose hpc ht
    | takeConnect hpc ht => exact h.takeConnect hpc ht
  | clear hpc hrpc =>
    have hsound := sound_step h.client hrpc
    cases client_step hrpc with
    | clear hpc' =>
      cases hpc.symm.trans hpc'
      exact h.clear hsound hpc rfl rfl rfl
  | refuse hpc hf hrpc =>
    have hsound := sound_step h.client hrpc
    cases client_step hrpc with
    | refuse hpc' =>
      cases hpc.symm.trans hpc'
      exact h.refuse hsound hpc rfl rfl rfl
    | establish _ hf' => cases hf.symm.trans hf'
  | establish hpc hf hrpc ht hs =>
    cases client_step hrpc with
    | establish hpc' =>
      cases hpc.symm.trans hpc'
      exact ((h.establish hpc).ofIo (by simp) ht).ofIo (by simp) hs
    | refuse _ _ hf' => cases hf.symm.trans hf'
  | drainDone hpc hw hrpc =>
    cases client_step hrpc with
    | drainDone => exact h.drained hpc hw
  | clearChannel _ hrpc =>
    exact (h.ofKept (sound_step h.client hrpc) (kept_of_step rfl hrpc)).rest
  | onClose hrpc hs => exact h.onClose hrpc hs
  | crash => exact h.rest
  | oneWayCall => exact h.oneWayCall
  | wait hlt hp hr hst =>
    have hr := (choose_spec hr).1
    exact (h.ofKept (h.client.getNextConnection hr) (.getNextConnection hr)).waitOneWay hlt hp hst
  | send hlt hp hr hst hs =>
    have hr := (choose_spec hr).1
    have hkept := h.ofKept (h.client.getNextConnection hr) (.getNextConnection hr)
    exact hkept.sendOneWay hlt (hkept.connected _ hst) (by simp [hp]) hs
  | @drain _ c _ hpc hlt hp hs =>
    have hst := h.client.draining c (by simp [hpc, drains])
    exact h.sendOneWay hlt (h.connected c hst) (by simp [hp]) hs
  | release => exact h.rest
  | io ha hs =>
    refine h.ofIo (fun k hk => ?_) hs
    subst hk
    cases ha

end

end Once

theorem once_init (channels : ℕ → ℕ) : (init channels).Once where
  client := sound_init channels
  io _ := Delivery.sound_init
  connected _ := nofun
  closes _ := rfl
  ended _ := nofun
  refused _ := nofun
  fresh _ _ := rfl
  waits _ _ := nofun
  added _ _ := nofun
  sent _ _ := rfl
  dones _ := rfl

end Net

/-- **The closure of a one-way call runs once**, with connections that are made, refused or closed
by any side at any time. -/
theorem done_once (channels : ℕ → ℕ) (actions : List NetAction) (s : Net)
    (h : run Net.step (Net.init channels) actions = some s) (k : ℕ) :
    s.dones k ≤ 1 ∧ ∀ c, (s.oneWays k).place.routedTo c = true →
      (s.rpc.conns c).cleared = true ∨ s.refused c = true →
        items (s.io c).conn.queue = [] → s.dones k = 1 := by
  have hs : s.Once := run_invariant (fun _ _ _ h hs => h.step hs) (Net.once_init channels) h
  rw [hs.dones k]
  unfold Net.ran
  cases hp : (s.oneWays k).place with
  | taskQueue => exact ⟨Nat.zero_le 1, fun c => nofun⟩
  | waitSend d =>
    -- nobody waits for a connection that is closed
    refine ⟨Nat.zero_le 1, fun c hc hend _ => ?_⟩
    obtain rfl : d = c := of_decide_eq_true hc
    have hst : (s.rpc.conns d).st = .closed :=
      hend.elim (hs.client.cleared d) fun hr => (hs.refused d hr).2.1
    rcases hs.waits k d hp with hw | hdr
    · rw [hst] at hw
      cases hw
    · rw [hs.client.draining d hdr] at hst
      cases hst
  | refused d => exact ⟨Nat.le_refl 1, fun _ _ _ _ => rfl⟩
  | sent d =>
    have hcount := hs.count_eq k d
    rw [if_pos hp] at hcount
    constructor
    · dsimp only
      split_ifs <;> omega
    · intro c hc hend hq
      obtain rfl : d = c := of_decide_eq_true hc
      have hcleared : (s.rpc.conns d).cleared = true := by
        refine hend.resolve_right fun hr => ?_
        have hadd := hs.added k d hp
        rw [(hs.refused d hr).2.2] at hadd
        cases hadd
      rw [hq, count_nil] at hcount
      dsimp only
      rw [if_pos hcleared]
      omega

/-- Four calls: the connection of the first one is refused, the second one is encoded, the third
one is in `datas_` when the write fails, and the fourth one comes after that. -/
def fourWays : List NetAction :=
  [.oneWayCall 0, .takeOneWay 0 0, .rpc (.client .takeConnectionTask),
    .rpc (.client (.connectDone (.refused 111))),
    .oneWayCall 0, .takeOneWay 1 1, .rpc (.client .takeConnectionTask),
    .rpc (.client (.connectDone .establishedLater)), .drainOneWay 1, .rpc (.client .drainDone),
    .io 1 .takeTask, .io 1 (.downflow 0 false), .io 1 .takeTask, .io 1 (.downflow 1 false),
    .io 1 .write, .oneWayCall 0, .takeOneWay 2 2, .io 1 .takeTask, .io 1 (.written false),
    .io 1 .leave, .oneWayCall 0, .takeOneWay 3 2, .io 1 .shutdownRd, .io 1 .post, .io 1 .takeTask,
    .io 1 .startReceiver, .io 1 (.read .leaving), .io 1 .removeConnection, .io 1 .shutdownWr,
    .io 1 .wait, .io 1 .close, .io 1 .mark, .rpc (.client (.onClose 1)),
    .rpc (.client .takeConnectionTask), .rpc (.client .clearConnection), .io 1 .takeTask]

theorem done_once_fourWays : ∃ s, run Net.step (Net.init fun _ => 1) fourWays = some s ∧
    (s.refused 0 = true ∧ (s.rpc.conns 1).cleared = true ∧ (s.io 1).conn.queue = [] ∧
      (s.oneWays 0).place = .refused 0 ∧ (s.io 1).encoded = [.oneWay 1] ∧
      (s.io 1).conn.datas = [.oneWay 2] ∧ (s.io 1).cleaned = [.oneWay 3]) ∧
    s.dones 0 = 1 ∧ s.dones 1 = 1 ∧ s.dones 2 = 1 ∧ s.dones 3 = 1 := by
  refine exists_run_of_imp (P := fun s =>
      (s.refused 0 = true ∧ (s.rpc.conns 1).cleared = true ∧ (s.io 1).conn.queue = [] ∧
        (s.oneWays 0).place = .refused 0 ∧ (s.io 1).encoded = [.oneWay 1] ∧
        (s.io 1).conn.datas = [.oneWay 2] ∧ (s.io 1).cleaned = [.oneWay 3]) ∧
      (s.io 0).conn.queue = [] ∧ (s.oneWays 1).place = .sent 1 ∧ (s.oneWays 2).place = .sent 1 ∧
        (s.oneWays 3).place = .sent 1) (by decide +kernel) fun s hs ⟨hfates, hq, h1, h2, h3⟩ => ?_
  have ⟨hr, hc, hq1, h0, _⟩ := hfates
  refine ⟨hfates, ?_, ?_, ?_, ?_⟩
  · exact (done_once _ _ s hs 0).2 0 (by rw [h0]; rfl) (.inr hr) (by rw [hq]; rfl)
  · exact (done_once _ _ s hs 1).2 1 (by rw [h1]; rfl) (.inl hc) (by rw [hq1]; rfl)
  · exact (done_once _ _ s hs 2).2 1 (by rw [h2]; rfl) (.inl hc) (by rw [hq1]; rfl)
  · exact (done_once _ _ s hs 3).2 1 (by rw [h3]; rfl) (.inl hc) (by rw [hq1]; rfl)

end Corpc.Rpc
