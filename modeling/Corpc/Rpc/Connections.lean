/-
# The connections of the client

What the `st_` of a connection says about the tasks of `connectionRoutine`: a
connection is `CONNECTING` exactly while its one `CONNECT` task is in the queue or in
progress, a `CLOSE` task is there only for a connection that was given to the IO, and a
connection whose `CLOSE` task was processed stays `CLOSED`.
-/

import Corpc.Rpc.Moves

namespace Corpc.Rpc

open Client State ConnectionPc

/-- `connectionRoutine` sends the waiting list of the connection. -/
def ConnectionPc.drains (c : ℕ) : ConnectionPc → Bool
  | .drain d | .drainLock _ d => d = c
  | _ => false

structure Client.Sound (s : Client) : Prop where
  fresh : ∀ c, (s.conns c).created = false →
    (s.conns c).st = .closed ∧ (s.conns c).added = false ∧ (s.conns c).cleared = false
  connecting : ∀ c, s.connectionTasks.count (.connect c) +
    (if s.connection = .connecting c then 1 else 0) = if (s.conns c).st = .connecting then 1 else 0
  notAdded : ∀ c, (s.conns c).st = .connecting → (s.conns c).added = false
  cleared : ∀ c, (s.conns c).cleared = true → (s.conns c).st = .closed
  closing : ∀ c, .close c ∈ s.connectionTasks ∨ s.connection = .closing c → (s.conns c).added = true
  closed : ∀ c, s.connection = .closing c → (s.conns c).st = .closed
  ended : ∀ c, .close c ∈ s.connectionTasks ∨ s.connection = .closing c → (s.conns c).ended = true
  draining : ∀ c, s.connection.drains c = true → (s.conns c).st = .connected

/-- What the invariant says of one connection: `connects` counts its `CONNECT` tasks,
`pending` and `current` say that its `CLOSE` task is there and that it is in progress. -/
structure Connection.Sound (d : Connection) (connects : ℕ) (pending current : Prop)
    (drains : Bool) : Prop where
  fresh : d.created = false → d.st = .closed ∧ d.added = false ∧ d.cleared = false
  connecting : connects = if d.st = .connecting then 1 else 0
  notAdded : d.st = .connecting → d.added = false
  cleared : d.cleared = true → d.st = .closed
  closing : pending → d.added = true
  closed : current → d.st = .closed
  ended : pending → d.ended = true
  draining : drains = true → d.st = .connected

/-- The `CONNECT` tasks of a connection, in the queue or in progress. -/
def Client.connects (s : Client) (c : ℕ) : ℕ :=
  s.connectionTasks.count (.connect c) + if s.connection = .connecting c then 1 else 0

/-- The `CLOSE` task of a connection is in the queue or in progress. -/
def Client.closes (s : Client) (c : ℕ) : Prop :=
  .close c ∈ s.connectionTasks ∨ s.connection = .closing c

namespace Client.Sound

variable {s s' : State} {c : ℕ}

theorem connectPending (h : s.toClient.Sound) (hc : (s.conns c).st = .connecting) :
    .connect c ∈ s.connectionTasks ∨ s.connection = .connecting c := by
  have hcount := h.connecting c
  rw [if_pos hc] at hcount
  split_ifs at hcount with hpc
  · exact .inr hpc
  · exact .inl (List.count_pos_iff.1 (by omega))

theorem conn (h : s.toClient.Sound) (c : ℕ) : (s.conns c).Sound (s.connects c) (s.closes c)
    (s.connection = .closing c) (s.connection.drains c) :=
  ⟨h.fresh c, h.connecting c, h.notAdded c, h.cleared c, h.closing c, h.closed c, h.ended c,
    h.draining c⟩

theorem of_conns (h : ∀ c, (s.conns c).Sound (s.connects c) (s.closes c)
    (s.connection = .closing c) (s.connection.drains c)) : s.toClient.Sound :=
  ⟨fun c => (h c).fresh, fun c => (h c).connecting, fun c => (h c).notAdded,
    fun c => (h c).cleared, fun c => (h c).closing, fun c => (h c).closed, fun c => (h c).ended,
    fun c => (h c).draining⟩

section

variable (h : s.toClient.Sound)
include h

theorem update {d' : Connection} (hconns : s'.conns = Function.update s.conns c d')
    (hother : ∀ d, d ≠ c → s'.connects d = s.connects d ∧ (s'.closes d ↔ s.closes d) ∧
      (s'.connection = .closing d ↔ s.connection = .closing d) ∧
      s'.connection.drains d = s.connection.drains d)
    (hc : d'.Sound (s'.connects c) (s'.closes c) (s'.connection = .closing c)
      (s'.connection.drains c)) : s'.toClient.Sound := by
  refine of_conns fun d => ?_
  by_cases hd : d = c
  · rw [hd, hconns, Function.update_self]
    exact hc
  · obtain ⟨h₁, h₂, h₃, h₄⟩ := hother d hd
    rw [hconns, Function.update_of_ne hd, h₁, h₂, h₃, h₄]
    exact h.conn d

theorem of_eq (hconns : s'.conns = s.conns)
    (htasks : s'.connectionTasks = s.connectionTasks) (hpc : s'.connection = s.connection) :
    s'.toClient.Sound := by
  refine of_conns fun c => ?_
  simp only [connects, closes, hconns, htasks, hpc]
  exact h.conn c

theorem withPc {pc : ConnectionPc}
    (hpc : ∀ d, (pc = .connecting d ↔ s.connection = .connecting d) ∧ pc ≠ .closing d ∧
      (pc.drains d = true → s.connection.drains d = true)) :
    { s with connection := pc }.toClient.Sound where
  fresh := h.fresh
  connecting d := by
    have := h.connecting d
    simpa only [(hpc d).1] using this
  notAdded := h.notAdded
  cleared := h.cleared
  closing d hd := h.closing d (hd.imp_right fun he => absurd he (hpc d).2.1)
  closed d hd := absurd hd (hpc d).2.1
  ended d hd := h.ended d (hd.imp_right fun he => absurd he (hpc d).2.1)
  draining d hd := h.draining d ((hpc d).2.2 hd)

theorem newConnection (hc : (s.conns c).created = false) {chs : ℕ → ChannelCore} :
    { s.modifyConn c (fun d => { d with created := true, st := .connecting }) with
      channels := chs, connectionTasks :=
        s.connectionTasks ++ [ConnectionTask.connect c] }.toClient.Sound := by
  obtain ⟨hst, hadd, hclear⟩ := h.fresh c hc
  have hcount := h.connecting c
  refine h.update rfl (fun d hd => ?_) ⟨nofun, ?_, fun _ => hadd, ?_, ?_, ?_, ?_, ?_⟩
  · simp [connects, closes, modifyConn, Ne.symm hd]
    rfl
  · simp only [hst] at hcount
    simp_all [connects, modifyConn]
  · simp [hclear]
  · simpa [closes, modifyConn] using h.closing c
  · intro hcl
    have := h.closing c (.inr hcl)
    rw [hadd] at this
    cases this
  · simpa [closes, modifyConn] using h.ended c
  · intro hdr
    have := h.draining c hdr
    rw [hst] at this
    cases this

theorem takeClose {rest : List ConnectionTask} (hpc : s.connection = .idle)
    (ht : s.connectionTasks = .close c :: rest) :
    { s.modifyConn c (fun d => { d with st := .closed }) with
      connectionTasks := rest, connection := .closing c }.toClient.Sound := by
  have hpend : s.closes c := .inl (by rw [ht]; exact List.mem_cons_self)
  have hadd : (s.conns c).added = true := h.closing c hpend
  have hcount := h.connecting c
  refine h.update rfl (fun d hd => ?_) ⟨fun hc => ⟨rfl, (h.fresh c hc).2⟩, ?_, nofun,
    fun _ => rfl, fun _ => hadd, fun _ => rfl, fun _ => h.ended c hpend, nofun⟩
  · simp [connects, closes, drains, hpc, ht, hd, Ne.symm hd]
  · have hst : (s.conns c).st ≠ .connecting := fun hc => by
      rw [h.notAdded c hc] at hadd
      cases hadd
    simpa [connects, hst, ht, hpc] using hcount

theorem takeConnect {rest : List ConnectionTask} (hpc : s.connection = .idle)
    (ht : s.connectionTasks = .connect c :: rest) :
    { s with connectionTasks := rest, connection := .connecting c }.toClient.Sound := by
  have hclose : ∀ d, ConnectionTask.close d ∈ rest ∨ ConnectionPc.connecting c = .closing d →
      s.closes d := by
    rintro d (hd | hd)
    · exact .inl (by rw [ht]; exact List.mem_cons_of_mem _ hd)
    · cases hd
  refine ⟨h.fresh, fun d => ?_, h.notAdded, h.cleared, fun d hd => h.closing d (hclose d hd),
    nofun, fun d hd => h.ended d (hclose d hd), nofun⟩
  have := h.connecting d
  rw [ht, List.count_cons, hpc] at this
  by_cases hd : d = c
  · subst hd
    simpa using this
  · simpa [hd, Ne.symm hd] using this

theorem clear (hpc : s.connection = .closing c) :
    { s.modifyConn c (fun d => { d with cleared := true }) with
      connection := .idle }.toClient.Sound := by
  have hadd : (s.conns c).added = true := h.closing c (.inr hpc)
  refine h.update rfl (fun d hd => ?_) ⟨fun hc => ?_, ?_, h.notAdded c, fun _ => h.closed c hpc,
    fun _ => hadd, nofun, fun _ => h.ended c (.inr hpc), nofun⟩
  · simp [connects, closes, drains, modifyConn, hpc, Ne.symm hd]
  · rw [(h.fresh c hc).2.1] at hadd
    cases hadd
  · simpa [connects, modifyConn, hpc] using h.connecting c

theorem of_connecting (hpc : s.connection = .connecting c) :
    (s.conns c).st = .connecting ∧ s.connectionTasks.count (.connect c) = 0 := by
  have := h.connecting c
  rw [if_pos hpc] at this
  split_ifs at this with hst
  exact ⟨hst, by omega⟩

theorem refuse (hpc : s.connection = .connecting c) :
    { s.modifyConn c (fun d => { d with st := .closed }) with
      connection := .idle }.toClient.Sound := by
  have hcount := (h.of_connecting hpc).2
  refine h.update rfl (fun d hd => ?_) ⟨fun hc => ⟨rfl, (h.fresh c hc).2⟩, ?_, nofun,
    fun _ => rfl, ?_, nofun, ?_, nofun⟩
  · simp [connects, closes, drains, modifyConn, hpc, Ne.symm hd]
  · simpa [connects, modifyConn] using hcount
  · simpa [closes, modifyConn, hpc] using h.closing c
  · simpa [closes, modifyConn, hpc] using h.ended c

theorem establish (hpc : s.connection = .connecting c) :
    { s.modifyConn c (fun d => { d with st := .connected, added := true }) with
      connection := .drain c }.toClient.Sound := by
  obtain ⟨hst, hcount⟩ := h.of_connecting hpc
  refine h.update rfl (fun d hd => ?_) ⟨fun hc => ?_, ?_, nofun, fun hc => ?_, fun _ => rfl,
    nofun, ?_, fun _ => rfl⟩
  · simp [connects, closes, drains, modifyConn, hpc, Ne.symm hd]
  · rw [(h.fresh c hc).1] at hst
    cases hst
  · simpa [connects, modifyConn] using hcount
  · rw [h.cleared c hc] at hst
    cases hst
  · simpa [closes, modifyConn, hpc] using h.ended c

theorem onClose (hadd : (s.conns c).added = true) :
    { s.modifyConn c (fun d => { d with ended := true }) with
      connectionTasks := s.connectionTasks ++ [ConnectionTask.close c] }.toClient.Sound := by
  refine h.update rfl (fun d hd => ?_) ⟨h.fresh c, ?_, h.notAdded c, h.cleared c, fun _ => hadd,
    h.closed c, fun _ => rfl, h.draining c⟩
  · simp [connects, closes, modifyConn, hd]
    rfl
  · rw [connects, List.count_append, List.count_singleton, if_neg nofun]
    exact h.connecting c

theorem locked (b : Bool) :
    (s.modifyConn c fun d => { d with locked := b }).toClient.Sound :=
  h.update rfl (fun _ _ => ⟨rfl, Iff.rfl, Iff.rfl, rfl⟩) ⟨h.fresh c, h.connecting c,
    h.notAdded c, h.cleared c, h.closing c, h.closed c, h.ended c, h.draining c⟩

theorem getNextConnection {channel : ℕ} {r : State × ℕ}
    (hr : s.getNextConnection channel c = some r) : r.1.toClient.Sound := by
  rcases getNextConnection_spec hr with ⟨chs, he, -⟩ | ⟨chs, hc, -, he⟩
  · rw [he]
    exact h.of_eq rfl rfl rfl
  · rw [he]
    exact h.newConnection hc

theorem handleTask {k : ℕ} (hs : HandleStep s k c s') :
    s'.toClient.Sound := by
  cases hs with
  | queue | drop | wait | submit => exact h.of_eq rfl rfl rfl

end

end Client.Sound

theorem sound_step {s s' : State} {a : Action} (h : s.toClient.Sound) (hs : s.step a = some s') :
    s'.toClient.Sound := by
  cases a with
  | env a => exact (envStep_frame hs).client ▸ h
  | client a =>
    cases clientStep_step hs with
    | takeTask _ _ hr hs => exact (h.getNextConnection hr).handleTask hs
    | takeClose hpc ht => exact h.takeClose hpc ht
    | takeConnect hpc ht => exact h.takeConnect hpc ht
    | clear hpc => exact (h.clear hpc).of_eq rfl rfl rfl
    | refuse hpc => exact (h.refuse hpc).of_eq rfl rfl rfl
    | establish hpc => exact h.establish hpc
    | drainWait hpc | drainLocked hpc | drainDone hpc =>
      exact (h.withPc fun d => by simp [hpc, drains]).of_eq rfl rfl rfl
    | lockMap => exact h.locked true
    | miss | complete => exact (h.locked false).of_eq rfl rfl rfl
    | onClose hadd => exact h.onClose hadd
    | lockTask | drainDrop | drainSubmit | clearChannel | respond | expire | accept | serve =>
      exact h.of_eq rfl rfl rfl

theorem sound_init (channels : ℕ → ℕ) : (State.init channels).toClient.Sound := by
  constructor <;> intro c <;> simp [init, drains]

end Corpc.Rpc
