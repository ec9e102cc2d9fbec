/-
# What becomes of a handshake's socket

`UdpAcceptor::handshakeRoutine` in `corpc_io.cpp` works on a socket of its own, `shake_fd`.  It
leaves its loop

* by `close(shake_fd); break;`, after a `write` or a `read` that went wrong,
* by `shakeOK`, after it has given the socket to `buildAndAddConnection`,
* or by `trytimes`, after four reads that timed out.
-/

import Corpc.Udp.Acceptor

namespace Corpc.Udp

open Corpc.Basis Wire List Option

/-- What a socket call of `handshakeRoutine` gives; a `read` may fail with `EAGAIN` or another
`errno`. -/
inductive SocketResult
  | wrote (ret : ℤ)
  | got (buf : List UInt8)
  | failed (eagain : Bool)
  deriving DecidableEq

/-- What the routine does to its socket and to `shakingClient_`. -/
inductive Effect (κ : Type)
  /-- `co_set_timeout(shake_fd, waittime, 1000)`. -/
  | setTimeout (waittime : ℤ)
  | write (buf : List UInt8)
  | read
  | close
  /-- `server->buildAndAddConnection(shake_fd)`. -/
  | build
  /-- `shakingClient_.erase(client_addr)`. -/
  | erase (addr : κ)
  deriving DecidableEq

variable {κ : Type}

/-- `write(shake_fd, shakemsg2buf_, ..)` and the `read` after it. -/
def askAgain : List (Effect κ) := [.write (handshakeMsg msgTypeUdpHandshake2), .read]

def confirm : List SocketResult → Option (List (Effect κ) × List SocketResult)
  | .wrote ret :: rest =>
    some (.write (handshakeMsg msgTypeUdpHandshake4) ::
      if ret ≠ udpHandshakeSize then [.close] else [.setTimeout (-1), .build], rest)
  | _ => none

/-- The loop of `handshakeRoutine` on the results of its socket calls: what it does, and the results
it has not asked for; `none` if it waits for more of them. -/
def handshakeLoop : ℕ → ℤ → List SocketResult → Option (List (Effect κ) × List SocketResult)
  | 0, _, results => some ([], results)
  | trytimes + 1, waittime, .wrote ret :: results =>
    if ret ≠ udpHandshakeSize then
      some ([.write (handshakeMsg msgTypeUdpHandshake2), .close], results)
    else
      match results with
      | .got buf :: rest =>
        -- a datagram of another length, or the end
        if buf.length ≠ udpHandshakeSize then some (askAgain ++ [.close], rest)
        -- not the final confirmation
        else if msgType buf ≠ msgTypeUdpHandshake3 then
          (handshakeLoop (trytimes + 1) waittime rest).map fun (es, rest) =>
            (askAgain ++ es, rest)
        else (confirm rest).map fun (es, rest) => (askAgain ++ es, rest)
      | .failed true :: rest =>
        (handshakeLoop trytimes (2 * waittime) rest).map fun (es, rest) =>
          (askAgain ++ .setTimeout (2 * waittime) :: es, rest)
      | .failed false :: rest => some (askAgain ++ [.close], rest)
      | _ => none
  | _ + 1, _, _ => none

/-- `UdpAcceptor::handshakeRoutine` for the client at `addr`. -/
def handshakeRoutine (addr : κ) (results : List SocketResult) :
    Option (List (Effect κ) × List SocketResult) :=
  (handshakeLoop 4 1000 results).map fun (es, rest) =>
    (.setTimeout 1000 :: es ++ [.erase addr], rest)

def Disposed [DecidableEq κ] (es : List (Effect κ)) : Prop :=
  (es.count .close = 1 ∧ es.count .build = 0) ∨ (es.count .close = 0 ∧ es.count .build = 1)

def Lost [DecidableEq κ] (es : List (Effect κ)) : Prop :=
  es.count .close = 0 ∧ es.count .build = 0

section Loop

variable [DecidableEq κ]

variable {es pre : List (Effect κ)}

theorem disposed_append (hclose : Effect.close ∉ pre)
    (hbuild : Effect.build ∉ pre) : Disposed (pre ++ es) ↔ Disposed es := by
  simp [Disposed, count_eq_zero_of_not_mem hclose, count_eq_zero_of_not_mem hbuild]

theorem lost_append (hclose : Effect.close ∉ pre)
    (hbuild : Effect.build ∉ pre) : Lost (pre ++ es) ↔ Lost es := by
  simp [Lost, count_eq_zero_of_not_mem hclose, count_eq_zero_of_not_mem hbuild]

/-- A loop with `trytimes` tries left, that has used the results `used`: all tries are used up and
the socket is lost, or some are left and it is disposed of. -/
def Ended (trytimes : ℕ) (used : List SocketResult) (es : List (Effect κ)) : Prop :=
  (used.count (.failed true) = trytimes ∧ Lost es) ∨
    (used.count (.failed true) < trytimes ∧ Disposed es)

theorem confirm_disposed {results rest : List SocketResult}
    (h : confirm results = some (es, rest)) :
    ∃ ret, results = .wrote ret :: rest ∧ Disposed es := by
  unfold confirm at h
  split at h
  · rename_i ret rest'
    obtain ⟨rfl, rfl⟩ := Prod.mk.inj (some.inj h)
    refine ⟨ret, rfl, ?_⟩
    split_ifs
    · exact .inl (by simp)
    · exact .inr (by simp)
  · exact nomatch h

theorem disposed_close (hclose : Effect.close ∉ pre)
    (hbuild : Effect.build ∉ pre) : Disposed (pre ++ [.close]) :=
  (disposed_append hclose hbuild).2 (.inl (by simp))

theorem Ended.ask {trytimes : ℕ} {used : List SocketResult}
    (h : Ended trytimes used es) (ret : ℤ) (buf : List UInt8) :
    Ended trytimes (.wrote ret :: .got buf :: used) (askAgain ++ es) := by
  have hcount : (SocketResult.wrote ret :: .got buf :: used).count (.failed true) =
      used.count (.failed true) := by
    simp
  rw [Ended, hcount, lost_append (by simp [askAgain]) (by simp [askAgain]),
    disposed_append (by simp [askAgain]) (by simp [askAgain])]
  exact h

/-- **Every way out of the loop.** -/
theorem handshakeLoop_ended {trytimes : ℕ} {waittime : ℤ} {results rest : List SocketResult}
    (h : handshakeLoop trytimes waittime results = some (es, rest)) :
    ∃ used, results = used ++ rest ∧ Ended trytimes used es := by
  fun_induction handshakeLoop trytimes waittime results generalizing es rest with
  | case1 waittime results =>
    -- no try is left
    obtain ⟨rfl, rfl⟩ := Prod.mk.inj (some.inj h)
    exact ⟨[], rfl, .inl ⟨rfl, by simp [Lost]⟩⟩
  | case2 trytimes waittime ret results hret =>
    obtain ⟨rfl, rfl⟩ := Prod.mk.inj (some.inj h)
    exact ⟨[.wrote ret], rfl, .inr ⟨by simp, .inl (by simp)⟩⟩
  | case3 trytimes waittime ret hret buf results hlen =>
    obtain ⟨rfl, rfl⟩ := Prod.mk.inj (some.inj h)
    exact ⟨[.wrote ret, .got buf], rfl,
      .inr ⟨by simp, disposed_close (by simp [askAgain]) (by simp [askAgain])⟩⟩
  | case4 trytimes waittime ret hret buf results hlen htype ih =>
    obtain ⟨⟨es', rest'⟩, hloop, heq⟩ := map_eq_some_iff.1 h
    obtain ⟨rfl, rfl⟩ := Prod.mk.inj heq
    obtain ⟨used, rfl, hended⟩ := ih hloop
    exact ⟨.wrote ret :: .got buf :: used, rfl, hended.ask ret buf⟩
  | case5 trytimes waittime ret hret buf results hlen htype =>
    obtain ⟨⟨es', rest'⟩, hconfirm, heq⟩ := map_eq_some_iff.1 h
    obtain ⟨rfl, rfl⟩ := Prod.mk.inj heq
    obtain ⟨ret', rfl, hdisposed⟩ := confirm_disposed hconfirm
    refine ⟨[.wrote ret, .got buf, .wrote ret'], rfl, ?_⟩
    have hlast : Ended (trytimes + 1) [.wrote ret'] es' := .inr ⟨by simp, hdisposed⟩
    exact hlast.ask ret buf
  | case6 trytimes waittime ret hret results ih =>
    obtain ⟨⟨es', rest'⟩, hloop, heq⟩ := map_eq_some_iff.1 h
    obtain ⟨rfl, rfl⟩ := Prod.mk.inj heq
    obtain ⟨used, rfl, hended⟩ := ih hloop
    refine ⟨.wrote ret :: .failed true :: used, rfl, ?_⟩
    have hcount : (SocketResult.wrote ret :: .failed true :: used).count (.failed true) =
        used.count (.failed true) + 1 := by
      simp
    have hpre : askAgain ++ Effect.setTimeout (2 * waittime) :: es' =
        (askAgain ++ [.setTimeout (2 * waittime)]) ++ es' := by
      simp
    rw [Ended, hcount, hpre, lost_append (by simp [askAgain]) (by simp [askAgain]),
      disposed_append (by simp [askAgain]) (by simp [askAgain])]
    exact hended.imp (fun h => ⟨congrArg _ h.1, h.2⟩) fun h => ⟨Nat.succ_lt_succ h.1, h.2⟩
  | case7 trytimes waittime ret hret results =>
    obtain ⟨rfl, rfl⟩ := Prod.mk.inj (some.inj h)
    exact ⟨[.wrote ret, .failed false], rfl,
      .inr ⟨by simp, disposed_close (by simp [askAgain]) (by simp [askAgain])⟩⟩
  | case8 | case9 => exact nomatch h

theorem not_disposed_of_lost (h : Lost es) : ¬Disposed es := by
  obtain ⟨hclose, hbuild⟩ := h
  rintro (⟨h1, -⟩ | ⟨-, h1⟩) <;> omega

end Loop

/-- The result of a socket call, as `State.handshake` has it. -/
def SocketResult.outcome : SocketResult → Outcome
  | .wrote ret => if ret = udpHandshakeSize then .success else .failure
  | .got [] => .failure
  | .got buf => .datagram buf
  | .failed eagain => if eagain then .timeout else .failure

section Acceptor

variable [DecidableEq κ]

/-- The routine of the socket `fd` takes its next statements. -/
def State.shake (kind : κ → Kind) (fd : ℕ) (s : State κ) (outcome : Outcome) : Option (State κ) :=
  s.step kind (.handshake fd outcome)

/-- The socket and what its client has sent, so much of the acceptor a routine needs. -/
structure State.At (s : State κ) (fd : ℕ) (k : Sock κ) (sent : List (List UInt8)) : Prop where
  sock : s.sock fd = some k
  toServer : s.toServer k.addr = sent

variable {kind : κ → Kind} {s : State κ} {fd : ℕ} {c : κ} {sent : List (List UInt8)}

theorem State.At.goes (kind : κ → Kind) {r₀ : Routine} {o₀ : Option Bool}
    (h : s.At fd ⟨c, r₀, o₀⟩ sent) (outcome : Outcome) (r : Routine) (o : Option Bool)
    (hs : s.handshake fd ⟨c, r₀, o₀⟩ outcome = some (s.setSock fd ⟨c, r, o⟩)) :
    ∃ s₁, s.shake kind fd outcome = some s₁ ∧ s₁.At fd ⟨c, r, o⟩ sent := by
  refine ⟨s.setSock fd ⟨c, r, o⟩, ?_, by simp [State.setSock], h.toServer⟩
  simp only [State.shake, State.step, h.sock, bind_some, hs]

variable {buf : List UInt8}

theorem State.At.replies (kind : κ → Kind) {r₀ : Routine} {o₀ : Option Bool}
    (h : s.At fd ⟨c, r₀, o₀⟩ sent) (outcome : Outcome) (r : Routine) (o : Option Bool)
    (hs : s.handshake fd ⟨c, r₀, o₀⟩ outcome = some ((s.setSock fd ⟨c, r, o⟩).reply c buf)) :
    ∃ s₁, s.shake kind fd outcome = some s₁ ∧ s₁.At fd ⟨c, r, o⟩ sent := by
  refine ⟨(s.setSock fd ⟨c, r, o⟩).reply c buf, ?_, by simp [State.setSock, State.reply],
    h.toServer⟩
  simp only [State.shake, State.step, h.sock, bind_some, hs]

/-- The routine follows the results up to `rest`, then takes the statements that no socket call
decides, and the socket is at `k`. -/
def State.Follows (kind : κ → Kind) (s : State κ) (fd : ℕ) (results rest : List SocketResult)
    (k : Sock κ) (sent : List (List UInt8)) : Prop :=
  ∃ used tail s', results = used ++ rest ∧ (∀ o ∈ tail, o = Outcome.success) ∧
    run (State.shake kind fd) s (used.map SocketResult.outcome ++ tail) = some s' ∧ s'.At fd k sent

variable {results rest : List SocketResult} {k : Sock κ}

theorem State.At.follows (h : s.At fd k sent) : s.Follows kind fd rest rest k sent :=
  ⟨[], [], s, rfl, nofun, rfl, h⟩

theorem State.Follows.success {s₁ : State κ} (hs : s.shake kind fd .success = some s₁)
    (h : s₁.At fd k sent) : s.Follows kind fd rest rest k sent := by
  refine ⟨[], [.success], s₁, rfl, by simp, ?_, h⟩
  rw [map_nil, nil_append, run_cons, hs]
  rfl

theorem State.Follows.cons {s₁ : State κ} {r : SocketResult}
    (hs : s.shake kind fd r.outcome = some s₁) (h : s₁.Follows kind fd results rest k sent) :
    s.Follows kind fd (r :: results) rest k sent := by
  obtain ⟨used, tail, s', rfl, htail, hrun, hat⟩ := h
  refine ⟨r :: used, tail, s', rfl, htail, ?_, hat⟩
  rw [map_cons, cons_append, run_cons, hs]
  exact hrun

theorem outcome_wrote {ret : ℤ} (h : ¬ret ≠ udpHandshakeSize) :
    (SocketResult.wrote ret).outcome = .success :=
  if_pos (not_not.1 h)

theorem outcome_wrote_short {ret : ℤ} (h : ret ≠ udpHandshakeSize) :
    (SocketResult.wrote ret).outcome = .failure :=
  if_neg h

theorem outcome_got (h : buf ≠ []) :
    (SocketResult.got buf).outcome = .datagram buf := by
  cases buf with
  | nil => exact absurd rfl h
  | cons b buf => rfl

theorem State.At.send2 (kind : κ → Kind) {n : ℕ} (h : s.At fd ⟨c, .send2 (n + 1), none⟩ sent) :
    ∃ s₁, s.shake kind fd .success = some s₁ ∧ s₁.At fd ⟨c, .receive3 (n + 1), none⟩ sent :=
  h.replies kind .success (.receive3 (n + 1)) none rfl

theorem State.At.datagram (kind : κ → Kind) {n : ℕ}
    (h : s.At fd ⟨c, .receive3 n, none⟩ sent) (hbuf : buf ∈ sent) :
    ∃ s₁, s.shake kind fd (.datagram buf) = some s₁ ∧
      s₁.At fd ⟨c, if buf.length ≠ udpHandshakeSize then .erase
        else if msgType buf ≠ msgTypeUdpHandshake3 then .send2 n else .send4, none⟩ sent := by
  have hmem : buf ∈ s.toServer c := h.toServer ▸ hbuf
  have hs : s.handshake fd ⟨c, .receive3 n, none⟩ (.datagram buf) =
      some (s.setSock fd ⟨c, if buf.length ≠ udpHandshakeSize then .erase
        else if msgType buf ≠ msgTypeUdpHandshake3 then .send2 n else .send4, none⟩) := by
    simp only [State.handshake, if_pos hmem]
    split_ifs <;> rfl
  exact h.goes kind _ _ none hs

theorem confirm_follows (kind : κ → Kind) {es : List (Effect κ)}
    (h : confirm results = some (es, rest)) (hat : s.At fd ⟨c, .send4, none⟩ sent) :
    s.Follows kind fd results rest ⟨c, .erase, if .build ∈ es then some true else none⟩ sent := by
  unfold confirm at h
  split at h
  · rename_i ret rest'
    obtain ⟨rfl, rfl⟩ := Prod.mk.inj (some.inj h)
    split_ifs with hret hmem hmem
    · simp at hmem
    · obtain ⟨s₁, hs, hat⟩ := hat.goes kind .failure .erase none rfl
      exact .cons (outcome_wrote_short hret ▸ hs) hat.follows
    · obtain ⟨s₁, hs, hat⟩ := hat.replies kind .success .build none rfl
      obtain ⟨s₂, hs', hat⟩ := hat.goes kind .success .erase (some true) rfl
      exact .cons (outcome_wrote hret ▸ hs) (.success hs' hat)
    · simp at hmem
  · exact nomatch h

/-- **The loop does what the acceptor's routine does**, on results that its client can bring
about. -/
theorem handshakeLoop_follows (kind : κ → Kind) {trytimes : ℕ} {waittime : ℤ}
    {es : List (Effect κ)} (h : handshakeLoop trytimes waittime results = some (es, rest))
    (hat : s.At fd ⟨c, .send2 trytimes, none⟩ sent)
    (hsent : ∀ buf, .got buf ∈ results → buf ≠ [] → buf ∈ sent) :
    s.Follows kind fd results rest ⟨c, .erase, if .build ∈ es then some true else none⟩ sent := by
  fun_induction handshakeLoop trytimes waittime results generalizing s es rest with
  | case1 waittime results =>
    obtain ⟨rfl, rfl⟩ := Prod.mk.inj (some.inj h)
    obtain ⟨s₁, hs, hat⟩ := hat.goes kind .success .erase none rfl
    exact .success hs (by simpa using hat)
  | case2 trytimes waittime ret results hret =>
    obtain ⟨rfl, rfl⟩ := Prod.mk.inj (some.inj h)
    obtain ⟨s₁, hs, hat⟩ := hat.goes kind .failure .erase none rfl
    exact .cons (outcome_wrote_short hret ▸ hs) (by simpa using hat.follows)
  | case3 trytimes waittime ret hret buf results hlen =>
    obtain ⟨rfl, rfl⟩ := Prod.mk.inj (some.inj h)
    obtain ⟨s₁, hs, hat⟩ := hat.send2 kind
    refine .cons (outcome_wrote hret ▸ hs) ?_
    by_cases hnil : buf = []
    · obtain ⟨s₂, hs, hat⟩ := hat.goes kind .failure .erase none rfl
      exact .cons (by rw [hnil]; exact hs) (by simpa [askAgain] using hat.follows)
    · obtain ⟨s₂, hs, hat⟩ := hat.datagram kind (hsent buf (by simp) hnil)
      rw [if_pos hlen] at hat
      exact .cons (outcome_got hnil ▸ hs) (by simpa [askAgain] using hat.follows)
  | case4 trytimes waittime ret hret buf results hlen htype ih =>
    obtain ⟨⟨es', rest'⟩, hloop, heq⟩ := map_eq_some_iff.1 h
    obtain ⟨rfl, rfl⟩ := Prod.mk.inj heq
    obtain ⟨s₁, hs, hat⟩ := hat.send2 kind
    have hnil : buf ≠ [] := fun hnil => hlen (by rw [hnil]; decide)
    obtain ⟨s₂, hs', hat⟩ := hat.datagram kind (hsent buf (by simp) hnil)
    rw [if_neg hlen, if_pos htype] at hat
    have hrest := ih hloop hat fun b hb => hsent b (by simp [hb])
    exact .cons (outcome_wrote hret ▸ hs)
      (.cons (outcome_got hnil ▸ hs') (by simpa [askAgain] using hrest))
  | case5 trytimes waittime ret hret buf results hlen htype =>
    obtain ⟨⟨es', rest'⟩, hconfirm, heq⟩ := map_eq_some_iff.1 h
    obtain ⟨rfl, rfl⟩ := Prod.mk.inj heq
    obtain ⟨s₁, hs, hat⟩ := hat.send2 kind
    have hnil : buf ≠ [] := fun hnil => hlen (by rw [hnil]; decide)
    obtain ⟨s₂, hs', hat⟩ := hat.datagram kind (hsent buf (by simp) hnil)
    rw [if_neg hlen, if_neg htype] at hat
    have hrest := confirm_follows kind hconfirm hat
    exact .cons (outcome_wrote hret ▸ hs)
      (.cons (outcome_got hnil ▸ hs') (by simpa [askAgain] using hrest))
  | case6 trytimes waittime ret hret results ih =>
    obtain ⟨⟨es', rest'⟩, hloop, heq⟩ := map_eq_some_iff.1 h
    obtain ⟨rfl, rfl⟩ := Prod.mk.inj heq
    obtain ⟨s₁, hs, hat⟩ := hat.send2 kind
    obtain ⟨s₂, hs', hat⟩ := hat.goes kind .timeout (.send2 trytimes) none rfl
    have hrest := ih hloop hat fun b hb => hsent b (by simp [hb])
    exact .cons (outcome_wrote hret ▸ hs) (.cons hs' (by simpa [askAgain] using hrest))
  | case7 trytimes waittime ret hret results =>
    obtain ⟨rfl, rfl⟩ := Prod.mk.inj (some.inj h)
    obtain ⟨s₁, hs, hat⟩ := hat.send2 kind
    obtain ⟨s₂, hs', hat⟩ := hat.goes kind .failure .erase none rfl
    exact .cons (outcome_wrote hret ▸ hs)
      (.cons hs' (by simpa [askAgain] using hat.follows))
  | case8 | case9 => exact nomatch h

theorem State.Follows.erase {o : Option Bool}
    (h : s.Follows kind fd results rest ⟨c, .erase, o⟩ sent) :
    ∃ outs s', run (State.shake kind fd) s outs = some s' ∧
      s'.sock fd = some ⟨c, .ended, o⟩ ∧ c ∉ s'.shakingClient := by
  obtain ⟨used, tail, s₁, -, -, hrun, hat⟩ := h
  let s' : State κ := { s₁.setSock fd ⟨c, .ended, o⟩ with
    shakingClient := s₁.shakingClient.filter fun c' => c' ≠ c }
  have hs : s₁.shake kind fd .success = some s' := by
    simp only [State.shake, State.step, hat.sock, bind_some, State.handshake]
    rfl
  refine ⟨(used.map SocketResult.outcome ++ tail) ++ [.success], s', ?_, ?_, ?_⟩
  · rw [run_append, hrun, bind_some, run_cons, hs]
    rfl
  · simp [s', State.setSock]
  · simp [s']

end Acceptor

/-- **The socket is disposed of unless all tries are used up**: after four reads that timed out it
is neither closed nor given away. -/
theorem socket_disposed_iff [DecidableEq κ] (addr : κ) (results rest : List SocketResult)
    (es : List (Effect κ)) (h : handshakeRoutine addr results = some (es, rest)) :
    (∃ used, results = used ++ rest ∧ used.count (.failed true) ≤ 4 ∧
      (Disposed es ↔ used.count (.failed true) < 4) ∧ (¬Disposed es → Lost es)) ∧
    es.getLast? = some (.erase addr) ∧
    ∀ (kind : κ → Kind) (s : State κ) (fd : ℕ), s.sock fd = some ⟨addr, .send2 4, none⟩ →
      (∀ buf, .got buf ∈ results → buf ≠ [] → buf ∈ s.toServer addr) →
      ∃ outs s', run (State.shake kind fd) s outs = some s' ∧
        s'.sock fd = some ⟨addr, .ended, if .build ∈ es then some true else none⟩ ∧
        addr ∉ s'.shakingClient := by
  obtain ⟨⟨es', rest'⟩, hloop, heq⟩ := map_eq_some_iff.1 h
  obtain ⟨rfl, rfl⟩ := Prod.mk.inj heq
  obtain ⟨used, hused, hended⟩ := handshakeLoop_ended hloop
  have hdisposed : Disposed (.setTimeout 1000 :: es' ++ [.erase addr]) ↔ Disposed es' := by
    simp [Disposed]
  have hlost : Lost (.setTimeout 1000 :: es' ++ [.erase addr]) ↔ Lost es' := by
    simp [Lost]
  refine ⟨⟨used, hused, ?_, ?_, ?_⟩, ?_, fun kind s fd hsock hsent => ?_⟩
  · rcases hended with ⟨hcount, -⟩ | ⟨hcount, -⟩ <;> omega
  · rw [hdisposed]
    rcases hended with ⟨hcount, hl⟩ | ⟨hcount, hd⟩
    · exact iff_of_false (not_disposed_of_lost hl) (by omega)
    · exact iff_of_true hd hcount
  · rw [hdisposed, hlost]
    rcases hended with ⟨-, hl⟩ | ⟨-, hd⟩
    · exact fun _ => hl
    · exact fun hnot => absurd hd hnot
  · rw [List.getLast?_append_of_ne_nil _ (by simp), List.getLast?_singleton]
  · have hfollows := handshakeLoop_follows kind hloop ⟨hsock, rfl⟩ hsent
    simpa using hfollows.erase

/-- HANDSHAKE_3 after one timeout: the socket is given away. -/
theorem socket_disposed_after_timeout :
    ∃ es, handshakeRoutine () [.wrote 4, .failed true, .wrote 4,
        .got (handshakeMsg msgTypeUdpHandshake3), .wrote 4] = some (es, []) ∧ Disposed es := by
  have hends : (handshakeRoutine () [.wrote 4, .failed true, .wrote 4,
      .got (handshakeMsg msgTypeUdpHandshake3), .wrote 4]).map Prod.snd = some [] := by
    decide +kernel
  obtain ⟨⟨es, rest⟩, hroutine, hrest⟩ := map_eq_some_iff.1 hends
  obtain rfl : rest = [] := hrest
  obtain ⟨⟨used, hused, -, hiff, -⟩, -⟩ := socket_disposed_iff () _ _ es hroutine
  refine ⟨es, hroutine, hiff.2 ?_⟩
  rw [append_nil] at hused
  rw [← hused]
  decide

/-- **Four timeouts lose the socket**: it is neither closed nor given to a connection. -/
theorem timeouts_leak_socket :
    (handshakeRoutine () [.wrote 4, .failed true, .wrote 4, .failed true, .wrote 4,
        .failed true, .wrote 4, .failed true]).map
      (fun r => (r.1.contains .close, r.1.contains .build, r.2)) = some (false, false, []) := by
  decide +kernel

end Corpc.Udp
