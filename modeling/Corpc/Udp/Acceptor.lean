/-
# The acceptor's side of the UDP handshake

`UdpAcceptor` in `corpc_io.cpp`, with its clients and the network between them.

The network keeps what was sent: a datagram can arrive any number of times, in any order, or never,
at the listening socket or at any socket connected to its address.  A client makes one `connect()`.
-/

import Corpc.Basis.Run
import Corpc.Udp.Client

namespace Corpc.Udp

open Corpc.Basis Wire Function List Option

/-- The next statement of `handshakeRoutine`. -/
inductive Routine
  /-- `while (trytimes > 0 && !shakeOK)`, `write(shake_fd, shakemsg2buf_)`. -/
  | send2 (trytimes : ℕ)
  /-- `read(shake_fd, buf)`. -/
  | receive3 (trytimes : ℕ)
  /-- `write(shake_fd, shakemsg4buf_)`. -/
  | send4
  /-- `buildAndAddConnection(shake_fd)`. -/
  | build
  /-- `shakingClient_.erase(client_addr)`. -/
  | erase
  | ended
  deriving DecidableEq

/-- A socket connected to a client, the routine that was started for it, and whether the
connection built on it is open, once there is one. -/
structure Sock (κ : Type) where
  addr : κ
  routine : Routine
  isOpen : Option Bool
  deriving DecidableEq

/-- The clients, what each side has sent to the other, and the acceptor.  Sockets have the
numbers below `nextFd`. -/
structure State (κ : Type) where
  client : κ → Option Client
  toServer : κ → List (List UInt8)
  toClient : κ → List (List UInt8)
  shakingClient : List κ
  sock : ℕ → Option (Sock κ)
  nextFd : ℕ

def State.init (κ : Type) : State κ :=
  ⟨fun _ => none, fun _ => [], fun _ => [], [], fun _ => none, 0⟩

/-- What a system call of `handshakeRoutine` gives. -/
inductive Outcome
  | success
  | failure
  | timeout
  | datagram (buf : List UInt8)
  deriving DecidableEq

inductive Action (κ : Type)
  | connect (c : κ)
  | client (c : κ) (x : Input)
  /-- `acceptRoutine` reads a datagram; `bound` says whether `bind` and `connect` of the
  new socket succeed. -/
  | accept (c : κ) (buf : List UInt8) (bound : Bool)
  /-- The next statement of the `handshakeRoutine` of a socket. -/
  | handshake (fd : ℕ) (outcome : Outcome)
  | receive (fd : ℕ) (buf : List UInt8)
  | send (fd : ℕ) (buf : List UInt8)
  | close (fd : ℕ)
  deriving DecidableEq

variable {κ : Type} [DecidableEq κ]

def State.reply (s : State κ) (c : κ) (buf : List UInt8) : State κ :=
  { s with toClient := update s.toClient c (buf :: s.toClient c) }

def State.request (s : State κ) (c : κ) (bufs : List (List UInt8)) : State κ :=
  { s with toServer := update s.toServer c (bufs ++ s.toServer c) }

theorem mem_toClient_reply {s : State κ} {c c' : κ} {buf buf' : List UInt8} :
    buf' ∈ (s.reply c buf).toClient c' ↔ (c' = c ∧ buf' = buf) ∨ buf' ∈ s.toClient c' := by
  unfold State.reply
  by_cases hc : c' = c
  · subst hc
    simp
  · simp [hc]

theorem mem_toServer_request {s : State κ} {c c' : κ} {bufs : List (List UInt8)}
    {buf : List UInt8} :
    buf ∈ (s.request c bufs).toServer c' ↔ (c' = c ∧ buf ∈ bufs) ∨ buf ∈ s.toServer c' := by
  unfold State.request
  by_cases hc : c' = c
  · subst hc
    simp
  · simp [hc]

def State.setSock (s : State κ) (fd : ℕ) (k : Sock κ) : State κ :=
  { s with sock := update s.sock fd (some k) }

/-- `acceptRoutine`, from the datagram on. -/
def State.accept (s : State κ) (c : κ) (buf : List UInt8) (bound : Bool) : State κ :=
  if buf.length ≠ udpHandshakeSize then s.reply c (handshakeMsg msgTypeUdpUnshake)
  else if msgType buf ≠ msgTypeUdpHandshake1 then
    if msgType buf = msgTypeUdpHandshake3 then s.reply c (handshakeMsg msgTypeUdpHandshake2)
    else s
  -- a HANDSHAKE_1 too many
  else if c ∈ s.shakingClient then s
  else if bound then
    { s.setSock s.nextFd ⟨c, .send2 4, none⟩ with
      shakingClient := c :: s.shakingClient, nextFd := s.nextFd + 1 }
  else s

/-- `handshakeRoutine` on the socket `fd`. -/
def State.handshake (s : State κ) (fd : ℕ) (k : Sock κ) : Outcome → Option (State κ)
  | .success =>
    match k.routine with
    | .send2 0 => some (s.setSock fd { k with routine := .erase })
    | .send2 (n + 1) =>
      some ((s.setSock fd { k with routine := .receive3 (n + 1) }).reply k.addr
        (handshakeMsg msgTypeUdpHandshake2))
    | .send4 =>
      some ((s.setSock fd { k with routine := .build }).reply k.addr
        (handshakeMsg msgTypeUdpHandshake4))
    | .build => some (s.setSock fd { k with routine := .erase, isOpen := some true })
    | .erase =>
      some { s.setSock fd { k with routine := .ended } with
        shakingClient := s.shakingClient.filter fun c => c ≠ k.addr }
    | .receive3 _ | .ended => none
  | .failure =>
    match k.routine with
    | .send2 (_ + 1) | .receive3 _ | .send4 => some (s.setSock fd { k with routine := .erase })
    | _ => none
  | .timeout =>
    match k.routine with
    | .receive3 n => some (s.setSock fd { k with routine := .send2 (n - 1) })
    | _ => none
  | .datagram buf =>
    match k.routine with
    | .receive3 n =>
      if buf ∈ s.toServer k.addr then
        if buf.length ≠ udpHandshakeSize then some (s.setSock fd { k with routine := .erase })
        else if msgType buf ≠ msgTypeUdpHandshake3 then
          some (s.setSock fd { k with routine := .send2 n })
        else some (s.setSock fd { k with routine := .send4 })
      else none
    | _ => none

def State.input (s : State κ) (kind : κ → Kind) (c : κ) (x : Input) : Option (State κ) :=
  match s.client c with
  | none => none
  | some client =>
    let arrived := match x with
      | .timeout => true
      | .datagram buf => (s.toClient c).contains buf
    if client.place.waits && arrived then
      some ({ s with
        client := update s.client c (some (client.step (kind c) x)) }.request c
          (client.sends (kind c) x))
    else none

def State.step (kind : κ → Kind) (s : State κ) : Action κ → Option (State κ)
  | .connect c =>
    if s.client c = none then
      some ({ s with client := update s.client c (some .init) }.request c
        Place.step1.sends)
    else none
  | .client c x => s.input kind c x
  | .accept c buf bound => if buf ∈ s.toServer c then some (s.accept c buf bound) else none
  | .handshake fd outcome => (s.sock fd).bind fun k => s.handshake fd k outcome
  | .receive fd buf => (s.sock fd).bind fun k =>
    if k.isOpen = some true ∧ buf ∈ s.toServer k.addr then
      -- UdpPipeline::upflow and KcpPipeline::upflow answer a repeated HANDSHAKE_3
      some (if isHandshake msgTypeUdpHandshake3 buf then
        s.reply k.addr (handshakeMsg msgTypeUdpHandshake4) else s)
    else none
  | .send fd buf => (s.sock fd).bind fun k =>
    if k.isOpen = some true ∧ messageHeadSize ≤ buf.length then some (s.reply k.addr buf)
    else none
  | .close fd => (s.sock fd).bind fun k =>
    if k.isOpen = some true then some (s.setSock fd { k with isOpen := some false }) else none

/-- The socket `fd` has an open connection to the client `c`. -/
def State.Open (s : State κ) (fd : ℕ) (c : κ) : Prop :=
  ∃ k, s.sock fd = some k ∧ k.addr = c ∧ k.isOpen = some true

def State.hasOpen (s : State κ) (c : κ) : Bool :=
  (List.range s.nextFd).any fun fd =>
    (s.sock fd).any fun k => decide (k.addr = c) && decide (k.isOpen = some true)

/-- `acceptRoutine` gets no HANDSHAKE_1 of a client that has an open connection, unless
`shakingClient_` still holds it. -/
def noLateHandshake1 (s : State κ) : Action κ → Bool
  | .accept c buf _ =>
    !isHandshake msgTypeUdpHandshake1 buf || s.shakingClient.contains c || !s.hasOpen c
  | _ => true

def Sock.Busy (k : Sock κ) : Prop :=
  (k.routine ≠ .erase ∧ k.routine ≠ .ended) ∨ k.isOpen = some true

/-- The invariant: an address has at most one socket that is or can become its connection,
and at most one routine, which `shakingClient_` stands for. -/
structure Single (s : State κ) : Prop where
  fresh : ∀ fd, s.nextFd ≤ fd → s.sock fd = none
  busy : ∀ {i j k l}, s.sock i = some k → s.sock j = some l → k.addr = l.addr →
    k.Busy → l.Busy → i = j
  shaking : ∀ {i k}, s.sock i = some k → k.routine ≠ .ended → k.addr ∈ s.shakingClient
  routine : ∀ {i j k l}, s.sock i = some k → s.sock j = some l → k.addr = l.addr →
    k.routine ≠ .ended → l.routine ≠ .ended → i = j

omit [DecidableEq κ] in
theorem single_init : Single (State.init κ) :=
  ⟨fun _ _ => rfl, nofun, nofun, nofun⟩

section Steps

variable {s s' : State κ} {fd : ℕ} {k k' : Sock κ} {c : κ}

omit [DecidableEq κ] in
theorem Single.of_eq (h : Single s) (hsock : s'.sock = s.sock) (hnext : s'.nextFd = s.nextFd)
    (hshaking : s'.shakingClient = s.shakingClient) : Single s' := by
  rcases s with ⟨_, _, _, shaking, sock, next⟩
  rcases s' with ⟨_, _, _, shaking', sock', next'⟩
  obtain rfl : sock' = sock := hsock
  obtain rfl : next' = next := hnext
  obtain rfl : shaking' = shaking := hshaking
  exact ⟨h.fresh, h.busy, h.shaking, h.routine⟩

omit [DecidableEq κ] in
theorem sock_update_eq_some {i : ℕ} {x : Sock κ} (h : update s.sock fd (some k') i = some x) :
    (i = fd ∧ x = k') ∨ (i ≠ fd ∧ s.sock i = some x) := by
  by_cases hi : i = fd
  · subst hi
    rw [update_self] at h
    exact .inl ⟨rfl, (some.inj h).symm⟩
  · rw [update_of_ne hi] at h
    exact .inr ⟨hi, h⟩

omit [DecidableEq κ] in
theorem Single.setSock (h : Single s) (hk : s.sock fd = some k) (haddr : k'.addr = k.addr)
    (hbusy : k'.Busy → k.Busy) (hended : k'.routine ≠ .ended → k.routine ≠ .ended) :
    Single (s.setSock fd k') := by
  -- a socket afterwards comes from one before that is at least as busy
  have hback : ∀ {i x}, (s.setSock fd k').sock i = some x → ∃ y, s.sock i = some y ∧
      y.addr = x.addr ∧ (x.Busy → y.Busy) ∧ (x.routine ≠ .ended → y.routine ≠ .ended) := by
    intro i x hx
    rcases sock_update_eq_some hx with ⟨rfl, rfl⟩ | ⟨-, hx⟩
    · exact ⟨k, hk, haddr.symm, hbusy, hended⟩
    · exact ⟨x, hx, rfl, id, id⟩
  constructor
  · intro i hi
    have hne : i ≠ fd := by
      rintro rfl
      exact nomatch (h.fresh i hi).symm.trans hk
    exact (update_of_ne hne ..).trans (h.fresh i hi)
  · intro i j x y hx hy haddr hbx hby
    obtain ⟨x', hx', ax, bx, -⟩ := hback hx
    obtain ⟨y', hy', ay, by', -⟩ := hback hy
    exact h.busy hx' hy' ((ax.trans haddr).trans ay.symm) (bx hbx) (by' hby)
  · intro i x hx hr
    obtain ⟨x', hx', ax, -, rx⟩ := hback hx
    exact ax ▸ h.shaking hx' (rx hr)
  · intro i j x y hx hy haddr hrx hry
    obtain ⟨x', hx', ax, -, rx⟩ := hback hx
    obtain ⟨y', hy', ay, -, ry⟩ := hback hy
    exact h.routine hx' hy' ((ax.trans haddr).trans ay.symm) (rx hrx) (ry hry)

theorem Single.erase (h : Single s) (hk : s.sock fd = some k) (hr : k.routine = .erase) :
    Single { s.setSock fd { k with routine := .ended } with
      shakingClient := s.shakingClient.filter fun c => c ≠ k.addr } := by
  have hset : Single (s.setSock fd { k with routine := .ended }) := by
    refine h.setSock hk rfl ?_ (fun hne => absurd rfl hne)
    rintro (⟨-, hne⟩ | hopen)
    · exact absurd rfl hne
    · exact .inr hopen
  refine ⟨hset.fresh, hset.busy, ?_, hset.routine⟩
  intro i x hx hne
  rcases sock_update_eq_some hx with ⟨rfl, rfl⟩ | ⟨hi, hx⟩
  · exact absurd rfl hne
  · -- the routine of another socket is that of another address
    have haddr : x.addr ≠ k.addr := fun haddr =>
      hi (h.routine hx hk haddr hne (by rw [hr]; nofun))
    exact mem_filter.2 ⟨h.shaking hx hne, by simpa using haddr⟩

omit [DecidableEq κ] in
theorem Single.start (h : Single s) (hshaking : c ∉ s.shakingClient)
    (hopen : ∀ fd k, s.sock fd = some k → k.addr = c → k.isOpen ≠ some true) :
    Single { s.setSock s.nextFd ⟨c, .send2 4, none⟩ with
      shakingClient := c :: s.shakingClient, nextFd := s.nextFd + 1 } := by
  -- the other sockets of the address have ended
  have hended : ∀ {i x}, s.sock i = some x → x.addr = c → x.routine = .ended := by
    intro i x hx haddr
    by_contra hne
    exact hshaking (haddr ▸ h.shaking hx hne)
  have hidle : ∀ {i x}, s.sock i = some x → x.addr = c → ¬x.Busy := by
    rintro i x hx haddr (⟨-, hne⟩ | ho)
    · exact hne (hended hx haddr)
    · exact hopen i x hx haddr ho
  constructor
  · intro i hi
    have hne : i ≠ s.nextFd := by
      have hi' : s.nextFd + 1 ≤ i := hi
      omega
    have hle : s.nextFd ≤ i := by
      have hi' : s.nextFd + 1 ≤ i := hi
      omega
    exact (update_of_ne hne ..).trans (h.fresh i hle)
  · intro i j x y hx hy haddr hbx hby
    rcases sock_update_eq_some hx with ⟨rfl, rfl⟩ | ⟨-, hx⟩ <;>
      rcases sock_update_eq_some hy with ⟨rfl, rfl⟩ | ⟨-, hy⟩
    · rfl
    · exact absurd hby (hidle hy haddr.symm)
    · exact absurd hbx (hidle hx haddr)
    · exact h.busy hx hy haddr hbx hby
  · intro i x hx hne
    rcases sock_update_eq_some hx with ⟨rfl, rfl⟩ | ⟨-, hx⟩
    · exact mem_cons_self
    · exact mem_cons_of_mem _ (h.shaking hx hne)
  · intro i j x y hx hy haddr hrx hry
    rcases sock_update_eq_some hx with ⟨rfl, rfl⟩ | ⟨-, hx⟩ <;>
      rcases sock_update_eq_some hy with ⟨rfl, rfl⟩ | ⟨-, hy⟩
    · rfl
    · exact absurd (hended hy haddr.symm) hry
    · exact absurd (hended hx haddr) hrx
    · exact h.routine hx hy haddr hrx hry

theorem not_open_of_hasOpen (h : Single s) (hopen : s.hasOpen c = false) (fd : ℕ) (k : Sock κ)
    (hk : s.sock fd = some k) (haddr : k.addr = c) : k.isOpen ≠ some true := by
  intro ho
  have hlt : fd < s.nextFd := by
    by_contra hge
    exact nomatch (h.fresh fd (not_lt.1 hge)).symm.trans hk
  have hany : s.hasOpen c = true := by
    refine any_eq_true.2 ⟨fd, mem_range.2 hlt, ?_⟩
    simp [hk, haddr, ho]
  exact Bool.false_ne_true (hopen.symm.trans hany)

theorem Single.accept (h : Single s) {buf : List UInt8} {bound : Bool}
    (hok : noLateHandshake1 s (.accept c buf bound) = true) : Single (s.accept c buf bound) := by
  unfold State.accept
  split_ifs with hlen htype h3 hmem hbound
  · exact h.of_eq rfl rfl rfl
  · exact h.of_eq rfl rfl rfl
  · exact h
  · exact h
  · have h1 : isHandshake msgTypeUdpHandshake1 buf = true :=
      isHandshake_iff.2 ⟨not_not.1 hlen, not_not.1 htype⟩
    have hopen : s.hasOpen c = false := by
      simpa [noLateHandshake1, h1, hmem] using hok
    exact h.start hmem (not_open_of_hasOpen h hopen)
  · exact h

theorem Single.handshake (h : Single s) (hk : s.sock fd = some k) {outcome : Outcome}
    (hs : s.handshake fd k outcome = some s') : Single s' := by
  -- a routine that goes on, short of its end, was busy
  have hgo : ∀ r, k.routine ≠ .erase → k.routine ≠ .ended → ∀ o,
      Single (s.setSock fd { k with routine := r, isOpen := o }) := fun r h₁ h₂ o =>
    h.setSock hk rfl (fun _ => .inl ⟨h₁, h₂⟩) (fun _ => h₂)
  unfold State.handshake at hs
  rcases outcome with _ | _ | _ | buf
  · rcases hr : k.routine with (_ | n) | n | _ | _ | _ | _ <;>
      simp only [hr, some.injEq, reduceCtorEq] at hs
    · exact hs ▸ hgo .erase (by simp [hr]) (by simp [hr]) k.isOpen
    · exact hs ▸ (hgo (.receive3 (n + 1)) (by simp [hr]) (by simp [hr]) k.isOpen).of_eq rfl rfl rfl
    · exact hs ▸ (hgo .build (by simp [hr]) (by simp [hr]) k.isOpen).of_eq rfl rfl rfl
    · exact hs ▸ hgo .erase (by simp [hr]) (by simp [hr]) (some true)
    · exact hs ▸ h.erase hk hr
  · rcases hr : k.routine with (_ | n) | n | _ | _ | _ | _ <;>
      simp only [hr, some.injEq, reduceCtorEq] at hs <;>
      exact hs ▸ hgo .erase (by simp [hr]) (by simp [hr]) k.isOpen
  · rcases hr : k.routine with _ | n | _ | _ | _ | _ <;>
      simp only [hr, some.injEq, reduceCtorEq] at hs
    exact hs ▸ hgo (.send2 (n - 1)) (by simp [hr]) (by simp [hr]) k.isOpen
  · rcases hr : k.routine with _ | n | _ | _ | _ | _ <;>
      simp only [hr, reduceCtorEq] at hs
    split_ifs at hs
    · exact some.inj hs ▸ hgo .erase (by simp [hr]) (by simp [hr]) k.isOpen
    · exact some.inj hs ▸ hgo (.send2 n) (by simp [hr]) (by simp [hr]) k.isOpen
    · exact some.inj hs ▸ hgo .send4 (by simp [hr]) (by simp [hr]) k.isOpen

theorem Single.step {kind : κ → Kind} {a : Action κ} (h : Single s)
    (hok : noLateHandshake1 s a = true) (hs : s.step kind a = some s') : Single s' := by
  rcases a with c | ⟨c, x⟩ | ⟨c, buf, bound⟩ | ⟨fd, outcome⟩ | ⟨fd, buf⟩ | ⟨fd, buf⟩ | fd
  · obtain ⟨-, rfl⟩ := ite_some_none_eq_some.1 hs
    exact h.of_eq rfl rfl rfl
  · simp only [State.step, State.input] at hs
    rcases hc : s.client c with _ | client <;> simp only [hc, reduceCtorEq] at hs
    obtain ⟨-, rfl⟩ := ite_some_none_eq_some.1 hs
    exact h.of_eq rfl rfl rfl
  · obtain ⟨-, rfl⟩ := ite_some_none_eq_some.1 hs
    exact h.accept hok
  · obtain ⟨k, hk, hs⟩ := bind_eq_some_iff.1 hs
    exact h.handshake hk hs
  · obtain ⟨k, hk, hs⟩ := bind_eq_some_iff.1 hs
    obtain ⟨-, rfl⟩ := ite_some_none_eq_some.1 hs
    split_ifs
    · exact h.of_eq rfl rfl rfl
    · exact h
  · obtain ⟨k, hk, hs⟩ := bind_eq_some_iff.1 hs
    obtain ⟨-, rfl⟩ := ite_some_none_eq_some.1 hs
    exact h.of_eq rfl rfl rfl
  · obtain ⟨k, hk, hs⟩ := bind_eq_some_iff.1 hs
    obtain ⟨-, hs⟩ := ite_none_right_eq_some.1 hs
    refine some.inj hs ▸ h.setSock hk rfl ?_ id
    rintro (hbusy | hopen)
    · exact .inl hbusy
    · nomatch hopen

end Steps

/-- **One connection per UDP client**, in every run in which `acceptRoutine` gets no HANDSHAKE_1 of
a client with an open connection once its handshake is over. -/
theorem udp_one_connection (kind : κ → Kind) (acts : List (Action κ)) (s : State κ)
    (h : run (restrict noLateHandshake1 (State.step kind)) (State.init κ) acts = some s)
    (c : κ) (i j : ℕ) (hi : s.Open i c) (hj : s.Open j c) : i = j := by
  have hs : Single s := run_restrict_invariant (I := Single)
    (fun _ _ _ hI hok hstep => hI.step hok hstep) single_init h
  obtain ⟨k, hk, hkc, hko⟩ := hi
  obtain ⟨l, hl, hlc, hlo⟩ := hj
  exact hs.busy hk hl (hkc.trans hlc.symm) (.inr hko) (.inr hlo)

def handshakeAgain : List (Action Unit) :=
  [.accept () (handshakeMsg msgTypeUdpHandshake1) true, .handshake 1 .success,
    .handshake 1 (.datagram (handshakeMsg msgTypeUdpHandshake3)), .handshake 1 .success,
    .handshake 1 .success, .handshake 1 .success]

/-- A whole `connect()` on the socket 0. -/
def connectOnce : List (Action Unit) :=
  [.connect (), .accept () (handshakeMsg msgTypeUdpHandshake1) true, .handshake 0 .success,
    .client () (.datagram (handshakeMsg msgTypeUdpHandshake2)),
    .handshake 0 (.datagram (handshakeMsg msgTypeUdpHandshake3)), .handshake 0 .success,
    .handshake 0 .success, .handshake 0 .success,
    .client () (.datagram (handshakeMsg msgTypeUdpHandshake4))]

/-- The first HANDSHAKE_1 comes twice. -/
theorem udp_one_connection_once :
    ∃ s, run (restrict noLateHandshake1 (State.step fun _ => .udpClient)) (State.init Unit)
        (connectOnce.take 2 ++ connectOnce.tail) = some s ∧ s.Open 0 () ∧
      ∀ i, s.Open i () → i = 0 := by
  refine exists_run_of_imp (P := fun s => s.sock 0 = some ⟨(), .ended, some true⟩)
    (by decide +kernel) fun s hs hsock => ?_
  have hopen : s.Open 0 () := ⟨_, hsock, rfl, rfl⟩
  exact ⟨hopen, fun i hi => udp_one_connection _ _ s hs () i 0 hi hopen⟩

/-- Late copies of HANDSHAKE_1 and HANDSHAKE_3, both sent during the one `connect()`, give
the client a second open connection. -/
theorem udp_two_connections :
    ∃ s, run (State.step fun _ => .udpClient) (State.init Unit) (connectOnce ++ handshakeAgain) =
      some s ∧ s.Open 0 () ∧ s.Open 1 () := by
  exact exists_run_of_imp (P := fun s => s.sock 0 = some ⟨(), .ended, some true⟩ ∧
    s.sock 1 = some ⟨(), .ended, some true⟩) (by decide +kernel) fun s _ ⟨h0, h1⟩ =>
      ⟨⟨_, h0, rfl, rfl⟩, ⟨_, h1, rfl, rfl⟩⟩

end Corpc.Udp
