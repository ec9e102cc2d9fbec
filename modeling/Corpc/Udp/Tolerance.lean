/-
# What the handshake tolerates

A lossy network may drop, repeat and reorder the datagrams of a handshake.
-/

import Corpc.Udp.Acceptor

namespace Corpc.Udp

open Corpc.Basis Wire Function List Option

def Tolerates (xs : List Input) : Prop :=
  ∃ v, v ≠ some false ∧ ∀ kind, verdict kind xs = v

theorem tolerates_iff (xs : List Input) :
    Tolerates xs ↔ ∃ done, InTurn true done (datagrams xs) ∧ InTurn false done (awaited 0 xs) := by
  constructor
  · rintro ⟨v, hv, hall⟩
    obtain ⟨done, rfl⟩ : ∃ done : Bool, v = if done then some true else none := by
      rcases v with _ | _ | _
      · exact ⟨false, rfl⟩
      · exact absurd rfl hv
      · exact ⟨true, rfl⟩
    have hkind : Kind.udpMessageClient ≠ .udpClient := by nofun
    exact ⟨done, (verdict_udpClient_iff done xs).1 (hall _),
      (verdict_unity_iff hkind done xs).1 (hall _)⟩
  · rintro ⟨done, hcpp, hunity⟩
    refine ⟨if done then some true else none, by rcases done with _ | _ <;> nofun, ?_⟩
    rintro (_ | _ | _)
    · exact (verdict_udpClient_iff done xs).2 hcpp
    · exact (verdict_unity_iff (by nofun) done xs).2 hunity
    · exact (verdict_unity_iff (by nofun) done xs).2 hunity

section Causal

variable {κ : Type} [DecidableEq κ]

/-- A datagram that a client reads in its second step is HANDSHAKE_4; the C++ client may
read HANDSHAKE_2 too. -/
def readsInTurn (kind : κ → Kind) (s : State κ) : Action κ → Bool
  | .client c (.datagram buf) =>
    match s.client c with
    | some client =>
      client.place ≠ .step2 || (kind c ≠ .udpClient && 0 < client.abandoned) ||
        isHandshake msgTypeUdpHandshake4 buf ||
          (kind c = .udpClient && isHandshake msgTypeUdpHandshake2 buf)
    | none => true
  | _ => true

/-- The server sends nothing but HANDSHAKE_2 to a client that has not sent HANDSHAKE_3, and
no client has failed. -/
structure Causal (s : State κ) : Prop where
  sent : ∀ {c buf}, buf ∈ s.toServer c →
    buf = handshakeMsg msgTypeUdpHandshake1 ∨ buf = handshakeMsg msgTypeUdpHandshake3
  step2 : ∀ {c}, handshakeMsg msgTypeUdpHandshake3 ∈ s.toServer c →
    ∃ client, s.client c = some client ∧ client.place ≠ .step1
  replied : ∀ {c buf}, buf ∈ s.toClient c →
    buf = handshakeMsg msgTypeUdpHandshake2 ∨ handshakeMsg msgTypeUdpHandshake3 ∈ s.toServer c
  sock : ∀ {fd k}, s.sock fd = some k → k.routine = .send4 ∨ k.routine = .build ∨ k.isOpen ≠ none →
    handshakeMsg msgTypeUdpHandshake3 ∈ s.toServer k.addr
  alive : ∀ {c client}, s.client c = some client → client.place ≠ .failed

omit [DecidableEq κ] in
theorem causal_init : Causal (State.init κ) :=
  ⟨nofun, nofun, nofun, nofun, nofun⟩

variable {s s' : State κ} {c : κ} {kind : κ → Kind}

variable {buf : List UInt8}

theorem Causal.reply (h : Causal s) (hbuf : buf = handshakeMsg msgTypeUdpHandshake2 ∨
      handshakeMsg msgTypeUdpHandshake3 ∈ s.toServer c) : Causal (s.reply c buf) := by
  refine ⟨h.sent, h.step2, ?_, h.sock, h.alive⟩
  intro c' buf' hb
  rcases mem_toClient_reply.1 hb with ⟨rfl, rfl⟩ | hb
  · exact hbuf
  · exact h.replied hb

omit [DecidableEq κ] in
theorem Causal.setSock (h : Causal s) {fd : ℕ} {k : Sock κ}
    (hk : k.routine = .send4 ∨ k.routine = .build ∨ k.isOpen ≠ none →
      handshakeMsg msgTypeUdpHandshake3 ∈ s.toServer k.addr) : Causal (s.setSock fd k) := by
  refine ⟨h.sent, h.step2, h.replied, ?_, h.alive⟩
  intro i x hx hr
  rcases sock_update_eq_some hx with ⟨rfl, rfl⟩ | ⟨-, hx⟩
  · exact hk hr
  · exact h.sock hx hr

omit [DecidableEq κ] in
theorem Causal.length_sent (h : Causal s) (hbuf : buf ∈ s.toServer c) :
    buf.length = udpHandshakeSize := by
  rcases h.sent hbuf with rfl | rfl
  · exact length_handshakeMsg _
  · exact length_handshakeMsg _

omit [DecidableEq κ] in
theorem Causal.mem_of_type3 (h : Causal s) (hbuf : buf ∈ s.toServer c)
    (h3 : msgType buf = msgTypeUdpHandshake3) :
    handshakeMsg msgTypeUdpHandshake3 ∈ s.toServer c := by
  rcases h.sent hbuf with rfl | rfl
  · rw [msgType_handshakeMsg] at h3
    exact absurd h3 (by decide)
  · exact hbuf

theorem Causal.accept (h : Causal s) (hbuf : buf ∈ s.toServer c)
    {bound : Bool} : Causal (s.accept c buf bound) := by
  unfold State.accept
  split_ifs with hlen htype h3 hmem hbound
  · exact absurd (h.length_sent hbuf) hlen
  · exact h.reply (.inl rfl)
  · exact h
  · exact h
  · have hset : Causal (s.setSock s.nextFd ⟨c, .send2 4, none⟩) := by
      refine h.setSock ?_
      rintro (hr | hr | hr)
      · nomatch hr
      · nomatch hr
      · exact absurd rfl hr
    exact ⟨hset.sent, hset.step2, hset.replied, hset.sock, hset.alive⟩
  · exact h

theorem Causal.handshake (h : Causal s) {fd : ℕ} {k : Sock κ} (hk : s.sock fd = some k)
    {outcome : Outcome} (hs : s.handshake fd k outcome = some s') : Causal s' := by
  -- a routine outside its last two calls has no more to show than before
  have hgo : ∀ r : Routine, r ≠ .send4 → r ≠ .build →
      Causal (s.setSock fd { k with routine := r }) := by
    intro r h4 hb
    refine h.setSock ?_
    rintro (hr | hr | ho)
    · exact absurd hr h4
    · exact absurd hr hb
    · have h3 := h.sock hk (.inr (.inr ho))
      exact h3
  unfold State.handshake at hs
  rcases outcome with _ | _ | _ | buf
  · rcases hr : k.routine with (_ | n) | n | _ | _ | _ | _ <;>
      simp only [hr, some.injEq, reduceCtorEq] at hs
    · exact hs ▸ hgo .erase (by nofun) (by nofun)
    · exact hs ▸ (hgo (.receive3 (n + 1)) (by nofun) (by nofun)).reply (.inl rfl)
    · have h3 := h.sock hk (.inl hr)
      exact hs ▸ (h.setSock (k := { k with routine := .build }) fun _ => h3).reply (.inr h3)
    · have h3 := h.sock hk (.inr (.inl hr))
      exact hs ▸ h.setSock fun _ => h3
    · have hset := hgo .ended (by nofun) (by nofun)
      exact hs ▸ ⟨hset.sent, hset.step2, hset.replied, hset.sock, hset.alive⟩
  · rcases hr : k.routine with (_ | n) | n | _ | _ | _ | _ <;>
      simp only [hr, some.injEq, reduceCtorEq] at hs <;>
      exact hs ▸ hgo .erase (by nofun) (by nofun)
  · rcases hr : k.routine with _ | n | _ | _ | _ | _ <;>
      simp only [hr, some.injEq, reduceCtorEq] at hs
    exact hs ▸ hgo (.send2 (n - 1)) (by nofun) (by nofun)
  · rcases hr : k.routine with _ | n | _ | _ | _ | _ <;>
      simp only [hr, reduceCtorEq] at hs
    split_ifs at hs with hmem hlen htype
    · exact some.inj hs ▸ hgo .erase (by nofun) (by nofun)
    · exact some.inj hs ▸ hgo (.send2 n) (by nofun) (by nofun)
    · have h3 := h.mem_of_type3 hmem (not_not.1 htype)
      exact some.inj hs ▸ h.setSock fun _ => h3

theorem step_place (client : Client) (kd : Kind) (x : Input) :
    (kd = .udpClient ∧ (client.step kd x).place = UdpClient.connect client.place x) ∨
      (client.step kd x).place = client.place ∨
        ∃ buf, x = .datagram buf ∧ kd ≠ .udpClient ∧ client.abandoned = 0 ∧
          (client.step kd x).place = unityRead client.place buf := by
  have hunity : (unityHandshake client x).place = client.place ∨ ∃ buf, x = .datagram buf ∧
      client.abandoned = 0 ∧ (unityHandshake client x).place = unityRead client.place buf := by
    rcases x with _ | buf
    · left
      unfold unityHandshake
      dsimp only
      split_ifs <;> rfl
    · by_cases hw : client.place.waits = true
      · by_cases hn : 0 < client.abandoned
        · left
          simp [unityHandshake, hw, hn]
        · exact .inr ⟨buf, rfl, by omega, by simp [unityHandshake, hw, hn]⟩
      · left
        simp [unityHandshake, hw]
  rcases kd with _ | _ | _
  · exact .inl ⟨rfl, rfl⟩
  all_goals
    refine .inr (hunity.imp_right ?_)
    rintro ⟨buf, hx, hp⟩
    exact ⟨buf, hx, by rintro ⟨⟩, hp⟩

variable {client : Client}

theorem step_place_ne_step1 (h : client.place ≠ .step1) (kd : Kind) (x : Input) :
    (client.step kd x).place ≠ .step1 := by
  rcases step_place client kd x with ⟨-, hp⟩ | hp | ⟨buf, -, -, -, hp⟩ <;> rw [hp]
  · rcases hplace : client.place with _ | _ | _ | _
    · exact absurd hplace h
    · rcases x with _ | buf
      · nofun
      · unfold UdpClient.connect
        dsimp only
        split_ifs <;> nofun
    · nofun
    · nofun
  · exact h
  · rcases hplace : client.place with _ | _ | _ | _
    · exact absurd hplace h
    · unfold unityRead
      dsimp only
      split_ifs <;> nofun
    · nofun
    · nofun

theorem mem_sends {kd : Kind} {x : Input} (h : buf ∈ client.sends kd x) :
    buf = handshakeMsg msgTypeUdpHandshake1 ∨
      (buf = handshakeMsg msgTypeUdpHandshake3 ∧ (client.step kd x).place ≠ .step1) := by
  have hsends : buf ∈ (client.step kd x).place.sends := by
    unfold Client.sends at h
    split at h
    · exact h
    · exact h
    · split_ifs at h
      · nomatch h
      · exact h
  rcases hp : (client.step kd x).place with _ | _ | _ | _ <;> rw [hp] at hsends
  · exact .inl (mem_singleton.1 hsends)
  · exact .inr ⟨mem_singleton.1 hsends, by nofun⟩
  · nomatch hsends
  · nomatch hsends

theorem step_place_ne_failed {kd : Kind} {x : Input} (h : client.place ≠ .failed)
    (h1 : ∀ buf, x = .datagram buf → client.place = .step1 →
      isHandshake msgTypeUdpHandshake2 buf = true)
    (h2 : ∀ buf, x = .datagram buf → client.place = .step2 →
      (kd ≠ .udpClient ∧ 0 < client.abandoned) ∨ isHandshake msgTypeUdpHandshake4 buf = true ∨
        (kd = .udpClient ∧ isHandshake msgTypeUdpHandshake2 buf = true)) :
    (client.step kd x).place ≠ .failed := by
  rcases step_place client kd x with ⟨hkd, hp⟩ | hp | ⟨buf, hx, hkd, hn, hp⟩ <;> rw [hp]
  · rcases hplace : client.place with _ | _ | _ | _ <;> rcases x with _ | buf
    · rintro ⟨⟩
    · obtain ⟨hlen, htype⟩ := isHandshake_iff.1 (h1 buf rfl hplace)
      simp [UdpClient.connect, hlen, htype]
    · rintro ⟨⟩
    · rcases h2 buf rfl hplace with ⟨hne, -⟩ | h4 | ⟨-, h2⟩
      · exact absurd hkd hne
      · obtain ⟨hlen, htype⟩ := isHandshake_iff.1 h4
        rw [UdpClient.connect, if_neg (not_not.2 hlen), htype]
        decide
      · obtain ⟨hlen, htype⟩ := isHandshake_iff.1 h2
        simp [UdpClient.connect, hlen, htype]
    · rintro ⟨⟩
    · rintro ⟨⟩
    · exact absurd hplace h
    · exact absurd hplace h
  · exact h
  · rcases hplace : client.place with _ | _ | _ | _
    · obtain ⟨hlen, htype⟩ := isHandshake_iff.1 (h1 buf hx hplace)
      simp [unityRead, hlen, htype]
    · rcases h2 buf hx hplace with ⟨-, hpos⟩ | h4 | ⟨hcpp, -⟩
      · omega
      · obtain ⟨hlen, htype⟩ := isHandshake_iff.1 h4
        simp [unityRead, hlen, htype]
      · exact absurd hcpp hkd
    · rintro ⟨⟩
    · exact absurd hplace h

theorem Causal.input (h : Causal s) {x : Input}
    (hok : readsInTurn kind s (.client c x) = true) (hs : s.input kind c x = some s') :
    Causal s' := by
  unfold State.input at hs
  rcases hc : s.client c with _ | client <;> simp only [hc, reduceCtorEq] at hs
  obtain ⟨hguard, rfl⟩ := ite_some_none_eq_some.1 hs
  obtain ⟨-, harrived⟩ := Bool.and_eq_true_iff.1 hguard
  have hclient : ∀ {c' client'}, update s.client c (some (client.step (kind c) x)) c' =
      some client' → (c' = c ∧ client' = client.step (kind c) x) ∨
        (c' ≠ c ∧ s.client c' = some client') := by
    intro c' client' h'
    by_cases hcc : c' = c
    · subst hcc
      rw [update_self] at h'
      exact .inl ⟨rfl, (some.inj h').symm⟩
    · rw [update_of_ne hcc] at h'
      exact .inr ⟨hcc, h'⟩
  constructor
  · intro c' buf hb
    rcases mem_toServer_request.1 hb with ⟨rfl, hb⟩ | hb
    · exact (mem_sends hb).imp_right And.left
    · exact h.sent hb
  · intro c' hb
    have hstep2 : c' = c → (client.step (kind c) x).place ≠ .step1 := by
      rintro rfl
      rcases mem_toServer_request.1 hb with ⟨-, hb⟩ | hb
      · rcases mem_sends hb with h1 | ⟨-, hne⟩
        · exact absurd h1 (by decide)
        · exact hne
      · obtain ⟨client', hc', hne⟩ := h.step2 hb
        obtain rfl := some.inj (hc.symm.trans hc')
        exact step_place_ne_step1 hne _ _
    by_cases hcc : c' = c
    · exact ⟨_, by subst hcc; exact update_self .., hstep2 hcc⟩
    · rcases mem_toServer_request.1 hb with ⟨hcc', -⟩ | hb
      · exact absurd hcc' hcc
      · obtain ⟨client', hc', hne⟩ := h.step2 hb
        exact ⟨client', (update_of_ne hcc ..).trans hc', hne⟩
  · intro c' buf hb
    exact (h.replied hb).imp_right fun h3 => mem_toServer_request.2 (.inr h3)
  · intro fd k hk hr
    exact mem_toServer_request.2 (.inr (h.sock hk hr))
  · intro c' client' h'
    rcases hclient h' with ⟨rfl, rfl⟩ | ⟨-, h'⟩
    · refine step_place_ne_failed (h.alive hc) ?_ ?_
      · -- in its first step the client can only have got HANDSHAKE_2
        rintro buf rfl hp
        have hmem : buf ∈ s.toClient c' := by simpa using harrived
        rcases h.replied hmem with rfl | h3
        · exact isHandshake_iff.2 ⟨length_handshakeMsg _, msgType_handshakeMsg _⟩
        · obtain ⟨client', hc', hne⟩ := h.step2 h3
          obtain rfl := some.inj (hc.symm.trans hc')
          exact absurd hp hne
      · rintro buf rfl hp
        simp only [readsInTurn, hc, hp, ne_eq, not_true_eq_false, decide_false, Bool.false_or,
          Bool.or_eq_true, Bool.and_eq_true, decide_eq_true_eq] at hok
        rcases hok with (⟨hkd, hn⟩ | h4) | h2
        · exact .inl ⟨by simpa using hkd, hn⟩
        · exact .inr (.inl h4)
        · exact .inr (.inr h2)
    · exact h.alive h'

theorem Causal.connect (h : Causal s) (hnone : s.client c = none) :
    Causal ({ s with client := update s.client c (some .init) }.request c
      Place.step1.sends) := by
  constructor
  · intro c' buf hb
    rcases mem_toServer_request.1 hb with ⟨-, h1⟩ | hold
    · exact .inl (mem_singleton.1 h1)
    · exact h.sent hold
  · intro c' hb
    rcases mem_toServer_request.1 hb with ⟨-, h1⟩ | hold
    · exact absurd (mem_singleton.1 h1) (by decide)
    · obtain ⟨client, hc, hp⟩ := h.step2 hold
      -- a client that has sent HANDSHAKE_3 has been here before
      have hne : c' ≠ c := by
        rintro rfl
        exact nomatch hnone.symm.trans hc
      exact ⟨client, (update_of_ne hne ..).trans hc, hp⟩
  · intro c' buf hb
    exact (h.replied hb).imp_right fun h3 => mem_toServer_request.2 (.inr h3)
  · intro fd k hk hr
    exact mem_toServer_request.2 (.inr (h.sock hk hr))
  · intro c' client hc
    change update s.client c (some .init) c' = some client at hc
    by_cases hcc : c' = c
    · subst hcc
      rw [update_self] at hc
      exact some.inj hc ▸ by nofun
    · rw [update_of_ne hcc] at hc
      exact h.alive hc

theorem Causal.step {a : Action κ} (h : Causal s) (hok : readsInTurn kind s a = true)
    (hs : s.step kind a = some s') : Causal s' := by
  rcases a with c | ⟨c, x⟩ | ⟨c, buf, bound⟩ | ⟨fd, outcome⟩ | ⟨fd, buf⟩ | ⟨fd, buf⟩ | fd
  · obtain ⟨hnone, rfl⟩ := ite_some_none_eq_some.1 hs
    exact h.connect hnone
  · exact h.input hok hs
  · obtain ⟨hmem, rfl⟩ := ite_some_none_eq_some.1 hs
    exact h.accept hmem
  · obtain ⟨k, hk, hs⟩ := bind_eq_some_iff.1 hs
    exact h.handshake hk hs
  · obtain ⟨k, hk, hs⟩ := bind_eq_some_iff.1 hs
    obtain ⟨⟨hopen, -⟩, rfl⟩ := ite_some_none_eq_some.1 hs
    split_ifs
    · exact h.reply (.inr (h.sock hk (.inr (.inr (by rw [hopen]; nofun)))))
    · exact h
  · obtain ⟨k, hk, hs⟩ := bind_eq_some_iff.1 hs
    obtain ⟨⟨hopen, -⟩, rfl⟩ := ite_some_none_eq_some.1 hs
    exact h.reply (.inr (h.sock hk (.inr (.inr (by rw [hopen]; nofun)))))
  · obtain ⟨k, hk, hs⟩ := bind_eq_some_iff.1 hs
    obtain ⟨hopen, hs⟩ := ite_none_right_eq_some.1 hs
    have h3 := h.sock hk (.inr (.inr (by rw [hopen]; nofun)))
    exact some.inj hs ▸ h.setSock fun _ => h3

end Causal

/-- **What the handshake tolerates**: no client fails and all three agree if and only if the
datagrams are read in turn. -/
theorem handshake_tolerates {κ : Type} [DecidableEq κ] (xs : List Input) (kind : κ → Kind) :
    (Tolerates xs ↔ ∃ done, InTurn true done (datagrams xs) ∧ InTurn false done (awaited 0 xs)) ∧
    ∀ (acts : List (Action κ)) (s : State κ),
      run (restrict (readsInTurn kind) (State.step kind)) (State.init κ) acts = some s →
      ∀ c client, s.client c = some client → client.place ≠ .failed := by
  refine ⟨tolerates_iff xs, ?_⟩
  intro acts s h c client hc
  have hs : Causal s := run_restrict_invariant (I := Causal)
    (fun _ _ _ hI hok hstep => hI.step hok hstep) causal_init h
  exact hs.alive hc

/-- A C++ client reads HANDSHAKE_2 twice and HANDSHAKE_4. -/
theorem handshake_tolerates_once :
    Tolerates [.timeout, .datagram (handshakeMsg msgTypeUdpHandshake2),
      .datagram (handshakeMsg msgTypeUdpHandshake2),
      .datagram (handshakeMsg msgTypeUdpHandshake4)] ∧
    ∃ s, run (restrict (readsInTurn fun _ => .udpClient) (State.step fun _ => .udpClient))
        (State.init Unit) connectOnce = some s ∧
      (∃ client, s.client () = some client) ∧
      ∀ client, s.client () = some client → client.place ≠ .failed := by
  constructor
  · have h2 : isHandshake msgTypeUdpHandshake2 (handshakeMsg msgTypeUdpHandshake2) = true := by
      decide
    have h4 : isHandshake msgTypeUdpHandshake4 (handshakeMsg msgTypeUdpHandshake4) = true := by
      decide
    exact (handshake_tolerates _ fun _ : Unit => .udpClient).1.2
      ⟨true, .two h2 (.two rfl h2 (.four h4)), .two h2 (.four h4)⟩
  · have hrun : (run (restrict (readsInTurn fun _ => .udpClient) (State.step fun _ => .udpClient))
        (State.init Unit) connectOnce).map (fun s => (s.client ()).isSome) = some true := by
      decide +kernel
    obtain ⟨s, hs, hp⟩ := exists_of_run_map hrun
    exact ⟨s, hs, isSome_iff_exists.1 hp,
      (handshake_tolerates [] fun _ => .udpClient).2 connectOnce s hs ()⟩

/-- A Unity client that reads a second HANDSHAKE_2 fails, where the C++ client goes on.  And a
heartbeat of the new connection that overtakes HANDSHAKE_4 makes every client fail. -/
theorem handshake_fails :
    (∃ s, run (State.step fun _ => .kcpMessageClient) (State.init Unit)
        [.connect (), .accept () (handshakeMsg msgTypeUdpHandshake1) true, .handshake 0 .success,
          .handshake 0 .timeout, .handshake 0 .success,
          .client () (.datagram (handshakeMsg msgTypeUdpHandshake2)),
          .client () (.datagram (handshakeMsg msgTypeUdpHandshake2))] = some s ∧
      s.client () = some ⟨.failed, 0⟩) ∧
    (∀ kind, verdict kind [.datagram (handshakeMsg msgTypeUdpHandshake2),
        .datagram (handshakeMsg msgTypeUdpHandshake2),
        .datagram (handshakeMsg msgTypeUdpHandshake4)] = some (decide (kind = .udpClient))) ∧
    ∀ kind, ∃ s, run (State.step fun _ => kind) (State.init Unit)
        (connectOnce.dropLast ++ [.send 0 (List.replicate messageHeadSize 0),
          .client () (.datagram (List.replicate messageHeadSize 0))]) = some s ∧
      s.client () = some ⟨.failed, 0⟩ := by
  refine ⟨?_, ?_, ?_⟩
  · exact exists_run_of_decide (by decide +kernel)
  · rintro (_ | _ | _) <;> decide +kernel
  · intro kind
    exact exists_run_of_decide (by rcases kind with _ | _ | _ <;> decide +kernel)

end Corpc.Udp
